import AuctionServer.Support.Machine

/-!
# A cache in front of a function

Questions have answers, and some answers are kept under a key.  A question
whose key has an entry is answered from the entry, whoever wrote it.  Entries
may be dropped at any time, and a question may pass the cache over.

The answers of all such runs are right exactly when no question of the run
leaves a wrong answer under the key of a later one.
-/

/-- The key each question is kept under if any, its answer, and whether that
answer can be kept. -/
structure Memo (α κ β : Type) where
  key : α → Option κ
  answer : α → β
  keeps : α → Bool

namespace Memo

variable {α κ β : Type}

/-- Ask a question, reading and writing the cache or not, or drop an entry. -/
inductive Act (α κ : Type) where
  | ask (question : α) (reads writes : Bool)
  | drop (key : κ)

/-- The question of an act. -/
def Act.question? : Act α κ → Option α
  | .ask question _ _ => some question
  | .drop _ => none

/-- An act on a cache that works. -/
def Act.Plain : Act α κ → Prop
  | .ask _ reads writes => reads = true ∧ writes = true
  | .drop _ => True

/-- Questions asked of a cache that works. -/
def plain (questions : List α) : List (Act α κ) :=
  questions.map fun question => .ask question true true

theorem filterMap_plain (questions : List α) :
    (plain questions : List (Act α κ)).filterMap Act.question? = questions := by
  induction questions with
  | nil => rfl
  | cons question questions ih =>
      have hcons : (plain (question :: questions) : List (Act α κ)) =
          .ask question true true :: plain questions := rfl
      rw [hcons, List.filterMap_cons]
      simp [Act.question?, ih]

theorem plain_plain {questions : List α} {i : Act α κ}
    (h : i ∈ (plain questions : List (Act α κ))) :
    i.Plain ∧ ∃ b, i.question? = some b := by
  obtain ⟨b, -, rfl⟩ := List.mem_map.mp h
  exact ⟨⟨rfl, rfl⟩, b, rfl⟩

/-- In an ordered list of questions the first is in order with the others. -/
theorem pairwise_questions {R : α → α → Prop} {i : Act α κ}
    {acts : List (Act α κ)}
    (h : ((i :: acts).filterMap Act.question?).Pairwise R) :
    (∀ a, i.question? = some a →
        ∀ b ∈ acts.filterMap Act.question?, R a b) ∧
      (acts.filterMap Act.question?).Pairwise R := by
  rw [List.filterMap_cons] at h
  cases hquestion : i.question? with
  | none =>
      rw [hquestion] at h
      exact ⟨by simp, h⟩
  | some a =>
      rw [hquestion] at h
      obtain ⟨hfirst, hothers⟩ := List.pairwise_cons.mp h
      refine ⟨?_, hothers⟩
      intro a' ha'
      obtain rfl := Option.some.inj ha'
      exact hfirst

/-- A recorded act with the caches around it. -/
abbrev Event (α κ β : Type) := Machine.Event (κ → Option β) (Act α κ) (Option β)

/-- If the event asks a question, it is given its answer. -/
def Honest (M : Memo α κ β) (e : Event α κ β) : Prop :=
  ∀ question reads writes, e.input = .ask question reads writes →
    e.output = some (M.answer question)

/-- What `a` leaves in the cache is right for `b`. -/
def Agree (M : Memo α κ β) (a b : α) : Prop :=
  ∀ k, M.key a = some k → M.key b = some k → M.keeps a = true →
    M.answer b = M.answer a

variable [DecidableEq κ] (M : Memo α κ β) (cache : κ → Option β)

/-- What a question finds. -/
def find (question : α) (reads : Bool) : Option β :=
  if reads then (M.key question).bind cache else none

/-- The cache once the answer to a question is computed. -/
def keep (question : α) (writes : Bool) : κ → Option β :=
  match M.key question with
  | none => cache
  | some k =>
      if writes && M.keeps question then
        Function.update cache k (some (M.answer question))
      else cache

/-- One act. -/
def act : Act α κ → Option β × (κ → Option β)
  | .ask question reads writes =>
      match M.find cache question reads with
      | some found => (some found, cache)
      | none => (some (M.answer question), M.keep cache question writes)
  | .drop k => (none, Function.update cache k none)

/-- The cache as a machine driven by acts. -/
def machine : Machine (κ → Option β) (Act α κ) (Option β) where
  step := fun cache i => some (M.act cache i)

variable {M} {cache : κ → Option β}

theorem fires_iff {e : Event α κ β} :
    M.machine.Fires e ↔ M.act e.before e.input = (e.output, e.after) := by
  simp [Machine.Fires, machine]

theorem act_ask_of_found {question : α} {reads writes : Bool} {found : β}
    (h : M.find cache question reads = some found) :
    M.act cache (.ask question reads writes) = (some found, cache) := by
  simp [act, h]

theorem act_ask_of_missed {question : α} {reads writes : Bool}
    (h : M.find cache question reads = none) :
    M.act cache (.ask question reads writes) =
      (some (M.answer question), M.keep cache question writes) := by
  simp [act, h]

/-- A kept answer is found again under its own key, and the other entries are
as before. -/
theorem keep_cases (question : α) (writes : Bool) (k : κ) :
    M.keep cache question writes k = cache k ∨
      (M.key question = some k ∧ M.keeps question = true ∧
        M.keep cache question writes k = some (M.answer question)) := by
  unfold keep
  cases hkey : M.key question with
  | none => exact Or.inl rfl
  | some k' =>
      by_cases hwrites : (writes && M.keeps question) = true
      · simp only [if_pos hwrites]
        by_cases hk : k = k'
        · subst k
          exact Or.inr ⟨rfl, (Bool.and_eq_true_iff.mp hwrites).2,
            Function.update_self _ _ _⟩
        · exact Or.inl (Function.update_of_ne hk _ _)
      · simp only [if_neg hwrites]
        exact Or.inl trivial

/-! ## Right answers -/

/-- Every entry is the answer to a question that was asked. -/
def Filled (M : Memo α κ β) (asked : α → Prop) (cache : κ → Option β) : Prop :=
  ∀ k found, cache k = some found →
    ∃ question, asked question ∧ M.key question = some k ∧
      M.keeps question = true ∧ found = M.answer question

omit [DecidableEq κ] in
theorem Filled.mono {asked asked' : α → Prop} (h : M.Filled asked cache)
    (hsub : ∀ question, asked question → asked' question) :
    M.Filled asked' cache := by
  intro k found hfound
  obtain ⟨question, hasked, hkey, hkeeps, rfl⟩ := h k found hfound
  exact ⟨question, hsub question hasked, hkey, hkeeps, rfl⟩

/-- One act over a filled cache: a question that agrees with the ones before
it is given its answer, and the cache stays filled. -/
theorem Filled.act {asked : α → Prop} (h : M.Filled asked cache)
    (i : Act α κ)
    (hagree : ∀ b, i.question? = some b → ∀ a, asked a → M.Agree a b) :
    (∀ b, i.question? = some b → (M.act cache i).1 = some (M.answer b)) ∧
      M.Filled (fun a => asked a ∨ i.question? = some a) (M.act cache i).2 := by
  cases i with
  | drop k =>
      refine ⟨by simp [Act.question?], ?_⟩
      intro k' found hfound
      by_cases hk : k' = k
      · subst k'
        simp [Memo.act] at hfound
      · have hold : cache k' = some found := by
          simpa [Memo.act, Function.update_of_ne hk] using hfound
        exact h.mono (fun _ => Or.inl) k' found hold
  | ask b reads writes =>
      have hmono := h.mono fun a (ha : asked a) =>
        (Or.inl ha : asked a ∨ (Act.ask b reads writes : Act α κ).question? = some a)
      cases hfind : M.find cache b reads with
      | some found =>
          refine ⟨?_, by simpa [Memo.act, hfind] using hmono⟩
          intro b' hb'
          obtain rfl : b = b' := Option.some.inj hb'
          obtain ⟨k, hkey, hentry⟩ : ∃ k, M.key b = some k ∧
              cache k = some found := by
            cases reads <;> simp [find, Option.bind_eq_some_iff] at hfind
            exact hfind
          obtain ⟨a, hasked, hkey', hkeeps, rfl⟩ := h k found hentry
          simp [Memo.act, hfind,
            hagree b rfl a hasked k hkey' hkey hkeeps]
      | none =>
          refine ⟨?_, ?_⟩
          · intro b' hb'
            obtain rfl : b = b' := Option.some.inj hb'
            simp [Memo.act, hfind]
          · simp only [Memo.act, hfind]
            intro k found hfound
            rcases keep_cases b writes k with hold | ⟨hkey, hkeeps, hnew⟩
            · exact hmono k found (hold.symm.trans hfound)
            · rw [hnew] at hfound
              exact ⟨b, Or.inr rfl, hkey, hkeeps, (Option.some.inj hfound).symm⟩

theorem honest_of_filled {asked : α → Prop} {acts : List (Act α κ)}
    {cache' : κ → Option β} {es : List (Event α κ β)}
    (h : M.Filled asked cache)
    (hasked : ∀ a, asked a → ∀ b ∈ acts.filterMap Act.question?, M.Agree a b)
    (hacts : (acts.filterMap Act.question?).Pairwise M.Agree)
    (hrun : M.machine.run cache acts = some (es, cache')) :
    ∀ e ∈ es, M.Honest e := by
  induction acts generalizing asked cache es with
  | nil =>
      obtain ⟨rfl, -⟩ := by simpa using hrun
      simp
  | cons i acts ih =>
      obtain ⟨o, after, rest, hstep, hrest, rfl⟩ :=
        Machine.run_cons_cases hrun
      have hact : M.act cache i = (o, after) := Option.some.inj hstep
      have hhead : ∀ b, i.question? = some b →
          b ∈ (i :: acts).filterMap Act.question? := by
        intro b hb
        simp [hb]
      have htail : ∀ b ∈ acts.filterMap Act.question?,
          b ∈ (i :: acts).filterMap Act.question? := by
        intro b hb
        rw [List.filterMap_cons]
        cases i.question? with
        | none => exact hb
        | some _ => exact List.mem_cons_of_mem _ hb
      obtain ⟨hanswer, hfilled⟩ :=
        h.act i fun b hb a ha => hasked a ha b (hhead b hb)
      rw [hact] at hanswer hfilled
      obtain ⟨hfirst, hothers⟩ := pairwise_questions hacts
      intro e he
      rcases List.mem_cons.mp he with rfl | he
      · intro b reads writes hinput
        obtain rfl : i = .ask b reads writes := hinput
        exact hanswer b rfl
      · refine ih hfilled ?_ hothers hrest e he
        rintro a (ha | ha) b hb
        · exact hasked a ha b (htail b hb)
        · exact hfirst a ha b hb

/-! ## A wrong answer -/

/-- Over a cache that keeps an answer under a key, plain questions leave it
there. -/
theorem act_keeps_entry {k : κ} {found : β} {i : Act α κ} (hplain : i.Plain)
    (hask : ∃ b, i.question? = some b) (h : cache k = some found) :
    (M.act cache i).2 k = some found := by
  cases i with
  | drop k' => simp [Act.question?] at hask
  | ask b reads writes =>
      obtain ⟨rfl, rfl⟩ := hplain
      cases hfind : M.find cache b true with
      | some found' => simpa [act, hfind] using h
      | none =>
          simp only [act, hfind]
          rcases keep_cases b true k with hold | ⟨hkey, -, -⟩
          · rw [hold, h]
          · simp [find, hkey, h] at hfind

theorem run_some (acts : List (Act α κ)) :
    ∃ es cache', M.machine.run cache acts = some (es, cache') := by
  induction acts generalizing cache with
  | nil => exact ⟨[], cache, rfl⟩
  | cons i acts ih =>
      obtain ⟨es, cache', hrest⟩ := @ih (M.act cache i).2
      exact ⟨_, cache', Machine.run_cons rfl hrest⟩

theorem run_plain_keeps_entry {k : κ} {found : β} {questions : List α}
    {es : List (Event α κ β)} {cache' : κ → Option β}
    (hrun : M.machine.run cache (plain questions) = some (es, cache'))
    (h : cache k = some found) : cache' k = some found := by
  have hkeep : M.machine.Preserves
      (fun e => e.input.Plain ∧ ∃ q, e.input.question? = some q)
      (fun cache => cache k = some found) := by
    intro e hfires hplain hentry
    have hact := @act_keeps_entry α κ β _ M e.before k found e.input hplain.1
      hplain.2 hentry
    rw [fires_iff.mp hfires] at hact
    exact hact
  refine (Machine.run_invariant hkeep hrun ?_ h).1
  intro e he
  exact plain_plain (Machine.run_input_mem hrun e he)

/-- A question whose entry has been dropped leaves its answer there. -/
theorem act_ask_of_dropped {k : κ} {a : α} (hkey : M.key a = some k)
    (hkeeps : M.keeps a = true) :
    (M.act (Function.update cache k none) (.ask a true true)).2 k =
      some (M.answer a) := by
  have hmiss : M.find (Function.update cache k none) a true = none := by
    simp [find, hkey]
  rw [act_ask_of_missed hmiss]
  simp [keep, hkey, hkeeps]

/-- When two questions disagree, dropping the entry before the first of them
makes the second one read the answer of the first. -/
theorem exists_dishonest {questions : List α}
    (h : ¬ questions.Pairwise M.Agree) :
    ∃ acts : List (Act α κ), (∀ i ∈ acts, i.Plain) ∧
      acts.filterMap Act.question? = questions ∧
        ∃ es cache', M.machine.run cache acts = some (es, cache') ∧
          ∃ e ∈ es, ¬ M.Honest e := by
  rw [List.pairwise_iff_forall_sublist] at h
  push Not at h
  obtain ⟨a, b, hsub, hdisagree⟩ := h
  obtain ⟨front, back, rfl, ha, hb⟩ := List.cons_sublist_iff.mp hsub
  obtain ⟨pre, mid₁, rfl⟩ := List.append_of_mem ha
  obtain ⟨mid₂, post, rfl⟩ :=
    List.append_of_mem (List.singleton_sublist.mp hb)
  simp only [Agree] at hdisagree
  push Not at hdisagree
  obtain ⟨k, hkeya, hkeyb, hkeeps, hne⟩ := hdisagree
  -- Run up to the first question, with its entry dropped.
  obtain ⟨es₁, cache₁, hrun₁⟩ := @run_some α κ β _ M cache (plain pre)
  let cache₂ := Function.update cache₁ k none
  have hdrop : M.act cache₁ (.drop k) = (none, cache₂) := rfl
  obtain ⟨o₃, cache₃, hask⟩ : ∃ o₃ cache₃,
      M.act cache₂ (.ask a true true) = (o₃, cache₃) := ⟨_, _, rfl⟩
  have hkept : cache₃ k = some (M.answer a) := by
    have hanswer := @act_ask_of_dropped α κ β _ M cache₁ k a hkeya hkeeps
    rw [hask] at hanswer
    exact hanswer
  -- The questions in between leave the answer where it is.
  obtain ⟨es₄, cache₄, hrun₄⟩ :=
    @run_some α κ β _ M cache₃ (plain (mid₁ ++ mid₂))
  have hstill : cache₄ k = some (M.answer a) :=
    run_plain_keeps_entry hrun₄ hkept
  have hhit : M.act cache₄ (.ask b true true) =
      (some (M.answer a), cache₄) := by
    simp [act, find, hkeyb, hstill]
  obtain ⟨es₆, cache₆, hrun₆⟩ := @run_some α κ β _ M cache₄ (plain post)
  refine ⟨plain pre ++ (.drop k :: .ask a true true ::
    (plain (mid₁ ++ mid₂) ++ (.ask b true true :: plain post))), ?_, ?_, ?_⟩
  · intro i hi
    simp only [List.mem_append, List.mem_cons] at hi
    rcases hi with hi | rfl | rfl | hi | rfl | hi
    · exact (plain_plain hi).1
    · trivial
    · exact ⟨rfl, rfl⟩
    · exact (plain_plain hi).1
    · exact ⟨rfl, rfl⟩
    · exact (plain_plain hi).1
  · simp only [List.filterMap_append, List.filterMap_cons, filterMap_plain,
      Act.question?]
    simp
  · have hlast := Machine.run_cons (congrArg some hhit) hrun₆
    have hback := Machine.run_append_eq_some.mpr
      ⟨cache₄, es₄, _, hrun₄, hlast, rfl⟩
    have hfirst := Machine.run_cons (congrArg some hask) hback
    have hdropped := Machine.run_cons (congrArg some hdrop) hfirst
    refine ⟨_, cache₆, Machine.run_append_eq_some.mpr
      ⟨cache₁, es₁, _, hrun₁, hdropped, rfl⟩,
      ⟨cache₄, .ask b true true, some (M.answer a), cache₄⟩, by simp, ?_⟩
    intro hhonest
    have hsame : some (M.answer a) = some (M.answer b) :=
      hhonest b true true rfl
    exact hne (Option.some.inj hsame).symm

/-- Started empty, a cache answers every run of the questions right exactly
when the questions agree, also when only runs in which it works count. -/
theorem honest_iff {admits : Act α κ → Prop} (hplain : ∀ i, i.Plain → admits i)
    (questions : List α) :
    (∀ acts : List (Act α κ), (∀ i ∈ acts, admits i) →
        acts.filterMap Act.question? = questions →
          ∀ es cache', M.machine.run (fun _ => none) acts = some (es, cache') →
            ∀ e ∈ es, M.Honest e) ↔
      questions.Pairwise M.Agree := by
  constructor
  · intro hall
    by_contra hdisagree
    obtain ⟨acts, hacts, hquestions, es, cache', hrun, e, he, hwrong⟩ :=
      @exists_dishonest α κ β _ M (fun _ => none) questions hdisagree
    exact hwrong (hall acts (fun i hi => hplain i (hacts i hi)) hquestions es
      cache' hrun e he)
  · rintro hagree acts - rfl es cache' hrun
    have hempty : M.Filled (fun _ => False) fun _ => none := by
      intro k found hfound
      cases hfound
    exact honest_of_filled hempty (fun _ hfalse => hfalse.elim) hagree hrun

end Memo
