import AuctionServer.Store.ItemCoherence
import AuctionServer.Support.Threads

/-!
# Concurrent reads and updates of listings

`getAuctionItem` asks the cache, then the collection, then fills the cache;
`updateAuctionItem` writes the document, then drops the cached one.  When the
steps interleave, a read may fill the cache with a document that has been
replaced meanwhile.  That is harmless while an update is still to drop the
entry, and it is the only way to a stale entry: if every fill is harmless, then
once all calls have finished the cache hides no update.
-/

namespace AuctionServer

/-- A call on a single listing. -/
inductive ItemOperation where
  | get (id : UInt64)
  | update (item : AuctionItem)

/-- Where a call is: the store call it makes next, with what it needs for it. -/
inductive ItemProgress where
  | getting (id : UInt64)
  | finding (id : UInt64)
  | caching (id : UInt64) (item : AuctionItem)
  | updating (item : AuctionItem)
  | deleting (id : UInt64) (modified : Bool)
deriving DecidableEq

/-- What a call returns. -/
inductive ItemResult where
  | found (item : Option AuctionItem)
  | updated (result : Bool)
deriving DecidableEq

/-- What a sale or a cancellation changes in a listing. -/
def AuctionItem.standing (item : AuctionItem) :
    AuctionStatus × UInt32 × UInt32 × UInt32 :=
  (item.status, item.buyerId, item.price, item.item.ownerId)

/-- The strings of the listing are in UTF-8. -/
def AuctionItem.Encodes (item : AuctionItem) : Prop :=
  utf8Valid item.item.name = true ∧ utf8Valid item.item.description = true

/-- If the call is an update, it writes a listing that can be cached. -/
def ItemOperation.Encodes : ItemOperation → Prop
  | .get _ => True
  | .update item => item.Encodes

/-- The call is an update of the listing. -/
def ItemProgress.Updates (id : UInt64) : ItemProgress → Prop
  | .updating item => item.id = id
  | .deleting id' _ => id' = id
  | _ => False

namespace Database

/-- The `find_one` of `getAuctionItem`, and the conversion of what it found. -/
def findAuctionItemStep (db : Database) (id : UInt64) :
    Database × (ItemProgress ⊕ ItemResult) :=
  match db.findAuction id with
  | none => (db, .inr (.found none))
  | some doc =>
      if db.redisAvailable then
        if (itemToJson (bsonToItem doc)).dumps then
          (db, .inl (.caching id (bsonToItem doc)))
        else (db, .inr (.found none))
      else (db, .inr (.found (some (bsonToItem doc))))

/-- `getAuctionItem` and `updateAuctionItem` over servers that answer, one
store call at a time. -/
def itemProgressStep (db : Database) :
    ItemProgress → Unit → Database × (ItemProgress ⊕ ItemResult)
  | .getting id, _ =>
      if db.redisAvailable then
        match db.redis[getItemCacheKey id]? with
        | some cached => (db, .inr (.found (itemOfJson cached)))
        | none => (db, .inl (.finding id))
      else db.findAuctionItemStep id
  | .finding id, _ => db.findAuctionItemStep id
  | .caching id item, _ =>
      ({ db with redis := db.redis.insert (getItemCacheKey id) (itemToJson item) },
        .inr (.found (some item)))
  | .updating item, _ =>
      (db.setAuction item,
        if db.redisAvailable then
          .inl (.deleting item.id (db.modifiesAuction item))
        else .inr (.updated (db.modifiesAuction item)))
  | .deleting id modified, _ =>
      ({ db with redis := db.redis.erase (getItemCacheKey id) },
        .inr (.updated modified))

/-- The first store call of a call. -/
def startItem : ItemOperation → ItemProgress
  | .get id => .getting id
  | .update item => .updating item

/-- Calls of `getAuctionItem` and `updateAuctionItem` in steps. -/
def itemOperations :
    Routine Database ItemOperation Unit ItemProgress ItemResult where
  start := startItem
  step := itemProgressStep

variable {db : Database}

/-- A read that has missed the cache. -/
theorem itemOperations_find_alone (db : Database) (id : UInt64) :
    itemOperations.alone db (.finding id) [(), ()] =
      some (.found (db.findAuctionItem ⟨.answered, .answered, .done⟩ id).1,
        (db.findAuctionItem ⟨.answered, .answered, .done⟩ id).2) := by
  cases hdoc : db.findAuction id with
  | none =>
      simp [itemOperations, Routine.alone, itemProgressStep, findAuctionItemStep,
        findAuctionItem, hdoc]
  | some doc =>
      cases hredis : db.redisAvailable with
      | false =>
          simp [itemOperations, Routine.alone, itemProgressStep,
            findAuctionItemStep, findAuctionItem, cacheAuctionItem, hdoc, hredis]
      | true =>
          by_cases hdumps : (itemToJson (bsonToItem doc)).dumps = true
          · simp [itemOperations, Routine.alone, itemProgressStep,
              findAuctionItemStep, findAuctionItem, cacheAuctionItem, hdoc,
              hredis, hdumps]
          · simp [itemOperations, Routine.alone, itemProgressStep,
              findAuctionItemStep, findAuctionItem, cacheAuctionItem, hdoc,
              hredis, hdumps]

/-- Alone, the steps of a read make up `getAuctionItem`. -/
theorem itemOperations_get_alone (db : Database) (id : UInt64) :
    itemOperations.alone db (.getting id) [(), (), ()] =
      some (.found (db.getAuctionItem ⟨.answered, .answered, .done⟩ id).1,
        (db.getAuctionItem ⟨.answered, .answered, .done⟩ id).2) := by
  cases hredis : db.redisAvailable with
  | false =>
      cases hdoc : db.findAuction id with
      | none =>
          simp [itemOperations, Routine.alone, itemProgressStep,
            findAuctionItemStep, getAuctionItem, findAuctionItem, hdoc, hredis]
      | some doc =>
          simp [itemOperations, Routine.alone, itemProgressStep,
            findAuctionItemStep, getAuctionItem, findAuctionItem,
            cacheAuctionItem, hdoc, hredis]
  | true =>
      have hfind := itemOperations_find_alone db id
      cases hcached : db.redis[getItemCacheKey id]? with
      | some cached =>
          simp [itemOperations, Routine.alone, itemProgressStep, getAuctionItem,
            hredis, hcached]
      | none =>
          have hfirst : itemOperations.step db (.getting id) () =
              (db, .inl (.finding id)) := by
            simp [itemOperations, itemProgressStep, hredis, hcached]
          rw [Routine.alone, hfirst]
          simpa [getAuctionItem, hredis, hcached] using hfind

/-- Alone, the steps of an update make up `updateAuctionItem`. -/
theorem itemOperations_update_alone (db : Database) (item : AuctionItem) :
    ∃ modified, db.updateAuctionItem ⟨.done, .done⟩ item =
        (.ok modified, (db.updateAuctionItem ⟨.done, .done⟩ item).2) ∧
      itemOperations.alone db (.updating item) [(), ()] =
        some (.updated modified,
          (db.updateAuctionItem ⟨.done, .done⟩ item).2) := by
  cases hredis : db.redisAvailable with
  | false =>
      refine ⟨db.modifiesAuction item, ?_⟩
      simp [itemOperations, Routine.alone, itemProgressStep, updateAuctionItem,
        hredis, WriteOutcome.reports]
  | true =>
      refine ⟨db.modifiesAuction item, ?_⟩
      simp [itemOperations, Routine.alone, itemProgressStep, updateAuctionItem,
        hredis, WriteOutcome.reports, redisDel]

/-! ## What the cache shows -/

/-- A cached object of the listing shows the standing of the document. -/
def EntryShows (db : Database) (id : UInt64) : Prop :=
  ∀ cached, db.cachedAuction id = some cached →
    ∃ item doc, itemOfJson cached = some item ∧ db.findAuction id = some doc ∧
      item.standing = (bsonToItem doc).standing

/-- The document of the listing, if any, can be cached. -/
def DocumentEncodes (db : Database) (id : UInt64) : Prop :=
  ∀ doc, db.findAuction id = some doc → (bsonToItem doc).Encodes

/-- The calls from here on that read listings, and entries that expire
meanwhile, do not change what is read of the listing: the standing of its
document. -/
def LaterReadsShow (db : Database) (id : UInt64) : Prop :=
  ∀ calls : List ItemCall,
    (∀ call ∈ calls, (∃ id', call = .get id') ∨ ∃ key, call = .expireKey key) →
      ∀ es db', itemMachine.run db calls = some (es, db') →
        ∀ e ∈ es, e.input = .get id →
          ∃ found, e.output = .found found ∧
            found.map AuctionItem.standing =
              (db.findAuction id).map fun doc => (bsonToItem doc).standing

/-- While the listing is in the cache as stored, or not in it, a read returns
the standing of its document. -/
theorem EntryShows.getAuctionItem {id : UInt64} (h : db.redisAvailable = true →
      db.EntryShows id) (hdoc : db.DocumentEncodes id) :
    (db.getAuctionItem ⟨.answered, .answered, .done⟩ id).1.map
        AuctionItem.standing =
      (db.findAuction id).map fun doc => (bsonToItem doc).standing := by
  cases hredis : db.redisAvailable with
  | false =>
      cases hfound : db.findAuction id with
      | none => simp [Database.getAuctionItem, findAuctionItem, hredis, hfound]
      | some doc =>
          simp [Database.getAuctionItem, findAuctionItem, cacheAuctionItem,
            hredis, hfound]
  | true =>
      cases hcached : db.cachedAuction id with
      | some cached =>
          obtain ⟨item, doc, hitem, hfound, hsame⟩ := h hredis cached hcached
          rw [cachedAuction] at hcached
          simp [Database.getAuctionItem, hredis, hcached, hitem, hfound, hsame]
      | none =>
          rw [cachedAuction] at hcached
          cases hfound : db.findAuction id with
          | none =>
              simp [Database.getAuctionItem, findAuctionItem, hredis, hcached,
                hfound]
          | some doc =>
              have hdumps := (itemToJson_dumps (bsonToItem doc)).mpr
                (hdoc doc hfound)
              simp [Database.getAuctionItem, findAuctionItem, cacheAuctionItem,
                hredis, hcached, hfound, hdumps]

/-- The entry just written shows what was written. -/
theorem EntryShows.insert {id id' : UInt64} {item : AuctionItem}
    (hentry : id' ≠ id → db.EntryShows id)
    (hitem : id' = id → ∃ doc, db.findAuction id = some doc ∧
      item.standing = (bsonToItem doc).standing) :
    EntryShows { db with
      redis := db.redis.insert (getItemCacheKey id') (itemToJson item) } id := by
  intro cached hcached
  by_cases hid : id' = id
  · obtain ⟨doc, hdoc, hsame⟩ := hitem hid
    subst hid
    simp only [cachedAuction, Std.ExtTreeMap.getElem?_insert_self,
      Option.some.injEq] at hcached
    subst hcached
    exact ⟨item.plain, doc, itemOfJson_itemToJson item, hdoc, hsame⟩
  · refine hentry hid cached ?_
    simpa [cachedAuction, Std.ExtTreeMap.getElem?_insert,
      getItemCacheKey_ne (Ne.symm hid)] using hcached

theorem EntryShows.erase {id : UInt64} (h : db.EntryShows id) (key : String) :
    EntryShows { db with redis := db.redis.erase key } id := by
  intro cached hcached
  apply h cached
  simp only [cachedAuction, Std.ExtTreeMap.getElem?_erase] at hcached ⊢
  split at hcached
  · cases hcached
  · exact hcached

theorem EntryShows.of_erased (db : Database) (id : UInt64) :
    EntryShows { db with redis := db.redis.erase (getItemCacheKey id) } id := by
  intro cached hcached
  simp [cachedAuction] at hcached

/-- The next read is one of the later ones. -/
theorem LaterReadsShow.get {id : UInt64} (h : db.LaterReadsShow id) :
    (db.getAuctionItem ⟨.answered, .answered, .done⟩ id).1.map
        AuctionItem.standing =
      (db.findAuction id).map fun doc => (bsonToItem doc).standing := by
  obtain ⟨found, hfound, hsame⟩ := h [.get id] (by simp) _ _
    (Machine.run_singleton rfl) _ (List.mem_singleton_self _) rfl
  obtain rfl := ItemReply.found.inj hfound
  exact hsame

/-- What the reads from here on keep. -/
structure ShowsFrom (start db : Database) (id : UInt64) : Prop where
  auctions : db.auctions = start.auctions
  available : db.redisAvailable = start.redisAvailable
  entry : db.redisAvailable = true → db.EntryShows id

theorem ShowsFrom.get {start : Database} {id : UInt64}
    (h : ShowsFrom start db id) (id' : UInt64) :
    ShowsFrom start (db.getAuctionItem ⟨.answered, .answered, .done⟩ id').2
      id := by
  cases hredis : db.redisAvailable with
  | false =>
      have hsame : (db.getAuctionItem ⟨.answered, .answered, .done⟩ id').2 =
          db := by
        cases hdoc : db.findAuction id' with
        | none => simp [Database.getAuctionItem, findAuctionItem, hredis, hdoc]
        | some doc =>
            simp [Database.getAuctionItem, findAuctionItem, cacheAuctionItem,
              hredis, hdoc]
      rw [hsame]
      exact h
  | true =>
      rcases (getAuctionItem_answered hredis id').2 with
        hsame | ⟨doc, cached, hdoc, hencode, hfilled⟩
      · rw [hsame]
        exact h
      · have hcached : cached = itemToJson (bsonToItem doc) := by
          simp only [itemCodec] at hencode
          split at hencode
          · exact (Option.some.inj hencode).symm
          · cases hencode
        rw [hfilled, hcached]
        refine ⟨h.auctions, h.available, fun _ => ?_⟩
        apply EntryShows.insert fun _ => h.entry hredis
        rintro rfl
        exact ⟨doc, hdoc, rfl⟩

theorem laterReadsShow {id : UInt64}
    (h : db.redisAvailable = true → db.EntryShows id)
    (hdoc : db.DocumentEncodes id) : db.LaterReadsShow id := by
  intro calls hcalls es db' hrun e he hinput
  have hkeep : itemMachine.Preserves
      (fun e => (∃ id', e.input = .get id') ∨ ∃ key, e.input = .expireKey key)
      (fun db' => ShowsFrom db db' id) := by
    rintro ⟨before, call, reply, after⟩ hfires hcall hbefore
    change before.itemStep call = some (reply, after) at hfires
    rcases hcall with ⟨id', rfl⟩ | ⟨key, rfl⟩
    · obtain ⟨-, rfl⟩ := Prod.mk.inj (Option.some.inj hfires)
      exact hbefore.get id'
    · obtain ⟨-, rfl⟩ := Prod.mk.inj (Option.some.inj hfires)
      exact ⟨hbefore.auctions, hbefore.available,
        fun hredis => (hbefore.entry hredis).erase key⟩
  obtain ⟨-, hbefore⟩ := Machine.run_invariant hkeep hrun
    (fun e he => hcalls e.input (Machine.run_input_mem hrun e he))
    ⟨rfl, rfl, h⟩
  obtain ⟨⟨hauctions, -, hentry⟩, -⟩ := hbefore e he
  have hsame : e.before.findAuction id = db.findAuction id := by
    simp only [findAuction, hauctions]
  have hfires := Machine.run_fires hrun e he
  rw [Machine.Fires, hinput] at hfires
  refine ⟨(e.before.getAuctionItem ⟨.answered, .answered, .done⟩ id).1,
    (Prod.mk.inj (Option.some.inj hfires)).1.symm, ?_⟩
  rw [EntryShows.getAuctionItem hentry, hsame]
  intro doc hfound
  exact hdoc doc (hsame ▸ hfound)

/-! ## Interleaved calls -/

/-- A step in a run of concurrent calls. -/
abbrev ItemProgressEvent :=
  Machine.Event (Routine.Threads Database ItemProgress)
    (Routine.Turn ItemOperation Unit) (Routine.Progress ItemResult)

/-- Some call is updating the listing. -/
def Updating (s : Routine.Threads Database ItemProgress) (id : UInt64) : Prop :=
  ∃ i m, s.locals i = some m ∧ m.Updates id

/-- If the step fills the cache, what it writes shows the standing of the
document now stored, or an update of the listing is under way. -/
def FillsHarmlessly (id : UInt64) (e : ItemProgressEvent) : Prop :=
  ∀ i item, e.input = .advance i () →
    e.before.locals i = some (.caching id item) →
      Updating e.before id ∨
        ∃ doc, e.before.shared.findAuction id = some doc ∧
          item.standing = (bsonToItem doc).standing

/-- What holds between the steps: the entry shows the stored document, or an
update of the listing is under way. -/
def Shown (id : UInt64) (s : Routine.Threads Database ItemProgress) : Prop :=
  s.shared.redisAvailable = true → s.shared.EntryShows id ∨ Updating s id

/-- An update by another thread is still under way after a step. -/
theorem Updating.advance {s t : Routine.Threads Database ItemProgress}
    {id : UInt64} {i : ℕ} {m : ItemProgress} {next : Option ItemProgress}
    (h : Updating s id) (hm : s.locals i = some m) (hother : ¬ m.Updates id)
    (hlocals : t.locals = Function.update s.locals i next) : Updating t id := by
  obtain ⟨j, n, hn, hupdates⟩ := h
  have hne : j ≠ i := by
    rintro rfl
    obtain rfl := Option.some.inj (hm.symm.trans hn)
    exact hother hupdates
  exact ⟨j, n, by rw [hlocals, Function.update_of_ne hne, hn], hupdates⟩

theorem findAuctionItemStep_fst (db : Database) (id : UInt64) :
    (db.findAuctionItemStep id).1 = db := by
  unfold findAuctionItemStep
  cases db.findAuction id with
  | none => rfl
  | some doc =>
      dsimp only
      split
      · split <;> rfl
      · rfl

theorem itemProgressStep_getting_fst (db : Database) (id : UInt64) :
    (db.itemProgressStep (.getting id) ()).1 = db := by
  rw [itemProgressStep]
  split
  · cases db.redis[getItemCacheKey id]? <;> rfl
  · exact findAuctionItemStep_fst db id

/-- Over a usable cache, an update goes on to drop the entry. -/
theorem itemProgressStep_updating_snd (havailable : db.redisAvailable = true)
    (item : AuctionItem) (o : Unit) :
    (db.itemProgressStep (.updating item) o).2 =
      .inl (.deleting item.id (db.modifiesAuction item)) :=
  if_pos havailable

theorem EntryShows.setAuction_of_ne {id : UInt64} {item : AuctionItem}
    (h : db.EntryShows id) (hne : item.id ≠ id) :
    (db.setAuction item).EntryShows id := by
  intro cached hcached
  obtain ⟨shown, doc, hshown, hdoc, hsame⟩ := h cached hcached
  refine ⟨shown, doc, hshown, ?_, hsame⟩
  simp only [findAuction, setAuction]
  rw [Collection.findOne_updateOne (fun _ _ => itemToBson_id item),
    if_neg (toInt64_ne (Ne.symm hne))]
  exact hdoc

/-- A step that is no update of the listing, and under which a right entry
stays right. -/
theorem Shown.advance {s t : Routine.Threads Database ItemProgress}
    {id : UInt64} {i : ℕ} {m : ItemProgress} {next : Option ItemProgress}
    (h : Shown id s) (hm : s.locals i = some m) (hother : ¬ m.Updates id)
    (hlocals : t.locals = Function.update s.locals i next)
    (havailable : t.shared.redisAvailable = s.shared.redisAvailable)
    (hentry : s.shared.EntryShows id → t.shared.EntryShows id) : Shown id t := by
  intro hredis
  rcases h (havailable ▸ hredis) with hshows | hupdating
  · exact Or.inl (hentry hshows)
  · exact Or.inr (hupdating.advance hm hother hlocals)

/-- Harmless fills are enough: the update that is under way drops the entry
before it ends. -/
theorem shown_preserves (id : UInt64) :
    itemOperations.machine.Preserves (FillsHarmlessly id) (Shown id) := by
  rintro ⟨s, turn, p, t⟩ hfires hfills h
  cases turn with
  | call i c =>
      obtain ⟨hidle, -, rfl⟩ := Routine.fires_call.mp hfires
      intro hredis
      rcases h hredis with hshows | ⟨j, m, hm, hupdates⟩
      · exact Or.inl hshows
      · have hne : j ≠ i := by
          rintro rfl
          cases hidle.symm.trans hm
        exact Or.inr ⟨j, m, (Function.update_of_ne hne _ _).trans hm, hupdates⟩
  | advance i o =>
      obtain ⟨m, hm, hafter, hcases⟩ := Routine.fires_advance.mp hfires
      obtain ⟨next, hlocals⟩ :
          ∃ next, t.locals = Function.update s.locals i next := by
        rcases hcases with ⟨m', -, -, hlocals⟩ | ⟨r, -, -, hlocals⟩
        · exact ⟨some m', hlocals⟩
        · exact ⟨none, hlocals⟩
      change t.shared = (s.shared.itemProgressStep m o).1 at hafter
      cases m with
      | getting id' =>
          rw [itemProgressStep_getting_fst] at hafter
          exact h.advance hm (fun hno => hno) hlocals (by rw [hafter])
            (by rw [hafter]; exact fun hshows => hshows)
      | finding id' =>
          have hsame : t.shared = s.shared :=
            hafter.trans (findAuctionItemStep_fst s.shared id')
          exact h.advance hm (fun hno => hno) hlocals (by rw [hsame])
            (by rw [hsame]; exact fun hshows => hshows)
      | caching id' item =>
          rcases eq_or_ne id' id with rfl | hne
          · rcases hfills i item rfl hm with hupdating | ⟨doc, hdoc, hsame⟩
            · intro _
              exact Or.inr (hupdating.advance hm (fun hno => hno) hlocals)
            · intro _
              left
              rw [hafter]
              exact EntryShows.insert (fun hno => (hno rfl).elim)
                fun _ => ⟨doc, hdoc, hsame⟩
          · refine h.advance hm (fun hno => hno) hlocals (by rw [hafter]; rfl) ?_
            intro hshows
            rw [hafter]
            exact EntryShows.insert (fun _ => hshows) fun heq => (hne heq).elim
      | updating item =>
          rcases eq_or_ne item.id id with rfl | hne
          · -- The listing is now updated, and its entry is still to be dropped.
            intro hredis
            have hredis' : s.shared.redisAvailable = true := by
              rw [hafter] at hredis
              exact hredis
            have hdeleting := itemProgressStep_updating_snd hredis' item o
            rcases hcases with ⟨m', hnext, -, hlocals⟩ | ⟨r, hr, -, -⟩
            · obtain rfl := Sum.inl.inj (hdeleting.symm.trans hnext)
              refine Or.inr ⟨i, .deleting item.id (s.shared.modifiesAuction item),
                by rw [hlocals, Function.update_self], rfl⟩
            · cases hdeleting.symm.trans hr
          · refine h.advance hm hne hlocals (by rw [hafter]; rfl) ?_
            intro hshows
            rw [hafter]
            exact hshows.setAuction_of_ne hne
      | deleting id' modified =>
          rcases eq_or_ne id' id with rfl | hne
          · intro _
            left
            rw [hafter]
            exact EntryShows.of_erased s.shared id'
          · refine h.advance hm hne hlocals (by rw [hafter]; rfl) ?_
            intro hshows
            rw [hafter]
            exact hshows.erase _

theorem documentEncodes_setAuction {id : UInt64} {item : AuctionItem}
    (h : db.DocumentEncodes id) (hitem : item.Encodes) :
    (db.setAuction item).DocumentEncodes id := by
  intro doc hdoc
  simp only [findAuction, setAuction] at hdoc
  rw [Collection.findOne_updateOne (fun _ _ => itemToBson_id item)] at hdoc
  split at hdoc
  · obtain ⟨old, -, rfl⟩ := Option.map_eq_some_iff.mp hdoc
    rw [bsonToItem_itemToBson]
    exact hitem
  · exact h doc hdoc

theorem findAuctionItemStep_ne_updating (id : UInt64) (item : AuctionItem) :
    (db.findAuctionItemStep id).2 ≠ .inl (.updating item) := by
  unfold findAuctionItemStep
  cases db.findAuction id with
  | none => simp
  | some doc =>
      dsimp only
      split
      · split <;> simp
      · simp

/-- An update starts with its `update_one`, and no later step is one. -/
theorem itemProgressStep_ne_updating (m : ItemProgress) (o : Unit)
    (item : AuctionItem) :
    (db.itemProgressStep m o).2 ≠ .inl (.updating item) := by
  cases m with
  | getting id =>
      rw [itemProgressStep]
      split
      · cases db.redis[getItemCacheKey id]? <;> simp
      · exact findAuctionItemStep_ne_updating id item
  | finding id => exact findAuctionItemStep_ne_updating id item
  | caching id item' => simp [itemProgressStep]
  | updating item' =>
      rw [itemProgressStep]
      split <;> simp
  | deleting id modified => simp [itemProgressStep]

/-- An update that is still to be made writes a listing that can be cached. -/
def ProgressEncodes : ItemProgress → Prop
  | .updating item => item.Encodes
  | _ => True

theorem documentEncodes_preserves (id : UInt64) :
    itemOperations.machine.Preserves
      (Routine.Allowed ItemOperation.Encodes fun _ _ _ => True)
      (Routine.Holds (fun db => db.DocumentEncodes id)
        fun _ m => ProgressEncodes m) := by
  apply Routine.holds_preserves
  · intro db c _ hc
    cases c with
    | get id' => trivial
    | update item => exact hc
  · intro db m o hdoc hm _
    change (db.itemProgressStep m o).1.DocumentEncodes id
    cases m with
    | getting id' =>
        rw [itemProgressStep_getting_fst]
        exact hdoc
    | finding id' =>
        rw [itemProgressStep, findAuctionItemStep_fst]
        exact hdoc
    | caching id' item => exact hdoc
    | updating item => exact documentEncodes_setAuction hdoc hm
    | deleting id' modified => exact hdoc
  · intro db m o m' _ _ _ hnext
    cases m' with
    | updating item => exact (itemProgressStep_ne_updating m o item hnext).elim
    | getting | finding | caching | deleting => trivial
  · intro db m o n _ _ _ hn
    exact hn

/-- Once all calls have finished, later reads return the standing of the
stored document, if every fill was harmless. -/
theorem later_reads_show {id : UInt64} (hentry : db.EntryShows id)
    (hdoc : db.DocumentEncodes id)
    {turns : List (Routine.Turn ItemOperation Unit)}
    (hturns : ∀ i c, .call i c ∈ turns → c.Encodes)
    {es : List ItemProgressEvent} {s : Routine.Threads Database ItemProgress}
    (hrun : itemOperations.machine.run (Routine.begin db) turns = some (es, s))
    (hfills : ∀ e ∈ es, FillsHarmlessly id e) (hidle : s.Idle) :
    s.shared.LaterReadsShow id := by
  have hshown : Shown id s :=
    (Machine.run_invariant (shown_preserves id) hrun hfills
      fun _ => Or.inl hentry).1
  have hallowed : ∀ e ∈ es,
      Routine.Allowed ItemOperation.Encodes (fun _ _ _ => True) e := by
    intro e he
    obtain ⟨before, turn, p, after⟩ := e
    cases turn with
    | call i c => exact hturns i c (Machine.run_input_mem hrun _ he)
    | advance i o => exact fun _ _ => trivial
  have hencodes := (Machine.run_invariant (documentEncodes_preserves id) hrun
    hallowed (Routine.holds_begin hdoc)).1
  refine laterReadsShow ?_ hencodes.shared
  intro hredis
  rcases hshown hredis with hshows | ⟨i, m, hm, -⟩
  · exact hshows
  · cases (hidle i).symm.trans hm

/-! ## A read overtaken by an update -/

/-- A store with one open listing. -/
def oneAuction : Database :=
  { noAuctions with auctions := [itemToBson (sword [])] }

/-- The listing once it is sold. -/
def soldSword : AuctionItem :=
  { sword [] with status := .sold, buyerId := 8 }

theorem oneAuction_entryShows : oneAuction.EntryShows 1 := by
  intro cached hcached
  simp [cachedAuction, oneAuction, noAuctions] at hcached

theorem oneAuction_documentEncodes : oneAuction.DocumentEncodes 1 := by
  intro doc hdoc
  have hfound : oneAuction.findAuction 1 = some (itemToBson (sword [])) := by
    decide +kernel
  obtain rfl := Option.some.inj (hfound.symm.trans hdoc)
  rw [bsonToItem_itemToBson]
  exact ⟨by decide +kernel, by decide +kernel⟩

/-- A fill that writes the standing of the stored document is harmless. -/
theorem fillsHarmlessly_of_same {id : UInt64} {e : ItemProgressEvent}
    (h : (match e.input with
      | .advance i _ =>
          match e.before.locals i with
          | some (.caching id' item) =>
              decide (id' = id → (e.before.shared.findAuction id).map
                (fun doc => (bsonToItem doc).standing) = some item.standing)
          | _ => true
      | _ => true) = true) : FillsHarmlessly id e := by
  intro i item hinput hlocal
  simp only [hinput, hlocal, true_imp_iff, decide_eq_true_eq] at h
  obtain ⟨doc, hdoc, hsame⟩ := Option.map_eq_some_iff.mp h
  exact Or.inr ⟨doc, hdoc, hsame.symm⟩

/-- A run of two threads ends idle when the two are. -/
theorem idle_of_two {turns : List (Routine.Turn ItemOperation Unit)}
    {es : List ItemProgressEvent} {s : Routine.Threads Database ItemProgress}
    (hrun : itemOperations.machine.run (Routine.begin db) turns = some (es, s))
    (hturns : ∀ i c, .call i c ∈ turns → i = 0 ∨ i = 1)
    (hzero : s.locals 0 = none) (hone : s.locals 1 = none) : s.Idle := by
  intro i
  by_cases hi : i = 0 ∨ i = 1
  · rcases hi with rfl | rfl
    · exact hzero
    · exact hone
  · exact Routine.locals_eq_none hrun rfl fun c hc => hi (hturns i c hc)

theorem two_calls {i : ℕ} {c : ItemOperation}
    (h : i = 0 ∧ c = .get 1 ∨ i = 1 ∧ c = .update soldSword) :
    c.Encodes ∧ (i = 0 ∨ i = 1) := by
  rcases h with ⟨rfl, rfl⟩ | ⟨rfl, rfl⟩
  · exact ⟨trivial, Or.inl rfl⟩
  · exact ⟨⟨by decide +kernel, by decide +kernel⟩, Or.inr rfl⟩

/-- A read, and an update after it. -/
theorem later_reads_show_sold :
    ∃ es s, itemOperations.machine.run (Routine.begin oneAuction)
        [.call 0 (.get 1), .advance 0 (), .advance 0 (), .advance 0 (),
          .call 1 (.update soldSword), .advance 1 (), .advance 1 ()] =
          some (es, s) ∧ s.shared.LaterReadsShow 1 := by
  obtain ⟨⟨es, s⟩, hrun, hr⟩ := (Option.any_eq_true _ _).mp
    (show (itemOperations.machine.run (Routine.begin oneAuction)
        [.call 0 (.get 1), .advance 0 (), .advance 0 (), .advance 0 (),
          .call 1 (.update soldSword), .advance 1 (), .advance 1 ()]).any
      (fun r => decide (r.2.locals 0 = none ∧ r.2.locals 1 = none) &&
        r.1.all fun e => match e.input with
          | .advance i _ =>
              match e.before.locals i with
              | some (.caching id' item) =>
                  decide (id' = 1 → (e.before.shared.findAuction 1).map
                    (fun doc => (bsonToItem doc).standing) = some item.standing)
              | _ => true
          | _ => true) = true by decide +kernel)
  rw [Bool.and_eq_true, decide_eq_true_eq, List.all_eq_true] at hr
  obtain ⟨⟨hzero, hone⟩, hfills⟩ := hr
  refine ⟨es, s, hrun, later_reads_show oneAuction_entryShows
    oneAuction_documentEncodes ?_ hrun
    (fun e he => fillsHarmlessly_of_same (hfills e he))
    (idle_of_two hrun ?_ hzero hone)⟩
  · intro i c hc
    exact (two_calls (by simpa using hc)).1
  · intro i c hc
    exact (two_calls (by simpa using hc)).2

/-- The read finds the open listing, the update sells it and drops the entry,
and the read then fills the cache with the open listing. -/
theorem stale_fill_hides_update :
    ¬ ∀ (db : Database) (id : UInt64)
        (turns : List (Routine.Turn ItemOperation Unit))
        (es : List ItemProgressEvent)
        (s : Routine.Threads Database ItemProgress),
        db.EntryShows id → db.DocumentEncodes id →
        (∀ i c, .call i c ∈ turns → ItemOperation.Encodes c) →
        itemOperations.machine.run (Routine.begin db) turns = some (es, s) →
        s.Idle → s.shared.LaterReadsShow id := by
  intro h
  obtain ⟨⟨es, s⟩, hrun, hr⟩ := (Option.any_eq_true _ _).mp
    (show (itemOperations.machine.run (Routine.begin oneAuction)
        [.call 0 (.get 1), .advance 0 (), .advance 0 (),
          .call 1 (.update soldSword), .advance 1 (), .advance 1 (),
          .advance 0 ()]).any
      (fun r => decide (r.2.locals 0 = none ∧ r.2.locals 1 = none ∧
        (r.2.shared.getAuctionItem ⟨.answered, .answered, .done⟩ 1).1.map
            AuctionItem.standing ≠
          (r.2.shared.findAuction 1).map
            fun doc => (bsonToItem doc).standing)) = true by decide +kernel)
  obtain ⟨hzero, hone, hstale⟩ := of_decide_eq_true hr
  refine hstale (LaterReadsShow.get (h oneAuction 1 _ es s oneAuction_entryShows
    oneAuction_documentEncodes ?_ hrun (idle_of_two hrun ?_ hzero hone)))
  · intro i c hc
    exact (two_calls (by simpa using hc)).1
  · intro i c hc
    exact (two_calls (by simpa using hc)).2

end Database
end AuctionServer
