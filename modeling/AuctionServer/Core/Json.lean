import AuctionServer.Core.Item

/-!
# JSON values

The values the search cache stores.  Dumping a value and parsing the text
again gives the value back, so the cache is modelled as holding values; what
remains of the text is that a dump is refused when some string of the value is
not well-formed UTF-8.
-/

namespace AuctionServer

/-- A JSON value.  Of a floating-point number only the whole part can ever be
read, by a conversion to an integer type. -/
inductive Json where
  | null
  | boolean (b : Bool)
  | integer (n : ℤ)
  | float (whole : ℤ)
  | string (s : Bytes)
  | array (elems : List Json)
  | object (fields : List (String × Json))
deriving Inhabited

/-- A continuation byte of a UTF-8 sequence. -/
def isContinuation (c : UInt8) : Bool :=
  0x80 ≤ c && c ≤ 0xBF

/-- The byte sequence is well-formed UTF-8: no overlong form, no surrogate,
nothing above U+10FFFF. -/
def utf8Valid : Bytes → Bool
  | [] => true
  | b :: rest =>
      if b < 0x80 then utf8Valid rest
      else
        match rest with
        | [] => false
        | c₁ :: rest =>
            if 0xC2 ≤ b && b ≤ 0xDF then
              isContinuation c₁ && utf8Valid rest
            else
              match rest with
              | [] => false
              | c₂ :: rest =>
                  if 0xE0 ≤ b && b ≤ 0xEF then
                    isContinuation c₁ && isContinuation c₂ &&
                      !(b == 0xE0 && c₁ < 0xA0) &&
                      !(b == 0xED && 0xA0 ≤ c₁) && utf8Valid rest
                  else
                    match rest with
                    | [] => false
                    | c₃ :: rest =>
                        if 0xF0 ≤ b && b ≤ 0xF4 then
                          isContinuation c₁ && isContinuation c₂ &&
                            isContinuation c₃ &&
                            !(b == 0xF0 && c₁ < 0x90) &&
                            !(b == 0xF4 && 0x90 ≤ c₁) && utf8Valid rest
                        else false

theorem utf8Valid_of_ascii {s : Bytes} (h : ∀ b ∈ s, b < 0x80) :
    utf8Valid s = true := by
  induction s with
  | nil => rfl
  | cons b s ih =>
      rw [utf8Valid.eq_def]
      simp only
      rw [if_pos (h b List.mem_cons_self)]
      exact ih fun b' hb' => h b' (List.mem_cons_of_mem b hb')

theorem utf8Valid_literal {s : String} (h : ∀ c ∈ s.toList, c.toNat < 128) :
    utf8Valid (literal s) = true :=
  utf8Valid_of_ascii (literal_ascii h)

namespace Json

mutual
/-- `dump()` succeeds: every string in the value is well-formed UTF-8. -/
def dumps : Json → Bool
  | .string s => utf8Valid s
  | .array elems => elemsDump elems
  | .object fields => fieldsDump fields
  | _ => true

/-- Every element of an array can be dumped. -/
def elemsDump : List Json → Bool
  | [] => true
  | j :: elems => j.dumps && elemsDump elems

/-- Every value of an object can be dumped. -/
def fieldsDump : List (String × Json) → Bool
  | [] => true
  | f :: fields => f.2.dumps && fieldsDump fields
end

theorem elemsDump_eq_all (elems : List Json) :
    elemsDump elems = elems.all dumps := by
  induction elems with
  | nil => rfl
  | cons j elems ih => rw [elemsDump, ih, List.all_cons]

/-- An array written element by element can be dumped when each element can. -/
theorem elemsDump_map {α : Type} {f : α → Json} {xs : List α} :
    elemsDump (xs.map f) = true ↔ ∀ x ∈ xs, (f x).dumps = true := by
  rw [elemsDump_eq_all, List.all_map, List.all_eq_true]
  rfl

/-- `j[key]`; `none` stands for the exception when there is no such field. -/
def field (key : String) : Json → Option Json
  | .object fields => (fields.find? fun f => f.1 == key).map Prod.snd
  | _ => none

/-- `contains(key)`. -/
def contains (key : String) (j : Json) : Bool :=
  (j.field key).isSome

/-- The number of an integer or a truncated float. -/
def numeric : Json → Option ℤ
  | .integer n => some n
  | .float whole => some whole
  | _ => none

/-- `is_number()`. -/
def isNumber (j : Json) : Bool :=
  j.numeric.isSome

/-- `get<uint32_t>()`.  A boolean converts as well. -/
def getUInt32 : Json → Option UInt32
  | .boolean b => some (if b then 1 else 0)
  | j => j.numeric.map UInt32.ofInt

/-- `get<uint64_t>()`, the type unsigned numbers are held in. -/
def getUInt64 (j : Json) : Option UInt64 :=
  j.numeric.map UInt64.ofInt

/-- `get<time_t>()`, the type signed numbers are held in. -/
def getTime (j : Json) : Option Time :=
  j.numeric.map Int64.ofInt

/-- `get<std::string>()`. -/
def getString : Json → Option Bytes
  | .string s => some s
  | _ => none

/-- The elements a range-for loop visits. -/
def elements : Json → Option (List Json)
  | .array elems => some elems
  | _ => none

end Json

end AuctionServer
