import DrishtiScope.Go.Strconv

-- The query of a URL.
namespace Go

namespace Bytes

-- `strings.Cut` at a separator of one byte. Without a separator the second part is empty.
def cutByte (s : Bytes) (sep : UInt8) : Bytes × Bytes :=
  (s.takeWhile (· ≠ sep), (s.dropWhile (· ≠ sep)).drop 1)

def hexByte? (a b : UInt8) : Option UInt8 := do
  let high ← (digitValue a).filter (· < 16)
  let low ← (digitValue b).filter (· < 16)
  return (16 * high + low).toUInt8

-- `none` in case of an error.
def unescape (plusIsSpace : Bool) : Bytes → Option Bytes
  | []                => some []
  | 37 :: a :: b :: s => do return (← hexByte? a b) :: (← unescape plusIsSpace s)
  | 37 :: _           => none
  | b :: s            => do 
    let b := if plusIsSpace ∧ b = 43 then 32 else b
    return b :: (← unescape plusIsSpace s)

def hexDigit (n : Nat) : UInt8 :=
  (if n < 10 then 48 + n else 55 + n).toUInt8

-- Every byte as a percent sign and two digits.
def percentEncode (s : Bytes) : Bytes :=
  s.flatMap fun b => [37, hexDigit (b.toNat / 16), hexDigit (b.toNat % 16)]

theorem digitValue_hexDigit {n : Nat} (h : n < 16) : (digitValue (hexDigit n)).filter (· < 16) = some n := by
  have hd : ∀ m : Fin 16, (digitValue (hexDigit m)).filter (· < 16) = some m.val := by decide
  exact hd ⟨n, h⟩

theorem hexByte?_hexDigit (b : UInt8) : 
    hexByte? (hexDigit (b.toNat / 16)) (hexDigit (b.toNat % 16)) = some b := by
  have hb := b.toNat_lt
  rw [hexByte?, digitValue_hexDigit (by omega), digitValue_hexDigit (by omega)]
  change some (16 * (b.toNat / 16) + b.toNat % 16).toUInt8 = some b
  rw [Nat.div_add_mod]
  simp

theorem unescape_percentEncode (plusIsSpace : Bool) (s : Bytes) : 
    (percentEncode s).unescape plusIsSpace = some s := by
  induction s
  case nil         => rfl
  case cons b s hi =>
    have he : percentEncode (b :: s) = 
      37 :: hexDigit (b.toNat / 16) :: hexDigit (b.toNat % 16) :: percentEncode s := rfl
    simp [he, unescape, hexByte?_hexDigit, hi]

-- Only percent signs and digits are left.
theorem not_mem_percentEncode {b : UInt8} {s : Bytes} (hp : b ≠ 37) (hd : ∀ n < 16, hexDigit n ≠ b) : 
    b ∉ percentEncode s := by
  intro hm
  have ⟨c, _, hc⟩ := List.mem_flatMap.mp hm
  have hb := c.toNat_lt
  have h₁ := hd (c.toNat / 16) (by omega)
  have h₂ := hd (c.toNat % 16) (by omega)
  simp only [List.mem_cons, List.not_mem_nil, or_false] at hc
  tauto

def queryUnescape (s : Bytes) : Option Bytes :=
  s.unescape true

def pathUnescape (s : Bytes) : Option Bytes :=
  s.unescape false

end Bytes

-- `url.Values`, in the order of the query.
abbrev Values := List (Bytes × Bytes)

namespace Values

-- The first value, or the empty string.
def get (v : Values) (key : Bytes) : Bytes :=
  v.lookup key |>.getD []

-- `url.ParseQuery`, which leaves out the malformed parts.
def parseQuery (query : Bytes) : Values :=
  (query.splitByte 38).filterMap fun (part : Bytes) => do
    guard <| 59 ∉ part ∧ part ≠ []
    let (key, value) := part.cutByte 61
    return (← Bytes.queryUnescape key, ← Bytes.queryUnescape value)

-- A query with one parameter.
theorem get_parseQuery {key : Bytes} (value : Bytes) (hk : Bytes.queryUnescape key = some key) 
    (hs : key.all fun b => b ≠ 38 ∧ b ≠ 59 ∧ b ≠ 61) : 
    (parseQuery (key ++ 61 :: Bytes.percentEncode value)).get key = value := by
  have hs (b : UInt8) (hb : b ∈ key) := of_decide_eq_true <| List.all_eq_true.mp hs b hb
  have hn (b : UInt8) (hb : b = 38 ∨ b = 59) : b ∉ key ++ 61 :: Bytes.percentEncode value := by
    have he : b ∉ Bytes.percentEncode value := by
      apply Bytes.not_mem_percentEncode <;> rcases hb with rfl | rfl <;> decide
    intro hm
    cases List.mem_append.mp hm
    case inl hm => have hs := hs b hm; tauto
    case inr hm =>
      cases List.mem_cons.mp hm
      case inl hm => subst hm; revert hb; decide
      case inr hm => exact he hm
  have hsplit : Bytes.splitByte (key ++ 61 :: Bytes.percentEncode value) 38 = 
      [key ++ 61 :: Bytes.percentEncode value] := 
    List.splitOn_eq_singleton <| hn 38 (.inl rfl)
  have hcut : Bytes.cutByte (key ++ 61 :: Bytes.percentEncode value) 61 = 
      (key, Bytes.percentEncode value) := by
    have hk : ∀ b ∈ key, decide (b ≠ 61) = true := fun b hb => by simpa using (hs b hb).right.right
    rw [Bytes.cutByte, List.takeWhile_append_of_pos hk, List.dropWhile_append_of_pos hk]
    simp
  have hq : Bytes.queryUnescape (Bytes.percentEncode value) = some value := 
    Bytes.unescape_percentEncode ..
  have hg : 59 ∉ key ++ 61 :: Bytes.percentEncode value ∧ key ++ 61 :: Bytes.percentEncode value ≠ [] := 
    ⟨hn 59 (.inr rfl), by simp⟩
  have hp : parseQuery (key ++ 61 :: Bytes.percentEncode value) = [(key, value)] := by
    simp only [parseQuery, hsplit, List.filterMap_cons, List.filterMap_nil, guard, if_pos hg, hcut, hk, hq]
    rfl
  rw [hp, get, List.lookup_cons_self, Option.getD_some]

end Values
end Go
