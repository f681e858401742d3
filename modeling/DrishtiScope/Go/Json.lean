import DrishtiScope.Go.Strconv

-- `encoding/json`, as far as decoding goes.
namespace Go

-- The fields of an object are in the order of the text. Where a text is read, its numbers are kept as they are 
-- written.
inductive Json (ν : Type)
  | null
  | bool (b : Bool)
  | number (n : ν)
  | string (s : Bytes)
  | array (vs : List (Json ν))
  | object (fields : List (Bytes × Json ν))

namespace Json

mutual

def map {ν μ : Type} (f : ν → μ) : Json ν → Json μ
  | .null          => .null
  | .bool b        => .bool b
  | .number n      => .number (f n)
  | .string s      => .string s
  | .array vs      => .array <| mapElements f vs
  | .object fields => .object <| mapFields f fields

def mapElements {ν μ : Type} (f : ν → μ) : List (Json ν) → List (Json μ)
  | []      => []
  | v :: vs => map f v :: mapElements f vs

def mapFields {ν μ : Type} (f : ν → μ) : List (Bytes × Json ν) → List (Bytes × Json μ)
  | []      => []
  | g :: gs => mapField f g :: mapFields f gs

def mapField {ν μ : Type} (f : ν → μ) : Bytes × Json ν → Bytes × Json μ
  | (key, v) => (key, map f v)

end

def skipSpace (s : Bytes) : Bytes :=
  s.dropWhile fun b => b = 32 || b = 9 || b = 13 || b = 10

def isDigit (b : UInt8) : Bool :=
  48 ≤ b && b ≤ 57

-- These scanners yield what follows the part of the text that they accept.
def scanDigits (s : Bytes) : Option Bytes :=
  if s.takeWhile isDigit = [] then none else some (s.dropWhile isDigit)

def scanInteger : Bytes → Option Bytes
  | 48 :: s => some s
  | s       => scanDigits s

def scanFraction : Bytes → Option Bytes
  | 46 :: s => scanDigits s
  | s       => some s

def scanExponent : Bytes → Option Bytes
  | 101 :: s => signed s
  | 69 :: s  => signed s
  | s        => some s
where
  signed : Bytes → Option Bytes
    | 43 :: s => scanDigits s
    | 45 :: s => scanDigits s
    | s       => scanDigits s

def scanNumber (s : Bytes) : Option (Bytes × Bytes) := do
  let rest ← scanInteger (s.trimPrefix [45]) >>= scanFraction >>= scanExponent
  return (s.take (s.length - rest.length), rest)

-- What a number that has been accepted stands for.
def digitsValue (s : Bytes) : Nat :=
  Nat.ofDigits 10 (s.reverse.map fun b => (b - 48).toNat)

def exponentValue : Bytes → Int
  | 101 :: s => signed s
  | 69 :: s  => signed s
  | _        => 0
where
  signed : Bytes → Int
    | 43 :: s => digitsValue s
    | 45 :: s => -digitsValue s
    | s       => digitsValue s

def numberValue (s : Bytes) : ℚ :=
  let t := s.trimPrefix [45]
  let rest : Bytes := t.dropWhile isDigit
  let u := rest.trimPrefix [46]
  let frac := u.takeWhile isDigit
  let x : ℚ := digitsValue (t.takeWhile isDigit ++ frac) * 10 ^ (exponentValue (u.dropWhile isDigit) - frac.length)
  if s.hasPrefix [45] then -x else x

-- Four hexadecimal digits.
def hex4? (s : Bytes) : Option Nat := do
  guard <| 4 ≤ s.length
  (s.take 4).foldlM (fun n b => do return 16 * n + (← (digitValue b).filter (· < 16))) 0

-- The rune of an escape sequence, and how many further bytes belong to it: a surrogate is completed by
-- a second sequence or replaced.
def unescapeRune (n : Nat) (s : Bytes) : Rune × Nat :=
  if 0xd800 ≤ n ∧ n < 0xe000 then
    match s with
    | 92 :: 117 :: s =>
      match (hex4? s).filter fun m => n < 0xdc00 && 0xdc00 ≤ m && m < 0xe000 with
      | some m => (.ofNat (0x10000 + (n - 0xd800) * 0x400 + (m - 0xdc00)), 6)
      | none   => (Rune.error, 0)
    | _ => (Rune.error, 0)
  else
    (.ofNat n, 0)

def escapes : List (UInt8 × UInt8) :=
  [(34, 34), (92, 92), (47, 47), (98, 8), (102, 12), (110, 10), (114, 13), (116, 9)]

-- The rest of a string after its opening quote.
def scanString (s : Bytes) : Option (Bytes × Bytes) := do
  let (out, rest) ← go s.length s
  return (Bytes.encodeAll out.runes, rest)
where
  go : Nat → Bytes → Option (Bytes × Bytes)
    | 0, _     => none
    | n + 1, s => 
      match s with
      | []             => none
      | 34 :: s        => some ([], s)
      | 92 :: 117 :: s => do
        let u ← hex4? s
        let (r, k) := unescapeRune u (s.drop 4)
        let (out, rest) ← go n (s.drop (4 + k))
        return (r.encode ++ out, rest)
      | 92 :: b :: s   => do
        let c ← escapes.lookup b
        let (out, rest) ← go n s
        return (c :: out, rest)
      | b :: s         => do
        guard <| 32 ≤ b ∧ b ≠ 92
        let (out, rest) ← go n s
        return (b :: out, rest)

mutual

-- The first value of the text, and what follows it.
def scanValue : Nat → Bytes → Option (Json Bytes × Bytes)
  | 0, _     => none
  | n + 1, s =>
    match skipSpace s with
    | 34 :: s  => do
      let (out, s) ← scanString s
      return (.string out, s)
    | 123 :: s => 
      match skipSpace s with
      | 125 :: s => some (.object [], s)
      | s        => do
        let (fields, s) ← scanFields n s
        return (.object fields, s)
    | 91 :: s  => 
      match skipSpace s with
      | 93 :: s => some (.array [], s)
      | s       => do
        let (vs, s) ← scanElements n s
        return (.array vs, s)
    | s        =>
      if s.hasPrefix (str "null") then
        some (.null, s.drop 4)
      else if s.hasPrefix (str "true") then
        some (.bool true, s.drop 4)
      else if s.hasPrefix (str "false") then
        some (.bool false, s.drop 5)
      else
        scanNumber s |>.map fun (text, s) => (.number text, s)

def scanElements : Nat → Bytes → Option (List (Json Bytes) × Bytes)
  | 0, _     => none
  | n + 1, s => do
    let (v, s) ← scanValue n s
    match skipSpace s with
    | 93 :: s => return ([v], s)
    | 44 :: s => do
      let (vs, s) ← scanElements n s
      return (v :: vs, s)
    | _       => none

def scanFields : Nat → Bytes → Option (List (Bytes × Json Bytes) × Bytes)
  | 0, _     => none
  | n + 1, s => 
    match skipSpace s with
    | 34 :: s => do
      let (key, s) ← scanString s
      match skipSpace s with
      | 58 :: s => do
        let (v, s) ← scanValue n s
        match skipSpace s with
        | 125 :: s => return ([(key, v)], s)
        | 44 :: s  => do
          let (fields, s) ← scanFields n s
          return ((key, v) :: fields, s)
        | _        => none
      | _       => none
    | _       => none

end

-- Objects, arrays and strings end with their last byte. Other values end where something else follows,
-- or with the text.
def isDelimited {ν : Type} : Json ν → Bool
  | .object _ | .array _ | .string _ => true
  | _                                => false

-- `Decoder.Decode` reads the first value. The text is cut off if `complete` does not hold.
def decode (s : Bytes) (complete : Bool) : Option (Json Bytes) := do
  let (v, rest) ← scanValue (2 * s.length + 2) s
  guard <| v.isDelimited ∨ rest ≠ [] ∨ complete
  return v

-- A field of type `*int`.
def toIntPtr : Json Bytes → Option (Option Int)
  | .null        => some none
  | .number text =>
    match text.parseInt 10 64 with
    | (n, none) => some (some n)
    | _         => none
  | _            => none

-- A field of type `*string`.
def toStringPtr {ν : Type} : Json ν → Option (Option Bytes)
  | .null     => some none
  | .string s => some (some s)
  | _         => none

end Json
end Go
