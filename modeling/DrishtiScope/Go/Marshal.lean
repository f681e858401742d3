import DrishtiScope.Go.Json
import DrishtiScope.Go.Shortest

-- `encoding/json`, as far as encoding goes, and that decoding undoes it.
namespace Go

namespace Rune

theorem encode_of_lt {r : Rune} (h : r.val < 128) : r.encode = [r.val.toUInt8] :=
  String.utf8EncodeChar_eq_singleton <| Char.utf8Size_eq_one_iff.mpr <| Nat.le_of_lt_succ h

-- A rune that is not ASCII consists of bytes that are not ASCII either.
theorem le_of_mem_encode {r : Rune} {b : UInt8} (h : 128 ≤ r.val) (hb : b ∈ r.encode) : 128 ≤ b := by
  have hr : 128 ≤ r.val.toNat := h
  have hn : ∀ n m, 128 ≤ n → n + m < 256 → 128 ≤ UInt8.ofNat (m + n) := by
    intro n m hn hl
    have he : (UInt8.ofNat (m + n)).toNat = m + n := Nat.mod_eq_of_lt (by omega)
    rw [UInt8.le_iff_toNat_le, he]
    exact Nat.le_add_left_of_le hn
  simp only [encode, String.utf8EncodeChar] at hb
  split at hb
  case isTrue => omega
  case isFalse =>
    split at hb
    case isTrue => 
      simp only [List.mem_cons, List.not_mem_nil, or_false] at hb
      obtain rfl | rfl := hb <;> apply hn <;> omega
    case isFalse =>
      split at hb <;> simp only [List.mem_cons, List.not_mem_nil, or_false] at hb
      case isTrue  => obtain rfl | rfl | rfl := hb <;> apply hn <;> omega
      case isFalse => obtain rfl | rfl | rfl | rfl := hb <;> apply hn <;> omega

end Rune

-- The numbers of Go.
inductive Numeral
  | int (n : Int)
  | float (x : ℚ)

def Numeral.value : Numeral → ℚ
  | int n   => n
  | float x => x

namespace Json

def digitByte (d : Nat) : UInt8 :=
  48 + d.toUInt8

-- `%f`
def fmtF (ds : List Nat) (dp : Int) : Bytes :=
  (int ds dp).map digitByte ++ if dp < ds.length then 46 :: (frac ds dp).map digitByte else []
where
  int (ds : List Nat) (dp : Int) : List Nat :=
    if 0 < dp then (ds ++ .replicate (dp.toNat - ds.length) 0).take dp.toNat else [0]
  frac (ds : List Nat) (dp : Int) : List Nat :=
    if dp < ds.length then .replicate (-dp).toNat 0 ++ ds.drop dp.toNat else []

-- `%e`, where a leading zero of the exponent is removed.
def fmtE (ds : List Nat) (dp : Int) : Bytes :=
  let frac := if 1 < ds.length then 46 :: ds.tail.map digitByte else []
  let exp := if ds = [] then 0 else dp - 1
  digitByte (ds.headD 0) :: frac ++ 101 :: (if exp < 0 then 45 else 43) :: natDigits exp.natAbs

def formatFloat [Shortest] (x : ℚ) : Bytes :=
  let fmt := if |x| ≠ 0 ∧ (|x| < 1 / 10 ^ 6 ∨ 10 ^ 21 ≤ |x|) then fmtE else fmtF
  (if x < 0 then [45] else []) ++ fmt (Shortest.digits x) (Shortest.point x)

def text [Shortest] : Numeral → Bytes
  | .int n   => itoa n
  | .float x => formatFloat x

def int (n : Int) : Json Numeral :=
  .number <| .int n

def float (x : ℚ) : Json Numeral :=
  .number <| .float x

-- A struct, by the names that its tags give to the fields.
def struct {ν : Type} (fields : List (String × Json ν)) : Json ν :=
  .object <| fields.map fun (name, v) => (str name, v)

def hexByte (n : Nat) : UInt8 :=
  if n < 10 then 48 + n.toUInt8 else 87 + n.toUInt8

-- Most bytes are safe in HTML and stand for themselves.
def escapeASCII (b : UInt8) : Bytes :=
  match b with
  | 92 | 34 => [92, b]
  | 8       => [92, 98]
  | 12      => [92, 102]
  | 10      => [92, 110]
  | 13      => [92, 114]
  | 9       => [92, 116]
  | _       =>
    if b < 32 ∨ b = 38 ∨ b = 60 ∨ b = 62 then
      [92, 117, 48, 48, hexByte (b.toNat / 16), hexByte (b.toNat % 16)]
    else
      [b]

def escapeRune (r : Rune) : Bytes :=
  if r.val < 128 then
    escapeASCII r.val.toUInt8
  else if r.val = 0x2028 ∨ r.val = 0x2029 then
    [92, 117, 50, 48, 50, hexByte (r.val.toNat % 16)]
  else
    r.encode

-- What stands between the quotes.
def quoted (s : Bytes) : Bytes :=
  go s.length s
where
  go : Nat → Bytes → Bytes
    | 0, _          => []
    | _, []         => []
    | n + 1, b :: s => 
      match Bytes.decodeRune? (b :: s) with
      | some r => escapeRune r ++ go n ((b :: s).drop r.utf8Size)
      | none   => [92, 117, 102, 102, 102, 100] ++ go n s

def quote (s : Bytes) : Bytes :=
  34 :: quoted s ++ [34]

mutual

def encode : Json Bytes → Bytes
  | .null          => str "null"
  | .bool b        => if b then str "true" else str "false"
  | .number text   => text
  | .string s      => quote s
  | .array vs      => 91 :: encodeElements vs ++ [93]
  | .object fields => 123 :: encodeFields fields ++ [125]

def encodeElements : List (Json Bytes) → Bytes
  | []           => []
  | [v]          => encode v
  | v :: v' :: vs => encode v ++ 44 :: encodeElements (v' :: vs)

def encodeFields : List (Bytes × Json Bytes) → Bytes
  | []            => []
  | [f]           => encodeField f
  | f :: f' :: fs => encodeField f ++ 44 :: encodeFields (f' :: fs)

def encodeField : Bytes × Json Bytes → Bytes
  | (key, v) => quote key ++ 58 :: encode v

end

variable {s t w w' o o' ds : Bytes} {b c : UInt8} {n m u : Nat} {r : Rune} {v : Json Bytes} {vs : List (Json Bytes)} 
  {fs : List (Bytes × Json Bytes)}

section Strings

theorem scanString.go_eq (hn : s.length ≤ n) (hm : s.length ≤ m) : scanString.go n s = scanString.go m s := by
  have h0 : ∀ n, scanString.go n [] = none := fun n => by cases n <;> rfl
  induction n generalizing s m
  case zero      => rw [List.eq_nil_of_length_eq_zero (Nat.le_zero.mp hn), h0, h0]
  case succ n hi =>
    cases m
    case zero   => rw [List.eq_nil_of_length_eq_zero (Nat.le_zero.mp hm), h0, h0]
    case succ m =>
      simp only [scanString.go]
      split
      case h_1 | h_2     => rfl
      case h_3 s         =>
        simp only [List.length_cons] at hn hm
        have hd : ∀ k, scanString.go n (s.drop k) = scanString.go m (s.drop k) := by
          intro k
          apply hi <;> simp only [List.length_drop] <;> omega
        simp only [hd]
      case h_4 b s _     =>
        simp only [List.length_cons] at hn hm
        rw [@hi s m (by omega) (by omega)]
      case h_5 b s _ _ _ =>
        simp only [List.length_cons] at hn hm
        rw [@hi s m (by omega) (by omega)]

-- Inside of a string, a text stands for some bytes.
def Spells (w o : Bytes) : Prop :=
  ∀ n s, (w ++ s).length ≤ n → scanString.go n (w ++ s) = (scanString.go n s).map (Prod.map (o ++ ·) id)

-- A step of the scanner decides what a text stands for.
theorem Spells.of_step (hw : w ≠ []) 
    (h : ∀ n s, scanString.go (n + 1) (w ++ s) = (scanString.go n s).map (Prod.map (o ++ ·) id)) : Spells w o := by
  intro n s hn
  cases w
  case nil      => contradiction
  case cons b w =>
    cases n
    case zero   => contradiction
    case succ n =>
      have hs : s.length ≤ n := by 
        simp only [List.cons_append, List.length_cons, List.length_append] at hn
        omega
      rw [h, scanString.go_eq hs <| Nat.le_succ_of_le hs]

theorem Spells.append (h : Spells w o) (h' : Spells w' o') : Spells (w ++ w') (o ++ o') := by
  intro n s hn
  rw [List.append_assoc] at hn ⊢
  have hn' : (w' ++ s).length ≤ n := by 
    rw [List.length_append] at hn
    omega
  rw [h n _ hn, h' n _ hn', Option.map_map]
  congr 1
  funext p
  exact Prod.ext (List.append_assoc ..).symm rfl

theorem spells_nil : Spells [] [] := by
  intro n s _
  rw [List.nil_append]
  cases scanString.go n s <;> rfl

theorem spells_byte (h : 32 ≤ b ∧ b ≠ 34 ∧ b ≠ 92) : Spells [b] [b] := by
  apply Spells.of_step (by simp)
  intro n s
  have ⟨hl, h34, h92⟩ := h
  simp only [List.singleton_append, scanString.go]
  split
  case h_1 h     => cases h
  case h_2 h     => exact absurd (List.head_eq_of_cons_eq h) h34
  case h_3 h     => exact absurd (List.head_eq_of_cons_eq h) h92
  case h_4 h     => exact absurd (List.head_eq_of_cons_eq h) h92
  case h_5 b s _ _ _ h =>
    cases h
    simp only [guard, hl, h92, ne_eq, not_false_eq_true, and_self, if_true]
    cases scanString.go n s <;> rfl

theorem spells_escape (h : escapes.lookup c = some b) : Spells [92, c] [b] := by
  apply Spells.of_step (by simp)
  intro n s
  have hn : escapes.lookup 117 = none := by decide
  have hc : c ≠ 117 := by
    intro hc
    rw [hc, hn] at h
    contradiction
  simp only [List.cons_append, List.nil_append, scanString.go, h]
  cases scanString.go n s <;> rfl

theorem spells_unicode {b₁ b₂ b₃ b₄ : UInt8} (h : hex4? [b₁, b₂, b₃, b₄] = some u) (hu : u < 0xd800 ∨ 0xe000 ≤ u) : 
    Spells [92, 117, b₁, b₂, b₃, b₄] (Rune.encode <| Char.ofNat u) := by
  apply Spells.of_step (by simp)
  intro n s
  have hx : hex4? ([b₁, b₂, b₃, b₄] ++ s) = some u := by
    simp only [hex4?] at h ⊢
    simpa using h
  have hr : unescapeRune u s = (Char.ofNat u, 0) := by
    rw [unescapeRune.eq_def]
    exact if_neg (by omega)
  simp only [List.cons_append, List.nil_append] at hx
  simp only [List.cons_append, List.nil_append, scanString.go, hx, Option.bind_eq_bind, 
    Option.bind_some, List.drop_succ_cons, List.drop_zero, hr]
  cases scanString.go n s <;> rfl

-- The bytes of a rune that is not ASCII.
theorem spells_bytes (h : ∀ b ∈ w, 128 ≤ b) : Spells w w := by
  induction w
  case nil         => exact spells_nil
  case cons b w hi =>
    have ⟨hb, hw⟩ := List.forall_mem_cons.mp h
    refine (spells_byte ⟨?_, ?_, ?_⟩).append (hi hw)
    case refine_1 => exact UInt8.le_trans (by decide) hb
    all_goals rintro rfl; contradiction

theorem spells_ascii (h : b < 128) : Spells (escapeASCII b) [b] := by
  have hu : ∀ n < 128, hex4? [48, 48, hexByte (n / 16), hexByte (n % 16)] = some n ∧ 
    Rune.encode (Char.ofNat n) = [n.toUInt8] := by decide
  simp only [escapeASCII]
  split
  case h_8 =>
    split
    case isTrue    => 
      have hb : b.toNat < 128 := h
      have ⟨hx, he⟩ := hu b.toNat h
      have hs := spells_unicode hx (.inl <| by omega)
      have ht : b.toNat.toUInt8 = b := UInt8.ofNat_toNat
      rwa [he, ht] at hs
    case isFalse h => 
      simp only [not_or] at h
      exact spells_byte ⟨UInt8.not_lt.mp h.left, ‹_›, ‹_›⟩
  all_goals exact spells_escape (by decide)

theorem spells_rune : Spells (escapeRune r) (Rune.encode r) := by
  simp only [escapeRune]
  split
  case isTrue h => 
    rw [Rune.encode_of_lt h]
    have hu : r.val.toUInt8.toNat = r.val.toNat := Nat.mod_eq_of_lt <| Nat.lt_trans h (by decide)
    exact spells_ascii <| UInt8.lt_iff_toNat_lt.mpr <| hu.trans_lt h
  case isFalse h =>
    split
    case isFalse   => exact spells_bytes fun _ => Rune.le_of_mem_encode (UInt32.not_lt.mp h)
    case isTrue hr => 
      have hu : ∀ n ∈ [0x2028, 0x2029], hex4? [50, 48, 50, hexByte (n % 16)] = some n := by decide
      have hm : r.val.toNat ∈ [0x2028, 0x2029] := by
        rcases hr with hr | hr <;> simp [hr]
      have hl : r.val.toNat < 0xd800 := by rcases hr with hr | hr <;> rw [hr] <;> decide
      have hs := spells_unicode (hu _ hm) (.inl hl)
      have he : Char.ofNat r.val.toNat = r := Char.ofNat_toNat r
      rwa [he] at hs

-- Whatever the bytes, the text between the quotes stands for the runes that they are read as.
theorem spells_quoted : ∀ n s, s.length ≤ n → Spells (quoted.go n s) (Bytes.encodeAll <| Bytes.runes.go n s) := by
  intro n
  induction n
  case zero      => exact fun _ _ => spells_nil
  case succ n hi =>
    intro s hn
    cases s
    case nil      => exact spells_nil
    case cons b s =>
      simp only [List.length_cons, Nat.add_le_add_iff_right] at hn
      cases hd : Bytes.decodeRune? (b :: s)
      case some r =>
        simp only [quoted.go, Bytes.runes.go, hd]
        apply spells_rune.append <| hi _ _
        have := Rune.length_encode_pos r
        rw [List.length_drop, List.length_cons, ← Rune.length_encode]
        omega
      case none   => 
        simp only [quoted.go, Bytes.runes.go, hd]
        have hs : Spells [92, 117, 102, 102, 102, 100] (Rune.encode (Char.ofNat 0xfffd)) := 
          spells_unicode (by decide) (.inr <| by decide)
        exact hs.append <| hi _ hn

theorem scanString_quoted : scanString (quoted s ++ 34 :: t) = some (Bytes.encodeAll s.runes, t) := by
  have h : scanString.go (quoted s ++ 34 :: t).length (quoted s ++ 34 :: t) = 
      (scanString.go (quoted s ++ 34 :: t).length (34 :: t)).map (Prod.map (Bytes.encodeAll s.runes ++ ·) id) := 
    spells_quoted s.length s le_rfl _ (34 :: t) le_rfl
  have hl : 0 < (quoted s ++ 34 :: t).length := by simp
  rw [scanString, h]
  generalize (quoted s ++ 34 :: t).length = n at hl
  cases n
  case zero   => contradiction
  case succ n => simp [scanString.go, Bytes.runes_encodeAll]

end Strings

section Numbers

def IsDigits (s : Bytes) : Prop :=
  s ≠ [] ∧ ∀ b ∈ s, isDigit b

def IsInteger (s : Bytes) : Prop :=
  s = [48] ∨ IsDigits s ∧ s.head? ≠ some 48

def IsFraction (s : Bytes) : Prop :=
  s = [] ∨ ∃ ds, IsDigits ds ∧ s = 46 :: ds

def IsExponent (s : Bytes) : Prop :=
  s = [] ∨ ∃ sign ds, sign ∈ [[], [43], [45]] ∧ IsDigits ds ∧ (s = 101 :: sign ++ ds ∨ s = 69 :: sign ++ ds)

def IsNumber (s : Bytes) : Prop :=
  ∃ neg int frac exp, (neg = [] ∨ neg = [45]) ∧ IsInteger int ∧ IsFraction frac ∧ IsExponent exp ∧ 
    s = neg ++ (int ++ (frac ++ exp))

-- The text does not go on with a number.
def Ends (s : Bytes) : Prop :=
  ∀ b ∈ s.head?, ¬isDigit b ∧ b ∉ [46, 101, 69]

theorem takeWhile_isDigit (hd : ∀ b ∈ ds, isDigit b) (ht : ∀ b ∈ t.head?, ¬isDigit b) : 
    (ds ++ t).takeWhile isDigit = ds := by
  have h : t.takeWhile isDigit = [] := by
    cases t
    case nil      => rfl
    case cons b t => exact List.takeWhile_cons_of_neg <| ht b rfl
  rw [List.takeWhile_append_of_pos hd, h, List.append_nil]

theorem dropWhile_isDigit (hd : ∀ b ∈ ds, isDigit b) (ht : ∀ b ∈ t.head?, ¬isDigit b) : 
    (ds ++ t).dropWhile isDigit = t := by
  have h : t.dropWhile isDigit = t := by
    cases t
    case nil      => rfl
    case cons b t => exact List.dropWhile_cons_of_neg <| ht b rfl
  rw [List.dropWhile_append_of_pos hd, h]

theorem scanDigits_append (hd : IsDigits ds) (ht : ∀ b ∈ t.head?, ¬isDigit b) : scanDigits (ds ++ t) = some t := by
  rw [scanDigits, takeWhile_isDigit hd.right ht, dropWhile_isDigit hd.right ht, if_neg hd.left]

theorem IsDigits.exists_cons (h : IsDigits ds) : ∃ b ds', ds = b :: ds' ∧ isDigit b := by
  have ⟨b, ds', he⟩ := List.exists_cons_of_ne_nil h.left
  exact ⟨b, ds', he, h.right b (he ▸ List.mem_cons_self)⟩

theorem scanInteger_append (hs : IsInteger s) (ht : ∀ b ∈ t.head?, ¬isDigit b) : scanInteger (s ++ t) = some t := by
  rcases hs with rfl | ⟨hd, hz⟩
  case inl => rfl
  case inr =>
    rw [scanInteger.eq_def]
    split
    case h_1 s he => 
      have ⟨b, ds, hs, _⟩ := hd.exists_cons
      rw [hs] at he hz
      exact absurd (congrArg some <| List.head_eq_of_cons_eq he) hz
    case h_2      => exact scanDigits_append hd ht

theorem scanFraction_append (hs : IsFraction s) (ht : ∀ b ∈ t.head?, ¬isDigit b ∧ b ≠ 46) : 
    scanFraction (s ++ t) = some t := by
  rcases hs with rfl | ⟨ds, hd, rfl⟩
  case inl =>
    rw [List.nil_append, scanFraction.eq_def]
    split
    case h_1 t => exact absurd rfl (ht 46 rfl).right
    case h_2   => rfl
  case inr => exact scanDigits_append hd fun b hb => (ht b hb).left

theorem scanExponent_append (hs : IsExponent s) (ht : Ends t) : scanExponent (s ++ t) = some t := by
  rcases hs with rfl | ⟨sign, ds, hg, hd, hs⟩
  case inl =>
    rw [List.nil_append, scanExponent.eq_def]
    split
    case h_1 => exact absurd (by simp) (ht 101 rfl).right
    case h_2 => exact absurd (by simp) (ht 69 rfl).right
    case h_3 => rfl
  case inr =>
    have hsigned : scanExponent.signed (sign ++ ds ++ t) = some t := by
      have hdt : scanDigits (ds ++ t) = some t := scanDigits_append hd fun b hb => (ht b hb).left
      simp only [List.mem_cons, List.not_mem_nil, or_false] at hg
      rcases hg with rfl | rfl | rfl
      case inl =>
        have ⟨b, ds', he, hb⟩ := hd.exists_cons
        rw [List.nil_append, scanExponent.signed.eq_def]
        split
        case h_1 s h => 
          rw [he] at h
          exact absurd (List.head_eq_of_cons_eq h ▸ hb) (by decide)
        case h_2 s h => 
          rw [he] at h
          exact absurd (List.head_eq_of_cons_eq h ▸ hb) (by decide)
        case h_3     => exact hdt
      all_goals exact hdt
    rcases hs with rfl | rfl <;> exact hsigned

theorem IsInteger.exists_cons (h : IsInteger s) : ∃ b s', s = b :: s' ∧ isDigit b := by
  rcases h with rfl | ⟨hd, _⟩
  case inl => exact ⟨48, [], rfl, rfl⟩
  case inr => exact hd.exists_cons

-- What follows the integer of a number is neither a digit nor, after the fraction, a point.
theorem IsExponent.head (h : IsExponent s) (ht : Ends t) : ∀ b ∈ (s ++ t).head?, ¬isDigit b ∧ b ≠ 46 := by
  rcases h with rfl | ⟨sign, ds, _, _, rfl | rfl⟩
  case inl => 
    intro b hb
    have ⟨hd, hm⟩ := ht b hb
    exact ⟨hd, fun he => hm <| by simp [he]⟩
  all_goals
    intro b hb
    cases hb
    decide

theorem IsFraction.head (h : IsFraction s) (ht : ∀ b ∈ t.head?, ¬isDigit b ∧ b ≠ 46) : 
    ∀ b ∈ (s ++ t).head?, ¬isDigit b := by
  rcases h with rfl | ⟨ds, _, rfl⟩
  case inl => exact fun b hb => (ht b hb).left
  case inr =>
    intro b hb
    cases hb
    decide

theorem scanNumber_append (hs : IsNumber s) (ht : Ends t) : scanNumber (s ++ t) = some (s, t) := by
  have ⟨neg, int, frac, exp, hn, hi, hf, he, hs⟩ := hs
  have hh := he.head ht
  have hscan : (scanInteger (int ++ (frac ++ (exp ++ t))) >>= scanFraction >>= scanExponent) = some t := by
    rw [scanInteger_append hi <| hf.head hh]
    change scanFraction _ >>= scanExponent = _
    rw [scanFraction_append hf hh]
    exact scanExponent_append he ht
  have htrim : (s ++ t).trimPrefix [45] = int ++ (frac ++ (exp ++ t)) := by
    rcases hn with rfl | rfl
    case inl => 
      have ⟨b, int', hb, hd⟩ := hi.exists_cons
      have hne : b ≠ 45 := by
        rintro rfl
        contradiction
      simp [hs, hb, Bytes.trimPrefix, Bytes.hasPrefix, hne.symm]
    case inr => simp [hs, Bytes.trimPrefix, Bytes.hasPrefix]
  rw [scanNumber, htrim, hscan]
  simp

theorem isDigits_map {ds : List Nat} (hn : ds ≠ []) (h : ∀ d ∈ ds, d < 10) : IsDigits (ds.map digitByte) := by
  have hd : ∀ d < 10, isDigit (digitByte d) := by decide
  refine ⟨by simpa using hn, ?_⟩
  intro b hb
  have ⟨d, hm, he⟩ := List.mem_map.mp hb
  exact he ▸ hd d (h d hm)

theorem isInteger_map {ds : List Nat} (hn : ds ≠ []) (h : ∀ d ∈ ds, d < 10) (hz : ds.head? ≠ some 0) : 
    IsInteger (ds.map digitByte) := by
  have hd : ∀ d < 10, digitByte d = 48 → d = 0 := by decide
  refine .inr ⟨isDigits_map hn h, ?_⟩
  intro hb
  have ⟨d, hm, he⟩ := Option.map_eq_some_iff.mp <| List.head?_map .. ▸ hb
  exact hz <| hm.trans <| congrArg some <| hd d (h d <| List.mem_of_mem_head? hm) he

theorem isDigits_natDigits : IsDigits (natDigits n) :=
  ⟨natDigits_ne_nil, fun _ hb => by simpa [isDigit] using mem_natDigits hb⟩

theorem isInteger_natDigits : IsInteger (natDigits n) := by
  rw [natDigits]
  split
  case isTrue    => exact .inl rfl
  case isFalse h =>
    apply isInteger_map
    case hn => simpa using Nat.digits_ne_nil_iff_ne_zero.mpr h
    case h  => exact fun d hd => Nat.digits_lt_base (by decide) <| List.mem_reverse.mp hd
    case hz =>
      rw [List.head?_reverse, List.getLast?_eq_getLast_of_ne_nil <| Nat.digits_ne_nil_iff_ne_zero.mpr h]
      exact fun he => Nat.getLast_digit_ne_zero 10 h <| Option.some.inj he

theorem isNumber_itoa {n : Int} : IsNumber (itoa n) := by
  have h : IsInteger (natDigits n.natAbs) := isInteger_natDigits
  rw [itoa]
  split
  case isTrue  => exact ⟨[45], _, [], [], .inr rfl, h, .inl rfl, .inl rfl, by simp⟩
  case isFalse => exact ⟨[], _, [], [], .inl rfl, h, .inl rfl, .inl rfl, by simp⟩

section Float

variable [Shortest] {x : ℚ}

open Shortest

theorem isNumber_formatFloat : IsNumber (formatFloat x) := by
  have hd := digits_lt x
  have hh := digits_head x
  have hp := point_nil x
  simp only [formatFloat]
  generalize digits x = ds at hd hh hp
  generalize point x = dp at hp
  generalize hg : (if x < 0 then [45] else [] : Bytes) = neg
  have hneg : neg = [] ∨ neg = [45] := by
    subst hg
    split
    case isTrue  => exact .inr rfl
    case isFalse => exact .inl rfl
  split
  case isTrue =>
    simp only [fmtE]
    generalize (if ds = [] then 0 else dp - 1) = exp
    refine ⟨neg, [digitByte (ds.headD 0)], if 1 < ds.length then 46 :: ds.tail.map digitByte else [], 
      101 :: [if exp < 0 then 45 else 43] ++ natDigits exp.natAbs, hneg, ?int, ?frac, ?exp, by simp⟩
    case int  => 
      cases ds
      case nil       => exact .inl rfl
      case cons d ds => exact isInteger_map (List.cons_ne_nil d []) (by simpa using hd d) (by simpa using hh)
    case frac =>
      split
      case isFalse   => exact .inl rfl
      case isTrue hl => 
        have hn : ds.tail ≠ [] := by
          rw [← List.length_pos_iff, List.length_tail]
          omega
        exact .inr ⟨_, isDigits_map hn fun d hm => hd d <| List.mem_of_mem_tail hm, rfl⟩
    case exp  => exact .inr ⟨_, _, by split <;> simp, isDigits_natDigits, .inl rfl⟩
  case isFalse =>
    simp only [fmtF, fmtF.int, fmtF.frac]
    refine ⟨neg, _, _, [], hneg, ?int, ?frac, .inl rfl, by rw [List.append_nil]⟩
    case int =>
      split
      case isFalse => exact .inl rfl
      case isTrue hpos =>
        have hn : ds ≠ [] := fun hn => by simp [hp hn] at hpos
        have ⟨d, ds', he⟩ := List.exists_cons_of_ne_nil hn
        have hs : ∃ k, dp.toNat = k + 1 := ⟨dp.toNat - 1, by omega⟩
        have ⟨k, hk⟩ := hs
        apply isInteger_map
        case hn => simp [hk, he]
        case h  => 
          intro d hm
          rcases List.mem_append.mp <| List.mem_of_mem_take hm with hm | hm
          case inl => exact hd d hm
          case inr => exact (List.eq_of_mem_replicate hm) ▸ by decide
        case hz => simpa [hk, he] using hh
    case frac =>
      split
      case isFalse => exact .inl rfl
      case isTrue hlt =>
        refine .inr ⟨_, isDigits_map ?_ ?_, rfl⟩
        case refine_1 => 
          rw [← List.length_pos_iff, List.length_append, List.length_replicate, List.length_drop]
          omega
        case refine_2 => 
          intro d hm
          rcases List.mem_append.mp hm with hm | hm
          case inl => exact (List.eq_of_mem_replicate hm) ▸ by decide
          case inr => exact hd d <| List.mem_of_mem_drop hm

end Float

-- What the texts of numbers stand for.
section Values

theorem trimPrefix_sign {neg : Bytes} (hn : neg = [] ∨ neg = [45]) (hs : ∀ b ∈ s.head?, b ≠ 45) : 
    (neg ++ s).trimPrefix [45] = s := by
  rcases hn with rfl | rfl
  case inr => simp [Bytes.trimPrefix, Bytes.hasPrefix]
  case inl =>
    cases s
    case nil      => rfl
    case cons b s => simp [Bytes.trimPrefix, Bytes.hasPrefix, (hs b rfl).symm]

theorem digitsValue_map {ds : List Nat} (h : ∀ d ∈ ds, d < 10) : 
    digitsValue (ds.map digitByte) = Nat.ofDigits 10 ds.reverse := by
  have hd : ∀ d < 10, (digitByte d - 48).toNat = d := by decide
  have hm : (ds.map digitByte).map (fun b => (b - 48).toNat) = ds := by
    rw [List.map_map]
    exact (List.map_congr_left fun d hm => hd d <| h d hm).trans <| List.map_id' ds
  rw [digitsValue, List.map_reverse, hm]

theorem exponentValue_signed {e : Int} : 
    exponentValue (101 :: (if e < 0 then 45 else 43) :: natDigits e.natAbs) = e := by
  have hd : (digitsValue (natDigits e.natAbs) : Int) = e.natAbs := congrArg Nat.cast ofDigits_natDigits
  split
  case isTrue  => 
    change -(digitsValue (natDigits e.natAbs) : Int) = e
    omega
  case isFalse => 
    change (digitsValue (natDigits e.natAbs) : Int) = e
    omega

-- The digits before and after the point, and the exponent.
theorem numberValue_eq {is fs : List Nat} {neg frac exp : Bytes} (hn : neg = [] ∨ neg = [45]) (hi : is ≠ []) 
    (hd : ∀ d ∈ is ++ fs, d < 10) (hf : fs = [] ∧ frac = [] ∨ frac = 46 :: fs.map digitByte) (he : IsExponent exp) :
    numberValue (neg ++ (is.map digitByte ++ (frac ++ exp))) = 
      (if neg = [] then 1 else -1) * decimal (is ++ fs) (is.length + exponentValue exp) := by
  have hid : IsDigits (is.map digitByte) := isDigits_map hi fun d hm => hd d <| List.mem_append_left _ hm
  have hfd : ∀ b ∈ fs.map digitByte, isDigit b := by
    intro b hb
    have hds : ∀ d < 10, isDigit (digitByte d) := by decide
    obtain ⟨d, hm, rfl⟩ := List.mem_map.mp hb
    exact hds d <| hd d <| List.mem_append_right _ hm
  have ⟨b, int, hb, hbd⟩ := hid.exists_cons
  have hne : b ≠ 45 := by
    rintro rfl
    contradiction
  have heh : ∀ b ∈ exp.head?, ¬isDigit b ∧ b ≠ 46 := by simpa using he.head (t := []) (by simp [Ends])
  have hu : (frac ++ exp).trimPrefix [46] = fs.map digitByte ++ exp := by
    rcases hf with ⟨rfl, rfl⟩ | rfl
    case inr => simp [Bytes.trimPrefix, Bytes.hasPrefix]
    case inl =>
      cases exp
      case nil        => rfl
      case cons b exp => simp [Bytes.trimPrefix, Bytes.hasPrefix, (heh b rfl).right.symm]
  have hh : ∀ b ∈ (frac ++ exp).head?, ¬isDigit b := by
    rcases hf with ⟨rfl, rfl⟩ | rfl
    case inl => exact fun b hb => (heh b hb).left
    case inr => 
      intro b hb
      cases hb
      decide
  have ht : (neg ++ (is.map digitByte ++ (frac ++ exp))).trimPrefix [45] = is.map digitByte ++ (frac ++ exp) := 
    trimPrefix_sign hn <| by simp [hb, hne]
  have hp : (neg ++ (is.map digitByte ++ (frac ++ exp))).hasPrefix [45] = true ↔ neg ≠ [] := by
    rcases hn with rfl | rfl <;> simp [Bytes.hasPrefix, hb, hne.symm]
  have hx : (digitsValue (is.map digitByte ++ fs.map digitByte) : ℚ) * 10 ^ (exponentValue exp - fs.length) = 
      decimal (is ++ fs) (is.length + exponentValue exp) := by
    rw [← List.map_append, digitsValue_map hd, decimal, List.length_append]
    congr 2
    push_cast
    ring
  simp only [numberValue, ht, takeWhile_isDigit hid.right hh, dropWhile_isDigit hid.right hh, hu, 
    takeWhile_isDigit hfd fun b hb => (heh b hb).left, dropWhile_isDigit hfd fun b hb => (heh b hb).left, 
    List.length_map, hx, hp]
  rcases hn with rfl | rfl <;> simp

theorem exists_natDigits : 
    ∃ ds, ds ≠ [] ∧ (∀ d ∈ ds, d < 10) ∧ natDigits n = ds.map digitByte ∧ Nat.ofDigits 10 ds.reverse = n := by
  by_cases hz : n = 0
  case pos => exact ⟨[0], by simp, by simp, by simp [natDigits, hz, digitByte], by simp [hz]⟩
  case neg =>
    refine ⟨(Nat.digits 10 n).reverse, ?_, ?_, if_neg hz, ?_⟩
    case refine_1 => simpa using Nat.digits_ne_nil_iff_ne_zero.mpr hz
    case refine_2 => exact fun d hd => Nat.digits_lt_base (by decide) <| List.mem_reverse.mp hd
    case refine_3 => rw [List.reverse_reverse, Nat.ofDigits_digits]

theorem numberValue_itoa {n : Int} : numberValue (itoa n) = n := by
  obtain ⟨ds, hn, hd, he, hv⟩ := exists_natDigits (n := n.natAbs)
  have h (neg : Bytes) (hneg : neg = [] ∨ neg = [45]) : 
      numberValue (neg ++ natDigits n.natAbs) = (if neg = [] then 1 else -1) * (n.natAbs : ℚ) := by
    have h := @numberValue_eq ds [] neg _ _ hneg hn (by simpa using hd) (.inl ⟨rfl, rfl⟩) (.inl rfl)
    simpa [he, exponentValue, decimal, hv] using h
  rw [itoa]
  split
  case isTrue hlt =>
    refine (h [45] <| .inr rfl).trans ?_
    rw [if_neg (by simp), Nat.cast_natAbs, abs_of_neg hlt, Int.cast_neg, neg_one_mul, neg_neg]
  case isFalse hle =>
    refine (h [] <| .inl rfl).trans ?_
    rw [if_pos rfl, Nat.cast_natAbs, abs_of_nonneg (not_lt.mp hle), one_mul]

-- Zeros fill up the digits on both sides of the point.
theorem exists_fmtF {ds : List Nat} {dp : Int} (hp : ds = [] → dp = 0) : 
    ∃ m n, fmtF.int ds dp ++ fmtF.frac ds dp = .replicate m 0 ++ ds ++ .replicate n 0 ∧ 
      (fmtF.int ds dp).length = dp + m ∧ fmtF.int ds dp ≠ [] := by
  by_cases h : 0 < dp
  case pos =>
    obtain ⟨k, rfl⟩ := Int.eq_ofNat_of_zero_le h.le
    have hk : 0 < k := by exact_mod_cast h
    have hl : (fmtF.int ds k).length = k := by
      simp only [fmtF.int, h, if_true, List.length_take, List.length_append, List.length_replicate, Int.toNat_natCast]
      omega
    refine ⟨0, k - ds.length, ?_, by simp [hl], List.ne_nil_of_length_pos <| hl.symm ▸ hk⟩
    by_cases hl : k < ds.length
    case pos => simp [fmtF.int, fmtF.frac, hk, hl, Nat.sub_eq_zero_of_le hl.le]
    case neg =>
      have ht : (ds ++ List.replicate (k - ds.length) 0).take k = ds ++ .replicate (k - ds.length) 0 := 
        List.take_of_length_le <| by simp; omega
      simp [fmtF.int, fmtF.frac, hk, hl, ht]
  case neg =>
    have hi : fmtF.int ds dp = [0] := if_neg h
    have hf : fmtF.frac ds dp = .replicate (-dp).toNat 0 ++ ds := by
      by_cases hl : dp < ds.length
      case pos => simp [fmtF.frac, hl, Int.toNat_of_nonpos (not_lt.mp h)]
      case neg => 
        have hn : ds = [] := List.eq_nil_of_length_eq_zero <| by omega
        simp [fmtF.frac, hn, hp hn]
    refine ⟨(-dp).toNat + 1, 0, by simp [hi, hf, List.replicate_succ], ?_, by simp [hi]⟩
    rw [hi, List.length_singleton]
    omega

theorem numberValue_formatFloat [Shortest] {x : ℚ} : 
    numberValue (formatFloat x) = (if x < 0 then -1 else 1) * decimal (Shortest.digits x) (Shortest.point x) := by
  have hd := Shortest.digits_lt x
  have hp := Shortest.point_nil x
  have hs : (if x < 0 then -1 else 1 : ℚ) = if (if x < 0 then [45] else [] : Bytes) = [] then 1 else -1 := by
    split <;> rfl
  rw [hs, formatFloat]
  generalize Shortest.digits x = ds at hd hp
  generalize Shortest.point x = dp at hp
  generalize hg : (if x < 0 then [45] else [] : Bytes) = neg
  have hneg : neg = [] ∨ neg = [45] := by
    subst hg
    split
    case isTrue  => exact .inr rfl
    case isFalse => exact .inl rfl
  have hz (n : Nat) : ∀ d ∈ List.replicate n 0, d < 10 := fun d hm => List.eq_of_mem_replicate hm ▸ by decide
  split
  case isTrue =>
    let exp := if ds = [] then 0 else dp - 1
    let frac : Bytes := if 1 < ds.length then 46 :: ds.tail.map digitByte else []
    have ht : fmtE ds dp = 
        [ds.headD 0].map digitByte ++ (frac ++ 101 :: (if exp < 0 then 45 else 43) :: natDigits exp.natAbs) := by
      simp [fmtE, frac, exp]
    have hf : ds.tail = [] ∧ frac = [] ∨ frac = 46 :: ds.tail.map digitByte := by
      by_cases hl : 1 < ds.length
      case pos => exact .inr <| if_pos hl
      case neg => exact .inl ⟨List.eq_nil_of_length_eq_zero <| by rw [List.length_tail]; omega, if_neg hl⟩
    have he : IsExponent (101 :: (if exp < 0 then 45 else 43) :: natDigits exp.natAbs) := 
      .inr ⟨[if exp < 0 then 45 else 43], _, by split <;> simp, isDigits_natDigits, .inl rfl⟩
    have hv : decimal ([ds.headD 0] ++ ds.tail) ([ds.headD 0].length + exp) = decimal ds dp := by
      cases ds
      case nil       => simpa [exp, hp] using @decimal_replicate_append [] 0 1
      case cons d ds => simp [exp]
    have hdd : ∀ d ∈ [ds.headD 0] ++ ds.tail, d < 10 := by
      cases ds
      case nil       => simp
      case cons d ds => exact hd
    rw [ht, numberValue_eq hneg (List.cons_ne_nil _ _) hdd hf he, exponentValue_signed, hv]
  case isFalse =>
    have ⟨m, n, hds, hl, hi⟩ := exists_fmtF hp
    have hf : fmtF.frac ds dp = [] ∧ (if dp < ds.length then 46 :: (fmtF.frac ds dp).map digitByte else []) = [] ∨ 
        (if dp < ds.length then 46 :: (fmtF.frac ds dp).map digitByte else []) = 
          46 :: (fmtF.frac ds dp).map digitByte := by
      by_cases hlt : dp < ds.length
      case pos => exact .inr <| if_pos hlt
      case neg => exact .inl ⟨if_neg hlt, if_neg hlt⟩
    have hdd : ∀ d ∈ fmtF.int ds dp ++ fmtF.frac ds dp, d < 10 := by
      rw [hds]
      intro d hm
      rcases List.mem_append.mp hm with hm | hm
      case inr => exact hz n d hm
      case inl =>
        rcases List.mem_append.mp hm with hm | hm
        case inl => exact hz m d hm
        case inr => exact hd d hm
    have hv : decimal (fmtF.int ds dp ++ fmtF.frac ds dp) ((fmtF.int ds dp).length + 0) = decimal ds dp := by
      rw [hds, hl, add_zero, decimal_append_replicate, decimal_replicate_append]
    have h := numberValue_eq hneg hi hdd hf (.inl rfl)
    rw [List.append_nil] at h
    rw [fmtF, h, ← hv]
    rfl

end Values
end Numbers

section Values

theorem skipSpace_cons (h : b ≠ 32 ∧ b ≠ 9 ∧ b ≠ 13 ∧ b ≠ 10) : skipSpace (b :: s) = b :: s := by
  simp [skipSpace, h]

theorem skipSpace_quote : skipSpace (quote s ++ t) = 34 :: quoted s ++ 34 :: t := by
  simp [quote, skipSpace]

-- A value whose strings are encoded correctly.
mutual

def toValid {ν : Type} : Json ν → Json ν
  | .null          => .null
  | .bool b        => .bool b
  | .number n      => .number n
  | .string s      => .string <| Bytes.encodeAll s.runes
  | .array vs      => .array <| toValidElements vs
  | .object fields => .object <| toValidFields fields

def toValidElements {ν : Type} : List (Json ν) → List (Json ν)
  | []      => []
  | v :: vs => toValid v :: toValidElements vs

def toValidFields {ν : Type} : List (Bytes × Json ν) → List (Bytes × Json ν)
  | []      => []
  | f :: fs => toValidField f :: toValidFields fs

def toValidField {ν : Type} : Bytes × Json ν → Bytes × Json ν
  | (key, v) => (Bytes.encodeAll key.runes, toValid v)

end

mutual

def WellFormed : Json Bytes → Prop
  | .number text   => IsNumber text
  | .array vs      => WellFormedElements vs
  | .object fields => WellFormedFields fields
  | _              => True

def WellFormedElements : List (Json Bytes) → Prop
  | []      => True
  | v :: vs => WellFormed v ∧ WellFormedElements vs

def WellFormedFields : List (Bytes × Json Bytes) → Prop
  | []      => True
  | f :: fs => WellFormedField f ∧ WellFormedFields fs

def WellFormedField : Bytes × Json Bytes → Prop
  | (_, v) => WellFormed v

end

theorem IsNumber.exists_cons (h : IsNumber s) : ∃ b s', s = b :: s' ∧ (isDigit b ∨ b = 45) := by
  have ⟨neg, int, _, _, hn, hi, _, _, hs⟩ := h
  have ⟨b, int', hb, hd⟩ := hi.exists_cons
  rcases hn with rfl | rfl
  case inl => exact ⟨b, _, by rw [hs, hb]; rfl, .inl hd⟩
  case inr => exact ⟨45, _, by rw [hs]; rfl, .inr rfl⟩

theorem scanValue_number (h : IsNumber s) (ht : Ends t) : scanValue (n + 1) (s ++ t) = some (.number s, t) := by
  have ⟨b, s', hs, hb⟩ := h.exists_cons
  have hne : ∀ c ∈ [32, 9, 13, 10, 34, 123, 91, 110, 116, 102], b ≠ c := by
    intro c hc he
    have hn : ∀ c ∈ [32, 9, 13, 10, 34, 123, 91, 110, 116, 102], ¬(isDigit c ∨ c = 45) := by simp [isDigit]
    exact hn c hc <| he ▸ hb
  simp only [List.forall_mem_cons] at hne
  have ⟨h32, h9, h13, h10, h34, h123, h91, h110, h116, h102, _⟩ := hne
  have hk : skipSpace (s ++ t) = s ++ t := by
    rw [hs]
    exact skipSpace_cons ⟨h32, h9, h13, h10⟩
  have hp : ∀ p : Bytes, p.head? ∈ [some 110, some 116, some 102] → (s ++ t).hasPrefix p = false := by
    intro p hp
    cases p
    case nil => simp at hp
    case cons c p =>
      have hc : (c == b) = false := by
        rw [beq_eq_false_iff_ne]
        rintro rfl
        simp_all
      simp [Bytes.hasPrefix, hs, List.isPrefixOf, hc]
  have hw : scanValue (n + 1) (s ++ t) = (scanNumber (s ++ t)).map fun p => (.number p.fst, p.snd) := by
    rw [scanValue, hk]
    split
    case h_1 he => exact absurd (List.head_eq_of_cons_eq <| (hs ▸ he :)) h34
    case h_2 he => exact absurd (List.head_eq_of_cons_eq <| (hs ▸ he :)) h123
    case h_3 he => exact absurd (List.head_eq_of_cons_eq <| (hs ▸ he :)) h91
    case h_4    => rw [hp _ (by decide), hp _ (by decide), hp _ (by decide)]; rfl
  rw [hw, scanNumber_append h ht, Option.map_some]

theorem exists_encode_cons (h : v.WellFormed) : ∃ b w, encode v = b :: w ∧ b ∉ [32, 9, 13, 10, 93, 125] := by
  cases v
  case null        => exact ⟨110, _, rfl, by decide⟩
  case bool b      => cases b <;> exact ⟨_, _, rfl, by decide⟩
  case string s    => exact ⟨34, _, rfl, by decide⟩
  case array vs    => exact ⟨91, _, rfl, by decide⟩
  case object fs   => exact ⟨123, _, rfl, by decide⟩
  case number text =>
    rw [WellFormed] at h
    have ⟨b, s', hs, hb⟩ := h.exists_cons
    have hn : ∀ c ∈ [32, 9, 13, 10, 93, 125], ¬(isDigit c ∨ c = 45) := by simp [isDigit]
    exact ⟨b, s', by rw [encode, hs], fun hm => hn b hm hb⟩

theorem exists_encodeElements_cons (h : v.WellFormed) : 
    ∃ b w, encodeElements (v :: vs) = b :: w ∧ b ∉ [32, 9, 13, 10, 93, 125] := by
  have ⟨b, w, hb, hn⟩ := exists_encode_cons h
  cases vs
  case nil  => exact ⟨b, w, by rw [encodeElements, hb], hn⟩
  case cons => exact ⟨b, _, by rw [encodeElements, hb]; rfl, hn⟩

theorem exists_encodeFields_cons {f : Bytes × Json Bytes} : ∃ w, encodeFields (f :: fs) = 34 :: w := by
  cases fs
  case nil  => exact ⟨_, by rw [encodeFields, encodeField]; rfl⟩
  case cons => exact ⟨_, by rw [encodeFields, encodeField]; rfl⟩

-- With enough fuel, the scanners read back what has been encoded.
structure Decodes (n : Nat) : Prop where
  value    : ∀ v t, v.WellFormed → Ends t → 2 * (encode v).length ≤ n → 
    scanValue n (encode v ++ t) = some (v.toValid, t)
  elements : ∀ v vs t, WellFormedElements (v :: vs) → 2 * (encodeElements (v :: vs)).length < n → 
    scanElements n (encodeElements (v :: vs) ++ 93 :: t) = some (toValidElements (v :: vs), t)
  fields   : ∀ f fs t, WellFormedFields (f :: fs) → 2 * (encodeFields (f :: fs)).length < n → 
    scanFields n (encodeFields (f :: fs) ++ 125 :: t) = some (toValidFields (f :: fs), t)

theorem ends_cons (h : b ∈ [44, 93, 125]) : Ends (b :: t) := by
  intro c hc
  have hd : ∀ b ∈ [44, 93, 125], ¬isDigit b ∧ b ∉ [46, 101, 69] := by simp [isDigit]
  exact hd c <| Option.some.inj hc ▸ h

theorem Decodes.succ_value (h : Decodes n) (hw : v.WellFormed) (ht : Ends t) (hn : 2 * (encode v).length ≤ n + 1) : 
    scanValue (n + 1) (encode v ++ t) = some (v.toValid, t) := by
  cases v
  case null        => rfl
  case bool b      => cases b <;> rfl
  case number text =>
    rw [WellFormed] at hw
    rw [encode, scanValue_number hw ht, toValid]
  case string s    =>
    rw [encode, scanValue, skipSpace_quote, List.cons_append]
    simp only [scanString_quoted, toValid]
    rfl
  case array vs    =>
    rw [WellFormed] at hw
    rw [encode] at hn ⊢
    cases vs
    case nil       => rfl
    case cons v vs =>
      have ⟨b, w, he, hb⟩ : ∃ b w, encodeElements (v :: vs) = b :: w ∧ b ∉ [32, 9, 13, 10, 93, 125] := 
        exists_encodeElements_cons hw.left
      simp only [List.mem_cons, List.not_mem_nil, or_false, not_or] at hb
      have hs := h.elements v vs t hw <| by
        simp only [List.cons_append, List.length_cons, List.length_append, List.length_nil] at hn
        omega
      have hk : skipSpace (encodeElements (v :: vs) ++ 93 :: t) = encodeElements (v :: vs) ++ 93 :: t := by
        rw [he]
        exact skipSpace_cons ⟨hb.1, hb.2.1, hb.2.2.1, hb.2.2.2.1⟩
      have hq : 91 :: encodeElements (v :: vs) ++ [93] ++ t = 91 :: (encodeElements (v :: vs) ++ 93 :: t) := by simp
      rw [hq, scanValue, skipSpace_cons (by decide)]
      simp only [hk]
      split
      case h_1 hc => 
        rw [he] at hc
        exact absurd (List.head_eq_of_cons_eq hc) hb.2.2.2.2.1
      case h_2    => rw [hs]; rfl
  case object fs   =>
    rw [WellFormed] at hw
    rw [encode] at hn ⊢
    cases fs
    case nil       => rfl
    case cons f fs =>
      have ⟨w, he⟩ : ∃ w, encodeFields (f :: fs) = 34 :: w := exists_encodeFields_cons
      have hs := h.fields f fs t hw <| by
        simp only [List.cons_append, List.length_cons, List.length_append, List.length_nil] at hn
        omega
      have hk : skipSpace (encodeFields (f :: fs) ++ 125 :: t) = encodeFields (f :: fs) ++ 125 :: t := by
        rw [he]
        exact skipSpace_cons (by decide)
      have hq : 123 :: encodeFields (f :: fs) ++ [125] ++ t = 123 :: (encodeFields (f :: fs) ++ 125 :: t) := by simp
      rw [hq, scanValue, skipSpace_cons (by decide)]
      simp only [hk]
      split
      case h_1 hc => 
        rw [he] at hc
        exact absurd (List.head_eq_of_cons_eq hc) (by decide)
      case h_2    => rw [hs]; rfl

theorem Decodes.succ_elements (h : Decodes n) (hw : WellFormedElements (v :: vs)) 
    (hn : 2 * (encodeElements (v :: vs)).length < n + 1) : 
    scanElements (n + 1) (encodeElements (v :: vs) ++ 93 :: t) = some (toValidElements (v :: vs), t) := by
  cases vs
  case nil       =>
    rw [encodeElements] at hn ⊢
    have hv := h.value v (93 :: t) hw.left (ends_cons (by decide)) (by omega)
    simp only [scanElements, hv]
    rfl
  case cons v' vs =>
    rw [encodeElements] at hn ⊢
    simp only [List.length_append, List.length_cons] at hn
    have hv := h.value v (44 :: (encodeElements (v' :: vs) ++ 93 :: t)) hw.left (ends_cons (by decide)) (by omega)
    have hs := h.elements v' vs t hw.right (by omega)
    rw [List.append_assoc, List.cons_append, scanElements, hv]
    change (scanElements n (encodeElements (v' :: vs) ++ 93 :: t)).bind _ = _
    rw [hs]
    rfl

theorem Decodes.succ_fields {f : Bytes × Json Bytes} (h : Decodes n) (hw : WellFormedFields (f :: fs)) 
    (hn : 2 * (encodeFields (f :: fs)).length < n + 1) : 
    scanFields (n + 1) (encodeFields (f :: fs) ++ 125 :: t) = some (toValidFields (f :: fs), t) := by
  obtain ⟨key, v⟩ := f
  have hvw : v.WellFormed := hw.left
  have hlast {v' : Json Bytes} {u u' : Bytes} (hv : scanValue n u = some (v', 125 :: u')) : 
      scanFields (n + 1) (quote key ++ 58 :: u) = some ([(Bytes.encodeAll key.runes, v')], u') := by
    rw [scanFields, skipSpace_quote, List.cons_append]
    simp only [scanString_quoted]
    change (scanValue n u).bind _ = _
    rw [hv]
    rfl
  have hmore {v' : Json Bytes} {u u' : Bytes} (hv : scanValue n u = some (v', 44 :: u')) : 
      scanFields (n + 1) (quote key ++ 58 :: u) = 
        (scanFields n u').bind fun p => some ((Bytes.encodeAll key.runes, v') :: p.fst, p.snd) := by
    rw [scanFields, skipSpace_quote, List.cons_append]
    simp only [scanString_quoted]
    change (scanValue n u).bind _ = _
    rw [hv]
    rfl
  cases fs
  case nil       =>
    rw [encodeFields, encodeField] at hn ⊢
    simp only [List.length_append, List.length_cons] at hn
    have hv := h.value v (125 :: t) hvw (ends_cons (by decide)) (by omega)
    rw [List.append_assoc, List.cons_append, hlast hv]
    rfl
  case cons f fs =>
    rw [encodeFields, encodeField] at hn ⊢
    simp only [List.length_append, List.length_cons] at hn
    have hv := h.value v (44 :: (encodeFields (f :: fs) ++ 125 :: t)) hvw (ends_cons (by decide)) (by omega)
    have hs := h.fields f fs t hw.right (by omega)
    have hq : quote key ++ 58 :: encode v ++ 44 :: encodeFields (f :: fs) ++ 125 :: t = 
        quote key ++ 58 :: (encode v ++ 44 :: (encodeFields (f :: fs) ++ 125 :: t)) := by simp
    rw [hq, hmore hv, hs]
    rfl

theorem decodes : ∀ n, Decodes n := by
  intro n
  induction n
  case zero =>
    constructor
    case value =>
      intro v t h _ hn
      have ⟨_, _, he, _⟩ := exists_encode_cons h
      simp [he] at hn
    all_goals
      intros
      contradiction
  case succ n hi =>
    exact ⟨fun _ _ => hi.succ_value, fun _ _ _ => hi.succ_elements, fun _ _ _ => hi.succ_fields⟩

-- Scanning undoes encoding, apart from bytes that are not valid, and there is nothing left.
theorem scanValue_encode (h : v.WellFormed) : 
    scanValue (2 * (encode v).length + 2) (encode v) = some (v.toValid, []) := by
  have hv := (decodes _).value v [] h (by simp [Ends]) (Nat.le_add_right _ 2)
  rwa [List.append_nil] at hv

section Structs

variable {ν μ : Type} {f : ν → μ} {vs : List (Json ν)} {fs : List (Bytes × Json ν)} {fields : List (String × Json ν)}

theorem runes_str {name : String} : (str name).runes = name.toList :=
  Bytes.runes_encodeAll _

theorem str_injective : Function.Injective str := by
  intro name name' h
  have hr := congrArg Bytes.runes h
  rw [runes_str, runes_str] at hr
  exact String.ext hr

theorem toValidElements_eq : toValidElements vs = vs.map toValid := by
  induction vs
  case nil          => rfl
  case cons v vs hi => rw [toValidElements, hi, List.map_cons]

theorem toValidFields_eq : toValidFields fs = fs.map toValidField := by
  induction fs
  case nil          => rfl
  case cons f fs hi => rw [toValidFields, hi, List.map_cons]

theorem toValid_struct : (struct fields).toValid = struct (fields.map fun (name, v) => (name, v.toValid)) := by
  rw [struct, toValid, toValidFields_eq, struct, List.map_map, List.map_map]
  congr 2
  funext ⟨name, v⟩
  exact congrArg (·, v.toValid) <| congrArg Bytes.encodeAll runes_str

theorem mapElements_eq : mapElements f vs = vs.map (map f) := by
  induction vs
  case nil          => rfl
  case cons v vs hi => rw [mapElements, hi, List.map_cons]

theorem mapFields_eq : mapFields f fs = fs.map (mapField f) := by
  induction fs
  case nil          => rfl
  case cons g fs hi => rw [mapFields, hi, List.map_cons]

-- The numbers of a value do not matter for its strings.
mutual

theorem toValid_map (f : ν → μ) : (v : Json ν) → (v.map f).toValid = v.toValid.map f
  | .null | .bool _ | .number _ | .string _ => rfl
  | .array vs                               => congrArg array <| toValidElements_map f vs
  | .object fs                              => congrArg object <| toValidFields_map f fs

theorem toValidElements_map (f : ν → μ) : 
    (vs : List (Json ν)) → toValidElements (mapElements f vs) = mapElements f (toValidElements vs)
  | []      => rfl
  | v :: vs => congrArg₂ List.cons (toValid_map f v) (toValidElements_map f vs)

theorem toValidFields_map (f : ν → μ) : 
    (fs : List (Bytes × Json ν)) → toValidFields (mapFields f fs) = mapFields f (toValidFields fs)
  | []      => rfl
  | g :: fs => congrArg₂ List.cons (toValidField_map f g) (toValidFields_map f fs)

theorem toValidField_map (f : ν → μ) : 
    (g : Bytes × Json ν) → toValidField (mapField f g) = mapField f (toValidField g)
  | (key, v) => congrArg (Bytes.encodeAll key.runes, ·) <| toValid_map f v

end

mutual

theorem map_map {ξ : Type} (f : ν → μ) (g : μ → ξ) : (v : Json ν) → (v.map f).map g = v.map (g <| f ·)
  | .null | .bool _ | .number _ | .string _ => rfl
  | .array vs                               => congrArg array <| mapElements_mapElements f g vs
  | .object fs                              => congrArg object <| mapFields_mapFields f g fs

theorem mapElements_mapElements {ξ : Type} (f : ν → μ) (g : μ → ξ) : 
    (vs : List (Json ν)) → mapElements g (mapElements f vs) = mapElements (g <| f ·) vs
  | []      => rfl
  | v :: vs => congrArg₂ List.cons (map_map f g v) (mapElements_mapElements f g vs)

theorem mapFields_mapFields {ξ : Type} (f : ν → μ) (g : μ → ξ) : 
    (fs : List (Bytes × Json ν)) → mapFields g (mapFields f fs) = mapFields (g <| f ·) fs
  | []      => rfl
  | h :: fs => congrArg₂ List.cons (mapField_mapField f g h) (mapFields_mapFields f g fs)

theorem mapField_mapField {ξ : Type} (f : ν → μ) (g : μ → ξ) : 
    (h : Bytes × Json ν) → mapField g (mapField f h) = mapField (g <| f ·) h
  | (key, v) => congrArg (key, ·) <| map_map f g v

end

-- A value is well-formed if its numbers are written as such.
mutual

theorem wellFormed_map {f : ν → Bytes} (h : ∀ n, IsNumber (f n)) : (v : Json ν) → (v.map f).WellFormed
  | .null | .bool _ | .string _ => trivial
  | .number n                   => h n
  | .array vs                   => wellFormedElements_map h vs
  | .object fs                  => wellFormedFields_map h fs

theorem wellFormedElements_map {f : ν → Bytes} (h : ∀ n, IsNumber (f n)) : 
    (vs : List (Json ν)) → WellFormedElements (mapElements f vs)
  | []      => trivial
  | v :: vs => ⟨wellFormed_map h v, wellFormedElements_map h vs⟩

theorem wellFormedFields_map {f : ν → Bytes} (h : ∀ n, IsNumber (f n)) : 
    (fs : List (Bytes × Json ν)) → WellFormedFields (mapFields f fs)
  | []      => trivial
  | g :: fs => ⟨wellFormedField_map h g, wellFormedFields_map h fs⟩

theorem wellFormedField_map {f : ν → Bytes} (h : ∀ n, IsNumber (f n)) : 
    (g : Bytes × Json ν) → WellFormedField (mapField f g)
  | (_, v) => wellFormed_map h v

end

theorem isNumber_text [Shortest] (n : Numeral) : IsNumber (text n) := by
  cases n
  case int   => exact isNumber_itoa
  case float => exact isNumber_formatFloat

end Structs

-- A text that is encoded correctly.
def IsText (w : Bytes) : Prop :=
  ∃ rs, w = Bytes.encodeAll rs

theorem isText_nil : IsText [] :=
  ⟨[], rfl⟩

theorem IsText.append (h : IsText w) (h' : IsText w') : IsText (w ++ w') := by
  have ⟨rs, he⟩ := h
  have ⟨rs', he'⟩ := h'
  exact ⟨rs ++ rs', by rw [he, he', Bytes.encodeAll_append]⟩

theorem IsText.cons (hb : b < 128) (h : IsText w) : IsText (b :: w) := by
  have ⟨r, hr, _⟩ := Bytes.exists_ascii hb
  exact IsText.append ⟨[r], by rw [Bytes.encodeAll_cons, hr]⟩ h

theorem isText_ascii (h : w.all (· < 128)) : IsText w := by
  induction w
  case nil         => exact isText_nil
  case cons b w hi =>
    have ⟨hb, hw⟩ := Bool.and_eq_true_iff.mp h
    exact .cons (of_decide_eq_true hb) <| hi hw

theorem isText_escapeRune : IsText (escapeRune r) := by
  simp only [escapeRune]
  split
  case isTrue h  => 
    have ha : ∀ n < 128, (escapeASCII n.toUInt8).all (· < 128) := by decide
    have hu : r.val.toUInt8.toNat = r.val.toNat := Nat.mod_eq_of_lt <| Nat.lt_trans h (by decide)
    have he : r.val.toUInt8.toNat.toUInt8 = r.val.toUInt8 := UInt8.ofNat_toNat
    exact isText_ascii <| he ▸ ha _ (hu.trans_lt h)
  case isFalse h =>
    split
    case isFalse => exact ⟨[r], by simp⟩
    case isTrue  =>
      have hb : ∀ n < 16, [92, 117, 50, 48, 50, hexByte n].all (· < 128) := by decide
      exact isText_ascii <| hb _ <| Nat.mod_lt _ (by decide)

theorem isText_quoted : ∀ n s, IsText (quoted.go n s) := by
  intro n
  induction n
  case zero      => exact fun _ => isText_nil
  case succ n hi =>
    intro s
    cases s
    case nil      => exact isText_nil
    case cons b s =>
      simp only [quoted.go]
      split
      case h_1 => exact isText_escapeRune.append <| hi _
      case h_2 => exact (isText_ascii (by decide)).append <| hi _

theorem isText_quote : IsText (quote s) :=
  .cons (by decide) <| (isText_quoted _ _).append <| isText_ascii (by decide)

theorem IsDigits.isText (h : IsDigits ds) : IsText ds := by
  refine isText_ascii <| List.all_eq_true.mpr fun b hb => decide_eq_true ?_
  have ⟨_, hl⟩ : 48 ≤ b ∧ b ≤ 57 := by simpa [isDigit] using h.right b hb
  exact UInt8.lt_of_le_of_lt hl (by decide)

theorem IsNumber.isText (h : IsNumber s) : IsText s := by
  have ⟨neg, int, frac, exp, hn, hi, hf, he, hs⟩ := h
  rw [hs]
  refine .append ?neg <| .append ?int <| .append ?frac ?exp
  case neg  => rcases hn with rfl | rfl <;> exact isText_ascii (by decide)
  case int  =>
    rcases hi with rfl | ⟨hd, _⟩
    case inl => exact isText_ascii (by decide)
    case inr => exact hd.isText
  case frac =>
    rcases hf with rfl | ⟨ds, hd, rfl⟩
    case inl => exact isText_nil
    case inr => exact .cons (by decide) hd.isText
  case exp  =>
    rcases he with rfl | ⟨sign, ds, hg, hd, he⟩
    case inl => exact isText_nil
    case inr =>
      have hsign : IsText sign := by
        simp only [List.mem_cons, List.not_mem_nil, or_false] at hg
        rcases hg with rfl | rfl | rfl <;> exact isText_ascii (by decide)
      rcases he with rfl | rfl <;> exact .cons (by decide) <| hsign.append hd.isText

mutual

theorem isText_encode : (v : Json Bytes) → v.WellFormed → IsText (encode v)
  | .null, _      => isText_ascii (by decide)
  | .bool b, _    => by cases b <;> exact isText_ascii (by decide)
  | .number _, h  => by
    rw [WellFormed] at h
    exact h.isText
  | .string _, _  => isText_quote
  | .array vs, h  => by
    rw [WellFormed] at h
    exact .cons (by decide) <| (isText_encodeElements vs h).append <| isText_ascii (by decide)
  | .object fs, h => by
    rw [WellFormed] at h
    exact .cons (by decide) <| (isText_encodeFields fs h).append <| isText_ascii (by decide)

theorem isText_encodeElements : (vs : List (Json Bytes)) → WellFormedElements vs → IsText (encodeElements vs)
  | [], _           => isText_nil
  | [v], h          => isText_encode v h.left
  | v :: v' :: vs, h => (isText_encode v h.left).append <| .cons (by decide) <| isText_encodeElements (v' :: vs) h.right

theorem isText_encodeFields : (fs : List (Bytes × Json Bytes)) → WellFormedFields fs → IsText (encodeFields fs)
  | [], _           => isText_nil
  | [f], h          => isText_encodeField f h.left
  | f :: f' :: fs, h => 
    (isText_encodeField f h.left).append <| .cons (by decide) <| isText_encodeFields (f' :: fs) h.right

theorem isText_encodeField : (f : Bytes × Json Bytes) → WellFormedField f → IsText (encodeField f)
  | (_, v), h => isText_quote.append <| .cons (by decide) <| isText_encode v h

end

end Values
end Json
end Go
