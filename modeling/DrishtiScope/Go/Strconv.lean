import DrishtiScope.Go.Strings
import DrishtiScope.Lib.Float
import Mathlib.Data.Nat.Digits.Defs
import Mathlib.Algebra.Order.Ring.Unbundled.Rat

namespace Go

inductive NumError
  | errSyntax
  | errRange
  deriving DecidableEq

def digitValue (b : UInt8) : Option Nat :=
  if 48 ≤ b ∧ b ≤ 57 then
    some (b.toNat - 48)
  else if 97 ≤ b ∧ b ≤ 122 then
    some (b.toNat - 97 + 10)
  else if 65 ≤ b ∧ b ≤ 90 then
    some (b.toNat - 65 + 10)
  else
    none

-- Arithmetic on `int64` wraps around.
def int64 (n : Int) : Int :=
  n.bmod (2 ^ 64)

-- `float64` of an `int`.
def float64 (n : Int) : ℚ :=
  FloatFormat.binary64.round n

-- The operators `/` and `%` of signed integers. The quotient is truncated.
inductive Panic
  | divide
  deriving DecidableEq

def quo (a b : Int) : Except Panic Int :=
  if b = 0 then .error .divide else .ok <| a.tdiv b

def rem (a b : Int) : Except Panic Int :=
  if b = 0 then .error .divide else .ok <| a.tmod b

-- The value that `fmt.Sscanf` stores for `%d` when the text is the decimal number `n`: a number that
-- does not fit leaves the variable at zero.
def scanInt (n : Nat) : Int :=
  if n < 2 ^ 63 then n else 0

def natDigits (n : Nat) : Bytes :=
  if n = 0 then [48] else (Nat.digits 10 n).reverse.map fun d => 48 + d.toUInt8

-- `strconv.Itoa`, and `%d`.
def itoa (n : Int) : Bytes :=
  if n < 0 then 45 :: natDigits n.natAbs else natDigits n.natAbs

-- A condition on the digits of a base holds of the bytes of each number that is written in it.
theorem forall_mem_digits {base n : Nat} {digit : Nat → UInt8} {p : UInt8 → Prop} (hb : 1 < base) (hz : p 48) 
    (hd : ∀ d < base, p (digit d)) : 
    ∀ b ∈ if n = 0 then [48] else (Nat.digits base n).reverse.map digit, p b := by
  intro b h
  split at h
  case isTrue  => exact List.mem_singleton.mp h ▸ hz
  case isFalse =>
    obtain ⟨d, hm, rfl⟩ := List.mem_map.mp h
    exact hd d <| Nat.digits_lt_base hb <| List.mem_reverse.mp hm

theorem mem_natDigits {b : UInt8} {n : Nat} (h : b ∈ natDigits n) : 48 ≤ b ∧ b ≤ 57 := by
  apply forall_mem_digits ?base ?zero ?digits b h
  case base   => decide
  case zero   => decide
  case digits => decide

theorem natDigits_ne_nil {n : Nat} : natDigits n ≠ [] := by
  rw [natDigits]
  split
  case isTrue    => exact List.cons_ne_nil _ _
  case isFalse h => simpa using Nat.digits_ne_nil_iff_ne_zero.mpr h

theorem mem_itoa {b : UInt8} {n : Int} (h : b ∈ itoa n) : b = 45 ∨ (48 ≤ b ∧ b ≤ 57) := by
  rw [itoa] at h
  split at h
  case isTrue  => exact (List.mem_cons.mp h).imp_right mem_natDigits
  case isFalse => exact .inr <| mem_natDigits h

theorem ofDigits_natDigits {n : Nat} : 
    Nat.ofDigits 10 ((natDigits n).reverse.map fun b => (b - 48).toNat) = n := by
  rw [natDigits]
  split
  case isTrue h  => 
    rw [h]
    decide
  case isFalse   =>
    have ha : ∀ d < 10, (48 + d.toUInt8 - 48).toNat = d := by decide
    have hd : (Nat.digits 10 n).map ((fun b : UInt8 => (b - 48).toNat) ∘ fun d : Nat => 48 + d.toUInt8) = 
        (Nat.digits 10 n).map id :=
      List.map_congr_left fun d hd => ha d <| Nat.digits_lt_base (by decide) hd
    rw [← List.map_reverse, List.reverse_reverse, List.map_map, hd, List.map_id, Nat.ofDigits_digits]

theorem natDigits_injective : Function.Injective natDigits := by
  intro m n h
  rw [← ofDigits_natDigits (n := m), h, ofDigits_natDigits]

theorem itoa_injective : Function.Injective itoa := by
  have hs {m n : Nat} : 45 :: natDigits m ≠ natDigits n := by
    intro h
    exact absurd (mem_natDigits <| h ▸ List.mem_cons_self) (by decide)
  intro m n h
  simp only [itoa] at h
  split at h <;> split at h
  · have := natDigits_injective <| List.tail_eq_of_cons_eq h
    omega
  · exact absurd h hs
  · exact absurd h.symm hs
  · have := natDigits_injective h
    omega

-- `%.nf`.
def formatFixed (prec : Nat) (x : ℚ) : Bytes :=
  let n := (roundHalfEven (|x| * 10 ^ prec)).toNat
  let frac := natDigits (n % 10 ^ prec)
  (if x < 0 then str "-" else []) ++ natDigits (n / 10 ^ prec) ++
    if prec = 0 then [] else str "." ++ .replicate (prec - frac.length) 48 ++ frac

namespace Bytes

-- `strconv.ParseUint` for a base other than 0. Beside an error it yields the value that the caller
-- sees: zero, or the largest value where the number is too large.
def parseUint (s : Bytes) (base bits : Nat) : Nat × Option NumError :=
  if s = [] then (0, some .errSyntax) else go s 0
where
  go : Bytes → Nat → Nat × Option NumError
    | [], n     => (n, none)
    | b :: s, n =>
      match (digitValue b).filter (· < base) with
      | none   => (0, some .errSyntax)
      | some d => 
        let n := n * base + d
        if 2 ^ bits ≤ n then (2 ^ bits - 1, some .errRange) else go s n

-- `strconv.ParseInt` for a base other than 0.
def parseInt (s : Bytes) (base bits : Nat) : Int × Option NumError :=
  match s with
  | []      => (0, some .errSyntax)
  | 43 :: s => signed false s
  | 45 :: s => signed true s
  | s       => signed false s
where
  signed (neg : Bool) (s : Bytes) : Int × Option NumError :=
    match s.parseUint base bits with
    | (_, some .errSyntax) => (0, some .errSyntax)
    | (n, _)            =>
      let cutoff := 2 ^ (bits - 1)
      if !neg ∧ cutoff ≤ n then
        (cutoff - 1, some .errRange)
      else if neg ∧ cutoff < n then
        (-cutoff, some .errRange)
      else
        (if neg then -n else n, none)

-- `strconv.Atoi` on a 64 bit host.
def atoi (s : Bytes) : Int × Option NumError :=
  s.parseInt 10 64

-- `strings.Split` with a separator of one byte.
def splitByte (s : Bytes) (sep : UInt8) : List Bytes :=
  s.splitOn sep

-- `strings.Fields`: the maximal parts without spaces.
def fields (s : Bytes) : List Bytes :=
  go s.length s []
where
  go : Nat → Bytes → Bytes → List Bytes
    | 0, _, word         => emit word
    | _, [], word        => emit word
    | n + 1, b :: s, word => 
      match decodeRune? (b :: s) with
      | some r =>
        if r.isSpace then
          emit word ++ go n ((b :: s).drop r.utf8Size) []
        else
          go n ((b :: s).drop r.utf8Size) (word ++ r.encode)
      | none   => go n s (word ++ [b])
  emit (word : Bytes) : List Bytes :=
    if word = [] then [] else [word]

section Numbers

variable {base bits n : Nat} {digit : Nat → UInt8} {ds : List Nat}

theorem le_foldl_digits (hb : 0 < base) : n ≤ ds.foldl (fun n d => n * base + d) n := by
  induction ds generalizing n
  case nil          => exact le_rfl
  case cons d ds hi => exact (Nat.le_mul_of_pos_right n hb).trans <| (Nat.le_add_right _ d).trans hi

-- Digits are read one by one, as long as the number fits.
theorem parseUint.go_digits (hd : ∀ d < base, (digitValue (digit d)).filter (· < base) = some d) 
    (hb : 0 < base) (hl : ∀ d ∈ ds, d < base) (hn : ds.foldl (fun n d => n * base + d) n < 2 ^ bits) : 
    parseUint.go base bits (ds.map digit) n = (ds.foldl (fun n d => n * base + d) n, none) := by
  induction ds generalizing n
  case nil          => rfl
  case cons d ds hi =>
    have hlt : n * base + d < 2 ^ bits := (le_foldl_digits hb).trans_lt hn
    simp only [List.map_cons, parseUint.go, hd d <| hl d List.mem_cons_self, if_neg (not_le.mpr hlt), 
      List.foldl_cons]
    exact hi (fun e he => hl e <| List.mem_cons_of_mem _ he) hn

-- The digits of a number, with zeros in front of them.
theorem foldl_digits {k : Nat} : 
    (List.replicate k 0 ++ (Nat.digits base n).reverse).foldl (fun n d => n * base + d) 0 = n := by
  have hz : (List.replicate k 0).foldl (fun n d => n * base + d) 0 = 0 := by
    induction k
    case zero      => rfl
    case succ k hi => simpa [List.replicate_succ] using hi
  have hf : (fun d n => n * base + d) = fun d n => d + base * n := by
    funext d n
    rw [Nat.mul_comm, Nat.add_comm]
  rw [List.foldl_append, hz, List.foldl_reverse, hf]
  exact (Nat.ofDigits_eq_foldr base _).symm.trans <| Nat.ofDigits_digits base n

theorem parseUint_digits {k : Nat} (hd : ∀ d < base, (digitValue (digit d)).filter (· < base) = some d) 
    (hb : 1 < base) (hn : n < 2 ^ bits) (hne : n ≠ 0 ∨ 0 < k) : 
    parseUint ((List.replicate k 0 ++ (Nat.digits base n).reverse).map digit) base bits = (n, none) := by
  have hs : (List.replicate k 0 ++ (Nat.digits base n).reverse).map digit ≠ [] := by
    have hk : n ≠ 0 ∨ k ≠ 0 := hne.imp_right Nat.pos_iff_ne_zero.mp
    simp only [ne_eq, List.map_eq_nil_iff, List.append_eq_nil_iff, List.replicate_eq_nil_iff, 
      List.reverse_eq_nil_iff, Nat.digits_eq_nil_iff_eq_zero]
    tauto
  rw [parseUint, if_neg hs, parseUint.go_digits hd (by omega), foldl_digits]
  case hl =>
    intro d h
    cases List.mem_append.mp h
    case inl h => exact List.eq_of_mem_replicate h ▸ by omega
    case inr h => exact Nat.digits_lt_base hb <| List.mem_reverse.mp h
  case hn => rwa [foldl_digits]

theorem parseUint_natDigits (h : n < 2 ^ bits) : parseUint (natDigits n) 10 bits = (n, none) := by
  have hd : ∀ d < 10, (digitValue (48 + d.toUInt8)).filter (· < 10) = some d := by decide
  rw [natDigits]
  split
  case isTrue hz  => 
    subst hz
    exact parseUint_digits (k := 1) hd (by decide) h (.inr Nat.zero_lt_one)
  case isFalse hz => exact parseUint_digits (k := 0) hd (by decide) h (.inl hz)

theorem atoi_itoa {n : Int} (hl : -2 ^ 63 ≤ n) (hu : n < 2 ^ 63) : atoi (itoa n) = (n, none) := by
  have hp : parseUint (natDigits n.natAbs) 10 64 = (n.natAbs, none) := parseUint_natDigits (by omega)
  rw [itoa]
  split
  case isTrue hn  =>
    have hs : atoi (45 :: natDigits n.natAbs) = parseInt.signed 10 64 true (natDigits n.natAbs) := rfl
    rw [hs, parseInt.signed, hp]
    simp only [Bool.not_true, Bool.false_eq_true, false_and, if_false, true_and, if_true]
    rw [if_neg (by omega)]
    congr 1
    omega
  case isFalse hn =>
    have hs : atoi (natDigits n.natAbs) = parseInt.signed 10 64 false (natDigits n.natAbs) := by
      cases hd : natDigits n.natAbs
      case nil       => exact absurd hd natDigits_ne_nil
      case cons b ds =>
        have hb : 48 ≤ b := (mem_natDigits <| hd ▸ List.mem_cons_self).left
        have hp : b ≠ 43 ∧ b ≠ 45 := 
          ⟨fun h => absurd (h ▸ hb) (by decide), fun h => absurd (h ▸ hb) (by decide)⟩
        simp [atoi, parseInt, hp]
    rw [hs, parseInt.signed, hp]
    simp only [Bool.not_false, true_and, Bool.false_eq_true, false_and, if_false]
    rw [if_neg (by omega)]
    congr 1
    omega

end Numbers

section Fields

-- A word of printable ASCII.
structure Word (w : Bytes) : Prop where
  ne_nil : w ≠ []
  plain  : ∀ b ∈ w, 32 < b ∧ b < 127

-- White space in ASCII.
def Blank (b : UInt8) : Prop :=
  b = 32 ∨ (9 ≤ b ∧ b ≤ 13)

variable {w s word : Bytes} {b : UInt8} {n : Nat}

-- A byte of ASCII is a rune.
theorem exists_ascii (h : b < 128) : ∃ r : Rune, r.encode = [b] ∧ r.utf8Size = 1 ∧ (r.isSpace ↔ Blank b) := by
  have ha : ∀ n < 128, String.utf8EncodeChar (Char.ofNat n) = [n.toUInt8] ∧ (Char.ofNat n).utf8Size = 1 ∧ 
      (Rune.isSpace (Char.ofNat n) ↔ n.toUInt8 = 32 ∨ (9 ≤ n.toUInt8 ∧ n.toUInt8 ≤ 13)) := by 
    decide +kernel
  have hb := ha b.toNat (UInt8.lt_iff_toNat_lt.mp h)
  have he : b.toNat.toUInt8 = b := UInt8.ofNat_toNat
  rw [he] at hb
  exact ⟨_, hb⟩

theorem fields.go_plain (h : 32 < b ∧ b < 127) : 
    fields.go (n + 1) (b :: s) word = fields.go n s (word ++ [b]) := by
  have hl : b < 128 := UInt8.lt_trans h.right (by decide)
  have ⟨r, he, hu, hs⟩ := exists_ascii hl
  have hd : decodeRune? (b :: s) = some r := decodeRune?_eq ⟨s, by rw [he]; rfl⟩
  have hn : ¬Blank b := by
    rintro (rfl | ⟨_, hb⟩)
    · exact absurd h.left (by decide)
    · exact absurd (UInt8.lt_of_lt_of_le h.left hb) (by decide)
  simp only [fields.go, hd, hs, hn, if_false, he, hu, List.drop_one, List.tail_cons]

theorem fields.go_blank (h : Blank b) : 
    fields.go (n + 1) (b :: s) word = fields.emit word ++ fields.go n s [] := by
  have hl : b < 128 := by
    rcases h with rfl | ⟨_, hb⟩
    · decide
    · exact UInt8.lt_of_le_of_lt hb (by decide)
  have ⟨r, he, hu, hs⟩ := exists_ascii hl
  have hd : decodeRune? (b :: s) = some r := decodeRune?_eq ⟨s, by rw [he]; rfl⟩
  simp only [fields.go, hd, hs, h, if_true, hu, List.drop_one, List.tail_cons]

theorem fields.go_word (h : ∀ b ∈ w, 32 < b ∧ b < 127) : 
    fields.go (w.length + n) (w ++ s) word = fields.go n s (word ++ w) := by
  induction w generalizing word
  case nil         => simp
  case cons b w hi =>
    rw [List.length_cons, Nat.add_right_comm, List.cons_append, fields.go_plain (h b List.mem_cons_self), hi]
    · simp
    · exact fun c hc => h c <| List.mem_cons_of_mem _ hc

theorem fields_blank (h : Blank b) : fields (b :: s) = fields s :=
  fields.go_blank h

theorem fields_blanks {bs : Bytes} (h : ∀ b ∈ bs, Blank b) : fields (bs ++ s) = fields s := by
  induction bs
  case nil          => rfl
  case cons b bs hi => 
    rw [List.cons_append, fields_blank (h b List.mem_cons_self), 
      hi fun c hc => h c <| List.mem_cons_of_mem _ hc]

-- A word ends where the text ends or a blank follows.
theorem fields_word_append (hw : Word w) (hb : ∀ b ∈ s.head?, Blank b) : fields (w ++ s) = w :: fields s := by
  cases s
  case nil      =>
    have hg : fields.go (w.length + 0) (w ++ []) [] = fields.go 0 [] ([] ++ w) := fields.go_word hw.plain
    rw [List.append_nil, Nat.add_zero, List.nil_append] at hg
    rw [List.append_nil, fields, hg]
    exact if_neg hw.ne_nil
  case cons b s =>
    have hb := hb b rfl
    have hl : (w ++ b :: s).length = w.length + (s.length + 1) := by simp
    rw [fields_blank hb, fields, hl, fields.go_word hw.plain, fields.go_blank hb, List.nil_append, fields.emit, 
      if_neg hw.ne_nil]
    rfl

-- Words with gaps before them, and perhaps blanks after the last one.
theorem fields_columns {cells : List (Nat × Bytes)} {trail : Bytes} (hw : ∀ c ∈ cells, Word c.snd) 
    (hg : ∀ c ∈ cells.tail, 0 < c.fst) (ht : ∀ b ∈ trail, Blank b) : 
    fields ((cells.flatMap fun c => List.replicate c.fst 32 ++ c.snd) ++ trail) = cells.map (·.snd) := by
  have hs {n : Nat} : ∀ b ∈ List.replicate n 32, Blank b := fun b hb => .inl <| List.eq_of_mem_replicate hb
  induction cells
  case nil             =>
    have hn := fields_blanks (s := []) ht
    rwa [List.append_nil] at hn
  case cons c cells hi =>
    rw [List.flatMap_cons, List.append_assoc, List.append_assoc, fields_blanks hs, 
      fields_word_append (hw c List.mem_cons_self), hi ?words ?gaps]
    case words => exact fun c hc => hw c <| List.mem_cons_of_mem _ hc
    case gaps  => exact fun c hc => hg c <| List.mem_of_mem_tail hc
    · rfl
    · cases cells
      case nil             => exact fun b hb => ht b <| List.mem_of_head? hb
      case cons c' cells   =>
        have hp : 0 < c'.fst := hg c' List.mem_cons_self
        obtain ⟨n, hn⟩ := Nat.exists_eq_succ_of_ne_zero hp.ne'
        rintro b hb
        rw [List.flatMap_cons, hn, List.replicate_succ, List.cons_append, List.cons_append, List.cons_append, 
          List.head?_cons, Option.mem_some_iff] at hb
        exact .inl hb.symm

theorem Word.append {v : Bytes} (hw : Word w) (hv : ∀ b ∈ v, 32 < b ∧ b < 127) : Word (w ++ v) where
  ne_nil  := List.append_ne_nil_of_left_ne_nil hw.ne_nil _
  plain b := fun h => (List.mem_append.mp h).elim (hw.plain b) (hv b)

theorem word_natDigits : Word (natDigits n) where
  ne_nil  := natDigits_ne_nil
  plain b := fun h =>
    have ⟨hl, hu⟩ := mem_natDigits h
    ⟨UInt8.lt_of_lt_of_le (by decide) hl, UInt8.lt_of_le_of_lt hu (by decide)⟩

theorem word_itoa {n : Int} : Word (itoa n) := by
  rw [itoa]
  split
  case isTrue  =>
    have hw : Word [45] := ⟨by decide, by simp⟩
    exact hw.append word_natDigits.plain
  case isFalse => exact word_natDigits

end Fields

-- The part of the string after the last occurrence of the byte.
def afterLast? (s : Bytes) (b : UInt8) : Option Bytes :=
  if b ∈ s then some (s.reverse.takeWhile (· ≠ b)).reverse else none

theorem afterLast?_append {s t : Bytes} {b : UInt8} (h : b ∉ t) : afterLast? (s ++ b :: t) b = some t := by
  have ht : ∀ c ∈ t.reverse, decide (c ≠ b) := fun c hc => 
    decide_eq_true <| ne_of_mem_of_not_mem (List.mem_reverse.mp hc) h
  have hr : (s ++ b :: t).reverse = t.reverse ++ b :: s.reverse := by simp
  rw [afterLast?, if_pos (by simp), hr, List.takeWhile_append_of_pos ht, List.takeWhile_cons_of_neg (by simp), 
    List.append_nil, List.reverse_reverse]

end Bytes
end Go
