import DrishtiScope.Lib.Separated
import Mathlib.Data.List.TakeWhile
import Mathlib.Tactic.Common

-- The text format in which metrics are exposed: one sample on a line, with labels whose values are quoted.
namespace Exposition

abbrev Text := List UInt8

structure Sample where
  name   : Text
  labels : List (Text × Text)
  value  : Text
  deriving DecidableEq

def isDigit (b : UInt8) : Bool :=
  48 ≤ b && b ≤ 57

def isBlank (b : UInt8) : Bool :=
  b = 32 || b = 9

-- Letters, digits, the underscore, and the colon in the name of a metric.
def isWordByte (colon : Bool) (b : UInt8) : Bool :=
  (65 ≤ b && b ≤ 90) || (97 ≤ b && b ≤ 122) || b = 95 || isDigit b || (colon && b = 58)

-- A name does not begin with a digit.
def isName (colon : Bool) (s : Text) : Bool :=
  s.all (isWordByte colon) && s.head?.any (!isDigit ·)

-- Digits with at most one point between them.
def isDecimal (s : Text) : Bool :=
  s.all (fun b => isDigit b || b = 46) && s.count 46 ≤ 1 && s.head?.any isDigit && s.getLast?.any isDigit

def isNumber (s : Text) : Bool :=
  isDecimal (if s.head? = some 43 ∨ s.head? = some 45 then s.tail else s)

def skipBlanks (s : Text) : Text :=
  s.dropWhile isBlank

def scanByte (b : UInt8) (s : Text) : Option Text :=
  match skipBlanks s with
  | []     => none
  | c :: s => if c = b then some s else none

def scanName (colon : Bool) (s : Text) : Option (Text × Text) :=
  let s := skipBlanks s
  let name := s.takeWhile (isWordByte colon)
  if isName colon name then some (name, s.dropWhile <| isWordByte colon) else none

def unescape (b : UInt8) : Option UInt8 :=
  if b = 92 then some 92 else if b = 34 then some 34 else if b = 110 then some 10 else none

-- The value of a label, after the quote that opens it or after a backslash.
def scanValue (escaped : Bool) : Text → Option (Text × Text)
  | []     => none
  | b :: s =>
    if escaped then
      (unescape b).bind fun c => (scanValue false s).map fun (v, s) => (c :: v, s)
    else if b = 34 then
      some ([], s)
    else if b = 10 then
      none
    else if b = 92 then
      scanValue true s
    else
      (scanValue false s).map fun (v, s) => (b :: v, s)

-- The labels, after the brace that opens them. A comma may follow the last one.
def scanLabels : Nat → Text → Option (List (Text × Text) × Text)
  | 0, _     => none
  | n + 1, s => 
    match scanByte 125 s with
    | some s => some ([], s)
    | none   => do
      let (name, s) ← scanName false s
      let s ← scanByte 61 s
      let s ← scanByte 34 s
      let (value, s) ← scanValue false s
      match scanByte 44 s with
      | some s => (scanLabels n s).map fun (labels, s) => ((name, value) :: labels, s)
      | none   => (scanByte 125 s).map fun s => ([(name, value)], s)

-- A value, and perhaps a timestamp.
def scanNumbers (s : Text) : Option Text :=
  let s := skipBlanks s
  let value := s.takeWhile (!isBlank ·)
  let timestamp := skipBlanks <| s.dropWhile (!isBlank ·)
  if isNumber value && (timestamp = [] || isNumber timestamp) then some value else none

def parse (line : Text) : Option Sample := do
  let (name, s) ← scanName true line
  let (labels, s) ← match scanByte 123 s with
    | some s => scanLabels s.length s
    | none   => some ([], s)
  let value ← scanNumbers s
  return ⟨name, labels, value⟩

def lines (s : Text) : List Text :=
  s.splitOn 10

-- Neither an empty line nor a comment.
def isSample (line : Text) : Bool :=
  (skipBlanks line).head?.any (· ≠ 35)

-- What need not be escaped.
def Clean (s : Text) : Prop :=
  34 ∉ s ∧ 92 ∉ s ∧ 10 ∉ s

instance : DecidablePred Clean :=
  fun _ => inferInstanceAs (Decidable (_ ∧ _))

section Blanks

variable {b : UInt8} {s name : Text} {colon : Bool}

theorem skipBlanks_cons (h : isBlank b = false) : skipBlanks (b :: s) = b :: s :=
  List.dropWhile_cons_of_neg (by simp [h])

theorem scanByte_self (h : isBlank b = false) : scanByte b (b :: s) = some s := by
  rw [scanByte, skipBlanks_cons h]
  exact if_pos rfl

theorem scanByte_of_ne {c : UInt8} (h : isBlank c = false) (hc : c ≠ b) : scanByte b (c :: s) = none := by
  rw [scanByte, skipBlanks_cons h]
  exact if_neg hc

theorem not_isBlank_of_isWordByte (h : isWordByte colon b) : isBlank b = false := by
  simp only [isWordByte, isDigit, isBlank] at h ⊢
  grind

theorem scanName_append (hn : isName colon name) (hs : ∀ b ∈ s.head?, isWordByte colon b = false) : 
    scanName colon (name ++ s) = some (name, s) := by
  have ha : ∀ b ∈ name, isWordByte colon b := by
    simp only [isName, Bool.and_eq_true, List.all_eq_true] at hn
    exact hn.left
  have hb : skipBlanks (name ++ s) = name ++ s := by
    cases name
    case nil      => simp [isName] at hn
    case cons b t => exact skipBlanks_cons <| not_isBlank_of_isWordByte <| ha b List.mem_cons_self
  have ht : s.takeWhile (isWordByte colon) = [] ∧ s.dropWhile (isWordByte colon) = s := by
    cases s
    case nil      => exact ⟨rfl, rfl⟩
    case cons b t => simp [hs b rfl]
  rw [scanName, hb]
  simp only [List.takeWhile_append_of_pos ha, List.dropWhile_append_of_pos ha, ht.left, ht.right, 
    List.append_nil, if_pos hn]

end Blanks

section Values

variable {b : UInt8} {s t u v c r : Text}

theorem scanValue_append (h : Clean v) : scanValue false (v ++ 34 :: s) = some (v, s) := by
  induction v
  case nil          => rfl
  case cons b v hi =>
    simp only [Clean, List.mem_cons, not_or] at h
    rw [List.cons_append, scanValue, if_neg Bool.false_ne_true, if_neg (Ne.symm h.left.left), 
      if_neg (Ne.symm h.right.right.left), if_neg (Ne.symm h.right.left.left), 
      hi ⟨h.left.right, h.right.left.right, h.right.right.right⟩]
    rfl

-- Everything that can be done with a byte.
theorem scanValue_cons_cases {escaped : Bool} (h : scanValue escaped (b :: s) = some (v, r)) : 
    (escaped ∧ ∃ c v', v = c :: v' ∧ scanValue false s = some (v', r)) ∨ 
    (escaped = false ∧ b = 34 ∧ v = []) ∨ 
    (escaped = false ∧ b = 92 ∧ scanValue true s = some (v, r)) ∨ 
    (escaped = false ∧ (b ≠ 34 ∧ b ≠ 10 ∧ b ≠ 92) ∧ ∃ v', v = b :: v' ∧ scanValue false s = some (v', r)) := by
  rw [scanValue] at h
  split at h
  case isTrue he  =>
    obtain ⟨c, _, hs⟩ := Option.bind_eq_some_iff.mp h
    obtain ⟨⟨v', r'⟩, hs, hv⟩ := Option.map_eq_some_iff.mp hs
    cases hv
    exact .inl ⟨he, c, v', rfl, hs⟩
  case isFalse he =>
    have he : escaped = false := by simpa using he
    split at h
    case isTrue hq  => cases h; exact .inr <| .inl ⟨he, hq, rfl⟩
    case isFalse hq =>
      split at h <;> try contradiction
      case isFalse hn =>
        split at h
        case isTrue hb  => exact .inr <| .inr <| .inl ⟨he, hb, h⟩
        case isFalse hb =>
          obtain ⟨⟨v', r'⟩, hs, hv⟩ := Option.map_eq_some_iff.mp h
          cases hv
          exact .inr <| .inr <| .inr ⟨he, ⟨hq, hn, hb⟩, v', rfl, hs⟩

-- A value takes a byte at least for each of its own.
theorem length_le_of_scanValue {escaped : Bool} (h : scanValue escaped s = some (v, r)) : 
    v.length ≤ s.length := by
  induction s generalizing escaped v
  case nil          => contradiction
  case cons b s hi =>
    obtain ⟨_, c, v, rfl, hs⟩ | ⟨_, _, rfl⟩ | ⟨_, _, hs⟩ | ⟨_, _, v, rfl, hs⟩ := scanValue_cons_cases h
    · exact Nat.succ_le_succ <| hi hs
    · exact Nat.zero_le _
    · exact (hi hs).trans <| Nat.le_succ _
    · exact Nat.succ_le_succ <| hi hs

-- Unless `c` is read as it is, what is read is shorter, or a backslash at its end has hidden the quote.
theorem scanValue_append_cases {escaped : Bool} {x : UInt8} 
    (ht : ∀ u r, scanValue false t = some (u, r) → u.getLast? = some x) 
    (h : scanValue escaped (c ++ 34 :: t) = some (v, r)) : 
    if escaped then 
      v.length ≤ c.length ∨ (v.getLast? = some x ∧ (c = [] ∨ c.getLast? = some 92))
    else
      (Clean c ∧ v = c) ∨ v.length < c.length ∨ (v.getLast? = some x ∧ c.getLast? = some 92) := by
  have hlast {b : UInt8} {l : Text} {y : UInt8} (hl : l.getLast? = some y) : (b :: l).getLast? = some y := by
    cases l
    case nil  => contradiction
    case cons => simpa using hl
  induction c generalizing escaped v
  case nil =>
    obtain ⟨he, c, v, rfl, hs⟩ | ⟨he, _, rfl⟩ | ⟨_, hb, _⟩ | ⟨_, ⟨hq, _⟩, _⟩ := scanValue_cons_cases h
    · rw [if_pos he]
      exact .inr ⟨hlast <| ht _ _ hs, .inl rfl⟩
    · rw [he]
      exact .inl ⟨by decide, rfl⟩
    · contradiction
    · contradiction
  case cons b c hi =>
    rw [List.cons_append] at h
    obtain ⟨he, e, v, rfl, hs⟩ | ⟨he, hb, rfl⟩ | ⟨he, hb, hs⟩ | ⟨he, hb, v, rfl, hs⟩ := scanValue_cons_cases h
    · rw [if_pos he]
      rcases hi hs with ⟨_, rfl⟩ | hl | ⟨hv, hc⟩
      · exact .inl <| by simp
      · exact .inl <| Nat.succ_le_succ hl.le
      · exact .inr ⟨hlast hv, .inr <| hlast hc⟩
    · rw [he]
      exact .inr <| .inl <| by simp
    · rw [he]
      rcases hi hs with hl | ⟨hv, rfl | hc⟩
      · exact .inr <| .inl <| Nat.lt_succ_of_le hl
      · exact .inr <| .inr ⟨hv, by rw [hb]; rfl⟩
      · exact .inr <| .inr ⟨hv, hlast hc⟩
    · rw [he]
      rcases hi hs with ⟨hc, rfl⟩ | hl | ⟨hv, hc⟩
      · refine .inl ⟨?_, rfl⟩
        simp only [Clean, List.mem_cons, not_or]
        exact ⟨⟨hb.left.symm, hc.left⟩, ⟨hb.right.right.symm, hc.right.left⟩, hb.right.left.symm, hc.right.right⟩
      · exact .inr <| .inl <| Nat.succ_lt_succ hl
      · exact .inr <| .inr ⟨hlast hv, hlast hc⟩

-- A value that has been quoted without being escaped is read as it is only if it is clean.
theorem clean_of_scanValue {x : UInt8} (hx : x ≠ 92) 
    (ht : ∀ u r, scanValue false t = some (u, r) → u.getLast? = some x) 
    (h : scanValue false (c ++ 34 :: t) = some (c, r)) : Clean c := by
  rcases scanValue_append_cases ht h with ⟨hc, _⟩ | hl | ⟨h₁, h₂⟩
  · exact hc
  · exact absurd hl <| lt_irrefl _
  · exact absurd (Option.some.inj <| h₁.symm.trans h₂) hx

end Values

section Printing

variable {name value s : Text} {label : Text × Text} {labels : List (Text × Text)} {n : Nat}

def quoted (label : Text × Text) : Text :=
  label.fst ++ 61 :: 34 :: (label.snd ++ [34])

-- The labels of a sample as they are printed, if there are any.
def printLabels (labels : List (Text × Text)) : Text :=
  if labels = [] then [] else 123 :: (([44] : Text).intercalate (labels.map quoted) ++ [125])

-- Labels that need no escapes.
def Plain (labels : List (Text × Text)) : Prop :=
  ∀ label ∈ labels, isName false label.fst ∧ Clean label.snd

theorem scanByte_name {colon : Bool} {b : UInt8} (hn : isName colon name) (hb : isWordByte colon b = false) : 
    scanByte b (name ++ s) = none := by
  cases name
  case nil      => simp [isName] at hn
  case cons c t =>
    have hc : isWordByte colon c := by
      simp only [isName, List.all_cons, Bool.and_eq_true] at hn
      exact hn.left.left
    refine scanByte_of_ne (not_isBlank_of_isWordByte hc) fun he => ?_
    rw [he, hb] at hc
    contradiction

-- After a label, either a comma or the brace is read.
theorem scanLabels_quoted (hn : isName false label.fst) (hv : Clean label.snd) : 
    scanLabels (n + 1) (quoted label ++ s) = 
      match scanByte 44 s with
      | some s => (scanLabels n s).map fun (labels, s) => (label :: labels, s)
      | none   => (scanByte 125 s).map fun s => ([label], s) := by
  have ht : quoted label ++ s = label.fst ++ 61 :: 34 :: (label.snd ++ 34 :: s) := by simp [quoted]
  have h₁ : scanByte 125 (label.fst ++ 61 :: 34 :: (label.snd ++ 34 :: s)) = none := 
    scanByte_name hn (by decide)
  have h₂ : scanName false (label.fst ++ 61 :: 34 :: (label.snd ++ 34 :: s)) = some (label.fst, _) := 
    scanName_append hn (by simp; decide)
  have h₃ {t : Text} : scanByte 61 (61 :: t) = some t := scanByte_self (by decide)
  have h₄ {t : Text} : scanByte 34 (34 :: t) = some t := scanByte_self (by decide)
  simp only [ht, scanLabels, h₁, h₂, h₃, h₄, scanValue_append hv, Option.bind_eq_bind, Option.bind_some]

theorem scanLabels_print (hl : labels ≠ []) (hp : Plain labels) (hn : labels.length ≤ n) : 
    scanLabels n (([44] : Text).intercalate (labels.map quoted) ++ 125 :: s) = some (labels, s) := by
  induction labels generalizing n
  case nil => contradiction
  case cons label labels hi =>
    obtain ⟨n, rfl⟩ := Nat.exists_eq_succ_of_ne_zero (Nat.ne_of_gt <| Nat.lt_of_lt_of_le (by simp) hn)
    have ⟨hname, hvalue⟩ := hp label List.mem_cons_self
    cases labels
    case nil =>
      have h₁ : scanByte 44 (125 :: s) = none := scanByte_of_ne (by decide) (by decide)
      have h₂ : scanByte 125 (125 :: s) = some s := scanByte_self (by decide)
      rw [List.map_singleton, List.intercalate_singleton, scanLabels_quoted hname hvalue]
      simp only [h₁, h₂, Option.map_some]
    case cons l labels =>
      have h₁ {t : Text} : scanByte 44 (44 :: t) = some t := scanByte_self (by decide)
      have hr := hi (by simp) (fun l hl => hp l <| List.mem_cons_of_mem _ hl) (Nat.le_of_succ_le_succ hn)
      rw [List.map_cons, List.map_cons, List.intercalate_cons_cons, List.append_assoc, List.append_assoc, 
        scanLabels_quoted hname hvalue, ← List.map_cons]
      simp only [List.singleton_append, h₁, hr, Option.map_some]

theorem isBlank_of_isNumber {b : UInt8} (h : isNumber value) (hb : b ∈ value) : isBlank b = false := by
  have hd {s : Text} (h : isDecimal s) (hb : b ∈ s) : isBlank b = false := by
    simp only [isDecimal, Bool.and_eq_true, List.all_eq_true] at h
    have := h.left.left.left b hb
    simp only [isDigit, isBlank] at this ⊢
    grind
  rw [isNumber] at h
  split at h
  case isFalse   => exact hd h hb
  case isTrue hs =>
    cases value
    case nil => contradiction
    case cons c s =>
      rcases List.mem_cons.mp hb with rfl | hb
      · simp only [isBlank, List.head?_cons, Option.some.injEq] at hs ⊢
        grind
      · exact hd h hb

theorem skipBlanks_print (h : isNumber value) : skipBlanks (32 :: value) = value := by
  rw [skipBlanks, List.dropWhile_cons_of_pos (by decide)]
  cases value
  case nil      => rfl
  case cons b s => exact skipBlanks_cons <| isBlank_of_isNumber h List.mem_cons_self

theorem scanNumbers_print (h : isNumber value) : scanNumbers (32 :: value) = some value := by
  have hb : ∀ b ∈ value, (!isBlank b) = true := fun b hb => by simp [isBlank_of_isNumber h hb]
  have ht : value.takeWhile (!isBlank ·) = value := List.takeWhile_eq_self_iff.mpr hb
  have hr : value.dropWhile (!isBlank ·) = [] := List.dropWhile_eq_nil_iff.mpr hb
  simp only [scanNumbers, skipBlanks_print h, ht, hr, h]
  rfl

theorem scanByte_number (h : isNumber value) : scanByte 123 (32 :: value) = none := by
  rw [scanByte, skipBlanks_print h]
  cases value
  case nil      => rfl
  case cons b s =>
    refine if_neg fun hb => ?_
    rw [hb] at h
    simp [isNumber, isDecimal, isDigit] at h

theorem length_le_intercalate : labels.length ≤ (([44] : Text).intercalate (labels.map quoted)).length := by
  induction labels
  case nil          => exact Nat.zero_le _
  case cons l ls hi =>
    cases ls
    case nil  => simp [quoted]; omega
    case cons =>
      rw [List.map_cons, List.map_cons, List.intercalate_cons_cons, ← List.map_cons]
      simp only [List.length_append, List.length_cons, List.length_nil] at hi ⊢
      omega

-- A sample with plain labels is read as it has been printed.
theorem parse_print (hn : isName true name) (hp : Plain labels) (hv : isNumber value) : 
    parse (name ++ printLabels labels ++ 32 :: value) = some ⟨name, labels, value⟩ := by
  rw [List.append_assoc, printLabels]
  split
  case isTrue hl  =>
    have h₁ : scanName true (name ++ 32 :: value) = some (name, _) := scanName_append hn (by simp; decide)
    simp [parse, h₁, scanByte_number hv, scanNumbers_print hv, hl]
  case isFalse hl =>
    have h₁ {t : Text} : scanName true (name ++ 123 :: t) = some (name, _) := 
      scanName_append hn (by simp; decide)
    have h₂ {t : Text} : scanByte 123 (123 :: t) = some t := scanByte_self (by decide)
    have h₃ {n : Nat} (h : labels.length ≤ n) := @scanLabels_print (32 :: value) labels n hl hp h
    have h₄ : labels.length ≤ (([44] : Text).intercalate (labels.map quoted) ++ 125 :: 32 :: value).length := by
      rw [List.length_append]
      exact length_le_intercalate.trans <| Nat.le_add_right ..
    simp only [parse, List.cons_append, h₁, h₂, List.append_assoc, List.nil_append, Option.bind_eq_bind, 
      Option.bind_some, h₃ h₄, scanNumbers_print hv, Option.pure_def]

end Printing

section Numbers

variable {s t : Text}

def Digits (s : Text) : Prop :=
  s ≠ [] ∧ ∀ b ∈ s, isDigit b

theorem Digits.head (h : Digits s) : s.head?.any isDigit := by
  obtain ⟨b, t, rfl⟩ := List.exists_cons_of_ne_nil h.left
  exact h.right b List.mem_cons_self

theorem Digits.last (h : Digits s) : s.getLast?.any isDigit := by
  rw [List.getLast?_eq_some_getLast h.left]
  exact h.right _ <| List.getLast_mem h.left

theorem Digits.count (h : Digits s) : s.count 46 = 0 :=
  List.count_eq_zero.mpr fun hp => Bool.false_ne_true <| h.right 46 hp

theorem isDecimal_of_digits (h : Digits s) : isDecimal s := by
  simp only [isDecimal, h.count, h.head, h.last, Bool.and_true, Bool.and_eq_true, List.all_eq_true]
  exact ⟨fun b hb => by simp [h.right b hb], rfl⟩

theorem isDecimal_point (hs : Digits s) (ht : Digits t) : isDecimal (s ++ 46 :: t) := by
  have hh : (s ++ 46 :: t).head?.any isDigit := by
    rw [List.head?_append_of_ne_nil _ hs.left]
    exact hs.head
  have hl : (s ++ 46 :: t).getLast?.any isDigit := by
    rw [← List.singleton_append, ← List.append_assoc, List.getLast?_append_of_ne_nil _ ht.left]
    exact ht.last
  simp only [isDecimal, hh, hl, Bool.and_true, Bool.and_eq_true, List.all_eq_true, List.mem_append, 
    List.mem_cons, List.count_append, List.count_cons, hs.count, ht.count]
  refine ⟨?_, rfl⟩
  rintro b (hb | rfl | hb)
  · simp [hs.right b hb]
  · rfl
  · simp [ht.right b hb]

theorem isNumber_of_isDecimal (h : isDecimal s) : isNumber s ∧ isNumber (45 :: s) := by
  refine ⟨?_, h⟩
  have hd : s.head?.any isDigit := by
    simp only [isDecimal, Bool.and_eq_true] at h
    exact h.left.right
  rw [isNumber, if_neg]
  case hnc =>
    rintro (he | he)
    all_goals
      rw [he] at hd
      contradiction
  exact h

end Numbers

section Lines

variable {s t line : Text} {ls : List Text}

theorem lines_append_cons : lines (s ++ 10 :: t) = lines s ++ lines t :=
  List.splitOn_append_cons_self s t

theorem lines_eq_singleton (h : 10 ∉ s) : lines s = [s] :=
  List.splitOn_eq_singleton h

-- What has been printed line by line.
theorem lines_flatMap (h : ∀ l ∈ ls, 10 ∉ l) : lines (ls.flatMap (· ++ [10])) = ls ++ [[]] := by
  induction ls
  case nil          => rfl
  case cons l ls hi =>
    rw [List.forall_mem_cons] at h
    rw [List.flatMap_cons, List.append_assoc, List.singleton_append, lines_append_cons, 
      lines_eq_singleton h.left, hi h.right]
    rfl

theorem takeWhile_append_newline (h : 10 ∉ s) : (s ++ 10 :: t).takeWhile (· ≠ 10) = s := by
  have ha : ∀ b ∈ s, decide (b ≠ 10) = true := fun b hb => decide_eq_true fun he => h <| he ▸ hb
  rw [List.takeWhile_append_of_pos ha, List.takeWhile_cons_of_neg (by simp), List.append_nil]

-- The first line.
theorem takeWhile_mem_lines : s.takeWhile (· ≠ 10) ∈ lines s := by
  by_cases h : 10 ∈ s
  case pos =>
    obtain ⟨l, t, rfl, hl⟩ := List.eq_append_cons_of_mem h
    rw [takeWhile_append_newline hl, lines_append_cons, lines_eq_singleton hl]
    exact List.mem_append_left _ <| List.mem_singleton_self _
  case neg =>
    have hs : s.takeWhile (· ≠ 10) = s := 
      List.takeWhile_eq_self_iff.mpr fun b hb => decide_eq_true fun he => h <| he ▸ hb
    rw [hs, lines_eq_singleton h]
    exact List.mem_singleton_self _

-- Blocks with an empty line between them.
theorem intercalate_flatMap {blocks : List (List Text)} : 
    ([10] : Text).intercalate (blocks.map fun b => b.flatMap (· ++ [10])) = 
      (([[]] : List Text).intercalate blocks).flatMap (· ++ [10]) := by
  induction blocks
  case nil            => rfl
  case cons b bs hi   =>
    cases bs
    case nil  => simp
    case cons =>
      rw [List.map_cons, List.map_cons, List.intercalate_cons_cons, List.intercalate_cons_cons, 
        ← List.map_cons, hi]
      simp

end Lines

section Printed

variable {name value : Text} {labels : List (Text × Text)}

theorem newline_not_mem_name {colon : Bool} (h : isName colon name) : 10 ∉ name := by
  intro hn
  simp only [isName, Bool.and_eq_true, List.all_eq_true] at h
  cases colon
  case false => exact absurd (h.left 10 hn) (by decide)
  case true  => exact absurd (h.left 10 hn) (by decide)

theorem newline_not_mem_number (h : isNumber value) : 10 ∉ value := by
  have hd {s : Text} (h : isDecimal s) : 10 ∉ s := by
    intro hn
    simp only [isDecimal, Bool.and_eq_true, List.all_eq_true] at h
    exact absurd (h.left.left.left 10 hn) (by decide)
  rw [isNumber] at h
  split at h
  case isFalse   => exact hd h
  case isTrue hs =>
    cases value
    case nil => exact List.not_mem_nil
    case cons c s =>
      refine List.not_mem_cons_of_ne_of_not_mem (fun he => ?_) (hd h)
      subst he
      exact absurd hs <| by simp

theorem newline_not_mem_printLabels (hp : Plain labels) : 10 ∉ printLabels labels := by
  have hq : ∀ l ∈ labels.map quoted, 10 ∉ l := by
    intro l hl
    obtain ⟨label, hm, rfl⟩ := List.mem_map.mp hl
    have ⟨hn, hc⟩ := hp label hm
    simp [quoted, newline_not_mem_name hn, hc.right.right]
  rw [printLabels]
  split
  case isTrue  => exact List.not_mem_nil
  case isFalse =>
    have hi : 10 ∉ ([44] : Text).intercalate (labels.map quoted) := by
      intro hn
      rcases Separated.mem_intercalate hn with hn | ⟨l, hl, hn⟩
      · contradiction
      · exact hq l hl hn
    simp [hi]

theorem newline_not_mem_print (hn : isName true name) (hp : Plain labels) (hv : isNumber value) : 
    10 ∉ name ++ printLabels labels ++ 32 :: value := by
  simp [newline_not_mem_name hn, newline_not_mem_printLabels hp, newline_not_mem_number hv]

end Printed

section Hostile

variable {name label c t s v r : Text} {x : UInt8} {m : Sample}

-- The first label of a line is read up to the quote that ends it.
theorem exists_scanValue_of_parse (hn : isName true name) (hl : isName false label) 
    (h : parse (name ++ 123 :: (label ++ 61 :: 34 :: s)) = some m) : 
    ∃ v r, scanValue false s = some (v, r) ∧ (label, v) ∈ m.labels := by
  have h₁ {t : Text} : scanName true (name ++ 123 :: t) = some (name, _) := 
    scanName_append hn (by simp; decide)
  have h₂ {t : Text} : scanByte 123 (123 :: t) = some t := scanByte_self (by decide)
  have h₃ : scanByte 125 (label ++ 61 :: 34 :: s) = none := scanByte_name hl (by decide)
  have h₄ : scanName false (label ++ 61 :: 34 :: s) = some (label, _) := scanName_append hl (by simp; decide)
  have h₅ {t : Text} : scanByte 61 (61 :: t) = some t := scanByte_self (by decide)
  have h₆ {t : Text} : scanByte 34 (34 :: t) = some t := scanByte_self (by decide)
  have hlen : (label ++ 61 :: 34 :: s).length = (label.length + s.length + 1) + 1 := by simp; omega
  simp only [parse, h₁, h₂, hlen, scanLabels, h₃, h₄, h₅, h₆, Option.bind_eq_bind, Option.bind_some, 
    Option.bind_eq_some_iff] at h
  obtain ⟨⟨labels, rest⟩, ⟨⟨v, r⟩, hv, hs⟩, _, _, hm⟩ := h
  refine ⟨v, r, hv, ?_⟩
  have hm : m.labels = labels := by
    simp only [Option.pure_def, Option.some.injEq] at hm
    rw [← hm]
  rw [hm]
  split at hs
  all_goals
    obtain ⟨_, _, he⟩ := Option.map_eq_some_iff.mp hs
    cases he
    exact List.mem_cons_self

-- A line ends at the first newline, also within a value.
theorem clean_of_scanValue_line (hx : x ≠ 92) 
    (ht : ∀ u r, scanValue false (t.takeWhile (· ≠ 10)) = some (u, r) → u.getLast? = some x) 
    (h : scanValue false ((c ++ 34 :: t).takeWhile (· ≠ 10)) = some (c, r)) : Clean c := by
  by_cases hn : 10 ∈ c
  case pos =>
    obtain ⟨l, u, rfl, hl⟩ := List.eq_append_cons_of_mem hn
    rw [List.append_assoc, List.cons_append, takeWhile_append_newline hl] at h
    have hlen := length_le_of_scanValue h
    rw [List.length_append, List.length_cons] at hlen
    omega
  case neg =>
    have ha : ∀ b ∈ c, decide (b ≠ 10) = true := fun b hb => decide_eq_true fun he => hn <| he ▸ hb
    rw [List.takeWhile_append_of_pos ha, List.takeWhile_cons_of_pos (by decide)] at h
    exact clean_of_scanValue hx ht h

end Hostile
end Exposition
