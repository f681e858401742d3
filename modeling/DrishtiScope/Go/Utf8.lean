import Mathlib.Data.List.Basic
import Mathlib.Data.List.Infix

-- Strings of Go are byte strings. What Go calls a rune is a `Char` here, as decoding never yields a
-- surrogate.
namespace Go

abbrev Bytes := List UInt8

abbrev Rune := Char

namespace Rune

abbrev encode (r : Rune) : Bytes :=
  String.utf8EncodeChar r

-- U+FFFD, which decoding yields for an invalid byte.
def error : Rune :=
  '\uFFFD'

theorem length_encode (r : Rune) : r.encode.length = r.utf8Size :=
  String.length_utf8EncodeChar r

theorem length_encode_pos (r : Rune) : 0 < r.encode.length :=
  r.length_encode ▸ r.utf8Size_pos

theorem encode_ne_nil (r : Rune) : r.encode ≠ [] :=
  List.ne_nil_of_length_pos r.length_encode_pos

end Rune

-- A string literal of the source.
def str (s : String) : Bytes :=
  s.toList.flatMap Rune.encode

namespace Bytes

-- The rune at the start of the string if there is a valid encoding of one.
def decodeRune? (s : Bytes) : Option Rune :=
  s.toByteArray.utf8DecodeChar? 0

theorem decodeRune?_eq {s : Bytes} {r : Rune} (h : r.encode <+: s) : 
    s.decodeRune? = some r := by
  obtain ⟨t, rfl⟩ := h
  simp [decodeRune?, List.toByteArray_append, ByteArray.utf8DecodeChar?_utf8EncodeChar_append]

theorem take_toByteArray (s : Bytes) (n : Nat) : 
    s.toByteArray.extract 0 n = (s.take n).toByteArray := by
  ext1
  simp [ByteArray.data_extract, List.data_toByteArray]

theorem encode_isPrefix {s : Bytes} {r : Rune} (h : s.decodeRune? = some r) : 
    r.encode <+: s := by
  have he := String.toByteArray_utf8EncodeChar_of_utf8DecodeChar?_eq_some h
  rw [take_toByteArray, List.toByteArray_inj] at he
  exact List.prefix_iff_eq_take.mpr <| by rw [Rune.length_encode]; exact he

-- Encodings are prefix-free.
theorem encode_prefix_unique {s : Bytes} {r₁ r₂ : Rune} (h₁ : r₁.encode <+: s) 
    (h₂ : r₂.encode <+: s) : r₁ = r₂ :=
  Option.some.inj <| (decodeRune?_eq h₁).symm.trans (decodeRune?_eq h₂)

theorem mem_tail_encode_not_first {r : Rune} {b : UInt8} {t : Bytes} (h : r.encode = b :: t) :
    b.IsUTF8FirstByte ∧ ∀ c ∈ t, ¬c.IsUTF8FirstByte := by
  have hf {i : Nat} (hi : i < (b :: t).length) : (b :: t)[i].IsUTF8FirstByte ↔ i = 0 := by
    simp only [← h]
    exact UInt8.isUTF8FirstByte_getElem_utf8EncodeChar
  constructor
  case left => exact hf (i := 0) (by simp) |>.mpr rfl
  case right =>
    intro c hc hcf
    have ⟨i, hi, he⟩ := List.mem_iff_getElem.mp hc
    have := hf (i := i + 1) (by simpa using hi) |>.mp (by simpa [he] using hcf)
    contradiction

-- The runes that `for _, r := range s` goes through: an invalid byte counts as one `Rune.error`.
-- The fuel is the number of bytes, as every round consumes one.
def runes (s : Bytes) : List Rune :=
  go s.length s
where
  go : Nat → Bytes → List Rune
    | 0, _          => []
    | _, []         => []
    | n + 1, b :: s => 
      match decodeRune? (b :: s) with
      | some r => r :: go n ((b :: s).drop r.utf8Size)
      | none   => Rune.error :: go n s

def encodeAll (rs : List Rune) : Bytes :=
  rs.flatMap Rune.encode

@[simp]
theorem encodeAll_nil : encodeAll [] = [] :=
  rfl

@[simp]
theorem encodeAll_cons {r : Rune} {rs : List Rune} : 
    encodeAll (r :: rs) = r.encode ++ encodeAll rs :=
  rfl

theorem encodeAll_append {rs rs' : List Rune} : encodeAll (rs ++ rs') = encodeAll rs ++ encodeAll rs' :=
  List.flatMap_append

theorem runes.go_encodeAll {rs : List Rune} {n : Nat} (h : (encodeAll rs).length ≤ n) : 
    runes.go n (encodeAll rs) = rs := by
  induction rs generalizing n
  case nil => cases n <;> rfl
  case cons r rs hi =>
    have hd := decodeRune?_eq (List.prefix_append r.encode (encodeAll rs))
    have hp := r.length_encode_pos
    simp only [encodeAll_cons, List.length_append] at h
    cases he : r.encode ++ encodeAll rs
    case nil => exact absurd (List.append_eq_nil_iff.mp he).left r.encode_ne_nil
    case cons b t =>
      obtain ⟨n, rfl⟩ : ∃ m, n = m + 1 := ⟨n - 1, by omega⟩
      rw [he] at hd
      simp only [encodeAll_cons, he, runes.go, hd]
      rw [← he, ← r.length_encode, List.drop_left, hi (by omega)]

-- Decoding inverts encoding.
theorem runes_encodeAll (rs : List Rune) : (encodeAll rs).runes = rs :=
  runes.go_encodeAll le_rfl

theorem runes.go_encode {s : Bytes} {n : Nat} (hn : s.length ≤ n) 
    (he : Rune.error ∉ runes.go n s) : encodeAll (runes.go n s) = s := by
  induction n generalizing s
  case zero => cases s <;> simp_all [runes.go]
  case succ n hi =>
    cases s
    case nil => rfl
    case cons b s =>
      cases hd : decodeRune? (b :: s)
      case none => simp [runes.go, hd] at he
      case some r =>
        have hs := r.utf8Size_pos
        obtain ⟨t, ht⟩ := encode_isPrefix hd
        simp only [runes.go, hd, List.mem_cons, not_or] at he ⊢
        rw [encodeAll_cons, hi (by simp at hn ⊢; omega) he.right]
        rw [← ht, ← r.length_encode, List.drop_left]

-- A string that decodes without error is the encoding of its runes.
theorem encodeAll_runes {s : Bytes} (h : Rune.error ∉ s.runes) : encodeAll s.runes = s :=
  runes.go_encode le_rfl h

-- The fuel does not matter if there is enough of it.
theorem runes.go_eq {s : Bytes} {n m : Nat} (hn : s.length ≤ n) (hm : s.length ≤ m) : 
    runes.go n s = runes.go m s := by
  induction n generalizing s m
  case zero => 
    have hs := List.length_eq_zero_iff.mp <| Nat.le_zero.mp hn
    cases m <;> simp [hs, runes.go]
  case succ n hi =>
    cases s
    case nil      => cases m <;> rfl
    case cons b s =>
      obtain ⟨m, rfl⟩ : ∃ k, m = k + 1 := ⟨m - 1, by simp at hm; omega⟩
      have hn : s.length ≤ n := by simpa using hn
      have hm : s.length ≤ m := by simpa using hm
      simp only [runes.go]
      split
      case h_1 r _ =>
        have hd : ((b :: s).drop r.utf8Size).length ≤ s.length := by
          have := r.utf8Size_pos
          simp only [List.length_drop, List.length_cons]
          omega
        rw [hi (hd.trans hn) (hd.trans hm)]
      case h_2 => rw [hi hn hm]

-- A byte that may begin an encoding cannot belong to one that has begun before it.
theorem decodeRune?_append {s t : Bytes} {x : UInt8} (hx : x.IsUTF8FirstByte) (hs : s ≠ []) : 
    (s ++ x :: t).decodeRune? = s.decodeRune? := by
  cases h : s.decodeRune?
  case some r => exact decodeRune?_eq <| encode_isPrefix h |>.trans <| List.prefix_append ..
  case none   =>
    by_contra hn
    have ⟨r, hr⟩ := Option.ne_none_iff_exists'.mp hn
    have ⟨v, hv⟩ := encode_isPrefix hr
    cases List.append_eq_append_iff.mp hv
    case inl hl =>
      have ⟨w, hw, _⟩ := hl
      have hd : s.decodeRune? = some r := decodeRune?_eq ⟨w, hw.symm⟩
      simp [h] at hd
    case inr hl =>
      have ⟨w, hw, ht⟩ := hl
      cases s
      case nil      => contradiction
      case cons b s =>
        cases w
        case nil => 
          have hd : decodeRune? (b :: s) = some r := decodeRune?_eq ⟨[], by simpa using hw⟩
          simp [h] at hd
        case cons c w =>
          have hc := List.cons.inj ht |>.left
          exact mem_tail_encode_not_first hw |>.right c (by simp) (hc ▸ hx)

theorem runes.go_append {s t : Bytes} {x : UInt8} {n : Nat} (hx : x.IsUTF8FirstByte) 
    (hn : (s ++ x :: t).length ≤ n) : 
    runes.go n (s ++ x :: t) = runes.go n s ++ runes.go n (x :: t) := by
  induction n generalizing s
  case zero      => simp at hn
  case succ n hi =>
    cases s
    case nil      => rfl
    case cons b s =>
      have hd : decodeRune? (b :: (s ++ x :: t)) = decodeRune? (b :: s) := 
        decodeRune?_append hx (List.cons_ne_nil b s)
      have hl : (s ++ x :: t).length ≤ n := by simpa using hn
      have ht : runes.go (n + 1) (x :: t) = runes.go n (x :: t) := 
        runes.go_eq (by simp at hl ⊢; omega) (by simp at hl ⊢; omega)
      rw [ht, List.cons_append, runes.go, runes.go, hd]
      split
      case h_1 r hr =>
        have hr := encode_isPrefix hr |>.length_le
        rw [Rune.length_encode] at hr
        have hp := r.utf8Size_pos
        rw [← List.cons_append, List.drop_append_of_le_length hr, hi, List.cons_append]
        simp only [List.length_append, List.length_drop, List.length_cons] at hl ⊢
        omega
      case h_2 => rw [hi hl, List.cons_append]

-- Decoding starts anew at such a byte.
theorem runes_append {s t : Bytes} {x : UInt8} (hx : x.IsUTF8FirstByte) : 
    runes (s ++ x :: t) = runes s ++ runes (x :: t) := by
  simp only [runes, runes.go_append hx le_rfl]
  congr 1 <;> exact runes.go_eq (by simp) le_rfl

theorem runes_cons {s : Bytes} {r : Rune} {b : UInt8} (h : r.encode = [b]) : 
    runes (b :: s) = r :: runes s := by
  have hd : decodeRune? (b :: s) = some r := decodeRune?_eq <| by simp [h]
  have hu : r.utf8Size = 1 := by simp [← Rune.length_encode, h]
  simp only [runes, List.length_cons, runes.go, hd, hu, List.drop_one, List.tail_cons]

theorem runes.go_isInfix {r : Rune} {s : Bytes} {n : Nat} (h : r ∈ runes.go n s) : 
    r = Rune.error ∨ r.encode <:+: s := by
  induction n generalizing s
  case zero => simp [runes.go] at h
  case succ n hi =>
    cases s
    case nil => simp [runes.go] at h
    case cons b s =>
      cases hd : decodeRune? (b :: s)
      case none =>
        simp only [runes.go, hd, List.mem_cons] at h
        cases h
        case inl h => exact .inl h
        case inr h => exact (hi h).imp_right (·.trans (List.suffix_cons ..).isInfix)
      case some r' =>
        simp only [runes.go, hd, List.mem_cons] at h
        cases h
        case inl h => exact .inr <| h ▸ (encode_isPrefix hd).isInfix
        case inr h => exact (hi h).imp_right (·.trans (List.drop_suffix ..).isInfix)

-- A rune that decoding yields occurs in the string.
theorem isInfix_of_mem_runes {r : Rune} {s : Bytes} (h : r ∈ s.runes) (he : r ≠ Rune.error) : 
    r.encode <:+: s :=
  runes.go_isInfix h |>.resolve_left he

-- An encoding occurs in an encoded string only as the encoding of one of its runes.
theorem mem_of_encode_isInfix {r : Rune} {rs : List Rune} (h : r.encode <:+: encodeAll rs) : 
    r ∈ rs := by
  induction rs
  case nil => exact absurd (List.infix_nil.mp h) r.encode_ne_nil
  case cons r' rs hi =>
    have ⟨u, v, he⟩ := h
    rw [encodeAll_cons, List.append_assoc] at he
    cases List.append_eq_append_iff.mp he
    case inl h =>
      have ⟨w, hu, hw⟩ := h
      cases u
      case nil =>
        have h₁ : r.encode <+: encodeAll (r' :: rs) := ⟨v, he⟩
        exact encode_prefix_unique h₁ (List.prefix_append ..) ▸ List.mem_cons_self
      case cons b t =>
        -- Otherwise the first byte of `r` is in the tail of `r'`, or `r` starts after `r'`.
        cases w
        case nil =>
          exact List.mem_cons_of_mem _ <| hi ⟨[], v, by simpa using hw⟩
        case cons c w =>
          exfalso
          cases hr : r.encode
          case nil => exact absurd hr r.encode_ne_nil
          case cons d x =>
            simp only [hr, List.cons_append, List.cons.injEq] at hw
            have hd := mem_tail_encode_not_first hr |>.left
            exact mem_tail_encode_not_first hu |>.right c (by simp) (hw.left ▸ hd)
    case inr h =>
      have ⟨w, _, hw⟩ := h
      exact List.mem_cons_of_mem _ <| hi ⟨w, v, by simp [hw]⟩

theorem encode_isInfix_of_mem {r : Rune} {rs : List Rune} (h : r ∈ rs) : r.encode <:+: encodeAll rs := by
  obtain ⟨pre, post, rfl⟩ := List.append_of_mem h
  exact ⟨encodeAll pre, encodeAll post, by simp [encodeAll_append]⟩

-- The `n`th byte is followed by the rest of the encoding that it belongs to.
def CutsRune (n : Nat) (rs : List Rune) : Prop :=
  ∃ pre r post, rs = pre ++ r :: post ∧ 
    (encodeAll pre).length < n ∧ n < (encodeAll <| pre ++ [r]).length

theorem cutsRune_of_lt {r : Rune} {rs : List Rune} {n : Nat} (hn : 0 < n) (h : n < r.encode.length) : 
    CutsRune n (r :: rs) :=
  ⟨[], r, rs, rfl, by simpa using hn, by simpa using h⟩

theorem cutsRune_cons_iff {r : Rune} {rs : List Rune} {n : Nat} : 
    CutsRune (r.encode.length + n) (r :: rs) ↔ CutsRune n rs := by
  constructor
  case mp =>
    intro ⟨pre, r', post, he, hl, hr⟩
    cases pre
    case nil =>
      cases List.cons.inj he |>.left
      rw [List.nil_append, encodeAll_cons, encodeAll_nil, List.append_nil] at hr
      omega
    case cons r'' pre =>
      obtain ⟨rfl, hp⟩ := List.cons.inj he
      simp only [List.cons_append, encodeAll_cons, List.length_append] at hl hr
      exact ⟨pre, r', post, hp, by omega, by omega⟩
  case mpr =>
    intro ⟨pre, r', post, he, hl, hr⟩
    refine ⟨r :: pre, r', post, by rw [he]; rfl, ?_, ?_⟩
    · simpa only [encodeAll_cons, List.length_append] using Nat.add_lt_add_left hl _
    · simpa only [List.cons_append, encodeAll_cons, List.length_append] using Nat.add_lt_add_left hr _

-- A prefix consists of encodings again, unless it ends within one.
theorem take_encodeAll_iff {rs : List Rune} {n : Nat} : 
    (∃ rs', encodeAll rs' = (encodeAll rs).take n) ↔ ¬CutsRune n rs := by
  induction rs generalizing n
  case nil =>
    have hc : ¬CutsRune n [] := fun ⟨pre, r, post, he, _⟩ => by simp at he
    exact iff_of_true ⟨[], by simp⟩ hc
  case cons r rs hi =>
    by_cases hr : r.encode.length ≤ n
    case pos =>
      obtain ⟨m, rfl⟩ := Nat.exists_eq_add_of_le hr
      rw [cutsRune_cons_iff, ← hi, encodeAll_cons, List.take_length_add_append]
      constructor
      case mpr => exact fun ⟨rs', he⟩ => ⟨r :: rs', by rw [encodeAll_cons, he]⟩
      case mp  =>
        intro ⟨rs', he⟩
        cases rs'
        case nil          => exact absurd (List.append_eq_nil_iff.mp he.symm).left r.encode_ne_nil
        case cons r' rs'  =>
          rw [encodeAll_cons] at he
          obtain rfl : r' = r := encode_prefix_unique ⟨_, he⟩ ⟨_, rfl⟩
          exact ⟨rs', List.append_cancel_left he⟩
    case neg =>
      have hr := not_le.mp hr
      rcases n.eq_zero_or_pos with rfl | hn
      · exact iff_of_true ⟨[], rfl⟩ fun ⟨_, _, _, _, hl, _⟩ => absurd hl (Nat.not_lt_zero _)
      · refine iff_of_false (fun ⟨rs', he⟩ => ?_) (not_not_intro <| cutsRune_of_lt hn hr)
        rw [encodeAll_cons, List.take_append_of_le_length hr.le] at he
        have hl := congrArg List.length he
        rw [List.length_take, min_eq_left hr.le] at hl
        cases rs'
        case nil          => exact hn.ne hl
        case cons r' rs'  =>
          have hp : r'.encode <+: r.encode := List.IsPrefix.trans ⟨_, he⟩ <| List.take_prefix ..
          obtain rfl := encode_prefix_unique hp List.prefix_rfl
          rw [encodeAll_cons, List.length_append] at hl
          omega

end Bytes
end Go
