import DrishtiScope.Config.Config

open Go

-- What becomes of a comm that is sanitized again.
namespace Config

variable [Unicode]

-- The runes with which the loop of `sanitizeComm` goes on.
def passes (r : Rune) : Bool :=
  !(r = '/' || r = '\\' || r.toNat = 0 || r.isControl) && (commRune r || r = ' ')

-- What the loop runs over.
def commText (s : Bytes) : Bytes :=
  s.trimSpace.trimByte 0

-- A comm that is permitted but too long, and whose 15th byte is not the last one of a rune.
def Cut (s : Bytes) : Prop :=
  (commText s).runes.all passes ∧ Bytes.CutsRune maxCommLen (commText s).runes

variable {s : Bytes} {r : Rune} {rs : List Rune} {b out : Bytes}

namespace sanitizeComm

-- Everything that the loop can do.
theorem go_eq_some_iff : 
    go rs b = some out ↔ rs.all passes ∧ out = b ++ Bytes.encodeAll (rs.map translate) := by
  induction rs generalizing b
  case nil          => simp [go, eq_comm]
  case cons r rs hi =>
    rw [go, List.all_cons, List.map_cons, Bytes.encodeAll_cons, ← List.append_assoc]
    split
    case isTrue h  => simp [passes, h]
    case isFalse h =>
      have hp : passes r = (commRune r || r = ' ') := by simpa [passes] using fun _ => h
      rw [hp]
      split
      case isTrue hc  => simp [hc, hi, translate_commRune hc]
      case isFalse hc =>
        split
        case isTrue hs  => simp [hi, translate, hs]
        case isFalse hs => simp [hc, hs]

theorem eq_nil_of_not_passes (h : ¬(commText s).runes.all passes) : sanitizeComm s = [] := by
  simp only [sanitizeComm]
  split
  case isTrue  => rfl
  case isFalse =>
    split
    case h_1        => rfl
    case h_2 out hg => exact absurd (go_eq_some_iff.mp hg).left h

theorem eq_take_of_passes (h : (commText s).runes.all passes) : 
    sanitizeComm s = (Bytes.encodeAll <| (commText s).runes.map translate).take maxCommLen := by
  have hg : go (commText s).runes [] = some (Bytes.encodeAll <| (commText s).runes.map translate) := 
    go_eq_some_iff.mpr ⟨h, rfl⟩
  rw [commText] at hg ⊢
  simp only [sanitizeComm]
  split
  case isTrue hn  => simp [hn, Bytes.runes, Bytes.runes.go]
  case isFalse hn =>
    rw [hg]
    dsimp only
    split
    case isTrue    => rfl
    case isFalse h => rw [List.take_of_length_le <| not_lt.mp h]

-- The underscore takes as many bytes as the space.
omit [Unicode] in
theorem length_encodeAll_translate : 
    (Bytes.encodeAll <| rs.map translate).length = (Bytes.encodeAll rs).length := by
  induction rs
  case nil          => rfl
  case cons r rs hi =>
    have hr : (translate r).encode.length = r.encode.length := by
      rw [translate]
      split
      case isTrue h  => rw [h]; rfl
      case isFalse h => rfl
    rw [List.map_cons, Bytes.encodeAll_cons, Bytes.encodeAll_cons, List.length_append, 
      List.length_append, hi, hr]

omit [Unicode] in
theorem cutsRune_translate_iff {n : Nat} : 
    Bytes.CutsRune n (rs.map translate) ↔ Bytes.CutsRune n rs := by
  constructor
  case mp =>
    intro ⟨pre, r, post, he, hl, hr⟩
    obtain ⟨pre, post', rfl, rfl, hp⟩ := List.map_eq_append_iff.mp he
    obtain ⟨r, post, rfl, rfl, rfl⟩ := List.map_eq_cons_iff.mp hp
    rw [length_encodeAll_translate] at hl
    rw [← List.map_singleton, ← List.map_append, length_encodeAll_translate] at hr
    exact ⟨pre, r, post, rfl, hl, hr⟩
  case mpr =>
    intro ⟨pre, r, post, he, hl, hr⟩
    refine ⟨pre.map translate, translate r, post.map translate, by simp [he], ?_, ?_⟩
    · rwa [length_encodeAll_translate]
    · rwa [← List.map_singleton, ← List.map_append, length_encodeAll_translate]

theorem commRune_or_space (h : passes r) : commRune r ∨ r = ' ' := by
  simp only [passes, Bool.and_eq_true, Bool.or_eq_true, decide_eq_true_eq] at h
  exact h.right

theorem passes_translate (h : passes r) : passes (translate r) ∧ commRune (translate r) := by
  rw [translate]
  split
  case isTrue     => simp [passes, commRune]; decide
  case isFalse hs => exact ⟨h, commRune_or_space h |>.resolve_right hs⟩

theorem passes_ne_error (h : passes r) : r ≠ Rune.error := by
  rcases commRune_or_space h with hc | rfl
  · exact commRune_ne_error hc
  · decide

end sanitizeComm

open sanitizeComm

-- The text of a sanitized comm is the comm itself.
theorem Sanitized.commText_eq (h : Sanitized out) : commText out = out := by
  rw [commText, h.trimSpace_eq, Bytes.trimByte_eq_self h.zero_not_mem]

-- A comm that is kept consists of encodings.
theorem Sanitized.encodeAll_of_sanitizeComm_eq (hs : Sanitized out) (h : sanitizeComm out = out) : 
    ∃ rs, Bytes.encodeAll rs = out := by
  by_cases hp : (commText out).runes.all passes
  case neg => exact ⟨[], h ▸ (eq_nil_of_not_passes hp).symm⟩
  case pos =>
    rw [hs.commText_eq] at hp
    have he : Rune.error ∉ out.runes := fun he => passes_ne_error (List.all_eq_true.mp hp _ he) rfl
    exact ⟨out.runes, Bytes.encodeAll_runes he⟩

theorem Sanitized.sanitizeComm_encodeAll (hs : Sanitized <| Bytes.encodeAll rs) 
    (h : ∀ r ∈ rs, passes r ∧ commRune r) : sanitizeComm (Bytes.encodeAll rs) = Bytes.encodeAll rs := by
  have hr : (commText <| Bytes.encodeAll rs).runes = rs := by 
    rw [hs.commText_eq, Bytes.runes_encodeAll]
  have hp : (commText <| Bytes.encodeAll rs).runes.all passes := by
    rw [hr]
    exact List.all_eq_true.mpr fun r hr => (h r hr).left
  have ht : rs.map translate = rs.map id := 
    List.map_congr_left fun r hr => translate_commRune (h r hr).right
  have hl : (Bytes.encodeAll rs).length ≤ maxCommLen := hs.length_le
  rw [eq_take_of_passes hp, hr, ht, List.map_id, List.take_of_length_le hl]

-- The second time, a comm is kept unless the first time has cut it.
theorem sanitizeComm_sanitizeComm_iff : 
    sanitizeComm (sanitizeComm s) = sanitizeComm s ↔ ¬Cut s := by
  by_cases hp : (commText s).runes.all passes
  case neg =>
    rw [eq_nil_of_not_passes hp]
    exact iff_of_true rfl fun h => hp h.left
  case pos =>
    have he := eq_take_of_passes hp
    have hs := sanitizeComm_sanitized s
    rw [Cut, and_iff_right hp, ← cutsRune_translate_iff, ← Bytes.take_encodeAll_iff, ← he]
    constructor
    case mp  => exact fun h => hs.encodeAll_of_sanitizeComm_eq h
    case mpr =>
      intro ⟨rs, hr⟩
      rw [← hr] at hs ⊢
      apply hs.sanitizeComm_encodeAll
      intro r hm
      have hi : r.encode <:+: Bytes.encodeAll ((commText s).runes.map translate) := 
        Bytes.encode_isInfix_of_mem hm |>.trans <| hr.trans he ▸ (List.take_prefix ..).isInfix
      obtain ⟨r, hr, rfl⟩ := List.mem_map.mp <| Bytes.mem_of_encode_isInfix hi
      exact passes_translate <| List.all_eq_true.mp hp r hr

-- Nothing that is cut is rejected.
theorem Cut.sanitizeComm_ne_nil (h : Cut s) : sanitizeComm s ≠ [] := by
  intro hn
  exact sanitizeComm_sanitizeComm_iff.mp (by rw [hn]; rfl) h

end Config
