import DrishtiScope.Go.Strings
import Mathlib.Data.Int.Basic

open Go

namespace Config

-- TASK_COMM_LEN-1
def maxCommLen : Nat :=
  15

def maxPID : Int :=
  4_194_304

variable [Unicode]

-- The runes that `sanitizeComm` copies to its result.
def commRune (r : Rune) : Bool :=
  Unicode.isLetter r || Unicode.isDigit r || r = '-' || r = '_' || r = '.' || r = ':' || r = '+'

def sanitizeComm (s : Bytes) : Bytes :=
  let s := s.trimSpace.trimByte 0
  if s = [] then [] else
    match go s.runes [] with
    | none     => []
    | some out => if maxCommLen < out.length then out.take maxCommLen else out
where
  go : List Rune → Bytes → Option Bytes
    | [], b      => some b
    | r :: rs, b =>
      if r = '/' || r = '\\' || r.toNat = 0 || r.isControl then
        none
      else if commRune r then
        go rs (b ++ r.encode)
      else if r = ' ' then
        go rs (b ++ Rune.encode '_')
      else
        none

theorem sanitizeComm_nil : sanitizeComm [] = [] :=
  rfl

def validatePID (pid : Int) : Except Bytes Unit :=
  if pid < 0 ∨ maxPID < pid then
    .error <| str "pid out of range (0..4194304)"
  else
    .ok ()

omit [Unicode] in
@[simp]
theorem validatePID_ok_iff {pid : Int} : validatePID pid = .ok u ↔ 0 ≤ pid ∧ pid ≤ maxPID := by
  simp only [validatePID]
  split <;> simp <;> omega

def clampLimit (n fallback max : Int) : Int :=
  if n ≤ 0 then
    fallback
  else if max < n then
    max
  else
    n

namespace sanitizeComm

theorem commRune_not_space {r : Rune} (h : commRune r) : ¬r.isSpace := by
  simp only [commRune, Bool.or_eq_true, decide_eq_true_eq] at h
  rcases h with (((((h | h) | h) | h) | h) | h) | h
  case inl.inl.inl.inl.inl.inl => exact Unicode.isLetter_not_space r h
  case inl.inl.inl.inl.inl.inr => exact Unicode.isDigit_not_space r h
  all_goals subst h; decide

theorem commRune_ne_error {r : Rune} (h : commRune r) : r ≠ Rune.error := by
  rintro rfl
  rw [commRune, Unicode.isLetter_error, Unicode.isDigit_error] at h
  contradiction

theorem commRune_ne_zero {r : Rune} (h : commRune r) : r ≠ '\x00' := by
  rintro rfl
  rw [commRune, Unicode.isLetter_ascii _ (by decide), Unicode.isDigit_ascii _ (by decide)] at h
  contradiction

-- The loop either gives up or translates every rune.
def translate (r : Rune) : Rune :=
  if r = ' ' then '_' else r

theorem translate_commRune {r : Rune} (h : commRune r) : translate r = r := by
  refine if_neg fun hs => commRune_not_space h ?_
  subst hs
  decide

theorem go_eq_some {rs : List Rune} {b out : Bytes} (h : go rs b = some out) :
    out = b ++ Bytes.encodeAll (rs.map translate) ∧ ∀ r ∈ rs, commRune r ∨ r = ' ' := by
  induction rs generalizing b
  case nil => simp_all [go]
  case cons r rs hi =>
    rw [go] at h
    split at h <;> try contradiction
    split at h
    case _ hr =>
      have ⟨ho, hm⟩ := hi h
      have ht := translate_commRune hr
      simp_all
    case _ =>
      split at h <;> try contradiction
      have ⟨ho, hm⟩ := hi h
      simp_all [translate]

theorem eq_take_of_ne_nil {s : Bytes} (h : sanitizeComm s ≠ []) :
    let t := s.trimSpace.trimByte 0
    sanitizeComm s = (Bytes.encodeAll (t.runes.map translate)).take maxCommLen ∧
      ∀ r ∈ t.runes, commRune r ∨ r = ' ' := by
  simp only [sanitizeComm] at h ⊢
  split at h <;> try contradiction
  split at h <;> try contradiction
  case _ out hg =>
    have ⟨ho, hm⟩ := go_eq_some hg
    simp only [List.nil_append] at ho
    refine ⟨?_, hm⟩
    split <;> simp_all [List.take_of_length_le]

end sanitizeComm

-- The comms that `sanitizeComm` yields: encoded runes of the permitted kind, cut after 15 bytes and
-- hence perhaps in the middle of the last one.
def Sanitized (comm : Bytes) : Prop :=
  ∃ rs : List Rune, (∀ r ∈ rs, commRune r) ∧ comm = (Bytes.encodeAll rs).take maxCommLen

theorem Sanitized.nil : Sanitized [] :=
  ⟨[], by simp, by simp⟩

theorem sanitizeComm_sanitized (s : Bytes) : Sanitized (sanitizeComm s) := by
  by_cases h : sanitizeComm s = []
  case pos => exact h ▸ Sanitized.nil
  case neg =>
    have ⟨he, hm⟩ := sanitizeComm.eq_take_of_ne_nil h
    refine ⟨_, fun r hr => ?_, he⟩
    have ⟨r', hr', ht⟩ := List.mem_map.mp hr
    cases hm r' hr'
    case inl hc =>
      rw [← ht, sanitizeComm.translate_commRune hc]
      exact hc
    case inr hc =>
      subst ht hc
      rw [sanitizeComm.translate, if_pos rfl]
      simp [commRune]

namespace Sanitized

variable {comm : Bytes}

theorem length_le (h : Sanitized comm) : comm.length ≤ maxCommLen := by
  have ⟨rs, _, he⟩ := h
  exact he ▸ List.length_take_le ..

theorem encode_not_isInfix (h : Sanitized comm) {r : Rune} (hr : ¬commRune r) :
    ¬r.encode <:+: comm := by
  have ⟨rs, hm, he⟩ := h
  intro hi
  exact hr <| hm r <| Go.Bytes.mem_of_encode_isInfix <| hi.trans (he ▸ List.take_prefix _ _).isInfix

theorem zero_not_mem (h : Sanitized comm) : 0 ∉ comm := by
  intro hz
  apply h.encode_not_isInfix (r := '\x00') (fun hc => sanitizeComm.commRune_ne_zero hc rfl)
  exact List.singleton_infix_iff .. |>.mpr hz

theorem spaceFree (h : Sanitized comm) : Bytes.SpaceFree comm :=
  fun _ hr => h.encode_not_isInfix fun hc => sanitizeComm.commRune_not_space hc hr

theorem trimSpace_eq (h : Sanitized comm) : comm.trimSpace = comm :=
  Bytes.trimSpace_eq_self h.spaceFree

theorem space_not_mem_runes (h : Sanitized comm) : ' ' ∉ comm.runes := by
  intro hs
  have hi := Bytes.isInfix_of_mem_runes hs (by decide)
  exact h.encode_not_isInfix (fun hc => sanitizeComm.commRune_not_space hc (by decide)) hi

-- A comm that has been sanitized is kept or, where the cut went through a rune, rejected.
theorem sanitizeComm_eq (h : Sanitized comm) : sanitizeComm comm = comm ∨ sanitizeComm comm = [] := by
  by_cases hn : sanitizeComm comm = []
  case pos => exact .inr hn
  case neg =>
    left
    have ⟨he, hm⟩ := sanitizeComm.eq_take_of_ne_nil hn
    simp only [h.trimSpace_eq, Bytes.trimByte_eq_self h.zero_not_mem] at he hm
    have hc : ∀ r ∈ comm.runes, commRune r := by
      intro r hr
      have hs : r ≠ ' ' := fun hs => h.space_not_mem_runes (hs ▸ hr)
      exact hm r hr |>.resolve_right hs
    have ht : comm.runes.map sanitizeComm.translate = comm.runes.map id :=
      List.map_congr_left fun r hr => sanitizeComm.translate_commRune (hc r hr)
    have hd := Bytes.encodeAll_runes fun hr => sanitizeComm.commRune_ne_error (hc _ hr) rfl
    rw [he, ht, List.map_id, hd, List.take_of_length_le h.length_le]

end Sanitized
end Config
