import Mathlib.Data.List.Basic
import Mathlib.Data.List.Infix

-- Lists whose parts are separated.
namespace Separated

variable {α : Type*} {a : α} {l sep s₁ s₂ t₁ t₂ : List α} {ls : List (List α)}

theorem mem_intercalate (h : a ∈ sep.intercalate ls) : a ∈ sep ∨ ∃ l ∈ ls, a ∈ l := by
  induction ls
  case nil          => contradiction
  case cons l ls hi =>
    cases ls
    case nil  => 
      rw [List.intercalate_singleton] at h
      exact .inr ⟨l, List.mem_singleton_self _, h⟩
    case cons =>
      rw [List.intercalate_cons_cons, List.mem_append, List.mem_append] at h
      rcases h with (h | h) | h
      · exact .inr ⟨l, List.mem_cons_self, h⟩
      · exact .inl h
      · exact (hi h).imp_right fun ⟨l, hl, h⟩ => ⟨l, List.mem_cons_of_mem _ hl, h⟩

theorem isInfix_intercalate (h : l ∈ ls) : l <:+: sep.intercalate ls := by
  induction ls
  case nil           => contradiction
  case cons l' ls hi =>
    cases ls
    case nil  => rw [List.mem_singleton.mp h, List.intercalate_singleton]
    case cons =>
      rw [List.intercalate_cons_cons]
      cases List.mem_cons.mp h
      case inl he => exact he ▸ (List.prefix_append ..).isInfix.trans (List.prefix_append ..).isInfix
      case inr hm => exact hi hm |>.trans <| (List.suffix_append ..).isInfix

-- The separators are the same one, or one of them comes first.
theorem append_cons_cases (h : s₁ ++ a :: t₁ = s₂ ++ a :: t₂) : 
    (s₁ = s₂ ∧ t₁ = t₂) ∨ (∃ c, s₁ = s₂ ++ a :: c ∧ t₂ = c ++ a :: t₁) ∨ 
    ∃ c, s₂ = s₁ ++ a :: c ∧ t₁ = c ++ a :: t₂ := by
  rcases List.append_eq_append_iff.mp h with ⟨c, hs, ht⟩ | ⟨c, hs, ht⟩
  case inl =>
    cases c
    case nil      => simp_all
    case cons b c =>
      cases ht
      exact .inr <| .inr ⟨c, hs, rfl⟩
  case inr =>
    cases c
    case nil      => simp_all
    case cons b c =>
      cases ht
      exact .inr <| .inl ⟨c, hs, rfl⟩

-- What precedes the first separator, and what follows it.
theorem append_cons_inj_left (h₁ : a ∉ s₁) (h₂ : a ∉ s₂) (h : s₁ ++ a :: t₁ = s₂ ++ a :: t₂) : 
    s₁ = s₂ ∧ t₁ = t₂ := by
  rcases append_cons_cases h with h | ⟨_, rfl, _⟩ | ⟨_, rfl, _⟩
  · exact h
  · exact absurd (by simp) h₁
  · exact absurd (by simp) h₂

-- What precedes the last separator, and what follows it.
theorem append_cons_inj_right (h₁ : a ∉ t₁) (h₂ : a ∉ t₂) (h : s₁ ++ a :: t₁ = s₂ ++ a :: t₂) : 
    s₁ = s₂ ∧ t₁ = t₂ := by
  rcases append_cons_cases h with h | ⟨_, _, rfl⟩ | ⟨_, _, rfl⟩
  · exact h
  · exact absurd (by simp) h₂
  · exact absurd (by simp) h₁

-- The separator occurs in none of the parts.
theorem not_mem_of_mem_splitOn [BEq α] [LawfulBEq α] (h : s₁ ∈ l.splitOn a) : a ∉ s₁ := by
  induction l generalizing s₁
  case nil => simp_all
  case cons b l hi =>
    rw [List.splitOn_cons_eq_if_modifyHead] at h
    split at h
    case isTrue     =>
      cases List.mem_cons.mp h
      case inl he => rw [he]; exact List.not_mem_nil
      case inr hm => exact hi hm
    case isFalse hn =>
      cases hl : l.splitOn a
      case nil       => exact absurd hl <| List.splitOn_ne_nil a l
      case cons t ts =>
        rw [hl, List.modifyHead_cons] at h
        rw [hl] at hi
        cases List.mem_cons.mp h
        case inr hm => exact hi <| List.mem_cons_of_mem _ hm
        case inl he =>
          rw [he, List.mem_cons, not_or]
          exact ⟨fun hb => hn <| beq_iff_eq.mpr hb.symm, hi List.mem_cons_self⟩

end Separated
