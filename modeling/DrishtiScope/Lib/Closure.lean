import Mathlib.Data.List.Nodup
import Mathlib.Data.Set.Basic
import Mathlib.Logic.Relation
import Mathlib.Order.Bounds.Defs

-- The descendants of a set of roots in a forest that is given by (child, parent) pairs, and the
-- loop that computes them by passing over the pairs until nothing changes.
namespace Closure

open List Relation

variable {α : Type*}

def Child (es : List (α × α)) (p c : α) : Prop :=
  (c, p) ∈ es

-- The least set that contains the roots and the children of its members.
def closure (es : List (α × α)) (roots : List α) : Set α :=
  { x | ∃ r ∈ roots, ReflTransGen (Child es) r x }

variable {es es' : List (α × α)} {roots want : List α} {x : α}

theorem root_mem_closure (h : x ∈ roots) : x ∈ closure es roots :=
  ⟨x, h, .refl⟩

theorem child_mem_closure {p c : α} (hc : (c, p) ∈ es) (hp : p ∈ closure es roots) : 
    c ∈ closure es roots :=
  have ⟨r, hr, hd⟩ := hp
  ⟨r, hr, hd.tail hc⟩

theorem closure_least {S : Set α} (hr : ∀ r ∈ roots, r ∈ S)
    (hc : ∀ c p, (c, p) ∈ es → p ∈ S → c ∈ S) : closure es roots ⊆ S := by
  intro x ⟨r, hm, hd⟩
  induction hd
  case refl           => exact hr r hm
  case tail c _ h hi  => exact hc _ _ h hi

theorem isLeast_closure : 
    IsLeast { S : Set α | (∀ r ∈ roots, r ∈ S) ∧ ∀ c p, (c, p) ∈ es → p ∈ S → c ∈ S } (closure es roots) :=
  ⟨⟨fun _ => root_mem_closure, fun _ _ => child_mem_closure⟩, fun _ h => closure_least h.left h.right⟩

@[simp]
theorem closure_nil : closure es [] = ∅ := by
  simp [closure]

variable [DecidableEq α]

-- One pass: a child whose parent is wanted becomes wanted at once, so later pairs of the same pass
-- see it. The flag tells whether anything has changed.
def pass (want : List α) : List (α × α) → List α × Bool
  | []           => (want, false)
  | (c, p) :: es =>
    if c ∈ want then
      pass want es
    else if p ∈ want then
      ((pass (want ++ [c]) es).1, true)
    else
      pass want es

-- Passes until nothing changes. The pairs may come in another order in each pass.
def saturate (iter : Nat → List (α × α)) : Nat → Nat → List α → List α
  | 0, _, want     => want
  | n + 1, k, want =>
    match pass want (iter k) with
    | (want, true)  => saturate iter n (k + 1) want
    | (want, false) => want

-- The loop itself: it ends with `want'` when it starts with pass `k`.
inductive Loop (iter : Nat → List (α × α)) : Nat → List α → List α → Prop
  | done {k want want'} (h : pass want (iter k) = (want', false)) : Loop iter k want want'
  | again {k want want' want''} (h : pass want (iter k) = (want', true)) (hl : Loop iter (k + 1) want' want'') : 
    Loop iter k want want''

namespace pass

theorem subset : want <+: (pass want es).1 := by
  induction es generalizing want <;> simp only [pass]
  case nil => exact prefix_rfl
  case cons hi =>
    split
    · exact hi
    · split
      · exact (prefix_append ..).trans hi
      · exact hi

theorem nodup (h : want.Nodup) : (pass want es).1.Nodup := by
  induction es generalizing want <;> simp only [pass]
  case nil => exact h
  case cons hi =>
    split
    · exact hi h
    · split
      · exact hi <| h.append (nodup_singleton _) (disjoint_singleton.mpr ‹_›)
      · exact hi h

theorem sound (hs : es ⊆ es') (hw : ∀ x ∈ want, x ∈ closure es' roots) : 
    ∀ x ∈ (pass want es).1, x ∈ closure es' roots := by
  induction es generalizing want <;> simp only [pass]
  case nil => exact hw
  case cons e es hi =>
    have ⟨he, hs⟩ := cons_subset.mp hs
    split
    · exact hi hs hw
    · split
      case isTrue hp =>
        apply hi hs
        intro x hx
        cases mem_append.mp hx
        case inl hx => exact hw x hx
        case inr hx => exact mem_singleton.mp hx ▸ child_mem_closure he (hw _ hp)
      case isFalse => exact hi hs hw

theorem unchanged (h : (pass want es).2 = false) : 
    (pass want es).1 = want ∧ ∀ c p, (c, p) ∈ es → p ∈ want → c ∈ want := by
  induction es generalizing want <;> simp only [pass] at h ⊢
  case nil => simp
  case cons e es hi =>
    split at h
    case isTrue hc =>
      have ⟨he, hm⟩ := hi h
      simp only [hc, ite_true, he, mem_cons, true_and]
      rintro c p (rfl | hm') hp
      · exact hc
      · exact hm c p hm' hp
    case isFalse hc =>
      split at h
      case isTrue => contradiction
      case isFalse hp =>
        have ⟨he, hm⟩ := hi h
        simp only [hc, hp, ite_false, he, mem_cons, true_and]
        rintro c p (rfl | hm') hp'
        · contradiction
        · exact hm c p hm' hp'

-- The children that are still missing.
def missing (es : List (α × α)) (want : List α) : Nat :=
  es.countP fun e => e.1 ∉ want

theorem missing_le {want' : List α} (h : want <+: want') : missing es want' ≤ missing es want := by
  refine countP_mono_left fun e _ hm => ?_
  simp only [decide_eq_true_eq] at hm ⊢
  exact fun hw => hm (h.subset hw)

theorem missing_lt {want' : List α} (h : want <+: want') {c : α} {p : α} (hm : (c, p) ∈ es) 
    (hc : c ∉ want) (hc' : c ∈ want') : missing es want' < missing es want := by
  have ⟨u, v, he⟩ := append_of_mem hm
  have hu : missing u want' ≤ missing u want := missing_le h
  have hv : missing v want' ≤ missing v want := missing_le h
  simp only [missing, he, countP_append, countP_cons, hc, hc', not_true_eq_false, decide_false,
    not_false_eq_true, decide_true, Bool.false_eq_true, if_false, if_true] at hu hv ⊢
  omega

theorem progress (hs : es ⊆ es') (h : (pass want es).2 = true) : 
    missing es' (pass want es).1 < missing es' want := by
  induction es generalizing want <;> simp only [pass] at h ⊢
  case nil => contradiction
  case cons e es hi =>
    have ⟨he, hs⟩ := cons_subset.mp hs
    split at h
    case isTrue hc => simpa only [hc, ite_true] using hi hs h
    case isFalse hc =>
      split at h
      case isTrue hp =>
        simp only [hc, hp, ite_true, ite_false]
        exact missing_lt ((prefix_append ..).trans pass.subset) he hc <|
          pass.subset.subset (by simp)
      case isFalse hp => simpa only [hc, hp, ite_false] using hi hs h

end pass

namespace saturate

variable {iter : Nat → List (α × α)}

theorem subset {n k : Nat} : want <+: saturate iter n k want := by
  induction n generalizing k want <;> simp only [saturate]
  case zero => exact prefix_rfl
  case succ n hi =>
    have hp : want <+: (pass want (iter k)).1 := pass.subset
    split <;> simp_all only
    exact hp.trans hi

theorem nodup {n k : Nat} (h : want.Nodup) : (saturate iter n k want).Nodup := by
  induction n generalizing k want <;> simp only [saturate]
  case zero => exact h
  case succ n hi =>
    have hp : (pass want (iter k)).1.Nodup := pass.nodup h
    split <;> simp_all only

-- With a pass for each missing child and one that finds nothing the loop stops by itself.
theorem mem_iff_of_missing {n k : Nat} (hi : ∀ k e, e ∈ iter k ↔ e ∈ es)
    (hn : pass.missing es want < n) (hr : roots ⊆ want) (hw : ∀ x ∈ want, x ∈ closure es roots) :
    x ∈ saturate iter n k want ↔ x ∈ closure es roots := by
  induction n generalizing k want
  case zero => contradiction
  case succ n ih =>
    have hs : iter k ⊆ es := fun e he => (hi k e).mp he
    have hw' := pass.sound hs hw
    have hb : want <+: (pass want (iter k)).1 := pass.subset
    cases hp : pass want (iter k)
    case mk want' changed =>
      rw [hp] at hw' hb
      cases changed <;> simp only [saturate, hp]
      case true =>
        have hm : pass.missing es want' < pass.missing es want := by
          have := pass.progress hs (by rw [hp])
          rwa [hp] at this
        exact ih (by omega) (fun r h => hb.subset (hr h)) hw'
      case false =>
        have hf : (pass want (iter k)).2 = false := by rw [hp]
        have ⟨hu, hc⟩ := pass.unchanged hf
        rw [hp] at hu
        subst hu
        constructor
        case mp  => exact hw' x
        case mpr =>
          refine fun hx => closure_least (S := { x | x ∈ want' }) (fun r h => hr h) ?_ hx
          exact fun c p he => hc c p <| (hi k _).mpr he

-- Each pass with a change leaves fewer children missing, so that the loop ends within this number of passes.
theorem loop {n k : Nat} (hi : ∀ k e, e ∈ iter k ↔ e ∈ es) (hn : pass.missing es want < n) : 
    Loop iter k want (saturate iter n k want) := by
  induction n generalizing k want
  case zero => contradiction
  case succ n ih =>
    have hs : iter k ⊆ es := fun e he => (hi k e).mp he
    cases hp : pass want (iter k)
    case mk want' changed =>
      cases changed <;> simp only [saturate, hp]
      case false => exact .done hp
      case true  =>
        have hm := pass.progress hs (by rw [hp])
        rw [hp] at hm
        exact .again hp <| ih <| Nat.lt_of_lt_of_le hm <| Nat.le_of_lt_succ hn

theorem missing_lt_of_length {n : Nat} (hn : es.length < n) : pass.missing es want < n :=
  countP_le_length.trans_lt hn

theorem mem_iff {n : Nat} (hi : ∀ k e, e ∈ iter k ↔ e ∈ es) (hn : es.length < n) : 
    x ∈ saturate iter n 0 roots ↔ x ∈ closure es roots :=
  mem_iff_of_missing hi (missing_lt_of_length hn) (Subset.refl _) 
    fun _ => root_mem_closure

end saturate
end Closure
