import DrishtiScope.Lib.Execution
import Mathlib.Data.List.Induction
import Mathlib.Logic.Function.Basic

-- A table of shared objects that are made when they are first needed. A call looks up its key, and if
-- there is no object yet, it looks once more when it has the table to itself, and makes one. It then
-- operates on the object, while other calls may do anything in between.
namespace SharedTable

-- A call reads something when it makes an object and when it operates on one, such as the time.
structure System (γ ν β : Type*) where
  make    : ν → β
  creates : γ → Bool
  apply   : β → γ → ν → β

inductive Phase (κ γ : Type*)
  | idle
  | missing (key : κ) (call : γ)
  | holding (key : κ) (call : γ) (ref : Nat)

-- The objects are referred to by their positions.
structure State (ι κ γ β : Type*) where
  objects : List β
  table   : κ → Option Nat
  phase   : ι → Phase κ γ

inductive Action (ι κ γ ν : Type*)
  | lookup (i : ι) (key : κ) (call : γ)
  | create (i : ι) (v : ν)
  | operate (i : ι) (v : ν)

-- What the steps do to the objects.
inductive Effect (κ γ ν : Type*)
  | made (key : κ) (v : ν)
  | applied (key : κ) (call : γ) (v : ν)

variable {ι κ γ ν β : Type*} [DecidableEq ι] [DecidableEq κ]

def State.empty : State ι κ γ β where
  objects := []
  table _ := none
  phase _ := .idle

def State.goto (s : State ι κ γ β) (i : ι) (p : Phase κ γ) : State ι κ γ β :=
  { s with phase := Function.update s.phase i p }

def State.insert (s : State ι κ γ β) (key : κ) (b : β) : State ι κ γ β :=
  { s with 
    objects := s.objects ++ [b]
    table   := Function.update s.table key (some s.objects.length) 
  }

-- The object of a key.
def State.find (s : State ι κ γ β) (key : κ) : Option β :=
  s.table key |>.bind fun ref => s.objects[ref]?

def State.effect (s : State ι κ γ β) : Action ι κ γ ν → List (Effect κ γ ν)
  | .lookup ..   => []
  | .create i v  =>
    match s.phase i with
    | .missing key _ => if s.table key = none then [.made key v] else []
    | _              => []
  | .operate i v =>
    match s.phase i with
    | .holding key call _ => [.applied key call v]
    | _                   => []

namespace System

variable (sys : System γ ν β)

def step (s : State ι κ γ β) : Action ι κ γ ν → State ι κ γ β
  | .lookup i key call =>
    match s.phase i with
    | .idle => 
      match s.table key with
      | some ref => s.goto i <| .holding key call ref
      | none     => if sys.creates call then s.goto i <| .missing key call else s
    | _     => s
  | .create i v        =>
    match s.phase i with
    | .missing key call =>
      match s.table key with
      | some ref => s.goto i <| .holding key call ref
      | none     => (s.insert key <| sys.make v).goto i <| .holding key call s.objects.length
    | _                 => s
  | .operate i v       =>
    match s.phase i with
    | .holding _ call ref => 
      { s with objects := s.objects.modify ref fun b => sys.apply b call v }.goto i .idle
    | _                   => s

-- The calls on a key that have been carried out.
def calls (key : κ) (es : List (Effect κ γ ν)) : List (γ × ν) :=
  es.filterMap fun e => 
    match e with
    | .made ..             => none
    | .applied key' call v => if key' = key then some (call, v) else none

variable {sys} {s : State ι κ γ β} {a : Action ι κ γ ν} {key : κ} {i : ι} {p : Phase κ γ}

-- No two keys share an object, and whoever holds an object for a key holds the one in the table.
structure Sound (s : State ι κ γ β) : Prop where
  bounded   : ∀ key, ∀ ref ∈ s.table key, ref < s.objects.length
  injective : ∀ key key', ∀ ref ∈ s.table key, ref ∈ s.table key' → key = key'
  holds     : ∀ i key call ref, s.phase i = .holding key call ref → s.table key = some ref

omit [DecidableEq ι] [DecidableEq κ] in
theorem Sound.empty : Sound (.empty : State ι κ γ β) where
  bounded _ _ h     := by contradiction
  injective _ _ _ h := by contradiction
  holds _ _ _ _ h   := by contradiction

omit [DecidableEq κ] in
theorem Sound.goto (h : Sound s) (hp : ∀ key call ref, p = .holding key call ref → s.table key = some ref) : 
    Sound (s.goto i p) where
  bounded        := h.bounded
  injective      := h.injective
  holds j _ _ _ hj := by
    simp only [State.goto, Function.update_apply] at hj
    split at hj
    case isTrue  => exact hp _ _ _ hj
    case isFalse => exact h.holds _ _ _ _ hj

-- Everything that a step does to the table and its objects.
inductive Does (sys : System γ ν β) (s s' : State ι κ γ β) : List (Effect κ γ ν) → Prop
  | nothing : s'.objects = s.objects → s'.table = s.table → Does sys s s' []
  | make (key : κ) (v : ν) : s.table key = none → s'.objects = s.objects ++ [sys.make v] → 
      s'.table = Function.update s.table key (some s.objects.length) → Does sys s s' [.made key v]
  | apply (key : κ) (call : γ) (v : ν) (ref : Nat) : s.table key = some ref → 
      s'.objects = s.objects.modify ref (fun b => sys.apply b call v) → s'.table = s.table → 
      Does sys s s' [.applied key call v]

omit [DecidableEq ι] in
theorem Sound.insert {b : β} (h : Sound s) (ht : s.table key = none) : Sound (s.insert key b) := by
  -- The new object has a position of its own.
  have hl : ∀ key', s.objects.length ∉ s.table key' := 
    fun key' hm => Nat.lt_irrefl _ (h.bounded key' _ hm)
  constructor
  case bounded =>
    intro key' ref hr
    simp only [State.insert, Function.update_apply, List.length_append, List.length_singleton] at hr ⊢
    split at hr
    case isTrue  => cases hr; exact Nat.lt_succ_self _
    case isFalse => exact Nat.lt_succ_of_lt <| h.bounded key' ref hr
  case injective =>
    intro key₁ key₂ ref h₁ h₂
    simp only [State.insert, Function.update_apply] at h₁ h₂
    split at h₁ <;> split at h₂
    case isTrue.isTrue e₁ e₂   => rw [e₁, e₂]
    case isTrue.isFalse e₁ e₂  => cases h₁; exact absurd h₂ <| hl key₂
    case isFalse.isTrue e₁ e₂  => cases h₂; exact absurd h₁ <| hl key₁
    case isFalse.isFalse e₁ e₂ => exact h.injective _ _ _ h₁ h₂
  case holds =>
    intro j key' call ref hj
    have hm := h.holds j key' call ref hj
    have he : key' ≠ key := by
      rintro rfl
      exact absurd (ht.symm.trans hm) (by simp)
    exact (Function.update_of_ne he _ _).trans hm

theorem Sound.step (h : Sound s) : Sound (sys.step s a) := by
  cases a
  case lookup i key call =>
    simp only [System.step]
    split
    case h_2 => exact h
    case h_1 =>
      split
      case h_1 ref ht => exact h.goto fun _ _ _ hp => by cases hp; exact ht
      case h_2        =>
        split
        · exact h.goto fun _ _ _ hp => by contradiction
        · exact h
  case create i v =>
    simp only [System.step]
    split
    case h_2 => exact h
    case h_1 key call _ =>
      split
      case h_1 ref ht => exact h.goto fun _ _ _ hp => by cases hp; exact ht
      case h_2 ht     => 
        exact (h.insert ht).goto fun _ _ _ hp => by cases hp; exact Function.update_self ..
  case operate i v =>
    simp only [System.step]
    split
    case h_2 => exact h
    case h_1 key call ref _ =>
      refine Sound.goto ?_ fun _ _ _ hp => by contradiction
      exact ⟨fun key ref hr => by simpa using h.bounded key ref hr, h.injective, h.holds⟩

-- The object of a key, as far as the calls that have been carried out can tell.
inductive Described (sys : System γ ν β) (s : State ι κ γ β) (es : List (Effect κ γ ν)) (key : κ) : Prop
  | absent (hf : s.find key = none) (hc : calls key es = [])
  | present (v : ν) (hm : .made key v ∈ es) 
    (hf : s.find key = some ((calls key es).foldl (fun b c => sys.apply b c.fst c.snd) <| sys.make v))

variable {es : List (Effect κ γ ν)} {s' : State ι κ γ β} {e : List (Effect κ γ ν)}

omit [DecidableEq ι] in
theorem calls_append : calls key (es ++ e) = calls key es ++ calls key e :=
  List.filterMap_append

omit [DecidableEq ι] [DecidableEq κ] in
theorem find_eq_none_of_table (ht : s.table key = none) : s.find key = none := by
  rw [State.find, ht, Option.bind_none]

omit [DecidableEq ι] [DecidableEq κ] in
theorem Sound.table_eq_none (h : Sound s) (hf : s.find key = none) : s.table key = none := by
  cases ht : s.table key
  case none     => rfl
  case some ref =>
    simp only [State.find, ht, Option.bind_some, List.getElem?_eq_none_iff] at hf
    exact absurd (h.bounded key ref ht) (Nat.not_lt.mpr hf)

omit [DecidableEq ι] in
theorem find_make (key' : κ) {b : β} (h : Sound s) (ho : s'.objects = s.objects ++ [b]) 
    (ht : s'.table = Function.update s.table key (some s.objects.length)) : 
    s'.find key' = if key = key' then some b else s.find key' := by
  simp only [State.find, ho, ht, Function.update_apply, eq_comm (a := key')]
  split
  case isTrue  => exact List.getElem?_concat_length
  case isFalse =>
    cases hr : s.table key'
    case none     => rfl
    case some ref => exact List.getElem?_append_left <| h.bounded key' ref hr

omit [DecidableEq ι] in
theorem find_apply (key' : κ) {f : β → β} {ref : Nat} (h : Sound s) (hk : s.table key = some ref) 
    (ho : s'.objects = s.objects.modify ref f) (ht : s'.table = s.table) : 
    s'.find key' = if key = key' then (s.find key').map f else s.find key' := by
  simp only [State.find, ho, ht]
  split
  case isTrue he =>
    subst he
    simp [hk]
  case isFalse he =>
    cases hr : s.table key'
    case none      => rfl
    case some ref' =>
      have hn : ref ≠ ref' := fun hn => he <| h.injective key key' ref hk (hn ▸ hr)
      simp [hn]

omit [DecidableEq ι] in
theorem Described.does (h : Sound s) (hd : Does sys s s' e) (hs : Described sys s es key) : 
    Described sys s' (es ++ e) key := by
  cases hd
  case nothing ho ht =>
    have hf : s'.find key = s.find key := by simp only [State.find, ho, ht]
    rw [List.append_nil]
    cases hs
    case absent hn hc     => exact .absent (hf.trans hn) hc
    case present v hm hp  => exact .present v hm (hf.trans hp)
  case make key' v hk ho ht =>
    have hf := find_make key h ho ht
    have hc : calls key (es ++ [.made key' v]) = calls key es := calls_append.trans <| List.append_nil _
    by_cases he : key' = key
    case neg =>
      rw [if_neg he] at hf
      cases hs
      case absent hn hc'    => exact .absent (hf.trans hn) (hc.trans hc')
      case present v' hm hp => exact .present v' (List.mem_append_left _ hm) (hc ▸ hf.trans hp)
    case pos =>
      rw [if_pos he] at hf
      cases hs
      -- An object is only made where there is none.
      case present v' hm hp =>
        rw [find_eq_none_of_table (he ▸ hk)] at hp
        contradiction
      case absent hn hc'    => 
        refine .present v (by simp [he]) ?_
        rw [hf, hc, hc', List.foldl_nil]
  case apply key' call v ref hk ho ht =>
    have hf := find_apply key h hk ho ht
    by_cases he : key' = key
    case neg =>
      have hc : calls key (es ++ [.applied key' call v]) = calls key es := by simp [calls, he]
      rw [if_neg he] at hf
      cases hs
      case absent hn hc'    => exact .absent (hf.trans hn) (hc.trans hc')
      case present v' hm hp => exact .present v' (List.mem_append_left _ hm) (hc ▸ hf.trans hp)
    case pos =>
      have hc : calls key (es ++ [.applied key' call v]) = calls key es ++ [(call, v)] := by simp [calls, he]
      rw [if_pos he] at hf
      cases hs
      -- An object is only used once it has been made.
      case absent hn _      => exact absurd (h.table_eq_none hn) (by simp [he ▸ hk])
      case present v' hm hp => 
        refine .present v' (List.mem_append_left _ hm) ?_
        rw [hf, hp, hc, List.foldl_concat, Option.map_some]

end System
end SharedTable
