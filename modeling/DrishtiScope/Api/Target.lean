import DrishtiScope.Config.Config
import DrishtiScope.Lib.ReadModifyWrite

open Go ReadModifyWrite

-- POST /api/target changes the target in two steps.
namespace Api

-- The body of the request. A field that is missing or null is `none`.
structure TargetRequest where
  pid  : Option Int
  comm : Option Bytes
  deriving DecidableEq

namespace TargetRequest

-- At least one of the fields is required.
def isComplete (r : TargetRequest) : Bool :=
  r.pid.isSome || r.comm.isSome

-- The target that is installed after `target` has been read.
def merge (r : TargetRequest) (target : Int × Bytes) : Int × Bytes :=
  let (pid, comm) := target
  match r.pid, r.comm with
  | none, none          => (pid, comm)
  | some pid, none      => (pid, comm)
  | none, some comm     => (0, comm)
  | some pid, some comm => (pid, comm)

-- The request depends on what it reads.
def isPidOnly (r : TargetRequest) : Bool :=
  r.comm = none

end TargetRequest

section Serial

variable [Unicode] {ι : Type*} [DecidableEq ι]

-- Any number of requests.
def targetSystem (request : ι → TargetRequest) : System ι Config (Int × Bytes) where
  view                 := Config.target
  update i target cfg := 
    let (pid, comm) := (request i).merge target
    (cfg.setTarget pid comm).toOption

-- The target is the one that results from executing the accepted requests one after the other.
def TargetSerializable (request : ι → TargetRequest) (cfg : Config) 
    (s : State ι Config (Int × Bytes)) : Prop :=
  ∃ is : List ι, is.Perm s.accepted ∧ 
    (is.foldl (targetSystem request).serve cfg).target = s.shared.target

-- A request that carries a pid only writes back the comm that is in the configuration at that moment, or
-- it leaves the comm alone.
def KeepsComm (request : ι → TargetRequest) (s : State ι Config (Int × Bytes)) : Access ι → Prop
  | .read _  => True
  | .write i => 
    (request i).isPidOnly → ∀ pid comm, s.phase i = .holding (pid, comm) → 
      comm = s.shared.targetComm ∨ (comm = [] ∧ Config.sanitizeComm s.shared.targetComm ≠ [])

variable {request : ι → TargetRequest} {cfg : Config} {s : State ι Config (Int × Bytes)} 
         {a : Access ι} {as : List (Access ι)}

omit [Unicode] in
-- The pid that is read is never written back.
theorem merge_eq {r : TargetRequest} {t t' : Int × Bytes} (hr : r.isComplete) (h : ¬r.isPidOnly) : 
    r.merge t = r.merge t' := by
  cases r
  case mk pid comm =>
    cases pid <;> cases comm
    case none.none => contradiction
    case some.none => simp [TargetRequest.isPidOnly] at h
    all_goals rfl

omit [Unicode] in
theorem merge_of_isPidOnly {r : TargetRequest} (hr : r.isComplete) (h : r.isPidOnly) : 
    ∃ pid, ∀ t, r.merge t = (pid, t.snd) := by
  cases r
  case mk pid comm =>
    cases pid <;> cases comm
    case none.none => contradiction
    case some.none => exact ⟨_, fun _ => rfl⟩
    all_goals simp [TargetRequest.isPidOnly] at h

omit [DecidableEq ι] in
theorem current_of_keepsComm (hr : ∀ i, (request i).isComplete) (hw : s.shared.WellFormed) 
    (h : KeepsComm request s a) : (targetSystem request).Current s a := by
  cases a
  case read i  => trivial
  case write i =>
    intro (pid, comm) hp
    simp only [targetSystem]
    by_cases hi : (request i).isPidOnly
    case neg => rw [merge_eq (hr i) hi]
    case pos =>
      have ⟨x, hx⟩ := merge_of_isPidOnly (hr i) hi
      rw [hx, hx, Config.target]
      cases h hi pid comm hp
      case inl hc => rw [hc]
      case inr hc => rw [hc.left, hw.setTarget_nil hc.right]

theorem wellFormed_step (hw : s.shared.WellFormed) : 
    ((targetSystem request).step s a).shared.WellFormed := by
  cases (targetSystem request).step_cases s a
  case inl he => rwa [he.left]
  case inr he =>
    have ⟨i, r, _, _, hu, _⟩ := he
    exact hw.setTarget <| Config.toOption_setTarget.mp hu

theorem targetSerializable_of_always (hw : cfg.Reachable) (hr : ∀ i, (request i).isComplete) 
    (h : Execution.Always (targetSystem request).step (KeepsComm request) (.start cfg) as) : 
    TargetSerializable request cfg (Execution.exec (targetSystem request).step (.start cfg) as) := by
  have hc : Execution.Always (targetSystem request).step (targetSystem request).Current 
      (.start cfg) as := by
    apply h.imp (I := fun s => s.shared.WellFormed) hw.wellFormed
    case hk  => exact fun s a hw _ => wellFormed_step hw
    case hpq => exact fun s a hw h => current_of_keepsComm hr hw h
  have ⟨is, hp, he⟩ := System.serializable_of_always hc
  exact ⟨is, hp, congrArg Config.target he⟩

end Serial

section LostUpdate

attribute [local instance] Unicode.ascii

def agy : Config :=
  Config.loadTarget 0 (str "agy")

-- One request sets the pid, the other one the comm.
def pidAndComm (comm : Bool) : TargetRequest :=
  if comm then ⟨none, some <| str "codex"⟩ else ⟨some 5, none⟩

def lostUpdate : List (Access Bool) :=
  [.read false, .read true, .write true, .write false]

-- The request that sets the pid restores the comm that it has read.
theorem not_targetSerializable_lostUpdate : 
    ¬(agy.Reachable → (∀ i, (pidAndComm i).isComplete) → TargetSerializable pidAndComm agy 
      (Execution.exec (targetSystem pidAndComm).step (.start agy) lostUpdate)) := by
  intro h
  have ⟨is, hp, he⟩ := h (.load _) (by decide)
  have hl : is.length = 2 := hp.length_eq
  have ⟨i, j, hij⟩ := List.length_eq_two.mp hl
  subst hij
  revert i j
  decide

-- Both requests read before either of them writes.
theorem targetSerializable_of_always_pidAndComm : 
    TargetSerializable pidAndComm agy (Execution.exec (targetSystem pidAndComm).step (.start agy) 
      [.read true, .read false, .write false, .write true]) := by
  apply targetSerializable_of_always (.load _) (by decide)
  refine ⟨trivial, trivial, ?_, ?_, trivial⟩
  · rintro - pid comm ⟨_⟩
    exact .inl rfl
  · intro h
    contradiction

end LostUpdate
end Api
