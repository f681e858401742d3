import DrishtiScope.Api.Origin
import DrishtiScope.Config.Idempotence

open Go

-- What happens to the stored comm when it is submitted again.
namespace Api.Resubmit

section

variable [Unicode]

-- What changes the target of a configuration that has been loaded.
inductive Submission
  | flags (f : Config.Flags)
  | target (pid : Int) (comm : Bytes)

-- A target that is rejected changes nothing.
def submit (cfg : Config) : Submission → Config
  | .flags f         => cfg.parseFlags f
  | .target pid comm => (cfg.setTarget pid comm).toOption.getD cfg

-- The target that is installed is not one that is cut. The flags are sanitized twice.
def Submission.Uncut : Submission → Prop
  | .flags _         => True
  | .target pid comm => (0 ≤ pid ∧ pid ≤ Config.maxPID) → ¬Config.Cut comm

-- Submitting the stored comm succeeds, and keeps it.
def Succeeds (cfg : Config) : Prop :=
  ∀ pid, (0 ≤ pid ∧ pid ≤ Config.maxPID) → 
    ∃ cfg', cfg.setTarget pid cfg.targetComm = .ok cfg' ∧ cfg'.targetComm = cfg.targetComm

-- The response to a target that has been installed.
def accepted (r : Request) (x : Exchange) (cfg : Config) : Exchange :=
  let x := { x with server := { x.server with cfg } }
  let x := x.event (str "target_change") (clientIP r cfg.trustProxy) (str "ok") cfg.targetComm
  x.writeJSON 200 (.target true cfg.targetPid cfg.targetComm)

-- POST /api/target with only a valid pid is accepted, and keeps the comm.
def AcceptsPid (cfg : Config) : Prop :=
  ∀ env r x pid, x.server.cfg = cfg → ¬isWrongType r → decodeTarget cfg r = some ⟨some pid, none⟩ → 
    (0 ≤ pid ∧ pid ≤ Config.maxPID) → 
      handleTarget env r x = .ok (accepted r x { cfg with targetPid := pid })

def Resubmittable (cfg : Config) : Prop :=
  Succeeds cfg ∧ AcceptsPid cfg

end

section

variable [Unicode] {cfg cfg' : Config} {s : Submission} {pid : Int} {comm : Bytes} {x : Exchange} 
         {r : Request} {env : Env}

-- The comm that is stored is the one that is stored when it is submitted.
def Stable (cfg : Config) : Prop :=
  Config.sanitizeComm cfg.targetComm = cfg.targetComm

theorem succeeds_iff : Succeeds cfg ↔ Stable cfg := by
  by_cases hc : cfg.targetComm = []
  case pos =>
    refine iff_of_true (fun pid hp => ?_) (by rw [Stable, hc, Config.sanitizeComm_nil])
    refine ⟨_, Config.setTarget_ok_iff.mpr ⟨hp, fun hn => absurd hc hn, rfl⟩, ?_⟩
    rw [Config.installComm, if_pos hc]
  case neg =>
    constructor
    case mp =>
      intro h
      obtain ⟨cfg', hs, he⟩ := h 0 ⟨le_rfl, by decide⟩
      rwa [Config.setTarget_targetComm hs, Config.installComm, if_neg hc] at he
    case mpr =>
      intro h pid hp
      refine ⟨_, Config.setTarget_ok_iff.mpr ⟨hp, fun _ => h.symm ▸ hc, rfl⟩, ?_⟩
      rwa [Config.installComm, if_neg hc]

theorem setTarget_stable (h : Stable cfg) (hp : 0 ≤ pid ∧ pid ≤ Config.maxPID) : 
    cfg.setTarget pid cfg.targetComm = .ok { cfg with targetPid := pid } := by
  refine Config.setTarget_ok_iff.mpr ⟨hp, fun hn => h.symm ▸ hn, ?_⟩
  have hc : Config.installComm cfg.targetComm cfg.targetComm = cfg.targetComm := by
    rw [Config.installComm, h, ite_self]
  rw [hc]

-- The handler submits the stored comm with the pid of the request.
theorem acceptsPid_of_stable (h : Stable cfg) : AcceptsPid cfg := by
  rintro env r x pid rfl hw hd hp
  have hw : ¬(r.header.get (str "Content-Type") ≠ [] ∧ 
      (!(r.header.get <| str "Content-Type").toLower.hasPrefix (str "application/json")) = true) := by 
    simpa [isWrongType] using hw
  rw [decodeTarget] at hd
  have hs := setTarget_stable h hp
  simp only [handleTarget, if_neg hw, hd, TargetRequest.isComplete, TargetRequest.merge, Config.target, hs]
  rfl

theorem resubmittable_iff : Resubmittable cfg ↔ Stable cfg :=
  ⟨fun h => succeeds_iff.mp h.left, fun h => ⟨succeeds_iff.mpr h, acceptsPid_of_stable h⟩⟩

theorem stable_normalize_iff : Stable cfg.normalize ↔ ¬Config.Cut cfg.targetComm :=
  Config.sanitizeComm_sanitizeComm_iff

-- Once it has been sanitized twice, a comm stays as it is.
theorem stable_normalize_of_sanitized (h : Config.Sanitized cfg.targetComm) : Stable cfg.normalize := by
  change Config.sanitizeComm (Config.sanitizeComm cfg.targetComm) = Config.sanitizeComm cfg.targetComm
  cases h.sanitizeComm_eq
  case inl he => rw [he, he]
  case inr he => rw [he, Config.sanitizeComm_nil]

theorem wellFormed_target (hw : cfg.WellFormed) : 
    ((cfg.setTarget pid comm).toOption.getD cfg).WellFormed := by
  cases hs : cfg.setTarget pid comm
  case error => exact hw
  case ok    => exact hw.setTarget hs

theorem wellFormed_submit (hw : cfg.WellFormed) : (submit cfg s).WellFormed := by
  cases s
  case flags  => exact .normalize _
  case target => exact wellFormed_target hw

theorem stable_parseFlags (hw : cfg.WellFormed) (f : Config.Flags) : Stable (cfg.parseFlags f) := by
  apply stable_normalize_of_sanitized
  apply Config.WellFormed.comm
  exact wellFormed_target ⟨hw.pid, hw.comm⟩

theorem stable_target_iff (h : Stable cfg) : 
    Stable ((cfg.setTarget pid comm).toOption.getD cfg) ↔ 
      ((0 ≤ pid ∧ pid ≤ Config.maxPID) → ¬Config.Cut comm) := by
  cases hs : cfg.setTarget pid comm
  case ok cfg'  =>
    obtain ⟨hp, hc, rfl⟩ := Config.setTarget_ok_iff.mp hs
    change Config.sanitizeComm (Config.installComm _ comm) = Config.installComm _ comm ↔ _
    rw [imp_iff_right hp, ← Config.sanitizeComm_sanitizeComm_iff, Config.installComm]
    split
    case isTrue hn => exact iff_of_true h (by rw [hn, Config.sanitizeComm_nil, Config.sanitizeComm_nil])
    case isFalse   => exact Iff.rfl
  case error =>
    refine iff_of_true h fun hp hc => ?_
    obtain ⟨_, ho⟩ := Config.setTarget_isOk_iff (c := cfg) |>.mpr ⟨hp, fun _ => hc.sanitizeComm_ne_nil⟩
    rw [hs] at ho
    contradiction

theorem stable_submit_iff (hw : cfg.WellFormed) (h : Stable cfg) : Stable (submit cfg s) ↔ s.Uncut := by
  cases s
  case flags f => exact iff_of_true (stable_parseFlags hw f) trivial
  case target  => exact stable_target_iff h

-- Sanitizing is idempotent except where it cuts a rune. In a run, the stored comm can always be submitted 
-- again if and only if no comm has been cut that the environment or a request has installed.
theorem idempotent_and_resubmittable_iff : 
    (∀ comm, Config.sanitizeComm (Config.sanitizeComm comm) = Config.sanitizeComm comm ↔ 
      ¬Config.Cut comm) ∧
    ∀ env ss, 
      Resubmittable (Config.normalize env) ∧ 
        Execution.Always submit (fun cfg s => Resubmittable (submit cfg s)) (Config.normalize env) ss ↔ 
      ¬Config.Cut env.targetComm ∧ 
        Execution.Always submit (fun _ s => s.Uncut) (Config.normalize env) ss := by
  refine ⟨fun comm => Config.sanitizeComm_sanitizeComm_iff, fun env ss => ?_⟩
  simp only [resubmittable_iff, stable_normalize_iff]
  refine and_congr_right fun hc => ?_
  apply Execution.Always.congr (I := fun cfg => cfg.WellFormed ∧ Stable cfg)
  case hs  => exact ⟨.normalize env, stable_normalize_iff.mpr hc⟩
  case hk  => exact fun cfg s hi hs => ⟨wellFormed_submit hi.left, hs⟩
  case hpq => exact fun cfg s hi => stable_submit_iff hi.left hi.right

end

section Accents

attribute [local instance] Unicode.latin

-- Eight letters, each of which takes two bytes.
def accents : Bytes :=
  str "éééééééé"

-- The half of a letter that is left at the end makes the comm invalid.
theorem not_idempotent_accents : 
    (¬∀ comm, Config.sanitizeComm (Config.sanitizeComm comm) = Config.sanitizeComm comm) ∧ 
    ¬∀ env ss, Resubmittable (Config.normalize env) ∧ 
      Execution.Always submit (fun cfg s => Resubmittable (submit cfg s)) (Config.normalize env) ss := by
  constructor
  case left  => exact fun h => absurd (h accents) (by decide)
  case right =>
    intro h
    have hs := resubmittable_iff.mp (h { agy with targetComm := accents } []).left
    exact absurd hs (by simp only [Stable]; decide)

end Accents
end Api.Resubmit
