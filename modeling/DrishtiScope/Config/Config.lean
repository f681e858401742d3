import DrishtiScope.Config.Validate
import DrishtiScope.Go.Strconv

open Go

-- The mutex only makes the accesses of the target atomic: `target` and `setTarget` are one step each.
structure Config where
  httpAddr        : Bytes
  mode            : Bytes
  snapshotMs      : Int
  staticDir       : Bytes
  dbPath          : Bytes
  corsOrigins     : List Bytes
  allowInsecureWS : Bool
  maxBodyBytes    : Int
  maxWSClients    : Int
  maxHistory      : Int
  shutdownTimeout : Int
  authToken       : Bytes
  trustProxy      : Bool
  rateLimitRPS    : ℚ
  rateLimitBurst  : Int
  targetPid       : Int
  targetComm      : Bytes

namespace Config

-- The values of the variables are strings of C. A variable that is not set is empty.
structure Environment where
  getenv    : Bytes → Bytes
  not_mem_0 : ∀ key, 0 ∉ getenv key

namespace Environment

variable (env : Environment)

def envOr (key fallback : Bytes) : Bytes :=
  if env.getenv key ≠ [] then env.getenv key else fallback

def envInt (key : Bytes) (fallback : Int) : Int :=
  if env.getenv key ≠ [] then
    match (env.getenv key).atoi with
    | (n, none) => n
    | _         => fallback
  else
    fallback

def envBool [Unicode] (key : Bytes) (fallback : Bool) : Bool :=
  let v := (env.getenv key).toLower.trimSpace
  if [str "1", str "true", str "yes", str "on"].contains v then
    true
  else if [str "0", str "false", str "no", str "off"].contains v then
    false
  else
    fallback

-- The variables that are set.
def ofList (vars : List (Bytes × Bytes)) : Environment where
  getenv key    := ((vars.lookup key).getD []).takeWhile (· ≠ 0)
  not_mem_0 _ h := by simpa using List.mem_takeWhile_imp h

end Environment

def defaultHTTPAddr := str ":8080"
def defaultComm := str "agy"
def defaultMode := str "auto"
def defaultSnapshotMs : Int := 1500
def defaultDBPath := str "drishtiscope.db"
def defaultMaxBody : Int := 64 * 1024
def defaultMaxWS : Int := 128
def defaultMaxHistory : Int := 500
-- Ten seconds, in nanoseconds.
def defaultShutdown : Int := 10000000000

def defaultOrigins : Bytes :=
  [44].intercalate [
    str "http://localhost:5173",
    str "http://127.0.0.1:5173",
    str "http://localhost:8080",
    str "http://127.0.0.1:8080"
  ]

def parseOrigins (raw : Bytes) : List Bytes :=
  ((raw.splitByte 44).map (·.trimSpace)).filter (· ≠ [])

def hasAuth (c : Config) : Bool :=
  c.authToken ≠ []

def originAllowed [Unicode] (c : Config) (origin : Bytes) : Bool :=
  if origin = [] then
    false
  else
    c.corsOrigins.any fun o => o = str "*" || o.equalFold origin

variable [Unicode]

def normalize (c : Config) : Config where
  __ := c
  snapshotMs :=
    let ms := if c.snapshotMs < 50 then defaultSnapshotMs else c.snapshotMs
    if 10_000 < ms then 10_000 else ms
  maxBodyBytes    := if c.maxBodyBytes ≤ 0 then defaultMaxBody else c.maxBodyBytes
  maxWSClients    := if c.maxWSClients ≤ 0 then defaultMaxWS else c.maxWSClients
  maxHistory      := if c.maxHistory ≤ 0 ∨ 5000 < c.maxHistory then defaultMaxHistory else c.maxHistory
  shutdownTimeout := if c.shutdownTimeout ≤ 0 then defaultShutdown else c.shutdownTimeout
  rateLimitRPS    := if c.rateLimitRPS ≤ 0 then 40 else c.rateLimitRPS
  rateLimitBurst  := if c.rateLimitBurst ≤ 0 then 80 else c.rateLimitBurst
  targetComm      := sanitizeComm c.targetComm
  targetPid       := if c.targetPid < 0 ∨ maxPID < c.targetPid then 0 else c.targetPid

-- The error if the configuration cannot be used. `quote` stands for `%q`.
omit [Unicode] in
def validate (quote : Bytes → Bytes) (c : Config) : Except Bytes Unit :=
  if c.mode ≠ str "auto" ∧ c.mode ≠ str "ebpf" ∧ c.mode ≠ str "real" ∧ c.mode ≠ str "mock" then
    .error <| str "invalid mode " ++ quote c.mode ++ str " (want auto|ebpf|real|mock)"
  else if c.httpAddr = [] then
    .error <| str "http listen address is empty"
  else if c.snapshotMs < 50 ∨ 10_000 < c.snapshotMs then
    .error <| str "snapshot-ms out of range"
  else if c.authToken ≠ [] ∧ c.authToken.length < 16 then
    .error <| str "AUTH_TOKEN must be at least 16 characters"
  else
    .ok ()

def load (env : Environment) : Config :=
  normalize {
    httpAddr        := env.envOr (str "HTTP_ADDR") defaultHTTPAddr
    mode            := (env.envOr (str "MODE") defaultMode).toLower
    snapshotMs      := env.envInt (str "SNAPSHOT_MS") defaultSnapshotMs
    targetPid       := env.envInt (str "TARGET_PID") 0
    targetComm      := env.envOr (str "TARGET_COMM") defaultComm
    staticDir       := env.envOr (str "STATIC_DIR") []
    dbPath          := env.envOr (str "DB_PATH") defaultDBPath
    corsOrigins     := parseOrigins <| env.envOr (str "CORS_ORIGINS") defaultOrigins
    allowInsecureWS := env.envBool (str "WS_INSECURE") false
    maxBodyBytes    := env.envInt (str "MAX_BODY_BYTES") defaultMaxBody
    maxWSClients    := env.envInt (str "MAX_WS_CLIENTS") defaultMaxWS
    maxHistory      := env.envInt (str "MAX_HISTORY") defaultMaxHistory
    -- The product wraps around.
    shutdownTimeout := int64 <| env.envInt (str "SHUTDOWN_TIMEOUT_SEC") 10 * 1000000000
    authToken       := env.getenv (str "AUTH_TOKEN")
    trustProxy      := env.envBool (str "TRUST_PROXY") false
    rateLimitRPS    := float64 <| env.envInt (str "RATE_LIMIT_RPS") 40
    rateLimitBurst  := env.envInt (str "RATE_LIMIT_BURST") 80
  }

def loadTarget (pid : Int) (comm : Bytes) : Config :=
  load <| .ofList [(str "TARGET_PID", itoa pid), (str "TARGET_COMM", comm)]

def target (c : Config) : Int × Bytes :=
  (c.targetPid, c.targetComm)

-- An empty comm keeps the previous comm, pid 0 means "match by comm".
def setTarget (c : Config) (pid : Int) (comm : Bytes) : Except Bytes Config := do
  validatePID pid
  if comm ≠ [] then
    let comm := sanitizeComm comm
    if comm = [] then
      throw <| str "invalid process comm"
    return { c with targetPid := pid, targetComm := comm }
  return { c with targetPid := pid }

-- The values of the command line, which default to those of the configuration.
structure Flags where
  addr       : Bytes
  mode       : Bytes
  comm       : Bytes
  pid        : Int
  snapshotMs : Int
  static     : Bytes
  db         : Bytes
  wsInsecure : Bool

def parseFlags (c : Config) (f : Flags) : Config :=
  let c := { c with
    httpAddr        := f.addr
    mode            := f.mode.toLower
    snapshotMs      := f.snapshotMs
    staticDir       := f.static
    dbPath          := f.db
    allowInsecureWS := f.wsInsecure
  }
  normalize <| (c.setTarget f.pid f.comm).toOption.getD c

variable {c c' : Config} {pid : Int} {comm : Bytes}

-- The configurations of a running daemon. `load` stands for any environment.
inductive Reachable : Config → Prop
  | load (c : Config) : Reachable (normalize c)
  | parseFlags {c : Config} (f : Flags) : Reachable c → Reachable (c.parseFlags f)
  | setTarget {c c' : Config} {pid : Int} {comm : Bytes} : 
    Reachable c → c.setTarget pid comm = .ok c' → Reachable c'

-- The comm that is stored when `comm` is installed over `old`.
def installComm (old comm : Bytes) : Bytes :=
  if comm = [] then old else sanitizeComm comm

-- Everything that `setTarget` can do.
theorem setTarget_ok_iff :
    c.setTarget pid comm = .ok c' ↔
      (0 ≤ pid ∧ pid ≤ maxPID) ∧ (comm ≠ [] → sanitizeComm comm ≠ []) ∧
      c' = { c with targetPid := pid, targetComm := installComm c.targetComm comm } := by
  by_cases hp : 0 ≤ pid ∧ pid ≤ maxPID
  case neg =>
    have hv : ¬validatePID pid = .ok () := mt validatePID_ok_iff.mp hp
    cases hv' : validatePID pid
    case ok    => contradiction
    case error => simp [setTarget, hv', hp, bind, Except.bind]
  case pos =>
    have hv : validatePID pid = .ok () := validatePID_ok_iff.mpr hp
    by_cases hc : comm = []
    case pos => simp [setTarget, installComm, hv, hp, hc, bind, Except.bind, pure, Except.pure,
      @eq_comm _ c']
    case neg =>
      by_cases hs : sanitizeComm comm = [] <;>
        simp [setTarget, installComm, hv, hp, hc, hs, bind, Except.bind, pure, Except.pure,
          @eq_comm _ c']

omit [Unicode] in
theorem snapshotMs_of_validate {quote : Bytes → Bytes} (h : c.validate quote = .ok ()) : 
    50 ≤ c.snapshotMs ∧ c.snapshotMs ≤ 10_000 := by
  simp only [validate] at h
  split at h <;> try contradiction
  split at h <;> try contradiction
  split at h <;> try contradiction
  omega

theorem toOption_setTarget : 
    (c.setTarget pid comm).toOption = some c' ↔ c.setTarget pid comm = .ok c' := by
  cases c.setTarget pid comm <;> simp [Except.toOption]

theorem setTarget_targetPid (h : c.setTarget pid comm = .ok c') : c'.targetPid = pid := by
  rw [setTarget_ok_iff.mp h |>.right |>.right]

theorem setTarget_targetComm (h : c.setTarget pid comm = .ok c') : 
    c'.targetComm = installComm c.targetComm comm := by
  rw [setTarget_ok_iff.mp h |>.right |>.right]

-- Whether a target is accepted does not depend on the target that is replaced.
theorem setTarget_isOk_iff : 
    (∃ c', c.setTarget pid comm = .ok c') ↔ 
      (0 ≤ pid ∧ pid ≤ maxPID) ∧ (comm ≠ [] → sanitizeComm comm ≠ []) := by
  simp [setTarget_ok_iff]

structure WellFormed (c : Config) : Prop where
  pid  : 0 ≤ c.targetPid ∧ c.targetPid ≤ maxPID
  comm : Sanitized c.targetComm

theorem WellFormed.normalize (c : Config) : WellFormed c.normalize where
  pid := by
    simp only [Config.normalize]
    split <;> simp_all [maxPID]
  comm := sanitizeComm_sanitized _

theorem WellFormed.setTarget (w : WellFormed c) (h : c.setTarget pid comm = .ok c') : 
    WellFormed c' where
  pid  := setTarget_targetPid h ▸ (setTarget_ok_iff.mp h).left
  comm := by
    rw [setTarget_targetComm h, installComm]
    split
    · exact w.comm
    · exact sanitizeComm_sanitized _

theorem Reachable.wellFormed (r : Reachable c) : WellFormed c := by
  induction r
  case load             => exact .normalize _
  case parseFlags       => exact .normalize _
  case setTarget _ h hi => exact hi.setTarget h

-- An empty comm and the stored one mean the same, unless the stored one is not accepted.
theorem WellFormed.setTarget_nil (w : WellFormed c) (hs : sanitizeComm c.targetComm ≠ []) : 
    c.setTarget pid [] = c.setTarget pid c.targetComm := by
  have he := w.comm.sanitizeComm_eq.resolve_right hs
  have hc : c.targetComm ≠ [] := he ▸ hs
  simp only [Config.setTarget, he, hc, ne_eq, not_true_eq_false, not_false_eq_true, if_false, if_true]

end Config
