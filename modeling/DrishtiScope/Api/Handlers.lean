import DrishtiScope.Api.Server
import DrishtiScope.Api.Target
import DrishtiScope.Go.Json

open Go ReadModifyWrite

namespace Api

def buildHello (env : Env) (s : Server) : Protocol.Hello :=
  let (pid, comm) := s.cfg.target
  {
    schema         := Protocol.schemaVersion
    hostname       := env.hostname
    kernel         := env.kernel
    ebpfFailReason := s.modeReason
    product        := str "DrishtiScope"
    target         := ⟨pid, comm⟩
  }

def handleHealth : Handler := fun env _ x =>
  let s := x.server
  let (pid, comm) := s.cfg.target
  .ok <| x.writeJSON 200 <| .health {
    ok      := true
    product := str "DrishtiScope"
    mode    := s.mode
    uptimeS := (env.now.sub s.started).seconds
    clients := s.hub.clientCount
    target  := ⟨pid, comm⟩
  }

def handleBorgHealth : Handler := fun _ _ x =>
  let x := x.set (str "Content-Type") (str "text/plain; charset=utf-8")
  .ok <| (x.writeHeader 200).write (.text <| str "ok\n")

def handleMeta : Handler := fun env _ x =>
  .ok <| x.writeJSON 200 (.hello <| buildHello env x.server)

-- The envelope is put together here, with the fields that `Marshal` gives it.
def handleSnapshot : Handler := fun env _ x =>
  let s := x.server
  .ok <| x.writeJSON 200 <| .snapshot <| 
    Protocol.marshal env.now Protocol.kindSnapshot s.mode s.builder.latestSnapshot

section

variable [Unicode]

namespace TargetRequest

-- Other fields are not allowed. A field that occurs twice has its last value.
def withField (r : TargetRequest) (field : Bytes × Json Bytes) : Option TargetRequest :=
  let (key, v) := field
  if key.equalFold (str "pid") then
    v.toIntPtr.map fun pid => { r with pid }
  else if key.equalFold (str "comm") then
    v.toStringPtr.map fun comm => { r with comm }
  else
    none

def decode (body : Bytes) (complete : Bool) : Option TargetRequest := do
  match ← Json.decode body complete with
  | .null          => some ⟨none, none⟩
  | .object fields => fields.foldlM withField ⟨none, none⟩
  | _              => none

end TargetRequest

def handleTarget : Handler := fun _ r x =>
  let cfg := x.server.cfg
  let ct := r.header.get (str "Content-Type")
  if ct ≠ [] ∧ !ct.toLower.hasPrefix (str "application/json") then
    .ok <| x.writeError 415 (str "content-type must be application/json")
  else
    let (body, complete) := (r.limitBody cfg.maxBodyBytes).readBody
    match TargetRequest.decode body complete with
    | none        => .ok <| x.writeError 400 (str "invalid json")
    | some target =>
      if !target.isComplete then
        .ok <| x.writeError 400 (str "pid or comm required")
      else
        let (pid, comm) := target.merge cfg.target
        match cfg.setTarget pid comm with
        | .error msg => .ok <| x.writeError 400 msg
        | .ok cfg    => 
          let (pid, comm) := cfg.target
          let x := { x with server := { x.server with cfg } }
          let x := x.event (str "target_change") (clientIP r cfg.trustProxy) (str "ok") comm
          .ok <| x.writeJSON 200 (.target true pid comm)

def isWrongType (r : Request) : Bool :=
  let ct := r.header.get (str "Content-Type")
  ct ≠ [] ∧ !ct.toLower.hasPrefix (str "application/json")

-- What the body asks for.
def decodeTarget (cfg : Config) (r : Request) : Option TargetRequest :=
  let body := (r.limitBody cfg.maxBodyBytes).readBody
  TargetRequest.decode body.fst body.snd

-- A request that is understood is served without interruption, and any other leaves the configuration alone.
theorem handleTarget_cfg {env : Env} {r : Request} {x : Exchange} : 
    ∃ y, handleTarget env r x = .ok y ∧ y.server.cfg = 
      if isWrongType r then x.server.cfg else
        ((decodeTarget x.server.cfg r).filter (·.isComplete)).elim x.server.cfg fun target => 
          (targetSystem fun _ : Unit => target).serve x.server.cfg () := by
  simp only [handleTarget]
  split
  case isTrue h  => 
    have hw : isWrongType r := by simpa [isWrongType] using h
    exact ⟨_, rfl, by rw [if_pos hw]; rfl⟩
  case isFalse h =>
    have hw : ¬isWrongType r := by simpa [isWrongType] using h
    rw [if_neg hw]
    split
    case h_1 hd        =>
      change decodeTarget _ _ = none at hd
      exact ⟨_, rfl, by rw [hd]; rfl⟩
    case h_2 target hd =>
      change decodeTarget _ _ = some target at hd
      rw [hd]
      split
      case isTrue hc  => exact ⟨_, rfl, by rw [Option.filter_some_neg (by simpa using hc)]; rfl⟩
      case isFalse hc =>
        rw [Option.filter_some_pos (by simpa using hc)]
        split
        case h_1 hs => 
          refine ⟨_, rfl, ?_⟩
          simp only [Option.elim_some, System.serve, targetSystem, hs, Except.toOption, Option.getD_none]
          rfl
        case h_2 hs =>
          refine ⟨_, rfl, ?_⟩
          simp only [Option.elim_some, System.serve, targetSystem, hs, Except.toOption, Option.getD_some]
          rfl

def queryLimit (r : Request) : Int :=
  r.query.get (str "limit") |>.atoi |>.fst

def handleHistory : Handler := fun env r x =>
  let s := x.server
  let limit := Config.clampLimit (queryLimit r) 100 s.cfg.maxHistory
  let comm := Config.sanitizeComm (r.query.get <| str "comm")
  match s.db.queryHistory env.query limit comm with
  | .error _   => .ok <| x.writeError 500 (str "query failed")
  | .ok points => .ok <| x.writeJSON 200 (.history points)

def handleEventsHistory : Handler := fun env r x =>
  let s := x.server
  let limit := Config.clampLimit (queryLimit r) 50 s.cfg.maxHistory
  match s.db.queryEvents env.query limit with
  | .error _ => .ok <| x.writeError 500 (str "query failed")
  | .ok rows => .ok <| x.writeJSON 200 (.events rows)

-- The connection is handed over with the two frames that greet the client.
def handleWS 
    (serveWS : Protocol.Envelope Protocol.Hello → Protocol.Envelope Agg.Snapshot → Handler) : 
    Handler := fun env r x =>
  let s := x.server
  if s.hub.maxClients ≤ s.hub.clientCount then
    .ok <| x.writeError 503 (str "too many connections")
  else
    let hello := Protocol.marshal env.now Protocol.kindHello s.mode (buildHello env s)
    let snap := Protocol.marshal env.now Protocol.kindSnapshot s.mode s.builder.latestSnapshot
    serveWS hello snap env r x

def handleNotFound : Handler := fun _ _ x =>
  let x := x.set (str "Content-Type") (str "text/plain; charset=utf-8")
  let x := x.set (str "X-Content-Type-Options") (str "nosniff")
  .ok <| (x.writeHeader 404).write (.text <| str "404 page not found\n")

-- The handlers that are left open: they may read and change everything. The last one redirects requests
-- for a path that is not canonical.
structure OtherHandlers where
  prometheusMetrics : Handler
  perfettoTraces    : Handler
  cloudLogging      : Handler
  chat              : Handler
  serveWS           : Protocol.Envelope Protocol.Hello → Protocol.Envelope Agg.Snapshot → Handler
  spa               : Option Handler
  notCanonical      : Handler

def routes (other : OtherHandlers) : List (Bytes × Handler) :=
  let get := allowMethods [methodGet]
  let post := allowMethods [methodPost]
  [
    (str "/api/health", get handleHealth),
    (str "/healthz", get handleBorgHealth),
    (str "/livez", get handleBorgHealth),
    (str "/readyz", get handleBorgHealth),
    (str "/metrics", get other.prometheusMetrics),
    (str "/api/v1/traces/perfetto", get other.perfettoTraces),
    (str "/api/v1/logs", get other.cloudLogging),
    (str "/api/v1/chat", post other.chat),
    (str "/api/meta", get handleMeta),
    (str "/api/snapshot", get handleSnapshot),
    (str "/api/target", post handleTarget),
    (str "/api/history", get handleHistory),
    (str "/api/events/history", get handleEventsHistory),
    (str "/ws", get <| handleWS other.serveWS)
  ]

def serveMux (other : OtherHandlers) : Handler := fun env r x =>
  if !ServeMux.isCanonical r then
    other.notCanonical env r x
  else
    match (routes other).find? fun route => ServeMux.isMatch route.fst r with
    | some (_, handler) => handler env r x
    | none              => (other.spa.getD handleNotFound) env r x

def handler (other : OtherHandlers) : Env → Request → Exchange → Exchange :=
  recoverMiddleware <| middleware <| serveMux other

-- One request, from the start of its handler to its end.
def Server.serve (s : Server) (other : OtherHandlers) (env : Env) (r : Request) : Exchange :=
  handler other env r { server := s }

end
end Api
