import DrishtiScope.Api.Auth
import DrishtiScope.Api.RateLimit
import DrishtiScope.Audit.Audit
import DrishtiScope.Hub.Hub
import DrishtiScope.Storage.Store

open Go

namespace Protocol

def schemaVersion : Int := 1

def kindSnapshot := str "snapshot"
def kindHello := str "hello"
def kindEvent := str "event"

structure Hello where
  schema         : Int
  hostname       : Bytes
  kernel         : Bytes
  ebpfFailReason : Bytes
  product        : Bytes
  target         : Agg.Target

structure Envelope (α : Type) where
  v       : Int
  kind    : Bytes
  ts      : Bytes
  mode    : Bytes
  payload : α

-- The payload can always be encoded, as its numbers are finite.
def marshal {α : Type} (now : Time) (kind mode : Bytes) (payload : α) : Envelope α where
  v       := schemaVersion
  kind    := kind
  ts      := now.rfc3339UTC
  mode    := mode
  payload := payload

-- A frame is represented by the envelope that it contains.
inductive Frame
  | hello (e : Envelope Hello)
  | snapshot (e : Envelope Agg.Snapshot)
  | event (e : Envelope Agg.EventRow)

end Protocol

-- The HTTP server.
namespace Api

structure Health where
  ok      : Bool
  product : Bytes
  mode    : Bytes
  uptimeS : ℚ
  clients : Int
  target  : Agg.Target

-- What is written to the body of a response: a text, or a value that is encoded as JSON.
inductive Payload
  | text (s : Bytes)
  | error (ok : Bool) (error : Bytes)
  | health (h : Health)
  | hello (h : Protocol.Hello)
  | snapshot (e : Protocol.Envelope Agg.Snapshot)
  | target (ok : Bool) (pid : Int) (comm : Bytes)
  | history (points : List Storage.SnapshotHistoryPoint)
  | events (rows : List Agg.EventRow)

structure Server where
  cfg        : Config
  hub        : Hub
  builder    : Agg.SnapshotBuilder
  mode       : Bytes
  modeReason : Bytes
  db         : Storage.Store
  started    : Time
  apiLimit   : Limiter
  authLimit  : Limiter

def newServer (cfg : Config) (h : Hub) (builder : Agg.SnapshotBuilder) (mode modeReason : Bytes) 
    (db : Storage.Store) (now : Time) : Server where
  cfg        := cfg
  hub        := h
  builder    := builder
  mode       := mode
  modeReason := modeReason
  db         := db
  started    := now
  apiLimit   := .newLimiter cfg.rateLimitRPS cfg.rateLimitBurst now
  authLimit  := .newLimiter (1 / 5) 10 now

-- What a request reads of its environment: the clock, each time that it does, the names of the host,
-- and how its query of the store turns out.
structure Env where
  apiLimitNow  : Time
  authLimitNow : Time
  now          : Time
  hostname     : Bytes
  kernel       : Bytes
  query        : Storage.Outcome

-- The server and the response while a request is handled, and the lines that it leaves in the log.
structure Exchange where
  server : Server
  writer : ResponseWriter Payload := {}
  audit  : List Audit.Line        := []

-- A handler that panics yields an error.
abbrev Handler := Env → Request → Exchange → Except Exchange Exchange

namespace Exchange

def set (x : Exchange) (key value : Bytes) : Exchange :=
  { x with writer := x.writer.set key value }

def setAll (x : Exchange) (header : Header) : Exchange :=
  { x with writer := x.writer.setAll header }

def writeHeader (x : Exchange) (status : Nat) : Exchange :=
  { x with writer := x.writer.writeHeader status }

def write (x : Exchange) (p : Payload) : Exchange :=
  { x with writer := x.writer.write p }

def event (x : Exchange) (action ip result detail : Bytes) : Exchange :=
  { x with audit := x.audit ++ [Audit.event action ip result detail] }

def writeJSON (x : Exchange) (status : Nat) (v : Payload) : Exchange :=
  let x := x.set (str "Content-Type") (str "application/json; charset=utf-8")
  (x.writeHeader status).write v

def writeError (x : Exchange) (status : Nat) (msg : Bytes) : Exchange :=
  x.writeJSON status (.error false msg)

def allowApi (x : Exchange) (env : Env) (ip : Bytes) : Bool × Exchange :=
  let result := x.server.apiLimit.allow env.apiLimitNow ip
  (result.fst, { x with server := { x.server with apiLimit := result.snd } })

def allowAuth (x : Exchange) (env : Env) (ip : Bytes) : Bool × Exchange :=
  let result := x.server.authLimit.allow env.authLimitNow ip
  (result.fst, { x with server := { x.server with authLimit := result.snd } })

def response (x : Exchange) : Response Payload :=
  x.writer.response

variable {x : Exchange} {key value ip action result detail msg : Bytes} {header : Header} 
         {status : Nat} {env : Env}

-- Only the limiters change while a response is written.
@[simp]
theorem setAll_server : (x.setAll header).server = x.server :=
  rfl

@[simp]
theorem writeHeader_server : (x.writeHeader status).server = x.server :=
  rfl

@[simp]
theorem event_server : (x.event action ip result detail).server = x.server :=
  rfl

@[simp]
theorem set_server : (x.set key value).server = x.server :=
  rfl

@[simp]
theorem writeError_server : (x.writeError status msg).server = x.server :=
  rfl

@[simp]
theorem allowApi_cfg : (x.allowApi env ip).snd.server.cfg = x.server.cfg := by
  simp only [allowApi]

@[simp]
theorem allowAuth_cfg : (x.allowAuth env ip).snd.server.cfg = x.server.cfg := by
  simp only [allowAuth]

end Exchange

-- The paths that are never cached and that are limited.
def isApiPath (path : Bytes) : Bool :=
  path.hasPrefix (str "/api") || path = str "/ws"

def csp : Bytes :=
  str "default-src 'self'; script-src 'self'; style-src 'self' 'unsafe-inline'; " ++
  str "font-src 'self' data:; img-src 'self' data:; connect-src 'self' ws: wss:; " ++
  str "frame-ancestors 'none'; base-uri 'self'; form-action 'self'; object-src 'none'"

def securityHeaders (r : Request) : Header := [
  (str "X-Content-Type-Options", str "nosniff"),
  (str "X-Frame-Options", str "DENY"),
  (str "Referrer-Policy", str "no-referrer"),
  (str "X-XSS-Protection", str "0"),
  (str "Permissions-Policy", str "camera=(), microphone=(), geolocation=(), payment=(), usb=()"),
  (str "Cross-Origin-Opener-Policy", str "same-origin"),
  (str "X-DNS-Prefetch-Control", str "off"),
  (str "Content-Security-Policy", csp)
] ++ (
  if r.isTLS then [(str "Strict-Transport-Security", str "max-age=63072000; includeSubDomains")] else []
) ++ (
  if isApiPath r.path then [(str "Cache-Control", str "no-store")] else []
)

def corsHeaders (origin : Bytes) : Header := [
  (str "Access-Control-Allow-Origin", origin),
  (str "Vary", str "Origin"),
  (str "Access-Control-Allow-Methods", str "GET, POST, OPTIONS"),
  (str "Access-Control-Allow-Headers", str "Content-Type, Authorization"),
  (str "Access-Control-Max-Age", str "600")
]

section Middleware

variable [Unicode]

def cors (r : Request) (ip : Bytes) (x : Exchange) : Exchange :=
  let origin := r.header.get (str "Origin")
  if origin ≠ [] ∧ x.server.cfg.originAllowed origin then
    x.setAll (corsHeaders origin)
  else if origin ≠ [] then
    x.event (str "cors_reject") ip (str "deny") origin
  else
    x

def limitBody (cfg : Config) (r : Request) : Request :=
  if 0 < cfg.maxBodyBytes then r.limitBody cfg.maxBodyBytes else r

def throttle (env : Env) (r : Request) (ip : Bytes) (x : Exchange) : Bool × Exchange :=
  if isApiPath r.path then x.allowApi env ip else (true, x)

-- The answer to a request without the token.
def rejectToken (env : Env) (r : Request) (ip : Bytes) (x : Exchange) : Exchange :=
  let result := x.allowAuth env ip
  let x := result.snd
  if !result.fst then
    let x := x.event (str "auth_lockout") ip (str "deny") r.path
    x.writeError 429 (str "too many auth failures")
  else
    let x := x.event (str "auth_fail") ip (str "deny") (r.method ++ str " " ++ r.path)
    let x := x.set (str "WWW-Authenticate") (str "Bearer realm=\"drishtiscope\"")
    x.writeError 401 (str "unauthorized")

def rejectAccess (r : Request) (ip : Bytes) (x : Exchange) : Exchange :=
  let x := x.event (str "access_reject") ip (str "deny") (r.method ++ str " " ++ r.path)
  x.writeError 403 (str "set AUTH_TOKEN to expose this API")

def middleware (next : Handler) : Handler := fun env r x =>
  let cfg := x.server.cfg
  let ip := clientIP r cfg.trustProxy
  let x := cors r ip (x.setAll (securityHeaders r))
  if r.method = methodOptions then
    .ok <| x.writeHeader 204
  else
    let r := limitBody cfg r
    let result := throttle env r ip x
    let x := result.snd
    if !result.fst then
      let x := x.event (str "rate_limit") ip (str "deny") (r.method ++ str " " ++ r.path)
      .ok <| x.writeError 429 (str "rate limit exceeded")
    else if isPublicPath r.path then
      next env r x
    else if cfg.hasAuth then
      if !tokenOK (bearerToken r) cfg.authToken then
        .ok <| rejectToken env r ip x
      else
        next env r x
    else if !isLoopbackIP ip then
      .ok <| rejectAccess r ip x
    else
      next env r x

end Middleware

def recoverMiddleware (next : Handler) (env : Env) (r : Request) (x : Exchange) : Exchange :=
  match next env r x with
  | .ok x    => x
  | .error x =>
    let x := x.event (str "panic") (clientIP r false) (str "error") (str "recovered")
    x.writeError 500 (str "internal error")

def allowMethods (methods : List Bytes) (next : Handler) : Handler := fun env r x =>
  if methods.all (r.method ≠ ·) then
    let x := x.set (str "Allow") ((str ", ").intercalate methods)
    .ok <| x.writeError 405 (str "method not allowed")
  else
    next env r x

end Api
