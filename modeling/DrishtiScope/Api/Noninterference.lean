import DrishtiScope.Api.Handlers
import DrishtiScope.Lib.Noninterference

open Go Noninterference

-- Whoever is not allowed to see the data of the server learns nothing about it.
namespace Api

-- What only those who are allowed to do so may see and change.
structure Secrets where
  target  : Int × Bytes
  builder : Agg.SnapshotBuilder
  db      : Storage.Store
  hub     : Hub

namespace Server

def secrets (s : Server) : Secrets where
  target  := s.cfg.target
  builder := s.builder
  db      := s.db
  hub     := s.hub

def withSecrets (s : Server) (p : Secrets) : Server :=
  { s with
    cfg     := { s.cfg with targetPid := p.target.fst, targetComm := p.target.snd }
    builder := p.builder
    db      := p.db
    hub     := p.hub
  }

-- The servers differ in their secrets only.
def SamePublic (s₁ s₂ : Server) : Prop :=
  s₁.withSecrets s₂.secrets = s₂

def secretPart : Part Server Secrets where
  get         := secrets
  put         := withSecrets
  put_get _   := rfl
  get_put _ _ := rfl

end Server

namespace Exchange

def withSecrets (x : Exchange) (p : Secrets) : Exchange :=
  { x with server := x.server.withSecrets p }

-- What leaves the server when a request is handled: the response and the lines in the log.
def output (x : Exchange) : Response Payload × List Audit.Line :=
  (x.response, x.audit)

end Exchange

section

-- What the limiters decide is the same for both servers, whatever it is.
attribute [local irreducible] Limiter.allow

variable [Unicode] {env : Env} {r : Request} {x : Exchange} {p : Secrets} {ip : Bytes} 
         {other : OtherHandlers} {s s₁ s₂ : Server}

namespace Exchange

omit [Unicode]

@[simp]
theorem withSecrets_setAll {header : Header} : 
    (x.withSecrets p).setAll header = (x.setAll header).withSecrets p :=
  rfl

@[simp]
theorem withSecrets_allowApi : 
    (x.withSecrets p).allowApi env ip = 
      ((x.allowApi env ip).fst, (x.allowApi env ip).snd.withSecrets p) :=
  rfl

@[simp]
theorem withSecrets_allowAuth : 
    (x.withSecrets p).allowAuth env ip = 
      ((x.allowAuth env ip).fst, (x.allowAuth env ip).snd.withSecrets p) :=
  rfl

end Exchange

theorem cors_withSecrets : cors r ip (x.withSecrets p) = (cors r ip x).withSecrets p := by
  simp only [cors, apply_ite (Exchange.withSecrets · p)]
  rfl

omit [Unicode] in
theorem rejectToken_withSecrets : 
    rejectToken env r ip (x.withSecrets p) = (rejectToken env r ip x).withSecrets p := by
  simp only [rejectToken, Exchange.withSecrets_allowAuth, apply_ite (Exchange.withSecrets · p)]
  rfl

omit [Unicode] in
theorem throttle_withSecrets : 
    throttle env r ip (x.withSecrets p) = 
      ((throttle env r ip x).fst, (throttle env r ip x).snd.withSecrets p) := by
  simp only [throttle, Exchange.withSecrets_allowApi]
  split <;> rfl

omit [Unicode] in
theorem rejectAccess_withSecrets : 
    rejectAccess r ip (x.withSecrets p) = (rejectAccess r ip x).withSecrets p :=
  rfl

omit [Unicode] in
@[simp]
theorem limitBody_path {cfg : Config} : (limitBody cfg r).path = r.path := by
  rw [limitBody]
  split <;> rfl

@[simp]
theorem bearerToken_limitBody {cfg : Config} : bearerToken (limitBody cfg r) = bearerToken r := by
  rw [limitBody]
  split <;> rfl

-- Everything that a request without credentials can get.
def refuse (env : Env) (r : Request) (x : Exchange) : Exchange :=
  let cfg := x.server.cfg
  let ip := clientIP r cfg.trustProxy
  let x := cors r ip (x.setAll (securityHeaders r))
  if r.method = methodOptions then
    x.writeHeader 204
  else
    let r := limitBody cfg r
    let result := throttle env r ip x
    let x := result.snd
    if !result.fst then
      let x := x.event (str "rate_limit") ip (str "deny") (r.method ++ str " " ++ r.path)
      x.writeError 429 (str "rate limit exceeded")
    else if cfg.hasAuth then
      rejectToken env r ip x
    else
      rejectAccess r ip x

-- It is answered without the handler behind the middleware.
theorem middleware_eq_refuse {next : Handler} (hc : ¬Credentialed x.server.cfg r) 
    (hp : ¬isPublicPath r.path) : middleware next env r x = .ok (refuse env r x) := by
  simp only [middleware, refuse, limitBody_path, bearerToken_limitBody, if_neg hp]
  cases ha : x.server.cfg.hasAuth
  case false =>
    have hl := mt (credentialed_iff_isLoopbackIP <| by simp [ha]).mpr hc
    split_ifs <;> simp_all
  case true  =>
    have ht := mt (credentialed_iff_tokenOK ha).mpr hc
    split_ifs <;> simp_all

-- All other requests reach it, unless they are limited.
theorem middleware_eq_next {next : Handler} (hc : isPublicPath r.path ∨ Credentialed x.server.cfg r) 
    (ho : r.method ≠ methodOptions) : 
    let cfg := x.server.cfg
    let ip := clientIP r cfg.trustProxy
    let result := throttle env (limitBody cfg r) ip (cors r ip <| x.setAll <| securityHeaders r)
    result.fst → middleware next env r x = next env (limitBody cfg r) result.snd := by
  intro cfg ip result hl
  have hl' : ¬(!result.fst) = true := by simp [hl]
  simp only [middleware, limitBody_path, bearerToken_limitBody, if_neg ho]
  rw [if_neg hl']
  cases hc
  case inl hp => rw [if_pos hp]
  case inr hc =>
    cases ha : x.server.cfg.hasAuth
    case false =>
      have hi := (credentialed_iff_isLoopbackIP <| by simp [ha]).mp hc
      simp [hi, result, ip, cfg]
    case true  =>
      have ht := (credentialed_iff_tokenOK ha).mp hc
      simp [ht, result, ip, cfg]

theorem refuse_withSecrets : refuse env r (x.withSecrets p) = (refuse env r x).withSecrets p := by
  simp only [refuse, Exchange.withSecrets_setAll, cors_withSecrets, throttle_withSecrets, 
    rejectToken_withSecrets, rejectAccess_withSecrets, apply_ite (Exchange.withSecrets · p)]
  rfl

theorem serve_eq_refuse (hc : ¬Credentialed s.cfg r) (hp : ¬isPublicPath r.path) : 
    s.serve other env r = refuse env r { server := s } := by
  rw [Server.serve, handler, recoverMiddleware, middleware_eq_refuse hc hp]

-- The server as a system that answers one request after the other.
def Server.step (other : OtherHandlers) (s : Server) (request : Env × Request) : 
    Server × (Response Payload × List Audit.Line) :=
  let (env, r) := request
  let x := s.serve other env r
  (x.server, x.output)

-- Requests that are refused.
def Server.Unauthorized (s : Server) (request : Env × Request) : Prop :=
  ¬Credentialed s.cfg request.snd ∧ request.snd.path ≠ str "/api/health"

theorem Server.Unauthorized.step_eq {request : Env × Request} (h : s.Unauthorized request) : 
    s.step other request = 
      let x := refuse request.fst request.snd { server := s }
      (x.server, x.output) := by
  have hp : ¬isPublicPath request.snd.path := by simpa [isPublicPath] using h.right
  rw [step, serve_eq_refuse h.left hp]

theorem Server.Unauthorized.hides {request : Env × Request} (h : s.Unauthorized request) : 
    secretPart.Hides (step other) s request := by
  intro p
  have hp : (s.withSecrets p).Unauthorized request := h
  have he : refuse request.fst request.snd { server := s.withSecrets p } = 
      (refuse request.fst request.snd { server := s }).withSecrets p := 
    refuse_withSecrets (x := { server := s })
  rw [secretPart, hp.step_eq, h.step_eq, he]
  rfl

theorem Server.Unauthorized.of_samePublic {request : Env × Request} (h : s₁.Unauthorized request) 
    (hs : s₁.SamePublic s₂) : s₂.Unauthorized request := by
  rw [← hs]
  exact h

theorem serve_noninterfering (hs : s₁.SamePublic s₂) (hc : ¬Credentialed s₁.cfg r) 
    (hp : r.path ≠ str "/api/health") : 
    (s₁.serve other env r).response = (s₂.serve other env r).response ∧ 
    (s₁.serve other env r).server.secrets = s₁.secrets ∧
    (s₂.serve other env r).server.secrets = s₂.secrets := by
  have h₁ : s₁.Unauthorized (env, r) := ⟨hc, hp⟩
  have h₂ := h₁.of_samePublic hs
  have hh : Server.secretPart.Hides (Server.step other) s₁ (env, r) := h₁.hides
  exact ⟨congrArg Prod.fst (hh.output_eq hs).symm, hh.get_eq, h₂.hides.get_eq⟩

@[simp]
theorem cors_server : (cors r ip x).server = x.server := by
  rw [cors]
  split_ifs <;> rfl

omit [Unicode] in
@[simp]
theorem throttle_cfg : (throttle env r ip x).snd.server.cfg = x.server.cfg := by
  rw [throttle]
  split <;> rfl

theorem refuse_cfg : (refuse env r x).server.cfg = x.server.cfg := by
  simp only [refuse, rejectToken, rejectAccess]
  split_ifs <;> simp

-- Requests that are refused remain so.
theorem Server.Unauthorized.step {request request' : Env × Request} (h : s.Unauthorized request) 
    (h' : s.Unauthorized request') : (next (Server.step other) s request).Unauthorized request' := by
  rw [next, h.step_eq, Unauthorized, refuse_cfg]
  exact h'

theorem always_hides {requests : List (Env × Request)} 
    (h : ∀ request ∈ requests, s.Unauthorized request) :
    Execution.Always (next (Server.step other)) (Server.secretPart.Hides (Server.step other)) s 
      requests := by
  induction requests generalizing s
  case nil               => trivial
  case cons request _ hi =>
    have hr := h request List.mem_cons_self
    exact ⟨hr.hides, hi fun request' hm => hr.step <| h request' (List.mem_cons_of_mem _ hm)⟩

-- A whole run of requests that are refused.
theorem outputs_noninterfering {requests : List (Env × Request)} (hs : s₁.SamePublic s₂) 
    (h : ∀ request ∈ requests, s₁.Unauthorized request) :
    outputs (Server.step other) s₂ requests = outputs (Server.step other) s₁ requests ∧
    (Execution.exec (next (Server.step other)) s₁ requests).secrets = s₁.secrets :=
  have hh := always_hides h
  ⟨Part.outputs_eq hh hs, Part.get_exec_eq hh⟩

end

section Refused

attribute [local instance] Unicode.ascii

def remoteRequest : Request where
  method      := methodGet
  path        := str "/api/snapshot"
  escapedPath := str "/api/snapshot"
  rawQuery    := []
  header      := []
  remoteAddr  := str "203.0.113.5:4711"
  isTLS       := false
  body        := []
  bodyLimit   := none

def observing (pid : Int) (comm : Bytes) : Server :=
  newServer (.loadTarget pid comm) (.newHub 128) .newSnapshotBuilder (str "real") [] .nop Time.epoch

def oneSecondLater : Env where
  apiLimitNow  := Time.epoch + 10 ^ 9
  authLimitNow := Time.epoch + 10 ^ 9
  now          := Time.epoch + 10 ^ 9
  hostname     := str "localhost"
  kernel       := str "linux/amd64"
  query        := {}

-- A daemon without a UI that serves only what is modelled here.
def noOtherHandlers : OtherHandlers where
  prometheusMetrics := handleNotFound
  perfettoTraces    := handleNotFound
  cloudLogging      := handleNotFound
  chat              := handleNotFound
  serveWS _ _       := handleNotFound
  spa               := none
  notCanonical      := handleNotFound

example : 
    ((observing 0 <| str "agy").serve noOtherHandlers oneSecondLater remoteRequest).response.status 
      = 403 := by
  decide +kernel

theorem serve_noninterfering_remoteRequest : 
    let s₁ := observing 0 (str "agy")
    let s₂ := observing 5 (str "codex")
    let x₁ := s₁.serve noOtherHandlers oneSecondLater remoteRequest
    let x₂ := s₂.serve noOtherHandlers oneSecondLater remoteRequest
    x₁.response = x₂.response ∧ x₁.server.secrets = s₁.secrets ∧ x₂.server.secrets = s₂.secrets :=
  serve_noninterfering rfl (by decide) (by decide)

end Refused
end Api
