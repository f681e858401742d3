import DrishtiScope.Api.Noninterference
import DrishtiScope.Lib.Execution

open Go

-- How many tokens a client can try.
namespace Api

section Token

variable [Unicode] {r : Request} {token : Bytes} {trustProxy : Bool} {s : Server} {env : Env}

-- The same request with another token.
def present (r : Request) (token : Bytes) : Request :=
  { r with 
    header   := r.header.set (str "Authorization") []
    rawQuery := str "access_token" ++ 61 :: Bytes.percentEncode token
  }

theorem bearerToken_present : bearerToken (present r token) = token := by
  have hh : (present r token).header.get (str "Authorization") = [] := Header.get_set
  have hq : (present r token).query.get (str "access_token") = token := 
    Values.get_parseQuery token (by decide) (by decide)
  simp [bearerToken, hh, hq]

omit [Unicode] in
theorem clientIP_present : clientIP (present r token) trustProxy = clientIP r trustProxy := by
  have hf : (present r token).header.get (str "X-Forwarded-For") = r.header.get (str "X-Forwarded-For") := 
    Header.get_set_of_ne (by decide)
  have hi : (present r token).header.get (str "X-Real-IP") = r.header.get (str "X-Real-IP") := 
    Header.get_set_of_ne (by decide)
  simp only [clientIP, clientIP.forwardedFor, clientIP.realIP, hf, hi]
  rfl

-- A handler that tells that it has been reached.
def probe : Handler := fun _ _ x => .error x

-- The request comes through to the handler behind the middleware.
def admitted (s : Server) (env : Env) (r : Request) : Bool :=
  match middleware probe env r { server := s } with
  | .ok _    => false
  | .error _ => true

-- The token decides about the request.
def Guess (s : Server) (env : Env) (r : Request) : Prop :=
  ∀ token, admitted s env (present r token) ↔ token = s.cfg.authToken

-- The limit for the API lets the request through.
def passes (s : Server) (env : Env) (r : Request) : Bool :=
  !isApiPath r.path || (s.apiLimit.allow env.apiLimitNow (clientIP r s.cfg.trustProxy)).fst

section

attribute [local irreducible] Limiter.allow

theorem throttle_fst : 
    (throttle env (limitBody s.cfg r) (clientIP r s.cfg.trustProxy) 
      (cors r (clientIP r s.cfg.trustProxy) <| { server := s : Exchange }.setAll <| securityHeaders r)).fst = 
      passes s env r := by
  rw [throttle, limitBody_path, passes]
  split
  case isTrue h  => simp [h, Exchange.allowApi]
  case isFalse h => simp [h]

-- A request that is not limited reaches the handler if its token allows it.
theorem admitted_iff : 
    admitted s env r ↔ 
      r.method ≠ methodOptions ∧ passes s env r ∧ (isPublicPath r.path ∨ Credentialed s.cfg r) := by
  by_cases ho : r.method = methodOptions
  case pos => simp [admitted, middleware, ho]
  case neg =>
    by_cases hc : isPublicPath r.path ∨ Credentialed s.cfg r
    case neg =>
      obtain ⟨hp, hn⟩ := not_or.mp hc
      have hm : middleware probe env r { server := s } = .ok (refuse env r { server := s }) := 
        middleware_eq_refuse hn hp
      simp [admitted, hm, hc]
    case pos =>
      cases hp : passes s env r
      case false =>
        have hl := throttle_fst.trans hp
        simp [admitted, middleware, ho, hl]
      case true  =>
        have hl := throttle_fst.trans hp
        have hm : middleware probe env r { server := s } = .error _ := middleware_eq_next hc ho hl
        simp [admitted, hm, ho, hc]

-- The request comes as far as the comparison of its token.
def compared (s : Server) (env : Env) (r : Request) : Bool :=
  s.cfg.hasAuth && r.method ≠ methodOptions && !isPublicPath r.path && passes s env r

omit [Unicode] in
theorem passes_present : passes s env (present r token) = passes s env r := by
  simp only [passes, clientIP_present]
  rfl

omit [Unicode] in
theorem compared_present : compared s env (present r token) = compared s env r := by
  simp only [compared, passes_present]
  rfl

omit [Unicode] in
theorem compared_iff : 
    compared s env r ↔ 
      s.cfg.hasAuth ∧ r.method ≠ methodOptions ∧ ¬isPublicPath r.path ∧ passes s env r := by
  simp [compared, and_assoc]

theorem admitted_of_compared (h : compared s env r) : admitted s env r ↔ bearerToken r = s.cfg.authToken := by
  have ⟨ha, ho, hp, hl⟩ := compared_iff.mp h
  have hn : s.cfg.authToken ≠ [] := of_decide_eq_true ha
  simp [admitted_iff, Credentialed, ho, hp, hl, hn]

-- All other requests are treated alike, whatever their token.
theorem admitted_present (h : ¬compared s env r) {token' : Bytes} : 
    admitted s env (present r token) ↔ admitted s env (present r token') := by
  have hm (token : Bytes) : (present r token).method = r.method := rfl
  have hp (token : Bytes) : (present r token).path = r.path := rfl
  simp only [admitted_iff, passes_present, hm, hp]
  cases ha : s.cfg.hasAuth
  case false =>
    have hl (token : Bytes) : Credentialed s.cfg (present r token) ↔ _ := 
      credentialed_iff_isLoopbackIP (by simp [ha])
    simp only [hl, clientIP_present]
  case true =>
    have hn := mt compared_iff.mpr h
    tauto

theorem guess_iff : Guess s env r ↔ compared s env r := by
  constructor
  case mpr =>
    intro h token
    rw [admitted_of_compared (compared_present.trans h), bearerToken_present]
  case mp =>
    intro h
    by_contra hc
    have h₁ := (h s.cfg.authToken).mpr rfl
    have h₂ : admitted s env (present r (0 :: s.cfg.authToken)) := (admitted_present hc).mp h₁
    have h₃ := (h (0 :: s.cfg.authToken)).mp h₂
    simp at h₃

instance : Decidable (Guess s env r) :=
  decidable_of_iff _ guess_iff.symm

end
end Token

-- Runs of requests.
namespace Guessing

-- A request some time after the last one, and some time between the two limits. What else it reads of its
-- environment is given. The handler that it may reach changes nothing but the data of the server.
structure Attempt where
  wait  : Nat
  delay : Nat
  env   : Env
  r     : Request
  left  : Secrets

def Attempt.envAt (a : Attempt) (now : Time) : Env :=
  { a.env with
    apiLimitNow  := now + a.wait
    authLimitNow := now + a.wait + a.delay
  }

def leaving (p : Secrets) : Handler := fun _ _ x =>
  .ok <| x.withSecrets p

-- The server, the time, and whether the client in question is locked out.
structure State where
  server : Server
  now    : Time
  locked : Bool

def lockedOut (x : Exchange) : Bool :=
  x.audit.any (·.action = str "auth_lockout")

def start (cfg : Config) (h : Hub) (builder : Agg.SnapshotBuilder) (mode modeReason : Bytes) 
    (db : Storage.Store) (now : Time) : State where
  server := newServer cfg h builder mode modeReason db now
  now    := now
  locked := false

section

variable [Unicode] {ip : Bytes} {s : State} {a : Attempt} {as : List Attempt} 
         {P : Server → Env → Request → Bool} {b : TokenBucket ℚ}

def answer (p : Secrets) (env : Env) (r : Request) (s : Server) : Exchange :=
  recoverMiddleware (middleware <| leaving p) env r { server := s }

namespace State

def env (s : State) (a : Attempt) : Env :=
  a.envAt s.now

def answer (s : State) (a : Attempt) : Exchange :=
  Guessing.answer a.left (s.env a) a.r s.server

-- The time at which a request is decided.
def time (s : State) (a : Attempt) : ℚ :=
  Duration.seconds (s.env a).authLimitNow

def FromClient (ip : Bytes) (s : State) (a : Attempt) : Prop :=
  clientIP a.r s.server.cfg.trustProxy = ip

instance : Decidable (FromClient ip s a) :=
  inferInstanceAs <| Decidable (_ = _)

end State

-- A lockout lasts until the bucket has a token again.
def step (ip : Bytes) (s : State) (a : Attempt) : State where
  server := (s.answer a).server
  now    := (s.env a).authLimitNow
  locked := 
    if s.FromClient ip a then
      lockedOut (s.answer a) || (s.locked && s.server.authLimit.level ip (s.time a) < 1)
    else
      s.locked

-- The times of the requests of a client with a certain property.
def times (ip : Bytes) (P : Server → Env → Request → Bool) : State → List Attempt → List ℚ
  | _, []      => []
  | s, a :: as =>
    if s.FromClient ip a ∧ P s.server (s.env a) a.r then
      s.time a :: times ip P (step ip s a) as
    else
      times ip P (step ip s a) as

def guesses (ip : Bytes) : State → List Attempt → List ℚ :=
  times ip fun s env r => Guess s env r

def comparisons (ip : Bytes) : State → List Attempt → List ℚ :=
  times ip compared

-- No request is admitted on its token during a lockout.
def NotLockedOut (ip : Bytes) (s : State) (a : Attempt) : Prop :=
  s.locked → s.FromClient ip a → Guess s.server (s.env a) a.r → admitted s.server (s.env a) a.r →
    1 ≤ s.server.authLimit.level ip (s.time a)

instance : Decidable (NotLockedOut ip s a) :=
  inferInstanceAs <| Decidable (_ → _ → _ → _ → _)

structure RateBounded (ip : Bytes) (s : State) (as : List Attempt) : Prop where
  window  : TokenBucket.Bounded (1 / 5) 10 (guesses ip s as)
  lockout : Execution.Always (step ip) (NotLockedOut ip) s as

section

attribute [local irreducible] Limiter.allow

variable {p : Secrets} {env : Env} {r : Request} {s : Server} {x : Exchange}

omit [Unicode] in
theorem throttle_authLimit : (throttle env r ip x).snd.server.authLimit = x.server.authLimit := by
  rw [throttle]
  split <;> rfl

omit [Unicode] in
theorem rejectToken_authLimit : 
    (rejectToken env r ip x).server.authLimit = (x.server.authLimit.allow env.authLimitNow ip).snd := by
  rw [rejectToken]
  split <;> rfl

theorem middleware_of_not_admitted {n : Handler} (h : ¬admitted s env r) : 
    middleware n env r { server := s } = .ok (refuse env r { server := s }) := by
  by_cases hc : isPublicPath r.path ∨ Credentialed s.cfg r
  case neg =>
    have ⟨hp, hn⟩ := not_or.mp hc
    exact middleware_eq_refuse hn hp
  case pos =>
    by_cases ho : r.method = methodOptions
    case pos => simp only [middleware, refuse, ho, if_true]
    case neg =>
      have hp : passes s env r = false := by simpa [admitted_iff, ho, hc] using h
      have hl := throttle_fst.trans hp
      simp only [middleware, refuse, ho, if_false, hl, Bool.not_false, if_true]

theorem refuse_authLimit : 
    (refuse env r { server := s }).server.authLimit = 
      if s.cfg.hasAuth ∧ r.method ≠ methodOptions ∧ passes s env r then
        (s.authLimit.allow env.authLimitNow (clientIP r s.cfg.trustProxy)).snd
      else
        s.authLimit := by
  have hl : (throttle env (limitBody s.cfg r) _ _).fst = passes s env r := throttle_fst
  simp only [refuse, hl]
  split_ifs <;> simp_all [rejectToken_authLimit, throttle_authLimit, rejectAccess]

-- The limit for tokens is asked only about wrong ones.
theorem answer_authLimit : 
    (answer p env r s).server.authLimit = 
      if compared s env r ∧ bearerToken r ≠ s.cfg.authToken then
        (s.authLimit.allow env.authLimitNow (clientIP r s.cfg.trustProxy)).snd
      else
        s.authLimit := by
  by_cases h : admitted s env r
  case pos => 
    obtain ⟨ho, hp, hc⟩ := admitted_iff.mp h
    have hn : ¬(compared s env r ∧ bearerToken r ≠ s.cfg.authToken) := by
      rintro ⟨hc, hw⟩
      exact hw <| (admitted_of_compared hc).mp h
    have hm : middleware (leaving p) env r { server := s } = .ok (Exchange.withSecrets _ p) := 
      middleware_eq_next hc ho <| throttle_fst.trans hp
    have hw {x : Exchange} : (x.withSecrets p).server.authLimit = x.server.authLimit := rfl
    rw [if_neg hn, answer, recoverMiddleware, hm, hw, throttle_authLimit, cors_server, Exchange.setAll_server]
  case neg =>
    have hc : (s.cfg.hasAuth ∧ r.method ≠ methodOptions ∧ passes s env r) ↔ 
        compared s env r ∧ bearerToken r ≠ s.cfg.authToken := by
      constructor
      case mp  =>
        rintro ⟨hh, ho, hp⟩
        have hu : ¬isPublicPath r.path := fun hu => h <| admitted_iff.mpr ⟨ho, hp, .inl hu⟩
        have hc := compared_iff.mpr ⟨hh, ho, hu, hp⟩
        exact ⟨hc, mt (admitted_of_compared hc).mpr h⟩
      case mpr =>
        rintro ⟨hc, _⟩
        obtain ⟨hh, ho, _, hp⟩ := compared_iff.mp hc
        exact ⟨hh, ho, hp⟩
    rw [answer, recoverMiddleware, middleware_of_not_admitted h, refuse_authLimit, if_congr hc rfl rfl]

end

theorem guesses_eq : guesses ip s as = comparisons ip s as := by
  have hp : (fun s env r => decide (Guess s env r)) = compared := by
    funext s env r
    simp [guess_iff]
  rw [guesses, hp, comparisons]

omit [Unicode] in
theorem time_ge : Duration.seconds s.now ≤ s.time a := by
  have hn (t : Int) (m n : Nat) : t ≤ t + m + n := by omega
  exact div_le_div_of_nonneg_right (Int.cast_le.mpr <| hn ..) (by norm_num)

theorem times_ge : ∀ t ∈ times ip P s as, Duration.seconds s.now ≤ t := by
  induction as generalizing s
  case nil => simp [times]
  case cons a as hi =>
    intro t ht
    have hs (hm : t ∈ times ip P (step ip s a) as) : Duration.seconds s.now ≤ t :=
      time_ge.trans <| hi t hm
    rw [times] at ht
    split at ht
    case isTrue =>
      cases List.mem_cons.mp ht
      case inl he => exact he ▸ time_ge
      case inr hm => exact hs hm
    case isFalse => exact hs ht

theorem times_pairwise : (times ip P s as).Pairwise (· ≤ ·) := by
  induction as generalizing s
  case nil => exact .nil
  case cons a as hi =>
    rw [times]
    split
    case isTrue  => exact .cons times_ge hi
    case isFalse => exact hi

-- A bucket that never has more tokens for the client than the limiter.
structure Below (ip : Bytes) (s : State) (b : TokenBucket ℚ) : Prop where
  wf    : s.server.authLimit.Wf s.now
  rate  : b.rate = s.server.authLimit.rate
  burst : b.burst = s.server.authLimit.burst
  level : ∀ t, Duration.seconds s.now ≤ t → b.level t ≤ s.server.authLimit.level ip t

namespace Below

omit [Unicode] in
theorem rate_nonneg (h : Below ip s b) : 0 ≤ b.rate :=
  h.rate ▸ h.wf.rate

omit [Unicode] in
theorem wf_time (h : Below ip s b) : s.server.authLimit.Wf (s.env a).authLimitNow := by
  have hn (t : Int) (m n : Nat) : t ≤ t + m + n := by omega
  exact h.wf.mono <| hn ..

-- Whatever the request, the limiter stays as it is or is asked once.
theorem step {b' : TokenBucket ℚ} (h : Below ip s b) (hr : b'.rate = b.rate) (hb : b'.burst = b.burst)
    (hl : ∀ t, s.time a ≤ t → b'.level t ≤ (Guessing.step ip s a).server.authLimit.level ip t) : 
    Below ip (Guessing.step ip s a) b' := by
  have hs : (Guessing.step ip s a).server.authLimit = _ := answer_authLimit
  have hw := h.wf_time (a := a)
  refine ⟨?_, hr.trans <| h.rate.trans ?_, hb.trans <| h.burst.trans ?_, hl⟩ <;> rw [hs] <;> split
  · exact hw.allow
  · exact hw
  · exact hw.allow_rate.symm
  · rfl
  · exact hw.allow_burst.symm
  · rfl

theorem step_of_not (h : Below ip s b) (hc : ¬(s.FromClient ip a ∧ compared s.server (s.env a) a.r)) : 
    Below ip (Guessing.step ip s a) b := by
  have hs : (Guessing.step ip s a).server.authLimit = _ := answer_authLimit
  refine h.step rfl rfl fun t ht => ?_
  have hl := h.level t <| time_ge.trans ht
  rw [hs]
  split
  case isTrue hw =>
    have hi : ip ≠ clientIP a.r s.server.cfg.trustProxy := fun hi => hc ⟨hi.symm, hw.left⟩
    exact (h.wf_time.level_allow_ne hi ht).symm ▸ hl
  case isFalse => exact hl

-- What the limiter takes for a wrong token only, the bucket takes for each.
theorem step_charge (h : Below ip s b) (hf : s.FromClient ip a) 
    (h1 : 1 ≤ b.level (s.time a)) : Below ip (Guessing.step ip s a) (b.charge (s.time a)) := by
  have hs : (Guessing.step ip s a).server.authLimit = _ := answer_authLimit
  refine h.step rfl rfl fun t ht => ?_
  rw [hs]
  split
  case isTrue =>
    have hl := h.level (s.time a) time_ge
    rw [hf]
    exact h.wf_time.level_charge_le h.rate h.burst (h1.trans hl) hl
  case isFalse => 
    exact (TokenBucket.level_charge_le h.rate_nonneg ht).trans <| h.level t <| time_ge.trans ht

-- As long as that bucket has a token for each guess, there is no lockout.
theorem always (h : Below ip s b) (hc : b.Conforms (comparisons ip s as)) : 
    Execution.Always (Guessing.step ip) (NotLockedOut ip) s as := by
  induction as generalizing s b
  case nil => trivial
  case cons a as hi =>
    rw [comparisons, times] at hc
    split at hc
    case isTrue hp  =>
      have ⟨h1, hc⟩ := hc
      exact ⟨fun _ _ _ _ => h1.trans <| h.level _ time_ge, hi (h.step_charge hp.left h1) hc⟩
    case isFalse hp =>
      exact ⟨fun _ hf hg _ => absurd ⟨hf, guess_iff.mp hg⟩ hp, hi (h.step_of_not hp) hc⟩

end Below

-- At the start both are full.
omit [Unicode] in
theorem below_start {cfg : Config} {h : Hub} {builder : Agg.SnapshotBuilder} {mode modeReason : Bytes} 
    {db : Storage.Store} {now : Time} : 
    Below ip (start cfg h builder mode modeReason db now) (.full (1 / 5) 10 (Duration.seconds now)) := by
  have he : (start cfg h builder mode modeReason db now).server.authLimit = 
      ⟨1 / 5, 10, fun _ => none, now⟩ := 
    Limiter.newLimiter_eq (by norm_num) (by norm_num)
  constructor <;> rw [he]
  case wf    => exact .empty (by norm_num) (by norm_num) Limiter.auth_refill
  case rate  => rfl
  case burst => rfl
  case level => exact fun _ _ => TokenBucket.level_le_burst

theorem rateBounded_iff {cfg : Config} {h : Hub} {builder : Agg.SnapshotBuilder} {mode modeReason : Bytes} 
    {db : Storage.Store} {now : Time} : 
    let s := start cfg h builder mode modeReason db now
    RateBounded ip s as ↔ 
      (TokenBucket.full (1 / 5) 10 (Duration.seconds now)).Conforms (comparisons ip s as) := by
  intro s
  have hs : (Duration.seconds now :: comparisons ip s as).Pairwise (· ≤ ·) := .cons times_ge times_pairwise
  have hb : (TokenBucket.full (1 / 5 : ℚ) 10 _).Conforms _ ↔ _ := 
    TokenBucket.conforms_full_iff (by norm_num) (by norm_num) hs
  constructor
  case mp  => 
    intro hr
    exact hb.mpr <| guesses_eq ▸ hr.window
  case mpr =>
    intro hc
    exact {
      window  := guesses_eq ▸ hb.mp hc
      lockout := below_start.always hc
    }

end

section Guessed

attribute [local instance] Unicode.ascii

def staticRequest : Request :=
  { remoteRequest with
    path        := str "/"
    escapedPath := str "/"
  }

def guarded : State :=
  start (Config.load <| .ofList [(str "AUTH_TOKEN", str "correct horse battery")]) (.newHub 128) .newSnapshotBuilder 
    (str "real") [] .nop Time.epoch

def attempt (token : Bytes) : Attempt where
  wait  := 0
  delay := 0
  env   := oneSecondLater
  r     := present staticRequest token
  left  := guarded.server.secrets

-- The last of the attempts comes through, although the one before has led to a lockout.
def bruteForce : List Attempt :=
  List.replicate 11 (attempt <| str "incorrect horse battery") ++ [attempt <| str "correct horse battery"]

theorem guesses_bruteForce : 
    guesses (str "203.0.113.5") guarded bruteForce = List.replicate 12 (Duration.seconds Time.epoch) := by
  decide +kernel

-- The daemon starts with this configuration.
theorem not_rateBounded_bruteForce : 
    guarded.server.cfg.validate id = .ok () ∧ ¬RateBounded (str "203.0.113.5") guarded bruteForce := by
  refine ⟨rfl, fun h => ?_⟩
  have hw := h.window (Duration.seconds Time.epoch) 0 le_rfl
  rw [guesses_bruteForce, List.countP_replicate, if_pos (by simp)] at hw
  norm_num at hw

example : 
    let ip := str "203.0.113.5"
    ¬Execution.Always (step ip) (NotLockedOut ip) guarded bruteForce := by
  decide +kernel

end Guessed
end Guessing
end Api
