import DrishtiScope.Api.Guessing

open Go

-- What a web page from elsewhere can do to the target.
namespace Api

section

variable [Unicode]

-- The request goes to the handler for the target, from a page whose origin is not allowed. The daemon only
-- serves its own host.
structure CrossOrigin (s : Server) (r : Request) : Prop where
  noToken   : s.cfg.authToken = []
  loopback  : isLoopbackIP (clientIP r s.cfg.trustProxy)
  canonical : ServeMux.isCanonical r
  path      : ServeMux.isMatch (str "/api/target") r
  origin    : r.header.get (str "Origin") ≠ []
  rejected  : ¬s.cfg.originAllowed (r.header.get <| str "Origin")

-- The target is not allowed, or it is there already.
def Redundant (cfg : Config) (target : Int × Bytes) : Prop :=
  (0 ≤ target.fst ∧ target.fst ≤ Config.maxPID) → 
    (target.snd ≠ [] → Config.sanitizeComm target.snd ≠ []) → 
      (target.fst, Config.installComm cfg.targetComm target.snd) = cfg.target

-- The body asks for nothing new.
def Idle (cfg : Config) (r : Request) : Prop :=
  ∀ target, decodeTarget cfg r = some target → target.isComplete → 
    Redundant cfg (target.merge cfg.target)

-- The request cannot change the target, whatever its origin.
def Harmless (s : Server) (env : Env) (r : Request) : Prop :=
  r.method ≠ methodPost ∨ ¬passes s env r ∨ isWrongType r ∨ Idle s.cfg (limitBody s.cfg r)

variable {s : Server} {env : Env} {r : Request} {x : Exchange} {other : OtherHandlers} {cfg : Config} 
         {p : Int × Bytes}

theorem redundant_iff : 
    Redundant cfg p ↔ ∀ cfg', cfg.setTarget p.fst p.snd = .ok cfg' → cfg'.target = cfg.target := by
  constructor
  case mp  =>
    intro h cfg' hs
    obtain ⟨hp, hc, rfl⟩ := Config.setTarget_ok_iff.mp hs
    exact h hp hc
  case mpr => exact fun h hp hc => h _ <| Config.setTarget_ok_iff.mpr ⟨hp, hc, rfl⟩

theorem targetSystem_serve_iff {target : TargetRequest} : 
    ((targetSystem fun _ : Unit => target).serve cfg ()).target = cfg.target ↔ 
      Redundant cfg (target.merge cfg.target) := by
  rw [redundant_iff]
  simp only [ReadModifyWrite.System.serve, targetSystem]
  cases hs : cfg.setTarget (target.merge cfg.target).fst (target.merge cfg.target).snd
  case error => simp [Except.toOption]
  case ok    => simp [Except.toOption]

-- The handler, as far as the target is concerned.
theorem handleTarget_target_iff : 
    ∃ y, handleTarget env r x = .ok y ∧ 
      (y.server.cfg.target = x.server.cfg.target ↔ isWrongType r ∨ Idle x.server.cfg r) := by
  have ⟨y, hy, hc⟩ := @handleTarget_cfg _ env r x
  refine ⟨y, hy, ?_⟩
  rw [hc]
  split
  case isTrue hw  => simp [hw]
  case isFalse hw =>
    rw [or_iff_right hw, Idle]
    cases decodeTarget x.server.cfg r
    case none        => simp
    case some target =>
      by_cases hc : target.isComplete
      case pos => simp [Option.filter_some_pos hc, targetSystem_serve_iff, hc]
      case neg => simp [Option.filter_some_neg (by simpa using hc), hc]

-- The table of routes has one entry for the path.
theorem serveMux_target (hc : ServeMux.isCanonical r) (hp : ServeMux.isMatch (str "/api/target") r) : 
    serveMux other env r x = allowMethods [methodPost] handleTarget env r x := by
  simp only [ServeMux.isMatch, decide_eq_true_eq] at hp
  have hm (pattern : Bytes) : ServeMux.isMatch pattern r = 
      decide (pattern.splitByte 47 = (str "/api/target").splitByte 47) := by
    simp [ServeMux.isMatch, hp]
  simp only [serveMux, hc, Bool.not_true, Bool.false_eq_true, if_false, hm]
  rfl

theorem limitBody_same (hr : ServeMux.isCanonical r) (hp : ServeMux.isMatch (str "/api/target") r) : 
    ServeMux.isCanonical (limitBody cfg r) ∧ ServeMux.isMatch (str "/api/target") (limitBody cfg r) ∧
    (limitBody cfg r).method = r.method ∧ isWrongType (limitBody cfg r) = isWrongType r := by
  rw [limitBody]
  split
  · exact ⟨hr, hp, rfl, rfl⟩
  · exact ⟨hr, hp, rfl, rfl⟩

theorem allowMethods_target_iff : 
    ∃ y, allowMethods [methodPost] handleTarget env r x = .ok y ∧ 
      (y.server.cfg.target = x.server.cfg.target ↔ 
        r.method ≠ methodPost ∨ isWrongType r ∨ Idle x.server.cfg r) := by
  simp only [allowMethods, List.all_cons, List.all_nil, Bool.and_true, decide_eq_true_eq]
  split
  case isTrue h  => exact ⟨_, rfl, by simp [h]⟩
  case isFalse h =>
    rw [or_iff_right h]
    exact handleTarget_target_iff

section

attribute [local irreducible] Limiter.allow

-- Whether the target is kept does not depend on the origin.
theorem serve_target_iff (hc : Credentialed s.cfg r) (hr : ServeMux.isCanonical r) 
    (hp : ServeMux.isMatch (str "/api/target") r) : 
    (s.serve other env r).server.cfg.target = s.cfg.target ↔ Harmless s env r := by
  by_cases ha : admitted s env r
  case neg =>
    have hs : s.serve other env r = refuse env r { server := s } := by 
      rw [Server.serve, handler, recoverMiddleware, Guessing.middleware_of_not_admitted ha]
    have hh : Harmless s env r := by
      have hn := mt admitted_iff.mpr ha
      by_cases hm : r.method = methodPost
      case neg => exact .inl hm
      case pos =>
        have ho : r.method ≠ methodOptions := by 
          rw [hm]
          decide
        exact .inr <| .inl fun hl => hn ⟨ho, hl, .inr hc⟩
    simp [hs, refuse_cfg, hh]
  case pos =>
    obtain ⟨ho, hl, _⟩ := admitted_iff.mp ha
    have hm : middleware (serveMux other) env r { server := s } = _ := 
      middleware_eq_next (.inr hc) ho <| throttle_fst.trans hl
    obtain ⟨hr, hp, hm', hw⟩ := @limitBody_same _ r s.cfg hr hp
    rw [Server.serve, handler, recoverMiddleware, hm, serveMux_target hr hp]
    generalize hx : (throttle env (limitBody s.cfg r) (clientIP r s.cfg.trustProxy) 
      (cors r (clientIP r s.cfg.trustProxy) <| { server := s : Exchange }.setAll <| securityHeaders r)).snd = x
    have hx : x.server.cfg = s.cfg := by simp [← hx]
    obtain ⟨y, hy, hi⟩ := @allowMethods_target_iff _ env (limitBody s.cfg r) x
    rw [hx, hm', hw] at hi
    simp only [hy, hi, Harmless, hl, not_true_eq_false, false_or]

end

theorem target_eq_iff_harmless (h : CrossOrigin s r) : 
    (s.serve other env r).server.cfg.target = s.cfg.target ↔ Harmless s env r :=
  serve_target_iff (.inr ⟨h.noToken, h.loopback⟩) h.canonical h.path

end

section Page

attribute [local instance] Unicode.ascii

-- A page sends a blob without a type, which needs no preflight.
def pageRequest : Request where
  method      := methodPost
  path        := str "/api/target"
  escapedPath := str "/api/target"
  rawQuery    := []
  header      := [(str "Origin", str "http://evil.example")]
  remoteAddr  := str "127.0.0.1:4711"
  isTLS       := false
  body        := str "\x7b\"comm\":\"sshd\"\x7d"
  bodyLimit   := none

theorem crossOrigin_pageRequest : CrossOrigin (observing 0 <| str "agy") pageRequest where
  noToken   := by decide
  loopback  := by decide
  canonical := by decide
  path      := by decide
  origin    := by decide
  rejected  := by decide

theorem target_eq_iff_harmless_pageRequest : 
    ((observing 0 <| str "agy").serve noOtherHandlers oneSecondLater pageRequest).server.cfg.target = 
      (observing 0 <| str "agy").cfg.target ↔ 
        Harmless (observing 0 <| str "agy") oneSecondLater pageRequest :=
  target_eq_iff_harmless crossOrigin_pageRequest

-- The target is changed to (0, sshd), although the origin has been rejected.
theorem not_kept_pageRequest : 
    ¬∀ other s env r, CrossOrigin s r → 
      (s.serve other env r).server.cfg.target = s.cfg.target := by
  intro h
  have hk := h noOtherHandlers (observing 0 <| str "agy") oneSecondLater pageRequest crossOrigin_pageRequest
  exact absurd hk (by decide +kernel)

end Page
end Api
