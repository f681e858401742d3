import DrishtiScope.Config.Config
import DrishtiScope.Go.Http
import DrishtiScope.Go.Net

open Go

-- Who sends a request, and with which token.
namespace Api

-- Behind a proxy the address is taken from a header.
def clientIP (r : Request) (trustProxy : Bool) : Bytes :=
  (if trustProxy then forwardedFor <|> realIP else none).getD remote
where
  forwardedFor : Option Bytes :=
    let xff := r.header.get (str "X-Forwarded-For")
    let ip := ((xff.splitByte 44).headD []).trimSpace
    if xff = [] then none else ip.parseIP.map fun _ => ip
  realIP : Option Bytes :=
    let xri := r.header.get (str "X-Real-IP")
    if xri = [] then none else xri.trimSpace.parseIP.map (·.string)
  remote : Bytes :=
    r.remoteAddr.splitHost.getD r.remoteAddr

def isLoopbackIP (ip : Bytes) : Bool :=
  match ip.parseIP with
  | none        => false
  | some parsed => parsed.isLoopback

def bearerToken [Unicode] (r : Request) : Bytes :=
  let h := r.header.get (str "Authorization")
  if 7 ≤ h.length ∧ Bytes.equalFold (h.take 7) (str "bearer ") then
    Bytes.trimSpace (h.drop 7)
  else
    r.query.get (str "access_token")

def tokenOK (got want : Bytes) : Bool :=
  if want = [] then
    true
  else if got.length ≠ want.length then
    false
  else
    got = want

def isPublicPath (path : Bytes) : Bool :=
  path = str "/api/health"

-- The request carries the token, or it comes from the host itself if there is no token.
def Credentialed [Unicode] (cfg : Config) (r : Request) : Prop :=
  (cfg.authToken ≠ [] ∧ bearerToken r = cfg.authToken) ∨ 
    (cfg.authToken = [] ∧ isLoopbackIP (clientIP r cfg.trustProxy))

instance [Unicode] {cfg : Config} {r : Request} : Decidable (Credentialed cfg r) :=
  inferInstanceAs <| Decidable (_ ∨ _)

theorem tokenOK_iff {got want : Bytes} (h : want ≠ []) : tokenOK got want ↔ got = want := by
  rw [tokenOK, if_neg h]
  constructor
  case mp  =>
    intro ht
    split at ht
    · contradiction
    · exact of_decide_eq_true ht
  case mpr => 
    rintro rfl
    simp

variable [Unicode] {cfg : Config} {r : Request}

theorem credentialed_iff_tokenOK (h : cfg.hasAuth) : 
    Credentialed cfg r ↔ tokenOK (bearerToken r) cfg.authToken := by
  have hn : cfg.authToken ≠ [] := of_decide_eq_true h
  simp [Credentialed, hn, tokenOK_iff]

theorem credentialed_iff_isLoopbackIP (h : ¬cfg.hasAuth) : 
    Credentialed cfg r ↔ isLoopbackIP (clientIP r cfg.trustProxy) := by
  have he : cfg.authToken = [] := by simpa [Config.hasAuth] using h
  simp [Credentialed, he]

end Api
