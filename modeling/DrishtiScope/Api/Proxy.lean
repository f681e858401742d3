import DrishtiScope.Api.Noninterference

open Go

-- The address of a client behind a proxy that appends the address of its peer.
namespace Api

-- The text of an address, as it is put into a list.
structure Peer where
  text    : Bytes
  parses  : text.parseIP.isSome
  trimmed : text.trimSpace = text
  single  : text.splitByte 44 = [text]

-- What the client has supplied comes before the address of the peer.
def forwarded (supplied : Bytes) (peer : Peer) : Bytes :=
  if supplied = [] then peer.text else supplied ++ str ", " ++ peer.text

-- The request as it arrives from the proxy.
def proxied (r : Request) (supplied : Bytes) (peer : Peer) : Request :=
  { r with header := r.header.set (str "X-Forwarded-For") (forwarded supplied peer) }

def leftmost (supplied : Bytes) (peer : Peer) : Bytes :=
  Bytes.trimSpace <| (Bytes.splitByte (forwarded supplied peer) 44).headD []

-- The address if there is none in the list.
def fallback (r : Request) : Bytes :=
  (clientIP.realIP r).getD (clientIP.remote r)

section

variable [Unicode] {r : Request} {supplied : Bytes} {peer : Peer}

-- The address is the same as if the client had supplied nothing, so that whoever is not on the host itself
-- is kept out if there is no token: no handler makes a difference.
structure Unspoofed (r : Request) (supplied : Bytes) (peer : Peer) : Prop where
  address : clientIP (proxied r supplied peer) true = clientIP (proxied r [] peer) true
  access  : ∀ next next' env x, x.server.cfg.trustProxy → x.server.cfg.authToken = [] → 
    ¬isLoopbackIP peer.text → ¬isPublicPath r.path → 
      middleware next env (proxied r supplied peer) x = middleware next' env (proxied r supplied peer) x

-- The first element of the list is the address of the peer, or it is not an address at all and the peer is
-- known otherwise.
def Identified (r : Request) (supplied : Bytes) (peer : Peer) : Prop :=
  leftmost supplied peer = peer.text ∨ 
    ((leftmost supplied peer).parseIP = none ∧ fallback r = peer.text)

omit [Unicode]

theorem clientIP_proxied : 
    clientIP (proxied r supplied peer) true = 
      if (leftmost supplied peer).parseIP.isSome then leftmost supplied peer else fallback r := by
  have hn : peer.text ≠ [] := by
    intro hn
    have hp := peer.parses
    rw [hn] at hp
    contradiction
  have hf : forwarded supplied peer ≠ [] := by
    simp only [forwarded]
    split <;> simp [hn]
  have hg : (proxied r supplied peer).header.get (str "X-Forwarded-For") = forwarded supplied peer := 
    Header.get_set
  have hr : (proxied r supplied peer).header.get (str "X-Real-IP") = r.header.get (str "X-Real-IP") :=
    Header.get_set_of_ne (by decide)
  have hl : (Bytes.splitByte (forwarded supplied peer) 44 |>.headD []).trimSpace = leftmost supplied peer := 
    rfl
  simp only [clientIP, clientIP.forwardedFor, hg, hf, hl, if_true, if_false, fallback, clientIP.realIP, hr]
  cases hp : (leftmost supplied peer).parseIP <;> rfl

theorem leftmost_nil : leftmost [] peer = peer.text := by
  rw [leftmost, forwarded, if_pos rfl, peer.single]
  exact peer.trimmed

-- Without anything from the client, the address is that of the peer.
theorem clientIP_proxied_nil : clientIP (proxied r [] peer) true = peer.text := by
  rw [clientIP_proxied, leftmost_nil, if_pos peer.parses]

theorem identified_iff : Identified r supplied peer ↔ clientIP (proxied r supplied peer) true = peer.text := by
  rw [clientIP_proxied, Identified]
  cases hp : (leftmost supplied peer).parseIP
  case some _ => simp
  case none   =>
    have hn : leftmost supplied peer ≠ peer.text := by
      intro he
      have hs := peer.parses
      rw [← he, hp] at hs
      contradiction
    simp [hn]

variable [Unicode]

theorem unspoofed_iff : Unspoofed r supplied peer ↔ Identified r supplied peer := by
  rw [identified_iff, ← clientIP_proxied_nil]
  constructor
  case mp  => exact Unspoofed.address
  case mpr =>
    intro ha
    refine ⟨ha, fun next next' env x hx ht hl hp => ?_⟩
    have hc : ¬Credentialed x.server.cfg (proxied r supplied peer) := by
      rw [Credentialed, hx, ha, clientIP_proxied_nil]
      simp [ht, hl]
    rw [middleware_eq_refuse hc hp, middleware_eq_refuse hc hp]

end

section Spoofed

attribute [local instance] Unicode.ascii

def remotePeer : Peer where
  text    := str "203.0.113.5"
  parses  := by decide
  trimmed := by decide
  single  := by decide

-- The client has put the address of the host in front of its own.
theorem not_unspoofed_loopback : 
    clientIP (proxied remoteRequest (str "127.0.0.1") remotePeer) true = str "127.0.0.1" ∧
    ¬Unspoofed remoteRequest (str "127.0.0.1") remotePeer := by
  have ha : clientIP (proxied remoteRequest (str "127.0.0.1") remotePeer) true = str "127.0.0.1" := by
    decide
  refine ⟨ha, fun h => ?_⟩
  have he := h.address
  rw [ha, clientIP_proxied_nil] at he
  exact absurd he (by decide)

end Spoofed
end Api
