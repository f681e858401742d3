import DrishtiScope.Go.Net
import Mathlib.Data.Nat.Digits.Lemmas

open Go

-- Internet sockets, and how a little-endian kernel lists them in /proc/net.
namespace Linux

def hexDigit (d : Nat) : UInt8 :=
  if d < 10 then 48 + d.toUInt8 else 55 + d.toUInt8

-- `%0wX`, for a positive width.
def hexPad (w n : Nat) : Bytes :=
  (List.replicate (w - (Nat.digits 16 n).length) 0 ++ (Nat.digits 16 n).reverse).map hexDigit

-- A word in the order of the bytes in memory: an IPv4 address or a quarter of an IPv6 address.
structure Quad where
  (a b c d : UInt8)
  deriving DecidableEq

namespace Quad

def bytes (q : Quad) : List UInt8 :=
  [q.a, q.b, q.c, q.d]

-- What the host reads as a number.
def word (q : Quad) : Nat :=
  q.a.toNat + q.b.toNat * 2 ^ 8 + q.c.toNat * 2 ^ 16 + q.d.toNat * 2 ^ 24

-- Dotted decimal notation.
def dotted (q : Quad) : Bytes :=
  itoa q.a.toNat ++ str "." ++ itoa q.b.toNat ++ str "." ++ itoa q.c.toNat ++ str "." ++ itoa q.d.toNat

end Quad

inductive Addr
  | v4 (q : Quad)
  | v6 (q₀ q₁ q₂ q₃ : Quad)

namespace Addr

-- The address in 16 bytes.
def ip : Addr → IP
  | v4 q           => IP.v4InV6Prefix ++ q.bytes
  | v6 q₀ q₁ q₂ q₃ => q₀.bytes ++ q₁.bytes ++ q₂.bytes ++ q₃.bytes

-- `%08X` of each word.
def render : Addr → Bytes
  | v4 q           => hexPad 8 q.word
  | v6 q₀ q₁ q₂ q₃ => hexPad 8 q₀.word ++ hexPad 8 q₁.word ++ hexPad 8 q₂.word ++ hexPad 8 q₃.word

end Addr

structure Endpoint where
  addr : Addr
  port : UInt16

def Endpoint.render (e : Endpoint) : Bytes :=
  e.addr.render ++ str ":" ++ hexPad 4 e.port.toNat

-- A socket with everything that its line contains. What follows the inode depends on the protocol.
structure Socket where
  slot          : Nat
  localAddress  : Endpoint
  remoteAddress : Endpoint
  state         : UInt8
  txQueue       : UInt32
  rxQueue       : UInt32
  timer         : UInt8
  expires       : UInt64
  retransmits   : UInt32
  uid           : UInt32
  timeout       : Int
  inode         : UInt64
  more          : List Bytes
  padding       : Nat
  words         : ∀ w ∈ more, w.Word

namespace Socket

-- The columns with the gaps before them, up to the inode.
def columns (width : Nat) (s : Socket) : List (Nat × Bytes) := 
  let slot := natDigits s.slot
  let uid := natDigits s.uid.toNat
  let timeout := itoa s.timeout
  [
    (width - slot.length, slot ++ str ":"), 
    (1, s.localAddress.render), 
    (1, s.remoteAddress.render), 
    (1, hexPad 2 s.state.toNat),
    (1, hexPad 8 s.txQueue.toNat ++ str ":" ++ hexPad 8 s.rxQueue.toNat), 
    (1, hexPad 2 s.timer.toNat ++ str ":" ++ hexPad 8 s.expires.toNat), 
    (1, hexPad 8 s.retransmits.toNat), 
    (1 + (5 - uid.length), uid), 
    (1 + (8 - timeout.length), timeout), 
    (1, natDigits s.inode.toNat)
  ]

-- "%4d: %s %s %02X %08X:%08X %02X:%08lX %08X %5u %8d %lu" and the rest of the line. The slot has 5 places for
-- UDP.
def line (width : Nat) (s : Socket) : Bytes :=
  ((s.columns width ++ s.more.map (1, ·)).flatMap fun c : Nat × Bytes => List.replicate c.fst 32 ++ c.snd) ++ 
    List.replicate s.padding 32

end Socket

section HexPad

variable {w n bits : Nat} {b : UInt8}

theorem mem_hexPad (h : b ∈ hexPad w n) : (48 ≤ b ∧ b ≤ 57) ∨ (65 ≤ b ∧ b ≤ 70) := by
  have hd : ∀ d < 16, (48 ≤ hexDigit d ∧ hexDigit d ≤ 57) ∨ (65 ≤ hexDigit d ∧ hexDigit d ≤ 70) := by decide
  obtain ⟨d, hm, rfl⟩ := List.mem_map.mp h
  apply hd
  cases List.mem_append.mp hm
  case inl hm => exact List.eq_of_mem_replicate hm ▸ by decide
  case inr hm => exact Nat.digits_lt_base (by decide) <| List.mem_reverse.mp hm

theorem length_hexPad (h : n < 16 ^ w) : (hexPad w n).length = w := by
  have hl := Nat.digits_length_le_iff (by decide) n |>.mpr h
  rw [hexPad, List.length_map, List.length_append, List.length_replicate, List.length_reverse]
  omega

theorem parseUint_hexPad (hw : 0 < w) (h : n < 2 ^ bits) : 
    Bytes.parseUint (hexPad w n) 16 bits = (n, none) := by
  have hd : ∀ d < 16, (digitValue (hexDigit d)).filter (· < 16) = some d := by decide
  apply Bytes.parseUint_digits hd (by decide) h
  by_cases hz : n = 0
  case pos => exact .inr <| by simpa [hz] using hw
  case neg => exact .inl hz

theorem plain_hexPad : ∀ b ∈ hexPad w n, 32 < b ∧ b < 127 := by
  intro b h
  rcases mem_hexPad h with ⟨hl, hu⟩ | ⟨hl, hu⟩
  · exact ⟨UInt8.lt_of_lt_of_le (by decide) hl, UInt8.lt_of_le_of_lt hu (by decide)⟩
  · exact ⟨UInt8.lt_of_lt_of_le (by decide) hl, UInt8.lt_of_le_of_lt hu (by decide)⟩

theorem word_hexPad (hw : 0 < w) : Bytes.Word (hexPad w n) where
  ne_nil h := by
    have he := congrArg List.length h
    rw [hexPad, List.length_map, List.length_append, List.length_replicate, List.length_reverse] at he
    simp only [List.length_nil] at he
    omega
  plain    := plain_hexPad

-- There is no sign, and a number below `2 ^ 31` is in range.
theorem parseInt_hexPad (hw : 0 < w) (h : n < 2 ^ 31) : 
    Bytes.parseInt (hexPad w n) 16 32 = ((n : Int), none) := by
  have hu : Bytes.parseUint (hexPad w n) 16 32 = (n, none) := parseUint_hexPad hw (by omega)
  have hs : Bytes.parseInt.signed 16 32 false (hexPad w n) = ((n : Int), none) := by
    have hc : ¬2 ^ (32 - 1) ≤ n := by omega
    simp only [Bytes.parseInt.signed, hu, hc, and_false, Bool.false_eq_true, false_and, if_false]
  cases hp : hexPad w n
  case nil      => exact absurd hp (word_hexPad hw).ne_nil
  case cons b t =>
    have hb := mem_hexPad <| hp ▸ List.mem_cons_self
    rw [← hs, hp, Bytes.parseInt.eq_def]
    split
    · contradiction
    · next he => 
      cases he
      exact absurd hb (by decide)
    · next he => 
      cases he
      exact absurd hb (by decide)
    · rfl

end HexPad

namespace Quad

variable {q : Quad}

theorem word_lt : q.word < 2 ^ 32 := by
  have ha := q.a.toNat_lt
  have hb := q.b.toNat_lt
  have hc := q.c.toNat_lt
  have hd := q.d.toNat_lt
  simp only [word]
  omega

theorem ofWord_word : Bytes.ofWord q.word = q.bytes := by
  have ha := q.a.toNat_lt
  have hb := q.b.toNat_lt
  have hc := q.c.toNat_lt
  have hd := q.d.toNat_lt
  have he (n : Nat) (x : UInt8) (h : n % 2 ^ 8 = x.toNat) : n.toUInt8 = x := by
    apply UInt8.toNat_inj.mp
    rw [← h]
    exact UInt8.toNat_ofNat'
  simp only [Bytes.ofWord, word, bytes]
  rw [he _ q.a (by omega), he _ q.b (by omega), he _ q.c (by omega), he _ q.d (by omega)]

theorem length_hexPad_word : (hexPad 8 q.word).length = 8 :=
  length_hexPad word_lt

-- Either form of an IPv4 address is shown in dotted decimal notation.
theorem string_bytes : IP.string q.bytes = q.dotted := by
  have ht : IP.to4 q.bytes = some q.bytes := rfl
  have hs : str "." = [46] := rfl
  rw [IP.string, ht, dotted, hs]
  simp [bytes, List.intercalate]

theorem string_v4InV6 : IP.string (IP.v4InV6Prefix ++ q.bytes) = q.dotted := by
  have ht : IP.to4 (IP.v4InV6Prefix ++ q.bytes) = some q.bytes := rfl
  rw [← string_bytes, IP.string, ht]
  rfl

end Quad

theorem Addr.word_render {a : Addr} : Bytes.Word a.render := by
  cases a
  case v4 => exact word_hexPad (by decide)
  case v6 => 
    exact (((word_hexPad (by decide)).append plain_hexPad).append plain_hexPad).append plain_hexPad

theorem plain_colon : ∀ b ∈ str ":", 32 < b ∧ b < 127 := by
  have hs : str ":" = [58] := rfl
  rw [hs, List.forall_mem_singleton]
  decide

theorem Endpoint.word_render {e : Endpoint} : Bytes.Word e.render :=
  (e.addr.word_render.append plain_colon).append plain_hexPad

theorem Socket.fields_line {s : Socket} {width : Nat} : 
    Bytes.fields (s.line width) = (s.columns width).map (·.snd) ++ s.more := by
  rw [line, Bytes.fields_columns ?words ?gaps ?trail, List.map_append, List.map_map]
  · simp
  case words =>
    intro c h
    cases List.mem_append.mp h
    case inr h =>
      obtain ⟨w, hw, rfl⟩ := List.mem_map.mp h
      exact s.words w hw
    case inl h =>
      simp only [columns, List.mem_cons, List.not_mem_nil, or_false] at h
      rcases h with rfl | rfl | rfl | rfl | rfl | rfl | rfl | rfl | rfl | rfl
      · exact Bytes.word_natDigits.append plain_colon
      · exact Endpoint.word_render
      · exact Endpoint.word_render
      · exact word_hexPad (by decide)
      · exact ((word_hexPad (by decide)).append plain_colon).append plain_hexPad
      · exact ((word_hexPad (by decide)).append plain_colon).append plain_hexPad
      · exact word_hexPad (by decide)
      · exact Bytes.word_natDigits
      · exact Bytes.word_itoa
      · exact Bytes.word_natDigits
  case gaps =>
    intro c h
    simp only [columns, List.cons_append, List.tail_cons, List.mem_cons, List.nil_append, List.mem_map] at h
    rcases h with rfl | rfl | rfl | rfl | rfl | rfl | rfl | rfl | rfl | ⟨w, _, rfl⟩ <;> simp
  case trail => exact fun b hb => .inl <| List.eq_of_mem_replicate hb

-- The target of the link of a descriptor.
def socketLink (inode : UInt64) : Bytes :=
  str "socket:[" ++ natDigits inode.toNat ++ str "]"

end Linux
