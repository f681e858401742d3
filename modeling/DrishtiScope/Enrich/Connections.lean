import DrishtiScope.Enrich.Net
import DrishtiScope.Linux.Inet

open Go Linux

-- The sockets of a process, as they are read from the tables of the kernel.
namespace Enrich.Connections

section Endpoints

variable {e : Endpoint} {x y : Bytes} {q q₀ q₁ q₂ q₃ : Quad} {w n : Nat}

theorem colon_not_mem_hexPad : 58 ∉ hexPad w n := by
  intro h
  rcases mem_hexPad h with ⟨_, h⟩ | ⟨h, _⟩
  · exact absurd h (by decide)
  · exact absurd h (by decide)

theorem colon_not_mem_render {a : Addr} : 58 ∉ a.render := by
  cases a
  case v4 => exact colon_not_mem_hexPad
  case v6 => simp [Addr.render, colon_not_mem_hexPad]

theorem splitByte_colon (hx : 58 ∉ x) (hy : 58 ∉ y) : Bytes.splitByte (x ++ str ":" ++ y) 58 = [x, y] := by
  have hs : str ":" = [58] := rfl
  rw [Bytes.splitByte, hs, List.append_assoc, List.singleton_append, 
    List.splitOn_append_cons_self_of_not_mem hx, List.splitOn_eq_singleton hy]

theorem splitByte_render : Bytes.splitByte e.render 58 = [e.addr.render, hexPad 4 e.port.toNat] :=
  splitByte_colon colon_not_mem_render colon_not_mem_hexPad

theorem parsed_hexPad {bits : Nat} (hw : 0 < w) (h : n < 2 ^ bits) : 
    parseHexIPPort.parsed (hexPad w n) bits = some n := by
  rw [parseHexIPPort.parsed, parseUint_hexPad hw h]

theorem take_drop_blocks {x₀ x₁ x₂ x₃ : Bytes} {i : Nat} (h₀ : x₀.length = 8) (h₁ : x₁.length = 8) 
    (h₂ : x₂.length = 8) (h₃ : x₃.length = 8) (hi : i < 4) : 
    ((x₀ ++ x₁ ++ x₂ ++ x₃).drop (i * 8)).take 8 = [x₀, x₁, x₂, x₃].getD i [] := by
  interval_cases i <;> simp [List.drop_append, List.drop_of_length_le, List.take_of_length_le, h₀, h₁, h₂, h₃]

theorem parsed_words : 
    ((List.range 4).mapM fun i => 
      parseHexIPPort.parsed (((Addr.v6 q₀ q₁ q₂ q₃).render.drop (i * 8)).take 8) 32) = 
        some [q₀.word, q₁.word, q₂.word, q₃.word] := by
  have hp : ∀ q : Quad, parseHexIPPort.parsed (hexPad 8 q.word) 32 = some q.word := 
    fun q => parsed_hexPad (by decide) q.word_lt
  have hb : ∀ i < 4, ((Addr.v6 q₀ q₁ q₂ q₃).render.drop (i * 8)).take 8 = _ := fun i hi => 
    take_drop_blocks q₀.length_hexPad_word q₁.length_hexPad_word q₂.length_hexPad_word q₃.length_hexPad_word hi
  have hr : List.range 4 = [0, 1, 2, 3] := rfl
  simp only [hr, List.mapM_cons, List.mapM_nil, hb 0 (by decide), hb 1 (by decide), hb 2 (by decide), 
    hb 3 (by decide), List.getD_cons_zero, List.getD_cons_succ, hp]
  simp

-- What the kernel writes is read back.
theorem parseHexIPPort_render : parseHexIPPort e.render = some (IP.string e.addr.ip, (e.port.toNat : Int)) := by
  have hp : parseHexIPPort.parsed (hexPad 4 e.port.toNat) 16 = some e.port.toNat := 
    parsed_hexPad (by decide) e.port.toNat_lt
  rw [parseHexIPPort, splitByte_render]
  simp only [hp, Option.bind_eq_bind, Option.bind_some]
  cases ha : e.addr
  case v4 q           =>
    have hq : parseHexIPPort.parsed (hexPad 8 q.word) 32 = some q.word := parsed_hexPad (by decide) q.word_lt
    rw [if_pos (show (Addr.v4 q).render.length = 8 from q.length_hexPad_word), Addr.render, hq]
    simp [Quad.ofWord_word, Addr.ip]
  case v6 q₀ q₁ q₂ q₃ =>
    have hl : (Addr.v6 q₀ q₁ q₂ q₃).render.length = 32 := by
      simp only [Addr.render, List.length_append, Quad.length_hexPad_word]
    rw [if_neg (by omega), if_pos hl, parsed_words]
    simp [Quad.ofWord_word, Addr.ip]

end Endpoints

-- The sockets of a network namespace, by the table that lists them.
structure Netns where
  tcp  : List Socket
  tcp6 : List Socket
  udp  : List Socket
  udp6 : List Socket

-- The sockets with their protocols.
def Netns.sockets (ns : Netns) : List (Bytes × Socket) :=
  (ns.tcp ++ ns.tcp6).map (str "tcp", ·) ++ (ns.udp ++ ns.udp6).map (str "udp", ·)

-- The process has a descriptor of the socket.
def holds (p : Process) (s : Socket) : Prop :=
  ∃ ent ∈ p.fd.getD [], ent.link = some (socketLink s.inode)

instance {p : Process} {s : Socket} : Decidable (holds p s) :=
  inferInstanceAs <| Decidable (∃ ent ∈ _, _)

def Lists (width : Nat) (table : Option (List Bytes)) (sockets : List Socket) : Prop :=
  ∃ header, table = some (header :: sockets.map (·.line width))

-- The files of the process are what the kernel writes. There are links to other things than sockets.
structure Renders (p : Process) (ns : Netns) : Prop where
  fd   : ∀ ent ∈ p.fd.getD [], ∀ target, ent.link = some target → str "socket:[" <+: target → 
    ∃ inode, target = socketLink inode
  tcp  : Lists 4 p.netTCP ns.tcp
  tcp6 : Lists 4 p.netTCP6 ns.tcp6
  udp  : Lists 5 p.netUDP ns.udp

structure Ends where
  proto : Bytes
  src   : Bytes
  sport : Int
  dst   : Bytes
  dport : Int
  deriving DecidableEq

def Ends.of (f : Agg.NetFlow) : Ends :=
  ⟨f.proto, f.src, f.sport, f.dst, f.dport⟩

def Ends.ofSocket (proto : Bytes) (s : Socket) : Ends where
  proto := proto
  src   := IP.string s.localAddress.addr.ip
  sport := s.localAddress.port.toNat
  dst   := IP.string s.remoteAddress.addr.ip
  dport := s.remoteAddress.port.toNat

-- The flows are the sockets that the process holds, each once.
def Complete (fs : ProcFS) (p : Process) (ns : Netns) : Prop :=
  ((readNetConnections fs p.pid).map Ends.of).Perm <| 
    (ns.sockets.filter fun s => holds p s.snd).map fun s => Ends.ofSocket s.fst s.snd

section Tables

variable {fs : ProcFS} {p : Process} {ns : Netns} {table : Option (List Bytes)} {sockets : List Socket} 
         {width : Nat} {proto comm : Bytes} {pid : Int} {inodes : List Nat} {s : Socket}

theorem hasPrefix_socketLink {inode : UInt64} : (socketLink inode).hasPrefix (str "socket:[") :=
  Bytes.hasPrefix_iff.mpr ⟨natDigits inode.toNat ++ str "]", by simp [socketLink]⟩

theorem parse_socketLink {inode : UInt64} : 
    Bytes.parseUint (((socketLink inode).trimPrefix (str "socket:[")).trimSuffix (str "]")) 10 64 = 
      (inode.toNat, none) := by
  have hp : (socketLink inode).trimPrefix (str "socket:[") = natDigits inode.toNat ++ str "]" := by
    rw [Bytes.trimPrefix, if_pos hasPrefix_socketLink, socketLink, List.append_assoc, List.drop_left]
  have hs : Bytes.hasSuffix (natDigits inode.toNat ++ str "]") (str "]") := 
    List.isSuffixOf_iff_suffix.mpr <| List.suffix_append ..
  rw [hp, Bytes.trimSuffix, if_pos hs, List.length_append, Nat.add_sub_cancel, List.take_left]
  exact Bytes.parseUint_natDigits inode.toNat_lt

theorem mem_socketInodes_iff (hp : p ∈ fs.processes) (h : Renders p ns) : 
    s.inode.toNat ∈ socketInodes fs p.pid ↔ holds p s := by
  rw [socketInodes, fs.find?_of_mem hp, Option.bind_some, List.mem_filterMap]
  constructor
  case mp =>
    rintro ⟨ent, he, hn⟩
    obtain ⟨target, ht, hn⟩ := Option.bind_eq_some_iff.mp hn
    split at hn
    case isTrue     => contradiction
    case isFalse hx =>
      obtain ⟨inode, rfl⟩ := h.fd ent he target ht <| Bytes.hasPrefix_iff.mp <| by simpa using hx
      simp only [parse_socketLink, Option.pure_def, Option.some_inj, UInt64.toNat_inj] at hn
      exact ⟨ent, he, hn ▸ ht⟩
  case mpr =>
    rintro ⟨ent, he, ht⟩
    refine ⟨ent, he, ?_⟩
    simp [ht, hasPrefix_socketLink, parse_socketLink]

theorem parseSockTable_lists (h : Lists width table sockets) : 
    (parseSockTable table proto pid comm inodes).map Ends.of = 
      (sockets.filter (·.inode.toNat ∈ inodes)).map (Ends.ofSocket proto) := by
  obtain ⟨header, rfl⟩ := h
  rw [parseSockTable, Option.getD_some, List.drop_one, List.tail_cons, List.filterMap_map, List.map_filterMap, 
    ← List.filterMap_eq_map, List.filterMap_filter]
  refine List.filterMap_congr fun s _ => ?_
  have hl : ¬((s.columns width).map (·.snd) ++ s.more).length < 10 := by simp [Socket.columns]
  simp only [Function.comp, Socket.fields_line, if_neg hl]
  have h₁ : ((s.columns width).map (·.snd) ++ s.more).getD 1 [] = s.localAddress.render := rfl
  have h₂ : ((s.columns width).map (·.snd) ++ s.more).getD 2 [] = s.remoteAddress.render := rfl
  have h₉ : ((s.columns width).map (·.snd) ++ s.more).getD 9 [] = natDigits s.inode.toNat := rfl
  rw [h₁, h₂, h₉, Bytes.parseUint_natDigits s.inode.toNat_lt, parseHexIPPort_render, parseHexIPPort_render]
  by_cases hi : s.inode.toNat ∈ inodes
  case pos => simp [hi, Ends.of, Ends.ofSocket]
  case neg => simp [hi]

theorem readNetConnections_renders (hp : p ∈ fs.processes) (h : Renders p ns) : 
    (readNetConnections fs p.pid).map Ends.of = 
      ((ns.tcp ++ ns.tcp6).filter (holds p ·)).map (Ends.ofSocket (str "tcp")) ++ 
      (ns.udp.filter (holds p ·)).map (Ends.ofSocket (str "udp")) := by
  have hm (l : List Socket) : l.filter (holds p ·) = l.filter (·.inode.toNat ∈ socketInodes fs p.pid) := 
    List.filter_congr fun s _ => decide_eq_decide.mpr (mem_socketInodes_iff hp h).symm
  rw [readNetConnections, hm, hm]
  split
  case isTrue hn => simp [hn]
  case isFalse   =>
    simp only [fs.find?_of_mem hp, Option.bind_some, List.map_append, parseSockTable_lists h.tcp, 
      parseSockTable_lists h.tcp6, parseSockTable_lists h.udp, List.filter_append]

-- All sockets are found if and only if the process has no UDP socket over IPv6.
theorem complete_iff (hp : p ∈ fs.processes) (h : Renders p ns) : 
    Complete fs p ns ↔ ∀ s ∈ ns.udp6, ¬holds p s := by
  have hs : (ns.sockets.filter fun s => holds p s.snd).map (fun s => Ends.ofSocket s.fst s.snd) = 
      ((ns.tcp ++ ns.tcp6).filter (holds p ·)).map (Ends.ofSocket (str "tcp")) ++ 
      ((ns.udp ++ ns.udp6).filter (holds p ·)).map (Ends.ofSocket (str "udp")) := by
    simp only [Netns.sockets, List.filter_append, List.filter_map, List.map_append, List.map_map]
    rfl
  rw [Complete, hs, readNetConnections_renders hp h, List.perm_append_left_iff, List.filter_append, 
    List.map_append]
  constructor
  case mp =>
    intro hp s hm hh
    have hl := hp.length_eq
    have hm : s ∈ ns.udp6.filter (holds p ·) := List.mem_filter.mpr ⟨hm, decide_eq_true hh⟩
    have hpos := List.length_pos_of_mem hm
    simp only [List.length_append, List.length_map] at hl
    omega
  case mpr =>
    intro hn
    have hf : ns.udp6.filter (holds p ·) = [] := List.filter_eq_nil_iff.mpr fun s hs => by simpa using hn s hs
    rw [hf, List.map_nil, List.append_nil]

end Tables

section Resolver

-- A UDP socket on port 53 of all IPv6 addresses.
def anySix : Socket where
  slot          := 0
  localAddress  := ⟨.v6 ⟨0, 0, 0, 0⟩ ⟨0, 0, 0, 0⟩ ⟨0, 0, 0, 0⟩ ⟨0, 0, 0, 0⟩, 53⟩
  remoteAddress := ⟨.v6 ⟨0, 0, 0, 0⟩ ⟨0, 0, 0, 0⟩ ⟨0, 0, 0, 0⟩ ⟨0, 0, 0, 0⟩, 0⟩
  state         := 7
  txQueue       := 0
  rxQueue       := 0
  timer         := 0
  expires       := 0
  retransmits   := 0
  uid           := 0
  timeout       := 0
  inode         := 4711
  more          := []
  padding       := 0
  words         := by simp

def onlySix : Netns where
  tcp  := []
  tcp6 := []
  udp  := []
  udp6 := [anySix]

def header : Bytes :=
  str "  sl  local_address rem_address   st tx_queue rx_queue tr tm->when retrnsmt   uid  timeout inode"

def resolver : Process :=
  { Process.single 181 (.ofBytes <| str "resolver") none (by decide) with
    fd      := some [⟨str "3", some <| socketLink 4711⟩]
    netTCP  := some [header]
    netTCP6 := some [header]
    netUDP  := some [header] }

def resolving : ProcFS where
  processes := [resolver]
  nodup     := List.nodup_singleton _

theorem renders_resolver : Renders resolver onlySix where
  fd ent he target ht _ := by
    cases List.mem_singleton.mp he
    exact ⟨4711, (Option.some_inj.mp ht).symm⟩
  tcp  := ⟨header, rfl⟩
  tcp6 := ⟨header, rfl⟩
  udp  := ⟨header, rfl⟩

theorem complete_iff_resolver : 
    Complete resolving resolver onlySix ↔ ∀ s ∈ onlySix.udp6, ¬holds resolver s :=
  complete_iff (List.mem_singleton_self _) renders_resolver

-- The socket is not found.
theorem not_complete_resolver : 
    resolver ∈ resolving.processes ∧ Renders resolver onlySix ∧ ¬Complete resolving resolver onlySix := by
  refine ⟨List.mem_singleton_self _, renders_resolver, fun h => ?_⟩
  have hl := h.length_eq
  rw [readNetConnections_renders (List.mem_singleton_self _) renders_resolver] at hl
  exact absurd hl (by decide +kernel)

end Resolver
end Enrich.Connections
