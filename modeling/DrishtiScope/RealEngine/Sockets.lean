import DrishtiScope.Lib.Keyed
import DrishtiScope.RealEngine.Engine

open Go Linux Keyed

-- The flows of the real engine, and the sockets that are open in the target.
namespace RealEngine.Sockets

-- What a flow shows of a socket, and of whom it is said to be.
structure Shown where
  src   : Bytes
  dst   : Bytes
  sport : Int
  dport : Int
  proto : Bytes
  state : Bytes
  pid   : Int
  deriving DecidableEq

def Shown.of (f : Agg.NetFlow) : Shown :=
  ⟨f.src, f.dst, f.sport, f.dport, f.proto, f.state, f.pid⟩

-- A row of a table: the inode of a socket, and how it is shown with its own state.
abbrev Row := Nat × Shown

def readRow (pid : Int) (proto line : Bytes) : Option Row := do
  let fields := Bytes.fields line
  if fields.length < 10 then none else
    match Bytes.parseUint (fields.getD 9 []) 10 64 with
    | (inode, none) =>
      let (src, sport) ← Enrich.parseHexIPPort (fields.getD 1 [])
      let (dst, dport) ← Enrich.parseHexIPPort (fields.getD 2 [])
      let st := (Enrich.tcpStates.lookup (Bytes.toUpper (fields.getD 3 []))).getD []
      let state := if proto = str "udp" ∧ st = [] then str "UDP" else st
      return (inode, ⟨src, dst, sport, dport, proto, state, pid⟩)
    | _             => none

-- The first line of a table is a header.
def lines (table : Option (List Bytes)) : List Bytes :=
  (table.getD []).drop 1

-- The rows of the sockets that are open in the process.
def held (fs : ProcFS) (pid : Int) (proto : Bytes) (table : Option (List Bytes)) : List Row :=
  ((lines table).filterMap <| readRow pid proto).filter (·.fst ∈ Enrich.socketInodes fs pid)

-- In the tables of the process, and in that of the host.
def ownRows (fs : ProcFS) (pid : Int) : List Row :=
  let p := fs.find? pid
  held fs pid (str "tcp") (p.bind (·.netTCP)) ++ held fs pid (str "tcp") (p.bind (·.netTCP6)) ++ 
    held fs pid (str "udp") (p.bind (·.netUDP))

def hostRows (fs : ProcFS) (pid : Int) : List Row :=
  held fs pid (str "tcp") fs.netTCP

-- The sockets of the process. One that is listed several times, in one table or in two, is one socket.
def sockets (fs : ProcFS) (pid : Int) : List Row :=
  firsts Prod.fst (ownRows fs pid ++ hostRows fs pid)

-- The flows are the sockets of the process, each once.
def Right (fs : ProcFS) (pid : Int) (flows : List Agg.NetFlow) : Prop :=
  (flows.map .of).Perm <| (sockets fs pid).map (·.snd)

-- The sockets that are only in the table of the host.
def missing (fs : ProcFS) (pid : Int) : List Row :=
  (firsts Prod.fst <| hostRows fs pid).filter (·.fst ∉ (ownRows fs pid).map (·.fst))

-- Each socket has one row in the tables of the process.
structure Settled (fs : ProcFS) (pid : Int) : Prop where
  nodup    : ((ownRows fs pid).map (·.fst)).Nodup
  complete : missing fs pid = []

-- A line that is too short or that of a listening socket.
def Listening (line : Bytes) : Prop :=
  let fields := line.trimSpace.fields
  fields.length < 10 ∨ ((parseHexAddr <| fields.getD 2 []).snd = 0 ∧ fields.getD 3 [] = str "0A")

-- The first six lines that are not.
def connected (fs : ProcFS) (pid : Int) : List Shown :=
  ((lines fs.netTCP).filterMap fun line => (hostFlow pid [] line).map .of).take 6

-- What is listed in excess is what is missing.
def Balanced (fs : ProcFS) (pid : Int) : Prop :=
  ((repeats Prod.fst <| ownRows fs pid).map (·.snd) ++ 
    if (ownRows fs pid).length < 2 then connected fs pid else []).Perm <| (missing fs pid).map (·.snd)

-- The fallback is not needed, or it finds no connection on the host. Where the tables contradict each other, 
-- it has to find just the sockets that they lack, and where it is not needed a socket that is listed twice 
-- has to look like one that they lack.
structure Attributable (fs : ProcFS) (pid : Int) : Prop where
  settled : Settled fs pid → 2 ≤ (ownRows fs pid).length ∨ ∀ line ∈ lines fs.netTCP, Listening line
  few     : ¬Settled fs pid → (ownRows fs pid).length < 2 → 
    (connected fs pid).Perm ((missing fs pid).map (·.snd))
  many    : ¬Settled fs pid → 2 ≤ (ownRows fs pid).length → 
    ((repeats Prod.fst <| ownRows fs pid).map (·.snd)).Perm ((missing fs pid).map (·.snd))

section

variable {fs : ProcFS} {pid : Int} {comm line proto : Bytes} {table : Option (List Bytes)}

-- Each socket that is listed with an inode of the process counts once.
theorem sockets_inodes : 
    ((sockets fs pid).map (·.fst)).Nodup ∧ 
      ∀ inode, inode ∈ (sockets fs pid).map (·.fst) ↔ 
        inode ∈ (ownRows fs pid ++ hostRows fs pid).map (·.fst) :=
  ⟨nodup_map_firsts, fun _ => mem_map_firsts_iff⟩

theorem parseSockTable_eq : 
    (Enrich.parseSockTable table proto pid comm <| Enrich.socketInodes fs pid).map .of = 
      (held fs pid proto table).map (·.snd) := by
  rw [Enrich.parseSockTable, held, List.filter_filterMap, List.map_filterMap, List.map_filterMap]
  refine List.filterMap_congr fun line _ => ?_
  simp only [readRow]
  split
  case isTrue  => rfl
  case isFalse =>
    generalize Bytes.parseUint (line.fields.getD 9 []) 10 64 = u
    obtain ⟨inode, err⟩ := u
    cases err
    case some => rfl
    case none =>
      generalize Enrich.parseHexIPPort (line.fields.getD 1 []) = src
      generalize Enrich.parseHexIPPort (line.fields.getD 2 []) = dst
      by_cases hi : inode ∈ Enrich.socketInodes fs pid
      case neg => cases src <;> cases dst <;> simp [hi, Option.filter]
      case pos => cases src <;> cases dst <;> simp [hi, Option.filter, Shown.of]

variable (fs pid) in
theorem readNetConnections_eq : 
    (Enrich.readNetConnections fs pid).map .of = (ownRows fs pid).map (·.snd) := by
  rw [Enrich.readNetConnections]
  split
  case isTrue h  => simp [ownRows, held, h]
  case isFalse h => simp only [List.map_append, parseSockTable_eq, ownRows]

theorem readHostTCP_eq : (readHostTCP fs comm pid).map .of = connected fs pid := by
  have hc (line : Bytes) : (hostFlow pid comm line).map Shown.of = (hostFlow pid [] line).map Shown.of := by
    simp only [hostFlow]
    split
    case isTrue  => rfl
    case isFalse => split <;> rfl
  rw [readHostTCP, connected, List.map_take, List.map_filterMap]
  simp only [hc, lines]

variable {e : Engine} {t : Tick}

theorem readProcNet_flows [Unicode] [Zone] :
    (readProcNet e t pid comm).snd.flows.map .of = (ownRows t.fs pid).map (·.snd) ++ 
      if (ownRows t.fs pid).length < 2 then connected t.fs pid else [] := by
  have hl : (ownRows t.fs pid).length = (Enrich.readNetConnections t.fs pid).length := by
    simpa using congrArg List.length (readNetConnections_eq t.fs pid).symm
  have hf : (readProcNet e t pid comm).snd.flows = 
      if (Enrich.readNetConnections t.fs pid).length < 2 then 
        Enrich.readNetConnections t.fs pid ++ readHostTCP t.fs comm pid 
      else Enrich.readNetConnections t.fs pid := 
    rfl
  rw [hf, hl, ← readNetConnections_eq]
  split
  case isTrue  => rw [List.map_append, readHostTCP_eq]
  case isFalse => rw [List.append_nil]

-- The flows are right if and only if what is in excess makes up for what is missing.
theorem right_iff_balanced [Unicode] [Zone] : 
    Right t.fs pid (readProcNet e t pid comm).snd.flows ↔ Balanced t.fs pid := by
  have hs : (sockets t.fs pid).map (·.snd) = 
      (firsts Prod.fst <| ownRows t.fs pid).map (·.snd) ++ (missing t.fs pid).map (·.snd) := by
    rw [sockets, firsts_append, List.map_append, missing]
  have hp : ((ownRows t.fs pid).map (·.snd)).Perm <| (firsts Prod.fst <| ownRows t.fs pid).map (·.snd) ++ 
      (repeats Prod.fst <| ownRows t.fs pid).map (·.snd) := by
    rw [← List.map_append]
    exact perm_firsts_append_repeats.map _
  rw [Right, Balanced, readProcNet_flows, hs]
  refine (hp.append_right _).congr_left _ |>.trans ?_
  rw [List.append_assoc, List.perm_append_left_iff]

theorem tcpStates_eq_listen_iff {code : Bytes} : 
    (tcpStates.lookup code).getD (str "ESTABLISHED") = str "LISTEN" ↔ code = str "0A" := by
  constructor
  case mpr => 
    rintro rfl
    decide
  case mp  =>
    intro h
    cases hl : tcpStates.lookup code
    case none   =>
      rw [hl] at h
      contradiction
    case some v =>
      rw [hl, Option.getD_some] at h
      obtain ⟨l₁, l₂, he, _⟩ := List.lookup_eq_some_iff.mp hl
      have hm : (code, v) ∈ tcpStates := by simp [he]
      have ha : ∀ e ∈ tcpStates, e.snd = str "LISTEN" → e.fst = str "0A" := by decide
      exact ha _ hm h

theorem hostFlow_eq_none_iff : hostFlow pid comm line = none ↔ Listening line := by
  simp only [hostFlow, Listening, ← tcpStates_eq_listen_iff]
  split
  case isTrue h  => simp [h]
  case isFalse h =>
    split
    case isTrue h'  => exact iff_of_true rfl <| .inr h'
    case isFalse h' => exact iff_of_false (Option.some_ne_none _) <| not_or.mpr ⟨h, h'⟩

variable (pid) in
theorem connected_eq_nil_iff : connected fs pid = [] ↔ ∀ line ∈ lines fs.netTCP, Listening line := by
  simp [connected, List.take_eq_nil_iff, hostFlow_eq_none_iff]

theorem balanced_iff_of_settled (h : Settled fs pid) : 
    Balanced fs pid ↔ 2 ≤ (ownRows fs pid).length ∨ ∀ line ∈ lines fs.netTCP, Listening line := by
  rw [Balanced, repeats_eq_nil_iff.mpr h.nodup, h.complete, List.map_nil, List.nil_append, List.perm_nil, 
    ← connected_eq_nil_iff pid]
  split
  case isTrue hl  => simp [Nat.not_le_of_lt hl]
  case isFalse hl => simp [Nat.le_of_not_lt hl]

theorem balanced_iff_of_few (h : (ownRows fs pid).length < 2) : 
    Balanced fs pid ↔ (connected fs pid).Perm ((missing fs pid).map (·.snd)) := by
  have hr : repeats Prod.fst (ownRows fs pid) = [] := by
    rw [repeats_eq_nil_iff]
    rcases hl : ownRows fs pid with _ | ⟨_, _ | _⟩
    · exact List.nodup_nil
    · exact List.nodup_singleton _
    · simp only [hl, List.length_cons] at h
      omega
  rw [Balanced, hr, if_pos h, List.map_nil, List.nil_append]

theorem balanced_iff_of_many (h : 2 ≤ (ownRows fs pid).length) : 
    Balanced fs pid ↔ 
      ((repeats Prod.fst <| ownRows fs pid).map (·.snd)).Perm ((missing fs pid).map (·.snd)) := by
  rw [Balanced, if_neg <| Nat.not_lt_of_le h, List.append_nil]

-- The flows are the sockets of the target if and only if it has enough of them, or the host has no others.
theorem right_iff_attributable [Unicode] [Zone] : 
    Right t.fs pid (readProcNet e t pid comm).snd.flows ↔ Attributable t.fs pid := by
  rw [right_iff_balanced]
  constructor
  case mp  =>
    intro hb
    exact {
      settled := fun hs => balanced_iff_of_settled hs |>.mp hb
      few     := fun _ hl => balanced_iff_of_few hl |>.mp hb
      many    := fun _ hl => balanced_iff_of_many hl |>.mp hb
    }
  case mpr =>
    intro ha
    by_cases hs : Settled t.fs pid
    case pos => exact balanced_iff_of_settled hs |>.mpr <| ha.settled hs
    case neg => 
      rcases Nat.lt_or_ge (ownRows t.fs pid).length 2 with hl | hl
      · exact balanced_iff_of_few hl |>.mpr <| ha.few hs hl
      · exact balanced_iff_of_many hl |>.mpr <| ha.many hs hl

end

section Foreign

attribute [local instance] Unicode.ascii Zone.utcEpoch

-- The target has no sockets. Another process has a connection from 127.0.0.1:22 to 127.0.0.1:50000.
def solitary : ProcFS where
  processes := [.single 131 (.ofBytes <| str "agy") none (by decide)]
  netTCP    := some [
    str "  sl  local_address rem_address   st tx_queue rx_queue tr tm->when retrnsmt   uid  timeout inode",
    str "   0: 0100007F:0016 0100007F:C350 01 00000000:00000000 00:00000000 00000000     0        0 4711"
  ]
  nodup     := List.nodup_singleton _

theorem settled_solitary : Settled solitary 131 where
  nodup    := by decide +kernel
  complete := by decide +kernel

theorem not_right_solitary : 
    ¬∀ e t pid comm, Right t.fs pid (readProcNet e t pid comm).snd.flows := by
  intro h
  have hr := h (newEngine Time.epoch) ⟨Time.epoch, Time.epoch, solitary⟩ 131 (str "agy")
  have hb : Balanced solitary 131 := right_iff_balanced.mp hr
  rcases balanced_iff_of_settled settled_solitary |>.mp hb with hl | hl
  · exact absurd hl (by decide +kernel)
  · have hm := hl _ (List.mem_singleton_self _)
    revert hm
    simp only [Listening]
    decide +kernel

end Foreign
end RealEngine.Sockets
