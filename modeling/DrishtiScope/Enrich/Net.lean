import DrishtiScope.Enrich.Proc
import DrishtiScope.Go.Net

open Go Linux

namespace Enrich

def tcpStates : List (Bytes × Bytes) := [
  (str "01", str "ESTABLISHED"),
  (str "02", str "SYN_SENT"),
  (str "03", str "SYN_RECV"),
  (str "04", str "FIN_WAIT1"),
  (str "05", str "FIN_WAIT2"),
  (str "06", str "TIME_WAIT"),
  (str "07", str "CLOSE"),
  (str "08", str "CLOSE_WAIT"),
  (str "09", str "LAST_ACK"),
  (str "0A", str "LISTEN"),
  (str "0B", str "CLOSING")
]

def socketInodes (fs : ProcFS) (pid : Int) : List Nat :=
  let ents := (fs.find? pid).bind (·.fd) |>.getD []
  ents.filterMap fun e => do
    let target ← e.link
    if !target.hasPrefix (str "socket:[") then none else
      let s := (target.trimPrefix (str "socket:[")).trimSuffix (str "]")
      match s.parseUint 10 64 with
      | (n, none) => return n
      | _         => none

-- An IPv6 address consists of four words in the byte order of the host.
def parseHexIPPort (s : Bytes) : Option (Bytes × Int) :=
  match s.splitByte 58 with
  | [ipHex, port] => do
    let port ← parsed port 16
    if ipHex.length = 8 then
      let n ← parsed ipHex 32
      return (IP.string (IP.v4InV6Prefix ++ Bytes.ofWord n), port)
    else if ipHex.length = 32 then
      let words ← (List.range 4).mapM fun i => parsed ((ipHex.drop (i * 8)).take 8) 32
      return (IP.string (words.flatMap Bytes.ofWord), port)
    else
      none
  | _             => none
where
  parsed (s : Bytes) (bits : Nat) : Option Nat :=
    match s.parseUint 16 bits with
    | (n, none) => some n
    | _         => none

def parseSockTable (table : Option (List Bytes)) (proto : Bytes) (pid : Int) (comm : Bytes) 
    (inodes : List Nat) : List Agg.NetFlow :=
  -- The first line is a header.
  ((table.getD []).drop 1).filterMap fun line => do
    let fields := Bytes.fields line
    if fields.length < 10 then none else
      match Bytes.parseUint (fields.getD 9 []) 10 64 with
      | (inode, none) =>
        if inode ∉ inodes then none else
          let (src, sport) ← parseHexIPPort (fields.getD 1 [])
          let (dst, dport) ← parseHexIPPort (fields.getD 2 [])
          let st := (tcpStates.lookup (Bytes.toUpper (fields.getD 3 []))).getD []
          return {
            src   := src
            dst   := dst
            sport := sport
            dport := dport
            proto := proto
            state := if proto = str "udp" ∧ st = [] then str "UDP" else st
            pid   := pid
            comm  := comm
          }
      | _ => none

def readNetConnections (fs : ProcFS) (pid : Int) : List Agg.NetFlow :=
  let inodes := socketInodes fs pid
  let p := fs.find? pid
  if inodes = [] then
    []
  else
    let comm := ((p.bind (·.commFile)).map Bytes.trimSpace).getD []
    parseSockTable (p.bind (·.netTCP)) (str "tcp") pid comm inodes ++
    parseSockTable (p.bind (·.netTCP6)) (str "tcp") pid comm inodes ++
    parseSockTable (p.bind (·.netUDP)) (str "udp") pid comm inodes

section

variable {s src : Bytes} {sport pid : Int} {f : Agg.NetFlow} {table : Option (List Bytes)} {proto comm : Bytes} 
variable {inodes : List Nat} {fs : ProcFS}

theorem exists_ip_of_parseHexIPPort (h : parseHexIPPort s = some (src, sport)) : 
    ∃ ip, src = IP.string ip := by
  rw [parseHexIPPort] at h
  split at h
  case h_2 => contradiction
  case h_1 =>
    obtain ⟨port, _, h⟩ := Option.bind_eq_some_iff.mp h
    split at h
    case isTrue  =>
      obtain ⟨n, _, h⟩ := Option.bind_eq_some_iff.mp h
      cases h
      exact ⟨_, rfl⟩
    case isFalse =>
      split at h
      case isTrue  =>
        obtain ⟨words, _, h⟩ := Option.bind_eq_some_iff.mp h
        cases h
        exact ⟨_, rfl⟩
      case isFalse => contradiction

-- What is known of each socket that is read.
theorem mem_parseSockTable (h : f ∈ parseSockTable table proto pid comm inodes) : 
    f.pid = pid ∧ f.proto = proto ∧ (∃ ip, f.src = IP.string ip) ∧ ∃ ip, f.dst = IP.string ip := by
  obtain ⟨line, _, h⟩ := List.mem_filterMap.mp h
  simp only at h
  split at h <;> try contradiction
  split at h <;> try contradiction
  split at h <;> try contradiction
  obtain ⟨⟨src, sport⟩, hs, h⟩ := Option.bind_eq_some_iff.mp h
  obtain ⟨⟨dst, dport⟩, hd, h⟩ := Option.bind_eq_some_iff.mp h
  cases h
  exact ⟨rfl, rfl, exists_ip_of_parseHexIPPort hs, exists_ip_of_parseHexIPPort hd⟩

theorem mem_readNetConnections (h : f ∈ readNetConnections fs pid) : 
    f.pid = pid ∧ f.proto ∈ [str "tcp", str "udp"] ∧ (∃ ip, f.src = IP.string ip) ∧ 
      ∃ ip, f.dst = IP.string ip := by
  have ht {table : Option (List Bytes)} {proto comm : Bytes} {inodes : List Nat} 
      (hp : proto ∈ [str "tcp", str "udp"]) (h : f ∈ parseSockTable table proto pid comm inodes) : 
      f.pid = pid ∧ f.proto ∈ [str "tcp", str "udp"] ∧ (∃ ip, f.src = IP.string ip) ∧ 
        ∃ ip, f.dst = IP.string ip := by
    have ⟨h₁, h₂, h₃⟩ := mem_parseSockTable h
    exact ⟨h₁, h₂ ▸ hp, h₃⟩
  rw [readNetConnections] at h
  split at h
  case isTrue  => contradiction
  case isFalse =>
    rcases List.mem_append.mp h with h | h
    · rcases List.mem_append.mp h with h | h
      · exact ht (by simp) h
      · exact ht (by simp) h
    · exact ht (by simp) h

end
end Enrich
