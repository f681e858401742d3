import DrishtiScope.Bpf.Program
import DrishtiScope.Config.Config
import DrishtiScope.Enrich.Proc

open Go Linux Bpf

namespace EbpfAgent

section Maps

-- The element of the `config` map. The comm is written whether or not there is a pid.
def writeConfigToMap (k : Kernel) (cfg : Config) (pids : List Int) : Kernel :=
  let (pid, comm) := cfg.target
  let val : ConfigT := {
    targetTgid := if 0 < pid then UInt32.ofInt pid else (pids.head?.map UInt32.ofInt).getD 0
    sampleRate := 32
    observeAll := 0
    targetComm := .ofBytes 16 comm
  }
  { k with config := val }

-- Puts every pid, ignoring failures, and then deletes the keys that are not wanted.
def syncTargetsToMap (k : Kernel) (pids : List Int) : Kernel :=
  let want := pids.map UInt32.ofInt
  let m := want.foldl (fun m key => m.insert key 1) k.targets
  let stale := m.keys.filter (· ∉ want)
  { k with targets := stale.foldl (fun m key => m.erase key) m }

end Maps

section Events

def intToIP (n : UInt32) : Bytes :=
  let byte (i : UInt32) := itoa ((n >>> i).toUInt8.toNat)
  byte 0 ++ str "." ++ byte 8 ++ str "." ++ byte 16 ++ str "." ++ byte 24

def uid (t : Time) : Bytes :=
  str "evt-" ++ itoa t.unixNano

-- `int` of an unsigned field.
def int (n : UInt32) : Int :=
  n.toNat

variable [Zone]

def eventRow (now : Time) (ev : Event) (severity category title : String) (detail : Bytes) 
    (attrs : List (Bytes × Agg.Attr)) : Agg.EventRow where
  id       := uid now
  ts       := Zone.rfc3339 now
  severity := str severity
  category := str category
  pid      := int ev.tgid
  comm     := ev.comm.cstr
  title    := str title
  detail   := detail
  attrs    := attrs

def failed (ev : Event) : Bool :=
  ev.flags &&& flagFailed ≠ 0

def errno (ev : Event) : Bytes :=
  str " — errno " ++ itoa (-ev.ret).toInt

-- The row for an event that passes the filter, if its type is known.
def rowOf (now : Time) (ev : Event) : Option Agg.EventRow :=
  let path := ev.path.cstr
  let dst := intToIP ev.daddr
  let dport := itoa ev.dport.toNat
  if ev.type = evtExec then
    some <| eventRow now ev "info" "process" "exec" path
      [(str "exe", .str path), (str "pid", .int (int ev.pid)), (str "tgid", .int (int ev.tgid))]
  else if ev.type = evtExit then
    some <| eventRow now ev "info" "process" "exit" (str "pid " ++ itoa (int ev.tgid) ++ str " exited")
      [(str "pid", .int (int ev.pid)), (str "tgid", .int (int ev.tgid))]
  else if ev.type = evtOpen then
    let attrs := 
      [(str "path", .str path), (str "flags", .int (int ev.flags)), (str "errno", .int ev.ret.toInt)]
    if ev.ret < 0 ∨ failed ev then
      some <| eventRow now ev "warn" "file" "file open failed" (path ++ errno ev) attrs
    else
      some <| eventRow now ev "info" "file" "file open" path attrs
  else if ev.type = evtConnect then
    if failed ev then
      some <| eventRow now ev "crit" "network" "connect failed" (dst ++ str ":" ++ dport ++ errno ev)
        [(str "dst", .str dst), (str "dport", .int ev.dport.toNat), (str "errno", .int ev.ret.toInt)]
    else
      some <| eventRow now ev "info" "network" "outbound connect" (str "→ " ++ dst ++ str ":" ++ dport)
        [(str "dst", .str dst), (str "dport", .int ev.dport.toNat), (str "proto", .str (str "tcp"))]
  else if ev.type = evtAccept then
    some <| eventRow now ev "info" "network" "inbound accept" (str "listen fd=" ++ itoa ev.extra.toNat)
      [(str "fd", .int ev.extra.toNat)]
  else
    none

-- Whether userspace takes the event for one of the target.
def passes (targetPid : Int) (targetComm : Bytes) (ev : Event) : Bool :=
  if 0 < targetPid ∧ int ev.tgid ≠ targetPid then
    false
  else if targetComm ≠ [] ∧ ev.comm.cstr ≠ targetComm then
    false
  else
    true

-- The row that is sent, if any.
def handleEvent (cfg : Config) (now : Time) (ev : Event) : Option Agg.EventRow :=
  let target := cfg.target
  if passes target.fst target.snd ev then rowOf now ev else none

variable {cfg : Config} {now : Time} {ev : Event} {pid : Int} {comm : Bytes}

omit [Zone] in
theorem passes_iff : 
    passes pid comm ev ↔ 
      (0 < pid → int ev.tgid = pid) ∧ (comm ≠ [] → ev.comm.cstr = comm) := by
  simp only [passes]
  split
  case isTrue h  => simp [h.left, h.right]
  case isFalse h =>
    split
    case isTrue h'  => simp [h'.left, h'.right]
    case isFalse h' => simp_all

theorem rowOf_isSome (h : ev.type ∈ [evtExec, evtExit, evtOpen, evtConnect, evtAccept]) : 
    (rowOf now ev).isSome := by
  simp only [rowOf]
  split_ifs <;> simp_all

theorem handleEvent_isSome_iff 
    (h : ev.type ∈ [evtExec, evtExit, evtOpen, evtConnect, evtAccept]) : 
    (handleEvent cfg now ev).isSome ↔ passes cfg.targetPid cfg.targetComm ev := by
  change (if passes cfg.targetPid cfg.targetComm ev then _ else none).isSome ↔ _
  split <;> simp_all [rowOf_isSome]

end Events
end EbpfAgent
