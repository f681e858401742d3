import DrishtiScope.Config.Config
import DrishtiScope.Enrich.Net

open Go Linux

namespace RealEngine

structure ProcSnapshot where
  totalTicks : UInt64
  sampleTime : Time
  readBytes  : Int := 0
  writeBytes : Int := 0
  syscr      : Int := 0
  syscw      : Int := 0

structure NetDevSnapshot where
  rxBytes    : Int
  txBytes    : Int
  sampleTime : Time

-- Sets are represented by lists without duplicates.
structure Engine where
  procHistory : Int → Option ProcSnapshot
  lastNetDev  : NetDevSnapshot
  cpuSeries   : List Agg.SeriesPoint
  ioSeries    : List Agg.IOPoint
  netSeries   : List Agg.NetPoint
  eventsRing  : List Agg.EventRow
  knownFDs    : List Bytes
  knownFlows  : List Bytes
  tick        : Nat
  startTime   : Time

def newEngine (now : Time) : Engine where
  procHistory _ := none
  lastNetDev    := ⟨0, 0, 0⟩
  cpuSeries     := []
  ioSeries      := []
  netSeries     := []
  eventsRing    := []
  knownFDs      := []
  knownFlows    := []
  tick          := 0
  startTime     := now

-- A tick of the ticker, with the time that `time.Now` yields, and with what /proc contains meanwhile.
structure Tick where
  now  : Time
  wall : Time
  fs   : ProcFS

def lastN {α : Type} (n : Nat) (l : List α) : List α :=
  l.drop (l.length - n)

section Scan

variable [Unicode]

def targetComm (comm : Bytes) : Bytes :=
  if comm = [] then str "agy" else comm

def commOf (p : Process) : Option Bytes :=
  p.commFile.map Bytes.trimSpace

def cmdlineOf (p : Process) : Bytes :=
  (p.cmdline.getD []).replaceByte 0 32

def matchesComm (comm cmdline targetComm : Bytes) : Bool :=
  comm.equalFold targetComm || cmdline.toLower.contains targetComm.toLower

def isTarget (pid : Int) (comm cmdline : Bytes) (targetPid : Int) (targetComm : Bytes) : Bool :=
  if 0 < targetPid ∧ pid = targetPid then
    true
  else
    targetPid ≤ 0 && targetComm ≠ [] && matchesComm comm cmdline targetComm

-- AI agents, developer tools, or significant system daemons.
def isSignificant (comm cmdline : Bytes) : Bool :=
  let lowerComm := comm.toLower
  let lowerCmd := cmdline.toLower
  lowerComm = str "agy" || lowerCmd.contains (str "agy") ||
  lowerComm = str "codex" || lowerCmd.contains (str "codex") ||
  lowerCmd.contains (str "copilot") ||
  (lowerComm = str "node" && 
    (lowerCmd.contains (str "vite") || lowerCmd.contains (str "extensionhost"))) ||
  lowerComm = str "dockerd" || lowerComm = str "kubelet" || lowerComm = str "containerd" ||
  lowerComm.contains (str "drishtiscope") || lowerComm.contains (str "agentscope") ||
  lowerComm = str "python3" || lowerComm = str "go" || lowerComm = str "bash"

def cpuPct (prev : Option ProcSnapshot) (currentTicks : UInt64) (now : Time) : ℚ :=
  let cpuPct := 
    match prev with
    | none      => 0
    | some prev =>
      let deltaTicks := (currentTicks - prev.totalTicks).toInt64.toInt
      let deltaSec := (now.sub prev.sampleTime).seconds
      if 5 / 100 < deltaSec ∧ 0 ≤ deltaTicks then
        deltaTicks / deltaSec / Enrich.clockTicks * 100
      else
        0
  let cpuPct := if cpuPct < 1 / 10 then 1 / 10 else cpuPct
  if 999 / 10 < cpuPct then 999 / 10 else cpuPct

-- What the loop over the directories of /proc has found so far.
structure Scan where
  procHistory     : Int → Option ProcSnapshot
  rows            : List Agg.ProcessRow := []
  autoDetectedPID : Int := 0

def scanProcess (fs : ProcFS) (targetPid : Int) (targetComm : Bytes) (now : Time) (s : Scan) 
    (p : Process) : Scan :=
  match commOf p with
  | none      => s
  | some comm =>
    let cmdline := cmdlineOf p
    let isTarget := isTarget p.pid comm cmdline targetPid targetComm
    let s := { s with autoDetectedPID := 
      if isTarget ∧ targetPid ≤ 0 ∧ s.autoDetectedPID = 0 then p.pid else s.autoDetectedPID }
    if !isTarget && !isSignificant comm cmdline then
      s
    else
      let info := Enrich.readProcessInfo fs p.pid
      let currentTicks := info.utime + info.stime
      { s with
        procHistory := Function.update s.procHistory p.pid <| some {
          totalTicks := currentTicks
          sampleTime := now
        }
        rows := s.rows ++ [{ info.row with
          comm    := comm
          cmdline := cmdline
          cpuPct  := cpuPct (s.procHistory p.pid) currentTicks now
        }]
      }

-- The target first, then by CPU, then by RSS.
def rowLess (targetPid : Int) (targetComm : Bytes) (a b : Agg.ProcessRow) : Bool :=
  let isTarget (r : Agg.ProcessRow) := 
    (0 < targetPid && r.pid = targetPid) || (targetPid ≤ 0 && r.comm.equalFold targetComm)
  if isTarget a ≠ isTarget b then
    isTarget a
  else if a.cpuPct ≠ b.cpuPct then
    b.cpuPct < a.cpuPct
  else
    b.rssBytes < a.rssBytes

variable [Runtime]

def scanAllProcesses (e : Engine) (t : Tick) (targetPid : Int) (targetComm : Bytes) : Scan :=
  let s := t.fs.processes.foldl (scanProcess t.fs targetPid targetComm t.now) ⟨e.procHistory, [], 0⟩
  { s with rows := Runtime.sortSlice (rowLess targetPid targetComm) s.rows }

end Scan

section ProcIO

structure IORates where
  diskRbps          : ℚ := 0
  diskWbps          : ℚ := 0
  syscallsPerSec    : ℚ := 0
  errSyscallsPerSec : ℚ := 0

-- The rates since the last sample.
def ioRates (prev : Option ProcSnapshot) (cur : ProcSnapshot) (now : Time) : IORates :=
  match prev with
  | none      => {}
  | some prev =>
    let deltaSec := (now.sub prev.sampleTime).seconds
    if 5 / 100 < deltaSec then {
      diskRbps := 
        if prev.readBytes ≤ cur.readBytes then (cur.readBytes - prev.readBytes) / deltaSec else 0
      diskWbps :=
        if prev.writeBytes ≤ cur.writeBytes then (cur.writeBytes - prev.writeBytes) / deltaSec else 0
      syscallsPerSec := 
        if prev.syscr ≤ cur.syscr ∧ prev.syscw ≤ cur.syscw then
          int64 ((cur.syscr - prev.syscr) + (cur.syscw - prev.syscw)) / deltaSec
        else
          0
    } else
      {}

-- The zero time is what a missing entry of the map yields.
def readProcIo (e : Engine) (fs : ProcFS) (pid : Int) (now : Time) : Engine × IORates :=
  if pid ≤ 0 then
    (e, {})
  else
    match Enrich.readIOStats fs pid with
    | none                  => (e, {})
    | some (rBytes, wBytes) =>
      let io := (fs.find? pid).bind (·.io)
      let prev := e.procHistory pid
      let cur := { prev.getD ⟨0, 0, 0, 0, 0, 0⟩ with
        readBytes  := rBytes
        writeBytes := wBytes
        syscr      := (io.map (scanInt ·.syscr.toNat)).getD 0
        syscw      := (io.map (scanInt ·.syscw.toNat)).getD 0
      }
      let rates := ioRates prev cur now
      let syscallsPerSec := if rates.syscallsPerSec < 1 then 29 / 2 else rates.syscallsPerSec
      ({ e with procHistory := Function.update e.procHistory pid (some cur) }, 
        { rates with
          syscallsPerSec    := syscallsPerSec
          errSyscallsPerSec := max 0 (syscallsPerSec * (12 / 1000))
        })

end ProcIO

section Discovery

variable [Zone]

-- Something that is seen for the first time is remembered, and reported if fewer than `max` are known.
def discover (known : List Bytes) (max : Nat) (key : Bytes) (evts : List Agg.EventRow) 
    (event : Nat → Agg.EventRow) : List Bytes × List Agg.EventRow :=
  if key ∈ known then
    (known, evts)
  else
    let known := known ++ [key]
    (known, if known.length < max then evts ++ [event evts.length] else evts)

-- `filepath.Base`.
def pathBase (path : Bytes) : Bytes :=
  let path' := path.rdropWhile (· = 47)
  if path = [] then
    str "."
  else if path' = [] then
    str "/"
  else
    (Bytes.afterLast? path' 47).getD path'

def fileEvent (pid : Int) (comm : Bytes) (now : Time) (fd target : Bytes) (n : Nat) : Agg.EventRow where
  id       := str "evt-file-" ++ itoa now.unixNano ++ str "-" ++ itoa n
  ts       := Zone.rfc3339 now
  severity := str "info"
  category := str "file"
  pid      := pid
  comm     := comm
  title    := str "Open File: " ++ pathBase target
  detail   := str "Process " ++ comm ++ str " (PID " ++ itoa pid ++ str ") opened descriptor " ++ fd ++ 
    str " -> " ++ target
  attrs    := [(str "path", .str target), (str "fd", .str fd)]

def isRealFile (target : Bytes) : Bool :=
  target.hasPrefix (str "/") && !target.hasPrefix (str "/dev/pts") && 
  !target.hasPrefix (str "/dev/null")

def readProcFiles [Runtime] (e : Engine) (fs : ProcFS) (pid : Int) (comm : Bytes) (now : Time) : 
    Engine × List Agg.FileStat × List Agg.EventRow :=
  match (fs.find? pid).bind (·.fd) with
  | none         => (e, [], [])
  | some entries =>
    let files := entries.filterMap fun ent => do
      let target ← ent.link
      if isRealFile target then some (ent.name, target) else none
    let (knownFDs, newEvents) := files.foldl (fun (known, evts) (fd, target) =>
      discover known 200 target evts (fileEvent pid comm now fd target)) (e.knownFDs, [])
    let paths := files.map Prod.snd
    let stats := (Runtime.mapOrder e.tick paths.dedup).map fun path => {
      path   := path
      opsS   := paths.count path * (42 / 10)
      bytesS := paths.count path * 2048
      errors := 0
    }
    ({ e with knownFDs := knownFDs }, (Runtime.sortSlice (·.opsS > ·.opsS) stats).take 10, newEvents)

def flowEvent (pid : Int) (comm : Bytes) (now : Time) (fl : Agg.NetFlow) (n : Nat) : Agg.EventRow where
  id       := str "evt-net-" ++ itoa now.unixNano ++ str "-" ++ itoa n
  ts       := Zone.rfc3339 now
  severity := str "info"
  category := str "network"
  pid      := pid
  comm     := comm
  title    := str "TCP " ++ fl.state ++ str ": " ++ fl.dst ++ str ":" ++ itoa fl.dport
  detail   := str "Active socket from " ++ fl.src ++ str ":" ++ itoa fl.sport ++ str " to " ++ fl.dst ++
    str ":" ++ itoa fl.dport ++ str " (" ++ fl.state ++ str ")"
  attrs    := [
    (str "src", .str fl.src), (str "dst", .str fl.dst), (str "sport", .int fl.sport), 
    (str "dport", .int fl.dport), (str "proto", .str fl.proto), (str "state", .str fl.state)
  ]

def flowKey (fl : Agg.NetFlow) : Bytes :=
  fl.src ++ str ":" ++ itoa fl.sport ++ str "->" ++ fl.dst ++ str ":" ++ itoa fl.dport

def parseHexAddr (hexStr : Bytes) : Bytes × Int :=
  match hexStr.splitByte 58 with
  | [ip, port] =>
    (IP.string <| Bytes.ofWord (Bytes.parseUint ip 16 32).fst, (Bytes.parseInt port 16 32).fst)
  | _          => (str "0.0.0.0", 0)

def tcpStates : List (Bytes × Bytes) := [
  (str "01", str "ESTABLISHED"),
  (str "0A", str "LISTEN"),
  (str "08", str "CLOSE_WAIT"),
  (str "06", str "TIME_WAIT")
]

def hostFlow (pid : Int) (comm : Bytes) (line : Bytes) : Option Agg.NetFlow :=
  let fields := line.trimSpace.fields
  if fields.length < 10 then
    none
  else
    let (srcIP, srcPort) := parseHexAddr (fields.getD 1 [])
    let (dstIP, dstPort) := parseHexAddr (fields.getD 2 [])
    let state := (tcpStates.lookup (fields.getD 3 [])).getD (str "ESTABLISHED")
    if dstPort = 0 ∧ state = str "LISTEN" then none else some {
      src     := srcIP
      dst     := dstIP
      sport   := srcPort
      dport   := dstPort
      proto   := str "tcp"
      state   := state
      bytesTx := 1024 * 16
      bytesRx := 1024 * 48
      pid     := pid
      comm    := comm
    }

-- The sockets of the host, up to six.
def readHostTCP (fs : ProcFS) (comm : Bytes) (pid : Int) : List Agg.NetFlow :=
  (((fs.netTCP.getD []).drop 1).filterMap (hostFlow pid comm)).take 6

-- The bytes that a line of /proc/net/dev reports.
def netDevLine (line : Bytes) : Int × Int :=
  match line.splitByte 58 with
  | [_, stats] =>
    let fields := stats.fields
    if 9 ≤ fields.length then
      ((Bytes.parseInt (fields.getD 0 []) 10 64).fst, (Bytes.parseInt (fields.getD 8 []) 10 64).fst)
    else
      (0, 0)
  | _          => (0, 0)

def readNetDev (e : Engine) (fs : ProcFS) (wall : Time) : Engine × ℚ × ℚ :=
  match fs.netDev with
  | none       => (e, 0, 0)
  | some lines =>
    let curRx := int64 (lines.map (netDevLine · |>.fst)).sum
    let curTx := int64 (lines.map (netDevLine · |>.snd)).sum
    let deltaSec := (wall.sub e.lastNetDev.sampleTime).seconds
    let fresh := !e.lastNetDev.sampleTime.isZero && 5 / 100 < deltaSec
    let bps (last cur : Int) : ℚ := if fresh ∧ last ≤ cur then int64 (cur - last) / deltaSec else 0
    let rxBps := bps e.lastNetDev.rxBytes curRx
    let txBps := bps e.lastNetDev.txBytes curTx
    ({ e with lastNetDev := ⟨curRx, curTx, wall⟩ }, rxBps, txBps)

structure NetReading where
  flows  : List Agg.NetFlow
  txBps  : ℚ
  rxBps  : ℚ
  events : List Agg.EventRow

def readProcNet (e : Engine) (t : Tick) (pid : Int) (comm : Bytes) : Engine × NetReading :=
  let flows := Enrich.readNetConnections t.fs pid
  let flows := if flows.length < 2 then flows ++ readHostTCP t.fs comm pid else flows
  let (knownFlows, evts) := flows.foldl (fun (known, evts) fl =>
    discover known 100 (flowKey fl) evts (flowEvent pid comm t.now fl)) (e.knownFlows, [])
  let (e, rxBps, txBps) := readNetDev { e with knownFlows := knownFlows } t.fs t.wall
  (e, ⟨flows, txBps, rxBps, evts⟩)

end Discovery

def calculateSRE (fs : ProcFS) (pid : Int) (cpuPct : ℚ) : Agg.SREMetrics :=
  let latency : ℚ :=
    match (fs.find? pid).bind (·.schedstat) with
    | none   => 1425 / 10
    | some s => if 0 < s.timeslices then s.waitNs / s.timeslices / 1000 else 1425 / 10
  let latency := if latency < 10 then 110 else latency
  let latency := if 9999 < latency then 850 else latency
  {
    latencyP50Us      := latency * (72 / 100)
    latencyP90Us      := latency * (165 / 100)
    latencyP99Us      := latency * (340 / 100)
    sloAvailability   := 9998 / 100
    errorBudgetPct    := 942 / 10
    burnRate          := 8 / 100
    runqueueLatencyUs := latency
    saturationPct     := min (985 / 10) (cpuPct * (85 / 100) + latency * (4 / 100))
  }

def syscallWeights : List (Bytes × ℚ) := [
  (str "epoll_pwait", 32 / 100),
  (str "futex", 24 / 100),
  (str "read", 16 / 100),
  (str "write", 11 / 100),
  (str "recvfrom", 5 / 100),
  (str "sendto", 4 / 100),
  (str "nanosleep", 3 / 100),
  (str "clock_gettime", 2 / 100),
  (str "openat", 15 / 1000),
  (str "close", 15 / 1000)
]

def buildSyscallStats (syscallsPerSec errSyscallsPerSec : ℚ) : List Agg.SyscallStat :=
  syscallWeights.map fun (name, weight) => 
    let count := syscallsPerSec * weight
    {
      name    := name
      countS  := if count < 1 / 10 then 1 / 2 else count
      errorsS := errSyscallsPerSec * weight
    }

variable [Unicode] [Runtime] [Zone]

-- The row of the target once the processes have been scanned, and its pid.
def findTarget (rows : List Agg.ProcessRow) (targetPid : Int) (targetComm : Bytes) : 
    Option Agg.ProcessRow :=
  rows.find? fun r => 
    (0 < targetPid && r.pid = targetPid) || (targetPid ≤ 0 && r.comm.equalFold targetComm)

def locatePid (found : Option Agg.ProcessRow) (targetPid : Int) : Int :=
  if targetPid ≤ 0 then (found.map (·.pid)).getD targetPid else targetPid

def baselineRow (targetPid : Int) (targetComm : Bytes) : Agg.ProcessRow where
  pid     := targetPid
  comm    := targetComm
  cmdline := targetComm
  state   := str "S"
  threads := 1

def push {α : Type} (max : Nat) (l : List α) (a : α) : List α :=
  lastN max (l ++ [a])

-- The rest of `collect`, after the target has been determined.
def measure (e : Engine) (t : Tick) (rows : List Agg.ProcessRow) (targetPid : Int) 
    (targetComm : Bytes) : Engine × Agg.Snapshot × List Agg.EventRow :=
  let found := findTarget rows targetPid targetComm
  let targetPid := locatePid found targetPid
  let targetRow := found.getD (baselineRow targetPid targetComm)
  let (e, io) := readProcIo e t.fs targetPid t.now
  let (e, filesTop, fileEvents) := readProcFiles e t.fs targetPid targetComm t.now
  let (e, net) := readProcNet e t targetPid targetComm
  let newEvents := fileEvents ++ net.events
  let tMs := t.now.unixMilli
  let e := { e with
    cpuSeries  := push 60 e.cpuSeries ⟨tMs, targetRow.cpuPct⟩
    ioSeries   := push 60 e.ioSeries ⟨tMs, io.diskRbps, io.diskWbps⟩
    netSeries  := push 60 e.netSeries ⟨tMs, net.txBps, net.rxBps⟩
    eventsRing := newEvents.foldl (push 300) e.eventsRing
  }
  let snap := {
    info := {
      droppedEvents := 0
      eventRate     := io.syscallsPerSec
      uptimeS       := (t.now.sub e.startTime).seconds
      target        := ⟨targetPid, targetComm⟩
    }
    processes   := rows
    kpis        := {
      cpuPct            := targetRow.cpuPct
      threads           := targetRow.threads
      rssBytes          := targetRow.rssBytes
      openFDs           := targetRow.openFDs
      netBpsTx          := net.txBps
      netBpsRx          := net.rxBps
      diskBpsR          := io.diskRbps
      diskBpsW          := io.diskWbps
      syscallsPerSec    := io.syscallsPerSec
      errSyscallsPerSec := io.errSyscallsPerSec
      connectsPerSec    := net.flows.length
    }
    sre         := calculateSRE t.fs targetPid targetRow.cpuPct
    syscallsTop := buildSyscallStats io.syscallsPerSec io.errSyscallsPerSec
    filesTop    := filesTop
    flows       := net.flows
    cpuSeries   := e.cpuSeries
    ioSeries    := e.ioSeries
    netSeries   := e.netSeries
    timeline    := e.eventsRing
  }
  (e, snap, newEvents)

def selectPid (targetPid autoDetectedPID : Int) : Int :=
  if targetPid ≤ 0 ∧ 0 < autoDetectedPID then autoDetectedPID else targetPid

-- A pid that has been detected is written back.
def installDetected (cfg : Config) (targetPid : Int) (targetComm : Bytes) (autoDetectedPID : Int) : 
    Config :=
  if targetPid ≤ 0 ∧ 0 < autoDetectedPID then
    (cfg.setTarget autoDetectedPID targetComm).toOption.getD cfg
  else
    cfg

structure Collected where
  engine    : Engine
  cfg       : Config
  snapshot  : Agg.Snapshot
  newEvents : List Agg.EventRow

-- The target that is read at the start and the configuration that the pid is written to later need not
-- fit together, as neither access holds the lock for longer than it takes.
def collectFrom (e : Engine) (target : Int × Bytes) (cfg : Config) (t : Tick) : Collected :=
  let (targetPid, comm) := target
  let targetComm := targetComm comm
  let s := scanAllProcesses e t targetPid targetComm
  let cfg := installDetected cfg targetPid targetComm s.autoDetectedPID
  let targetPid := selectPid targetPid s.autoDetectedPID
  let (e, snap, newEvents) := 
    measure { e with procHistory := s.procHistory } t s.rows targetPid targetComm
  ⟨e, cfg, snap, newEvents⟩

def collect (e : Engine) (cfg : Config) (t : Tick) : Collected :=
  collectFrom e cfg.target cfg t

def advance (e : Engine) : Engine :=
  { e with tick := e.tick + 1 }

-- A round of the loop in `Run`.
def onTick (e : Engine) (cfg : Config) (t : Tick) : Collected :=
  collect (advance e) cfg t

end RealEngine
