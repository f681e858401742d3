import DrishtiScope.Bpf.Types

open Go Linux

-- The tracepoint programs. Each runs to its end before the next one starts.
namespace Bpf

-- Whether the comm of the current task starts with `want`, where an empty `want` matches nothing.
def commPrefixMatch (want : CharArray 16) (cur : Current) : Bool :=
  if want.toList.head? = some 0 then
    false
  else
    go want.toList ((CharArray.zeros 16).store cur.comm.bytes).toList
where
  go : List UInt8 → List UInt8 → Bool
    | [], _                 => true
    | c :: want, comm       => 
      if c = 0 then 
        true 
      else match comm with
        | []        => false
        | b :: comm => if b ≠ c then false else go want comm

-- `bpf_probe_read_user_str` into a buffer of zeros, which it leaves as it is after a fault.
def UserMemory.readStr (mem : UserMemory) (ptr : UInt64) : CharArray 128 :=
  match mem.str ptr with
  | some s => (CharArray.zeros 128).store s
  | none   => CharArray.zeros 128

namespace Kernel

def isTarget (k : Kernel) (cur : Current) : Bool :=
  if k.config.observeAll ≠ 0 then
    true
  else if k.config.targetTgid ≠ 0 ∧ k.config.targetTgid = cur.tgid then
    true
  else if commPrefixMatch k.config.targetComm cur then
    true
  else
    cur.tgid ∈ k.targets

def recordDrop (k : Kernel) : Kernel :=
  { k with dropCount := k.dropCount + 1 }

-- `bpf_ringbuf_reserve` fails when the record would fill the buffer.
def ringFull (k : Kernel) : Bool :=
  ringSize ≤ (k.events.length + 1) * recordSize

-- The record is filled in by `fill` before it is submitted.
def allocEvent (k : Kernel) (cur : Current) (type pid tgid : UInt32) (fill : Event → Event) : 
    Kernel :=
  if k.ringFull then
    k.recordDrop
  else
    let e : Event := {
      tsNs   := cur.ktime
      type   := type
      pid    := pid
      tgid   := tgid
      uid    := cur.uid
      ret    := 0
      flags  := 0
      extra  := 0
      saddr  := 0
      daddr  := 0
      sport  := 0
      dport  := 0
      family := 0
      pad    := 0
      comm   := (CharArray.zeros 16).store cur.comm.bytes
      path   := cur.junk.set 0 0
    }
    { k with events := k.events ++ [fill e] }

def getStats (k : Kernel) (tgid : UInt32) : Kernel :=
  { k with processStats := k.processStats.insertNew tgid {} }

-- An atomic add through the pointer to the entry, if there is one.
def addStats (k : Kernel) (tgid : UInt32) (add : ProcStats → ProcStats) : Kernel :=
  { k with processStats := k.processStats.modify tgid add }

def bumpSyscall (k : Kernel) (nr : UInt32) : Kernel :=
  if nr ∈ k.syscallCounts then
    { k with syscallCounts := k.syscallCounts.modify nr (· + 1) }
  else
    { k with syscallCounts := k.syscallCounts.insertNew nr 1 }

-- Emitted unfiltered, so userspace can catch the target starting.
def tpExec (k : Kernel) (cur : Current) (filename : Option Bytes) : Kernel :=
  k.allocEvent cur evtExec cur.tid cur.tgid fun e => 
    match filename with
    | some f => { e with path := e.path.store f }
    | none   => e

def tpExit (k : Kernel) (cur : Current) : Kernel :=
  if !k.isTarget cur then
    k
  else if k.ringFull then
    k.recordDrop
  else
    let k := k.allocEvent cur evtExit cur.tid cur.tgid id
    { k with 
      processStats := k.processStats.erase cur.tgid
      targets      := k.targets.erase cur.tgid
    }

def enterOpenat (k : Kernel) (cur : Current) (ctx : SysEnterCtx) (mem : UserMemory) : Kernel :=
  let st : OpenState := {
    flags := (ctx.args.get 2).toUInt32
    path  := mem.readStr (ctx.args.get 1)
  }
  let k := { k with openInflight := k.openInflight.insert cur.tid st }
  let k := k.addStats cur.tgid fun ps => { ps with openCount := ps.openCount + 1 }
  k.allocEvent cur evtOpen cur.tid cur.tgid fun e => { e with flags := st.flags, path := st.path }

def enterConnect (k : Kernel) (cur : Current) (ctx : SysEnterCtx) (mem : UserMemory) : Kernel :=
  match mem.sockaddr (ctx.args.get 1) with
  | none     => k
  | some sin =>
    -- AF_INET
    if sin.family ≠ 2 then k else
      let mask : UInt16 := 0xff
      let st : ConnectState := {
        family := sin.family
        daddr  := sin.addr
        dport  := ((sin.port >>> 8) &&& mask) ||| ((sin.port &&& mask) <<< 8)
        fd     := (ctx.args.get 0).toUInt32
      }
      let k := { k with connectInflight := k.connectInflight.insert cur.tid st }
      k.addStats cur.tgid fun ps => { ps with connectCount := ps.connectCount + 1 }

def tpSysEnter (k : Kernel) (arch : Arch) (cur : Current) (ctx : SysEnterCtx) (mem : UserMemory) : 
    Kernel :=
  if !k.isTarget cur then k else
    let nr := ctx.id.toUInt64.toUInt32
    let k := k.getStats cur.tgid
    let k := k.addStats cur.tgid fun ps => { ps with syscallCount := ps.syscallCount + 1 }
    let k := k.bumpSyscall nr
    if nr = arch.sysOpenat then
      k.enterOpenat cur ctx mem
    else if nr = arch.sysConnect then
      k.enterConnect cur ctx mem
    else if nr = arch.sysAccept ∨ nr = arch.sysAccept4 then
      k.allocEvent cur evtAccept cur.tid cur.tgid fun e => { e with extra := ctx.args.get 0 }
    else
      k

-- The bytes that a successful call has moved.
def countBytes (arch : Arch) (nr : UInt32) (ret : Int64) (ps : ProcStats) : ProcStats :=
  let n := ret.toUInt64
  let ps := 
    if nr = arch.sysRead ∨ nr = arch.sysPread64 ∨ nr = arch.sysReadv then
      { ps with readBytes := ps.readBytes + n }
    else ps
  let ps :=
    if nr = arch.sysWrite ∨ nr = arch.sysPwrite64 ∨ nr = arch.sysWritev then
      { ps with writeBytes := ps.writeBytes + n }
    else ps
  let ps :=
    if nr = arch.sysSendto ∨ nr = arch.sysSendmsg then
      { ps with netTxBytes := ps.netTxBytes + n }
    else ps
  if nr = arch.sysRecvfrom ∨ nr = arch.sysRecvmsg then
    { ps with netRxBytes := ps.netRxBytes + n }
  else ps

def exitStats (k : Kernel) (arch : Arch) (tgid nr : UInt32) (ret : Int64) : Kernel :=
  if ret < 0 then
    k.addStats tgid fun ps => { ps with errCount := ps.errCount + 1 }
  else if 0 < ret then
    k.addStats tgid (countBytes arch nr ret)
  else
    k

def exitOpenat (k : Kernel) (cur : Current) (ret : Int64) : Kernel :=
  let k' := 
    match k.openInflight.lookup cur.tid with
    | some st =>
      if ret < 0 then
        k.allocEvent cur evtOpen cur.tid cur.tgid fun e => 
          { e with ret := ret.toInt32, flags := st.flags ||| flagFailed, path := st.path }
      else k
    | none => k
  { k' with openInflight := k'.openInflight.erase cur.tid }

def exitConnect (k : Kernel) (cur : Current) (ret : Int64) : Kernel :=
  let k' := 
    match k.connectInflight.lookup cur.tid with
    | some st =>
      -- -EINPROGRESS: the handshake is still in flight.
      if ret ≠ -115 then
        k.allocEvent cur evtConnect cur.tid cur.tgid fun e => { e with
          ret    := ret.toInt32
          daddr  := st.daddr
          dport  := st.dport
          family := st.family
          extra  := st.fd.toUInt64
          flags  := if ret < 0 then flagFailed else e.flags
        }
      else k
    | none => k
  { k' with connectInflight := k'.connectInflight.erase cur.tid }

def tpSysExit (k : Kernel) (arch : Arch) (cur : Current) (ctx : SysExitCtx) : Kernel :=
  if !k.isTarget cur then k else
    let nr := ctx.id.toUInt64.toUInt32
    let k := k.exitStats arch cur.tgid nr ctx.ret
    if nr = arch.sysOpenat then
      k.exitOpenat cur ctx.ret
    else if nr = arch.sysConnect then
      k.exitConnect cur ctx.ret
    else
      k

end Kernel

inductive Tracepoint
  | exec (filename : Option Bytes)
  | exit
  | sysEnter (ctx : SysEnterCtx) (mem : UserMemory)
  | sysExit (ctx : SysExitCtx)

def Kernel.run (k : Kernel) (arch : Arch) (cur : Current) : Tracepoint → Kernel
  | .exec filename    => k.tpExec cur filename
  | .exit             => k.tpExit cur
  | .sysEnter ctx mem => k.tpSysEnter arch cur ctx mem
  | .sysExit ctx      => k.tpSysExit arch cur ctx

end Bpf
