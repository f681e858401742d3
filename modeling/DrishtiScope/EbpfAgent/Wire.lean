import DrishtiScope.Bpf.Layout
import DrishtiScope.EbpfAgent.LiveState

open Go Bpf Layout

-- What userspace reads from the kernel's memory and writes to it.
namespace EbpfAgent

-- `binary.Read` of a struct in little endian. It first reads as many bytes as the fields have together.
def binaryRead {α : Type} (d : Decoder α) (raw : Bytes) : Option α :=
  if raw.length < d.size then none else some (d.decode (raw.take d.size))

-- The fields in the order and with the types of the Go declarations.
def bpfEvent : Decoder Event :=
  Decoder.pure Event.mk
    |>.field .uint64      -- TsNs
    |>.field .uint32      -- Type
    |>.field .uint32      -- Pid
    |>.field .uint32      -- Tgid
    |>.field .uint32      -- Uid
    |>.field .int32       -- Ret
    |>.field .uint32      -- Flags
    |>.field .uint64      -- Extra
    |>.field .uint32      -- Saddr
    |>.field .uint32      -- Daddr
    |>.field .uint16      -- Sport
    |>.field .uint16      -- Dport
    |>.field .uint16      -- Family
    |>.field .uint16      -- Pad
    |>.field (.bytes 16)  -- Comm
    |>.field (.bytes 128) -- Path

-- `binary.Write` of a `bpfConfig`.
def bpfConfig (val : ConfigT) : Bytes :=
  Codec.uint32.encode val.targetTgid ++ 
  Codec.uint32.encode val.sampleRate ++ 
  Codec.uint32.encode val.observeAll ++ 
  (Codec.bytes 16).encode val.targetComm

def bpfProcStats : Decoder ProcStats :=
  Decoder.pure ProcStats.mk
    |>.field .uint64 -- SyscallCount
    |>.field .uint64 -- ErrCount
    |>.field .uint64 -- ReadBytes
    |>.field .uint64 -- WriteBytes
    |>.field .uint64 -- NetTxBytes
    |>.field .uint64 -- NetRxBytes
    |>.field .uint64 -- OpenCount
    |>.field .uint64 -- ConnectCount

section Read

variable {α : Type} {d : Decoder α} {raw : Bytes} {a : α} {ev : Event} {ps : ProcStats}

theorem binaryRead_of_reads (h : d.Reads raw a) : binaryRead d raw = some a := by
  have hl : ¬raw.length < d.size := h.size ▸ Nat.lt_irrefl _
  have ht : raw.take d.size = raw ++ [] := by rw [h.size, List.take_length, List.append_nil]
  rw [binaryRead, if_neg hl, ht, h.decode]

theorem bpfEvent_reads : bpfEvent.Reads (pack Event.members ev) ev := by
  have h : bpfEvent.Reads _ ev := Decoder.Reads.pure
    |>.field ev.tsNs
    |>.field ev.type
    |>.field ev.pid
    |>.field ev.tgid
    |>.field ev.uid
    |>.field ev.ret
    |>.field ev.flags
    |>.field ev.extra
    |>.field ev.saddr
    |>.field ev.daddr
    |>.field ev.sport
    |>.field ev.dport
    |>.field ev.family
    |>.field ev.pad
    |>.field ev.comm
    |>.field ev.path
  simpa [pack, Event.members] using h

theorem bpfProcStats_reads : bpfProcStats.Reads (pack ProcStats.members ps) ps := by
  have h : bpfProcStats.Reads _ ps := Decoder.Reads.pure
    |>.field ps.syscallCount
    |>.field ps.errCount
    |>.field ps.readBytes
    |>.field ps.writeBytes
    |>.field ps.netTxBytes
    |>.field ps.netRxBytes
    |>.field ps.openCount
    |>.field ps.connectCount
  simpa [pack, ProcStats.members] using h

theorem bpfConfig_eq {val : ConfigT} : bpfConfig val = pack ConfigT.members val := by
  simp [bpfConfig, pack, ConfigT.members]

end Read

section Agree

variable [Zone] {marshal : ConfigT → Nat → Option Bytes} {unmarshal : Bytes → Option ProcStats}

-- A round of the loop in `readRingbuf`: the state after it, and the row that is sent.
def readRecord (cfg : Config) (now : Time) (s : LiveState) (rawSample : Bytes) : 
    LiveState × Option Agg.EventRow :=
  match binaryRead bpfEvent rawSample with
  | none    => (s, none)
  | some ev => (s.noteEvent ev, handleEvent cfg now ev)

theorem readRecord_of_short {cfg : Config} {now : Time} {s : LiveState} {raw : Bytes} 
    (h : raw.length < 200) : readRecord cfg now s raw = (s, none) := by
  have hl : raw.length < bpfEvent.size := h
  rw [readRecord, binaryRead, if_pos hl]

-- The bytes of a map's value are left to the library that accesses the map: `marshal` encodes a value
-- for a map whose values have a certain size, and `unmarshal` decodes one.
structure WireAgrees (marshal : ConfigT → Nat → Option Bytes) (unmarshal : Bytes → Option ProcStats) : 
    Prop where
  event     : ∀ ev mem, Represents Event.members ev mem → binaryRead bpfEvent mem = some ev
  short     : ∀ cfg now s raw, raw.length < sizeof Event.members → readRecord cfg now s raw = (s, none)
  config    : ∀ val, ∃ mem, 
    marshal val (sizeof ConfigT.members) = some mem ∧ Represents ConfigT.members val mem
  procStats : ∀ ps mem, Represents ProcStats.members ps mem → unmarshal mem = some ps

-- The library uses `binary.Write` and `binary.Read` for structs, provided that their size is the one
-- of the map's values.
theorem wireAgrees 
    (hm : ∀ val size, (bpfConfig val).length = size → marshal val size = some (bpfConfig val))
    (hu : ∀ raw, raw.length = bpfProcStats.size → unmarshal raw = binaryRead bpfProcStats raw) : 
    WireAgrees marshal unmarshal where
  event ev mem h := by
    rw [Event.represents_iff.mp h]
    exact binaryRead_of_reads bpfEvent_reads
  short _ _ _ _ h := readRecord_of_short h
  config val := by
    have hr : Represents ConfigT.members val (bpfConfig val) := ConfigT.represents_iff.mpr bpfConfig_eq
    exact ⟨_, hm val _ hr.length, hr⟩
  procStats ps mem h := by
    have hr : bpfProcStats.Reads mem ps := ProcStats.represents_iff.mp h ▸ bpfProcStats_reads
    rw [hu mem hr.size.symm]
    exact binaryRead_of_reads hr

end Agree

section Native

attribute [local instance] Zone.utcEpoch

def marshalNative (val : ConfigT) (size : Nat) : Option Bytes :=
  if (bpfConfig val).length = size then some (bpfConfig val) else none

theorem wireAgrees_native : WireAgrees marshalNative (binaryRead bpfProcStats) :=
  wireAgrees (fun _ _ h => if_pos h) fun _ _ => rfl

end Native
end EbpfAgent
