import DrishtiScope.Bpf.Types
import DrishtiScope.Lib.Layout

open Layout

-- The members of the structures in the order and with the types of the C declarations.
namespace Bpf

def Event.members : List (Member Event) :=
  [
    ⟨.uint64, Event.tsNs⟩,
    ⟨.uint32, Event.type⟩,
    ⟨.uint32, Event.pid⟩,
    ⟨.uint32, Event.tgid⟩,
    ⟨.uint32, Event.uid⟩,
    ⟨.int32, Event.ret⟩,
    ⟨.uint32, Event.flags⟩,
    ⟨.uint64, Event.extra⟩,
    ⟨.uint32, Event.saddr⟩,
    ⟨.uint32, Event.daddr⟩,
    ⟨.uint16, Event.sport⟩,
    ⟨.uint16, Event.dport⟩,
    ⟨.uint16, Event.family⟩,
    ⟨.uint16, Event.pad⟩,
    ⟨.bytes 16, Event.comm⟩,
    ⟨.bytes 128, Event.path⟩
  ]

def ConfigT.members : List (Member ConfigT) :=
  [
    ⟨.uint32, ConfigT.targetTgid⟩,
    ⟨.uint32, ConfigT.sampleRate⟩,
    ⟨.uint32, ConfigT.observeAll⟩,
    ⟨.bytes 16, ConfigT.targetComm⟩
  ]

def ProcStats.members : List (Member ProcStats) :=
  [
    ⟨.uint64, ProcStats.syscallCount⟩,
    ⟨.uint64, ProcStats.errCount⟩,
    ⟨.uint64, ProcStats.readBytes⟩,
    ⟨.uint64, ProcStats.writeBytes⟩,
    ⟨.uint64, ProcStats.netTxBytes⟩,
    ⟨.uint64, ProcStats.netRxBytes⟩,
    ⟨.uint64, ProcStats.openCount⟩,
    ⟨.uint64, ProcStats.connectCount⟩
  ]

variable {ev : Event} {cfg : ConfigT} {ps : ProcStats} {mem : List UInt8}

-- None of the structures has a gap.
theorem Event.represents_iff : Represents members ev mem ↔ mem = pack members ev :=
  Layout.represents_iff rfl

theorem ConfigT.represents_iff : Represents members cfg mem ↔ mem = pack members cfg :=
  Layout.represents_iff rfl

theorem ProcStats.represents_iff : Represents members ps mem ↔ mem = pack members ps :=
  Layout.represents_iff rfl

end Bpf
