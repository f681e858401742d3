import DrishtiScope.Go.Utf8
import DrishtiScope.Lib.BoundedMap
import DrishtiScope.Linux.Proc
import Mathlib.Data.Vector.Basic

open Go Linux

-- The structures and maps that the kernel program shares with userspace.
namespace Bpf

-- A field `char x[n]`.
abbrev CharArray (n : Nat) := List.Vector UInt8 n

namespace CharArray

def zeros (n : Nat) : CharArray n :=
  .replicate n 0

-- Writes a string with its terminating zero over the start of the buffer, cut so that it fits.
def store {n : Nat} (buf : CharArray n) (s : Bytes) : CharArray n :=
  let s := (s.takeWhile (· ≠ 0)).take (n - 1)
  ⟨(s ++ 0 :: buf.toList.drop (s.length + 1)).take n, by simp; omega⟩

-- `copy` into an array of zeros.
def ofBytes (n : Nat) (s : Bytes) : CharArray n :=
  ⟨(s ++ List.replicate n 0).take n, by simp⟩

-- `cstr`: the bytes before the first zero.
def cstr {n : Nat} (buf : CharArray n) : Bytes :=
  buf.toList.takeWhile (· ≠ 0)

variable {n : Nat} {buf : CharArray n} {s : Bytes}

theorem takeWhile_eq_self (hz : 0 ∉ s) : s.takeWhile (· ≠ 0) = s := by
  refine List.takeWhile_eq_self_iff.mpr fun b hb => ?_
  simp only [decide_eq_true_eq]
  exact fun he => hz (he ▸ hb)

theorem cstr_store (h : s.length < n) (hz : 0 ∉ s) : (buf.store s).cstr = s := by
  have ht := takeWhile_eq_self hz
  have hl : s.take (n - 1) = s := List.take_of_length_le (by omega)
  have ⟨k, hk⟩ : ∃ k, n - s.length = k + 1 := ⟨n - s.length - 1, by omega⟩
  simp only [cstr, store, List.Vector.toList_mk, ht, hl]
  rw [List.take_append, List.take_of_length_le h.le, hk, List.take_succ_cons]
  rw [List.takeWhile_append_of_pos <| List.takeWhile_eq_self_iff.mp ht]
  simp

theorem cstr_ofBytes (h : s.length < n) (hz : 0 ∉ s) : (ofBytes n s).cstr = s := by
  have ht := List.takeWhile_eq_self_iff.mp <| takeWhile_eq_self hz
  have ⟨k, hk⟩ : ∃ k, n - s.length = k + 1 := ⟨n - s.length - 1, by omega⟩
  simp only [cstr, ofBytes, List.Vector.toList_mk]
  rw [List.take_append, List.take_of_length_le h.le, List.takeWhile_append_of_pos ht, 
    List.take_replicate, hk, Nat.min_eq_left (by omega), List.replicate_succ]
  simp

theorem toList_zeros : (zeros n).toList = List.replicate n 0 :=
  rfl

-- Over zeros, the rest of the buffer stays zero.
theorem toList_store_zeros (h : s.length < n) (hz : 0 ∉ s) : 
    ((zeros n).store s).toList = s ++ List.replicate (n - s.length) 0 := by
  have hl : s.take (n - 1) = s := List.take_of_length_le (by omega)
  have ⟨k, hk⟩ : ∃ k, n = s.length + k + 1 := ⟨n - s.length - 1, by omega⟩
  subst hk
  simp only [store, toList_zeros, List.Vector.toList_mk, takeWhile_eq_self hz, hl, 
    List.drop_replicate]
  rw [← List.replicate_succ, List.take_append, List.take_of_length_le (by omega)]
  rw [List.take_replicate]
  congr 2
  omega

end CharArray

def evtExec    : UInt32 := 1
def evtExit    : UInt32 := 2
def evtOpen    : UInt32 := 3
def evtIO      : UInt32 := 4
def evtConnect : UInt32 := 5
def evtAccept  : UInt32 := 6

-- The bit of `flags` that marks a call as failed.
def flagFailed : UInt32 :=
  0x80000000

-- `struct event`, which userspace knows as `bpfEvent`.
structure Event where
  tsNs   : UInt64
  type   : UInt32
  pid    : UInt32
  tgid   : UInt32
  uid    : UInt32
  ret    : Int32
  flags  : UInt32
  extra  : UInt64
  saddr  : UInt32
  daddr  : UInt32
  sport  : UInt16
  dport  : UInt16
  family : UInt16
  pad    : UInt16
  comm   : CharArray 16
  path   : CharArray 128
  deriving DecidableEq

-- `struct config_t`.
structure ConfigT where
  targetTgid : UInt32
  sampleRate : UInt32
  observeAll : UInt32
  targetComm : CharArray 16
  deriving DecidableEq

-- `struct proc_stats`.
structure ProcStats where
  syscallCount : UInt64 := 0
  errCount     : UInt64 := 0
  readBytes    : UInt64 := 0
  writeBytes   : UInt64 := 0
  netTxBytes   : UInt64 := 0
  netRxBytes   : UInt64 := 0
  openCount    : UInt64 := 0
  connectCount : UInt64 := 0
  deriving DecidableEq

-- `struct open_state`.
structure OpenState where
  flags : UInt32
  path  : CharArray 128
  deriving DecidableEq

-- `struct connect_state`.
structure ConnectState where
  daddr  : UInt32
  dport  : UInt16
  family : UInt16
  fd     : UInt32
  deriving DecidableEq

-- `struct sockaddr_in_min`.
structure SockaddrIn where
  family : UInt16
  port   : UInt16
  addr   : UInt32
  deriving DecidableEq

-- The bytes of a ring buffer record: `struct event` and the header of the record.
def recordSize : Nat :=
  200 + 8

def ringSize : Nat :=
  16 * 1024 * 1024

-- The maps. `events` holds the records that userspace has not read yet. The counter of dropped events
-- is the sum over the processors, which is all that userspace reads.
structure Kernel where
  config          : ConfigT
  events          : List Event
  processStats    : BoundedMap UInt32 ProcStats 1024
  syscallCounts   : BoundedMap UInt32 UInt64 512
  dropCount       : UInt64
  targets         : BoundedMap UInt32 UInt8 256
  openInflight    : BoundedMap UInt32 OpenState 32768
  connectInflight : BoundedMap UInt32 ConnectState 32768

def Kernel.empty : Kernel where
  config          := ⟨0, 0, 0, .zeros 16⟩
  events          := []
  processStats    := ∅
  syscallCounts   := ∅
  dropCount       := 0
  targets         := ∅
  openInflight    := ∅
  connectInflight := ∅

-- The task on whose behalf the program runs, the clock, and what the ring buffer memory happens to
-- contain where the next record is placed.
structure Current where
  tgid  : UInt32
  tid   : UInt32
  uid   : UInt32
  comm  : Comm
  ktime : UInt64
  junk  : CharArray 128

-- The memory of the task, as far as it can be read.
structure UserMemory where
  str      : UInt64 → Option Bytes
  sockaddr : UInt64 → Option SockaddrIn

structure SysEnterCtx where
  id   : Int64
  args : List.Vector UInt64 6

structure SysExitCtx where
  id  : Int64
  ret : Int64

inductive Arch
  | x86_64
  | arm64
  deriving DecidableEq

namespace Arch

def sysRead : Arch → UInt32
  | arm64  => 63
  | x86_64 => 0

def sysWrite : Arch → UInt32
  | arm64  => 64
  | x86_64 => 1

def sysOpenat : Arch → UInt32
  | arm64  => 56
  | x86_64 => 257

def sysConnect : Arch → UInt32
  | arm64  => 203
  | x86_64 => 42

def sysAccept : Arch → UInt32
  | arm64  => 202
  | x86_64 => 43

def sysAccept4 : Arch → UInt32
  | arm64  => 242
  | x86_64 => 288

def sysSendto : Arch → UInt32
  | arm64  => 206
  | x86_64 => 44

def sysRecvfrom : Arch → UInt32
  | arm64  => 207
  | x86_64 => 45

def sysSendmsg : Arch → UInt32
  | arm64  => 211
  | x86_64 => 46

def sysRecvmsg : Arch → UInt32
  | arm64  => 212
  | x86_64 => 47

def sysWritev : Arch → UInt32
  | arm64  => 66
  | x86_64 => 20

def sysReadv : Arch → UInt32
  | arm64  => 65
  | x86_64 => 19

def sysPread64 : Arch → UInt32
  | arm64  => 67
  | x86_64 => 17

def sysPwrite64 : Arch → UInt32
  | arm64  => 68
  | x86_64 => 18

end Arch
end Bpf
