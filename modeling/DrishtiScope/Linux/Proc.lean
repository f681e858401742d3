import DrishtiScope.Go.Strings
import Mathlib.Data.List.Nodup

open Go

-- What the daemon can see of the running processes: the kernel's tasks and their files in /proc.
namespace Linux

-- The name of a task. The kernel keeps it in TASK_COMM_LEN (16) bytes with a terminating zero.
structure Comm where
  bytes  : Bytes
  length : bytes.length ≤ 15
  noZero : 0 ∉ bytes
  deriving DecidableEq

-- The name that a task gets when it is given a string as its name.
def Comm.ofBytes (s : Bytes) : Comm where
  bytes  := (s.takeWhile (· ≠ 0)).take 15
  length := List.length_take_le ..
  noZero h := by simpa using List.mem_takeWhile_imp (List.mem_of_mem_take h)

-- /proc/<pid>/comm.
def Comm.file (c : Comm) : Bytes :=
  c.bytes ++ [10]

structure Thread where
  tid  : Int
  comm : Comm
  deriving DecidableEq

-- The counters of /proc/<pid>/io.
structure IOCounters where
  syscr      : UInt64
  syscw      : UInt64
  readBytes  : UInt64
  writeBytes : UInt64
  deriving DecidableEq

-- The lines of /proc/<pid>/status that are read.
structure Status where
  tgid                  : Int
  uid                   : Int
  voluntaryCtxtSwitches : Nat
  deriving DecidableEq

-- /proc/<pid>/statm, in pages.
structure Statm where
  size     : Nat
  resident : Nat
  deriving DecidableEq

structure Schedstat where
  waitNs     : Nat
  timeslices : Nat
  deriving DecidableEq

structure FileDescriptor where
  name : Bytes
  -- The target of the link.
  link : Option Bytes
  deriving DecidableEq

def maxPid : Int :=
  4194304

-- A directory /proc/<pid> at the time of a scan. A file that cannot be read is `none`, which also
-- covers a process that goes away during the scan. A process with running threads has a name, which
-- is that of its first thread.
structure Process where
  pid       : Int
  threads   : List Thread
  comm      : Option Comm
  cmdline   : Option Bytes := none
  exe       : Option Bytes := none
  stat      : Option Bytes := none
  status    : Option Status := none
  statm     : Option Statm := none
  fd        : Option (List FileDescriptor) := none
  io        : Option IOCounters := none
  schedstat : Option Schedstat := none
  netTCP    : Option (List Bytes) := none
  netTCP6   : Option (List Bytes) := none
  netUDP    : Option (List Bytes) := none
  pid_pos   : 0 < pid
  pid_le    : pid ≤ maxPid
  named     : threads ≠ [] → comm.isSome
  leader    : ∀ t ∈ threads, t.tid = pid → comm = some t.comm

-- The numeric directories of /proc in the order of `os.ReadDir`, and the files of the host.
structure ProcFS where
  processes : List Process
  netTCP    : Option (List Bytes) := none
  netDev    : Option (List Bytes) := none
  nodup     : (processes.map (·.pid)).Nodup

namespace Process

-- A process with its first thread only.
def single (pid : Int) (comm : Comm) (stat : Option Bytes) (h : 0 < pid ∧ pid ≤ maxPid) : 
    Process where
  pid       := pid
  threads   := [⟨pid, comm⟩]
  comm      := some comm
  stat      := stat
  pid_pos   := h.left
  pid_le    := h.right
  named _   := rfl
  leader t ht _ := by rw [List.mem_singleton.mp ht]

def commFile (p : Process) : Option Bytes :=
  p.comm.map Comm.file

-- The id of a thread names a directory that can be opened, but that is not listed.
def hasTid (p : Process) (tid : Int) : Bool :=
  p.pid = tid || p.threads.any (·.tid = tid)

end Process

namespace ProcFS

variable {fs : ProcFS} {p q : Process} {pid : Int}

-- Threads are left out, although the files of /proc/<tid> can be read: the pid of a target that is the id of a thread 
-- is taken for that of a process that has ended.
def find? (fs : ProcFS) (pid : Int) : Option Process :=
  fs.processes.find? (·.pid = pid)

-- `os.Stat` of /proc/<pid> succeeds.
def stat (fs : ProcFS) (pid : Int) : Bool :=
  fs.processes.any (·.hasTid pid)

theorem eq_of_pid_eq (hp : p ∈ fs.processes) (hq : q ∈ fs.processes) (h : p.pid = q.pid) : p = q :=
  List.inj_on_of_nodup_map fs.nodup hp hq h

theorem find?_eq_some_iff : fs.find? pid = some p ↔ p ∈ fs.processes ∧ p.pid = pid := by
  constructor
  case mp =>
    intro h
    exact ⟨List.mem_of_find?_eq_some h, by simpa using List.find?_some h⟩
  case mpr =>
    rintro ⟨hm, rfl⟩
    cases hf : fs.find? p.pid
    case none   => simpa using List.find?_eq_none.mp hf p hm
    case some q =>
      have hq : q.pid = p.pid := by simpa using List.find?_some hf
      rw [eq_of_pid_eq (List.mem_of_find?_eq_some hf) hm hq]

theorem find?_of_mem (h : p ∈ fs.processes) : fs.find? p.pid = some p :=
  find?_eq_some_iff.mpr ⟨h, rfl⟩

theorem stat_of_mem (h : p ∈ fs.processes) : fs.stat p.pid := by
  simp only [stat, List.any_eq_true]
  exact ⟨p, h, by simp [Process.hasTid]⟩

end ProcFS
end Linux
