import DrishtiScope.Agg.Snapshot
import DrishtiScope.Go.Runtime
import DrishtiScope.Go.Strconv
import DrishtiScope.Lib.Closure
import DrishtiScope.Linux.Proc
import Mathlib.Data.List.Dedup

open Go Linux

namespace Enrich

def clockTicks : Int :=
  100

structure Stat where
  state      : Bytes
  ppid       : Int
  utime      : UInt64
  stime      : UInt64
  threads    : Int
  startTicks : UInt64
  deriving DecidableEq

-- Fields of /proc/<pid>/stat after the comm in parentheses: 0 state, 1 ppid, 11 utime, 12 stime,
-- 17 num_threads, 19 starttime.
def parseStat (data : Bytes) : Option Stat := do
  let rest ← data.afterLast? 41
  if rest.length ≤ 1 then none else
    let fields := Bytes.fields (rest.drop 1)
    if fields.length < 20 then none else
      return {
        state      := fields.getD 0 []
        ppid       := Bytes.atoi (fields.getD 1 []) |>.fst
        utime      := Bytes.parseUint (fields.getD 11 []) 10 64 |>.fst.toUInt64
        stime      := Bytes.parseUint (fields.getD 12 []) 10 64 |>.fst.toUInt64
        threads    := Bytes.atoi (fields.getD 17 []) |>.fst
        startTicks := Bytes.parseUint (fields.getD 19 []) 10 64 |>.fst.toUInt64
      }

def Process.parsedStat (p : Process) : Option Stat :=
  p.stat.bind parseStat

section Resolve

-- A comm is compared after trimming.
def commMatches (p : Process) (comm : Bytes) : Bool :=
  p.commFile.any fun b : Bytes => b.trimSpace.hasPrefix comm

def findByComm (fs : ProcFS) (comm : Bytes) : List Int :=
  (fs.processes.filter (commMatches · comm)).map (·.pid)

variable [Unicode]

def cmdlineMatches (p : Process) (substr : Bytes) : Bool :=
  p.cmdline.any fun b : Bytes => b ≠ [] && (b.replaceByte 0 32).toLower.contains substr.toLower

def findByCmdline (fs : ProcFS) (substr : Bytes) : List Int :=
  if substr = [] then
    []
  else
    (fs.processes.filter (cmdlineMatches · substr)).map (·.pid)

-- The map from a process to its parent.
def ppidOf (fs : ProcFS) : List (Int × Int) :=
  fs.processes.filterMap fun p => (Process.parsedStat p).map fun s => (p.pid, s.ppid)

variable [Runtime]

-- The loop stops by itself after a pass without a change, which comes at the latest when each pid of
-- `ppidOf` has been added.
def expandDescendants (fs : ProcFS) (roots : List Int) : List Int :=
  let ppidOf := ppidOf fs
  let want := 
    Closure.saturate (Runtime.mapOrder · ppidOf) (ppidOf.length + 1) 0 roots.dedup
  roots.filter (· ∈ want) ++ (Runtime.mapOrder (ppidOf.length + 1) want).filter (· ∉ roots)

def resolveTargets (fs : ProcFS) (pid : Int) (commPrefix : Bytes) : List Int :=
  if 0 < pid then
    if fs.stat pid then expandDescendants fs [pid] else []
  else if commPrefix = [] then
    []
  else
    let roots := findByComm fs commPrefix
    let roots := if roots = [] then findByCmdline fs commPrefix else roots
    if roots = [] then [] else expandDescendants fs roots

end Resolve

-- The processes from which a target starts: the pid itself, or else those that match by comm, or
-- else those that match by command line.
def roots [Unicode] (fs : ProcFS) (pid : Int) (comm : Bytes) : List Int :=
  if 0 < pid then
    if fs.stat pid then [pid] else []
  else if comm = [] then
    []
  else if findByComm fs comm = [] then
    findByCmdline fs comm
  else
    findByComm fs comm

-- The roots and all of their descendants.
def tree [Unicode] (fs : ProcFS) (pid : Int) (comm : Bytes) : Set Int :=
  Closure.closure (ppidOf fs) (roots fs pid comm)

section Resolve

variable {fs : ProcFS} {pid x : Int} {comm : Bytes} {rs : List Int}

theorem mem_findByComm : 
    x ∈ findByComm fs comm ↔ ∃ p ∈ fs.processes, commMatches p comm ∧ p.pid = x := by
  simp [findByComm, and_assoc]

theorem findByComm_nodup : (findByComm fs comm).Nodup :=
  fs.nodup.sublist <| List.filter_sublist.map _

-- No process is listed twice: the roots come first, then those that have been added.
theorem expandDescendants_nodup [Runtime] (h : rs.Nodup) : (expandDescendants fs rs).Nodup := by
  simp only [expandDescendants]
  apply (h.filter _).append
  case d₂ => 
    apply List.Nodup.filter
    exact (Runtime.mapOrder_perm _ _).nodup_iff.mpr <| Closure.saturate.nodup rs.nodup_dedup
  case dj =>
    intro x hr hn
    exact of_decide_eq_true (List.mem_filter.mp hn).right (List.mem_filter.mp hr).left

theorem mem_saturate_ppidOf [Runtime] : 
    x ∈ Closure.saturate (Runtime.mapOrder · (ppidOf fs)) ((ppidOf fs).length + 1) 0 rs.dedup ↔
      x ∈ Closure.closure (ppidOf fs) rs := by
  rw [Closure.saturate.mem_iff (fun _ _ => mem_mapOrder) (Nat.lt_succ_self _)]
  simp only [Closure.closure, List.mem_dedup]

theorem mem_expandDescendants [Runtime] : 
    x ∈ expandDescendants fs rs ↔ x ∈ Closure.closure (ppidOf fs) rs := by
  simp only [expandDescendants, List.mem_append, List.mem_filter, mem_mapOrder, decide_eq_true_eq,
    mem_saturate_ppidOf]
  constructor
  case mp =>
    intro h
    cases h
    case inl h => exact h.right
    case inr h => exact h.left
  case mpr =>
    intro h
    by_cases hr : x ∈ rs
    case pos => exact .inl ⟨hr, h⟩
    case neg => exact .inr ⟨h, hr⟩

variable [Unicode]

theorem mem_findByCmdline : 
    x ∈ findByCmdline fs comm ↔ 
      comm ≠ [] ∧ ∃ p ∈ fs.processes, cmdlineMatches p comm ∧ p.pid = x := by
  simp only [findByCmdline]
  split <;> simp_all [and_assoc]

theorem findByCmdline_nodup : (findByCmdline fs comm).Nodup := by
  simp only [findByCmdline]
  split
  case isTrue  => exact List.nodup_nil
  case isFalse => exact fs.nodup.sublist <| List.filter_sublist.map _

theorem roots_nodup : (roots fs pid comm).Nodup := by
  simp only [roots]
  split
  case isTrue =>
    split
    · exact List.nodup_singleton _
    · exact List.nodup_nil
  case isFalse =>
    split
    · exact List.nodup_nil
    · split
      · exact findByCmdline_nodup
      · exact findByComm_nodup

-- A root is the pid of the target or a process that is listed.
theorem mem_roots (h : x ∈ roots fs pid comm) : 
    (0 < pid ∧ x = pid) ∨ ∃ p ∈ fs.processes, p.pid = x := by
  simp only [roots] at h
  split at h
  case isTrue hp =>
    split at h
    · exact .inl ⟨hp, List.mem_singleton.mp h⟩
    · contradiction
  case isFalse =>
    split at h
    · contradiction
    · split at h
      · have ⟨_, p, hm, _, he⟩ := mem_findByCmdline.mp h
        exact .inr ⟨p, hm, he⟩
      · have ⟨p, hm, _, he⟩ := mem_findByComm.mp h
        exact .inr ⟨p, hm, he⟩

theorem root_mem_tree (h : x ∈ roots fs pid comm) : x ∈ tree fs pid comm :=
  Closure.root_mem_closure h

-- A pid that is given explicitly stands for the process, if there is one.
theorem pid_mem_tree {p : Process} (h : p ∈ fs.processes) : p.pid ∈ tree fs p.pid comm := by
  apply root_mem_tree
  rw [roots, if_pos p.pid_pos, if_pos (fs.stat_of_mem h)]
  exact List.mem_singleton_self _

theorem mem_tree (h : x ∈ tree fs pid comm) : 
    (0 < pid ∧ x = pid) ∨ ∃ p ∈ fs.processes, p.pid = x := by
  refine Closure.closure_least (S := { x | _ }) (fun _ => mem_roots) ?_ h
  intro c _ hc _
  have ⟨p, hp, he⟩ := List.mem_filterMap.mp hc
  have ⟨_, _, hs⟩ := Option.map_eq_some_iff.mp he
  exact .inr ⟨p, hp, congrArg Prod.fst hs⟩

variable [Runtime]

theorem resolveTargets_eq : 
    resolveTargets fs pid comm = 
      if roots fs pid comm = [] then [] else expandDescendants fs (roots fs pid comm) := by
  simp only [resolveTargets, roots]
  split
  case isTrue => split <;> simp
  case isFalse =>
    split
    case isTrue  => simp
    case isFalse =>
      by_cases h : findByComm fs comm = [] <;> simp [h]

theorem resolveTargets_nodup : (resolveTargets fs pid comm).Nodup := by
  rw [resolveTargets_eq]
  split
  case isTrue  => exact List.nodup_nil
  case isFalse => exact expandDescendants_nodup roots_nodup

-- The resolved pids are the tree of the target.
theorem mem_resolveTargets : x ∈ resolveTargets fs pid comm ↔ x ∈ tree fs pid comm := by
  rw [resolveTargets_eq, tree]
  split
  case isTrue h  => simp [h]
  case isFalse h => exact mem_expandDescendants

end Resolve

-- The row of a process and the clock ticks it has used.
structure ProcessInfo where
  row   : Agg.ProcessRow
  utime : UInt64
  stime : UInt64

-- `int64` of a count of pages, in bytes. A count that does not parse leaves the field at zero.
def pageBytes (pages : Nat) : Int :=
  int64 (scanInt pages * 4096)

-- Each file that cannot be read leaves its fields at zero, so there is no error.
def readProcessInfo (fs : ProcFS) (pid : Int) : ProcessInfo :=
  let p := fs.find? pid
  let stat := p.bind Process.parsedStat
  let status := p.bind (·.status)
  let statm := p.bind (·.statm)
  {
    row := {
      pid      := pid
      tgid     := (status.map (·.tgid)).getD pid
      ppid     := (stat.map (·.ppid)).getD 0
      comm     := ((p.bind (·.commFile)).map Bytes.trimSpace).getD []
      cmdline  := ((p.bind (·.cmdline)).map fun b : Bytes => (b.replaceByte 0 32).trimSpace).getD []
      exe      := (p.bind (·.exe)).getD []
      uid      := (status.map (·.uid)).getD 0
      state    := (stat.map (·.state)).getD []
      threads  := (stat.map (·.threads)).getD 0
      rssBytes := (statm.map (pageBytes ·.resident)).getD 0
      vmsBytes := (statm.map (pageBytes ·.size)).getD 0
      openFDs  := ((p.bind (·.fd)).map (·.length)).getD 0
      ctxSw    := (status.map (scanInt ·.voluntaryCtxtSwitches)).getD 0
    }
    utime := (stat.map (·.utime)).getD 0
    stime := (stat.map (·.stime)).getD 0
  }

def readIOStats (fs : ProcFS) (pid : Int) : Option (Int × Int) := do
  let io ← (← fs.find? pid).io
  return (scanInt io.readBytes.toNat, scanInt io.writeBytes.toNat)

end Enrich
