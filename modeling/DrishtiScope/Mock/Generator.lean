import DrishtiScope.Agg.Snapshot
import DrishtiScope.Config.Config
import DrishtiScope.Go.Strconv
import DrishtiScope.Lib.BufferedChannel

open Go Agg

-- The engine that makes up what it reports: its events, and the loop that emits them.
namespace Mock

structure MockGenerator where
  cfg  : Config
  tick : Int

def agyFiles : List Bytes := [
  str "/home/devuser/.local/share/agy/brain/transcript.jsonl",
  str "/home/devuser/agent-tracking/tracker.bpf.c",
  str "/home/devuser/agent-tracking/main.go",
  str "/sys/kernel/debug/tracing/events/raw_syscalls/enable",
  str "/proc/self/status",
  str "/proc/self/stat",
  str "/home/devuser/.local/bin/agy",
  str "/var/run/docker.sock"
]

def paymentsFiles : List Bytes := [
  str "/etc/resolv.conf",
  str "/var/lib/agent/ledger.db",
  str "/var/lib/agent/transactions.log",
  str "/tmp/scratch-9999",
  str "/proc/self/status",
  str "/proc/self/maps",
  str "/etc/ssl/certs/ca-certificates.crt",
  str "/var/run/secrets/token"
]

def staticFlowDst : List (Bytes × Int) := 
  [(str "10.0.0.10", 443), (str "1.1.1.1", 53), (str "10.0.1.50", 5432), (str "127.0.0.1", 45907)]

-- The channel of the events, with the random numbers and the readings of the clock that are still to come.
structure Output where
  events : BufferedChannel EventRow
  rng    : Nat → Nat
  clock  : Nat → Time

namespace Output

variable {α : Type*}

def intn (o : Output) (n : Nat) : Int × Output :=
  (o.rng 0 % n, { o with rng := fun i => o.rng (i + 1) })

def pick (o : Output) (l : List α) (default : α) : α × Output :=
  let (i, o) := o.intn l.length
  (l.getD i.toNat default, o)

def now (o : Output) : Time × Output :=
  (o.clock 0, { o with clock := fun i => o.clock (i + 1) })

def uid (o : Output) : Bytes × Output :=
  let (t, o) := o.now
  (str "evt-" ++ itoa t.unixNano, o)

def send (o : Output) (e : EventRow) : Output :=
  { o with events := o.events.trySend e }

end Output

section

variable [Unicode]

def isAgy (comm : Bytes) : Bool :=
  comm.equalFold (str "agy") || comm.toLower.contains (str "agy")

end

section Events

variable (target : ProcessRow) (agy : Bool) (nowStr : Bytes) (o : Output)

def outboundConnect : Output :=
  let ((ip, port), o) := o.pick staticFlowDst ([], 0)
  let (id, o) := o.uid
  o.send {
    id       := id
    ts       := nowStr
    severity := str "info"
    category := str "network"
    pid      := target.pid
    comm     := target.comm
    title    := if agy then str "telemetry streaming" else str "outbound connect"
    detail   := 
      if agy then 
        str "agy: stream batch to " ++ ip ++ str ":" ++ itoa port 
      else 
        str "→ " ++ ip ++ str ":" ++ itoa port ++ str " via tcp"
    attrs    := [
      (str "dst", .str ip), (str "dport", .int port), (str "proto", .str <| str "tcp"), 
      (str "state", .str <| str "ESTABLISHED")
    ]
  }

def fileOpen : Output :=
  let (path, o) := o.pick (if agy then agyFiles else paymentsFiles) []
  let (id, o) := o.uid
  o.send {
    id       := id
    ts       := nowStr
    severity := str "info"
    category := str "file"
    pid      := target.pid
    comm     := target.comm
    title    := str "file open"
    detail   := path
    attrs    := [(str "path", .str path), (str "flags", .str <| str "O_RDONLY")]
  }

def batchFlush : Output :=
  let (id, o) := o.uid
  let (n, o) := o.intn 400
  o.send {
    id       := id
    ts       := nowStr
    severity := str "info"
    category := str "syscall"
    pid      := target.pid
    comm     := target.comm
    title    := str "epoll_pwait batch flush"
    detail   := str "agy handled " ++ itoa (1200 + n) ++ str " syscalls in 2.0s window"
    attrs    := [
      (str "syscall", .str <| str "epoll_pwait"), (str "ret", .int 281), (str "batch_size", .int 15)
    ]
  }

def permissionDenied : Output :=
  let (id, o) := o.uid
  o.send {
    id       := id
    ts       := nowStr
    severity := str "warn"
    category := str "file"
    pid      := target.pid
    comm     := target.comm
    title    := str "permission denied"
    detail   := 
      if agy then 
        str "/proc/kallsyms — CAP_BPF / root required" 
      else 
        str "/etc/shadow — EACCES (uid=1000)"
    attrs    := [
      (str "path", .str <| str "/etc/shadow"), (str "flags", .str <| str "O_RDONLY"), 
      (str "errno", .int (-13))
    ]
  }

def childExec : Output :=
  let exe := 
    if agy then 
      str "/home/ramum/agent-tracking/agy-tracer" 
    else 
      str "/usr/lib/agent/plugins/agent-plugin"
  let (id, o) := o.uid
  let (n, o) := o.intn 50
  o.send {
    id       := id
    ts       := nowStr
    severity := str "info"
    category := str "process"
    pid      := target.pid + 100 + n
    comm     := if agy then str "agy-tracer" else str "agent-plugin"
    title    := str "child exec"
    detail   := exe
    attrs    := [(str "ppid", .int target.pid), (str "exe", .str exe)]
  }

def computeBurst (elapsedS : ℚ) : Output :=
  let (id, o) := o.uid
  let (n, o) := o.intn 600
  o.send {
    id       := id
    ts       := nowStr
    severity := str "info"
    category := str "compute"
    pid      := target.pid
    comm     := target.comm
    title    := str "compute burst"
    detail   := formatFixed 1 target.cpuPct ++ str "% CPU for " ++ itoa (300 + n) ++ str "ms"
    attrs    := [(str "cpu_pct", .float target.cpuPct), (str "uptime_s", .float elapsedS)]
  }

end Events

namespace MockGenerator

-- Whether the tick is one on which something happens that happens every `period` ms.
def due (g : MockGenerator) (period : Int) : Except Panic Bool := do
  let every ← quo period g.cfg.snapshotMs
  let r ← rem g.tick every
  return r = 0

variable [Unicode] [Zone]

def emitEventsForTarget (g : MockGenerator) (target : ProcessRow) (elapsedS : ℚ) (o : Output) : 
    Except Panic Output := do
  let (now, o) := o.now
  let nowStr := Zone.rfc3339 now
  let agy := isAgy target.comm
  let connect ← g.due 4000
  let o := if connect then outboundConnect target agy nowStr o else o
  let open' ← g.due 3000
  let o := if open' then fileOpen target agy nowStr o else o
  let batch ← (if agy then g.due 15000 else .ok false : Except Panic Bool)
  let o := if batch then batchFlush target nowStr o else o
  let alert ← g.due 60000
  let o := if alert && 0 < g.tick then permissionDenied target agy nowStr o else o
  let exec ← g.due 90000
  let o := if exec && 0 < g.tick then childExec target agy nowStr o else o
  let spike ← g.due 45000
  return if spike && 0 < g.tick then computeBurst target nowStr o elapsedS else o

end MockGenerator

-- `metaPID` and `metaComm`, the target that a snapshot shows.
def metaTarget (cfg : Config) (targetRow : ProcessRow) : Target :=
  let (currentPid, currentComm) := cfg.target
  let currentComm := if currentComm = [] then str "agy" else currentComm
  {
    pid  := if currentPid = 0 then targetRow.pid else currentPid
    comm := if currentComm = [] then targetRow.comm else currentComm
  }

-- What happens between two ticks and at a tick. All the rest of a tick computes the row of the target, and
-- that row may be any here.
inductive Input
  | tick (target : ProcessRow) (elapsedS : ℚ) (rng : Nat → Nat) (clock : Nat → Time)
  | receive

structure State where
  generator : MockGenerator
  events    : BufferedChannel EventRow

section Run

variable [Unicode] [Zone]

def State.step (s : State) : Input → Except Panic State
  | .tick target elapsedS rng clock => do
    let g := { s.generator with tick := int64 (s.generator.tick + 1) }
    let o ← g.emitEventsForTarget target elapsedS ⟨s.events, rng, clock⟩
    return ⟨g, o.events⟩
  | .receive => 
    .ok { s with events := (s.events.tryReceive.map (·.snd)).getD s.events }

-- `Run` as long as its context is not done. A panic ends the daemon.
def State.run (s : State) (is : List Input) : Except Panic State :=
  is.foldlM State.step s

end Run

section Periods

variable [Unicode]

-- The periods that are divided by the interval for a target.
def periods (comm : Bytes) : List Int :=
  [4000, 3000] ++ (if isAgy comm then [15000] else []) ++ [60000, 90000, 45000]

-- The divisors of the modulo operations.
def divisors (g : MockGenerator) (target : ProcessRow) : List Int :=
  (periods target.comm).map (·.tdiv g.cfg.snapshotMs)

variable [Zone] {g : MockGenerator} {target : ProcessRow} {elapsedS : ℚ} {o : Output} {s : State} 
         {is : List Input} {ε α β : Type}

omit [Unicode] [Zone] in
theorem isOk_bind_iff {x : Except ε α} {f : α → Except ε β} {P : Prop} 
    (h : ∀ a, x = .ok a → ((∃ b, f a = .ok b) ↔ P)) : 
    (∃ b, (x >>= f) = .ok b) ↔ (∃ a, x = .ok a) ∧ P := by
  cases x
  case error => simp [bind, Except.bind]
  case ok a  => simpa [bind, Except.bind] using h a rfl

omit [Unicode] [Zone] in
theorem due_isOk_iff {period : Int} : 
    (∃ b, g.due period = .ok b) ↔ g.cfg.snapshotMs ≠ 0 ∧ period.tdiv g.cfg.snapshotMs ≠ 0 := by
  by_cases hm : g.cfg.snapshotMs = 0
  case pos => simp [MockGenerator.due, quo, hm, bind, Except.bind]
  case neg =>
    by_cases hd : period.tdiv g.cfg.snapshotMs = 0
    case pos => simp [MockGenerator.due, quo, rem, hm, hd, bind, Except.bind]
    case neg => simp [MockGenerator.due, quo, rem, hm, hd, bind, Except.bind, pure, Except.pure]

-- All divisions that are made for a target succeed, or there is a panic.
theorem emitEventsForTarget_isOk_iff : 
    (∃ o', g.emitEventsForTarget target elapsedS o = .ok o') ↔ 
      ∀ period ∈ periods target.comm, ∃ b, g.due period = .ok b := by
  have hb : (∃ b, (if isAgy target.comm then g.due 15000 else .ok false) = .ok b) ↔ 
      ∀ period ∈ if isAgy target.comm then [15000] else [], ∃ b, g.due period = .ok b := by
    split <;> simp
  simp only [periods, List.mem_append, or_imp, forall_and, ← hb, List.forall_mem_cons, List.not_mem_nil, 
    false_implies, implies_true, and_true]
  simp only [and_assoc, MockGenerator.emitEventsForTarget]
  iterate 5 refine isOk_bind_iff fun _ _ => ?_
  exact isOk_bind_iff (fun _ _ => iff_true_intro ⟨_, rfl⟩) |>.trans <| and_iff_left trivial

omit [Zone] in
theorem periods_pos {period : Int} (h : period ∈ periods target.comm) : 0 < period := by
  simp only [periods, List.mem_append, List.mem_cons, List.not_mem_nil, or_false] at h
  grind

-- The shortest period is the one of the files.
omit [Zone] in
theorem forall_le_periods_iff {ms : Int} : 
    (∀ period ∈ periods target.comm, ms ≤ period) ↔ ms ≤ 3000 := by
  constructor
  case mp  => exact fun hp => hp 3000 <| by simp [periods]
  case mpr =>
    intro hm period hp
    simp only [periods, List.mem_append, List.mem_cons, List.not_mem_nil, or_false] at hp
    grind

omit [Unicode] [Zone] in
theorem tdiv_pos_iff {a b : Int} (ha : 0 ≤ a) (hb : 0 < b) : 0 < a.tdiv b ↔ b ≤ a := by
  rw [Int.tdiv_eq_ediv_of_nonneg ha]
  have h := Int.le_ediv_iff_mul_le (a := 1) (b := a) hb
  rwa [one_mul] at h

omit [Zone] in
theorem divisors_pos_iff (h : 0 < g.cfg.snapshotMs) : 
    (∀ d ∈ divisors g target, 0 < d) ↔ g.cfg.snapshotMs ≤ 3000 := by
  rw [divisors, List.forall_mem_map, ← forall_le_periods_iff]
  exact forall₂_congr fun period hp => tdiv_pos_iff (periods_pos hp).le h

theorem emitEventsForTarget_isOk (h : 0 < g.cfg.snapshotMs) : 
    (∃ o', g.emitEventsForTarget target elapsedS o = .ok o') ↔ g.cfg.snapshotMs ≤ 3000 := by
  rw [emitEventsForTarget_isOk_iff, ← forall_le_periods_iff]
  refine forall₂_congr fun period hp => ?_
  have hd := tdiv_pos_iff (periods_pos hp).le h
  have hn : 0 ≤ period.tdiv g.cfg.snapshotMs := Int.tdiv_nonneg (periods_pos hp).le h.le
  rw [due_isOk_iff]
  grind

end Periods

section Ticks

variable [Unicode] [Zone] {g : MockGenerator} {s s' : State} {i : Input} {is : List Input} 
         {quote : Bytes → Bytes}

def Input.isTick : Input → Bool
  | tick .. => true
  | receive => false

theorem State.step_cfg (h : s.step i = .ok s') : s'.generator.cfg = s.generator.cfg := by
  cases i
  case receive => exact Except.ok.inj h ▸ rfl
  case tick target elapsedS rng clock =>
    simp only [State.step, bind, Except.bind] at h
    split at h <;> try contradiction
    exact Except.ok.inj h ▸ rfl

theorem State.step_isOk_iff (h : 0 < s.generator.cfg.snapshotMs) : 
    (∃ s', s.step i = .ok s') ↔ (i.isTick → s.generator.cfg.snapshotMs ≤ 3000) := by
  cases i
  case receive => exact iff_of_true ⟨_, rfl⟩ fun h => absurd h Bool.false_ne_true
  case tick target elapsedS rng clock =>
    let g := { s.generator with tick := int64 (s.generator.tick + 1) }
    have he := @emitEventsForTarget_isOk _ _ g target elapsedS ⟨s.events, rng, clock⟩ h
    rw [Input.isTick, imp_iff_right rfl, ← he]
    exact isOk_bind_iff (fun _ _ => iff_true_intro ⟨_, rfl⟩) |>.trans <| and_iff_left trivial

-- A run goes on for as long as no tick has come, and beyond the first tick if the interval allows it.
theorem State.run_isOk_iff (h : 0 < s.generator.cfg.snapshotMs) : 
    (∃ s', s.run is = .ok s') ↔ ((∃ i ∈ is, i.isTick) → s.generator.cfg.snapshotMs ≤ 3000) := by
  induction is generalizing s
  case nil          => exact iff_of_true ⟨s, rfl⟩ fun ⟨_, h, _⟩ => absurd h List.not_mem_nil
  case cons i is hi =>
    have hb : (∃ s', s.run (i :: is) = .ok s') ↔ (∃ s', s.step i = .ok s') ∧ 
        ((∃ i ∈ is, i.isTick) → s.generator.cfg.snapshotMs ≤ 3000) := by
      refine isOk_bind_iff fun s' hs => ?_
      have hc := s.step_cfg hs
      rw [← hc] at h ⊢
      exact hi h
    rw [hb, step_isOk_iff h]
    simp [or_imp]

-- The divisors are positive, and no tick panics, if and only if the interval is not longer than the shortest
-- period.
theorem safe_iff_interval_le (h : g.cfg.validate quote = .ok ()) : 
    (∀ target, (∀ d ∈ divisors g target, 0 < d) ↔ g.cfg.snapshotMs ≤ 3000) ∧ 
    (∀ target elapsedS o, 
      (∃ o', g.emitEventsForTarget target elapsedS o = .ok o') ↔ g.cfg.snapshotMs ≤ 3000) ∧ 
    ∀ events is, (∃ s', State.run ⟨g, events⟩ is = .ok s') ↔ 
      ((∃ i ∈ is, i.isTick) → g.cfg.snapshotMs ≤ 3000) := by
  have hm : 0 < g.cfg.snapshotMs := by
    have := Config.snapshotMs_of_validate h
    omega
  refine ⟨fun target => divisors_pos_iff hm, fun target elapsedS o => ?_, fun events is => ?_⟩
  case refine_1 => exact emitEventsForTarget_isOk hm
  case refine_2 => exact State.run_isOk_iff hm

end Ticks

section Slow

attribute [local instance] Unicode.ascii Zone.utcEpoch

-- The interval is given in ms.
def generator (snapshotMs : Int) : MockGenerator where
  cfg  := Config.normalize { Config.loadTarget 0 (str "agy") with mode := str "mock", snapshotMs }
  tick := 1

def anyOutput : Output where
  events := .make 512
  rng _  := 0
  clock _ := Time.epoch

theorem validate_generator : (generator 5000).cfg.validate id = .ok () := by
  decide

theorem safe_iff_interval_le_generator : 
    (∀ target, (∀ d ∈ divisors (generator 5000) target, 0 < d) ↔ 
      (generator 5000).cfg.snapshotMs ≤ 3000) ∧ 
    (∀ target elapsedS o, (∃ o', (generator 5000).emitEventsForTarget target elapsedS o = .ok o') ↔ 
      (generator 5000).cfg.snapshotMs ≤ 3000) ∧ 
    ∀ events is, (∃ s', State.run ⟨generator 5000, events⟩ is = .ok s') ↔ 
      ((∃ i ∈ is, i.isTick) → (generator 5000).cfg.snapshotMs ≤ 3000) := 
  safe_iff_interval_le validate_generator

-- The interval of five seconds is allowed, but the first two periods are shorter.
theorem not_safe_generator : 
    ¬∀ quote c g target elapsedS o, g.cfg = Config.normalize c → g.cfg.validate quote = .ok () → 
      (∀ d ∈ divisors g target, 0 < d) ∧ ∃ o', g.emitEventsForTarget target elapsedS o = .ok o' := by
  intro h
  have hs := h id _ (generator 5000) { pid := 101, comm := str "agy" } 0 anyOutput rfl validate_generator
  exact absurd (hs.left 0 <| by decide) (by decide)

end Slow
end Mock
