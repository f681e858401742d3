import DrishtiScope.Agg.Refinement
import DrishtiScope.Api.Server
import DrishtiScope.Lib.Interface

open Go

-- The messages as JSON, by the tags of the structs.
namespace Agg

def Target.toJson (t : Target) : Json Numeral := .struct [
  ("pid",  .int t.pid),
  ("comm", .string t.comm)
]

def SnapshotMeta.toJson (m : SnapshotMeta) : Json Numeral := .struct [
  ("dropped_events", .int m.droppedEvents.toNat),
  ("event_rate",     .float m.eventRate),
  ("uptime_s",       .float m.uptimeS),
  ("target",         m.target.toJson)
]

-- The model has no start times.
def ProcessRow.toJson (r : ProcessRow) (startTime : Bytes) : Json Numeral := .struct [
  ("pid",          .int r.pid),
  ("tgid",         .int r.tgid),
  ("ppid",         .int r.ppid),
  ("comm",         .string r.comm),
  ("cmdline",      .string r.cmdline),
  ("exe",          .string r.exe),
  ("uid",          .int r.uid),
  ("state",        .string r.state),
  ("threads",      .int r.threads),
  ("cpu_pct",      .float r.cpuPct),
  ("rss_bytes",    .int r.rssBytes),
  ("vms_bytes",    .int r.vmsBytes),
  ("open_fds",     .int r.openFDs),
  ("ctx_switches", .int r.ctxSw),
  ("start_time",   .string startTime)
]

def KPIs.toJson (k : KPIs) : Json Numeral := .struct [
  ("cpu_pct",              .float k.cpuPct),
  ("threads",              .int k.threads),
  ("rss_bytes",            .int k.rssBytes),
  ("open_fds",             .int k.openFDs),
  ("net_bps_tx",           .float k.netBpsTx),
  ("net_bps_rx",           .float k.netBpsRx),
  ("disk_bps_r",           .float k.diskBpsR),
  ("disk_bps_w",           .float k.diskBpsW),
  ("syscalls_per_sec",     .float k.syscallsPerSec),
  ("err_syscalls_per_sec", .float k.errSyscallsPerSec),
  ("connects_per_sec",     .float k.connectsPerSec)
]

def SREMetrics.toJson (m : SREMetrics) : Json Numeral := .struct [
  ("latency_p50_us",      .float m.latencyP50Us),
  ("latency_p90_us",      .float m.latencyP90Us),
  ("latency_p99_us",      .float m.latencyP99Us),
  ("slo_availability",    .float m.sloAvailability),
  ("error_budget_pct",    .float m.errorBudgetPct),
  ("burn_rate",           .float m.burnRate),
  ("runqueue_latency_us", .float m.runqueueLatencyUs),
  ("saturation_pct",      .float m.saturationPct)
]

def SyscallStat.toJson (s : SyscallStat) : Json Numeral := .struct [
  ("name",     .string s.name),
  ("count_s",  .float s.countS),
  ("errors_s", .float s.errorsS)
]

def FileStat.toJson (f : FileStat) : Json Numeral := .struct [
  ("path",    .string f.path),
  ("ops_s",   .float f.opsS),
  ("bytes_s", .float f.bytesS),
  ("errors",  .int f.errors)
]

def NetFlow.toJson (f : NetFlow) : Json Numeral := .struct [
  ("src",      .string f.src),
  ("dst",      .string f.dst),
  ("sport",    .int f.sport),
  ("dport",    .int f.dport),
  ("proto",    .string f.proto),
  ("state",    .string f.state),
  ("bytes_tx", .int f.bytesTx),
  ("bytes_rx", .int f.bytesRx),
  ("pid",      .int f.pid),
  ("comm",     .string f.comm)
]

def SeriesPoint.toJson (p : SeriesPoint) : Json Numeral := .struct [
  ("t",       .int p.t),
  ("cpu_pct", .float p.cpuPct)
]

def IOPoint.toJson (p : IOPoint) : Json Numeral := .struct [
  ("t",     .int p.t),
  ("r_bps", .float p.rbps),
  ("w_bps", .float p.wbps)
]

def NetPoint.toJson (p : NetPoint) : Json Numeral := .struct [
  ("t",      .int p.t),
  ("tx_bps", .float p.txbps),
  ("rx_bps", .float p.rxbps)
]

def Attr.toJson : Attr → Json Numeral
  | .str s   => .string s
  | .int n   => .int n
  | .float x => .float x

-- The keys of a map are sorted.
def EventRow.toJson (e : EventRow) : Json Numeral := .struct [
  ("id",       .string e.id),
  ("ts",       .string e.ts),
  ("severity", .string e.severity),
  ("category", .string e.category),
  ("pid",      .int e.pid),
  ("comm",     .string e.comm),
  ("title",    .string e.title),
  ("detail",   .string e.detail),
  ("attrs",    .object <| (e.attrs.mergeSort fun a b => a.fst ≤ b.fst).map fun (key, a) => (key, a.toJson))
]

def Slice.toJson {α : Type} (f : α → Json Numeral) : Slice α → Json Numeral
  | none    => .null
  | some xs => .array <| xs.map f

def RawSnapshot.toJson (s : RawSnapshot) (startTime : Nat → Bytes) : Json Numeral := .struct [
  ("meta",         s.info.toJson),
  ("processes",    s.processes.elim .null fun rows => .array <| rows.mapIdx fun i r => r.toJson <| startTime i),
  ("kpis",         s.kpis.toJson),
  ("sre",          s.sre.toJson),
  ("syscalls_top", Slice.toJson SyscallStat.toJson s.syscallsTop),
  ("files_top",    Slice.toJson FileStat.toJson s.filesTop),
  ("flows",        Slice.toJson NetFlow.toJson s.flows),
  ("cpu_series",   Slice.toJson SeriesPoint.toJson s.cpuSeries),
  ("io_series",    Slice.toJson IOPoint.toJson s.ioSeries),
  ("net_series",   Slice.toJson NetPoint.toJson s.netSeries),
  ("timeline",     Slice.toJson EventRow.toJson s.timeline)
]

end Agg

namespace Protocol

open Agg

def kindHeartbeat := str "heartbeat"

-- What the daemon sends over a connection.
inductive Message
  | hello (h : Hello)
  | snapshot (s : RawSnapshot) (startTime : Nat → Bytes)
  | event (e : EventRow)
  | heartbeat (uptimeS : ℚ)

def Hello.toJson (h : Hello) : Json Numeral := .struct <| [
  ("schema",   .int h.schema),
  ("hostname", .string h.hostname),
  ("kernel",   .string h.kernel)
] ++ (if h.ebpfFailReason = [] then [] else [("ebpf_fail_reason", .string h.ebpfFailReason)]) ++ [
  ("product",  .string h.product),
  ("target",   h.target.toJson)
]

namespace Message

def kind : Message → Bytes
  | hello _      => kindHello
  | snapshot ..  => kindSnapshot
  | event _      => kindEvent
  | heartbeat _  => kindHeartbeat

def payload : Message → Json Numeral
  | hello h              => h.toJson
  | snapshot s startTime => s.toJson startTime
  | event e              => e.toJson
  | heartbeat uptimeS    => .struct [("uptime_s", .float uptimeS)]

def toJson (now : Time) (mode : Bytes) (m : Message) : Json Numeral := .struct [
  ("v",       .int schemaVersion),
  ("kind",    .string m.kind),
  ("ts",      .string now.rfc3339UTC),
  ("mode",    .string mode),
  ("payload", m.payload)
]

-- `Marshal`. The payload is encoded first, and becomes a part of the envelope as it is.
def marshal [Shortest] (now : Time) (mode : Bytes) (m : Message) : Bytes :=
  (m.toJson now mode |>.map Json.text).encode

end Message
end Protocol

-- The interfaces of the messages, as the page declares them.
namespace Frontend

-- The numbers of JavaScript are floats.
inductive Number
  | finite (x : ℚ)
  | infinite (neg : Bool)

-- The number for a mathematical value.
def Number.nearest (x : ℚ) : Number :=
  let y := FloatFormat.binary64.round x
  if |y| < 2 ^ 1024 then .finite y else .infinite (y < 0)

-- `JSON.parse`. There may be nothing but white space after the value. The scanner is that of `encoding/json`, which 
-- differs only in what it makes of half a surrogate pair.
def parse (text : Bytes) : Option (Json Number) := do
  let (v, rest) ← Json.scanValue (2 * text.length + 2) text
  guard <| Json.skipSpace rest = []
  return v.map fun text => .nearest <| Json.numberValue text

namespace Interfaces

open Interface

def target := record [required "pid" number, required "comm" string]

def helloPayload := record [
  required "schema" number, 
  required "hostname" string,
  required "kernel" string,
  required "target" target,
  optional "ebpf_fail_reason" string
]

def sreMetrics := record [
  required "latency_p50_us" number,
  required "latency_p90_us" number,
  required "latency_p99_us" number,
  required "slo_availability" number,
  required "error_budget_pct" number,
  required "burn_rate" number,
  required "runqueue_latency_us" number,
  required "saturation_pct" number
]

def snapshotMeta := record [
  required "dropped_events" number,
  required "event_rate" number,
  required "uptime_s" number,
  required "target" target
]

def processRow := record [
  required "pid" number,
  required "tgid" number,
  required "ppid" number,
  required "comm" string,
  required "cmdline" string,
  required "exe" string,
  required "uid" number,
  required "state" string,
  required "threads" number,
  required "cpu_pct" number,
  required "rss_bytes" number,
  required "vms_bytes" number,
  required "open_fds" number,
  required "ctx_switches" number,
  required "start_time" string
]

def kpis := record [
  required "cpu_pct" number,
  required "threads" number,
  required "rss_bytes" number,
  required "open_fds" number,
  required "net_bps_tx" number,
  required "net_bps_rx" number,
  required "disk_bps_r" number,
  required "disk_bps_w" number,
  required "syscalls_per_sec" number,
  required "err_syscalls_per_sec" number,
  required "connects_per_sec" number
]

def syscallStat := record [required "name" string, required "count_s" number, required "errors_s" number]

def fileStat := record [
  required "path" string,
  required "ops_s" number,
  required "bytes_s" number,
  required "errors" number
]

def netFlow := record [
  required "src" string,
  required "dst" string,
  required "sport" number,
  required "dport" number,
  required "proto" string,
  required "state" string,
  required "bytes_tx" number,
  required "bytes_rx" number,
  required "pid" number,
  required "comm" string
]

def seriesPoint := record [required "t" number, required "cpu_pct" number]

def ioPoint := record [required "t" number, required "r_bps" number, required "w_bps" number]

def netPoint := record [required "t" number, required "tx_bps" number, required "rx_bps" number]

def severities := ["info", "warn", "crit"]

def categories := ["process", "syscall", "file", "network", "compute"]

def eventRow := record [
  required "id" string,
  required "ts" string,
  required "severity" (oneOf severities),
  required "category" (oneOf categories),
  required "pid" number,
  required "comm" string,
  required "title" string,
  required "detail" string,
  required "attrs" object
]

def snapshot := record [
  required "meta" snapshotMeta,
  required "processes" (array processRow),
  required "kpis" kpis,
  optional "sre" sreMetrics,
  required "syscalls_top" (array syscallStat),
  required "files_top" (array fileStat),
  required "flows" (array netFlow),
  required "cpu_series" (array seriesPoint),
  required "io_series" (array ioPoint),
  required "net_series" (array netPoint),
  required "timeline" (array eventRow)
]

def heartbeatPayload := record [required "uptime_s" number]

def kinds := ["hello", "snapshot", "event", "heartbeat", "error"]

def modes := ["ebpf", "real", "mock"]

def wsMessage (payload : Interface) := record [
  required "v" number,
  required "kind" (oneOf kinds),
  required "ts" string,
  required "mode" (oneOf modes),
  required "payload" payload
]

end Interfaces
end Frontend

namespace Protocol

open Agg Interface Frontend

variable {e : EventRow} {s : Bytes} {names : List String} {raw : RawSnapshot} {startTime : Nat → Bytes} {now : Time} 
  {mode : Bytes}

section Interfaces

attribute [local simp] has_record_struct has_required has_optional Has Json.toValid Json.int Json.float List.lookup_cons

theorem has_target {t : Target} : Interfaces.target.Has t.toJson.toValid := by
  simp [Interfaces.target, Target.toJson]

theorem has_netFlow {f : NetFlow} : Interfaces.netFlow.Has f.toJson.toValid := by
  simp [Interfaces.netFlow, NetFlow.toJson]

theorem has_slice {α : Type} {xs : Slice α} {f : α → Json Numeral} {t : Interface} : 
    (array t).Has (Slice.toJson f xs).toValid ↔ ∃ ys, xs = some ys ∧ ∀ y ∈ ys, t.Has (f y).toValid := by
  cases xs
  case none    => simp [Slice.toJson]
  case some ys => 
    rw [Slice.toJson, has_array]
    simp

-- A name of an enumeration is not the result of a replacement.
theorem valid_mem_iff (h : ∀ name ∈ names, Rune.error ∉ name.toList) : 
    Bytes.encodeAll s.runes ∈ names.map str ↔ s ∈ names.map str := by
  simp only [List.mem_map]
  constructor
  case mp =>
    intro ⟨name, hn, he⟩
    have hr : s.runes = name.toList := by
      have hr := congrArg Bytes.runes he
      rwa [Bytes.runes_encodeAll, Json.runes_str, eq_comm] at hr
    exact ⟨name, hn, he.trans <| Bytes.encodeAll_runes <| hr ▸ h name hn⟩
  case mpr =>
    intro ⟨name, hn, he⟩
    exact ⟨name, hn, by rw [← he, Json.runes_str]; rfl⟩

theorem has_hello {h : Hello} : Interfaces.helloPayload.Has h.toJson.toValid := by
  simp only [Interfaces.helloPayload, Hello.toJson]
  split <;> simp [has_target]

theorem has_snapshotMeta {m : SnapshotMeta} : Interfaces.snapshotMeta.Has m.toJson.toValid := by
  simp [Interfaces.snapshotMeta, SnapshotMeta.toJson, has_target]

theorem has_processRow {r : ProcessRow} : Interfaces.processRow.Has (r.toJson s).toValid := by
  simp [Interfaces.processRow, ProcessRow.toJson]

theorem has_kpis {k : KPIs} : Interfaces.kpis.Has k.toJson.toValid := by
  simp [Interfaces.kpis, KPIs.toJson]

theorem has_sreMetrics {m : SREMetrics} : Interfaces.sreMetrics.Has m.toJson.toValid := by
  simp [Interfaces.sreMetrics, SREMetrics.toJson]

theorem has_syscallStat {s : SyscallStat} : Interfaces.syscallStat.Has s.toJson.toValid := by
  simp [Interfaces.syscallStat, SyscallStat.toJson]

theorem has_fileStat {f : FileStat} : Interfaces.fileStat.Has f.toJson.toValid := by
  simp [Interfaces.fileStat, FileStat.toJson]

theorem has_seriesPoint {p : SeriesPoint} : Interfaces.seriesPoint.Has p.toJson.toValid := by
  simp [Interfaces.seriesPoint, SeriesPoint.toJson]

theorem has_ioPoint {p : IOPoint} : Interfaces.ioPoint.Has p.toJson.toValid := by
  simp [Interfaces.ioPoint, IOPoint.toJson]

theorem has_netPoint {p : NetPoint} : Interfaces.netPoint.Has p.toJson.toValid := by
  simp [Interfaces.netPoint, NetPoint.toJson]

-- The page knows the severity and the category of the event.
def Listed (e : EventRow) : Prop :=
  e.severity ∈ Interfaces.severities.map str ∧ e.category ∈ Interfaces.categories.map str

theorem has_eventRow : Interfaces.eventRow.Has e.toJson.toValid ↔ Listed e := by
  have hs : Bytes.encodeAll e.severity.runes ∈ Interfaces.severities.map str ↔ _ := valid_mem_iff (by decide)
  have hc : Bytes.encodeAll e.category.runes ∈ Interfaces.categories.map str ↔ _ := valid_mem_iff (by decide)
  rw [Listed, ← hs, ← hc]
  simp [Interfaces.eventRow, EventRow.toJson]

-- None of the slices is nil, and the page knows all events.
structure Complete (s : RawSnapshot) : Prop where
  processes   : s.processes ≠ none
  syscallsTop : s.syscallsTop ≠ none
  filesTop    : s.filesTop ≠ none
  flows       : s.flows ≠ none
  cpuSeries   : s.cpuSeries ≠ none
  ioSeries    : s.ioSeries ≠ none
  netSeries   : s.netSeries ≠ none
  timeline    : s.timeline ≠ none
  listed      : ∀ e ∈ s.timeline.elems, Listed e

theorem has_processes : 
    (array Interfaces.processRow).Has (raw.processes.elim .null fun rows => 
      .array <| rows.mapIdx fun i r => r.toJson <| startTime i : Json Numeral).toValid ↔ raw.processes ≠ none := by
  cases raw.processes
  case none      => simp
  case some rows => 
    simp only [Option.elim_some, Json.toValid, Json.toValidElements_eq, Has, List.forall_mem_map, ne_eq, 
      reduceCtorEq, not_false_eq_true, iff_true]
    intro v hv
    have ⟨i, hi, he⟩ := List.mem_mapIdx.mp hv
    exact he ▸ has_processRow

theorem has_snapshot : Interfaces.snapshot.Has (raw.toJson startTime).toValid ↔ Complete raw := by
  have hne {α : Type} {s : Slice α} : (∃ ys, s = some ys) ↔ s ≠ none := by cases s <;> simp
  have he : (array Interfaces.eventRow).Has (Slice.toJson EventRow.toJson raw.timeline).toValid ↔
      raw.timeline ≠ none ∧ ∀ e ∈ raw.timeline.elems, Listed e := by
    rw [has_slice]
    cases raw.timeline <;> simp [has_eventRow, Slice.elems]
  have hs : Interfaces.snapshot.Has (raw.toJson startTime).toValid ↔ 
      raw.processes ≠ none ∧ raw.syscallsTop ≠ none ∧ raw.filesTop ≠ none ∧ raw.flows ≠ none ∧ 
      raw.cpuSeries ≠ none ∧ raw.ioSeries ≠ none ∧ raw.netSeries ≠ none ∧ raw.timeline ≠ none ∧ 
      ∀ e ∈ raw.timeline.elems, Listed e := by
    simp [Interfaces.snapshot, RawSnapshot.toJson, has_processes, he, has_slice, has_snapshotMeta, has_kpis, 
      has_sreMetrics, has_syscallStat, has_fileStat, has_netFlow, has_seriesPoint, has_ioPoint, has_netPoint, hne]
  rw [hs]
  constructor
  case mp  => 
    rintro ⟨hp, hs, hf, hl, hc, hi, hn, ht, hk⟩
    exact ⟨hp, hs, hf, hl, hc, hi, hn, ht, hk⟩
  case mpr => exact fun h => ⟨h.processes, h.syscallsTop, h.filesTop, h.flows, h.cpuSeries, h.ioSeries, h.netSeries, 
    h.timeline, h.listed⟩

namespace Message

variable {m : Message}

-- The interface of the payload of a message.
def interface : Message → Interface
  | hello _     => Interfaces.helloPayload
  | snapshot .. => Interfaces.snapshot
  | event _     => Interfaces.eventRow
  | heartbeat _ => Interfaces.heartbeatPayload

def Conforms : Message → Prop
  | snapshot s _ => Complete s
  | event e      => Listed e
  | _            => True

theorem has_payload : m.interface.Has m.payload.toValid ↔ m.Conforms := by
  cases m
  case hello       => exact iff_of_true has_hello trivial
  case snapshot    => exact has_snapshot
  case event       => exact has_eventRow
  case heartbeat _ => simp [interface, Interfaces.heartbeatPayload, payload, Conforms]

-- A message is what the page takes it to be if it has the interface for its kind.
theorem has_wsMessage : 
    (Interfaces.wsMessage m.interface).Has (m.toJson now mode).toValid ↔ 
      mode ∈ Interfaces.modes.map str ∧ m.Conforms := by
  have hm : Bytes.encodeAll mode.runes ∈ Interfaces.modes.map str ↔ _ := valid_mem_iff (by decide)
  have hk : Bytes.encodeAll m.kind.runes ∈ Interfaces.kinds.map str := by
    rw [valid_mem_iff (by decide)]
    have hl : [kindHello, kindSnapshot, kindEvent, kindHeartbeat] ⊆ Interfaces.kinds.map str := by decide
    apply hl
    cases m <;> simp [kind]
  rw [← hm, ← has_payload]
  simp [Interfaces.wsMessage, toJson, hk, -List.mem_map]

end Message
end Interfaces

-- What is sent is read as the float that is nearest to it.
theorem nearest_text [Shortest] (n : Numeral) : 
    Number.nearest (Json.numberValue <| Json.text n) = .nearest n.value := by
  cases n
  case int n   => rw [Json.text, Json.numberValue_itoa, Numeral.value]
  case float x =>
    have hr : FloatFormat.binary64.round (Json.numberValue <| Json.text (.float x)) = FloatFormat.binary64.round x := by
      have hx := Shortest.nearest x
      rw [Json.text, Json.numberValue_formatFloat]
      split
      case isTrue h  => rw [neg_one_mul, FloatFormat.round_neg, hx, abs_of_neg h, FloatFormat.round_neg, neg_neg]
      case isFalse h => rw [one_mul, hx, abs_of_nonneg (not_lt.mp h)]
    rw [Number.nearest, hr, Numeral.value, Number.nearest]

-- That is the number itself, if there is a float for it.
theorem nearest_eq {x : ℚ} (hx : FloatFormat.binary64.IsFloat x) (hl : |x| < 2 ^ 1024) : 
    Number.nearest x = .finite x := by
  rw [Number.nearest, FloatFormat.round_of_isFloat hx, if_pos hl]

namespace Message

variable [Shortest] {m : Message}

-- What the page reads of a message.
def read (now : Time) (mode : Bytes) (m : Message) : Json Number :=
  (m.toJson now mode).toValid.map fun n => .nearest n.value

theorem parse_marshal : parse (m.marshal now mode) = some (m.read now mode) := by
  have hw : (m.toJson now mode |>.map Json.text).WellFormed := Json.wellFormed_map Json.isNumber_text _
  rw [parse, marshal, Json.scanValue_encode hw, Json.toValid_map]
  change some (Json.map _ (Json.map _ _)) = _
  rw [Json.map_map]
  simp only [nearest_text]
  rfl

omit [Shortest] in
theorem has_read : 
    (Interfaces.wsMessage m.interface).Has (m.read now mode) ↔ mode ∈ Interfaces.modes.map str ∧ m.Conforms :=
  has_map.trans has_wsMessage

-- What is written is text, and the page takes it for what it is. It is one of the messages that the page declares 
-- if and only if it conforms.
theorem text_and_parse_and_has_iff : 
    Json.IsText (m.marshal now mode) ∧ parse (m.marshal now mode) = some (m.read now mode) ∧ 
    ((Interfaces.wsMessage m.interface).Has (m.read now mode) ↔ mode ∈ Interfaces.modes.map str ∧ m.Conforms) := 
  ⟨Json.isText_encode _ <| Json.wellFormed_map Json.isNumber_text _, parse_marshal, has_read⟩

-- The page takes what is written for a message that it declares, whenever it is written.
def Understood (mode : Bytes) (m : Message) : Prop :=
  ∀ now, ∃ v, parse (m.marshal now mode) = some v ∧ (Interfaces.wsMessage m.interface).Has v

theorem understood_iff : m.Understood mode ↔ mode ∈ Interfaces.modes.map str ∧ m.Conforms := by
  simp only [Understood, parse_marshal, Option.some.injEq, exists_eq_left', has_read, forall_const]

end Message
end Protocol
