import DrishtiScope.Api.Server
import DrishtiScope.Lib.Separated

open Go

-- The metrics in the text format of Prometheus.
namespace Api

-- A number and how it is printed.
inductive Number
  | int (n : Int)
  | fixed (prec : Nat) (x : ℚ)

namespace Number

def text : Number → Bytes
  | int n        => itoa n
  | fixed prec x => formatFixed prec x

def value : Number → ℚ
  | int n     => n
  | fixed _ x => x

end Number

structure Sample where
  labels : List (Bytes × Bytes)
  number : Number

structure Metric where
  name    : Bytes
  help    : Bytes
  type    : Bytes
  samples : List Sample

-- The labels are not escaped.
def Sample.text (name : Bytes) (s : Sample) : Bytes :=
  let labels := s.labels.map fun l => l.fst ++ str "=\"" ++ l.snd ++ str "\""
  let labels := if labels = [] then [] else str "\x7b" ++ (str ",").intercalate labels ++ str "\x7d"
  name ++ labels ++ str " " ++ s.number.text ++ str "\n"

def Metric.text (m : Metric) : Bytes :=
  str "# HELP " ++ m.name ++ str " " ++ m.help ++ str "\n" ++
  str "# TYPE " ++ m.name ++ str " " ++ m.type ++ str "\n" ++
  m.samples.flatMap (·.text m.name)

def gauge (name help : Bytes) (labels : List (Bytes × Bytes)) (number : Number) : Metric where
  name    := name
  help    := help
  type    := str "gauge"
  samples := [⟨labels, number⟩]

-- The values that are reported unless the engine has measured the availability.
def defaultSRE : Agg.SREMetrics where
  latencyP50Us      := 115 / 100
  latencyP90Us      := 48 / 10
  latencyP99Us      := 215 / 10
  sloAvailability   := 9995 / 100
  errorBudgetPct    := 942 / 10
  burnRate          := 72 / 100
  runqueueLatencyUs := 85 / 100
  saturationPct     := 42 / 10

-- The snapshot is never nil.
def metrics (env : Env) (s : Server) : List Metric :=
  let snap := s.builder.latestSnapshot
  let (pid, comm) := s.cfg.target
  let (pid, comm) := 
    if snap.info.target.comm ≠ [] then (snap.info.target.pid, snap.info.target.comm) else (pid, comm)
  let kpis := snap.kpis
  let sre := if 0 < snap.sre.sloAvailability then snap.sre else defaultSRE
  let target := (str "target", comm)
  [
    gauge (str "drishti_target_info") (str "Target process metadata")
      [(str "comm", comm), (str "pid", itoa pid), (str "mode", s.mode)] (.int 1),
    gauge (str "drishti_cpu_usage_ratio") (str "Target CPU usage ratio (0.0 - 1.0)")
      [target] (.fixed 4 <| kpis.cpuPct / 100),
    gauge (str "drishti_memory_rss_bytes") (str "Target Resident Set Size in bytes")
      [target] (.int kpis.rssBytes),
    gauge (str "drishti_open_fds") (str "Open file descriptor count")
      [target] (.int kpis.openFDs),
    gauge (str "drishti_threads_total") (str "Active thread count")
      [target] (.int kpis.threads),
    gauge (str "drishti_syscalls_rate") (str "System calls per second")
      [target] (.fixed 2 kpis.syscallsPerSec),
    gauge (str "drishti_syscall_errors_rate") (str "System call errors per second")
      [target] (.fixed 2 kpis.errSyscallsPerSec),
    gauge (str "drishti_network_transmit_bytes_per_second") (str "Network TX rate")
      [target] (.fixed 2 kpis.netBpsTx),
    gauge (str "drishti_network_receive_bytes_per_second") (str "Network RX rate")
      [target] (.fixed 2 kpis.netBpsRx),
    gauge (str "drishti_disk_read_bytes_per_second") (str "Disk read rate")
      [target] (.fixed 2 kpis.diskBpsR),
    gauge (str "drishti_disk_write_bytes_per_second") (str "Disk write rate")
      [target] (.fixed 2 kpis.diskBpsW),
    gauge (str "drishti_slo_availability_ratio") 
      (str "Service Level Availability percentage (0-100)")
      [target] (.fixed 3 sre.sloAvailability),
    gauge (str "drishti_slo_error_budget_ratio") 
      (str "Remaining error budget percentage (0-100)")
      [target] (.fixed 2 sre.errorBudgetPct),
    gauge (str "drishti_burn_rate") (str "Error budget burn rate")
      [target] (.fixed 2 sre.burnRate),
    gauge (str "drishti_runqueue_latency_microseconds") (str "Kernel runqueue scheduler latency")
      [target] (.fixed 2 sre.runqueueLatencyUs),
    {
      name    := str "drishti_latency_microseconds"
      help    := str "Syscall execution latency quantiles"
      type    := str "summary"
      samples := [
        ⟨[target, (str "quantile", str "0.5")], .fixed 2 sre.latencyP50Us⟩,
        ⟨[target, (str "quantile", str "0.9")], .fixed 2 sre.latencyP90Us⟩,
        ⟨[target, (str "quantile", str "0.99")], .fixed 2 sre.latencyP99Us⟩
      ]
    },
    gauge (str "drishti_saturation_ratio") (str "Saturation ratio (0.0 - 1.0)")
      [target] (.fixed 4 <| sre.saturationPct / 100),
    gauge (str "drishti_active_ws_clients") (str "Number of active WebSocket dashboard clients")
      [] (.int s.hub.clientCount),
    {
      name    := str "drishti_uptime_seconds"
      help    := str "Server uptime in seconds"
      type    := str "counter"
      samples := [⟨[], .fixed 1 (env.now.sub s.started).seconds⟩]
    }
  ]

-- There is an empty line between two metrics.
def handlePrometheusMetrics : Handler := fun env _ x =>
  let x := x.set (str "Content-Type") (str "text/plain; version=0.0.4; charset=utf-8")
  .ok <| x.write <| .text <| (str "\n").intercalate ((metrics env x.server).map Metric.text)

-- The value of the metric with this name, before it is rounded.
def value? (ms : List Metric) (name : Bytes) : Option ℚ := do
  let m ← ms.find? (·.name = name)
  return (← m.samples.head?).number.value

def Server.value? (s : Server) (env : Env) (name : Bytes) : Option ℚ :=
  Api.value? (metrics env s) name

variable {s : Server} {env : Env} {ms : List Metric} {name : Bytes} {x : ℚ}

theorem exists_line_of_value? (h : value? ms name = some x) : 
    ∃ labels n, Number.value n = x ∧ 
      name ++ labels ++ str " " ++ n.text ++ str "\n" <:+: (str "\n").intercalate (ms.map Metric.text) := by
  simp only [value?, Option.bind_eq_bind, Option.bind_eq_some_iff, Option.pure_def, Option.some_inj] at h
  obtain ⟨m, hm, s, hs, hv⟩ := h
  have hn : m.name = name := by simpa using List.find?_some hm
  have ht : m.text <:+: (str "\n").intercalate (ms.map Metric.text) := 
    Separated.isInfix_intercalate <| List.mem_map_of_mem <| List.mem_of_find?_eq_some hm
  have hl : s.text m.name <:+: m.text := 
    (List.infix_of_mem_flatten <| List.mem_map_of_mem <| List.mem_of_head? hs).trans 
      (List.suffix_append ..).isInfix
  exact ⟨_, s.number, hv, hn ▸ hl.trans ht⟩

-- The value of a metric stands behind its name in the body of the response.
theorem handlePrometheusMetrics_prints {r : Request} {y : Exchange} 
    (h : y.server.value? env name = some x) : 
    ∃ body labels n, Number.value n = x ∧ name ++ labels ++ str " " ++ n.text ++ str "\n" <:+: body ∧
      handlePrometheusMetrics env r y = .ok (Exchange.write 
        (y.set (str "Content-Type") (str "text/plain; version=0.0.4; charset=utf-8")) (.text body)) := by
  have ⟨labels, n, hv, hl⟩ := exists_line_of_value? h
  exact ⟨_, labels, n, hv, hl, rfl⟩

theorem value?_transmit : 
    s.value? env (str "drishti_network_transmit_bytes_per_second") = 
      some s.builder.latestSnapshot.kpis.netBpsTx :=
  rfl

theorem value?_receive : 
    s.value? env (str "drishti_network_receive_bytes_per_second") = 
      some s.builder.latestSnapshot.kpis.netBpsRx :=
  rfl

end Api
