import DrishtiScope.Api.Metrics
import DrishtiScope.Api.Noninterference
import DrishtiScope.EbpfAgent.Sampling
import DrishtiScope.Lib.Exposition
import DrishtiScope.Mock.Generator
import DrishtiScope.RealEngine.Scan

open Go Exposition

-- What a scraper reads from the metrics.
namespace Agentscope.Scrape

def modes : List Bytes :=
  [str "ebpf", str "real", str "mock"]

def metricNames : List Bytes := [
  str "drishti_target_info", str "drishti_cpu_usage_ratio", str "drishti_memory_rss_bytes", 
  str "drishti_open_fds", str "drishti_threads_total", str "drishti_syscalls_rate", 
  str "drishti_syscall_errors_rate", str "drishti_network_transmit_bytes_per_second", 
  str "drishti_network_receive_bytes_per_second", str "drishti_disk_read_bytes_per_second", 
  str "drishti_disk_write_bytes_per_second", str "drishti_slo_availability_ratio", 
  str "drishti_slo_error_budget_ratio", str "drishti_burn_rate", 
  str "drishti_runqueue_latency_microseconds", str "drishti_latency_microseconds", 
  str "drishti_saturation_ratio", str "drishti_active_ws_clients", str "drishti_uptime_seconds"
]

def isCommLabel (name : Bytes) : Bool :=
  name = str "comm" || name = str "target"

-- Each line that is not a comment is one of the metrics, and its labels show the comm.
structure WellFormed (text comm : Bytes) : Prop where
  parses  : ∀ line ∈ lines text, isSample line → ∃ m, parse line = some m ∧ m.name ∈ metricNames
  info    : ∃ line ∈ lines text, ∃ m, parse line = some m ∧ (str "comm", comm) ∈ m.labels
  decodes : ∀ line ∈ lines text, isSample line → ∀ m, parse line = some m → 
    ∀ l ∈ m.labels, isCommLabel l.fst → l.snd = comm

-- Where a snapshot comes from. What else a snapshot of the mock generator contains is arbitrary.
inductive Source
  | ebpf (s : EbpfAgent.LiveState) (t : EbpfAgent.BuildTick)
  | real (e : RealEngine.Engine) (cfg : Config) (t : RealEngine.Tick)
  | mock (cfg : Config) (targetRow : Agg.ProcessRow) (rest : Agg.Snapshot)

section

variable [Unicode]

namespace Source

def Reachable : Source → Prop
  | ebpf _ t   => t.later.Reachable
  | real _ c _ => c.Reachable
  | mock c _ _ => c.Reachable

variable [Runtime]

-- The comm that is taken from a live process since none has been configured.
def liveComm? : Source → Option Bytes
  | ebpf _ t => 
    if t.later.targetComm = [] then 
      (EbpfAgent.targets t).head?.map fun pid => (Enrich.readProcessInfo (t.views pid).info pid).row.comm
    else 
      none
  | real .. | mock .. => none

variable [Zone]

def snapshot : Source → Agg.Snapshot
  | ebpf s t               => (EbpfAgent.buildSnapshot s t).snd
  | real e c t             => (RealEngine.collect e c t).snapshot
  | mock c targetRow rest  => 
    { rest with info := { rest.info with target := Mock.metaTarget c targetRow } }

end Source

variable [Runtime] [Zone]

-- The server before the first snapshot, or after the one that `fanout` has received last.
def publish (s : Api.Server) : Option Source → Api.Server
  | none     => { s with builder := .newSnapshotBuilder }
  | some src => { s with builder := (s.builder.update src.snapshot).fst }

end

-- The comm that the metrics show.
def targetComm (s : Api.Server) : Bytes :=
  if s.builder.latestSnapshot.info.target.comm ≠ [] then 
    s.builder.latestSnapshot.info.target.comm 
  else 
    s.cfg.targetComm

def targetPid (s : Api.Server) : Int :=
  if s.builder.latestSnapshot.info.target.comm ≠ [] then 
    s.builder.latestSnapshot.info.target.pid
  else 
    s.cfg.targetPid

def exposition (env : Api.Env) (s : Api.Server) : Bytes :=
  (str "\n").intercalate ((Api.metrics env s).map Api.Metric.text)

section Numbers

variable {b : UInt8} {n : Nat} {x : ℚ}

theorem isDigit_iff : isDigit b ↔ 48 ≤ b ∧ b ≤ 57 := by
  simp only [isDigit, Bool.and_eq_true, decide_eq_true_eq]

theorem digits_natDigits : Digits (natDigits n) :=
  ⟨natDigits_ne_nil, fun _ hb => isDigit_iff.mpr <| mem_natDigits hb⟩

theorem isNumber_itoa {n : Int} : isNumber (itoa n) := by
  have hd := isNumber_of_isDecimal <| isDecimal_of_digits <| digits_natDigits (n := n.natAbs)
  rw [itoa]
  split
  case isTrue  => exact hd.right
  case isFalse => exact hd.left

theorem isNumber_formatFixed {prec : Nat} : isNumber (formatFixed prec x) := by
  let a := (roundHalfEven (|x| * 10 ^ prec)).toNat
  have hd : isDecimal (natDigits (a / 10 ^ prec) ++ if prec = 0 then [] else str "." ++ 
      .replicate (prec - (natDigits (a % 10 ^ prec)).length) 48 ++ natDigits (a % 10 ^ prec)) := by
    split
    case isTrue  => 
      rw [List.append_nil]
      exact isDecimal_of_digits digits_natDigits
    case isFalse =>
      have hf := digits_natDigits (n := a % 10 ^ prec)
      apply isDecimal_point digits_natDigits
      refine ⟨by simp [hf.left], fun b hb => ?_⟩
      rcases List.mem_append.mp hb with hb | hb
      · rw [List.eq_of_mem_replicate hb]
        decide
      · exact hf.right b hb
  have hn := isNumber_of_isDecimal hd
  rw [formatFixed]
  split
  case isTrue  => 
    simp only [List.append_assoc]
    exact hn.right
  case isFalse => exact hn.left

theorem clean_itoa {n : Int} : Clean (itoa n) := by
  refine ⟨fun hb => ?_, fun hb => ?_, fun hb => ?_⟩
  all_goals exact absurd (mem_itoa hb) <| by decide

theorem isNumber_text {n : Api.Number} : isNumber n.text := by
  cases n
  case int   => exact isNumber_itoa
  case fixed => exact isNumber_formatFixed

end Numbers

section Metrics

variable {s : Api.Server} {env : Api.Env} {comm line : Bytes} {m : Api.Metric} {x : Api.Sample}
variable {l : Bytes × Bytes}

def sampleLine (name : Bytes) (s : Api.Sample) : Bytes :=
  name ++ printLabels s.labels ++ 32 :: s.number.text

-- The lines of a metric.
def block (m : Api.Metric) : List Bytes :=
  [
    str "# HELP " ++ m.name ++ str " " ++ m.help, 
    str "# TYPE " ++ m.name ++ str " " ++ m.type
  ] ++ m.samples.map (sampleLine m.name)

-- The labels need no escapes, and those of the comm show it.
structure Legible (comm : Bytes) (m : Api.Metric) : Prop where
  name   : isName true m.name
  listed : m.name ∈ metricNames
  help   : 10 ∉ m.help
  type   : 10 ∉ m.type
  plain  : ∀ s ∈ m.samples, Plain s.labels
  comm   : ∀ s ∈ m.samples, ∀ l ∈ s.labels, isCommLabel l.fst → l.snd = comm

theorem sampleText_eq {name : Bytes} {s : Api.Sample} : s.text name = sampleLine name s ++ [10] := by
  have h₁ : str "=\"" = [61, 34] := rfl
  have h₂ : str "\"" = [34] := rfl
  have h₃ : str "," = [44] := rfl
  have h₄ : str "\x7b" = [123] := rfl
  have h₅ : str "\x7d" = [125] := rfl
  have h₆ : str " " = [32] := rfl
  have h₇ : str "\n" = [10] := rfl
  have hq : s.labels.map (fun l => l.fst ++ str "=\"" ++ l.snd ++ str "\"") = s.labels.map quoted :=
    List.map_congr_left fun l _ => by 
      rw [h₁, h₂, quoted]
      simp only [List.append_assoc, List.cons_append, List.nil_append]
  simp only [Api.Sample.text, hq, sampleLine, printLabels, h₃, h₄, h₅, h₆, h₇, List.map_eq_nil_iff]
  split
  case isTrue  => simp only [List.append_assoc, List.cons_append, List.nil_append]
  case isFalse => simp only [List.append_assoc, List.cons_append, List.nil_append]

theorem text_eq : m.text = (block m).flatMap (· ++ [10]) := by
  have hs : m.samples.flatMap (·.text m.name) = 
      (m.samples.map <| sampleLine m.name).flatMap (· ++ [10]) := by
    rw [List.flatMap_map]
    exact List.flatMap_congr fun s _ => sampleText_eq
  have hn : str "\n" = [10] := rfl
  simp only [Api.Metric.text, block, hs, hn, List.flatMap_append, List.flatMap_cons, List.flatMap_nil, 
    List.append_assoc, List.append_nil]

theorem exposition_eq : 
    exposition env s = 
      (([[]] : List Bytes).intercalate ((Api.metrics env s).map block)).flatMap (· ++ [10]) := by
  have ht : (Api.metrics env s).map Api.Metric.text = 
      (Api.metrics env s).map fun m => (block m).flatMap (· ++ [10]) := 
    List.map_congr_left fun m _ => text_eq
  rw [← intercalate_flatMap, List.map_map, exposition]
  exact congrArg _ ht

variable (env s) in
theorem names_eq : (Api.metrics env s).map (·.name) = metricNames := by
  rfl

variable (env s) in
theorem help_eq : 
    (Api.metrics env s).all (fun m => decide (10 ∉ m.help) && decide (10 ∉ m.type)) = true := by
  rfl

def quantiles : List Bytes :=
  [str "0.5", str "0.9", str "0.99"]

def chosen (s : Api.Server) : Int × Bytes :=
  if s.builder.latestSnapshot.info.target.comm ≠ [] then 
    (s.builder.latestSnapshot.info.target.pid, s.builder.latestSnapshot.info.target.comm) 
  else 
    s.cfg.target

theorem chosen_eq : (chosen s).fst = targetPid s ∧ (chosen s).snd = targetComm s :=
  ⟨apply_ite Prod.fst .., apply_ite Prod.snd ..⟩

def infoSample (s : Api.Server) : Api.Sample :=
  ⟨[(str "comm", targetComm s), (str "pid", itoa <| targetPid s), (str "mode", s.mode)], .int 1⟩

def info (s : Api.Server) : Api.Metric where
  name    := str "drishti_target_info"
  help    := str "Target process metadata"
  type    := str "gauge"
  samples := [infoSample s]

variable (env s) in
theorem head_metrics : (Api.metrics env s).head? = some (info s) := by
  rw [info, infoSample, ← chosen_eq.left, ← chosen_eq.right]
  rfl

-- Every label that is printed.
theorem label_cases (hm : m ∈ Api.metrics env s) (hx : x ∈ m.samples) (hl : l ∈ x.labels) : 
    l = (str "comm", targetComm s) ∨ l = (str "target", targetComm s) ∨ l = (str "mode", s.mode) ∨ 
    l = (str "pid", itoa <| targetPid s) ∨ ∃ q ∈ quantiles, l = (str "quantile", q) := by
  have hl : l ∈ (Api.metrics env s).flatMap fun m => m.samples.flatMap (·.labels) := 
    List.mem_flatMap_of_mem hm <| List.mem_flatMap_of_mem hx hl
  have he : (Api.metrics env s).flatMap (fun m => m.samples.flatMap (·.labels)) = 
      [(str "comm", targetComm s), (str "pid", itoa <| targetPid s), (str "mode", s.mode)] ++ 
        .replicate 14 (str "target", targetComm s) ++ 
        quantiles.flatMap (fun q => [(str "target", targetComm s), (str "quantile", q)]) ++
        [(str "target", targetComm s)] := by
    rw [← chosen_eq.left, ← chosen_eq.right]
    rfl
  rw [he] at hl
  simp only [List.mem_append, List.mem_cons, List.mem_replicate, List.mem_flatMap, List.not_mem_nil] at hl
  grind

theorem plain_label (hc : Clean <| targetComm s) (hd : s.mode ∈ modes) (hm : m ∈ Api.metrics env s) 
    (hx : x ∈ m.samples) (hl : l ∈ x.labels) : isName false l.fst ∧ Clean l.snd := by
  have hmode : ∀ mode ∈ modes, Clean mode := by decide
  have hq : ∀ q ∈ quantiles, Clean q := by decide
  rcases label_cases hm hx hl with rfl | rfl | rfl | rfl | ⟨q, hmq, rfl⟩
  · exact ⟨rfl, hc⟩
  · exact ⟨rfl, hc⟩
  · exact ⟨rfl, hmode _ hd⟩
  · exact ⟨rfl, clean_itoa⟩
  · exact ⟨rfl, hq _ hmq⟩

theorem comm_label (hm : m ∈ Api.metrics env s) (hx : x ∈ m.samples) (hl : l ∈ x.labels) 
    (hn : isCommLabel l.fst) : l.snd = targetComm s := by
  rcases label_cases hm hx hl with rfl | rfl | rfl | rfl | ⟨q, hmq, rfl⟩
  · rfl
  · rfl
  all_goals exact (Bool.false_ne_true hn).elim

theorem legible_metrics (hc : Clean <| targetComm s) (hd : s.mode ∈ modes) 
    (hm : m ∈ Api.metrics env s) : Legible (targetComm s) m := by
  have hn : m.name ∈ metricNames := by
    rw [← names_eq s env]
    exact List.mem_map_of_mem hm
  have ha : ∀ name ∈ metricNames, isName true name := by decide
  have ht := List.all_eq_true.mp (help_eq s env) m hm
  simp only [Bool.and_eq_true, decide_eq_true_eq] at ht
  exact {
    name   := ha _ hn
    listed := hn
    help   := ht.left
    type   := ht.right
    plain  := fun _ hx _ hl => plain_label hc hd hm hx hl
    comm   := fun _ hx _ hl => comm_label hm hx hl
  }

namespace Legible

theorem newline_not_mem (h : Legible comm m) (hl : line ∈ block m) : 10 ∉ line := by
  have hn := newline_not_mem_name h.name
  simp only [block, List.mem_append, List.mem_cons, List.not_mem_nil, or_false, List.mem_map] at hl
  rcases hl with (rfl | rfl) | ⟨x, hx, rfl⟩
  · simp [hn, h.help]
    decide
  · simp [hn, h.type]
    decide
  · exact newline_not_mem_print h.name (h.plain x hx) isNumber_text

theorem parse_sampleLine (h : Legible comm m) (hx : x ∈ m.samples) : 
    parse (sampleLine m.name x) = some ⟨m.name, x.labels, x.number.text⟩ :=
  parse_print h.name (h.plain x hx) isNumber_text

-- A line is a comment or the print of a sample.
theorem exists_sample (h : Legible comm m) (hl : line ∈ block m) (hs : isSample line) : 
    ∃ x ∈ m.samples, parse line = some ⟨m.name, x.labels, x.number.text⟩ := by
  simp only [block, List.mem_append, List.mem_cons, List.not_mem_nil, or_false, List.mem_map] at hl
  rcases hl with (rfl | rfl) | ⟨x, hx, rfl⟩
  · exact (Bool.false_ne_true hs).elim
  · exact (Bool.false_ne_true hs).elim
  · exact ⟨x, hx, h.parse_sampleLine hx⟩

end Legible

theorem lines_exposition (h : ∀ m ∈ Api.metrics env s, Legible comm m) : 
    lines (exposition env s) = ([[]] : List Bytes).intercalate ((Api.metrics env s).map block) ++ [[]] := by
  rw [exposition_eq]
  refine lines_flatMap fun line hl => ?_
  rcases Separated.mem_intercalate hl with hl | ⟨b, hb, hl⟩
  · rw [List.mem_singleton.mp hl]
    exact List.not_mem_nil
  · obtain ⟨m, hm, rfl⟩ := List.mem_map.mp hb
    exact (h m hm).newline_not_mem hl

theorem exists_sample_of_mem_lines (h : ∀ m ∈ Api.metrics env s, Legible comm m) 
    (hl : line ∈ lines (exposition env s)) (hs : isSample line) : 
    ∃ m ∈ Api.metrics env s, ∃ x ∈ m.samples, parse line = some ⟨m.name, x.labels, x.number.text⟩ := by
  rw [lines_exposition h, List.mem_append, List.mem_singleton] at hl
  rcases hl with hl | rfl
  case inr => contradiction
  case inl =>
    rcases Separated.mem_intercalate hl with hl | ⟨b, hb, hl⟩
    · rw [List.mem_singleton.mp hl] at hs
      contradiction
    · obtain ⟨m, hm, rfl⟩ := List.mem_map.mp hb
      exact ⟨m, hm, (h m hm).exists_sample hl hs⟩

theorem wellFormed_of_clean (hc : Clean <| targetComm s) (hd : s.mode ∈ modes) : 
    WellFormed (exposition env s) (targetComm s) := by
  have h : ∀ m ∈ Api.metrics env s, Legible (targetComm s) m := fun m hm => legible_metrics hc hd hm
  constructor
  case parses =>
    intro line hl hs
    have ⟨m, hm, x, hx, hp⟩ := exists_sample_of_mem_lines h hl hs
    exact ⟨_, hp, (h m hm).listed⟩
  case info =>
    have hm := List.mem_of_head? <| head_metrics s env
    have hx := List.mem_singleton_self (infoSample s)
    refine ⟨_, ?_, _, (h _ hm).parse_sampleLine hx, List.mem_cons_self⟩
    rw [lines_exposition h]
    refine List.mem_append_left _ <| (Separated.isInfix_intercalate <| List.mem_map_of_mem hm).subset ?_
    exact List.mem_append_right _ <| List.mem_map_of_mem hx
  case decodes =>
    intro line hl hs y hy l hm hn
    have ⟨m, hm', x, hx, hp⟩ := exists_sample_of_mem_lines h hl hs
    rw [hp, Option.some.injEq] at hy
    subst hy
    exact comm_label hm' hx hm hn

-- What follows the comm in its line.
def afterComm (s : Api.Server) : Bytes :=
  str ",pid=\"" ++ itoa (targetPid s) ++ str "\",mode=\"" ++ s.mode ++ str "\"\x7d 1"

theorem sampleLine_info : 
    sampleLine (str "drishti_target_info") (infoSample s) = 
      str "drishti_target_info" ++ 
        123 :: (str "comm" ++ 61 :: 34 :: (targetComm s ++ 34 :: afterComm s)) := by
  have h₁ : str ",pid=\"" = 44 :: (str "pid" ++ [61, 34]) := rfl
  have h₂ : str "\",mode=\"" = 34 :: 44 :: (str "mode" ++ [61, 34]) := rfl
  have h₃ : str "\"\x7d 1" = 34 :: 125 :: 32 :: (Api.Number.int 1).text := rfl
  rw [sampleLine, infoSample, printLabels, if_neg <| List.cons_ne_nil _ _]
  simp only [List.map_cons, List.map_nil, List.intercalate_cons_cons, List.intercalate_singleton, quoted, 
    afterComm, h₁, h₂, h₃, List.append_assoc, List.cons_append, List.nil_append]

variable (env s) in
-- How the first metric begins.
theorem exists_exposition_eq : 
    ∃ pre t, exposition env s = 
      pre ++ 10 :: (sampleLine (str "drishti_target_info") (infoSample s) ++ 10 :: t) := by
  obtain ⟨ms, hms⟩ := List.head?_eq_some_iff.mp <| head_metrics s env
  let line := sampleLine (str "drishti_target_info") (infoSample s)
  obtain ⟨help, type, rest, hl⟩ : ∃ help type rest, 
      ([[]] : List Bytes).intercalate ((Api.metrics env s).map block) = help :: type :: line :: rest := by
    rw [hms]
    cases ms
    case nil  => exact ⟨_, _, [], List.intercalate_singleton⟩
    case cons => exact ⟨_, _, _, List.intercalate_cons_cons⟩
  refine ⟨help ++ 10 :: type, rest.flatMap (· ++ [10]), ?_⟩
  rw [exposition_eq, hl]
  simp only [List.flatMap_cons, List.append_assoc, List.cons_append, List.nil_append, line]

-- A scraper does not take what follows the comm for a part of it.
theorem getLast?_of_afterComm {t u r : Bytes} 
    (h : scanValue false ((afterComm s ++ t).takeWhile (· ≠ 10)) = some (u, r)) : u.getLast? = some 61 := by
  have ht : ∃ t', (afterComm s ++ t).takeWhile (· ≠ 10) = str ",pid=" ++ 34 :: t' := ⟨_, rfl⟩
  obtain ⟨t', ht⟩ := ht
  rw [ht, scanValue_append (by decide), Option.some.injEq, Prod.mk.injEq] at h
  rw [← h.left]
  rfl

theorem clean_of_wellFormed (h : WellFormed (exposition env s) (targetComm s)) : Clean (targetComm s) := by
  obtain ⟨pre, t, he⟩ := exists_exposition_eq s env
  let rest := targetComm s ++ 34 :: (afterComm s ++ 10 :: t)
  let line := str "drishti_target_info" ++ 123 :: (str "comm" ++ 61 :: 34 :: rest.takeWhile (· ≠ 10))
  have hl : line ∈ lines (exposition env s) := by
    have hr : sampleLine (str "drishti_target_info") (infoSample s) ++ 10 :: t = 
        str "drishti_target_info" ++ 123 :: (str "comm" ++ 61 :: 34 :: rest) := by
      rw [sampleLine_info]
      simp only [rest, List.append_assoc, List.cons_append]
    rw [he, lines_append_cons, hr]
    exact List.mem_append_right _ takeWhile_mem_lines
  have ⟨m, hm, _⟩ := h.parses line hl rfl
  have ⟨v, r, hv, hs⟩ := exists_scanValue_of_parse (by decide) (by decide) hm
  have hc : v = targetComm s := h.decodes line hl rfl m hm _ hs rfl
  rw [hc] at hv
  exact clean_of_scanValue_line (by decide) (fun _ _ => getLast?_of_afterComm) hv

theorem wellFormed_iff (hd : s.mode ∈ modes) : 
    WellFormed (exposition env s) (targetComm s) ↔ Clean (targetComm s) :=
  ⟨clean_of_wellFormed, (wellFormed_of_clean · hd)⟩

end Metrics
-- What the handler of the metrics responds with.
def Scraped (env : Api.Env) (r : Request) (x : Api.Exchange) : Prop :=
  ∃ y body, Api.handlePrometheusMetrics env r x = .ok y ∧ 
    y.writer.body = x.writer.body ++ [.text body] ∧ WellFormed body (targetComm x.server)

theorem scraped_iff {env : Api.Env} {r : Request} {x : Api.Exchange} : 
    Scraped env r x ↔ WellFormed (exposition env x.server) (targetComm x.server) := by
  constructor
  case mp =>
    rintro ⟨y, body, hy, hb, hw⟩
    have he : body = exposition env x.server := by
      cases hy
      have hb := List.append_cancel_left hb
      simpa [exposition] using hb.symm
    exact he ▸ hw
  case mpr => exact fun hw => ⟨_, _, rfl, rfl, hw⟩

section Comms

variable [Unicode] {s : Api.Server} {c : Config} {comm : Bytes}

-- The configured comm contains nothing that would have to be escaped.
theorem clean_of_sanitized (h : Config.Sanitized comm) : Clean comm := by
  have hn {r : Rune} (ha : r.toNat < 0x80) (hr : (r.isAlpha || r.isDigit || r = '-' || r = '_' || r = '.' || 
      r = ':' || r = '+') = false) : ¬r.encode <:+: comm := by
    rw [← Unicode.isLetter_ascii r ha, ← Unicode.isDigit_ascii r ha] at hr
    exact h.encode_not_isInfix <| Bool.eq_false_iff.mp hr
  refine ⟨fun hb => ?_, fun hb => ?_, fun hb => ?_⟩
  · exact hn (r := '"') (by decide) (by decide) <| List.singleton_infix_iff .. |>.mpr hb
  · exact hn (r := '\\') (by decide) (by decide) <| List.singleton_infix_iff .. |>.mpr hb
  · exact hn (r := '\n') (by decide) (by decide) <| List.singleton_infix_iff .. |>.mpr hb

theorem clean_of_reachable (h : c.Reachable) : Clean c.targetComm :=
  clean_of_sanitized h.wellFormed.comm

-- The comm of a snapshot if no live process has provided it.
def Source.configured : Source → Bytes
  | ebpf _ t   => t.later.targetComm
  | real _ c _ => RealEngine.targetComm c.targetComm
  | mock c row _ => (Mock.metaTarget c row).comm

theorem clean_configured {src : Source} (h : src.Reachable) : Clean src.configured := by
  have hd {comm : Bytes} (hc : Clean comm) : Clean (if comm = [] then str "agy" else comm) := by
    split
    case isTrue  => decide
    case isFalse => exact hc
  cases src
  case ebpf => exact clean_of_reachable h
  case real => exact hd <| clean_of_reachable h
  case mock c row _ =>
    have hc := hd <| clean_of_reachable h
    have hn : (if c.targetComm = [] then str "agy" else c.targetComm) ≠ [] := by
      split
      case isTrue         => decide
      case isFalse hempty => exact hempty
    have hm : (Mock.metaTarget c row).comm = 
        if (if c.targetComm = [] then str "agy" else c.targetComm) = [] then row.comm 
        else if c.targetComm = [] then str "agy" else c.targetComm := 
      rfl
    rw [Source.configured, hm, if_neg hn]
    exact hc

variable [Runtime] {src : Source}

theorem head?_walk {e : EbpfAgent.LiveState} {t : EbpfAgent.BuildTick} : 
    (EbpfAgent.walk e t).processes.head?.map (·.comm) = 
      (EbpfAgent.targets t).head?.map fun pid => (Enrich.readProcessInfo (t.views pid).info pid).row.comm := by
  rw [EbpfAgent.walk, EbpfAgent.Sampling.foldl_visit_processes EbpfAgent.Sampling.targets_nodup, 
    List.nil_append, List.head?_map, Option.map_map]
  rfl

variable [Zone] {source : Option Source}

theorem snapshot_comm : src.snapshot.info.target.comm = src.liveComm?.getD src.configured := by
  cases src
  case real => 
    rw [Source.snapshot, RealEngine.collect_target]
    rfl
  case mock => rfl
  case ebpf e t =>
    have hs : (Source.ebpf e t).snapshot.info.target.comm = 
        if t.later.targetComm = [] then 
          ((EbpfAgent.walk e t).processes.head?.map (·.comm)).getD t.later.targetComm 
        else 
          t.later.targetComm := 
      rfl
    rw [hs, head?_walk, Source.liveComm?, Source.configured]
    split
    case isTrue  => rfl
    case isFalse => rfl

-- Only the comm of a live process can need to be escaped.
theorem clean_targetComm_iff (hc : s.cfg.Reachable) (hs : ∀ src ∈ source, src.Reachable) : 
    Clean (targetComm <| publish s source) ↔ ∀ comm ∈ source.bind (·.liveComm?), Clean comm := by
  have hd {comm : Bytes} : Clean (if comm ≠ [] then comm else s.cfg.targetComm) ↔ Clean comm := by
    split
    case isTrue     => rfl
    case isFalse he =>
      rw [not_not] at he
      rw [he]
      exact iff_of_true (clean_of_reachable hc) (by decide)
  cases source
  case none     => exact iff_of_true (clean_of_reachable hc) (by simp)
  case some src =>
    have ht : targetComm (publish s <| some src) = 
        if src.snapshot.info.target.comm ≠ [] then src.snapshot.info.target.comm else s.cfg.targetComm := 
      rfl
    rw [ht, hd, snapshot_comm, Option.bind_some]
    cases src.liveComm?
    case none => simp [clean_configured (hs src rfl)]
    case some => simp

variable {env : Api.Env} {r : Request} {x : Api.Exchange}

-- The metrics that are shown to a scraper are well formed if and only if the comm of the target is not
-- that of a live process or need not be escaped.
theorem scraped_iff_clean (hc : x.server.cfg.Reachable) (hd : x.server.mode ∈ modes) 
    (hs : ∀ src ∈ source, src.Reachable) : 
    Scraped env r { x with server := publish x.server source } ↔ 
      ∀ comm ∈ source.bind (·.liveComm?), Clean comm := by
  have hd : (publish x.server source).mode ∈ modes := by
    cases source
    case none => exact hd
    case some => exact hd
  rw [scraped_iff, wellFormed_iff hd, clean_targetComm_iff hc hs]

end Comms
section Injection

attribute [local instance] Unicode.ascii Runtime.stable Zone.utcEpoch

-- A process that has named itself.
def injector : Linux.Process :=
  .single 111 (.ofBytes <| str "x\"\x7d 1") (some <| str "111 (x\"\x7d 1) S 1") (by decide)

def injected : Linux.ProcFS where
  processes := [injector]
  nodup     := List.nodup_singleton _

-- The comm in the environment is not accepted, so that of the process is shown.
def unnamed : Config :=
  .loadTarget 111 (str "a/b")

def injection : Source :=
  .ebpf (.new Time.epoch) {
    now     := Time.epoch + 1_000_000_000
    cfg     := unnamed
    later   := unnamed
    fs      := injected
    views _ := ⟨injected, injected, injected⟩
    coll    := none
  }

def unnamedServer : Api.Server :=
  Api.newServer unnamed (.newHub 128) .newSnapshotBuilder (str "ebpf") [] .nop Time.epoch

theorem unnamed_reachable : unnamed.Reachable :=
  .load _

theorem injection_reachable : ∀ src ∈ some injection, src.Reachable := by
  rintro _ ⟨⟩
  exact unnamed_reachable

theorem mem_liveComm?_injection : str "x\"\x7d 1" ∈ (some injection).bind (·.liveComm?) := by
  decide +kernel

theorem scraped_iff_clean_injection : 
    Scraped Api.oneSecondLater Api.remoteRequest ⟨publish unnamedServer (some injection), {}, []⟩ ↔ 
      ∀ comm ∈ (some injection).bind (·.liveComm?), Clean comm :=
  scraped_iff_clean (x := ⟨unnamedServer, {}, []⟩) unnamed_reachable (by decide) injection_reachable

-- The name ends the line of the metric and its labels.
theorem not_scraped_injection : 
    ¬∀ env r (x : Api.Exchange) source, x.server.cfg.Reachable → x.server.mode ∈ modes → 
      (∀ src ∈ source, Source.Reachable src) → 
      Scraped env r { x with server := publish x.server source } := by
  intro h
  have hs := h Api.oneSecondLater Api.remoteRequest ⟨unnamedServer, {}, []⟩ (some injection) 
    unnamed_reachable (by decide) injection_reachable
  have hw := clean_of_wellFormed (scraped_iff.mp hs)
  have hc := clean_targetComm_iff unnamed_reachable injection_reachable |>.mp hw
  exact absurd (hc _ mem_liveComm?_injection) (by decide)

end Injection
end Agentscope.Scrape
