import DrishtiScope.Config.Idempotence
import DrishtiScope.EbpfAgent.Filter
import DrishtiScope.RealEngine.Engine

open Go Linux Bpf Enrich

-- Whether a process is found by the filter that has been made from its own comm.
namespace Agentscope.Matching

-- A process, and a task of it, with a comm that is not empty.
structure Live (fs : ProcFS) (comm : Comm) (p : Process) (cur : Current) : Prop where
  listed   : p ∈ fs.processes
  name     : p.comm = some comm
  task     : cur.comm = comm
  nonempty : comm.bytes ≠ []

-- The process passes all filters by comm.
structure Matched [Unicode] (fs : ProcFS) (k : Kernel) (cfg : Config) (pids : List Int) (p : Process) 
    (cur : Current) : Prop where
  findByComm       : p.pid ∈ findByComm fs cfg.targetComm
  commPrefixMatch  : commPrefixMatch (EbpfAgent.writeConfigToMap k cfg pids).config.targetComm cur
  scanAllProcesses : (RealEngine.commOf p).any (·.equalFold cfg.targetComm)

-- White space occurs at the end of the comm only, if at all.
def Plain (comm : Bytes) : Prop :=
  comm.trimLeftSpace = comm ∧ 32 ∉ comm.trimSpace

section Translate

open Config.sanitizeComm

variable {r : Rune} {rs : List Rune}

theorem translate_eq_iff : translate r = r ↔ r ≠ ' ' := by
  rw [Config.sanitizeComm.translate]
  split
  case isTrue h  => rw [h]; decide
  case isFalse h => simp [h]

theorem map_translate_eq_iff : rs.map translate = rs ↔ ' ' ∉ rs := by
  have h : rs.map translate = rs.map id ↔ _ := List.map_inj_left
  simp only [List.map_id, id_eq, translate_eq_iff] at h
  rw [h]
  exact ⟨fun h hs => h ' ' hs rfl, fun h r hr he => h (he ▸ hr)⟩

theorem encodeAll_prefix_iff : 
    Bytes.encodeAll (rs.map translate) <+: Bytes.encodeAll rs ↔ ' ' ∉ rs := by
  rw [← map_translate_eq_iff]
  constructor
  case mpr => exact fun h => by rw [h]
  case mp  =>
    intro h
    have he := congrArg Bytes.runes <| h.eq_of_length length_encodeAll_translate
    rwa [Bytes.runes_encodeAll, Bytes.runes_encodeAll] at he

variable [Unicode]

theorem fold_translate_eq_iff : Unicode.fold (translate r) = Unicode.fold r ↔ r ≠ ' ' := by
  rw [← translate_eq_iff]
  constructor
  case mpr => exact fun h => by rw [h]
  case mp  =>
    intro h
    rw [Config.sanitizeComm.translate] at h ⊢
    split at h
    case isTrue hs  =>
      subst hs
      rw [Unicode.fold_ascii _ (by decide), Unicode.fold_ascii _ (by decide)] at h
      contradiction
    case isFalse hs => exact if_neg hs

theorem equalFold_encodeAll_iff : 
    (Bytes.encodeAll rs).equalFold (Bytes.encodeAll <| rs.map translate) ↔ ' ' ∉ rs := by
  simp only [Bytes.equalFold, Bytes.runes_encodeAll, List.map_map, decide_eq_true_eq]
  rw [List.map_inj_left]
  constructor
  case mp  => exact fun h hs => fold_translate_eq_iff.mp (h ' ' hs).symm rfl
  case mpr => exact fun h r hr => (fold_translate_eq_iff.mpr fun he => h <| he ▸ hr).symm

end Translate
section Filters

open Config.sanitizeComm

variable [Unicode] {fs : ProcFS} {comm : Comm} {p : Process} {cur : Current} {k : Kernel} 
         {cfg cfg' : Config} {pids : List Int} {rs : List Rune}

-- What `setTarget` makes of a comm that it accepts.
structure Installed (cfg : Config) (comm : Bytes) (rs : List Rune) : Prop where
  trimmed    : comm.trimSpace = Bytes.encodeAll rs
  targetComm : cfg.targetComm = Bytes.encodeAll (rs.map translate)
  sanitized  : Config.Sanitized cfg.targetComm
  passes     : ∀ r ∈ rs, Config.passes r
  nonempty   : rs ≠ []

theorem exists_installed (h : cfg.setTarget 0 comm.bytes = .ok cfg') (hn : comm.bytes ≠ []) : 
    ∃ rs, Installed cfg' comm.bytes rs := by
  have hc := Config.setTarget_ok_iff.mp h |>.right |>.left hn
  have ht := Config.setTarget_targetComm h
  rw [Config.installComm, if_neg hn] at ht
  have hp : (Config.commText comm.bytes).runes.all Config.passes := 
    of_not_not <| mt eq_nil_of_not_passes hc
  obtain ⟨ws, us, _, hs, _⟩ := Bytes.exists_trimSpace comm.bytes
  have hi : comm.bytes.trimSpace <:+: comm.bytes := ⟨_, _, by rw [List.append_assoc]; exact hs.symm⟩
  have he : Config.commText comm.bytes = comm.bytes.trimSpace := 
    Bytes.trimByte_eq_self fun hz => comm.noZero <| hi.subset hz
  rw [he] at hp
  have hr : Bytes.encodeAll comm.bytes.trimSpace.runes = comm.bytes.trimSpace := 
    Bytes.encodeAll_runes fun hr => passes_ne_error (List.all_eq_true.mp hp _ hr) rfl
  have hl : (Bytes.encodeAll <| comm.bytes.trimSpace.runes.map translate).length ≤ Config.maxCommLen := by
    rw [length_encodeAll_translate, hr]
    exact hi.length_le.trans comm.length
  have heq := eq_take_of_passes (he ▸ hp)
  rw [he, List.take_of_length_le hl] at heq
  refine ⟨comm.bytes.trimSpace.runes, hr.symm, ht.trans heq, ht ▸ Config.sanitizeComm_sanitized _, 
    List.all_eq_true.mp hp, fun hnil => ?_⟩
  rw [heq, hnil] at hc
  exact hc rfl

namespace Installed

theorem plain_iff (h : Installed cfg comm.bytes rs) : 
    Plain comm.bytes ↔ comm.bytes.trimLeftSpace = comm.bytes ∧ ' ' ∉ rs := by
  have he : 32 ∈ Bytes.encodeAll rs ↔ ' ' ∈ rs := by
    constructor
    case mp  => exact fun h => Bytes.mem_of_encode_isInfix <| List.singleton_infix_iff .. |>.mpr h
    case mpr => exact fun h => List.singleton_infix_iff .. |>.mp <| Bytes.encode_isInfix_of_mem h
  rw [Plain, h.trimmed, he]

theorem findByComm_iff (h : Installed cfg comm.bytes rs) (hl : Live fs comm p cur) : 
    p.pid ∈ findByComm fs cfg.targetComm ↔ ' ' ∉ rs := by
  have hm : p.pid ∈ findByComm fs cfg.targetComm ↔ commMatches p cfg.targetComm := by
    rw [mem_findByComm]
    constructor
    case mp  => exact fun ⟨q, hq, hm, he⟩ => fs.eq_of_pid_eq hq hl.listed he ▸ hm
    case mpr => exact fun hm => ⟨p, hl.listed, hm, rfl⟩
  rw [hm, h.targetComm]
  simp only [commMatches, Process.commFile, hl.name, Option.map_some, Option.any_some, Comm.file, 
    Bytes.trimSpace_newline, h.trimmed, Bytes.hasPrefix_iff]
  exact encodeAll_prefix_iff

theorem equalFold_iff (h : Installed cfg comm.bytes rs) (hl : Live fs comm p cur) : 
    (RealEngine.commOf p).any (·.equalFold cfg.targetComm) ↔ ' ' ∉ rs := by
  simp only [RealEngine.commOf, Process.commFile, hl.name, Option.map_some, Option.any_some, Comm.file, 
    Bytes.trimSpace_newline, h.trimmed, h.targetComm]
  exact equalFold_encodeAll_iff

-- The kernel compares the whole comm, which begins with the spaces that have been trimmed.
theorem prefix_iff (h : Installed cfg comm.bytes rs) : 
    cfg.targetComm <+: comm.bytes ↔ comm.bytes.trimLeftSpace = comm.bytes ∧ ' ' ∉ rs := by
  obtain ⟨ws, us, hw, hs, hl⟩ := Bytes.exists_trimSpace comm.bytes
  rw [h.trimmed] at hs
  rw [hl, h.targetComm, ← encodeAll_prefix_iff]
  have hlen : (Bytes.encodeAll <| rs.map translate).length ≤ (Bytes.encodeAll rs).length := 
    length_encodeAll_translate.le
  cases ws
  case nil =>
    have hp : Bytes.encodeAll rs <+: comm.bytes := ⟨_, hs.symm⟩
    rw [and_iff_right rfl]
    exact ⟨fun hf => List.prefix_of_prefix_length_le hf hp hlen, (·.trans hp)⟩
  case cons w ws =>
    refine iff_of_false (fun hf => ?_) (by simp)
    obtain ⟨r, rs, rfl⟩ := List.exists_cons_of_ne_nil h.nonempty
    have hr : (translate r).encode <+: comm.bytes := (List.prefix_append ..).trans hf
    have hc := passes_translate (h.passes r List.mem_cons_self) |>.right
    rw [Bytes.encodeAll_cons, List.append_assoc] at hs
    rw [Bytes.encode_prefix_unique hr ⟨_, hs.symm⟩] at hc
    exact commRune_not_space hc <| hw w List.mem_cons_self

theorem commPrefixMatch_iff (h : Installed cfg comm.bytes rs) (hl : Live fs comm p cur) : 
    commPrefixMatch (EbpfAgent.writeConfigToMap k cfg pids).config.targetComm cur ↔ 
      comm.bytes.trimLeftSpace = comm.bytes ∧ ' ' ∉ rs := by
  have hlen : cfg.targetComm.length ≤ 15 := h.sanitized.length_le
  have hc : (EbpfAgent.writeConfigToMap k cfg pids).config.targetComm.cstr = cfg.targetComm := 
    CharArray.cstr_ofBytes (by omega) h.sanitized.zero_not_mem
  have hn : cfg.targetComm ≠ [] := by
    obtain ⟨r, rs, rfl⟩ := List.exists_cons_of_ne_nil h.nonempty
    rw [h.targetComm, List.map_cons, Bytes.encodeAll_cons]
    exact fun he => (translate r).encode_ne_nil (List.append_eq_nil_iff.mp he).left
  rw [Bpf.commPrefixMatch_iff, hc, hl.task, and_iff_right hn]
  exact h.prefix_iff

end Installed

-- A process is found by its own comm if and only if no space of the comm has been replaced, and none
-- has been removed at the start.
theorem matched_iff_plain (hl : Live fs comm p cur) (h : cfg.setTarget 0 comm.bytes = .ok cfg') : 
    Matched fs k cfg' pids p cur ↔ Plain comm.bytes := by
  obtain ⟨rs, hi⟩ := exists_installed h hl.nonempty
  rw [hi.plain_iff]
  constructor
  case mp  => exact fun hm => hi.commPrefixMatch_iff hl |>.mp hm.commPrefixMatch
  case mpr =>
    intro hp
    constructor
    case findByComm       => exact hi.findByComm_iff hl |>.mpr hp.right
    case commPrefixMatch  => exact hi.commPrefixMatch_iff hl |>.mpr hp
    case scanAllProcesses => exact hi.equalFold_iff hl |>.mpr hp.right

end Filters

section WebContent

attribute [local instance] Unicode.ascii

def webContent : Comm :=
  .ofBytes <| str "Web Content"

def content (comm : Comm) : Process :=
  .single 91 comm none (by decide)

def contentOnly (comm : Comm) : ProcFS where
  processes := [content comm]
  nodup     := List.nodup_singleton _

def contentTask (comm : Comm) : Current :=
  EbpfAgent.Runs.task (content comm) ⟨91, comm⟩

def targeting (comm : Bytes) : Config :=
  { Config.loadTarget 0 (str "agy") with targetComm := comm }

theorem live_content {comm : Comm} (h : comm.bytes ≠ []) : 
    Live (contentOnly comm) comm (content comm) (contentTask comm) :=
  ⟨List.mem_singleton_self _, rfl, rfl, h⟩

theorem matched_iff_plain_agy : 
    Matched (contentOnly EbpfAgent.agy) .empty (targeting <| str "agy") [] (content EbpfAgent.agy) 
      (contentTask EbpfAgent.agy) ↔ Plain EbpfAgent.agy.bytes := by
  have hs : (targeting []).setTarget 0 EbpfAgent.agy.bytes = .ok (targeting <| str "agy") := rfl
  exact matched_iff_plain (live_content <| by decide) hs

-- The comm is installed as Web_Content.
theorem not_matched_webContent : 
    ¬∀ fs (comm : Comm) p cur k cfg cfg' pids, Live fs comm p cur → 
      Config.setTarget cfg 0 comm.bytes = .ok cfg' → Matched fs k cfg' pids p cur := by
  intro h
  have hm := h (contentOnly webContent) webContent (content webContent) (contentTask webContent) .empty 
    (Config.loadTarget 0 <| str "agy") (targeting <| str "Web_Content") [] (live_content <| by decide) rfl
  exact absurd hm.scanAllProcesses (by decide)

end WebContent
end Agentscope.Matching
