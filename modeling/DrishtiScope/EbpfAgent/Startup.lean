import DrishtiScope.Go.Strconv
import DrishtiScope.Lib.Resources

open Go Resources

-- The start of the agent, which may fail at each of its steps, and the function that ends it.
namespace EbpfAgent.Startup

-- The channel `done` tells the goroutines to end. Closing it once more would panic.
inductive Resource
  | collection
  | link (name : Bytes)
  | ringbuf
  | done
  deriving DecidableEq

abbrev Log := List (Op Resource)

-- What is in the BPF object.
structure Collection where
  programs : List Bytes
  maps     : List Bytes

structure Tracepoint where
  group : Bytes
  name  : Bytes
  prog  : Bytes

def Tracepoint.link (tp : Tracepoint) : Resource :=
  .link tp.name

-- The outcomes of the calls of the BPF library. A linker tells whether there is a link.
structure Host where
  spec          : Except Bytes Unit
  newCollection : Except Bytes Collection
  put           : Except Bytes Unit
  linker        : Tracepoint → Except Bytes Bool
  newReader     : Except Bytes Unit

def opened (links : List (Option Resource)) : List Resource :=
  links.filterMap id

def closeLinks (links : List (Option Resource)) : Log :=
  (opened links).map .close

section Attach

variable (coll : Collection) (linker : Tracepoint → Except Bytes Bool)

-- The program is one of the collection.
def attach (tp : Tracepoint) : Except Bytes (Option Resource) × Log :=
  if !coll.programs.contains tp.prog then
    (.error (str "program " ++ tp.prog ++ str " not found in BPF object"), [.use .collection])
  else
    match linker tp with
    | .error e => 
      (.error (str "tracepoint " ++ tp.group ++ str "/" ++ tp.name ++ str ": " ++ e), [.use .collection])
    | .ok l    => 
      if l then (.ok (some tp.link), [.use .collection, .acquire tp.link]) else (.ok none, [.use .collection])

def attachAll : List Tracepoint → List (Option Resource) → Except Bytes (List (Option Resource)) × Log
  | [], links        => (.ok links, [])
  | tp :: tps, links =>
    match attach coll linker tp with
    | (.error e, log) => (.error e, log ++ closeLinks links)
    | (.ok l, log)    =>
      let (result, log') := attachAll tps (links ++ [l])
      (result, log ++ log')

def tracepoints : List Tracepoint :=
  [
    ⟨str "sched", str "sched_process_exec", str "tp_exec"⟩,
    ⟨str "sched", str "sched_process_exit", str "tp_exit"⟩,
    ⟨str "raw_syscalls", str "sys_enter", str "tp_sys_enter"⟩,
    ⟨str "raw_syscalls", str "sys_exit", str "tp_sys_exit"⟩
  ]

def attachTracepoints : Except Bytes (List (Option Resource)) × Log :=
  attachAll coll linker tracepoints []

end Attach

def writeConfig (host : Host) (coll : Collection) : Except Bytes Unit :=
  if !coll.maps.contains (str "config") then .error (str "config map missing") else host.put

def defaultRingbufOpener (host : Host) (coll : Collection) : Except Bytes Unit :=
  if !coll.maps.contains (str "events") then .error (str "events map missing") else host.newReader

-- The operations of the function that is returned.
def cleanup (links : List (Option Resource)) : Log :=
  .close .done :: .close .ringbuf :: closeLinks links ++ [.close .collection]

-- What the goroutines are handed when they are started.
def workers : List Resource :=
  [.ringbuf, .done, .collection]

def startAgentWorkers (links : List (Option Resource)) : Log × Log :=
  (cleanup links, .acquire .done :: workers.map .use)

-- Both maps are looked up in the collection.
def initAndStart (host : Host) (coll : Collection) : Except Bytes Log × Log :=
  match writeConfig host coll with
  | .error e => (.error (str "init config map: " ++ e), [.use .collection, .close .collection])
  | .ok _    =>
    match attachTracepoints coll host.linker with
    | (.error e, log)  => (.error e, .use .collection :: log ++ [.close .collection])
    | (.ok links, log) =>
      let log := .use .collection :: log ++ [.use .collection]
      match defaultRingbufOpener host coll with
      | .error e => (.error (str "open ringbuf: " ++ e), log ++ closeLinks links ++ [.close .collection])
      | .ok _    =>
        let (cleanup, log') := startAgentWorkers links
        (.ok cleanup, log ++ .acquire .ringbuf :: log')

def tryLoad (host : Host) : Except Bytes Log × Log :=
  match host.spec with
  | .error e => (.error (str "load BPF spec: " ++ e), [])
  | .ok _    =>
    match host.newCollection with
    | .error e => (.error (str "new BPF collection: " ++ e), [])
    | .ok coll =>
      let (result, log) := initAndStart host coll
      (result, .acquire .collection :: log)

-- All steps succeed.
structure Succeeds (host : Host) (coll : Collection) : Prop where
  spec          : host.spec.isOk
  newCollection : host.newCollection = .ok coll
  config        : str "config" ∈ coll.maps
  put           : host.put.isOk
  programs      : ∀ tp ∈ tracepoints, tp.prog ∈ coll.programs
  links         : ∀ tp ∈ tracepoints, (host.linker tp).isOk
  events        : str "events" ∈ coll.maps
  newReader     : host.newReader.isOk

-- What is open while the agent runs.
def running (links : List (Option Resource)) : List Resource :=
  .collection :: opened links ++ [.ringbuf, .done]

-- An agent that fails to start has closed what it had acquired. Otherwise, everything is open until the 
-- function that is returned closes it. Nothing is used before or after.
inductive Safe : Except Bytes Log × Log → Prop
  | failed {e : Bytes} {log : Log} (hr : replay [] log = some []) : Safe (.error e, log)
  | started {links : List (Option Resource)} {log : Log} (hr : replay [] log = some (running links)) 
    (hc : ∀ r, .close r ∉ log) (hk : replay (running links) (cleanup links) = some []) : 
    Safe (.ok <| cleanup links, log)

section Attach

variable {coll : Collection} {linker : Tracepoint → Except Bytes Bool} {tps : List Tracepoint} 
  {links : List (Option Resource)} {base : List Resource}

-- What is attached while `base` is open.
inductive Attached (base links : List Resource) : Except Bytes (List (Option Resource)) × Log → Prop
  | failed {e : Bytes} {log : Log} : replay (base ++ links) log = some base → Attached base links (.error e, log)
  | attached {links' : List (Option Resource)} {log : Log} : 
    replay (base ++ links) log = some (base ++ opened links') → 
    (∀ r, .close r ∉ log) → (base ++ opened links').Nodup → 
    (∀ r ∈ opened links', r ∈ links ∨ ∃ name, r = .link name) → Attached base links (.ok links', log)

-- A step fails or leaves one more link, if any.
inductive Attaches (tp : Tracepoint) : Except Bytes (Option Resource) × Log → Prop
  | failed (e : Bytes) : Attaches tp (.error e, [.use .collection])
  | link : Attaches tp (.ok <| some tp.link, [.use .collection, .acquire tp.link])
  | nothing : Attaches tp (.ok none, [.use .collection])

theorem attach_attaches (tp : Tracepoint) : Attaches tp (attach coll linker tp) := by
  simp only [attach]
  split
  case isTrue  => exact .failed _
  case isFalse =>
    split
    case h_1 => exact .failed _
    case h_2 =>
      split
      · exact .link
      · exact .nothing

theorem replay_closeLinks (h : (base ++ opened links).Nodup) : 
    replay (base ++ opened links) (closeLinks links) = some base :=
  replay_close h

theorem replay_collection {log : Log} (hb : .collection ∈ base) : 
    replay (base ++ opened links) (.use .collection :: log) = replay (base ++ opened links) log :=
  replay_use <| List.mem_append_left _ hb

theorem attachAll_attached (hb : .collection ∈ base) (h : (base ++ opened links ++ tps.map (·.link)).Nodup) : 
    Attached base (opened links) (attachAll coll linker tps links) := by
  induction tps generalizing links
  case nil => 
    have hn : (base ++ opened links).Nodup := by simpa using h
    exact .attached replay_nil (by simp) hn fun r hr => .inl hr
  case cons tp tps hi =>
    have ha : Attaches tp (attach coll linker tp) := attach_attaches tp
    simp only [attachAll]
    generalize attach coll linker tp = r at ha
    cases ha
    case failed e => exact .failed <| (replay_collection hb).trans <| replay_closeLinks h.of_append_left
    case nothing  =>
      have hl : opened (links ++ [none]) = opened links := by simp [opened]
      have hn : (base ++ opened (links ++ [none]) ++ tps.map (·.link)).Nodup := 
        hl ▸ h.sublist (List.Sublist.append_left (List.sublist_cons_self _ _) _)
      have hs := hl ▸ hi hn
      simp only [List.singleton_append]
      generalize attachAll coll linker tps _ = r at hs ⊢
      cases hs
      case failed hr            => exact .failed <| (replay_collection hb).trans hr
      case attached hr hc hn hl => exact .attached ((replay_collection hb).trans hr) (by simpa using hc) hn hl
    case link     =>
      have hl : opened (links ++ [some tp.link]) = opened links ++ [tp.link] := by simp [opened]
      have hs := @hi (links ++ [some tp.link]) (by simpa [hl] using h)
      have hm : tp.link ∉ base ++ opened links := by
        rw [List.map_cons] at h
        exact fun hm => List.disjoint_of_nodup_append h hm List.mem_cons_self
      have ha (log : Log) : replay (base ++ opened links) (.use .collection :: .acquire tp.link :: log) = 
          replay (base ++ (opened links ++ [tp.link])) log := by
        rw [replay_collection hb, replay_acquire hm, List.append_assoc]
      rw [hl] at hs
      simp only [List.cons_append, List.nil_append]
      generalize attachAll coll linker tps _ = r at hs ⊢
      cases hs
      case failed hr         => exact .failed <| (ha _).trans hr
      case attached hr hc hn hl => 
        refine .attached ((ha _).trans hr) (by simpa using hc) hn fun r hm => ?_
        cases hl r hm
        case inr he => exact .inr he
        case inl hm =>
          refine (List.mem_append.mp hm).imp_right fun hm => ⟨tp.name, ?_⟩
          exact List.mem_singleton.mp hm

end Attach

variable {host : Host} {coll : Collection}

theorem attachTracepoints_attached {linker : Tracepoint → Except Bytes Bool} : 
    Attached [.collection] [] (attachTracepoints coll linker) := by
  have hn : ([Resource.collection] ++ opened [] ++ tracepoints.map Tracepoint.link).Nodup := by decide
  exact attachAll_attached List.mem_cons_self hn

-- Whatever fails after the collection has been loaded, it is closed at last.
theorem replay_failed {log log' : Log} {held : List Resource} 
    (h : replay [.collection] log = some held) (h' : replay held log' = some [.collection]) : 
    replay [] (.acquire .collection :: (log ++ log' ++ [.close .collection])) = some [] := by
  rw [replay_acquire (by simp), List.nil_append, replay_append, replay_append, h, Option.bind_some, h']
  rfl

-- A map of the collection is looked up before and after the links are attached.
theorem replay_lookups {log : Log} {held : List Resource} (h : replay [.collection] log = some held)
    (hc : .collection ∈ held) : 
    replay [.collection] (.use .collection :: log ++ [.use .collection]) = some held := by
  rw [List.cons_append, replay_use (by simp), replay_append, h, Option.bind_some, replay_use hc, replay_nil]

theorem running_nodup {links : List (Option Resource)} 
    (hn : ([Resource.collection] ++ opened links).Nodup) 
    (hl : ∀ r ∈ opened links, ∃ name, r = .link name) : (running links).Nodup := by
  refine List.nodup_append.mpr ⟨hn, by decide, ?_⟩
  rintro r hr r' hr' rfl
  cases List.mem_cons.mp hr
  case inl he => simp [he] at hr'
  case inr hm =>
    have ⟨name, he⟩ := hl r hm
    simp [he] at hr'

-- The last one that was opened is closed first, except for the links.
theorem replay_cleanup {links : List (Option Resource)} (hn : (running links).Nodup) : 
    replay (running links) (cleanup links) = some [] := by
  let held := [.collection] ++ opened links
  have hd : (held ++ [Resource.ringbuf] ++ [Resource.done]).Nodup := by simpa [held, running] using hn
  have hc : cleanup links = [.close .done] ++ ([.close .ringbuf] ++ (closeLinks links ++ [.close .collection])) := 
    rfl
  have hr : running links = held ++ [.ringbuf] ++ [.done] := by simp [held, running]
  have h₁ : replay (held ++ [.ringbuf] ++ [.done]) [.close .done] = some (held ++ [.ringbuf]) := replay_close hd
  have h₂ : replay (held ++ [.ringbuf]) [.close .ringbuf] = some held := replay_close hd.of_append_left
  have h₃ : replay held (closeLinks links) = some [.collection] := 
    replay_closeLinks hd.of_append_left.of_append_left
  rw [hc, hr, replay_append, h₁, Option.bind_some, replay_append, h₂, Option.bind_some, replay_append, h₃]
  rfl

theorem tryLoad_safe (host : Host) : Safe (tryLoad host) := by
  simp only [tryLoad]
  split
  case h_1 => exact .failed rfl
  case h_2 =>
    split
    case h_1 => exact .failed rfl
    case h_2 coll _ =>
      simp only [initAndStart]
      split
      case h_1 => exact .failed rfl
      case h_2 =>
        have ha : Attached [.collection] [] (attachTracepoints coll host.linker) := attachTracepoints_attached
        generalize attachTracepoints coll host.linker = r at ha ⊢
        cases ha
        case failed log hr => 
          have hu : replay [.collection] (.use .collection :: log) = some [.collection] := 
            (replay_use List.mem_cons_self).trans hr
          exact .failed <| by simpa using replay_failed hu replay_nil
        case attached links log hr hc hn hl =>
          have hn' : (running links).Nodup := 
            running_nodup hn fun r hm => (hl r hm).resolve_left List.not_mem_nil
          have hr' : replay [.collection] _ = some ([.collection] ++ opened links) := 
            replay_lookups hr (by simp)
          simp only
          split
          case h_1 => exact .failed <| replay_failed hr' <| replay_closeLinks hn
          case h_2 =>
            simp only [startAgentWorkers]
            apply Safe.started
            case hc => simpa using hc
            case hk => exact replay_cleanup hn'
            case hr =>
              have hu := List.disjoint_of_nodup_append hn'
              have hb : Resource.ringbuf ∉ [.collection] ++ opened links := fun hm => hu hm (by simp)
              have hd : Resource.done ∉ [.collection] ++ opened links ++ [.ringbuf] := by
                intro hm
                cases List.mem_append.mp hm
                case inl hm => exact hu hm (by simp)
                case inr hm => simp at hm
              have hw : replay (running links) (workers.map .use) = some (running links) := 
                replay_uses <| by simp [workers, running]
              rw [replay_acquire (by simp), List.nil_append, replay_append, hr', Option.bind_some, 
                replay_acquire hb, replay_acquire hd, ← hw]
              simp [running]

section Success

variable {ε α : Type} {linker : Tracepoint → Except Bytes Bool} {tps : List Tracepoint} 
  {links : List (Option Resource)}

@[simp]
theorem isOk_ok {a : α} : (.ok a : Except ε α).isOk :=
  rfl

@[simp]
theorem isOk_error {e : ε} : (.error e : Except ε α).isOk = false :=
  rfl

theorem isOk_attachAll : 
    (attachAll coll linker tps links).fst.isOk ↔ 
      ∀ tp ∈ tps, tp.prog ∈ coll.programs ∧ (linker tp).isOk := by
  induction tps generalizing links
  case nil            => simp [attachAll]
  case cons tp tps hi =>
    simp only [attachAll, attach, List.forall_mem_cons, ← @hi (links ++ [none])]
    by_cases hp : tp.prog ∈ coll.programs
    case neg => simp [hp]
    case pos =>
      cases linker tp
      case error e => simp [hp]
      case ok l    => 
        cases l
        case false => simp [hp]
        case true  => simp [hp, hi]

theorem isOk_initAndStart : 
    (initAndStart host coll).fst.isOk ↔ 
      (writeConfig host coll).isOk ∧ (attachTracepoints coll host.linker).fst.isOk ∧ 
      (defaultRingbufOpener host coll).isOk := by
  simp only [initAndStart]
  cases writeConfig host coll
  case error => simp
  case ok    =>
    generalize attachTracepoints coll host.linker = r
    have ⟨result, log⟩ := r
    cases result
    case error => simp
    case ok    => cases defaultRingbufOpener host coll <;> simp

theorem isOk_unless {names : List Bytes} {name : Bytes} {e : ε} {x : Except ε α} : 
    (if !names.contains name then .error e else x).isOk ↔ name ∈ names ∧ x.isOk := by
  by_cases h : name ∈ names <;> simp [h]

theorem succeeds_iff : 
    Succeeds host coll ↔ 
      host.spec.isOk ∧ host.newCollection = .ok coll ∧ (initAndStart host coll).fst.isOk := by
  rw [isOk_initAndStart, writeConfig, isOk_unless, attachTracepoints, isOk_attachAll, defaultRingbufOpener, 
    isOk_unless]
  constructor
  case mp => 
    intro h
    exact ⟨h.spec, h.newCollection, ⟨h.config, h.put⟩, fun tp ht => ⟨h.programs tp ht, h.links tp ht⟩, 
      h.events, h.newReader⟩
  case mpr =>
    intro ⟨hs, hn, ⟨hc, hp⟩, hl, he, hr⟩
    exact ⟨hs, hn, hc, hp, fun tp ht => (hl tp ht).left, fun tp ht => (hl tp ht).right, he, hr⟩

-- The agent starts if and only if none of its steps fails.
theorem isOk_tryLoad : (tryLoad host).fst.isOk ↔ ∃ coll, Succeeds host coll := by
  simp only [succeeds_iff, tryLoad]
  cases host.spec
  case error => simp
  case ok    => cases host.newCollection <;> simp

end Success

-- Wherever the start fails, and it does unless all steps succeed, nothing is left open or closed twice.
theorem safe_and_isOk_iff (host : Host) : 
    Safe (tryLoad host) ∧ ((tryLoad host).fst.isOk ↔ ∃ coll, Succeeds host coll) :=
  ⟨tryLoad_safe host, isOk_tryLoad⟩

end EbpfAgent.Startup
