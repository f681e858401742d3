import DrishtiScope.Bpf.Program

open Go Linux

-- What the tracepoint programs can do to the maps and to the ring buffer.
namespace Bpf

theorem commPrefixMatch.go_iff {want comm : List UInt8} (h : want.length = comm.length) :
    commPrefixMatch.go want comm ↔ want.takeWhile (· ≠ 0) <+: comm := by
  induction want generalizing comm
  case nil => simp [commPrefixMatch.go]
  case cons c want hi =>
    cases comm
    case nil => contradiction
    case cons b comm =>
      have hl : want.length = comm.length := by simpa using h
      by_cases hc : c = 0
      case pos => simp [commPrefixMatch.go, hc]
      case neg =>
        by_cases hb : b = c
        case pos => simpa [commPrefixMatch.go, hc, hb] using hi hl
        case neg => simp [commPrefixMatch.go, hc, hb, Ne.symm hb]

theorem takeWhile_prefix_zeros {l : Bytes} {m : Nat} (h : l.takeWhile (· ≠ 0) = l) {s : Bytes} : 
    l <+: s ++ List.replicate m 0 ↔ l <+: s := by
  constructor
  case mpr => exact fun hp => hp.trans (List.prefix_append ..)
  case mp =>
    intro hp
    by_cases hl : l.length ≤ s.length
    case pos => exact List.prefix_of_prefix_length_le hp (List.prefix_append ..) hl
    case neg =>
      -- Otherwise a zero of the padding would be a byte of `l`.
      exfalso
      have hs : s <+: l := List.prefix_of_prefix_length_le (List.prefix_append ..) hp (by omega)
      have ⟨t, ht⟩ := hs
      subst ht
      have ht' : t <+: List.replicate m 0 := (List.prefix_append_right_inj s).mp hp
      cases t
      case nil => simp at hl
      case cons b t =>
        have hb : b = 0 := List.eq_of_mem_replicate (ht'.subset List.mem_cons_self)
        have hm : decide (b ≠ 0) = true := List.takeWhile_eq_self_iff.mp h b (by simp)
        simp [hb] at hm

theorem commPrefixMatch_iff {want : CharArray 16} {cur : Current} : 
    commPrefixMatch want cur ↔ want.cstr ≠ [] ∧ want.cstr <+: cur.comm.bytes := by
  have hl := cur.comm.length
  have he := CharArray.toList_store_zeros (n := 16) (by omega) cur.comm.noZero
  have ht : want.cstr.takeWhile (· ≠ 0) = want.cstr := List.takeWhile_idem
  have hn : want.cstr = [] ↔ want.toList.head? = some 0 := by
    have hw := want.toList_length
    cases hl : want.toList
    case nil => simp [hl] at hw
    case cons c l =>
      by_cases hc : c = 0 <;> simp [CharArray.cstr, hl, hc]
  simp only [commPrefixMatch]
  split
  case isTrue h  => simp [hn.mpr h]
  case isFalse h =>
    rw [commPrefixMatch.go_iff (by simp [List.Vector.toList_length]), he]
    change want.cstr <+: _ ↔ _
    rw [takeWhile_prefix_zeros ht]
    exact (and_iff_right (mt hn.mp h)).symm

namespace Kernel

variable {k k' : Kernel} {cur : Current} {type pid tgid t : UInt32} {fill : Event → Event}
  {add : ProcStats → ProcStats} {arch : Arch} {tp : Tracepoint}

theorem isTarget_iff : 
    k.isTarget cur ↔ 
      k.config.observeAll ≠ 0 ∨ (k.config.targetTgid ≠ 0 ∧ k.config.targetTgid = cur.tgid) ∨ 
      commPrefixMatch k.config.targetComm cur ∨ cur.tgid ∈ k.targets := by
  simp only [isTarget]
  split_ifs with ho ht hc
  · exact iff_of_true rfl <| .inl ho
  · exact iff_of_true rfl <| .inr <| .inl ht
  · exact iff_of_true rfl <| .inr <| .inr <| .inl hc
  · simp only [ho, ht, hc, false_or, decide_eq_true_eq]
    simp

-- The system calls that have been counted for a process, if it has an entry.
def syscallCount? (k : Kernel) (tgid : UInt32) : Option UInt64 :=
  (k.processStats.lookup tgid).map (·.syscallCount)

-- The records of `k'` are those of `k` and new ones, of which `P` holds.
def Appends (k k' : Kernel) (P : Event → Prop) : Prop :=
  ∃ es, k'.events = k.events ++ es ∧ ∀ e ∈ es, P e

namespace Appends

variable {P Q : Event → Prop} {k'' : Kernel}

theorem of_events_eq (h : k'.events = k.events) : Appends k k' P :=
  ⟨[], by simp [h]⟩

theorem mono (h : Appends k k' P) (hpq : ∀ e, P e → Q e) : Appends k k' Q :=
  have ⟨es, he, hp⟩ := h
  ⟨es, he, fun e hm => hpq e (hp e hm)⟩

theorem of_left (h : k'.events = k.events) (ha : Appends k' k'' P) : Appends k k'' P := by
  rwa [Appends, ← h]

theorem withOpenInflight (h : Appends k k' P) : Appends k { k' with openInflight := m } P :=
  h

theorem withConnectInflight (h : Appends k k' P) : Appends k { k' with connectInflight := m } P :=
  h

theorem mem (h : Appends k k' P) {e : Event} (he : e ∈ k'.events) : e ∈ k.events ∨ P e := by
  have ⟨es, hs, hp⟩ := h
  rw [hs] at he
  exact (List.mem_append.mp he).imp_right (hp e)

end Appends

section Helpers

@[simp]
theorem allocEvent_config : (k.allocEvent cur type pid tgid fill).config = k.config := by
  simp only [allocEvent]
  split <;> rfl

@[simp]
theorem allocEvent_targets : (k.allocEvent cur type pid tgid fill).targets = k.targets := by
  simp only [allocEvent]
  split <;> rfl

@[simp]
theorem allocEvent_processStats : 
    (k.allocEvent cur type pid tgid fill).processStats = k.processStats := by
  simp only [allocEvent]
  split <;> rfl

@[simp]
theorem bumpSyscall_config : (k.bumpSyscall t).config = k.config := by
  simp only [bumpSyscall]
  split <;> rfl

@[simp]
theorem bumpSyscall_targets : (k.bumpSyscall t).targets = k.targets := by
  simp only [bumpSyscall]
  split <;> rfl

@[simp]
theorem bumpSyscall_processStats : (k.bumpSyscall t).processStats = k.processStats := by
  simp only [bumpSyscall]
  split <;> rfl

@[simp]
theorem bumpSyscall_events : (k.bumpSyscall t).events = k.events := by
  simp only [bumpSyscall]
  split <;> rfl

@[simp]
theorem bumpSyscall_openInflight : (k.bumpSyscall t).openInflight = k.openInflight := by
  simp only [bumpSyscall]
  split <;> rfl

@[simp]
theorem bumpSyscall_connectInflight : (k.bumpSyscall t).connectInflight = k.connectInflight := by
  simp only [bumpSyscall]
  split <;> rfl

@[simp]
theorem bumpSyscall_dropCount : (k.bumpSyscall t).dropCount = k.dropCount := by
  simp only [bumpSyscall]
  split <;> rfl

@[simp]
theorem addStats_config : (k.addStats t add).config = k.config :=
  rfl

@[simp]
theorem addStats_targets : (k.addStats t add).targets = k.targets :=
  rfl

@[simp]
theorem addStats_events : (k.addStats t add).events = k.events :=
  rfl

@[simp]
theorem getStats_config : (k.getStats t).config = k.config :=
  rfl

@[simp]
theorem getStats_targets : (k.getStats t).targets = k.targets :=
  rfl

@[simp]
theorem getStats_events : (k.getStats t).events = k.events :=
  rfl

-- A record that is allocated for the current task carries its ids and its name.
def Describes (cur : Current) (e : Event) : Prop :=
  e.tgid = cur.tgid ∧ e.pid = cur.tid ∧ e.comm.cstr = cur.comm.bytes

theorem allocEvent_appends 
    (hf : ∀ e, (fill e).type = e.type ∧ (fill e).tgid = e.tgid ∧ (fill e).pid = e.pid ∧ 
      (fill e).comm = e.comm) : 
    k.Appends (k.allocEvent cur type cur.tid cur.tgid fill) fun e => 
      Describes cur e ∧ e.type = type := by
  simp only [allocEvent]
  split
  case isTrue  => exact .of_events_eq rfl
  case isFalse =>
    refine ⟨_, rfl, fun e he => ?_⟩
    have hl := cur.comm.length
    cases List.mem_singleton.mp he
    refine ⟨⟨(hf _).right.left, (hf _).right.right.left, ?_⟩, (hf _).left⟩
    rw [(hf _).right.right.right]
    exact CharArray.cstr_store (by omega) cur.comm.noZero

theorem addStats_processStats_ne {t' : UInt32} (h : t' ≠ t) : 
    (k.addStats t add).processStats.lookup t' = k.processStats.lookup t' :=
  BoundedMap.lookup_modify_ne h

-- Adding to the other counters keeps the count of system calls.
theorem addStats_syscallCount? (h : ∀ ps, (add ps).syscallCount = ps.syscallCount) {t' : UInt32} : 
    (k.addStats t add).syscallCount? t' = k.syscallCount? t' := by
  by_cases ht : t' = t
  case pos =>
    subst ht
    simp only [syscallCount?, addStats, BoundedMap.lookup_modify, Option.map_map]
    congr 1
    funext ps
    exact h ps
  case neg => simp only [syscallCount?, addStats_processStats_ne ht]

theorem countBytes_syscallCount {nr : UInt32} {ret : Int64} {ps : ProcStats} : 
    (countBytes arch nr ret ps).syscallCount = ps.syscallCount := by
  simp only [countBytes]
  split <;> split <;> split <;> split <;> rfl

@[simp]
theorem allocEvent_syscallCount? {t' : UInt32} : 
    (k.allocEvent cur type pid tgid fill).syscallCount? t' = k.syscallCount? t' := by
  simp [syscallCount?]

end Helpers

-- The tracepoints of system calls: what is counted first, and then what depends on the call.
section Calls

variable {ctx : SysEnterCtx} {mem : UserMemory} {nr : UInt32} {ret : Int64}

def countEnter (k : Kernel) (cur : Current) (nr : UInt32) : Kernel :=
  ((k.getStats cur.tgid).addStats cur.tgid fun ps => 
    { ps with syscallCount := ps.syscallCount + 1 }).bumpSyscall nr

@[simp]
theorem countEnter_events : (k.countEnter cur nr).events = k.events :=
  bumpSyscall_events

@[simp]
theorem countEnter_dropCount : (k.countEnter cur nr).dropCount = k.dropCount :=
  bumpSyscall_dropCount

@[simp]
theorem countEnter_openInflight : (k.countEnter cur nr).openInflight = k.openInflight :=
  bumpSyscall_openInflight

@[simp]
theorem countEnter_connectInflight : (k.countEnter cur nr).connectInflight = k.connectInflight :=
  bumpSyscall_connectInflight

theorem tpSysEnter_eq_self (h : ¬k.isTarget cur) : k.tpSysEnter arch cur ctx mem = k := by
  simp [tpSysEnter, h]

theorem tpSysEnter_eq (h : k.isTarget cur) (hn : ctx.id.toUInt64.toUInt32 = nr) : 
    k.tpSysEnter arch cur ctx mem = 
      if nr = arch.sysOpenat then
        (k.countEnter cur nr).enterOpenat cur ctx mem
      else if nr = arch.sysConnect then
        (k.countEnter cur nr).enterConnect cur ctx mem
      else if nr = arch.sysAccept ∨ nr = arch.sysAccept4 then
        (k.countEnter cur nr).allocEvent cur evtAccept cur.tid cur.tgid 
          fun e => { e with extra := ctx.args.get 0 }
      else
        k.countEnter cur nr := by
  simp only [tpSysEnter, h, hn, Bool.not_true, Bool.false_eq_true, if_false]
  rfl

theorem exitStats_eq : 
    k.exitStats arch t nr ret = { k with processStats := (k.exitStats arch t nr ret).processStats } := by
  simp only [exitStats]
  split
  · rfl
  · split <;> rfl

@[simp]
theorem exitStats_events : (k.exitStats arch t nr ret).events = k.events := by
  rw [exitStats_eq]

@[simp]
theorem exitStats_dropCount : (k.exitStats arch t nr ret).dropCount = k.dropCount := by
  rw [exitStats_eq]

@[simp]
theorem exitStats_openInflight : (k.exitStats arch t nr ret).openInflight = k.openInflight := by
  rw [exitStats_eq]

@[simp]
theorem exitStats_connectInflight : (k.exitStats arch t nr ret).connectInflight = k.connectInflight := by
  rw [exitStats_eq]

variable {ctx : SysExitCtx}

theorem tpSysExit_eq_self (h : ¬k.isTarget cur) : k.tpSysExit arch cur ctx = k := by
  simp [tpSysExit, h]

theorem tpSysExit_eq (h : k.isTarget cur) (hn : ctx.id.toUInt64.toUInt32 = nr) : 
    k.tpSysExit arch cur ctx = 
      if nr = arch.sysOpenat then
        (k.exitStats arch cur.tgid nr ctx.ret).exitOpenat cur ctx.ret
      else if nr = arch.sysConnect then
        (k.exitStats arch cur.tgid nr ctx.ret).exitConnect cur ctx.ret
      else
        k.exitStats arch cur.tgid nr ctx.ret := by
  simp only [tpSysExit, h, hn, Bool.not_true, Bool.false_eq_true, if_false]

end Calls

-- What a part of a tracepoint program leaves as it is when it is run by a task of process `t`.
structure Frame (k k' : Kernel) (t : UInt32) : Prop where
  config  : k'.config = k.config
  targets : ∀ t' ≠ t, t' ∈ k'.targets ↔ t' ∈ k.targets
  stats   : ∀ t' ≠ t, k'.processStats.lookup t' = k.processStats.lookup t'

-- The part also keeps the targets and the counts of system calls of process `t` itself.
structure Quiet (k k' : Kernel) (t : UInt32) : Prop extends Frame k k' t where
  keeps  : k'.targets = k.targets
  counts : k'.syscallCount? t = k.syscallCount? t

namespace Frame

variable {k'' : Kernel}

theorem refl : Frame k k t where
  config      := rfl
  targets _ _ := .rfl
  stats _ _   := rfl

theorem trans (h₁ : Frame k k' t) (h₂ : Frame k' k'' t) : Frame k k'' t where
  config        := h₂.config.trans h₁.config
  targets t' ht := (h₂.targets t' ht).trans (h₁.targets t' ht)
  stats t' ht   := (h₂.stats t' ht).trans (h₁.stats t' ht)

theorem syscallCount? (h : Frame k k' t) {t' : UInt32} (ht : t' ≠ t) : 
    k'.syscallCount? t' = k.syscallCount? t' := by
  simp only [Kernel.syscallCount?, h.stats t' ht]

end Frame

namespace Quiet

variable {k'' : Kernel}

theorem of_eq (hc : k'.config = k.config) (ht : k'.targets = k.targets) 
    (hp : k'.processStats = k.processStats) : Quiet k k' t where
  config      := hc
  targets _ _ := by rw [ht]
  stats _ _   := by rw [hp]
  keeps       := ht
  counts      := by simp only [syscallCount?, hp]

theorem refl : Quiet k k t :=
  .of_eq rfl rfl rfl

theorem trans (h₁ : Quiet k k' t) (h₂ : Quiet k' k'' t) : Quiet k k'' t where
  toFrame := h₁.toFrame.trans h₂.toFrame
  keeps   := h₂.keeps.trans h₁.keeps
  counts  := h₂.counts.trans h₁.counts

theorem allocEvent : Quiet k (k.allocEvent cur type pid tgid fill) t :=
  .of_eq allocEvent_config allocEvent_targets allocEvent_processStats

theorem recordDrop : Quiet k k.recordDrop t :=
  .of_eq rfl rfl rfl

theorem bumpSyscall {nr : UInt32} : Quiet k (k.bumpSyscall nr) t :=
  .of_eq bumpSyscall_config bumpSyscall_targets bumpSyscall_processStats

theorem addStats (h : ∀ ps, (add ps).syscallCount = ps.syscallCount) : 
    Quiet k (k.addStats t add) t where
  config      := rfl
  targets _ _ := .rfl
  stats _ ht  := addStats_processStats_ne ht
  keeps       := rfl
  counts      := addStats_syscallCount? h

theorem withOpenInflight (h : Quiet k k' t) : Quiet k { k' with openInflight := m } t :=
  h.trans <| .of_eq rfl rfl rfl

theorem withConnectInflight (h : Quiet k k' t) : Quiet k { k' with connectInflight := m } t :=
  h.trans <| .of_eq rfl rfl rfl

theorem enterOpenat {ctx : SysEnterCtx} {mem : UserMemory} : 
    Quiet k (k.enterOpenat cur ctx mem) cur.tgid := by
  simp only [Kernel.enterOpenat]
  refine .trans (.trans ?state <| .addStats ?count) .allocEvent
  case state => exact withOpenInflight .refl
  case count => exact fun _ => rfl

theorem enterConnect {ctx : SysEnterCtx} {mem : UserMemory} : 
    Quiet k (k.enterConnect cur ctx mem) cur.tgid := by
  simp only [Kernel.enterConnect]
  split
  · exact .refl
  · split
    · exact .refl
    · refine .trans ?state <| .addStats ?count
      case state => exact withConnectInflight .refl
      case count => exact fun _ => rfl

theorem exitOpenat {ret : Int64} : Quiet k (k.exitOpenat cur ret) t := by
  apply withOpenInflight
  split
  · split
    · exact .allocEvent
    · exact .refl
  · exact .refl

theorem exitConnect {ret : Int64} : Quiet k (k.exitConnect cur ret) t := by
  apply withConnectInflight
  split
  · split
    · exact .allocEvent
    · exact .refl
  · exact .refl

theorem exitStats {nr : UInt32} {ret : Int64} : Quiet k (k.exitStats arch t nr ret) t := by
  simp only [Kernel.exitStats]
  split
  · exact .addStats fun _ => rfl
  · split
    · exact .addStats fun _ => countBytes_syscallCount
    · exact .refl

theorem tpExec {f : Option Bytes} : Quiet k (k.tpExec cur f) t :=
  .allocEvent

theorem tpSysExit {ctx : SysExitCtx} : Quiet k (k.tpSysExit arch cur ctx) cur.tgid := by
  by_cases h : k.isTarget cur
  case neg => rw [tpSysExit_eq_self h]; exact .refl
  case pos =>
    rw [tpSysExit_eq h rfl]
    split
    · exact exitStats.trans .exitOpenat
    · split
      · exact exitStats.trans .exitConnect
      · exact exitStats

end Quiet

section Enter

-- The entry of a targeted process counts the call, unless there is no entry and no room for one.
theorem addStats_getStats_syscallCount? : 
    ((k.getStats t).addStats t fun ps => { ps with syscallCount := ps.syscallCount + 1 }).syscallCount? t = 
      if k.processStats.Room t then some ((k.syscallCount? t).getD 0 + 1) else none := by
  simp only [syscallCount?, addStats, getStats, BoundedMap.lookup_modify, Option.map_map]
  split
  case isTrue hr =>
    rw [BoundedMap.lookup_insertNew hr]
    cases k.processStats.lookup t <;> rfl
  case isFalse hr =>
    have hn : t ∉ k.processStats := fun hm => hr (.of_mem hm)
    rw [BoundedMap.insertNew_eq_self hr, BoundedMap.not_mem_iff.mp hn, Option.map_none]

theorem frame_getStats : Frame k (k.getStats t) t where
  config      := rfl
  targets _ _ := .rfl
  stats _ ht  := BoundedMap.lookup_insertNew_ne ht

theorem frame_addStats : Frame k (k.addStats t add) t where
  config      := rfl
  targets _ _ := .rfl
  stats _ ht  := addStats_processStats_ne ht

variable {ctx : SysEnterCtx} {mem : UserMemory}

-- After the call has been counted, the rest of the program is quiet.
theorem tpSysEnter_quiet (h : k.isTarget cur) : 
    Quiet ((k.getStats cur.tgid).addStats cur.tgid fun ps => 
      { ps with syscallCount := ps.syscallCount + 1 }) (k.tpSysEnter arch cur ctx mem) cur.tgid := by
  rw [tpSysEnter_eq h rfl]
  split
  · exact Quiet.bumpSyscall.trans .enterOpenat
  · split
    · exact Quiet.bumpSyscall.trans .enterConnect
    · split
      · exact Quiet.bumpSyscall.trans .allocEvent
      · exact .bumpSyscall

theorem tpSysEnter_frame : Frame k (k.tpSysEnter arch cur ctx mem) cur.tgid := by
  by_cases h : k.isTarget cur
  case pos => exact frame_getStats.trans frame_addStats |>.trans (tpSysEnter_quiet h).toFrame
  case neg => rw [tpSysEnter_eq_self h]; exact .refl

theorem tpSysEnter_targets : (k.tpSysEnter arch cur ctx mem).targets = k.targets := by
  by_cases h : k.isTarget cur
  case pos => exact (tpSysEnter_quiet h).keeps
  case neg => rw [tpSysEnter_eq_self h]

theorem tpSysEnter_syscallCount? (h : k.isTarget cur) : 
    (k.tpSysEnter arch cur ctx mem).syscallCount? cur.tgid = 
      if k.processStats.Room cur.tgid then some ((k.syscallCount? cur.tgid).getD 0 + 1) else none := by
  rw [(tpSysEnter_quiet h).counts, addStats_getStats_syscallCount?]

end Enter

section Exit

theorem tpExit_eq_self (h : ¬k.isTarget cur) : k.tpExit cur = k := by
  simp [tpExit, h]

theorem tpExit_of_ringFull (ht : k.isTarget cur) (h : k.ringFull) : k.tpExit cur = k.recordDrop := by
  simp [tpExit, h, ht]

-- What the exit of any thread of a targeted process does.
theorem tpExit_of_not_ringFull (ht : k.isTarget cur) (h : ¬k.ringFull) : 
    (k.tpExit cur).processStats = k.processStats.erase cur.tgid ∧
    (k.tpExit cur).targets = k.targets.erase cur.tgid ∧ 
    ∃ e, (k.tpExit cur).events = k.events ++ [e] ∧ Describes cur e ∧ e.type = evtExit := by
  have ha : (k.allocEvent cur evtExit cur.tid cur.tgid id).events ≠ k.events := by
    simp [allocEvent, h]
  have ⟨es, he, hd⟩ : k.Appends (k.allocEvent cur evtExit cur.tid cur.tgid id) fun e => 
      Describes cur e ∧ e.type = evtExit := 
    allocEvent_appends fun _ => ⟨rfl, rfl, rfl, rfl⟩
  simp only [tpExit, ht, h, Bool.not_true, Bool.false_eq_true, if_false, allocEvent_processStats,
    allocEvent_targets, true_and]
  simp only [allocEvent, h, Bool.false_eq_true, if_false, List.append_cancel_left_eq] at he ⊢
  exact ⟨_, rfl, hd _ (he ▸ List.mem_singleton_self _)⟩

theorem tpExit_frame : Frame k (k.tpExit cur) cur.tgid := by
  by_cases ht : k.isTarget cur
  case neg => rw [tpExit_eq_self ht]; exact .refl
  case pos =>
    by_cases h : k.ringFull
    case pos => rw [tpExit_of_ringFull ht h]; exact Quiet.recordDrop.toFrame
    case neg =>
      have ⟨hp, hg, _⟩ := tpExit_of_not_ringFull ht h
      refine ⟨by simp [tpExit, ht, h], fun t' hn => ?_, fun t' hn => ?_⟩
      · rw [hg, BoundedMap.mem_erase, and_iff_right hn]
      · rw [hp, BoundedMap.lookup_erase_ne hn]

end Exit

theorem run_frame : Frame k (k.run arch cur tp) cur.tgid := by
  cases tp
  case exec     => exact Quiet.tpExec.toFrame
  case exit     => exact tpExit_frame
  case sysEnter => exact tpSysEnter_frame
  case sysExit  => exact Quiet.tpSysExit.toFrame

section Events

-- The records that are emitted on behalf of a task.
structure Emits (k : Kernel) (cur : Current) (tp : Tracepoint) (e : Event) : Prop where
  describes : Describes cur e
  known     : e.type ∈ [evtExec, evtExit, evtOpen, evtConnect, evtAccept]
  isTarget  : e.type ≠ evtExec → k.isTarget cur
  exit      : e.type = evtExit → tp = .exit
  exec      : e.type = evtExec → ∃ f, tp = .exec f

theorem Emits.of_type {e : Event} {ty : UInt32} (ht : k.isTarget cur) 
    (h : Describes cur e ∧ e.type = ty) (hk : ty ∈ [evtOpen, evtConnect, evtAccept]) 
    (hx : ty ≠ evtExit) (he : ty ≠ evtExec) : Emits k cur tp e where
  describes  := h.left
  known      := h.right ▸ by simp_all
  isTarget _ := ht
  exit hx'   := absurd (h.right.symm.trans hx') hx
  exec he'   := absurd (h.right.symm.trans he') he

variable {ctx : SysEnterCtx} {mem : UserMemory}

theorem tpExec_appends {f : Option Bytes} : 
    k.Appends (k.tpExec cur f) <| Emits k cur (.exec f) := by
  refine .mono (allocEvent_appends ?fill) fun e h => ?emits
  case fill  => cases f <;> exact fun _ => ⟨rfl, rfl, rfl, rfl⟩
  case emits =>
    refine ⟨h.left, by simp [h.right], fun hn => absurd h.right hn, fun hx => ?exit, 
      fun _ => ⟨f, rfl⟩⟩
    exact absurd (h.right.symm.trans hx) (by decide)

theorem tpExit_appends : k.Appends (k.tpExit cur) <| Emits k cur .exit := by
  by_cases ht : k.isTarget cur
  case neg => exact .of_events_eq (by rw [tpExit_eq_self ht])
  case pos =>
    by_cases h : k.ringFull
    case pos => exact .of_events_eq (by rw [tpExit_of_ringFull ht h, recordDrop])
    case neg =>
      have ⟨_, _, e, he, hd, hx⟩ := tpExit_of_not_ringFull ht h
      refine ⟨[e], he, fun e' he' => ?_⟩
      cases List.mem_singleton.mp he'
      refine ⟨hd, by simp [hx], fun _ => ht, fun _ => rfl, fun hx' => ?_⟩
      exact absurd (hx.symm.trans hx') (by decide)

theorem enterOpenat_appends : 
    k.Appends (k.enterOpenat cur ctx mem) fun e => Describes cur e ∧ e.type = evtOpen := by
  simp only [enterOpenat]
  exact .of_left rfl <| allocEvent_appends fun _ => ⟨rfl, rfl, rfl, rfl⟩

theorem enterConnect_events : (k.enterConnect cur ctx mem).events = k.events := by
  simp only [enterConnect]
  split
  · rfl
  · split <;> rfl

theorem exitOpenat_appends {ret : Int64} : 
    k.Appends (k.exitOpenat cur ret) fun e => Describes cur e ∧ e.type = evtOpen := by
  apply Appends.withOpenInflight
  split
  · split
    · exact allocEvent_appends fun _ => ⟨rfl, rfl, rfl, rfl⟩
    · exact .of_events_eq rfl
  · exact .of_events_eq rfl

theorem exitConnect_appends {ret : Int64} : 
    k.Appends (k.exitConnect cur ret) fun e => Describes cur e ∧ e.type = evtConnect := by
  apply Appends.withConnectInflight
  split
  · split
    · exact allocEvent_appends fun _ => ⟨rfl, rfl, rfl, rfl⟩
    · exact .of_events_eq rfl
  · exact .of_events_eq rfl

theorem tpSysEnter_appends : 
    k.Appends (k.tpSysEnter arch cur ctx mem) <| Emits k cur (.sysEnter ctx mem) := by
  by_cases ht : k.isTarget cur
  case neg => exact .of_events_eq (by rw [tpSysEnter_eq_self ht])
  case pos =>
    rw [tpSysEnter_eq ht rfl]
    apply Appends.of_left countEnter_events
    split
    · exact enterOpenat_appends.mono fun e h => .of_type ht h (by decide) (by decide) (by decide)
    · split
      · exact .of_events_eq enterConnect_events
      · split
        · refine .mono (allocEvent_appends fun _ => ⟨rfl, rfl, rfl, rfl⟩) fun e h => ?_
          exact .of_type ht h (by decide) (by decide) (by decide)
        · exact .of_events_eq rfl

theorem tpSysExit_appends {ctx : SysExitCtx} : 
    k.Appends (k.tpSysExit arch cur ctx) <| Emits k cur (.sysExit ctx) := by
  by_cases ht : k.isTarget cur
  case neg => exact .of_events_eq (by rw [tpSysExit_eq_self ht])
  case pos =>
    rw [tpSysExit_eq ht rfl]
    apply Appends.of_left exitStats_events
    split
    · exact exitOpenat_appends.mono fun e h => .of_type ht h (by decide) (by decide) (by decide)
    · split
      · exact exitConnect_appends.mono fun e h => .of_type ht h (by decide) (by decide) (by decide)
      · exact .of_events_eq rfl

theorem run_appends : k.Appends (k.run arch cur tp) <| Emits k cur tp := by
  cases tp
  case exec     => exact tpExec_appends
  case exit     => exact tpExit_appends
  case sysEnter => exact tpSysEnter_appends
  case sysExit  => exact tpSysExit_appends

-- The records that a tracepoint program has added to the ring buffer.
def emitted (k : Kernel) (arch : Arch) (cur : Current) (tp : Tracepoint) : List Event :=
  (k.run arch cur tp).events.drop k.events.length

theorem emitted_eq {es : List Event} (h : (k.run arch cur tp).events = k.events ++ es) : 
    k.emitted arch cur tp = es := by
  rw [emitted, h, List.drop_left]

theorem emits_of_mem_emitted {e : Event} (h : e ∈ k.emitted arch cur tp) : Emits k cur tp e := by
  have ⟨_, he, hm⟩ : k.Appends (k.run arch cur tp) (Emits k cur tp) := run_appends
  exact hm e <| emitted_eq he ▸ h

theorem not_ringFull (h : k.events = []) : ¬k.ringFull := by
  simp [ringFull, h, ringSize, recordSize]

theorem exists_exit_emitted (ht : k.isTarget cur) (h : ¬k.ringFull) : 
    ∃ e ∈ k.emitted arch cur .exit, e.type = evtExit := by
  have ⟨_, _, e, he, _, hx⟩ := tpExit_of_not_ringFull ht h
  have hm : k.emitted arch cur .exit = [e] := emitted_eq he
  exact ⟨e, by simp [hm], hx⟩

theorem exists_exec_emitted {f : Option Bytes} (h : ¬k.ringFull) : 
    ∃ e ∈ k.emitted arch cur (.exec f), e.type = evtExec := by
  have ⟨es, he, hm⟩ : k.Appends (k.tpExec cur f) (Emits k cur (.exec f)) := tpExec_appends
  have hn : es ≠ [] := by
    rintro rfl
    simp [tpExec, allocEvent, h] at he
  have ⟨e, hmem⟩ := List.exists_mem_of_ne_nil es hn
  have hs : k.emitted arch cur (.exec f) = es := emitted_eq he
  refine ⟨e, hs ▸ hmem, ?_⟩
  have ⟨es', he', hm'⟩ : k.Appends (k.tpExec cur f) fun e => e.type = evtExec := by
    refine .mono (allocEvent_appends ?_) fun _ h => h.right
    cases f <;> exact fun _ => ⟨rfl, rfl, rfl, rfl⟩
  exact hm' e <| List.append_cancel_left (he.symm.trans he') ▸ hmem

end Events
end Kernel
end Bpf
