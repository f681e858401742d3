import DrishtiScope.Bpf.Effects

open Go Linux

-- The record that a tracepoint program tries to add to the ring buffer, whether or not there is room.
namespace Bpf.Kernel

variable {k : Kernel} {cur : Current} {arch : Arch} {tp : Tracepoint}

def withEvents (k : Kernel) (es : List Event) : Kernel :=
  { k with events := es }

-- What the program emits when it runs with an empty ring buffer.
def attempt (k : Kernel) (arch : Arch) (cur : Current) (tp : Tracepoint) : Option Event :=
  ((k.withEvents []).emitted arch cur tp).head?

-- The record is added, or else it is counted as dropped.
def Attempts (k k' : Kernel) : Option Event → Prop
  | none   => k'.events = k.events ∧ k'.dropCount = k.dropCount
  | some e => 
    if k.ringFull then
      k'.events = k.events ∧ k'.dropCount = k.dropCount + 1
    else
      k'.events = k.events ++ [e] ∧ k'.dropCount = k.dropCount

theorem Attempts.of_ringFull {k' : Kernel} {e : Event} (h : k.Attempts k' (some e)) (hf : k.ringFull) : 
    k'.events = k.events ∧ k'.dropCount = k.dropCount + 1 := by
  rwa [Attempts, if_pos hf] at h

theorem Attempts.of_not_ringFull {k' : Kernel} {e : Event} (h : k.Attempts k' (some e)) 
    (hf : ¬k.ringFull) : k'.events = k.events ++ [e] ∧ k'.dropCount = k.dropCount := by
  rwa [Attempts, if_neg hf] at h

-- A program in which the record is the same whatever the ring buffer contains.
def AttemptsAlways (k : Kernel) (result : List Event → Kernel) : Prop :=
  ∃ o, ∀ es, (k.withEvents es).Attempts (result es) o

namespace AttemptsAlways

variable {r r' : List Event → Kernel}

theorem nothing (he : ∀ es, (r es).events = es) (hd : ∀ es, (r es).dropCount = k.dropCount) : 
    k.AttemptsAlways r :=
  ⟨none, fun es => ⟨he es, hd es⟩⟩

-- The rest of the program touches neither the ring buffer nor the counter.
theorem of_eq (h : ∀ es, (r es).events = (r' es).events ∧ (r es).dropCount = (r' es).dropCount) 
    (ha : k.AttemptsAlways r') : k.AttemptsAlways r := by
  have ⟨o, ho⟩ := ha
  refine ⟨o, fun es => ?_⟩
  have hs := ho es
  cases o
  case none   => exact ⟨(h es).left.trans hs.left, (h es).right.trans hs.right⟩
  case some e => 
    simp only [Attempts, h es] at hs ⊢
    exact hs

end AttemptsAlways

section Programs

variable {ctx : SysEnterCtx} {mem : UserMemory} {type pid tgid nr : UInt32} {fill : Event → Event} 
  {ret : Int64} {r : List Event → Kernel}

-- The record is made for the task, not for the state of the maps.
theorem exists_allocEvent_eq (cur : Current) (type pid tgid : UInt32) (fill : Event → Event) : 
    ∃ e, ∀ k : Kernel, k.allocEvent cur type pid tgid fill = 
      if k.ringFull then k.recordDrop else k.withEvents (k.events ++ [e]) :=
  ⟨_, fun _ => rfl⟩

theorem allocEvent_attempts (he : ∀ es, (r es).events = es) 
    (hd : ∀ es, (r es).dropCount = k.dropCount) : 
    k.AttemptsAlways fun es => (r es).allocEvent cur type pid tgid fill := by
  have ⟨e, h⟩ := exists_allocEvent_eq cur type pid tgid fill
  refine ⟨some e, fun es => ?_⟩
  have hf : (r es).ringFull = (k.withEvents es).ringFull := by
    simp only [ringFull, he]
    rfl
  simp only [Attempts, h, hf]
  split
  · exact ⟨he es, congrArg (· + 1) (hd es)⟩
  · exact ⟨congrArg (· ++ [e]) (he es), hd es⟩

theorem tpExit_attempts : k.AttemptsAlways fun es => (k.withEvents es).tpExit cur := by
  by_cases ht : k.isTarget cur
  case neg => 
    have h : ∀ es, (k.withEvents es).tpExit cur = k.withEvents es := fun es => 
      tpExit_eq_self (k := k.withEvents es) ht
    exact .nothing (fun es => by rw [h]; rfl) fun es => by rw [h]; rfl
  case pos =>
    have hk : k.AttemptsAlways fun es => (k.withEvents es).allocEvent cur evtExit cur.tid cur.tgid id := 
      allocEvent_attempts (fun _ => rfl) fun _ => rfl
    refine .of_eq (fun es => ?_) hk
    have ht' : (k.withEvents es).isTarget cur := ht
    by_cases hf : (k.withEvents es).ringFull
    case pos =>
      rw [tpExit_of_ringFull ht' hf, allocEvent, if_pos hf]
      exact ⟨rfl, rfl⟩
    case neg => 
      simp only [tpExit, ht', hf]
      exact ⟨rfl, rfl⟩

theorem enterOpenat_attempts (he : ∀ es, (r es).events = es) 
    (hd : ∀ es, (r es).dropCount = k.dropCount) : 
    k.AttemptsAlways fun es => (r es).enterOpenat cur ctx mem := by
  simp only [enterOpenat]
  exact allocEvent_attempts he hd

theorem enterConnect_attempts (he : ∀ es, (r es).events = es) 
    (hd : ∀ es, (r es).dropCount = k.dropCount) : 
    k.AttemptsAlways fun es => (r es).enterConnect cur ctx mem := by
  refine .nothing (fun es => enterConnect_events.trans <| he es) fun es => ?_
  simp only [enterConnect]
  split
  · exact hd es
  · split
    · exact hd es
    · exact hd es

theorem exitOpenat_attempts {l : BoundedMap UInt32 OpenState 32768} 
    (he : ∀ es, (r es).events = es) (hd : ∀ es, (r es).dropCount = k.dropCount) 
    (hl : ∀ es, (r es).openInflight = l) : 
    k.AttemptsAlways fun es => (r es).exitOpenat cur ret := by
  simp only [exitOpenat, hl]
  split
  case h_2 => exact .nothing he hd
  case h_1 =>
    split
    case isFalse => exact .nothing he hd
    case isTrue  => exact .of_eq (fun _ => ⟨rfl, rfl⟩) <| allocEvent_attempts he hd

theorem exitConnect_attempts {l : BoundedMap UInt32 ConnectState 32768} 
    (he : ∀ es, (r es).events = es) (hd : ∀ es, (r es).dropCount = k.dropCount) 
    (hl : ∀ es, (r es).connectInflight = l) : 
    k.AttemptsAlways fun es => (r es).exitConnect cur ret := by
  simp only [exitConnect, hl]
  split
  case h_2 => exact .nothing he hd
  case h_1 =>
    split
    case isFalse => exact .nothing he hd
    case isTrue  => exact .of_eq (fun _ => ⟨rfl, rfl⟩) <| allocEvent_attempts he hd

theorem tpSysEnter_attempts : 
    k.AttemptsAlways fun es => (k.withEvents es).tpSysEnter arch cur ctx mem := by
  by_cases ht : k.isTarget cur
  case neg => 
    have h : ∀ es, (k.withEvents es).tpSysEnter arch cur ctx mem = k.withEvents es := fun es => 
      tpSysEnter_eq_self (k := k.withEvents es) ht
    exact .nothing (fun es => by rw [h]; rfl) fun es => by rw [h]; rfl
  case pos =>
    have he : ∀ nr es, ((k.withEvents es).countEnter cur nr).events = es := fun _ _ => countEnter_events
    have hd : ∀ nr es, ((k.withEvents es).countEnter cur nr).dropCount = k.dropCount := 
      fun _ _ => countEnter_dropCount
    have h : ∀ es, (k.withEvents es).tpSysEnter arch cur ctx mem = _ := fun es => tpSysEnter_eq ht rfl
    simp only [h]
    split
    · exact enterOpenat_attempts (he _) (hd _)
    · split
      · exact enterConnect_attempts (he _) (hd _)
      · split
        · exact allocEvent_attempts (he _) (hd _)
        · exact .nothing (he _) (hd _)

theorem tpSysExit_attempts {ctx : SysExitCtx} : 
    k.AttemptsAlways fun es => (k.withEvents es).tpSysExit arch cur ctx := by
  by_cases ht : k.isTarget cur
  case neg => 
    have h : ∀ es, (k.withEvents es).tpSysExit arch cur ctx = k.withEvents es := fun es => 
      tpSysExit_eq_self (k := k.withEvents es) ht
    exact .nothing (fun es => by rw [h]; rfl) fun es => by rw [h]; rfl
  case pos =>
    have he : ∀ nr es, ((k.withEvents es).exitStats arch cur.tgid nr ctx.ret).events = es := 
      fun _ _ => exitStats_events
    have hd : ∀ nr es, ((k.withEvents es).exitStats arch cur.tgid nr ctx.ret).dropCount = k.dropCount := 
      fun _ _ => exitStats_dropCount
    have h : ∀ es, (k.withEvents es).tpSysExit arch cur ctx = _ := fun es => tpSysExit_eq ht rfl
    simp only [h]
    split
    · exact exitOpenat_attempts (he _) (hd _) fun _ => exitStats_openInflight
    · split
      · exact exitConnect_attempts (he _) (hd _) fun _ => exitStats_connectInflight
      · exact .nothing (he _) (hd _)

theorem run_attemptsAlways : k.AttemptsAlways fun es => (k.withEvents es).run arch cur tp := by
  cases tp
  case exec     => exact allocEvent_attempts (fun _ => rfl) fun _ => rfl
  case exit     => exact tpExit_attempts
  case sysEnter => exact tpSysEnter_attempts
  case sysExit  => exact tpSysExit_attempts

end Programs

-- A full ring buffer drops the record that the program would have emitted otherwise.
theorem run_attempts : k.Attempts (k.run arch cur tp) (k.attempt arch cur tp) := by
  have ⟨o, h⟩ : k.AttemptsAlways fun es => (k.withEvents es).run arch cur tp := run_attemptsAlways
  have ho : k.attempt arch cur tp = o := by
    have he := h []
    have hf : ¬(k.withEvents []).ringFull := not_ringFull rfl
    cases o
    case none   => simp only [attempt, emitted, he.left, List.drop_length, List.head?_nil]
    case some e => simp only [attempt, emitted, (he.of_not_ringFull hf).left, List.drop_left, List.head?_cons]
  exact ho ▸ h k.events

end Bpf.Kernel
