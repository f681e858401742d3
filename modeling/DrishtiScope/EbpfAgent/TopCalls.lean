import DrishtiScope.EbpfAgent.BuildSnapshot
import DrishtiScope.Lib.Execution

open Go Linux Bpf Execution

-- The system calls that the snapshots of a run list.
namespace EbpfAgent

section Exchange

variable {α β : Type} [LinearOrder β] {rank : α → β} {before : α → α → Bool} {l : List α} {a b : α} {n : Nat}

theorem exchange_cons : 
    exchange before a (b :: l) = if before b a then 
      ((exchange before b l).fst, a :: (exchange before b l).snd) 
    else 
      ((exchange before a l).fst, b :: (exchange before a l).snd) := by
  simp only [exchange]
  split <;> rfl

theorem exchange_perm : ((exchange before a l).fst :: (exchange before a l).snd).Perm (a :: l) := by
  induction l generalizing a
  case nil         => exact .refl _
  case cons b l hi => 
    rw [exchange_cons]
    split
    case isTrue  => exact .trans (.swap ..) <| hi.cons a
    case isFalse => exact .trans (.swap ..) <| .trans (hi.cons b) <| .swap ..

variable (h : ∀ a b, before a b ↔ rank b < rank a)
include h

-- After a pass no entry should come before the one at the front.
theorem le_exchange : ∀ b ∈ a :: l, rank b ≤ rank (exchange before a l).fst := by
  induction l generalizing a
  case nil         => simp [exchange]
  case cons c l hi =>
    rw [exchange_cons]
    split
    case isTrue hc  =>
      have hc := (h c a).mp hc
      intro b hb
      rcases List.mem_cons.mp hb with rfl | hb
      · exact hc.le.trans <| hi c List.mem_cons_self
      · exact hi b hb
    case isFalse hc =>
      have hc := not_lt.mp <| mt (h c a).mpr hc
      have ha := hi a List.mem_cons_self
      intro b hb
      rcases List.mem_cons.mp hb with rfl | hb
      · exact ha
      · rcases List.mem_cons.mp hb with rfl | hb
        · exact hc.trans ha
        · exact hi b <| List.mem_cons_of_mem _ hb

omit h in
theorem exchangeSort.go_perm (hn : l.length ≤ n) : (exchangeSort.go before n l).Perm l := by
  induction n generalizing l
  case zero      => cases l <;> exact .refl _
  case succ n hi =>
    cases l
    case nil      => exact .refl _
    case cons a l =>
      have hp : ((exchange before a l).fst :: (exchange before a l).snd).Perm (a :: l) := exchange_perm
      have hl := hp.length_eq
      simp only [List.length_cons] at hl hn
      exact .trans (.cons _ <| hi <| by omega) hp

theorem exchangeSort.go_pairwise (hn : l.length ≤ n) : 
    (exchangeSort.go before n l).Pairwise fun a b => rank b ≤ rank a := by
  induction n generalizing l
  case zero      => 
    rw [List.length_eq_zero_iff.mp <| Nat.le_zero.mp hn]
    exact .nil
  case succ n hi =>
    cases l
    case nil      => exact .nil
    case cons a l =>
      have hp : ((exchange before a l).fst :: (exchange before a l).snd).Perm (a :: l) := exchange_perm
      have hl := hp.length_eq
      simp only [List.length_cons] at hl hn
      have hn : (exchange before a l).snd.length ≤ n := by omega
      refine .cons (fun b hb => ?_) <| hi hn
      have hb := (exchangeSort.go_perm hn).mem_iff.mp hb
      exact le_exchange h b <| hp.subset <| List.mem_cons_of_mem _ hb

omit h in
theorem exchangeSort_perm : (exchangeSort before l).Perm l :=
  exchangeSort.go_perm (Nat.le_refl _)

theorem exchangeSort_pairwise : (exchangeSort before l).Pairwise fun a b => rank b ≤ rank a :=
  exchangeSort.go_pairwise h (Nat.le_refl _)

end Exchange

-- The greatest entries of a list, `k` of them if there are as many, and the greatest first.
structure Top {α : Type} (rank : α → Nat) (k : Nat) (l top : List α) : Prop where
  length : top.length = min k l.length
  sorted : top.Pairwise fun a b => rank b ≤ rank a
  rest   : ∃ rest, (top ++ rest).Perm l ∧ ∀ a ∈ top, ∀ b ∈ rest, rank b ≤ rank a

namespace Top

variable {α β : Type} {rank : α → Nat} {rank' : β → Nat} {before : α → α → Bool} {l top : List α} {k : Nat} 
         {f : α → β}

theorem of_exchangeSort (h : ∀ a b, before a b ↔ rank b < rank a) : 
    Top rank k l ((exchangeSort before l).take k) where
  length := by rw [List.length_take, exchangeSort_perm.length_eq]
  sorted := (exchangeSort_pairwise h).sublist <| List.take_sublist ..
  rest   := by
    refine ⟨(exchangeSort before l).drop k, ?_, ?_⟩
    · rw [List.take_append_drop]
      exact exchangeSort_perm
    · have hp : (exchangeSort before l).Pairwise fun a b => rank b ≤ rank a := exchangeSort_pairwise h
      rw [← List.take_append_drop k (exchangeSort before l), List.pairwise_append] at hp
      exact hp.right.right

theorem map (h : Top rank k l top) (hf : ∀ a, rank' (f a) = rank a) : Top rank' k (l.map f) (top.map f) where
  length := by rw [List.length_map, List.length_map, h.length]
  sorted := List.pairwise_map.mpr <| h.sorted.imp fun h => by rwa [hf, hf]
  rest   := by
    have ⟨rest, hp, hr⟩ := h.rest
    refine ⟨rest.map f, List.map_append ▸ hp.map f, fun _ hm _ hn => ?_⟩
    obtain ⟨a, ha, rfl⟩ := List.mem_map.mp hm
    obtain ⟨b, hb, rfl⟩ := List.mem_map.mp hn
    rw [hf, hf]
    exact hr a ha b hb

end Top

namespace TopCalls

-- What a tick finds in the map of the calls, and the seconds that have elapsed.
structure Tick where
  it      : List (UInt32 × UInt64)
  elapsed : ℚ

-- A key that is missing has not been counted.
def Tick.counter (t : Tick) (key : UInt32) : UInt64 :=
  (t.it.lookup key).getD 0

def step (s : LiveState) (t : Tick) : LiveState :=
  (s.readSyscallCounts t.it t.elapsed).fst

-- Each key is in the map once, and no counter decreases.
structure Counts (ts : List Tick) : Prop where
  distinct : ∀ t ∈ ts, (t.it.map Prod.fst).Nodup
  grows    : ts.Pairwise fun t u => ∀ key, t.counter key ≤ u.counter key

-- The counters in the latest tick that is not skipped.
def counted (ts : List Tick) (key : UInt32) : UInt64 :=
  (ts.filter (0 < ·.elapsed)).getLast?.elim 0 (·.counter key)

-- The keys whose counters have changed, with the differences.
def increments (prev : UInt32 → UInt64) (t : Tick) : List (UInt32 × Nat) :=
  (t.it.map fun e => (e.fst, e.snd.toNat - (prev e.fst).toNat)).filter (0 < ·.snd)

-- The greatest increments are returned as rates.
def Exact (s : LiveState) (prev : UInt32 → UInt64) (t : Tick) : Prop :=
  ∃ top, Top Prod.snd 12 (increments prev t) top ∧ (top.map Prod.fst).Nodup ∧ 
    (s.readSyscallCounts t.it t.elapsed).snd = 
      top.map fun c => { name := Enrich.getSyscallName c.fst, countS := c.snd / t.elapsed }

-- The rows before they are sorted.
def rows (s : LiveState) (t : Tick) : List (UInt32 × UInt64) :=
  (t.it.foldl LiveState.readSyscallCounts.next (s.sysPrev, [])).snd

-- What a tick adds to the count of a key, whether it is listed or not.
def added (key : UInt32) (s : LiveState) (t : Tick) : Nat :=
  if t.elapsed ≤ 0 then 0 else ((rows s t).lookup key).getD 0 |>.toNat

section Fold

variable {it : List (UInt32 × UInt64)} {prev : UInt32 → UInt64} {out : List (UInt32 × UInt64)} {key : UInt32}

-- The difference of an entry, unless there is none.
def delta? (prev : UInt32 → UInt64) (e : UInt32 × UInt64) : Option (UInt32 × UInt64) :=
  if e.snd - prev e.fst = 0 then none else some (e.fst, e.snd - prev e.fst)

theorem lookup_eq_none (h : key ∉ it.map Prod.fst) : it.lookup key = none := by
  rw [List.lookup_eq_none_iff]
  intro e he
  exact bne_iff_ne.mpr fun hk => h <| List.mem_map.mpr ⟨e, he, hk.symm⟩

theorem lookup_cons_ne {k : UInt32} {v : UInt64} (h : key ≠ k) : ((k, v) :: it).lookup key = it.lookup key := by
  rw [List.lookup_cons, beq_false_of_ne h]

theorem foldl_next (hn : (it.map Prod.fst).Nodup) : 
    it.foldl LiveState.readSyscallCounts.next (prev, out) = 
      (fun key => (it.lookup key).getD (prev key), out ++ it.filterMap (delta? prev)) := by
  induction it generalizing prev out
  case nil          => simp
  case cons e it hi =>
    obtain ⟨k, v⟩ := e
    have ⟨hk, hn⟩ := List.nodup_cons.mp hn
    have hd : it.filterMap (delta? <| Function.update prev k v) = it.filterMap (delta? prev) := by
      refine List.filterMap_congr fun c hc => ?_
      have hne : c.fst ≠ k := fun h => hk <| List.mem_map.mpr ⟨c, hc, h⟩
      rw [delta?, delta?, Function.update_of_ne hne]
    rw [List.foldl_cons, LiveState.readSyscallCounts.next, hi hn, hd]
    refine Prod.ext (funext fun key => ?_) ?_
    · by_cases h : key = k
      case pos => simp [h, lookup_eq_none hk]
      case neg => simp [h, lookup_cons_ne h]
    · simp only [List.filterMap_cons, delta?]
      split <;> simp [*]

-- Each key is found with its difference.
theorem lookup_delta? (hn : (it.map Prod.fst).Nodup) : 
    ((it.filterMap (delta? prev)).lookup key).getD 0 = ((it.lookup key).map (· - prev key)).getD 0 := by
  induction it
  case nil          => rfl
  case cons e it hi =>
    obtain ⟨k, v⟩ := e
    have ⟨hk, hn⟩ := List.nodup_cons.mp hn
    have hi := hi hn
    by_cases h : key = k
    case pos =>
      subst h
      rw [lookup_eq_none hk] at hi
      by_cases hd : v - prev key = 0
      case pos => simp [delta?, hd, hi]
      case neg => simp [delta?, hd]
    case neg =>
      rw [lookup_cons_ne h, ← hi]
      by_cases hd : v - prev k = 0
      case pos => simp [delta?, hd]
      case neg => simp [delta?, hd, lookup_cons_ne h]

theorem keys_delta? : ((it.filterMap (delta? prev)).map Prod.fst).Sublist (it.map Prod.fst) := by
  induction it
  case nil          => exact .slnil
  case cons e it hi =>
    by_cases hd : e.snd - prev e.fst = 0
    case pos => simpa [delta?, hd] using hi.cons e.fst
    case neg => simpa [delta?, hd] using hi

end Fold

section Run

variable {ts us : List Tick} {t u : Tick} {s : LiveState} {key : UInt32} {start : Time}

theorem step_of_nonpos (h : t.elapsed ≤ 0) : step s t = s := by
  rw [step, LiveState.readSyscallCounts, if_pos h]

theorem sysPrev_step (h : 0 < t.elapsed) (hn : (t.it.map Prod.fst).Nodup) : 
    (step s t).sysPrev = fun key => (t.it.lookup key).getD (s.sysPrev key) := by
  rw [step, LiveState.readSyscallCounts, if_neg (not_le.mpr h), foldl_next hn]

theorem rows_eq (hn : (t.it.map Prod.fst).Nodup) : rows s t = t.it.filterMap (delta? s.sysPrev) := by
  rw [rows, foldl_next hn, List.nil_append]

theorem counter_of_mem (hn : (t.it.map Prod.fst).Nodup) {e : UInt32 × UInt64} (h : e ∈ t.it) : 
    t.counter e.fst = e.snd := by
  rw [Tick.counter, List.lookup_eq_some_iff.mpr ?entry]
  · rfl
  case entry =>
    obtain ⟨l₁, l₂, hl⟩ := List.append_of_mem h
    refine ⟨l₁, l₂, hl, fun c hc => ?_⟩
    rw [hl, List.map_append, List.map_cons, List.nodup_append] at hn
    have hne : c.fst ≠ e.fst := hn.right.right c.fst (List.mem_map_of_mem hc) e.fst List.mem_cons_self
    simpa using hne.symm

theorem counter_le_counter (h : ∀ e ∈ t.it, e.snd ≤ u.counter e.fst) (key : UInt32) : 
    t.counter key ≤ u.counter key := by
  rw [Tick.counter]
  cases hl : t.it.lookup key
  case none   => exact UInt64.zero_le
  case some v =>
    obtain ⟨l₁, l₂, he, _⟩ := List.lookup_eq_some_iff.mp hl
    exact h (key, v) <| by simp [he]

theorem counted_concat : counted (ts ++ [t]) = if 0 < t.elapsed then t.counter else counted ts := by
  funext key
  rw [counted, List.filter_append]
  split
  case isTrue h  => simp [h]
  case isFalse h => 
    rw [List.filter_cons_of_neg (by simpa using h), List.filter_nil, List.append_nil]
    rfl

theorem Counts.sublist (h : Counts ts) (hs : us.Sublist ts) : Counts us where
  distinct t ht := h.distinct t <| hs.subset ht
  grows         := h.grows.sublist hs

theorem Counts.of_concat (h : Counts (ts ++ [t])) : Counts ts :=
  h.sublist <| List.sublist_append_left ..

theorem Counts.counted_le (h : Counts (ts ++ [t])) : counted ts key ≤ t.counter key := by
  rw [counted]
  cases hl : (ts.filter (0 < ·.elapsed)).getLast?
  case none   => exact UInt64.zero_le
  case some u =>
    have hu : u ∈ ts := List.mem_of_mem_filter <| List.mem_of_getLast? hl
    exact (List.pairwise_append.mp h.grows).right.right u hu t (List.mem_singleton_self t) key

-- What is remembered are the counters of the latest tick that is not skipped.
theorem sysPrev_exec (h : Counts ts) : (exec step (.new start) ts).sysPrev = counted ts := by
  induction ts using List.reverseRecOn
  case nil              => rfl
  case append_singleton ts t hi =>
    have hi := hi h.of_concat
    rw [exec_concat, counted_concat]
    split
    case isFalse he => rw [step_of_nonpos (not_lt.mp he), hi]
    case isTrue he  =>
      rw [sysPrev_step he <| h.distinct t <| by simp, hi]
      funext key
      -- A key that is missing now has never been counted.
      have hc : counted ts key ≤ t.counter key := h.counted_le
      rw [Tick.counter] at hc ⊢ 
      cases hl : t.it.lookup key
      case some v => rfl
      case none   =>
        rw [hl] at hc
        exact UInt64.le_zero_iff.mp hc

-- No difference wraps around.
theorem map_rows (h : Counts (ts ++ [t])) (hs : s.sysPrev = counted ts) : 
    (rows s t).map (fun r => (r.fst, r.snd.toNat)) = increments (counted ts) t := by
  have hn : (t.it.map Prod.fst).Nodup := h.distinct t <| by simp
  rw [rows_eq hn, hs, increments, List.map_filterMap, ← List.filterMap_eq_filter, List.filterMap_map]
  refine List.filterMap_congr fun e he => ?_
  have hl : counted ts e.fst ≤ e.snd := counter_of_mem hn he ▸ h.counted_le
  have hd : (e.snd - counted ts e.fst).toNat = e.snd.toNat - (counted ts e.fst).toNat := 
    UInt64.toNat_sub_of_le _ _ hl
  have hz : e.snd - counted ts e.fst = 0 ↔ ¬0 < e.snd.toNat - (counted ts e.fst).toNat := by
    rw [← UInt64.toNat_inj, hd, Nat.pos_iff_ne_zero, not_not]
    rfl
  simp only [delta?, Function.comp, Option.guard, hz]
  split <;> simp_all

theorem nodup_rows (hn : (t.it.map Prod.fst).Nodup) : ((rows s t).map Prod.fst).Nodup :=
  rows_eq hn ▸ hn.sublist keys_delta?

theorem exact_of_sysPrev (h : Counts (ts ++ [t])) (he : 0 < t.elapsed) (hs : s.sysPrev = counted ts) : 
    Exact s (counted ts) t := by
  have hn : (t.it.map Prod.fst).Nodup := h.distinct t <| by simp
  let before (a b : UInt32 × UInt64) : Bool := a.snd > b.snd
  have hb : ∀ a b, before a b ↔ b.snd.toNat < a.snd.toNat := fun a b => by simp [before, UInt64.lt_iff_toNat_lt]
  have ht : Top (fun r : UInt32 × UInt64 => r.snd.toNat) 12 (rows s t) _ := .of_exchangeSort hb
  refine ⟨((exchangeSort before (rows s t)).take 12).map fun r => (r.fst, r.snd.toNat), ?_, ?_, ?_⟩
  · exact map_rows h hs ▸ ht.map fun _ => rfl
  · rw [List.map_map]
    have hp : ((exchangeSort before (rows s t)).map Prod.fst).Nodup := 
      (exchangeSort_perm.map Prod.fst).nodup_iff.mpr <| nodup_rows hn
    exact hp.sublist <| (List.take_sublist ..).map _
  · rw [LiveState.readSyscallCounts, if_neg (not_le.mpr he), List.map_map]
    rfl

theorem added_eq (h : Counts (ts ++ [t])) (he : 0 < t.elapsed) (hs : s.sysPrev = counted ts) : 
    added key s t = (t.counter key).toNat - (counted ts key).toNat := by
  have hn : (t.it.map Prod.fst).Nodup := h.distinct t <| by simp
  have hl : counted ts key ≤ t.counter key := h.counted_le
  rw [added, if_neg (not_le.mpr he), rows_eq hn, lookup_delta? hn, hs]
  rw [Tick.counter] at hl ⊢ 
  cases hk : t.it.lookup key
  case none   => simp
  case some v => 
    rw [hk] at hl
    exact UInt64.toNat_sub_of_le _ _ hl

-- The increments so far make up the counter of the latest tick that is not skipped.
theorem sum_added (h : Counts ts) : 
    (outputs step (fun s t => [added key s t]) (.new start) ts).sum = (counted ts key).toNat := by
  induction ts using List.reverseRecOn
  case nil                      => rfl
  case append_singleton ts t hi =>
    rw [outputs_concat, List.sum_append, hi h.of_concat, List.sum_singleton, counted_concat]
    split
    case isFalse he => rw [added, if_pos (not_lt.mp he), Nat.add_zero]
    case isTrue he  =>
      have hl : (counted ts key).toNat ≤ (t.counter key).toNat := UInt64.le_iff_toNat_le.mp h.counted_le
      rw [added_eq h he (sysPrev_exec h.of_concat)]
      omega

-- In every run each tick lists the greatest increments, and none of them is lost.
theorem runs_exact (h : Counts ts) : 
    (∀ us t vs, ts = us ++ t :: vs → 0 < t.elapsed → Exact (exec step (.new start) us) (counted us) t) ∧ 
    ∀ key, (outputs step (fun s t => [added key s t]) (.new start) ts).sum = (counted ts key).toNat := by
  refine ⟨fun us t vs hs he => ?_, fun _ => sum_added h⟩
  have hc : Counts (us ++ [t]) := h.sublist <| by simp [hs]
  exact exact_of_sysPrev hc he <| sysPrev_exec hc.of_concat

end Run

section Skipped

-- The clock stands still before the second tick, and its increments are listed in the third one.
def ticks : List Tick := [
  ⟨[(0, 5)], 1⟩, 
  ⟨[(0, 6), (1, 2)], 0⟩, 
  ⟨[(0, 6), (1, 3)], 2⟩
]

theorem counts_ticks : Counts ticks where
  distinct := by simp [ticks]
  grows    := by
    have hp : ticks.Pairwise fun t u => ∀ e ∈ t.it, e.snd ≤ u.counter e.fst := by
      simp only [ticks, List.pairwise_cons, List.forall_mem_cons, List.not_mem_nil, false_imp_iff, implies_true, 
        List.Pairwise.nil, and_true]
      decide
    exact hp.imp counter_le_counter

theorem runs_exact_ticks : 
    Exact (exec step (.new 0) (ticks.take 2)) (counted (ticks.take 2)) ⟨[(0, 6), (1, 3)], 2⟩ ∧ 
    (outputs step (fun s t => [added 1 s t]) (.new 0) ticks).sum = 3 :=
  ⟨runs_exact counts_ticks |>.left (ticks.take 2) _ [] rfl <| by decide, runs_exact counts_ticks |>.right 1⟩

end Skipped
end TopCalls
end EbpfAgent
