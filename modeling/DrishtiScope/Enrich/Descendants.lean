import DrishtiScope.Enrich.Proc
import DrishtiScope.Linux.Stat

open Go Linux

-- The parents of processes, and the processes that descend from others.
namespace Enrich

-- What the kernel shows of a process.
def Stat.of (s : StatLine) : Stat where
  state      := [s.state.byte]
  ppid       := s.ppid.toInt
  utime      := s.utime
  stime      := s.stime
  threads    := s.numThreads.toInt
  startTicks := s.starttime

section Line

variable {s : StatLine}

theorem atoi_toInt {n : Int64} : Bytes.atoi (itoa n.toInt) = (n.toInt, none) :=
  Bytes.atoi_itoa n.le_toInt n.toInt_lt

theorem parseUint_toNat {n : UInt64} : (Bytes.parseUint (itoa n.toNat) 10 64).fst.toUInt64 = n := by
  have hi : itoa (n.toNat : Int) = natDigits n.toNat := by
    rw [itoa, if_neg (by omega), Int.natAbs_natCast]
  rw [hi, Bytes.parseUint_natDigits n.toNat_lt]
  exact UInt64.ofNat_toNat

theorem parseStat_line : parseStat s.line = some (.of s) := by
  have hl : s.line = itoa s.pid ++ str " (" ++ s.comm ++ 41 :: s.tail := by
    rw [StatLine.line, List.append_assoc _ (str ")")]
    rfl
  have ht : s.tail = 32 :: s.tail.drop 1 := rfl
  have hf : Bytes.fields (s.tail.drop 1) = s.columns := by
    rw [← StatLine.fields_tail]
    exact (Bytes.fields_blank <| .inl rfl).symm.trans <| congrArg _ ht.symm
  have hd : ¬s.tail.length ≤ 1 := by
    simp [StatLine.tail, StatLine.columns]
  have hc : ¬s.columns.length < 20 := by
    simp [StatLine.columns, StatLine.numbers]
  rw [parseStat, hl, Bytes.afterLast?_append StatLine.rparen_not_mem_tail]
  simp only [Option.bind_eq_bind, Option.bind_some, if_neg hd, hf, if_neg hc]
  have h₁  : s.columns.getD 1 [] = itoa s.ppid.toInt := rfl
  have h₁₁ : s.columns.getD 11 [] = itoa s.utime.toNat := rfl
  have h₁₂ : s.columns.getD 12 [] = itoa s.stime.toNat := rfl
  have h₁₇ : s.columns.getD 17 [] = itoa s.numThreads.toInt := rfl
  have h₁₉ : s.columns.getD 19 [] = itoa s.starttime.toNat := rfl
  rw [h₁, h₁₁, h₁₂, h₁₇, h₁₉, atoi_toInt, atoi_toInt, parseUint_toNat, parseUint_toNat, parseUint_toNat]
  rfl

-- Whatever the name of the process is, the values are those that the kernel has written.
theorem parseStat_inverts : 
    ∃ st, parseStat s.line = some st ∧ st.state = [s.state.byte] ∧ st.ppid = s.ppid.toInt ∧ st.utime = s.utime ∧ 
      st.stime = s.stime ∧ st.threads = s.numThreads.toInt ∧ st.startTicks = s.starttime :=
  ⟨_, parseStat_line, rfl, rfl, rfl, rfl, rfl, rfl⟩

end Line

section Descendants

variable {fs : ProcFS} {roots : List Int} {es : List (Int × Int)} {x : Int}

-- A process that has a parent and not much else.
def child (pid : Int) (ppid : Int64) : StatLine where
  pid         := pid
  comm        := str "child"
  state       := ⟨83, by decide⟩
  ppid        := ppid
  pgrp        := 0
  session     := 0
  ttyNr       := 0
  tpgid       := -1
  flags       := 0
  minflt      := 0
  cminflt     := 0
  majflt      := 0
  cmajflt     := 0
  utime       := 0
  stime       := 0
  cutime      := 0
  cstime      := 0
  priority    := 20
  nice        := 0
  numThreads  := 1
  itrealvalue := 0
  starttime   := 0
  more        := []

-- Each map from processes to parents can be read, whether it is a forest or not.
theorem exists_ppidOf (hn : (es.map Prod.fst).Nodup) (hk : ∀ e ∈ es, 0 < e.fst ∧ e.fst ≤ maxPid) 
    (hv : ∀ e ∈ es, -2 ^ 63 ≤ e.snd ∧ e.snd < 2 ^ 63) : ∃ fs, ppidOf fs = es := by
  let line (e : Int × Int) := child e.fst <| .ofInt e.snd
  let process (e : { e // e ∈ es }) : Process := 
    .single e.val.fst (.ofBytes <| str "child") (some (line e.val).line) (hk e.val e.property)
  have hp : (es.attach.map process).map (·.pid) = es.map Prod.fst := by
    rw [List.map_map]
    exact List.attach_map_val (f := Prod.fst)
  refine ⟨{ processes := es.attach.map process, nodup := hp ▸ hn }, ?_⟩
  have hs (e : { e // e ∈ es }) : 
      (Process.parsedStat (process e)).map (fun s => ((process e).pid, s.ppid)) = some e.val := by
    have ⟨hl, hu⟩ := hv e.val e.property
    have ht : (Stat.of <| line e.val).ppid = e.val.snd := Int64.toInt_ofInt_of_le hl hu
    have hl : Process.parsedStat (process e) = some (.of <| line e.val) := parseStat_line
    rw [hl, Option.map_some, ht]
    rfl
  calc
    _ = es.attach.filterMap fun e => some e.val := by
      rw [ppidOf, List.filterMap_map]
      exact List.filterMap_congr fun e _ => hs e
    _ = es.attach.map Subtype.val               := congrFun List.filterMap_eq_map _
    _ = es                                      := es.attach_map_subtype_val

variable [Runtime]

theorem prefix_expandDescendants : roots <+: expandDescendants fs roots := by
  have hr : roots.filter (· ∈ Closure.saturate (Runtime.mapOrder · (ppidOf fs)) ((ppidOf fs).length + 1) 0 
      roots.dedup) = roots :=
    List.filter_eq_self.mpr fun r hr => 
      decide_eq_true <| mem_saturate_ppidOf.mpr <| Closure.root_mem_closure hr
  simp only [expandDescendants, hr]
  exact List.prefix_append ..

-- The loop ends after a pass that has found nothing, and what it has collected is returned.
theorem exists_loop (hn : roots.Nodup) : 
    ∃ want, Closure.Loop (Runtime.mapOrder · (ppidOf fs)) 0 roots.dedup want ∧ 
      (expandDescendants fs roots).Perm want := by
  have hl : Closure.pass.missing (ppidOf fs) roots.dedup < (ppidOf fs).length + 1 := 
    Closure.saturate.missing_lt_of_length (Nat.lt_succ_self _)
  refine ⟨_, Closure.saturate.loop (fun _ _ => mem_mapOrder) hl, ?_⟩
  have hd : (expandDescendants fs roots).Nodup := expandDescendants_nodup hn
  apply List.perm_ext_iff_of_nodup hd (Closure.saturate.nodup roots.nodup_dedup) |>.mpr
  exact fun _ => mem_expandDescendants.trans mem_saturate_ppidOf.symm

-- In whatever order the maps are read, the result has each process of the least set once and the roots first.
theorem expandDescendants_isLeast (hn : roots.Nodup) : 
    (∃ want, Closure.Loop (Runtime.mapOrder · (ppidOf fs)) 0 roots.dedup want ∧ 
      (expandDescendants fs roots).Perm want) ∧ 
    roots <+: expandDescendants fs roots ∧ 
    (expandDescendants fs roots).Nodup ∧ 
    IsLeast { S : Set Int | (∀ r ∈ roots, r ∈ S) ∧ ∀ pid ppid, (pid, ppid) ∈ ppidOf fs → ppid ∈ S → pid ∈ S } 
      { x | x ∈ expandDescendants fs roots } := by
  have he : { x | x ∈ expandDescendants fs roots } = Closure.closure (ppidOf fs) roots := 
    Set.ext fun _ => mem_expandDescendants
  exact ⟨exists_loop hn, prefix_expandDescendants, expandDescendants_nodup hn, he ▸ Closure.isLeast_closure⟩

end Descendants

section Cycle

attribute [local instance] Runtime.stable

-- Two processes that are the parents of each other, and one without a parent.
def cyclic : ProcFS where
  processes := [
    .single 191 (.ofBytes <| str "a") (some (child 191 201).line) (by decide), 
    .single 201 (.ofBytes <| str "b") (some (child 201 191).line) (by decide), 
    .single 211 (.ofBytes <| str "c") (some (child 211 0).line) (by decide)
  ]
  nodup := by decide

theorem expandDescendants_cyclic : 
    [201] <+: expandDescendants cyclic [201] ∧ (expandDescendants cyclic [201]).Nodup ∧ 
    191 ∈ expandDescendants cyclic [201] := by
  have ⟨_, hp, hn, hl⟩ := @expandDescendants_isLeast cyclic [201] _ (List.nodup_singleton 201)
  refine ⟨hp, hn, hl.left.right 191 201 ?_ <| hl.left.left 201 <| by simp⟩
  simp [ppidOf, cyclic, Process.parsedStat, Process.single, parseStat_line, Stat.of, child]

end Cycle
end Enrich
