import DrishtiScope.Go.Strconv

open Go

-- How the kernel shows a process in /proc/<pid>/stat.
namespace Linux

structure Letter where
  byte  : UInt8
  ascii : (65 ≤ byte ∧ byte ≤ 90) ∨ (97 ≤ byte ∧ byte ≤ 122)

theorem Letter.bounds {l : Letter} : 65 ≤ l.byte ∧ l.byte < 127 := by
  rcases l.ascii with ⟨hl, hu⟩ | ⟨hl, hu⟩
  · exact ⟨hl, UInt8.lt_of_le_of_lt hu (by decide)⟩
  · exact ⟨UInt8.le_trans (by decide) hl, UInt8.lt_of_le_of_lt hu (by decide)⟩

-- The values of the line. The name may contain any bytes, and later kernels show more values.
structure StatLine where
  pid         : Int
  comm        : Bytes
  state       : Letter
  ppid        : Int64
  pgrp        : Int
  session     : Int
  ttyNr       : Int
  tpgid       : Int
  flags       : Int
  minflt      : Int
  cminflt     : Int
  majflt      : Int
  cmajflt     : Int
  utime       : UInt64
  stime       : UInt64
  cutime      : Int
  cstime      : Int
  priority    : Int
  nice        : Int
  numThreads  : Int64
  itrealvalue : Int
  starttime   : UInt64
  more        : List Int

namespace StatLine

-- The numbers after the state.
def numbers (s : StatLine) : List Int :=
  [
    s.ppid.toInt, s.pgrp, s.session, s.ttyNr, s.tpgid, s.flags, s.minflt, s.cminflt, s.majflt, s.cmajflt, 
    s.utime.toNat, s.stime.toNat, s.cutime, s.cstime, s.priority, s.nice, s.numThreads.toInt, s.itrealvalue, 
    s.starttime.toNat
  ] ++ s.more

def columns (s : StatLine) : List Bytes :=
  [s.state.byte] :: s.numbers.map itoa

def tail (s : StatLine) : Bytes :=
  (s.columns.flatMap fun c => 32 :: c) ++ [10]

-- "%d (%s) %c %d ..." 
def line (s : StatLine) : Bytes :=
  itoa s.pid ++ str " (" ++ s.comm ++ str ")" ++ s.tail

variable {s : StatLine} {c : Bytes} {b : UInt8}

theorem word_of_mem_columns (h : c ∈ s.columns) : Bytes.Word c := by
  cases List.mem_cons.mp h
  case inl h =>
    subst h
    refine ⟨by simp, fun b hb => ?_⟩
    cases List.mem_singleton.mp hb
    exact ⟨UInt8.lt_of_lt_of_le (by decide) s.state.bounds.left, s.state.bounds.right⟩
  case inr h =>
    obtain ⟨n, _, rfl⟩ := List.mem_map.mp h
    exact Bytes.word_itoa

-- No parenthesis follows that of the name.
theorem rparen_not_mem_tail : 41 ∉ s.tail := by
  intro h
  cases List.mem_append.mp h
  case inr h => exact absurd h (by decide)
  case inl h =>
    obtain ⟨c, hc, h⟩ := List.mem_flatMap.mp h
    have h := List.mem_cons.mp h |>.resolve_left (by decide)
    cases List.mem_cons.mp hc
    case inl hc =>
      have he := List.mem_singleton.mp <| hc ▸ h
      have hl : 65 ≤ s.state.byte := s.state.bounds.left
      exact absurd (he ▸ hl) (by decide)
    case inr hc =>
      obtain ⟨n, _, rfl⟩ := List.mem_map.mp hc
      exact absurd (mem_itoa h) (by decide)

theorem fields_tail : Bytes.fields s.tail = s.columns := by
  have ht : s.tail = 
      ((s.columns.map fun c => (1, c)).flatMap fun c => List.replicate c.fst 32 ++ c.snd) ++ [10] := by
    rw [tail, List.flatMap_map]
    rfl
  rw [ht, Bytes.fields_columns ?words ?gaps ?trail, List.map_map]
  · exact List.map_id _
  case words =>
    intro _ hm
    obtain ⟨c, hc, rfl⟩ := List.mem_map.mp hm
    exact word_of_mem_columns hc
  case gaps =>
    intro c hc
    obtain ⟨c, _, rfl⟩ := List.mem_map.mp <| List.mem_of_mem_tail hc
    exact Nat.zero_lt_one
  case trail => exact fun b hb => .inr <| List.mem_singleton.mp hb ▸ by decide

end StatLine
end Linux
