import DrishtiScope.Go.Strconv
import Mathlib.Data.Rat.Defs
import Mathlib.Algebra.Order.Ring.Unbundled.Rat
import Mathlib.Tactic.Linarith

namespace Go

-- Nanoseconds since January 1 of the year 1, which is the zero value of `time.Time`.
abbrev Time := Int

abbrev Duration := Int

def Duration.min : Duration := -2 ^ 63
def Duration.max : Duration := 2 ^ 63 - 1

def Duration.seconds (d : Duration) : ℚ :=
  (d : ℚ) / 10 ^ 9

namespace Time

-- Unix time zero.
def epoch : Time :=
  62135596800 * 10 ^ 9

def isZero (t : Time) : Bool :=
  t = 0

def unixNano (t : Time) : Int :=
  t - epoch

def unixMilli (t : Time) : Int :=
  (t - epoch) / 10 ^ 6

-- `time.RFC3339` in UTC. A year starts in March here, so that a leap day is its last day.
def rfc3339UTC (t : Time) : Bytes :=
  let seconds := t / 10 ^ 9
  let days := seconds / 86400 + 306
  let second := seconds % 86400
  let era := days / 146097
  let doe := days % 146097
  let yoe := (doe - doe / 1460 + doe / 36524 - doe / 146096) / 365
  let doy := doe - (365 * yoe + yoe / 4 - yoe / 100)
  let mp := (5 * doy + 2) / 153
  let day := doy - (153 * mp + 2) / 5 + 1
  let month := if mp < 10 then mp + 3 else mp - 9
  let year := yoe + era * 400 + if month ≤ 2 then 1 else 0
  pad 4 year ++ [45] ++ pad 2 month ++ [45] ++ pad 2 day ++ str "T" ++ pad 2 (second / 3600) ++ 
    [58] ++ pad 2 (second / 60 % 60) ++ [58] ++ pad 2 (second % 60) ++ str "Z"
where
  pad (width : Nat) (n : Int) : Bytes :=
    let digits := itoa n
    List.replicate (width - digits.length) 48 ++ digits

-- `time.Time.Sub` saturates.
def sub (t u : Time) : Duration :=
  if t - u < Duration.min then
    Duration.min
  else if Duration.max < t - u then
    Duration.max
  else
    t - u

@[simp]
theorem sub_self (t : Time) : t.sub t = 0 := by
  simp [sub, Duration.min, Duration.max]

end Time

@[simp]
theorem Duration.seconds_zero : Duration.seconds 0 = 0 := by
  simp [Duration.seconds]

-- The rendering of a time in the zone of the host.
class Zone where
  rfc3339 : Time → Bytes

-- UTC, as far as the epoch is concerned.
@[reducible]
def Zone.utcEpoch : Zone where
  rfc3339 _ := str "1970-01-01T00:00:00Z"

end Go
