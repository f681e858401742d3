import DrishtiScope.Go.Time
import DrishtiScope.Lib.TokenBucket
import Mathlib.Logic.Function.Basic

open Go

namespace Api

structure Bucket where
  tokens : ℚ
  last   : Time

structure Limiter where
  rate   : ℚ
  burst  : ℚ
  items  : Bytes → Option Bucket
  lastGC : Time

namespace Limiter

-- One minute, and five of them.
def gcInterval : Duration := 60 * 10 ^ 9
def maxIdle : Duration := 5 * gcInterval

def newLimiter (rate : ℚ) (burst : Int) (now : Time) : Limiter where
  rate    := if rate ≤ 0 then 40 else rate
  burst   := if burst ≤ 0 then 80 else burst
  items _ := none
  lastGC  := now

def gcLocked (l : Limiter) (now : Time) : Limiter :=
  if now.sub l.lastGC < gcInterval then
    l
  else
    { l with 
      lastGC  := now
      items k := (l.items k).filter fun b => now.sub b.last ≤ maxIdle
    }

def put (l : Limiter) (key : Bytes) (b : Bucket) : Limiter :=
  { l with items := Function.update l.items key (some b) }

def allow (l : Limiter) (now : Time) (key : Bytes) : Bool × Limiter :=
  let l := l.gcLocked now
  let b := (l.items key).getD ⟨l.burst, now⟩
  let tokens := b.tokens + (now.sub b.last).seconds * l.rate
  let tokens := if l.burst < tokens then l.burst else tokens
  if tokens < 1 then
    (false, l.put key ⟨tokens, now⟩)
  else
    (true, l.put key ⟨tokens - 1, now⟩)

-- A bucket refills as if its time were exact, and a key without one has a full bucket.
def bucket (l : Limiter) (b : Bucket) : TokenBucket ℚ where
  rate   := l.rate
  burst  := l.burst
  tokens := b.tokens
  last   := Duration.seconds b.last

def level (l : Limiter) (key : Bytes) (t : ℚ) : ℚ :=
  (l.items key).elim l.burst fun b => (l.bucket b).level t

-- What a bucket has been idle for, at least, when it is removed.
def removalAge : ℚ :=
  Duration.seconds (maxIdle + 1)

-- A bucket is full again before it may be removed.
structure Wf (l : Limiter) (now : Time) : Prop where
  rate   : 0 ≤ l.rate
  burst  : 0 ≤ l.burst
  refill : l.burst ≤ removalAge * l.rate
  tokens : ∀ k b, l.items k = some b → 0 ≤ b.tokens
  last   : ∀ k b, l.items k = some b → b.last ≤ now

variable {l : Limiter} {now now' : Time} {key key' : Bytes} {b : Bucket} {t : ℚ} {tokens : ℚ}

theorem Wf.mono (h : l.Wf now) (hn : now ≤ now') : l.Wf now' where
  rate        := h.rate
  burst       := h.burst
  refill      := h.refill
  tokens      := h.tokens
  last k b hb := (h.last k b hb).trans hn

theorem Wf.put (h : l.Wf now) (ht : 0 ≤ tokens) : (l.put key ⟨tokens, now⟩).Wf now where
  rate          := h.rate
  burst         := h.burst
  refill        := h.refill
  tokens k b hb := by
    by_cases hk : k = key
    case pos => 
      simp only [Limiter.put, hk, Function.update_self, Option.some.injEq] at hb
      exact hb ▸ ht
    case neg =>
      simp only [Limiter.put, Function.update_of_ne hk] at hb
      exact h.tokens k b hb
  last k b hb   := by
    by_cases hk : k = key
    case pos => 
      simp only [Limiter.put, hk, Function.update_self, Option.some.injEq] at hb
      exact hb ▸ le_rfl
    case neg =>
      simp only [Limiter.put, Function.update_of_ne hk] at hb
      exact h.last k b hb

theorem Wf.gcLocked (h : l.Wf now) : (l.gcLocked now).Wf now := by
  simp only [Limiter.gcLocked]
  split
  case isTrue  => exact h
  case isFalse =>
    have hf (k : Bytes) (b : Bucket) (hb : (l.items k).filter (fun b => now.sub b.last ≤ maxIdle) = some b) : 
        l.items k = some b := (Option.filter_eq_some_iff.mp hb).left
    exact {
      rate        := h.rate
      burst       := h.burst
      refill      := h.refill
      tokens k b hb := h.tokens k b (hf k b hb)
      last k b hb   := h.last k b (hf k b hb)
    }

theorem newLimiter_eq {rate : ℚ} {burst : Int} (hr : 0 < rate) (hb : 0 < burst) : 
    newLimiter rate burst now = ⟨rate, burst, fun _ => none, now⟩ := by
  rw [newLimiter, if_neg (not_le.mpr hr), if_neg (not_le.mpr hb)]

theorem Wf.empty {rate burst : ℚ} (hr : 0 ≤ rate) (hb : 0 ≤ burst) (hf : burst ≤ removalAge * rate) : 
    Limiter.Wf ⟨rate, burst, fun _ => none, now⟩ now where
  rate         := hr
  burst        := hb
  refill       := hf
  tokens _ _ h := nomatch h
  last _ _ h   := nomatch h

-- The bucket for failed logins is full long before that.
theorem auth_refill : (10 : ℚ) ≤ removalAge * (1 / 5) := by
  norm_num [removalAge, Duration.seconds, maxIdle, gcInterval]

-- At that age a bucket is full.
theorem Wf.level_full (h : l.Wf now) (hb : l.items key = some b) 
    (ht : removalAge ≤ t - Duration.seconds b.last) : (l.bucket b).level t = l.burst := by
  have hr := mul_le_mul_of_nonneg_right ht h.rate
  have h0 := h.tokens key b hb
  have hf := h.refill
  apply min_eq_left
  simp only [bucket]
  linarith

theorem seconds_mono {d d' : Duration} (h : d ≤ d') : d.seconds ≤ d'.seconds :=
  div_le_div_of_nonneg_right (Int.cast_le.mpr h) (by norm_num)

theorem removalAge_le {d : Duration} (h : maxIdle < d) : removalAge ≤ d.seconds :=
  seconds_mono h

-- A difference that saturates is far longer than that.
theorem seconds_sub (hl : b.last ≤ now) : 
    (now.sub b.last).seconds = Duration.seconds now - Duration.seconds b.last ∨ 
    (removalAge ≤ (now.sub b.last).seconds ∧ 
      removalAge ≤ Duration.seconds now - Duration.seconds b.last) := by
  have hd : Duration.seconds now - Duration.seconds b.last = Duration.seconds (now - b.last : Int) := by
    simp only [Duration.seconds, Int.cast_sub, sub_div]
  have hm : maxIdle < Duration.max := by decide
  simp only [Time.sub]
  split
  case isTrue h => 
    have hm : Duration.min ≤ 0 := by decide
    exact absurd (h.trans_le hm) (not_lt.mpr <| sub_nonneg.mpr hl)
  case isFalse =>
    split
    case isTrue h  => exact .inr ⟨removalAge_le hm, hd ▸ removalAge_le (hm.trans h)⟩
    case isFalse h => exact .inl hd.symm

-- The tokens that `Allow` finds.
theorem Wf.level_eq (h : l.Wf now) : 
    let b := (l.items key).getD ⟨l.burst, now⟩
    let tokens := b.tokens + (now.sub b.last).seconds * l.rate
    (if l.burst < tokens then l.burst else tokens) = l.level key (Duration.seconds now) := by
  cases hb : l.items key
  case none   => simp [level, hb]
  case some b =>
    simp only [Option.getD_some, level, hb, Option.elim_some]
    have hm (x : ℚ) : (if l.burst < x then l.burst else x) = min l.burst x := by
      rw [min_def]
      split_ifs <;> linarith
    rw [hm]
    cases seconds_sub (h.last key b hb)
    case inl he => rw [he]; rfl
    case inr h3 =>
      have hr := mul_le_mul_of_nonneg_right h3.left h.rate
      have h0 := h.tokens key b hb
      have hf := h.refill
      rw [h.level_full hb h3.right]
      exact min_eq_left (by linarith)

theorem Wf.level_gcLocked (h : l.Wf now) (ht : Duration.seconds now ≤ t) : 
    (l.gcLocked now).level key t = l.level key t := by
  simp only [Limiter.gcLocked]
  split
  case isTrue  => rfl
  case isFalse =>
    simp only [level]
    cases hb : l.items key
    case none   => rfl
    case some b =>
      by_cases hi : now.sub b.last ≤ maxIdle
      case pos => simp [Option.filter, hi, bucket]
      case neg =>
        have hs : removalAge ≤ (now.sub b.last).seconds := removalAge_le (not_le.mp hi)
        have h3 : removalAge ≤ t - Duration.seconds b.last := by
          cases seconds_sub (h.last key b hb)
          case inl he => linarith
          case inr he => linarith
        simp [Option.filter, hi, h.level_full hb h3]

theorem Wf.level_nonneg (h : l.Wf now) : 0 ≤ l.level key (Duration.seconds now) := by
  rw [level]
  cases hb : l.items key
  case none   => exact h.burst
  case some b =>
    have hl : Duration.seconds b.last ≤ Duration.seconds now := seconds_mono <| h.last key b hb
    have hm := mul_nonneg (sub_nonneg.mpr hl) h.rate
    exact le_min h.burst <| add_nonneg (h.tokens key b hb) hm

-- What `Allow` does, in terms of the tokens that it finds.
theorem Wf.allow_eq (h : l.Wf now) : 
    l.allow now key = 
      if l.level key (Duration.seconds now) < 1 then
        (false, (l.gcLocked now).put key ⟨l.level key (Duration.seconds now), now⟩)
      else
        (true, (l.gcLocked now).put key ⟨l.level key (Duration.seconds now) - 1, now⟩) := by
  have hl := @level_eq _ _ key h.gcLocked
  rw [h.level_gcLocked le_rfl] at hl
  simp only [allow, hl]

theorem level_put : (l.put key ⟨tokens, now⟩).level key t = 
    min l.burst (tokens + (t - Duration.seconds now) * l.rate) := by
  simp only [level, put, Function.update_self]
  rfl

theorem level_put_ne (hk : key' ≠ key) : (l.put key b).level key' t = l.level key' t := by
  simp only [level, put, Function.update_of_ne hk]
  rfl

theorem gcLocked_rate : (l.gcLocked now).rate = l.rate := by
  simp only [gcLocked]
  split <;> rfl

theorem gcLocked_burst : (l.gcLocked now).burst = l.burst := by
  simp only [gcLocked]
  split <;> rfl

namespace Wf

theorem allow (h : l.Wf now) : (l.allow now key).snd.Wf now := by
  rw [h.allow_eq]
  split
  case isTrue    => exact h.gcLocked.put h.level_nonneg
  case isFalse h1 => exact h.gcLocked.put <| sub_nonneg.mpr <| not_lt.mp h1

theorem allow_rate (h : l.Wf now) : (l.allow now key).snd.rate = l.rate := by
  rw [h.allow_eq]
  split <;> exact gcLocked_rate

theorem allow_burst (h : l.Wf now) : (l.allow now key).snd.burst = l.burst := by
  rw [h.allow_eq]
  split <;> exact gcLocked_burst

theorem level_allow_ne (h : l.Wf now) (hk : key' ≠ key) (ht : Duration.seconds now ≤ t) : 
    (l.allow now key).snd.level key' t = l.level key' t := by
  rw [h.allow_eq]
  split <;> exact (level_put_ne hk).trans <| h.level_gcLocked ht

-- A call that passes takes at most as much as it would from a bucket with fewer tokens.
theorem level_charge_le {b : TokenBucket ℚ} (h : l.Wf now) (hr : b.rate = l.rate) (hb : b.burst = l.burst) 
    (h1 : 1 ≤ l.level key (Duration.seconds now)) 
    (hl : b.level (Duration.seconds now) ≤ l.level key (Duration.seconds now)) : 
    (b.charge (Duration.seconds now)).level t ≤ (l.allow now key).snd.level key t := by
  rw [h.allow_eq, if_neg (not_lt.mpr h1), level_put, gcLocked_rate, gcLocked_burst, ← hr, ← hb]
  apply min_le_min_left
  change b.level _ - 1 + (t - Duration.seconds now) * b.rate ≤ _
  linarith

end Wf
end Limiter
end Api
