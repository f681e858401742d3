import DrishtiScope.Api.RateLimit

open Go

-- Runs of a limiter, and what each key sees of them.
namespace Api.Limiter

-- A call some time after the last one.
structure Call where
  wait : Nat
  key  : Bytes

structure Ask where
  time : Time
  key  : Bytes

def asks (now : Time) : List Call → List Ask
  | []      => []
  | c :: cs => ⟨now + c.wait, c.key⟩ :: asks (now + c.wait) cs

-- `Allow` without the garbage collection.
def take (l : Limiter) (now : Time) (key : Bytes) : Bool × Limiter :=
  let b := (l.items key).getD ⟨l.burst, now⟩
  let tokens := b.tokens + (now.sub b.last).seconds * l.rate
  let tokens := if l.burst < tokens then l.burst else tokens
  if tokens < 1 then
    (false, l.put key ⟨tokens, now⟩)
  else
    (true, l.put key ⟨tokens - 1, now⟩)

-- The decisions of something that is asked.
def run (ask : σ → Time → Bytes → Bool × σ) : σ → List Ask → List (Ask × Bool)
  | _, []      => []
  | s, a :: as => (a, (ask s a.time a.key).fst) :: run ask (ask s a.time a.key).snd as

def after (l : Limiter) (as : List Ask) : Limiter :=
  as.foldl (fun l a => (l.allow a.time a.key).snd) l

-- The times at which a key has been let through.
def passes (key : Bytes) (ds : List (Ask × Bool)) : List ℚ :=
  ds.filter (fun d => d.fst.key = key ∧ d.snd) |>.map fun d => Duration.seconds d.fst.time

-- No key gets more than its rate and its burst allow, and no bucket is overdrawn or too full.
structure Limits (l : Limiter) (rate burst : ℚ) (as : List Ask) : Prop where
  window : ∀ key, TokenBucket.Bounded rate burst (passes key <| run allow l as)
  tokens : ∀ key b, (l.after as).items key = some b → 0 ≤ b.tokens ∧ b.tokens ≤ burst

def Timely (now : Time) (as : List Ask) : Prop :=
  (∀ a ∈ as, now ≤ a.time) ∧ as.Pairwise (·.time ≤ ·.time)

variable {l : Limiter} {now : Time} {key key' : Bytes} {a : Ask} {as as' : List Ask} {cs : List Call} 
         {b : TokenBucket ℚ} {ask : Limiter → Time → Bytes → Bool × Limiter} {t : ℚ}

theorem timely_asks : Timely now (asks now cs) := by
  induction cs generalizing now
  case nil          => exact ⟨nofun, .nil⟩
  case cons c cs hi =>
    have ⟨hn, hs⟩ : Timely (now + c.wait) (asks (now + c.wait) cs) := hi
    have hw : now ≤ now + c.wait := Int.le_add_of_nonneg_right <| Int.natCast_nonneg _
    refine ⟨fun a ha => ?_, .cons hn hs⟩
    cases List.mem_cons.mp ha
    case inl he => exact he ▸ hw
    case inr hm => exact hw.trans <| hn a hm

theorem Timely.filter {p : Ask → Bool} (h : Timely now as) : Timely now (as.filter p) where
  left a ha := h.left a (List.mem_of_mem_filter ha)
  right     := h.right.filter p

theorem Timely.tail (h : Timely now (a :: as)) : now ≤ a.time ∧ Timely a.time as :=
  ⟨h.left a List.mem_cons_self, List.pairwise_cons.mp h.right⟩

theorem Timely.pairwise_seconds (h : Timely now as) : 
    (Duration.seconds now :: as.map fun a => Duration.seconds a.time).Pairwise (· ≤ ·) := by
  refine List.pairwise_cons.mpr ⟨fun t ht => ?_, List.pairwise_map.mpr <| h.right.imp seconds_mono⟩
  have ⟨a, ha, he⟩ := List.mem_map.mp ht
  exact he ▸ seconds_mono (h.left a ha)

theorem mem_run {σ : Type} {s : σ} {ask : σ → Time → Bytes → Bool × σ} {d : Ask × Bool} 
    (h : d ∈ run ask s as) : d.fst ∈ as := by
  induction as generalizing s
  case nil          => contradiction
  case cons a as hi =>
    cases List.mem_cons.mp h
    case inl he => exact he ▸ List.mem_cons_self
    case inr hm => exact List.mem_cons_of_mem _ <| hi hm

theorem passes_eq : 
    passes key (run ask l as) = TokenBucket.passes 
      (((run ask l as).filter fun d => d.fst.key = key).map fun d => 
        (Duration.seconds d.fst.time, d.snd)) := by
  rw [passes, TokenBucket.passes, List.filterMap_map, ← List.filterMap_eq_map, 
    List.filterMap_filter, List.filterMap_filter]
  congr 1
  ext1 d
  obtain ⟨a, pass⟩ := d
  by_cases hk : a.key = key <;> cases pass <;> simp [hk]

theorem run_bucket : 
    (run (fun b now _ => b.ask (Duration.seconds now)) b as).map 
      (fun d => (Duration.seconds d.fst.time, d.snd)) = 
      b.decisions (as.map fun a => Duration.seconds a.time) := by
  induction as generalizing b
  case nil         => rfl
  case cons _ _ hi => simp only [run, TokenBucket.decisions, List.map_cons, hi]

theorem allow_eq_take : l.allow now key = (l.gcLocked now).take now key := 
  rfl

-- The bucket of the key decides. Whatever else happens to the limiter, no bucket notices.
structure Fair (ask : Limiter → Time → Bytes → Bool × Limiter) (tidy : Limiter → Time → Limiter) : 
    Prop where
  eq    : ∀ {l now key}, l.Wf now → ask l now key = 
    if l.level key (Duration.seconds now) < 1 then
      (false, (tidy l now).put key ⟨l.level key (Duration.seconds now), now⟩)
    else
      (true, (tidy l now).put key ⟨l.level key (Duration.seconds now) - 1, now⟩)
  wf    : ∀ {l now}, l.Wf now → (tidy l now).Wf now
  rate  : ∀ {l now}, (tidy l now).rate = l.rate
  burst : ∀ {l now}, (tidy l now).burst = l.burst
  level : ∀ {l now key t}, l.Wf now → Duration.seconds now ≤ t → 
    (tidy l now).level key t = l.level key t

theorem fair_allow : Fair allow gcLocked where
  eq    := Wf.allow_eq
  wf    := Wf.gcLocked
  rate  := gcLocked_rate
  burst := gcLocked_burst
  level := Wf.level_gcLocked

theorem fair_take : Fair take fun l _ => l where
  eq h    := by simp only [take, h.level_eq]
  wf h    := h
  rate    := rfl
  burst   := rfl
  level _ := fun _ => rfl

-- For one key, the limiter is a bucket of tokens.
structure Refines (l : Limiter) (now : Time) (key : Bytes) (b : TokenBucket ℚ) : Prop where
  wf    : l.Wf now
  rate  : b.rate = l.rate
  burst : b.burst = l.burst
  level : ∀ t, Duration.seconds now ≤ t → l.level key t = b.level t

namespace Refines

theorem mono {now' : Time} (h : Refines l now key b) (hn : now ≤ now') : Refines l now' key b where
  wf         := h.wf.mono hn
  rate       := h.rate
  burst      := h.burst
  level t ht := h.level t <| (seconds_mono hn).trans ht

theorem ask_self {tidy : Limiter → Time → Limiter} (hf : Fair ask tidy) (h : Refines l now key b) : 
    (ask l now key).fst = (b.ask (Duration.seconds now)).fst ∧ 
    Refines (ask l now key).snd now key (b.ask (Duration.seconds now)).snd := by
  have hl := h.level _ le_rfl
  have hp (tokens : ℚ) (h0 : 0 ≤ tokens) : Refines ((tidy l now).put key ⟨tokens, now⟩) now key 
      { b with tokens := tokens, last := Duration.seconds now } := {
    wf        := hf.wf h.wf |>.put h0
    rate      := h.rate.trans hf.rate.symm
    burst     := h.burst.trans hf.burst.symm
    level t _ := by
      rw [level_put, hf.rate, hf.burst, ← h.rate, ← h.burst]
      rfl
  }
  rw [hf.eq h.wf, hl, TokenBucket.ask]
  split
  case isTrue     => exact ⟨rfl, hp _ <| hl ▸ h.wf.level_nonneg⟩
  case isFalse h1 => exact ⟨rfl, hp _ <| sub_nonneg.mpr <| not_lt.mp h1⟩

theorem ask_ne {tidy : Limiter → Time → Limiter} (hf : Fair ask tidy) (h : Refines l now key b) 
    (hk : key ≠ key') : Refines (ask l now key').snd now key b := by
  have hp (tokens : ℚ) (h0 : 0 ≤ tokens) : Refines ((tidy l now).put key' ⟨tokens, now⟩) now key b := {
    wf         := hf.wf h.wf |>.put h0
    rate       := h.rate.trans hf.rate.symm
    burst      := h.burst.trans hf.burst.symm
    level t ht := level_put_ne hk |>.trans (hf.level h.wf ht) |>.trans (h.level t ht)
  }
  rw [hf.eq h.wf]
  split
  case isTrue     => exact hp _ h.wf.level_nonneg
  case isFalse h1 => exact hp _ <| sub_nonneg.mpr <| not_lt.mp h1

-- The decisions for a key are those of its bucket.
theorem run_filter {tidy : Limiter → Time → Limiter} (hf : Fair ask tidy) (h : Refines l now key b) 
    (ht : Timely now as) : 
    (run ask l as).filter (fun d => d.fst.key = key) = 
      run (fun b now _ => b.ask (Duration.seconds now)) b (as.filter fun a => a.key = key) := by
  induction as generalizing l now b
  case nil          => rfl
  case cons a as hi =>
    have ⟨hn, ht⟩ := ht.tail
    have h := h.mono hn
    by_cases hk : a.key = key
    case pos =>
      obtain ⟨ha, hs⟩ := h.ask_self hf
      simp only [run, hk, decide_true, List.filter_cons_of_pos, ha, hi hs ht]
    case neg => simp only [run, hk, decide_false, Bool.false_eq_true, not_false_iff, List.filter_cons_of_neg, 
      hi (h.ask_ne hf <| Ne.symm hk) ht]

end Refines

theorem refines_new {rate burst : ℚ} (h : Limiter.Wf ⟨rate, burst, fun _ => none, now⟩ now) : 
    Refines ⟨rate, burst, fun _ => none, now⟩ now key (.full rate burst (Duration.seconds now)) where
  wf         := h
  rate       := rfl
  burst      := rfl
  level t ht := by
    have hr := mul_nonneg (sub_nonneg.mpr ht) h.rate
    exact (min_eq_left <| le_add_of_nonneg_right hr).symm

-- The limit for failed logins treats each key as if it were alone, and as if nothing were ever removed.
theorem isolated {start : Time} : 
    (run allow (newLimiter (1 / 5) 10 start) (asks start cs)).filter (fun d => d.fst.key = key) = 
      run take (newLimiter (1 / 5) 10 start) ((asks start cs).filter fun a => a.key = key) := by
  have he : newLimiter (1 / 5) 10 start = ⟨1 / 5, 10, fun _ => none, start⟩ := 
    newLimiter_eq (by norm_num) (by norm_num)
  have hr : Refines (newLimiter (1 / 5) 10 start) start key (.full (1 / 5) 10 (Duration.seconds start)) := 
    he ▸ refines_new (.empty (by norm_num) (by norm_num) auth_refill)
  have hk : ((asks start cs).filter fun a => a.key = key).filter (fun a => a.key = key) = 
      (asks start cs).filter fun a => a.key = key := by simp
  have ht : Timely start (asks start cs) := timely_asks
  rw [hr.run_filter fair_allow ht, ← hk, ← hr.run_filter fair_take ht.filter, hk]
  refine List.filter_eq_self.mpr fun d hd => ?_
  have hm := mem_run hd
  simpa using List.of_mem_filter hm

-- The bucket of every key is within its bounds.
structure Filled (l : Limiter) (now : Time) : Prop where
  wf     : l.Wf now
  tokens : ∀ k b, l.items k = some b → b.tokens ≤ l.burst

theorem level_le_burst : l.level key t ≤ l.burst := by
  rw [level]
  cases l.items key
  case none   => exact le_rfl
  case some b => exact TokenBucket.level_le_burst

theorem Filled.put {tokens : ℚ} (h : l.Filled now) (h0 : 0 ≤ tokens) (hb : tokens ≤ l.burst) : 
    (l.put key ⟨tokens, now⟩).Filled now where
  wf              := h.wf.put h0
  tokens k b hb' := by
    by_cases hk : k = key
    case pos =>
      simp only [Limiter.put, hk, Function.update_self, Option.some.injEq] at hb'
      exact hb' ▸ hb
    case neg =>
      simp only [Limiter.put, Function.update_of_ne hk] at hb'
      exact h.tokens k b hb'

theorem Filled.gcLocked (h : l.Filled now) : (l.gcLocked now).Filled now where
  wf            := h.wf.gcLocked
  tokens k b hb := by
    rw [gcLocked_burst]
    simp only [Limiter.gcLocked] at hb
    split at hb
    case isTrue  => exact h.tokens k b hb
    case isFalse => exact h.tokens k b (Option.filter_eq_some_iff.mp hb).left

theorem Filled.allow (h : l.Filled now) : (l.allow now key).snd.Filled now := by
  have hb : l.level key (Duration.seconds now) ≤ (l.gcLocked now).burst := 
    level_le_burst.trans gcLocked_burst.ge
  rw [h.wf.allow_eq]
  split
  case isTrue     => exact h.gcLocked.put h.wf.level_nonneg hb
  case isFalse h1 => exact h.gcLocked.put (sub_nonneg.mpr <| not_lt.mp h1) (by linarith)

theorem after_cons : l.after (a :: as) = (l.allow a.time a.key).snd.after as := by
  rw [after, List.foldl_cons, after]

theorem Filled.after (h : l.Filled now) (ht : Timely now as) : 
    ∃ now', (l.after as).Filled now' ∧ (l.after as).burst = l.burst := by
  induction as generalizing l now
  case nil          => exact ⟨now, h, rfl⟩
  case cons a as hi =>
    obtain ⟨hn, ht⟩ := ht.tail
    have h : l.Filled a.time := ⟨h.wf.mono hn, h.tokens⟩
    have ha : (l.allow a.time a.key).snd.Filled a.time := h.allow
    obtain ⟨now', hf, hb⟩ := hi ha ht
    rw [after_cons]
    exact ⟨now', hf, hb.trans h.wf.allow_burst⟩

-- Removals that come late enough cannot be noticed.
theorem limits_of_refill {rate burst : ℚ} {start : Time} (hr : 0 ≤ rate) (hb : 0 ≤ burst) 
    (hf : burst ≤ removalAge * rate) : 
    Limits ⟨rate, burst, fun _ => none, start⟩ rate burst (asks start cs) where
  window key := by
    have h : Refines ⟨rate, burst, fun _ => none, start⟩ start key 
        (.full rate burst (Duration.seconds start)) := 
      refines_new <| .empty hr hb hf
    have hs : (Duration.seconds start :: ((asks start cs).filter fun a => a.key = key).map fun a => 
        Duration.seconds a.time).Pairwise (· ≤ ·) := 
      timely_asks.filter.pairwise_seconds
    rw [passes_eq, h.run_filter fair_allow timely_asks, run_bucket]
    exact TokenBucket.bounded_passes hr hb hs
  tokens key b hk := by
    have h : Filled ⟨rate, burst, fun _ => none, start⟩ start := ⟨.empty hr hb hf, nofun⟩
    obtain ⟨now, h, he⟩ := h.after timely_asks
    exact ⟨h.wf.tokens key b hk, (h.tokens key b hk).trans he.le⟩

-- No removal is due.
def Fresh (l : Limiter) (now : Time) : Prop :=
  now.sub l.lastGC < gcInterval

-- What the next call for the key finds, if it comes at once.
def bucketAt (l : Limiter) (now : Time) (key : Bytes) : Bucket :=
  (l.items key).getD ⟨l.burst, now⟩

theorem gcLocked_of_fresh (h : l.Fresh now) : l.gcLocked now = l :=
  if_pos h

theorem fresh_gcLocked : (l.gcLocked now).Fresh now := by
  by_cases h : l.Fresh now
  case pos => rwa [gcLocked_of_fresh h]
  case neg =>
    have hs : (l.gcLocked now).lastGC = now := congrArg lastGC <| if_neg h
    rw [Fresh, hs, Time.sub_self]
    decide

theorem allow_gcLocked : (l.gcLocked now).allow now key = l.allow now key := by
  rw [allow_eq_take, allow_eq_take, gcLocked_of_fresh fresh_gcLocked]

theorem allow_of_fresh {n : Nat} (h : l.Fresh now) (hb : l.bucketAt now key = ⟨n + 1, now⟩) 
    (hn : (n + 1 : ℚ) ≤ l.burst) : l.allow now key = (true, l.put key ⟨n, now⟩) := by
  have h1 : ¬(n + 1 : ℚ) < 1 := by simp
  simp only [bucketAt] at hb
  simp [allow_eq_take, gcLocked_of_fresh h, take, hb, not_lt.mpr hn, h1]

theorem run_append : 
    run allow l (as ++ as') = run allow l as ++ run allow (l.after as) as' := by
  induction as generalizing l
  case nil          => rfl
  case cons a as hi => rw [List.cons_append, run, hi, run, after_cons, List.cons_append]

-- A key uses up its bucket all at once.
theorem run_replicate {n : Nat} (h : l.Fresh now) (hb : l.bucketAt now key = ⟨n, now⟩) 
    (hn : (n : ℚ) ≤ l.burst) : 
    run allow l (.replicate n ⟨now, key⟩) = .replicate n (⟨now, key⟩, true) ∧ 
    (l.after <| .replicate n ⟨now, key⟩).bucketAt now key = ⟨0, now⟩ ∧
    (l.after <| .replicate n ⟨now, key⟩).burst = l.burst ∧
    (l.after <| .replicate n ⟨now, key⟩).lastGC = l.lastGC := by
  induction n generalizing l
  case zero      => exact ⟨rfl, by simpa [after] using hb, rfl, rfl⟩
  case succ n hi =>
    push_cast at hb hn
    have ha := allow_of_fresh h hb hn
    have hp : (l.put key ⟨n, now⟩).bucketAt now key = ⟨n, now⟩ := by simp [bucketAt, Limiter.put]
    obtain ⟨hr, hz, hu, hg⟩ := hi (l := l.put key ⟨n, now⟩) h hp (by simp only [Limiter.put]; linarith)
    simp only [List.replicate_succ, run, after_cons, ha]
    exact ⟨by rw [hr], hz, hu, hg⟩

-- The bucket of a key is used up, is removed as soon as possible, and is used up again.
def twice (key : Bytes) (n : Nat) : List Call :=
  .replicate n ⟨0, key⟩ ++ ⟨maxIdle.toNat + 1, key⟩ :: .replicate (n - 1) ⟨0, key⟩

theorem asks_replicate {n : Nat} : 
    asks now (.replicate n ⟨0, key⟩ ++ cs) = .replicate n ⟨now, key⟩ ++ asks now cs := by
  induction n
  case zero      => rfl
  case succ n hi => simp [List.replicate_succ, asks, hi]

theorem asks_twice {n : Nat} (hn : 0 < n) : 
    asks now (twice key n) = 
      .replicate n ⟨now, key⟩ ++ .replicate n ⟨now + maxIdle + 1, key⟩ := by
  have hw : now + ((maxIdle.toNat + 1 : Nat) : Int) = now + maxIdle + 1 := 
    congrArg (now + ·) (by decide : ((maxIdle.toNat + 1 : Nat) : Int) = maxIdle + 1) |>.trans 
      (Int.add_assoc ..).symm
  have hr : asks (now + maxIdle + 1) (.replicate (n - 1) ⟨0, key⟩ ++ []) = 
      .replicate (n - 1) ⟨now + maxIdle + 1, key⟩ ++ [] :=
    asks_replicate
  have hs : (List.replicate n (⟨now + maxIdle + 1, key⟩ : Ask)) = 
      ⟨now + maxIdle + 1, key⟩ :: .replicate (n - 1) ⟨now + maxIdle + 1, key⟩ := by
    rw [← List.replicate_succ, Nat.sub_add_cancel hn]
  rw [twice, asks_replicate, asks, hw, hs]
  simpa [asks] using hr

theorem sub_later : (now + maxIdle + 1).sub now = maxIdle + 1 := by
  have hd : now + maxIdle + 1 - now = maxIdle + 1 := by
    rw [Int.add_assoc, add_sub_cancel_left]
  rw [Time.sub, hd]
  decide

-- The empty bucket is removed, so that the next one is full.
theorem bucketAt_removed (hg : l.lastGC = now) (hb : l.bucketAt now key = ⟨0, now⟩) (h0 : 0 < l.burst) : 
    (l.gcLocked <| now + maxIdle + 1).bucketAt (now + maxIdle + 1) key = 
      ⟨l.burst, now + maxIdle + 1⟩ := by
  have hi : l.items key = some ⟨0, now⟩ := by
    cases hi : l.items key
    case none   => 
      simp only [bucketAt, hi, Option.getD_none, Bucket.mk.injEq] at hb
      exact absurd hb.left h0.ne'
    case some b => simpa [bucketAt, hi] using hb
  have hf : ¬(now + maxIdle + 1).sub l.lastGC < gcInterval := by
    rw [hg, sub_later]
    decide
  have hn : ¬maxIdle + 1 ≤ maxIdle := by decide
  simp [bucketAt, gcLocked, if_neg hf, hi, sub_later, Option.filter, hn]

theorem run_gcLocked {n : Nat} : 
    run allow (l.gcLocked now) (.replicate n ⟨now, key⟩) = run allow l (.replicate n ⟨now, key⟩) := by
  cases n
  case zero   => rfl
  case succ n => simp only [List.replicate_succ, run, allow_gcLocked]

theorem run_twice {n : Nat} (hf : l.Fresh now) (hg : l.lastGC = now) (hb : l.bucketAt now key = ⟨n, now⟩) 
    (hn : l.burst = n) (h0 : 0 < n) : 
    run allow l (asks now <| twice key n) = 
      .replicate n (⟨now, key⟩, true) ++ .replicate n (⟨now + maxIdle + 1, key⟩, true) := by
  have ⟨hr, hz, hu, hl⟩ := run_replicate hf hb hn.ge
  have h1 := bucketAt_removed (hl.trans hg) hz (by rw [hu, hn]; exact Nat.cast_pos.mpr h0)
  rw [hu, hn] at h1
  have ⟨hr', _⟩ := run_replicate fresh_gcLocked h1 (by rw [gcLocked_burst, hu, hn])
  rw [asks_twice h0, run_append, hr, ← hr', run_gcLocked]

-- The second time comes before the bucket could have filled up again.
theorem not_limits_twice {rate : ℚ} {n : Nat} (h0 : 0 < n) (hf : removalAge * rate < n) : 
    ¬Limits ⟨rate, n, fun _ => none, now⟩ rate n (asks now <| twice key n) := by
  intro h
  have hw := h.window key (Duration.seconds now) removalAge (by decide +kernel)
  have hs : Limiter.Fresh ⟨rate, n, fun _ => none, now⟩ now := by
    rw [Fresh, Time.sub_self]
    decide
  have hl : Duration.seconds (now + maxIdle + 1) = Duration.seconds now + removalAge := by
    simp only [removalAge, Duration.seconds, Int.add_assoc, Int.cast_add, add_div]
  have hz : 0 ≤ removalAge := by decide +kernel
  rw [run_twice hs rfl rfl rfl h0] at hw
  simp [passes, hl, hz, List.countP_replicate] at hw
  linarith

section

variable {rate : ℚ} {burst : Int} {start : Time}

-- The limits hold if and only if a bucket fills up before it may be removed.
theorem limits_iff_refill (hr : 0 < rate) (hb : 1 ≤ burst) : 
    (∀ cs, Limits (newLimiter rate burst start) rate burst (asks start cs)) ↔ 
      burst ≤ removalAge * rate := by
  have he : newLimiter rate burst start = ⟨rate, burst, fun _ => none, start⟩ := newLimiter_eq hr hb
  constructor
  case mp  =>
    intro h
    by_contra hf
    have ⟨n, hn⟩ := Int.eq_ofNat_of_zero_le (Int.le_of_lt hb)
    subst hn
    have hf : removalAge * rate < n := by simpa using hf
    have h := h <| twice [] n
    rw [he] at h
    exact not_limits_twice (Int.natCast_pos.mp hb) hf (by simpa using h)
  case mpr =>
    intro hf _
    rw [he]
    exact limits_of_refill hr.le (by exact_mod_cast Int.le_of_lt hb) hf

theorem limits_iff_refill_default : 
    (∀ cs, Limits (newLimiter 40 80 Time.epoch) 40 (80 : Int) (asks Time.epoch cs)) ↔ 
      (80 : Int) ≤ removalAge * 40 :=
  limits_iff_refill (by norm_num) (by norm_num)

-- With one request per second and a burst of 500, a thousand pass in a little over five minutes.
theorem not_limits_five_minutes : 
    ¬∀ rate burst start cs, 0 < rate → 1 ≤ burst → 
      Limits (newLimiter rate burst start) rate burst (asks start cs) := by
  intro h
  have hl := h 1 500 Time.epoch (twice (str "127.0.0.1") 500) (by norm_num) (by norm_num)
  rw [newLimiter_eq (by norm_num) (by norm_num)] at hl
  refine not_limits_twice (n := 500) (by norm_num) ?_ hl
  norm_num [removalAge, Duration.seconds, maxIdle, gcInterval]

end
end Api.Limiter
