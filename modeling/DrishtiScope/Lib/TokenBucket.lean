import Mathlib.Algebra.Order.Field.Basic
import Mathlib.Data.List.Count
import Mathlib.Tactic.Linarith
import Mathlib.Tactic.Ring

-- A bucket of tokens that fills up at a constant rate. Times are numbers of any ordered field.
structure TokenBucket (K : Type*) where
  rate   : K
  burst  : K
  tokens : K
  last   : K

namespace TokenBucket

variable {K : Type*} [Field K] [LinearOrder K] [IsStrictOrderedRing K] {a b : TokenBucket K} 
         {t u v : K} {ts : List K}

def full (rate burst t : K) : TokenBucket K :=
  ⟨rate, burst, burst, t⟩

-- The tokens at a later time.
def level (b : TokenBucket K) (t : K) : K :=
  min b.burst (b.tokens + (t - b.last) * b.rate)

def refill (b : TokenBucket K) (t : K) : TokenBucket K :=
  { b with tokens := b.level t, last := t }

def charge (b : TokenBucket K) (t : K) : TokenBucket K :=
  { b with tokens := b.level t - 1, last := t }

-- A token is asked for, and taken if there is one.
def ask (b : TokenBucket K) (t : K) : Bool × TokenBucket K :=
  if b.level t < 1 then (false, b.refill t) else (true, b.charge t)

def decisions : TokenBucket K → List K → List (K × Bool)
  | _, []      => []
  | b, t :: ts => (t, (b.ask t).fst) :: decisions (b.ask t).snd ts

-- The times at which the answer is yes.
def passes (ds : List (K × Bool)) : List K :=
  ds.filterMap fun d => if d.snd then some d.fst else none

-- There is a token at each of the times, if one is taken each time.
def Conforms (b : TokenBucket K) : List K → Prop
  | []      => True
  | t :: ts => 1 ≤ b.level t ∧ (b.charge t).Conforms ts

-- Every window of length `v` has at most `burst + rate * v` of the times.
def Bounded (rate burst : K) (ts : List K) : Prop :=
  ∀ t v, 0 ≤ v → (ts.countP (fun u => t ≤ u ∧ u ≤ t + v) : K) ≤ burst + v * rate

omit [IsStrictOrderedRing K] in
theorem level_le_burst : b.level t ≤ b.burst :=
  min_le_left ..

theorem level_refill (hr : 0 ≤ b.rate) (ht : t ≤ u) : (b.refill t).level u = b.level u := by
  have hd : 0 ≤ (u - t) * b.rate := mul_nonneg (sub_nonneg.mpr ht) hr
  simp only [refill, level]
  rcases min_cases b.burst (b.tokens + (t - b.last) * b.rate) with ⟨h, hl⟩ | ⟨h, _⟩
  · rw [h, min_eq_left (by linarith), min_eq_left (by linarith)]
  · rw [h]
    congr 1
    ring

theorem level_charge_le (hr : 0 ≤ b.rate) (ht : t ≤ u) : (b.charge t).level u ≤ b.level u := by
  rw [← level_refill hr ht]
  simp only [charge, refill, level]
  apply min_le_min_left
  linarith

-- What is taken in the first `u - last` seconds comes from the tokens at the start.
def Covers (b : TokenBucket K) (ts : List K) : Prop :=
  ∀ u, b.last ≤ u → (ts.countP (· ≤ u) : K) ≤ b.tokens + (u - b.last) * b.rate

theorem Bounded.tail {rate burst : K} (h : Bounded rate burst (t :: ts)) : Bounded rate burst ts := by
  intro u v hv
  refine .trans (Nat.cast_le.mpr ?_) (h u v hv)
  exact List.Sublist.countP_le (List.sublist_cons_self ..)

omit [IsStrictOrderedRing K] in
theorem level_le : b.level t ≤ b.tokens + (t - b.last) * b.rate :=
  min_le_right ..

theorem Covers.cons (hr : 0 ≤ b.rate) (h0 : 0 ≤ b.tokens) (hs : ∀ u ∈ ts, t ≤ u) 
    (h : (b.charge t).Covers ts) : b.Covers (t :: ts) := by
  intro u hu
  by_cases ht : t ≤ u
  case pos =>
    have hm : (ts.countP (· ≤ u) : K) ≤ b.level t - 1 + (u - t) * b.rate := h u ht
    have hl : b.level t ≤ b.tokens + (t - b.last) * b.rate := level_le
    rw [List.countP_cons_of_pos (by simpa using ht), Nat.cast_add, Nat.cast_one]
    linarith
  case neg =>
    -- Nothing has been taken before the first time.
    have hz : (t :: ts).countP (· ≤ u) = 0 := by
      refine List.countP_eq_zero.mpr fun w hw => ?_
      cases List.mem_cons.mp hw
      case inl he => simpa [he] using ht
      case inr hm => simpa using (not_le.mp ht).trans_le (hs w hm)
    have hn := mul_nonneg (sub_nonneg.mpr hu) hr
    rw [hz, Nat.cast_zero]
    linarith

theorem Bounded.cons (hr : 0 ≤ b.rate) (hc : (b.charge t).Covers ts) (hb : Bounded b.rate b.burst ts) : 
    Bounded b.rate b.burst (t :: ts) := by
  intro u v hv
  by_cases ht : u ≤ t ∧ t ≤ u + v
  case pos =>
    have hm : (ts.countP (· ≤ u + v) : K) ≤ b.level t - 1 + (u + v - t) * b.rate := hc (u + v) ht.right
    have hw : ts.countP (fun w => u ≤ w ∧ w ≤ u + v) ≤ ts.countP (· ≤ u + v) := 
      List.countP_mono_left fun w _ => by simp
    have hw : (ts.countP (fun w => u ≤ w ∧ w ≤ u + v) : K) ≤ ts.countP (· ≤ u + v) := Nat.cast_le.mpr hw
    have hl : b.level t ≤ b.burst := level_le_burst
    have hd := mul_le_mul_of_nonneg_right (by linarith : u + v - t ≤ v) hr
    rw [List.countP_cons_of_pos (by simpa using ht), Nat.cast_add, Nat.cast_one]
    linarith
  case neg =>
    rw [List.countP_cons_of_neg (by simpa using ht)]
    exact hb u v hv

theorem one_le_level (hl : b.last ≤ t) (hc : b.Covers (t :: ts)) (hb : Bounded b.rate b.burst (t :: ts)) : 
    1 ≤ b.level t := by
  have h₁ := hb t 0 le_rfl
  have h₂ := hc t hl
  rw [List.countP_cons_of_pos (by simp), Nat.cast_add, Nat.cast_one] at h₁ h₂
  have h₃ : (0 : K) ≤ ts.countP (fun u => t ≤ u ∧ u ≤ t + 0) := Nat.cast_nonneg _
  have h₄ : (0 : K) ≤ ts.countP (· ≤ t) := Nat.cast_nonneg _
  apply le_min <;> linarith

theorem Covers.charge (hl : b.last ≤ t) (hs : ∀ u ∈ ts, t ≤ u) (hc : b.Covers (t :: ts)) 
    (hb : Bounded b.rate b.burst (t :: ts)) : (b.charge t).Covers ts := by
  intro u hu
  have hu : t ≤ u := hu
  have h₁ := hb t (u - t) (sub_nonneg.mpr hu)
  have h₂ := hc u (hl.trans hu)
  have hw : ts.countP (fun w => t ≤ w ∧ w ≤ t + (u - t)) = ts.countP (· ≤ u) := 
    List.countP_congr fun w hw => by simp [hs w hw]
  rw [List.countP_cons_of_pos (by simpa using hu), Nat.cast_add, Nat.cast_one, hw] at h₁
  rw [List.countP_cons_of_pos (by simpa using hu), Nat.cast_add, Nat.cast_one] at h₂
  simp only [TokenBucket.charge, level]
  rcases min_cases b.burst (b.tokens + (t - b.last) * b.rate) with ⟨h, _⟩ | ⟨h, _⟩
  all_goals
    rw [h]
    linarith

-- Along increasing times, what a bucket lets pass is what every window has room for.
theorem conforms_iff (hr : 0 ≤ b.rate) (hb : 0 ≤ b.burst) (h0 : 0 ≤ b.tokens) 
    (hs : (b.last :: ts).Pairwise (· ≤ ·)) : 
    b.Conforms ts ↔ b.Covers ts ∧ Bounded b.rate b.burst ts := by
  induction ts generalizing b
  case nil => 
    refine iff_of_true trivial ⟨fun u hu => ?_, fun t v hv => ?_⟩
    · have hn := mul_nonneg (sub_nonneg.mpr hu) hr
      simp only [List.countP_nil, Nat.cast_zero]
      linarith
    · have hn := mul_nonneg hv hr
      simp only [List.countP_nil, Nat.cast_zero]
      linarith
  case cons t ts hi =>
    have ⟨hl, hs⟩ := List.pairwise_cons.mp hs
    have hl : b.last ≤ t := hl t List.mem_cons_self
    have hm := (List.pairwise_cons.mp hs).left
    constructor
    case mp =>
      intro ⟨h1, hc⟩
      have ⟨hc, hw⟩ := (hi (b := b.charge t) hr hb (sub_nonneg.mpr h1) hs).mp hc
      exact ⟨.cons hr h0 hm hc, .cons hr hc hw⟩
    case mpr =>
      intro ⟨hc, hw⟩
      have h1 := one_le_level hl hc hw
      have hi := hi (b := b.charge t) hr hb (sub_nonneg.mpr h1) hs
      exact ⟨h1, hi.mpr ⟨hc.charge hl hm hw, hw.tail⟩⟩

theorem conforms_full_iff {rate burst : K} (hr : 0 ≤ rate) (hb : 0 ≤ burst) 
    (hs : (t :: ts).Pairwise (· ≤ ·)) : (full rate burst t).Conforms ts ↔ Bounded rate burst ts := by
  refine (conforms_iff hr hb hb hs).trans (and_iff_right_of_imp fun h u hu => ?_)
  have hm := (List.pairwise_cons.mp hs).left
  have hw : ts.countP (fun w => t ≤ w ∧ w ≤ t + (u - t)) = ts.countP (· ≤ u) := 
    List.countP_congr fun w hw => by simp [hm w hw]
  exact hw ▸ h t (u - t) (sub_nonneg.mpr hu)

omit [IsStrictOrderedRing K] in
theorem passes_sublist : (passes (b.decisions ts)).Sublist ts := by
  induction ts generalizing b
  case nil          => exact .refl _
  case cons t ts hi =>
    rw [decisions, passes, List.filterMap_cons]
    split
    case h_1 => exact .cons _ hi
    case h_2 u hu =>
      have he : t = u := by
        split at hu
        case isTrue  => exact Option.some.inj hu
        case isFalse => contradiction
      exact he ▸ .cons_cons _ hi

-- A refill changes nothing that comes later.
theorem conforms_refill (hr : 0 ≤ b.rate) (hs : ∀ u ∈ ts, t ≤ u) : 
    (b.refill t).Conforms ts ↔ b.Conforms ts := by
  cases ts
  case nil       => rfl
  case cons u us =>
    have hl : (b.refill t).level u = b.level u := level_refill hr (hs u List.mem_cons_self)
    have hc : (b.refill t).charge u = b.charge u := by
      simp only [charge, hl]
      rfl
    rw [Conforms, Conforms, hl, hc]

theorem conforms_passes (hr : 0 ≤ b.rate) (hs : ts.Pairwise (· ≤ ·)) : 
    b.Conforms (passes (b.decisions ts)) := by
  induction ts generalizing b
  case nil          => trivial
  case cons t ts hi =>
    have ⟨ht, hs⟩ := List.pairwise_cons.mp hs
    by_cases h1 : b.level t < 1
    case pos =>
      have hm : ∀ u ∈ passes ((b.refill t).decisions ts), t ≤ u := 
        fun u hu => ht u <| passes_sublist.subset hu
      have hp : passes (b.decisions (t :: ts)) = passes ((b.refill t).decisions ts) := by
        simp [decisions, ask, h1, passes]
      rw [hp, ← conforms_refill hr hm]
      exact hi hr hs
    case neg =>
      have hp : passes (b.decisions (t :: ts)) = t :: passes ((b.charge t).decisions ts) := by
        simp [decisions, ask, h1, passes]
      exact hp ▸ ⟨not_lt.mp h1, hi hr hs⟩

-- A bucket that starts full keeps the bound of every window.
theorem bounded_passes {rate burst : K} (hr : 0 ≤ rate) (hb : 0 ≤ burst) 
    (hs : (t :: ts).Pairwise (· ≤ ·)) : 
    Bounded rate burst (passes ((full rate burst t).decisions ts)) := by
  have ⟨ht, hs'⟩ := List.pairwise_cons.mp hs
  refine conforms_full_iff hr hb (t := t) ?_ |>.mp <| conforms_passes hr hs'
  refine List.pairwise_cons.mpr ⟨fun u hu => ht u <| passes_sublist.subset hu, ?_⟩
  exact hs'.sublist passes_sublist

end TokenBucket
