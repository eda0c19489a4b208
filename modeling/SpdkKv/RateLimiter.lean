import Mathlib.Data.List.Chain
import SpdkKv.Types

/-!
# The Rate Limiter of Compaction

`RateLimiter::allow` of `compaction.cpp` refills a bucket of tokens by the whole intervals
since the last call, and takes the time of the call for the time of the refill. What is left
of an interval is dropped at every call, so a limiter that is asked more often than once per
interval is not refilled at all. `CompactionScheduler::poll` asks it in every turn of the
engine's polling loop.

## Main results

* `RateLimiter.granted_eq`: how many calls are granted.
* `RateLimiter.rate_kept_iff`: **the rate is kept exactly when** the gaps shorter than an
  interval add up to less than one interval more than the bucket holds.
* `CompactionScheduler.polled_eq_granted`: under a steady light load every poll asks at the
  same rate.
* `RateLimiter.fast_polling_starves`: a limiter that is polled fast.
-/

namespace SpdkKv

/-- The limiter; times are in nanoseconds. -/
structure RateLimiter where
  maxIops : ℕ
  tokens : ℕ
  lastUpdateNs : ℕ
  tokenIntervalNs : ℕ
  deriving DecidableEq, Repr

/-- The time in which a token is earned. -/
def tokenInterval (maxIops : ℕ) : ℕ := 1000000000 / maxIops

namespace RateLimiter

/-- The constructor. -/
def create (maxIops : ℕ) : RateLimiter := ⟨maxIops, maxIops, 0, tokenInterval maxIops⟩

/-- `set_rate`. -/
def setRate (self : RateLimiter) (iops : ℕ) : RateLimiter :=
  { self with
    maxIops := iops
    tokenIntervalNs := if 0 < iops then tokenInterval iops else self.tokenIntervalNs }

/-- `allow`, called at a time. -/
def allow (self : RateLimiter) (nowNs : ℕ) : RateLimiter × Bool :=
  if self.maxIops = 0 then (self, true)
  else
    let tokens :=
      if 0 < self.lastUpdateNs then
        let elapsed := nowNs - self.lastUpdateNs
        min (self.tokens + elapsed / self.tokenIntervalNs) self.maxIops
      else self.tokens
    if 0 < tokens then
      ({ self with tokens := tokens - 1, lastUpdateNs := nowNs }, true)
    else ({ self with tokens := tokens, lastUpdateNs := nowNs }, false)

/-- The number of calls that are granted, of calls at a list of times. -/
def granted (self : RateLimiter) : List ℕ → ℕ
  | [] => 0
  | t :: ts => (self.allow t).2.toNat + (self.allow t).1.granted ts

/-- A call changes neither the rate nor the interval. -/
theorem allow_keeps (self : RateLimiter) (nowNs : ℕ) :
    (self.allow nowNs).1.maxIops = self.maxIops ∧
      (self.allow nowNs).1.tokenIntervalNs = self.tokenIntervalNs := by
  rw [allow]
  dsimp only
  split_ifs <;> exact ⟨rfl, rfl⟩

/-- Setting the rate that is set already changes nothing. -/
theorem setRate_of_rate {self : RateLimiter} {iops : ℕ} (hpos : 0 < iops)
    (hrate : self.maxIops = iops) (hinterval : self.tokenIntervalNs = tokenInterval iops) :
    self.setRate iops = self := by
  rw [setRate, if_pos hpos, ← hinterval, ← hrate]

/-! ### Gaps -/

/-- The calls that come a whole interval after the one before. -/
def fullGaps (interval : ℕ) : ℕ → List ℕ → ℕ
  | _, [] => 0
  | last, t :: ts => (if t - last < interval then 0 else 1) + fullGaps interval t ts

/-- The calls that come sooner, ... -/
def shortGaps (interval : ℕ) : ℕ → List ℕ → ℕ
  | _, [] => 0
  | last, t :: ts => (if t - last < interval then 1 else 0) + shortGaps interval t ts

/-- ... and the time between them and the calls before them. -/
def shortTime (interval : ℕ) : ℕ → List ℕ → ℕ
  | _, [] => 0
  | last, t :: ts => (if t - last < interval then t - last else 0) + shortTime interval t ts

/-- The time of the last call. -/
def lastTime : ℕ → List ℕ → ℕ
  | last, [] => last
  | _, t :: ts => lastTime t ts

/-- Time does not run backwards, and no gap is longer than an interval. -/
def Polled (interval : ℕ) (times : List ℕ) : Prop :=
  times.IsChain fun last t => last ≤ t ∧ t - last ≤ interval

variable {interval last : ℕ} {ts : List ℕ}

/-- The time that passes is that of the full and of the short gaps. -/
theorem lastTime_eq (h : Polled interval (last :: ts)) :
    lastTime last ts = last + fullGaps interval last ts * interval + shortTime interval last ts := by
  induction ts generalizing last with
  | nil => simp [lastTime, fullGaps, shortTime]
  | cons t ts ih =>
      obtain ⟨⟨hle, hgap⟩, htail⟩ := List.isChain_cons_cons.mp h
      rw [lastTime, ih htail, fullGaps, shortTime]
      split_ifs with hshort
      · rw [Nat.zero_add]
        omega
      · have hfull : t - last = interval := le_antisymm hgap (not_lt.mp hshort)
        rw [Nat.add_mul, Nat.one_mul]
        omega

/-- A short gap is shorter than an interval. -/
theorem shortTime_le (interval last : ℕ) (ts : List ℕ) :
    shortTime interval last ts ≤ shortGaps interval last ts * (interval - 1) := by
  induction ts generalizing last with
  | nil => exact Nat.zero_le _
  | cons t ts ih =>
      have htail := ih t
      rw [shortTime, shortGaps]
      split_ifs with hshort
      · rw [Nat.add_mul, Nat.one_mul]
        omega
      · rwa [Nat.zero_add, Nat.zero_add]

/-! ### What is granted -/

variable {rate tokens : ℕ}

/-- **How many calls are granted** after a first one: those after a full gap, and of the
others as many as there are tokens. -/
theorem granted_eq (hlast : 0 < last) (hinterval : 0 < interval) (htokens : tokens < rate)
    (h : Polled interval (last :: ts)) :
    granted ⟨rate, tokens, last, interval⟩ ts =
      fullGaps interval last ts + min tokens (shortGaps interval last ts) := by
  induction ts generalizing last tokens with
  | nil => simp [granted, fullGaps, shortGaps]
  | cons t ts ih =>
      obtain ⟨⟨hle, hgap⟩, htail⟩ := List.isChain_cons_cons.mp h
      have hpos : 0 < t := hlast.trans_le hle
      have hrate : rate ≠ 0 := by omega
      rw [granted, allow, if_neg hrate]
      dsimp only
      rw [if_pos hlast, fullGaps, shortGaps]
      by_cases hshort : t - last < interval
      · rw [if_pos hshort, if_pos hshort, Nat.div_eq_of_lt hshort, Nat.add_zero,
          min_eq_left htokens.le]
        by_cases hsome : 0 < tokens
        · rw [if_pos hsome, ih hpos (by omega) htail, Bool.toNat_true]
          omega
        · rw [if_neg hsome, ih hpos htokens htail, Bool.toNat_false]
          omega
      · -- a full gap earns the token that the call takes
        have hfull : t - last = interval := le_antisymm hgap (not_lt.mp hshort)
        rw [if_neg hshort, if_neg hshort, hfull, Nat.div_self hinterval,
          min_eq_left (Nat.succ_le_of_lt htokens), if_pos (Nat.succ_pos tokens),
          Nat.succ_sub_one, ih hpos htokens htail, Bool.toNat_true]
        omega

/-- What a new limiter grants. -/
theorem granted_create (hrate : 0 < rate) (hinterval : 0 < tokenInterval rate) {t : ℕ}
    (ht : 0 < t) (h : Polled (tokenInterval rate) (t :: ts)) :
    (create rate).granted (t :: ts) = 1 + fullGaps (tokenInterval rate) t ts +
      min (rate - 1) (shortGaps (tokenInterval rate) t ts) := by
  rw [granted, create, allow, if_neg hrate.ne']
  dsimp only
  rw [if_neg (lt_irrefl 0), if_pos hrate,
    granted_eq ht hinterval (Nat.sub_lt hrate Nat.one_pos) h, Bool.toNat_true]
  omega

/-- **When the rate is kept**: of calls at most an interval apart, no more are granted than the
bucket holds and the time earns, and at least as many as the time earns, exactly when the gaps
shorter than an interval add up to less than one interval more than the bucket holds. -/
theorem rate_kept_iff (hrate : 1 ≤ rate) (hmax : rate ≤ 10 ^ 9) {t : ℕ} (ht : 0 < t)
    (h : Polled (tokenInterval rate) (t :: ts)) :
    (create rate).granted (t :: ts) ≤ rate + (lastTime t ts - t) / tokenInterval rate ∧
        (lastTime t ts - t) / tokenInterval rate ≤ (create rate).granted (t :: ts) ↔
      shortTime (tokenInterval rate) t ts < (rate + 1) * tokenInterval rate := by
  have hinterval : 0 < tokenInterval rate := Nat.div_pos hmax hrate
  have hgranted := granted_create hrate hinterval ht h
  have hlast := lastTime_eq h
  have hshort := shortTime_le (tokenInterval rate) t ts
  generalize tokenInterval rate = interval at *
  have hearned : (lastTime t ts - t) / interval =
      fullGaps interval t ts + shortTime interval t ts / interval := by
    rw [hlast, Nat.add_assoc, Nat.add_sub_cancel_left, Nat.mul_comm,
      Nat.mul_add_div hinterval]
  have hfew : shortTime interval t ts / interval ≤ shortGaps interval t ts :=
    Nat.div_le_of_le_mul (hshort.trans (by
      rw [Nat.mul_comm]
      exact Nat.mul_le_mul_right _ (Nat.sub_le _ _)))
  rw [hgranted, hearned, ← Nat.div_lt_iff_lt_mul hinterval]
  generalize shortTime interval t ts / interval = earned at hfew ⊢
  omega

/-- Polled once per interval, the rate is kept. -/
theorem rate_kept_steady : (create 1000).granted [1, 1000001, 2000001] ≤ 1000 + 2000000 / 1000000 ∧
    2000000 / 1000000 ≤ (create 1000).granted [1, 1000001, 2000001] :=
  (rate_kept_iff (by decide) (by decide) Nat.one_pos (by
    rw [Polled]
    simp [tokenInterval])).mpr (by decide)

/-- **A limiter that is polled fast** grants what its bucket holds and nothing more: one
operation per second, asked every third of a second for three seconds. -/
theorem fast_polling_starves :
    let times := (List.range 10).map fun i => 1 + i * 333333334
    Polled (tokenInterval 1) times ∧ (create 1).granted times = 1 ∧
      (lastTime 1 times.tail - 1) / tokenInterval 1 = 3 := by
  refine ⟨?_, by decide, by decide⟩
  rw [Polled]
  decide

end RateLimiter

/-! ### The scheduler -/

/-- The rates and thresholds of the scheduler. -/
def kMaxIopsPerSec : ℕ := 1000
def kPauseThreshold : ℕ := 1000
def kResumeThreshold : ℕ := 100
def kThrottleThreshold : ℕ := 500

/-- The part of `CompactionScheduler` that decides whether compaction may go on. -/
structure CompactionScheduler where
  rateLimiter : RateLimiter
  compactionPaused : Bool
  pendingForegroundCount : ℕ
  deriving DecidableEq, Repr

/-- The rate at a load. -/
def loadRate (pendingForegroundCount : ℕ) : ℕ :=
  if kThrottleThreshold ≤ pendingForegroundCount then kMaxIopsPerSec / 4
  else if kResumeThreshold ≤ pendingForegroundCount then kMaxIopsPerSec / 2
  else kMaxIopsPerSec

namespace CompactionScheduler

/-- The limiter is asked. -/
def askLimiter (self : CompactionScheduler) (nowNs : ℕ) : CompactionScheduler × Bool :=
  let r := self.rateLimiter.allow nowNs
  ({ self with rateLimiter := r.1 }, r.2)

/-- The beginning of `poll`; the flag says whether it goes on to the tasks. -/
def poll (self : CompactionScheduler) (nowNs : ℕ) : CompactionScheduler × Bool :=
  if self.compactionPaused then
    if self.pendingForegroundCount ≤ kResumeThreshold then
      { self with compactionPaused := false }.askLimiter nowNs
    else (self, false)
  else if kPauseThreshold ≤ self.pendingForegroundCount then
    ({ self with compactionPaused := true }, false)
  else
    { self with rateLimiter := self.rateLimiter.setRate (loadRate self.pendingForegroundCount)
      }.askLimiter nowNs

/-- The number of polls that go on, of polls at a list of times under a steady load. -/
def polled (self : CompactionScheduler) : List ℕ → ℕ
  | [] => 0
  | t :: ts => (self.poll t).2.toNat + (self.poll t).1.polled ts

theorem loadRate_pos (pendingForegroundCount : ℕ) : 0 < loadRate pendingForegroundCount := by
  rw [loadRate]
  split_ifs <;> decide

/-- **Under a steady load every poll asks at the same rate**, so what the limiter grants is what
the scheduler runs. -/
theorem polled_eq_granted {self : CompactionScheduler} (hrun : self.compactionPaused = false)
    (hload : self.pendingForegroundCount < kPauseThreshold)
    (hrate : self.rateLimiter.maxIops = loadRate self.pendingForegroundCount)
    (hinterval : self.rateLimiter.tokenIntervalNs =
      tokenInterval (loadRate self.pendingForegroundCount)) (times : List ℕ) :
    self.polled times = self.rateLimiter.granted times := by
  induction times generalizing self with
  | nil => rfl
  | cons t ts ih =>
      obtain ⟨hmax, hearn⟩ := self.rateLimiter.allow_keeps t
      have hpoll : self.poll t = self.askLimiter t := by
        rw [poll, hrun, if_neg Bool.false_ne_true, if_neg (not_le.mpr hload),
          RateLimiter.setRate_of_rate (loadRate_pos _) hrate hinterval, ← hrun]
      rw [polled, RateLimiter.granted, hpoll]
      exact congrArg (_ + ·) (@ih (self.askLimiter t).1 hrun hload (hmax.trans hrate)
        (hearn.trans hinterval))

end CompactionScheduler

end SpdkKv
