import Mathlib.Algebra.Field.Rat
import Mathlib.Algebra.Order.Ring.NNRat
import StreamMix.Lib.Pacing

/-! The playback scheduler of a track, in exact seconds. -/

namespace StreamMix.Extension

open Pacing

def frameDuration : ℚ≥0 := 1 / 50

/-- A buffer and the time that its source was started for. -/
structure Source (β : Type u) where
  buffer : β
  start : ℚ≥0

structure ScheduledLane (β : Type u) where
  playCursor : ℚ≥0
  liveSources : List (Source β)

def createScheduler : ScheduledLane β := ⟨0, []⟩

namespace ScheduledLane

/-- A buffer arrives at a context time; the source that is started, and the lane after it. -/
def enqueue (lane : ScheduledLane β) (now : ℚ≥0) (buf : β) : Source β × ScheduledLane β :=
  let playCursor :=
    if lane.playCursor < now + frameDuration then now + frameDuration else lane.playCursor
  let src : Source β := ⟨buf, playCursor⟩
  (src, ⟨playCursor + frameDuration, lane.liveSources ++ [src]⟩)

/-- The source at an index has ended. -/
def onEnded (lane : ScheduledLane β) (idx : Nat) : ScheduledLane β :=
  { lane with liveSources := lane.liveSources.eraseIdx idx }

def close (lane : ScheduledLane β) : ScheduledLane β := { lane with liveSources := [] }

/-- The lane before call `n` of `enqueue`. -/
def before (now : Nat → ℚ≥0) (buf : Nat → β) : Nat → ScheduledLane β
  | 0 => createScheduler
  | n + 1 => ((before now buf n).enqueue (now n) (buf n)).2

/-- The source that call `n` starts. -/
def started (now : Nat → ℚ≥0) (buf : Nat → β) (n : Nat) : Source β :=
  ((before now buf n).enqueue (now n) (buf n)).1

/-- Call `n` finds the cursor behind the time. -/
def Rebases (now : Nat → ℚ≥0) (buf : Nat → β) (n : Nat) : Prop :=
  (before now buf n).playCursor < now n + frameDuration

variable {now : Nat → ℚ≥0} {buf : Nat → β}

theorem start_enqueue (lane : ScheduledLane β) (t : ℚ≥0) (b : β) :
    (lane.enqueue t b).1.start = max lane.playCursor (t + frameDuration) :=
  (max_def_lt _ _).symm

theorem playCursor_before (n : Nat) :
    (before now buf (n + 1)).playCursor = (started now buf n).start + frameDuration := rfl

/-- The scheduler paces slots that are released one frame after their arrival. -/
theorem start_started (n : Nat) :
    (started now buf n).start = begins frameDuration (fun i => now i + frameDuration) n := by
  induction n with
  | zero => exact (start_enqueue _ _ _).trans (max_eq_right zero_le)
  | succ n ih => rw [started, start_enqueue, playCursor_before, ih, begins]

theorem start_add_le {m n : Nat} (h : m < n) :
    (started now buf m).start + frameDuration ≤ (started now buf n).start := by
  induction n, h using Nat.le_induction with
  | base =>
    rw [start_started, start_started]
    exact begins_add_le _ _ m
  | succ n _ ih =>
    rw [start_started (n + 1)]
    rw [start_started n] at ih
    exact ih.trans (le_self_add.trans (begins_add_le _ _ n))

theorem start_of_not_rebases {m n : Nat} (h : m ≤ n)
    (hquiet : ∀ k, m < k → k ≤ n → ¬ Rebases now buf k) :
    (started now buf n).start =
      (started now buf m).start + ((n - m : Nat) : ℚ≥0) * frameDuration := by
  rw [start_started, start_started, ← nsmul_eq_mul]
  apply begins_eq_add_nsmul _ _ h
  intro k hk hlt
  have hready := hquiet (k + 1) (Nat.lt_succ_of_le hk) hlt
  rw [Rebases, playCursor_before, start_started, not_lt] at hready
  exact hready

/-- For every sequence of arrivals: the start of a buffer is the latest that an arrival up to its
own and the frames behind it call for.  So no two buffers overlap, each waits for a frame at
least, and between two rebases there is no gap. -/
theorem start_closed_form (now : Nat → ℚ≥0) (buf : Nat → β) (n : Nat) :
    (started now buf n).start = (Finset.range (n + 1)).sup' Finset.nonempty_range_add_one
        (fun i => now i + ((n - i + 1 : Nat) : ℚ≥0) * frameDuration) ∧
      (∀ m < n, (started now buf m).start + frameDuration ≤ (started now buf n).start) ∧
      now n + frameDuration ≤ (started now buf n).start ∧
      ∀ m ≤ n, (∀ k, m < k → k ≤ n → ¬ Rebases now buf k) →
        (started now buf n).start =
          (started now buf m).start + ((n - m : Nat) : ℚ≥0) * frameDuration := by
  refine ⟨?_, fun m h => start_add_le h, ?_, fun m h => start_of_not_rebases h⟩
  · rw [start_started, begins_eq_sup']
    congr 1
    funext i
    rw [← nsmul_eq_mul, succ_nsmul', add_assoc]
  · rw [start_started]
    exact release_le_begins frameDuration (fun i => now i + frameDuration) n

end ScheduledLane

end StreamMix.Extension
