import Mathlib.Algebra.Order.Ring.Int
import Mathlib.Logic.Function.Basic
import Mathlib.Tactic.SplitIfs
import StreamMix.Lib.Machine

/-! The limiter of failed publisher tokens.  Durations and clock readings are
nanoseconds; the code compares milliseconds. -/

namespace StreamMix.Relay

/-- `time.Time.UnixMilli` rounds down. -/
def unixMilli (now : Int) : Int := now / 1000000

/-- `time.Duration.Milliseconds` rounds towards zero. -/
def milliseconds (d : Int) : Int := d.tdiv 1000000

structure AuthEntry where
  count : Nat
  firstFailMS : Int
  bannedUntilMS : Int

structure FailedAuthLimiter where
  threshold : Int
  window : Int
  cooldown : Int
  entries : List UInt8 → Option AuthEntry

namespace FailedAuthLimiter

def second : Int := 1000000000

def new : FailedAuthLimiter := ⟨5, 60 * second, 300 * second, fun _ => none⟩

def set (l : FailedAuthLimiter) (ip : List UInt8) (e : Option AuthEntry) : FailedAuthLimiter :=
  { l with entries := Function.update l.entries ip e }

@[simp] theorem set_entries_self (l : FailedAuthLimiter) (ip : List UInt8)
    (e : Option AuthEntry) : (l.set ip e).entries ip = e := Function.update_self ..

def allowed (l : FailedAuthLimiter) (ip : List UInt8) (now : Int) : Bool × FailedAuthLimiter :=
  match l.entries ip with
  | none => (true, l)
  | some e =>
    if e.bannedUntilMS ≠ 0 ∧ unixMilli now < e.bannedUntilMS then (false, l)
    else if e.bannedUntilMS ≠ 0 ∧ unixMilli now ≥ e.bannedUntilMS then (true, l.set ip none)
    else (true, l)

def recordFailure (l : FailedAuthLimiter) (ip : List UInt8) (now : Int) : FailedAuthLimiter :=
  match l.entries ip with
  | none => l.set ip (some ⟨1, unixMilli now, 0⟩)
  | some e =>
    if unixMilli now - e.firstFailMS > milliseconds l.window then
      l.set ip (some ⟨1, unixMilli now, 0⟩)
    else
      l.set ip (some { e with
        count := e.count + 1
        bannedUntilMS :=
          if e.count + 1 ≥ l.threshold then unixMilli now + milliseconds l.cooldown
          else e.bannedUntilMS })

def recordSuccess (l : FailedAuthLimiter) (ip : List UInt8) : FailedAuthLimiter := l.set ip none

/-- A failure at this time is added to the count of an entry; the others start a new
entry or restart an expired window. -/
def Counts (l : FailedAuthLimiter) (ip : List UInt8) (now : Int) : Prop :=
  ∃ e, l.entries ip = some e ∧ unixMilli now - e.firstFailMS ≤ milliseconds l.window

instance (l : FailedAuthLimiter) (ip : List UInt8) (now : Int) : Decidable (l.Counts ip now) :=
  match h : l.entries ip with
  | none => .isFalse (by simp [Counts, h])
  | some e => decidable_of_iff (unixMilli now - e.firstFailMS ≤ milliseconds l.window)
      (by simp [Counts, h])

end FailedAuthLimiter

/-- A failure with the way the limiter took it. -/
structure Failure where
  time : Int
  counted : Bool

/-- The limiter in a run.  `failures` is a ghost: the failures of an address since its last
success, the latest first. -/
structure Limited where
  limiter : FailedAuthLimiter
  clock : Int
  failures : List UInt8 → List Failure

inductive LimiterAct
  | allowed (ip : List UInt8) (now : Int)
  | recordFailure (ip : List UInt8) (now : Int)
  | recordSuccess (ip : List UInt8)

namespace Limited

def fail (s : Limited) (ip : List UInt8) (now : Int) : Limited where
  limiter := s.limiter.recordFailure ip now
  clock := now
  failures := Function.update s.failures ip
    (⟨now, decide (s.limiter.Counts ip now)⟩ :: s.failures ip)

def step (s : Limited) : LimiterAct → Option Limited
  | .allowed ip now =>
    if s.clock ≤ now then some { s with limiter := (s.limiter.allowed ip now).2, clock := now }
    else none
  | .recordFailure ip now => if s.clock ≤ now then some (s.fail ip now) else none
  | .recordSuccess ip =>
    some { s with
      limiter := s.limiter.recordSuccess ip
      failures := Function.update s.failures ip [] }

/-- Runs of a limiter without entries, from a first reading of the clock. -/
def machine (threshold window cooldown start : Int) : Machine Limited LimiterAct where
  init := ⟨⟨threshold, window, cooldown, fun _ => none⟩, start, fun _ => []⟩
  step := step

/-- How many of the latest failures in a row were counted. -/
def streak (fs : List Failure) : Nat := (fs.takeWhile Failure.counted).length

theorem streak_cons (f : Failure) (fs : List Failure) :
    streak (f :: fs) = if f.counted then streak fs + 1 else 0 := by
  cases hf : f.counted <;> simp [streak, hf]

theorem le_streak_iff (fs : List Failure) (h : n ≤ fs.length) :
    n ≤ streak fs ↔ ∀ f ∈ fs.take n, f.counted = true := by
  induction fs generalizing n with
  | nil =>
    cases Nat.le_zero.mp h
    simp
  | cons f fs ih =>
    cases n with
    | zero => simp
    | succ n =>
      have ih := ih (Nat.le_of_succ_le_succ h)
      cases hf : f.counted <;> simp [streak_cons, hf, ih]

/-- An entry counts the failures since the one that opened its window, and is banned only
from the threshold on. -/
structure Records (threshold : Int) (fs : List Failure) (e : AuthEntry) : Prop where
  count : e.count = streak fs + 1
  ban : e.bannedUntilMS ≠ 0 → threshold ≤ e.count

def Sound (s : Limited) : Prop :=
  ∀ ip e, s.limiter.entries ip = some e → Records s.limiter.threshold (s.failures ip) e

/-- Every operation writes the entry and the failures of one address. -/
theorem Sound.set (h : Sound s) (ip : List UInt8) (e : Option AuthEntry) (fs : List Failure)
    (he : ∀ e', e = some e' → Records s.limiter.threshold fs e') :
    Sound ⟨s.limiter.set ip e, now, Function.update s.failures ip fs⟩ := by
  intro jp e' he'
  simp only [FailedAuthLimiter.set] at he' ⊢
  rcases eq_or_ne jp ip with rfl | hne
  · rw [Function.update_self] at he' ⊢
    exact he e' he'
  · rw [Function.update_of_ne hne] at he' ⊢
    exact h jp e' he'

/-- The entry after a failure. -/
theorem recordFailure_cases (l : FailedAuthLimiter) (ip : List UInt8) (now : Int) :
    (¬ l.Counts ip now ∧ l.recordFailure ip now = l.set ip (some ⟨1, unixMilli now, 0⟩)) ∨
      ∃ e, l.entries ip = some e ∧ l.Counts ip now ∧
        l.recordFailure ip now = l.set ip (some { e with
          count := e.count + 1
          bannedUntilMS :=
            if e.count + 1 ≥ l.threshold then unixMilli now + milliseconds l.cooldown
            else e.bannedUntilMS }) := by
  cases he : l.entries ip with
  | none =>
    left
    simp [FailedAuthLimiter.Counts, FailedAuthLimiter.recordFailure, he]
  | some e =>
    rcases Int.lt_or_le (milliseconds l.window) (unixMilli now - e.firstFailMS) with hlt | hle
    · left
      refine ⟨?_, by simp only [FailedAuthLimiter.recordFailure, he, gt_iff_lt, hlt, if_true]⟩
      rintro ⟨e', he', hle⟩
      cases he.symm.trans he'
      exact absurd hlt (Int.not_lt.mpr hle)
    · right
      refine ⟨e, rfl, ⟨e, he, hle⟩, ?_⟩
      simp [FailedAuthLimiter.recordFailure, he, Int.not_lt.mpr hle]

theorem threshold_recordFailure (l : FailedAuthLimiter) (ip : List UInt8) (now : Int) :
    (l.recordFailure ip now).threshold = l.threshold := by
  rcases recordFailure_cases l ip now with ⟨_, heq⟩ | ⟨e, _, _, heq⟩ <;> rw [heq] <;> rfl

theorem allowed_cases (l : FailedAuthLimiter) (ip : List UInt8) (now : Int) :
    (l.allowed ip now).2 = l ∨ (l.allowed ip now).2 = l.set ip none := by
  simp only [FailedAuthLimiter.allowed]
  split
  · left
    rfl
  · split_ifs
    · left
      rfl
    · right
      rfl
    · left
      rfl

theorem Sound.fail (h : Sound s) (ip : List UInt8) (now : Int) : Sound (s.fail ip now) := by
  rcases recordFailure_cases s.limiter ip now with ⟨hcounts, heq⟩ | ⟨e, he, hcounts, heq⟩
  · rw [Limited.fail, heq]
    apply h.set
    rintro e' ⟨⟩
    exact ⟨by simp [streak_cons, hcounts], by simp⟩
  · obtain ⟨hcount, hban⟩ := h ip e he
    rw [Limited.fail, heq]
    apply h.set
    rintro e' ⟨⟩
    refine ⟨by simp [streak_cons, hcounts, hcount], ?_⟩
    split_ifs with hge
    · intro _
      exact_mod_cast hge
    · intro hne
      have := hban hne
      simp only [Nat.cast_add, Nat.cast_one]
      omega

theorem sound_of_reachable (h : (machine threshold window cooldown start).Reachable s) :
    Sound s := by
  refine h.invariant ?_ ?_
  · intro ip e he
    cases he
  · intro s a t hs hstep
    cases a with
    | allowed ip now =>
      simp only [machine, step, Option.ite_none_right_eq_some, Option.some.injEq] at hstep
      obtain ⟨_, rfl⟩ := hstep
      rcases allowed_cases s.limiter ip now with heq | heq
      · rw [heq]
        exact hs
      · rw [heq, ← Function.update_eq_self ip s.failures]
        exact hs.set ip none _ (by simp)
    | recordFailure ip now =>
      simp only [machine, step, Option.ite_none_right_eq_some, Option.some.injEq] at hstep
      obtain ⟨_, rfl⟩ := hstep
      exact hs.fail ip now
    | recordSuccess ip =>
      cases hstep
      exact hs.set ip none [] (by simp)

/-- The last failures up to the threshold happened within one interval of the length of
the window. -/
def Burst (l : FailedAuthLimiter) (fs : List Failure) : Prop :=
  l.threshold ≤ fs.length ∧
    ∃ start, ∀ f ∈ fs.take l.threshold.toNat, start ≤ f.time ∧ f.time ≤ start + l.window

/-- A ban that starts now is in force now.  Zero in `bannedUntilMS` stands for no ban. -/
def BanHolds (l : FailedAuthLimiter) (now : Int) : Prop :=
  0 < milliseconds l.cooldown ∧ unixMilli now + milliseconds l.cooldown ≠ 0

/-- Every failure of the burst but the oldest one finds a window to be counted in, and the
last one does in any case. -/
def Unbroken (s : Limited) (ip : List UInt8) (now : Int) : Prop :=
  s.limiter.Counts ip now ∧
    ∀ f ∈ (s.failures ip).take (s.limiter.threshold.toNat - 2), f.counted = true

/-- The verdict on an address with an entry. -/
theorem allowed_eq_false (he : l.entries ip = some e) :
    (FailedAuthLimiter.allowed l ip now).1 = false ↔
      e.bannedUntilMS ≠ 0 ∧ unixMilli now < e.bannedUntilMS := by
  simp only [FailedAuthLimiter.allowed, he]
  split_ifs with h1 h2 <;> simp [h1]

/-- What an address is told after a failure. -/
theorem allowed_fail (hs : Sound s) (ip : List UInt8) (now : Int) :
    ((s.fail ip now).limiter.allowed ip now).1 = false ↔
      s.limiter.Counts ip now ∧ s.limiter.threshold ≤ streak (s.failures ip) + 2 ∧
        BanHolds s.limiter now := by
  rcases recordFailure_cases s.limiter ip now with ⟨hcounts, heq⟩ | ⟨e, he, hcounts, heq⟩
  · simp [Limited.fail, heq, FailedAuthLimiter.allowed, FailedAuthLimiter.set, hcounts]
  · obtain ⟨hcount, hban⟩ := hs ip e he
    rw [Limited.fail, heq, allowed_eq_false (s.limiter.set_entries_self ip _)]
    simp only [hcounts, true_and, hcount, BanHolds]
    split_ifs with hge
    · omega
    · have hfree : e.bannedUntilMS = 0 := by
        by_contra hne
        have := hban hne
        omega
      omega

theorem blocked_after_burst_iff (hreach : (machine threshold window cooldown start).Reachable s)
    (hstep : s.step (.recordFailure ip now) = some t) :
    (Burst t.limiter (t.failures ip) → (t.limiter.allowed ip now).1 = false) ↔
      (Burst t.limiter (t.failures ip) → s.Unbroken ip now ∧ BanHolds s.limiter now) := by
  simp only [step, Option.ite_none_right_eq_some, Option.some.injEq] at hstep
  obtain ⟨_, rfl⟩ := hstep
  apply imp_congr_right
  rintro ⟨hlen, _⟩
  have hlen : s.limiter.threshold ≤ (s.failures ip).length + 1 := by
    simpa [Limited.fail, threshold_recordFailure] using hlen
  have hstreak : s.limiter.threshold ≤ streak (s.failures ip) + 2 ↔
      s.limiter.threshold.toNat - 2 ≤ streak (s.failures ip) := by omega
  rw [allowed_fail (sound_of_reachable hreach), Unbroken, hstreak,
    le_streak_iff _ (by omega), and_assoc]

open FailedAuthLimiter (second)

def localhost : List UInt8 := [0x3a, 0x3a, 0x31]

def failAt (ts : List Int) : List LimiterAct :=
  ts.map (fun t => .recordFailure localhost (t * second))

/-- The default limiter lets an address go on after five failures in twelve seconds: the
fourth one fell just before the window of the first expired. -/
theorem allowed_after_burst : ∃ s t : Limited,
    (machine FailedAuthLimiter.new.threshold FailedAuthLimiter.new.window
      FailedAuthLimiter.new.cooldown 0).Reachable s ∧
      s.step (.recordFailure localhost (62 * second)) = some t ∧
      Burst t.limiter (t.failures localhost) ∧
      (t.limiter.allowed localhost (62 * second)).1 = true := by
  refine ⟨_, _, .of_run (failAt [0, 50, 51, 52, 61]) (.init _) rfl, rfl, ⟨by decide, 50 * second, ?_⟩,
    by decide⟩
  decide

def afterFailures (ts : List Int) : Limited :=
  ts.foldl (fun s t => s.fail localhost (t * second)) (machine 5 (60 * second) (300 * second) 0).init

/-- Five failures of which the last four are counted. -/
theorem blocked_after_failures :
    ((afterFailures [58, 59, 60, 61, 62]).limiter.allowed localhost (62 * second)).1 = false := by
  have hreach : (machine 5 (60 * second) (300 * second) 0).Reachable
      (afterFailures [58, 59, 60, 61]) := .of_run (failAt [58, 59, 60, 61]) (.init _) rfl
  have hstep : (afterFailures [58, 59, 60, 61]).step (.recordFailure localhost (62 * second)) =
      some (afterFailures [58, 59, 60, 61, 62]) := rfl
  apply (blocked_after_burst_iff hreach hstep).mpr
  · intro _
    exact ⟨⟨by decide, by decide⟩, by decide, by decide⟩
  · exact ⟨by decide, 58 * second, by decide⟩

end Limited

end StreamMix.Relay
