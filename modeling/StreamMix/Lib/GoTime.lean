import Mathlib.Algebra.Order.Ring.Int
import Mathlib.Tactic.SplitIfs

/-! `time.Time` of Go: seconds of a 64-bit count from the year 1 and nanoseconds.  A
duration is a 64-bit count of nanoseconds. -/

namespace GoTime

def nanos : Int := 1000000000

structure Time where
  sec : Int64
  nsec : Int
  nonneg : 0 ≤ nsec
  lt : nsec < nanos
  deriving DecidableEq

def internalToUnix : Int64 := -62135596800

/-- `Unix`. -/
def Time.unix (t : Time) : Int64 := t.sec + internalToUnix

/-- The sum saturates where the 64-bit one would wrap around. -/
def addSec (sec d : Int64) : Int64 :=
  let sum := sec + d
  if decide (sum > sec) = decide (d > 0) then sum
  else if d > 0 then Int64.maxValue
  else -Int64.maxValue

/-- Division and remainder truncate, so a negative duration may borrow a second. -/
def Time.add (t : Time) (d : Int64) : Time :=
  let dsec := d / 1000000000
  let nsec := t.nsec + d.toInt.tmod nanos
  have hlow : -nanos < d.toInt.tmod nanos := Int.lt_tmod_of_pos _ (by decide)
  have hhigh : d.toInt.tmod nanos < nanos := Int.tmod_lt_of_pos _ (by decide)
  have h0 := t.nonneg
  have h1 := t.lt
  { sec := addSec t.sec
      (if nsec ≥ nanos then dsec + 1 else if nsec < 0 then dsec - 1 else dsec)
    nsec := if nsec ≥ nanos then nsec - nanos else if nsec < 0 then nsec + nanos else nsec
    nonneg := by split_ifs <;> omega
    lt := by split_ifs <;> omega }

/-- The instant in nanoseconds from the epoch of Unix. -/
def Time.instant (t : Time) : Int := (t.sec.toInt - 62135596800) * nanos + t.nsec

/-- The times from which no duration of 64 bits leads out of the range: all that clocks
show for some billions of years. -/
def Time.Ordinary (t : Time) : Prop := -2 ^ 62 < t.sec.toInt ∧ t.sec.toInt < 2 ^ 62

theorem toInt_addSec {sec d : Int64} (hsec : -2 ^ 62 < sec.toInt ∧ sec.toInt < 2 ^ 62)
    (hd : -2 ^ 62 < d.toInt ∧ d.toInt < 2 ^ 62) : (addSec sec d).toInt = sec.toInt + d.toInt := by
  have hsum : (sec + d).toInt = sec.toInt + d.toInt := by
    rw [Int64.toInt_add, Int.bmod_eq_of_le (by omega) (by omega)]
  have hpos : (0 : Int64).toInt = 0 := rfl
  have hiff : (sec + d > sec) ↔ d > 0 := by
    rw [gt_iff_lt, gt_iff_lt, Int64.lt_iff_toInt_lt, Int64.lt_iff_toInt_lt, hsum, hpos]
    omega
  rw [addSec, if_pos (by simp only [hiff]), hsum]

/-- `Add` is exact on ordinary times. -/
theorem Time.instant_add (t : Time) (d : Int64) (h : t.Ordinary) :
    (t.add d).instant = t.instant + d.toInt := by
  have hdlow := d.le_toInt
  have hdhigh := d.toInt_lt
  have hdiv : (d / 1000000000).toInt = d.toInt.tdiv 1000000000 :=
    Int64.toInt_div_of_ne_right d _ (by decide)
  have hsplit := Int.mul_tdiv_add_tmod d.toInt 1000000000
  have hlow : -1000000000 < d.toInt.tmod 1000000000 := Int.lt_tmod_of_pos _ (by decide)
  have hhigh : d.toInt.tmod 1000000000 < 1000000000 := Int.tmod_lt_of_pos _ (by decide)
  have hone : (1 : Int64).toInt = 1 := rfl
  have hup : (d / 1000000000 + 1).toInt = d.toInt.tdiv 1000000000 + 1 := by
    rw [Int64.toInt_add, hdiv, hone, Int.bmod_eq_of_le (by omega) (by omega)]
  have hdown : (d / 1000000000 - 1).toInt = d.toInt.tdiv 1000000000 - 1 := by
    rw [Int64.toInt_sub, hdiv, hone, Int.bmod_eq_of_le (by omega) (by omega)]
  simp only [Time.add, instant]
  split_ifs with hcarry hborrow
  · rw [toInt_addSec h (by omega), hup]
    simp only [nanos]
    omega
  · rw [toInt_addSec h (by omega), hdown]
    simp only [nanos]
    omega
  · rw [toInt_addSec h (by omega), hdiv]
    simp only [nanos]
    omega

/-- The Unix second of a time is the one its instant falls in. -/
theorem Time.unix_eq_floor (t : Time) (h : -2 ^ 63 + 62135596800 ≤ t.sec.toInt) :
    t.unix.toInt = t.instant / nanos := by
  have hlt := t.sec.toInt_lt
  have hepoch : internalToUnix.toInt = -62135596800 := rfl
  have hnonneg := t.nonneg
  have hsmall := t.lt
  rw [unix, Int64.toInt_add, hepoch, Int.bmod_eq_of_le (by omega) (by omega), instant]
  simp only [nanos] at hsmall ⊢
  omega

theorem Time.unix_add (t : Time) (d : Int64) (h : t.Ordinary) :
    (t.add d).unix.toInt = (t.instant + d.toInt) / nanos := by
  have hinstant := t.instant_add d h
  have hlow := h.1
  have hd := d.le_toInt
  have hnonneg := t.nonneg
  have hsmall := (t.add d).lt
  rw [← hinstant, unix_eq_floor]
  simp only [instant, nanos] at hinstant hsmall
  omega

end GoTime
