import Mathlib.Algebra.Order.Monoid.Defs
import Mathlib.Data.Finset.Lattice.Fold
import Mathlib.Algebra.Order.Group.Nat

/-! Slots of one length that each begin once they are released and the slot before them is
over. -/

universe u

namespace Pacing

variable {α : Type u} [AddCommMonoid α] [LinearOrder α]

def begins (length : α) (release : Nat → α) : Nat → α
  | 0 => release 0
  | n + 1 => max (begins length release n + length) (release (n + 1))

variable (length : α) (release : Nat → α)

theorem release_le_begins (n : Nat) : release n ≤ begins length release n := by
  cases n with
  | zero => exact le_rfl
  | succ n => exact le_max_right _ _

theorem begins_add_le (n : Nat) :
    begins length release n + length ≤ begins length release (n + 1) := le_max_left _ _

/-- Consecutive slots without a wait for a release. -/
theorem begins_eq_add_nsmul {m n : Nat} (h : m ≤ n)
    (hready : ∀ k, m ≤ k → k < n → release (k + 1) ≤ begins length release k + length) :
    begins length release n = begins length release m + (n - m) • length := by
  induction n, h using Nat.le_induction with
  | base => rw [Nat.sub_self, zero_nsmul, add_zero]
  | succ n hmn ih =>
    rw [begins, max_eq_left (hready n hmn (Nat.lt_succ_self n)),
      ih (fun k hk hlt => hready k hk (Nat.lt_succ_of_lt hlt)), add_assoc, ← succ_nsmul,
      Nat.succ_sub hmn]

/-- Some release sets the pace of everything after it. -/
theorem exists_begins_eq (n : Nat) :
    ∃ i ≤ n, begins length release n = release i + (n - i) • length := by
  induction n with
  | zero => exact ⟨0, le_rfl, by rw [Nat.sub_self, zero_nsmul, add_zero]; rfl⟩
  | succ n ih =>
    obtain hlate | hready := le_total (begins length release n + length) (release (n + 1))
    · refine ⟨n + 1, le_rfl, ?_⟩
      rw [Nat.sub_self, zero_nsmul, add_zero, begins, max_eq_right hlate]
    · obtain ⟨i, hi, hn⟩ := ih
      refine ⟨i, Nat.le_succ_of_le hi, ?_⟩
      rw [begins, max_eq_left hready, hn, add_assoc, ← succ_nsmul, Nat.succ_sub hi]

variable [IsOrderedAddMonoid α]

theorem release_add_le_begins {i n : Nat} (h : i ≤ n) :
    release i + (n - i) • length ≤ begins length release n := by
  induction n, h using Nat.le_induction with
  | base =>
    rw [Nat.sub_self, zero_nsmul, add_zero]
    exact release_le_begins length release i
  | succ n hin ih =>
    rw [Nat.succ_sub hin, succ_nsmul, ← add_assoc]
    exact (add_le_add_left ih length).trans (begins_add_le length release n)

theorem begins_eq_sup' (n : Nat) :
    begins length release n = (Finset.range (n + 1)).sup' Finset.nonempty_range_add_one
      (fun i => release i + (n - i) • length) := by
  apply le_antisymm
  · obtain ⟨i, hi, hn⟩ := exists_begins_eq length release n
    rw [hn]
    exact Finset.le_sup' (fun i => release i + (n - i) • length)
      (Finset.mem_range.mpr (Nat.lt_succ_of_le hi))
  · apply Finset.sup'_le
    intro i hi
    exact release_add_le_begins length release (Nat.le_of_lt_succ (Finset.mem_range.mp hi))

end Pacing
