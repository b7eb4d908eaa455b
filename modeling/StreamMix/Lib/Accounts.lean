import Mathlib.Algebra.BigOperators.Finprod
import Mathlib.Data.Set.Card

universe u

/-! Sums and counts over accounts of which finitely many are open. -/

namespace Accounts

open Function (support)

variable {ι : Type u} {f g : ι → Nat} {r : ι}

theorem finite_of_move (hf : (support f).Finite) (hg : ∀ x, x ≠ r → g x = f x) :
    (support g).Finite := by
  refine (hf.insert r).subset ?_
  intro x hx
  by_cases hr : x = r
  · exact .inl hr
  · exact .inr (by rwa [Function.mem_support, ← hg x hr])

/-- The total moves as the account does that moved. -/
theorem total_of_move (hf : (support f).Finite) (hg : ∀ x, x ≠ r → g x = f x) :
    ∑ᶠ x, g x + f r = ∑ᶠ x, f x + g r := by
  classical
  have hopen : ∀ h : ι → Nat, (∀ x, x ≠ r → h x = f x) →
      ∑ᶠ x, h x = h r + ∑ x ∈ hf.toFinset.erase r, f x := by
    intro h hh
    have hsub : support h ⊆ ↑(insert r (hf.toFinset.erase r)) := by
      intro x hx
      by_cases hr : x = r
      · simp [hr]
      · rw [Function.mem_support, hh x hr] at hx
        simp [hr, hx]
    rw [finsum_eq_sum_of_support_subset h hsub, Finset.sum_insert (Finset.notMem_erase r _)]
    congr 1
    exact Finset.sum_congr rfl (fun x hx => hh x (Finset.ne_of_mem_erase hx))
  rw [hopen g hg, hopen f (fun _ _ => rfl)]
  omega

theorem total_eq_zero (h : ∀ x, f x = 0) : ∑ᶠ x, f x = 0 := by
  simp only [h, finsum_zero]

variable {s t : Set ι}

/-- One more member. -/
theorem count_insert (hs : s.Finite) (hr : r ∉ s) (ht : ∀ x, x ∈ t ↔ x ∈ s ∨ x = r) :
    t.Finite ∧ t.ncard = s.ncard + 1 := by
  have heq : t = insert r s := by
    ext x
    rw [ht x, Set.mem_insert_iff, or_comm]
  rw [heq]
  exact ⟨hs.insert r, Set.ncard_insert_of_notMem hr hs⟩

end Accounts
