import Mathlib.Logic.Function.Basic
import Mathlib.Data.List.Basic

universe u v w x

/-! Stores of one value for each key.  An operation reads and writes the value of its own key,
so what it answers depends on the operations on that key alone. -/

namespace KeyedStore

variable {κ : Type u} {α : Type v} {ο : Type w} {β : Type x} [DecidableEq κ]

section

variable (key : ο → κ) (f : ο → α → α)

def step (s : κ → α) (o : ο) : κ → α := Function.update s (key o) (f o (s (key o)))

theorem step_of_ne (s : κ → α) (h : key o ≠ k) : step key f s o k = s k :=
  Function.update_of_ne h.symm ..

theorem step_self (s : κ → α) (o : ο) : step key f s o (key o) = f o (s (key o)) :=
  Function.update_self ..

theorem step_congr {s t : κ → α} (h : s k = t k) (o : ο) : step key f s o k = step key f t o k := by
  rcases eq_or_ne (key o) k with rfl | hne
  · rw [step_self, step_self, h]
  · rw [step_of_ne key f s hne, step_of_ne key f t hne, h]

/-- Operations on other keys leave a value alone. -/
theorem foldl_step_of_ne (s : κ → α) (os : List ο) (h : ∀ o ∈ os, key o ≠ k) :
    os.foldl (step key f) s k = s k := by
  induction os generalizing s with
  | nil => rfl
  | cons o os ih =>
    rw [List.foldl_cons, ih _ (fun p hp => h p (.tail _ hp)), step_of_ne key f s (h o (.head _))]

variable (g : ο → α → List β)

/-- The answers of a run, with the key that each is for. -/
def answers : (κ → α) → List ο → List (κ × β)
  | _, [] => []
  | s, o :: os => (g o (s (key o))).map (fun b => (key o, b)) ++ answers (step key f s o) os

theorem answers_filter {s t : κ → α} (h : s k = t k) (os : List ο) :
    (answers key f g s os).filter (fun a => a.1 = k) =
      answers key f g t (os.filter (fun o => key o = k)) := by
  induction os generalizing s t with
  | nil => rfl
  | cons o os ih =>
    rcases eq_or_ne (key o) k with rfl | hne
    · rw [List.filter_cons_of_pos (by simp), answers, answers, List.filter_append,
        ih (step_congr key f h o), h]
      congr 1
      simp [List.filter_map, Function.comp_def]
    · rw [List.filter_cons_of_neg (by simpa using hne), answers, List.filter_append,
        ih ((step_of_ne key f s hne).trans h)]
      simp [List.filter_map, Function.comp_def, hne]

end

end KeyedStore
