import Mathlib.Data.List.Basic
import Mathlib.Data.List.Flatten

universe u v

/-! A list sorted by a numeric key is the concatenation of its classes, and so a list of what
comes in class after class. -/

namespace Classes

variable {α : Type u} {β : Type v} {key : α → Nat} {l : List α} {m n : Nat}

def Sorted (key : α → Nat) (l : List α) : Prop := l.Pairwise (fun a b => key a ≤ key b)

def ofKey (key : α → Nat) (l : List α) (n : Nat) : List α := l.filter (fun a => key a == n)

theorem Sorted.concat (h : Sorted key l) (ha : ∀ b ∈ l, key b ≤ key a) :
    Sorted key (l ++ [a]) := by
  refine List.pairwise_append.mpr ⟨h, List.pairwise_singleton .., ?_⟩
  intro b hb c hc
  obtain rfl := List.mem_singleton.mp hc
  exact ha b hb

/-- The largest key stands at the end. -/
theorem Sorted.split (h : Sorted key l) (hn : ∀ a ∈ l, key a < n + 1) :
    l = l.filter (fun a => key a < n) ++ ofKey key l n := by
  induction l with
  | nil => rfl
  | cons a l ih =>
    obtain ⟨ha, hl⟩ := List.pairwise_cons.mp h
    have hrest := ih hl (fun b hb => hn b (List.mem_cons_of_mem _ hb))
    by_cases hlt : key a < n
    · have hne : ¬ key a = n := Nat.ne_of_lt hlt
      rw [List.filter_cons_of_pos (by simpa using hlt), ofKey,
        List.filter_cons_of_neg (by simpa using hne), List.cons_append]
      exact congrArg _ hrest
    · have heq : key a = n := by
        have := hn a List.mem_cons_self
        omega
      have hnone : l.filter (fun b => key b < n) = [] := by
        rw [List.filter_eq_nil_iff]
        intro b hb
        simpa [← heq] using ha b hb
      rw [List.filter_cons_of_neg (by simpa using hlt), ofKey,
        List.filter_cons_of_pos (by simpa using heq), hnone]
      rw [hnone, List.nil_append] at hrest
      exact congrArg _ hrest

theorem Sorted.eq_flatMap (h : Sorted key l) (hn : ∀ a ∈ l, key a < n) :
    l = (List.range n).flatMap (ofKey key l) := by
  induction n generalizing l with
  | zero =>
    match l with
    | [] => rfl
    | a :: l => exact absurd (hn a List.mem_cons_self) (Nat.not_lt_zero _)
  | succ n ih =>
    have hlow : Sorted key (l.filter (fun a => key a < n)) := h.sublist List.filter_sublist
    have hbelow : ∀ a ∈ l.filter (fun a => key a < n), key a < n := by
      intro a ha
      simpa using (List.mem_filter.mp ha).2
    have hclass : ∀ m ∈ List.range n, ofKey key (l.filter (fun a => key a < n)) m =
        ofKey key l m := by
      intro m hm
      have hlt := List.mem_range.mp hm
      rw [ofKey, ofKey, List.filter_filter]
      apply List.filter_congr
      intro a _
      by_cases ha : key a = m
      · simp [ha, hlt]
      · simp [ha]
    calc
      l = l.filter (fun a => key a < n) ++ ofKey key l n := h.split hn
      _ = (List.range n).flatMap (ofKey key l) ++ ofKey key l n := by
        rw [← List.flatMap_congr hclass, ← ih hlow hbelow]
      _ = (List.range (n + 1)).flatMap (ofKey key l) := by
        rw [List.range_succ, List.flatMap_append, List.flatMap_singleton]

/-- Each class is taken from a source of its own, and the sources follow one another. -/
theorem Sorted.sublist_flatMap (h : Sorted key l) (hn : ∀ a ∈ l, key a < n) (f : α → β)
    (source : Nat → List β) (hs : ∀ m, ((ofKey key l m).map f).Sublist (source m)) :
    (l.map f).Sublist ((List.range n).flatMap source) := by
  rw [h.eq_flatMap hn, List.map_flatMap]
  exact List.Sublist.flatMap_right _ (fun m _ => hs m)

end Classes
