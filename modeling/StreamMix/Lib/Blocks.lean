import Mathlib.Data.List.Basic

universe u

/-! A list cut into blocks of one size and what is left over. -/

namespace Blocks

variable {α : Type u} {n : Nat}

/-- The consecutive blocks of `n` elements that fit. -/
def blocks (n : Nat) (l : List α) : List (List α) :=
  (List.range (l.length / n)).map (fun k => (l.drop (n * k)).take n)

def rest (n : Nat) (l : List α) : List α := l.drop (n * (l.length / n))

theorem blocks_cons {b l : List α} (hb : b.length = n) (h : 0 < n) :
    blocks n (b ++ l) = b :: blocks n l := by
  have hcount : (b ++ l).length / n = l.length / n + 1 := by
    rw [List.length_append, hb, Nat.add_comm, Nat.add_div_right _ h]
  rw [blocks, hcount, List.range_succ_eq_map, List.map_cons, List.map_map]
  congr 1
  · simp [hb]
  · apply List.map_congr_left
    intro k _
    simp only [Function.comp_apply]
    rw [Nat.mul_succ, Nat.add_comm, ← List.drop_drop, List.drop_left' hb]

theorem rest_cons {b l : List α} (hb : b.length = n) (h : 0 < n) : rest n (b ++ l) = rest n l := by
  have hcount : (b ++ l).length / n = l.length / n + 1 := by
    rw [List.length_append, hb, Nat.add_comm, Nat.add_div_right _ h]
  rw [rest, hcount, Nat.mul_succ, Nat.add_comm, ← List.drop_drop, List.drop_left' hb, rest]

theorem blocks_of_short {l : List α} (h : l.length < n) : blocks n l = [] ∧ rest n l = l := by
  simp [blocks, rest, Nat.div_eq_of_lt h]

theorem blocks_append {bs : List (List α)} (h : 0 < n) (hbs : ∀ b ∈ bs, b.length = n) (l : List α) :
    blocks n (bs.flatten ++ l) = bs ++ blocks n l := by
  induction bs with
  | nil => rfl
  | cons b bs ih =>
    rw [List.flatten_cons, List.append_assoc, blocks_cons (hbs b (.head _)) h,
      ih (fun c hc => hbs c (.tail _ hc)), List.cons_append]

/-- There is one way to cut a list into blocks of `n` and less than a block. -/
theorem blocks_unique {bs : List (List α)} {r l : List α} (hl : bs.flatten ++ r = l)
    (hbs : ∀ b ∈ bs, b.length = n) (hr : r.length < n) : bs = blocks n l ∧ r = rest n l := by
  induction bs generalizing l with
  | nil =>
    rw [List.flatten_nil, List.nil_append] at hl
    rw [← hl, (blocks_of_short hr).1, (blocks_of_short hr).2]
    exact ⟨rfl, rfl⟩
  | cons b bs ih =>
    have hb := hbs b (.head _)
    have hpos : 0 < n := Nat.lt_of_le_of_lt (Nat.zero_le _) hr
    obtain ⟨hblocks, hrest⟩ := ih rfl (fun c hc => hbs c (.tail _ hc))
    rw [← hl, List.flatten_cons, List.append_assoc, blocks_cons hb hpos, rest_cons hb hpos,
      ← hblocks, ← hrest]
    exact ⟨rfl, rfl⟩

end Blocks
