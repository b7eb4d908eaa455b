import Mathlib.Data.List.Infix

/-! Sequences in which an event that needs another one comes after it. -/

namespace Precedence

variable {α : Type u} {need : α → Prop} {covers : α → α → Prop} {xs ys : List α}

def Preceded (need : α → Prop) (covers : α → α → Prop) (xs : List α) : Prop :=
  ∀ past x rest, xs = past ++ x :: rest → need x → ∃ y ∈ past, covers y x

theorem preceded_nil : Preceded need covers [] := by
  intro past x rest h
  cases past <;> cases h

theorem Preceded.concat (h : Preceded need covers xs)
    (hx : need x → ∃ y ∈ xs, covers y x) : Preceded need covers (xs ++ [x]) := by
  intro past y rest heq hy
  rcases List.append_eq_append_iff.mp heq with ⟨mid, rfl, hmid⟩ | ⟨mid, rfl, hmid⟩
  · cases mid with
    | nil =>
      cases hmid
      obtain ⟨z, hz, hc⟩ := hx hy
      exact ⟨z, List.mem_append_left _ hz, hc⟩
    | cons z mid => simp at hmid
  · cases mid with
    | nil =>
      cases hmid
      rw [List.append_nil] at hx
      exact hx hy
    | cons z mid =>
      cases hmid
      exact h past y mid rfl hy

theorem Preceded.initial (h : Preceded need covers ys) (hp : xs <+: ys) :
    Preceded need covers xs := by
  obtain ⟨tail, rfl⟩ := hp
  intro past x rest heq
  apply h past x (rest ++ tail)
  rw [heq, List.append_assoc]
  rfl

/-- Dropping an event that nothing needs. -/
theorem Preceded.remove (h : Preceded need covers (xs ++ v :: ys)) (hv : ∀ x, ¬ covers v x) :
    Preceded need covers (xs ++ ys) := by
  intro past x rest heq hx
  rcases List.append_eq_append_iff.mp heq with ⟨mid, rfl, rfl⟩ | ⟨mid, rfl, hmid⟩
  · obtain ⟨y, hy, hc⟩ := h (xs ++ v :: mid) x rest (by simp) hx
    refine ⟨y, ?_, hc⟩
    rcases List.mem_append.mp hy with hy | hy
    · exact List.mem_append_left _ hy
    · rcases List.mem_cons.mp hy with rfl | hy
      · exact absurd hc (hv x)
      · exact List.mem_append_right _ hy
  · cases mid with
    | nil =>
      rw [List.nil_append] at hmid
      subst hmid
      rw [List.append_nil] at h
      obtain ⟨y, hy, hc⟩ := h (past ++ [v]) x rest (by simp) hx
      rcases List.mem_append.mp hy with hy | hy
      · exact ⟨y, hy, hc⟩
      · rw [List.mem_singleton.mp hy] at hc
        exact absurd hc (hv x)
    | cons z mid =>
      cases hmid
      exact h past x (mid ++ v :: ys) (by simp) hx

end Precedence
