import Mathlib.Logic.Relation
import StreamMix.Lib.Machine

universe u v w x

/-! What some of the labels of a machine can bring about on their own. -/

namespace Machine

variable {σ : Type u} {α : Type v} {M : Machine σ α} {A : α → Prop} {s t : σ}

def Leads (M : Machine σ α) (A : α → Prop) : σ → σ → Prop :=
  Relation.ReflTransGen (fun s t => ∃ a, A a ∧ M.step s a = some t)

theorem Leads.refl (M : Machine σ α) (A : α → Prop) (s : σ) : M.Leads A s s :=
  Relation.ReflTransGen.refl

theorem Leads.head (ha : A a) (hs : M.step s a = some t) (h : M.Leads A t r) : M.Leads A s r :=
  Relation.ReflTransGen.head ⟨a, ha, hs⟩ h

theorem Leads.trans (h : M.Leads A s t) (h' : M.Leads A t r) : M.Leads A s r :=
  Relation.ReflTransGen.trans h h'

theorem Leads.reachable (h : M.Leads A s t) (hs : M.Reachable s) : M.Reachable t := by
  induction h with
  | refl => exact hs
  | tail _ hstep ih =>
    obtain ⟨a, -, hstep⟩ := hstep
    exact ih.next hstep

/-- A machine that takes the steps of another one. -/
theorem Leads.map {τ : Type w} {β : Type x} {N : Machine τ β} {B : β → Prop} (f : σ → τ)
    (g : α → β) (hf : ∀ s a t, A a → M.step s a = some t →
      B (g a) ∧ N.step (f s) (g a) = some (f t))
    (h : M.Leads A s t) : N.Leads B (f s) (f t) := by
  refine Relation.ReflTransGen.lift f ?_ s t h
  rintro s t ⟨a, ha, hs⟩
  exact ⟨g a, hf s a t ha hs⟩

end Machine
