import Mathlib.Data.List.Induction
import Mathlib.Logic.Function.Basic

universe u v w

/-! Machines driven by labels.  A label names the thread that moves and the choices
the environment makes for it, so a run is a list of labels. -/

structure Machine (σ : Type u) (α : Type v) where
  init : σ
  step : σ → α → Option σ

namespace Machine

variable {σ : Type u} {α : Type v} {β : Type w}

def run (M : Machine σ α) : σ → List α → Option σ
  | s, [] => some s
  | s, a :: as => (M.step s a).bind (fun t => M.run t as)

/-- The states that runs reach when every label is taken in a state that allows it. -/
inductive Reaches (M : Machine σ α) (G : σ → α → Prop) : σ → Prop
  | init : Reaches M G M.init
  | step : Reaches M G s → G s a → M.step s a = some t → Reaches M G t

def Reachable (M : Machine σ α) (s : σ) : Prop := M.Reaches (fun _ _ => True) s

theorem Reachable.init (M : Machine σ α) : M.Reachable M.init := Reaches.init

theorem Reachable.next {M : Machine σ α} (h : M.Reachable s) (hs : M.step s a = some t) :
    M.Reachable t := Reaches.step h trivial hs

theorem Reaches.reachable {M : Machine σ α} {G : σ → α → Prop} (h : M.Reaches G s) :
    M.Reachable s := by
  induction h with
  | init => exact .init M
  | step _ _ hs ih => exact ih.next hs

/-- Invariant rule for guarded runs. -/
theorem Reaches.invariant {M : Machine σ α} {G : σ → α → Prop} {P : σ → Prop}
    (h : M.Reaches G s) (h0 : P M.init)
    (hstep : ∀ s a t, P s → G s a → M.step s a = some t → P t) : P s := by
  induction h with
  | init => exact h0
  | step _ hg hs ih => exact hstep _ _ _ ih hg hs

/-- Invariant rule for unrestricted runs. -/
theorem Reachable.invariant {M : Machine σ α} {P : σ → Prop} (h : M.Reachable s)
    (h0 : P M.init) (hstep : ∀ s a t, P s → M.step s a = some t → P t) : P s :=
  Reaches.invariant h h0 (fun s a t hp _ hs => hstep s a t hp hs)

/-- Invariant rule that builds on what is known of every reachable state. -/
theorem Reachable.relative {M : Machine σ α} {P : σ → Prop} (h : M.Reachable s) (h0 : P M.init)
    (hstep : ∀ s a t, M.Reachable s → P s → M.step s a = some t → P t) : P s := by
  induction h with
  | init => exact h0
  | step hr _ hs ih => exact hstep _ _ _ hr ih hs

theorem Reachable.of_run {M : Machine σ α} (as : List α) (h : M.Reachable s)
    (hr : M.run s as = some t) : M.Reachable t := by
  induction as generalizing s with
  | nil =>
    cases hr
    exact h
  | cons a as ih =>
    obtain ⟨r, hs, hr⟩ := Option.bind_eq_some_iff.mp hr
    exact ih (h.next hs) hr

theorem run_concat (M : Machine σ α) (s : σ) (as : List α) (a : α) :
    M.run s (as ++ [a]) = (M.run s as).bind (fun t => M.step t a) := by
  induction as generalizing s with
  | nil => cases h : M.step s a <;> simp [run, h]
  | cons b as ih =>
    rw [List.cons_append, run, run, Option.bind_assoc]
    exact congrArg _ (funext fun t => ih t)

/-- Invariant rule for what holds of a state and of the labels that led to it, the latest one
first. -/
theorem run_invariant {M : Machine σ α} {P : List α → σ → Prop} (h0 : P [] M.init)
    (hstep : ∀ as s a t, P as s → M.step s a = some t → P (a :: as) t)
    (hr : M.run M.init as = some t) : P as.reverse t := by
  induction as using List.reverseRecOn generalizing t with
  | nil =>
    cases hr
    exact h0
  | append_singleton as a ih =>
    rw [run_concat] at hr
    obtain ⟨s, hs, hr⟩ := Option.bind_eq_some_iff.mp hr
    rw [List.reverse_concat]
    exact hstep _ s a t (ih hs) hr

/-- Every label of a run is taken in a state that allows it. -/
def Allowed (M : Machine σ α) (G : σ → α → Prop) : σ → List α → Prop
  | _, [] => True
  | s, a :: as => G s a ∧
    match M.step s a with
    | some t => M.Allowed G t as
    | none => True

instance decidableAllowed (M : Machine σ α) (G : σ → α → Prop) [∀ s a, Decidable (G s a)] :
    ∀ s as, Decidable (M.Allowed G s as)
  | _, [] => .isTrue trivial
  | s, a :: as =>
    have : Decidable (match M.step s a with
        | some t => M.Allowed G t as
        | none => True) :=
      match M.step s a with
      | some t => decidableAllowed M G t as
      | none => .isTrue trivial
    inferInstanceAs (Decidable (_ ∧ _))

theorem Reaches.of_run {M : Machine σ α} {G : σ → α → Prop} (as : List α) (h : M.Reaches G s)
    (hg : M.Allowed G s as) (hr : M.run s as = some t) : M.Reaches G t := by
  induction as generalizing s with
  | nil =>
    cases hr
    exact h
  | cons a as ih =>
    obtain ⟨r, hs, hr⟩ := Option.bind_eq_some_iff.mp hr
    obtain ⟨ha, hrest⟩ := hg
    rw [hs] at hrest
    exact ih (.step h ha hs) hrest hr

end Machine
