import Mathlib.Data.List.Basic

/-! Loops over items with keys, where a turn changes no column of the state but its own. -/

universe u v w z

namespace KeyedLoop

variable {σ : Type u} {τ : Type v} {κ : Type w} {γ : Type z}

structure Local (view : σ → κ → γ) (key : τ → κ) (I : σ → Prop) (body : σ → τ → σ) : Prop where
  inv : ∀ s t, I s → I (body s t)
  frame : ∀ s t k, I s → k ≠ key t → view (body s t) k = view s k

namespace Local

variable {view : σ → κ → γ} {key : τ → κ} {I : σ → Prop} {body : σ → τ → σ}

theorem and {J : σ → Prop} (h : Local view key I body) (hJ : ∀ s t, J s → J (body s t)) :
    Local view key (fun s => I s ∧ J s) body where
  inv s t hs := ⟨h.inv s t hs.1, hJ s t hs.2⟩
  frame s t k hs := h.frame s t k hs.1

theorem foldl_inv (h : Local view key I body) (ts : List τ) (hs : I s) : I (ts.foldl body s) :=
  ts.foldlRecOn body hs (fun s hs t _ => h.inv s t hs)

theorem foldl_frame (h : Local view key I body) (ts : List τ) (hs : I s)
    (hk : ∀ t ∈ ts, key t ≠ k) : view (ts.foldl body s) k = view s k := by
  induction ts generalizing s with
  | nil => rfl
  | cons t ts ih =>
    rw [List.foldl_cons, ih (h.inv s t hs) (fun u hu => hk u (.tail _ hu))]
    exact h.frame s t k hs (hk t (.head _)).symm

/-- What every turn for the key keeps. -/
theorem foldl_keep (h : Local view key I body) (ts : List τ) {P : γ → Prop} (hs : I s)
    (hP : P (view s k))
    (hturn : ∀ s, I s → ∀ t ∈ ts, key t = k → P (view s k) → P (view (body s t) k)) :
    P (view (ts.foldl body s) k) := by
  refine (ts.foldlRecOn (motive := fun s => I s ∧ P (view s k)) body ⟨hs, hP⟩ ?_).2
  rintro s ⟨hs, hP⟩ t ht
  refine ⟨h.inv s t hs, ?_⟩
  by_cases hkey : key t = k
  · exact hturn s hs t ht hkey hP
  · rwa [h.frame s t k hs (Ne.symm hkey)]

/-- What the first turn for the key brings about and the later ones keep. -/
theorem foldl_column (h : Local view key I body) (ts : List τ) {P Q : γ → Prop} (hs : I s)
    (hP : P (view s k)) (hk : ∃ t ∈ ts, key t = k)
    (hfirst : ∀ s, I s → ∀ t ∈ ts, key t = k → P (view s k) → Q (view (body s t) k))
    (hlater : ∀ s, I s → ∀ t ∈ ts, key t = k → Q (view s k) → Q (view (body s t) k)) :
    Q (view (ts.foldl body s) k) := by
  induction ts generalizing s with
  | nil =>
    obtain ⟨t, ht, -⟩ := hk
    cases ht
  | cons t ts ih =>
    have hkeep := fun s hs t ht => hlater s hs t (List.mem_cons_of_mem _ ht)
    by_cases hkey : key t = k
    · exact h.foldl_keep ts (h.inv s t hs) (hfirst s hs t (.head _) hkey hP) hkeep
    · refine ih (h.inv s t hs) ?_ ?_ (fun s hs t ht => hfirst s hs t (.tail _ ht)) hkeep
      · rwa [h.frame s t k hs (Ne.symm hkey)]
      · obtain ⟨u, hu, hku⟩ := hk
        cases hu with
        | head => exact absurd hku hkey
        | tail _ hu => exact ⟨u, hu, hku⟩

end Local

end KeyedLoop
