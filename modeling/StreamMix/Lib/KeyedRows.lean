import Mathlib.Algebra.BigOperators.Group.List.Basic
import Mathlib.Data.List.Nodup

/-! Tables with a row for each item of a list, where the items have distinct keys. -/

universe u v w z

namespace KeyedRows

variable {τ : Type u} {κ : Type v} {β : Type w} {key : τ → κ} {ts : List τ} {g h : τ → β}

theorem key_ne_iff {i j : Nat} (hd : (ts.map key).Nodup) (hi : ts[i]? = some t)
    (hj : ts[j]? = some u) : key u ≠ key t ↔ j ≠ i := by
  refine not_congr ⟨fun heq => ?_, fun heq => ?_⟩
  · have hkeys : (ts.map key)[j]? = (ts.map key)[i]? := by
      rw [List.getElem?_map, List.getElem?_map, hi, hj]
      exact congrArg some heq
    obtain ⟨hlt, -⟩ := List.getElem?_eq_some_iff.mp hj
    exact (List.getElem?_inj (by simpa using hlt) hd).mp hkeys
  · subst heq
    rw [Option.some.inj (hj.symm.trans hi)]

/-- One row changes. -/
theorem map_modify {i : Nat} {f : β → β} (hd : (ts.map key).Nodup) (hi : ts[i]? = some t)
    (hself : g t = f (h t)) (hother : ∀ u, key u ≠ key t → g u = h u) :
    ts.map g = (ts.map h).modify i f := by
  apply List.ext_getElem?
  intro j
  rw [List.getElem?_modify, List.getElem?_map, List.getElem?_map]
  cases hj : ts[j]? with
  | none => simp
  | some u =>
    by_cases heq : i = j
    · subst heq
      cases hi.symm.trans hj
      simp [hself]
    · have hne := (key_ne_iff hd hi hj).mpr (Ne.symm heq)
      simp [heq, hother u hne]

/-- Every row changes, one of them in another way. -/
theorem map_mapIdx [DecidableEq κ] {i : Nat} {f : Bool → β → β} (hd : (ts.map key).Nodup)
    (hi : ts[i]? = some t) (hall : ∀ u ∈ ts, g u = f (decide (key u ≠ key t)) (h u)) :
    ts.map g = (ts.map h).mapIdx (fun j b => f (decide (j ≠ i)) b) := by
  apply List.ext_getElem?
  intro j
  rw [List.getElem?_mapIdx, List.getElem?_map, List.getElem?_map]
  cases hj : ts[j]? with
  | none => rfl
  | some u =>
    have hrow := hall u (List.mem_of_getElem? hj)
    rw [decide_eq_decide.mpr (key_ne_iff hd hi hj)] at hrow
    exact congrArg some hrow

/-- The row under a key, whichever of its items is found. -/
theorem find?_map [DecidableEq κ] {name : β → κ} (hname : ∀ u, name (h u) = key u)
    (hrow : ∀ u, key u = key t → h u = h t) (hmem : key t ∈ ts.map key) :
    (ts.map h).find? (fun b => name b = key t) = some (h t) := by
  cases hfind : (ts.map h).find? (fun b => name b = key t) with
  | none =>
    obtain ⟨u, hu, hkey⟩ := List.mem_map.mp hmem
    have hnot := List.find?_eq_none.mp hfind (h u) (List.mem_map_of_mem hu)
    rw [hname, hkey] at hnot
    simp at hnot
  | some b =>
    obtain ⟨u, -, rfl⟩ := List.mem_map.mp (List.mem_of_find?_eq_some hfind)
    have hkey := List.find?_some hfind
    rw [hname, decide_eq_true_eq] at hkey
    rw [hrow u hkey]

/-- Two tables with the same keys have the same sum, if each row is given by its key. -/
theorem sum_map_eq {σ : Type z} [AddCommMonoid β] {name : σ → κ} {ss : List σ} {f : σ → β}
    (row : κ → β) (hd : (ts.map key).Nodup) (hs : (ss.map name).Nodup)
    (hkeys : ∀ k, k ∈ ss.map name ↔ k ∈ ts.map key) (hf : ∀ s ∈ ss, f s = row (name s))
    (hh : ∀ t ∈ ts, h t = row (key t)) : (ss.map f).sum = (ts.map h).sum := by
  have hperm := (List.perm_ext_iff_of_nodup hs hd).mpr hkeys
  calc (ss.map f).sum
      = ((ss.map name).map row).sum := by rw [List.map_map, List.map_congr_left hf]; rfl
    _ = ((ts.map key).map row).sum := (hperm.map row).sum_eq
    _ = (ts.map h).sum := by rw [List.map_map, List.map_congr_left hh]; rfl

end KeyedRows
