import StreamMix.Extension.Graph
import Mathlib.Algebra.BigOperators.Group.Finset.Basic
import Mathlib.Tactic.Ring

/-! A mixer in which each track has a delay and an inverter of its own. -/

namespace StreamMix.Extension.PerTrack

open SignalGraph

def entry (i : Nat) : Nat := 4 * i + 4
def userGain (i : Nat) : Nat := 4 * i + 5
def delay (i : Nat) : Nat := 4 * i + 6
def inverter (i : Nat) : Nat := 4 * i + 7

def kind (b d : ℚ) (tracks : List (String × ℚ)) : Nat → Kind
  | 2 => .gain b
  | 3 => .gain 1
  | n + 4 =>
    match n % 4 with
    | 0 => .gain 1
    | 1 => .gain (tracks[n / 4]?.elim 0 Prod.snd)
    | 2 => .delay maxOffsetSeconds d
    | _ => .gain (-1)
  | _ => .wire

def edges (i : Nat) : Finset (Nat × Nat) :=
  {(entry i, userGain i), (userGain i, 3), (entry i, delay i), (delay i, inverter i),
    (inverter i, 3)}

/-- The player's source 1, the broadcast gain 2 and the master 3, and four nodes for each
track. -/
def graph (b d : ℚ) (tracks : List (String × ℚ)) : Context where
  next := 4 * tracks.length + 4
  kind := kind b d tracks
  edges := {(1, 2), (2, 3), (3, 0)} ∪ (Finset.range tracks.length).biUnion edges

def feed (tracks : List (String × ℚ)) (player : Signal) (x : String → Signal) : Nat → Signal
  | 1 => player
  | n + 4 => if n % 4 = 0 then tracks[n / 4]?.elim 0 (fun p => x p.1) else 0
  | _ => 0

section

variable {b d : ℚ} {tracks : List (String × ℚ)} {i k : Nat}
  (player : Signal) (x : String → Signal)

theorem mem_sources (m n : Nat) : m ∈ (graph b d tracks).sources n ↔
    (m = 1 ∧ n = 2 ∨ m = 2 ∧ n = 3 ∨ m = 3 ∧ n = 0) ∨
      ∃ i < tracks.length, m = entry i ∧ n = userGain i ∨ m = userGain i ∧ n = 3 ∨
        m = entry i ∧ n = delay i ∨ m = delay i ∧ n = inverter i ∨ m = inverter i ∧ n = 3 := by
  simp [graph, edges, or_assoc]

theorem sources_entry (i : Nat) : (graph b d tracks).sources (entry i) = ∅ := by
  ext m
  rw [mem_sources]
  simp only [entry, userGain, delay, inverter, Finset.notMem_empty, iff_false]
  rintro (h | ⟨j, hj, h⟩) <;> omega

/-- The nodes of a track behind its entry. -/
theorem sources_single (hi : i < tracks.length)
    (h : m = entry i ∧ n = userGain i ∨ m = entry i ∧ n = delay i ∨ m = delay i ∧ n = inverter i) :
    (graph b d tracks).sources n = {m} := by
  ext k
  rw [mem_sources]
  simp only [entry, userGain, delay, inverter, Finset.mem_singleton] at h ⊢
  constructor
  · rintro (hk | ⟨j, hj, hk⟩) <;> omega
  · intro hk
    exact .inr ⟨i, hi, by omega⟩

theorem sources_master : (graph b d tracks).sources 3 =
    insert 2 ((Finset.range tracks.length).image userGain ∪
      (Finset.range tracks.length).image inverter) := by
  ext m
  rw [mem_sources]
  simp only [entry, userGain, delay, inverter, Finset.mem_insert, Finset.mem_union,
    Finset.mem_image, Finset.mem_range, and_true]
  constructor
  · rintro (h | ⟨j, hj, h⟩)
    · exact .inl (by omega)
    · obtain h | h : m = 4 * j + 5 ∨ m = 4 * j + 7 := by omega
      · exact .inr (.inl ⟨j, hj, h.symm⟩)
      · exact .inr (.inr ⟨j, hj, h.symm⟩)
  · rintro (h | ⟨j, hj, h⟩ | ⟨j, hj, h⟩)
    · exact .inl (by omega)
    · exact .inr ⟨j, hj, by omega⟩
    · exact .inr ⟨j, hj, by omega⟩

theorem sources_inner (hn : n < 3) (m : Nat) : m ∈ (graph b d tracks).sources n ↔
    m = 1 ∧ n = 2 ∨ m = 3 ∧ n = 0 := by
  rw [mem_sources]
  simp only [entry, userGain, delay, inverter]
  constructor
  · rintro (h | ⟨j, hj, h⟩) <;> omega
  · intro h
    exact .inl (by omega)

theorem kind_entry (i : Nat) : (graph b d tracks).kind (entry i) = .gain 1 := by
  simp [graph, kind, entry]

theorem kind_userGain (i : Nat) :
    (graph b d tracks).kind (userGain i) = .gain (tracks[i]?.elim 0 Prod.snd) := by
  have hmod : (4 * i + 1) % 4 = 1 := by omega
  have hdiv : (4 * i + 1) / 4 = i := by omega
  simp [graph, kind, userGain, hmod, hdiv]

theorem kind_delay (i : Nat) :
    (graph b d tracks).kind (delay i) = .delay maxOffsetSeconds d := by
  have hmod : (4 * i + 2) % 4 = 2 := by omega
  simp [graph, kind, delay, hmod]

theorem kind_inverter (i : Nat) : (graph b d tracks).kind (inverter i) = .gain (-1) := by
  have hmod : (4 * i + 3) % 4 = 3 := by omega
  simp [graph, kind, inverter, hmod]

theorem feed_entry (i : Nat) :
    feed tracks player x (entry i) = tracks[i]?.elim 0 (fun p => x p.1) := by
  simp [feed, entry]

theorem feed_inner (h : n ≠ 1) (hn : n < 4 ∨ n % 4 ≠ 0) : feed tracks player x n = 0 := by
  match n with
  | 0 | 2 | 3 => rfl
  | 1 => exact absurd rfl h
  | n + 4 => exact if_neg (by omega)

theorem signal_entry (hk : 1 ≤ k) (i : Nat) (t : ℝ) :
    (graph b d tracks).signal (feed tracks player x) k (entry i) t =
      tracks[i]?.elim 0 (fun p => x p.1 t) := by
  obtain ⟨k, rfl⟩ := Nat.exists_eq_add_of_le' hk
  rw [Context.signal_gain _ (kind_entry i), sources_entry, feed_entry]
  cases tracks[i]? <;> simp

theorem signal_userGain (hk : 2 ≤ k) (hi : i < tracks.length) (t : ℝ) :
    (graph b d tracks).signal (feed tracks player x) k (userGain i) t =
      tracks[i]?.elim 0 (fun p => p.2 * x p.1 t) := by
  obtain ⟨k, rfl⟩ := Nat.exists_eq_add_of_le' hk
  have hfeed : feed tracks player x (userGain i) = 0 :=
    feed_inner player x (by simp [userGain]) (.inr (by rw [userGain]; omega))
  rw [Context.signal_gain _ (kind_userGain i), sources_single hi (.inl ⟨rfl, rfl⟩), hfeed,
    Finset.sum_singleton, signal_entry player x (by omega)]
  cases tracks[i]? <;> simp

theorem signal_inverter (hk : 3 ≤ k) (hi : i < tracks.length) (t : ℝ) :
    (graph b d tracks).signal (feed tracks player x) k (inverter i) t =
      -tracks[i]?.elim 0 (fun p => x p.1 (t - d)) := by
  obtain ⟨k, rfl⟩ := Nat.exists_eq_add_of_le' hk
  have hdelay : feed tracks player x (delay i) = 0 :=
    feed_inner player x (by simp [delay]) (.inr (by rw [delay]; omega))
  have hinverter : feed tracks player x (inverter i) = 0 :=
    feed_inner player x (by simp [inverter]) (.inr (by rw [inverter]; omega))
  rw [Context.signal_gain _ (kind_inverter i), sources_single hi (.inr (.inr ⟨rfl, rfl⟩)),
    hinverter, Finset.sum_singleton, Context.signal_delay _ (kind_delay i),
    sources_single hi (.inr (.inl ⟨rfl, rfl⟩)), hdelay, Finset.sum_singleton,
    signal_entry player x (by omega)]
  simp

theorem signal_broadcast (hk : 2 ≤ k) (t : ℝ) :
    (graph b d tracks).signal (feed tracks player x) k 2 t = b * player t := by
  obtain ⟨k, rfl⟩ := Nat.exists_eq_add_of_le' hk
  have hsource : (graph b d tracks).sources 1 = ∅ := by
    ext m
    rw [sources_inner (by omega)]
    simp
  have hgain : (graph b d tracks).sources 2 = {1} := by
    ext m
    rw [sources_inner (by omega)]
    simp
  have hkind : (graph b d tracks).kind 2 = .gain b := rfl
  have hwire : (graph b d tracks).kind 1 = .wire := rfl
  rw [Context.signal_gain _ hkind, hgain, feed_inner player x (by omega) (by omega),
    Finset.sum_singleton, Context.signal_wire _ hwire, hsource]
  simp [feed]

theorem sum_getElem (l : List α) (f : α → ℝ) :
    ∑ i ∈ Finset.range l.length, l[i]?.elim 0 f = (l.map f).sum := by
  induction l with
  | nil => rfl
  | cons a l ih =>
    rw [List.length_cons, Finset.sum_range_succ']
    simp [ih, add_comm]

theorem userGain_injective : Function.Injective userGain := by
  intro i j h
  simp only [userGain] at h
  omega

theorem inverter_injective : Function.Injective inverter := by
  intro i j h
  simp only [inverter] at h
  omega

/-- What comes together at the master. -/
theorem sum_master (f : Nat → ℝ) : ∑ m ∈ (graph b d tracks).sources 3, f m =
    f 2 + (∑ i ∈ Finset.range tracks.length, f (userGain i) +
      ∑ i ∈ Finset.range tracks.length, f (inverter i)) := by
  have hdisjoint : Disjoint ((Finset.range tracks.length).image userGain)
      ((Finset.range tracks.length).image inverter) := by
    simp only [Finset.disjoint_left, Finset.mem_image, userGain, inverter]
    rintro m ⟨i, -, hi⟩ ⟨j, -, hj⟩
    omega
  have htwo : 2 ∉ (Finset.range tracks.length).image userGain ∪
      (Finset.range tracks.length).image inverter := by
    simp only [Finset.mem_union, Finset.mem_image, userGain, inverter]
    rintro (⟨i, -, hi⟩ | ⟨i, -, hi⟩) <;> omega
  rw [sources_master, Finset.sum_insert htwo, Finset.sum_union hdisjoint,
    Finset.sum_image userGain_injective.injOn, Finset.sum_image inverter_injective.injOn]

theorem output_eq (t : ℝ) : (graph b d tracks).output (feed tracks player x) t =
    b * player t + (tracks.map (fun p => p.2 * x p.1 t - x p.1 (t - d))).sum := by
  have hdest : (graph b d tracks).kind 0 = .wire := rfl
  have hmaster : (graph b d tracks).kind 3 = .gain 1 := rfl
  have hnext : (graph b d tracks).next = 4 * tracks.length + 2 + 1 + 1 := rfl
  have hsources : (graph b d tracks).sources 0 = {3} := by
    ext m
    rw [sources_inner (by omega)]
    simp
  have htrack (i : Nat) (hi : i ∈ Finset.range tracks.length) :
      (graph b d tracks).signal (feed tracks player x) (4 * tracks.length + 2) (userGain i) t +
        (graph b d tracks).signal (feed tracks player x) (4 * tracks.length + 2) (inverter i) t =
          tracks[i]?.elim 0 (fun p => p.2 * x p.1 t - x p.1 (t - d)) := by
    have hi := Finset.mem_range.mp hi
    rw [signal_userGain player x (by omega) hi, signal_inverter player x (by omega) hi]
    cases tracks[i]? with
    | none => simp
    | some p => exact (sub_eq_add_neg _ _).symm
  rw [Context.output, hnext, Context.destination, Context.signal_wire _ hdest, hsources,
    feed_inner player x (by omega) (by omega), Finset.sum_singleton,
    Context.signal_gain _ hmaster, feed_inner player x (by omega) (by omega), sum_master,
    signal_broadcast player x (by omega), ← Finset.sum_add_distrib,
    Finset.sum_congr rfl htrack, sum_getElem]
  simp

end

end StreamMix.Extension.PerTrack
