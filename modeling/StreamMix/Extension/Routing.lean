import StreamMix.Extension.Graph
import Mathlib.Algebra.BigOperators.Group.List.Basic
import Mathlib.Tactic.LinearCombination
import Mathlib.Tactic.NormNum
import Mathlib.Tactic.Ring

namespace StreamMix.Extension

open SignalGraph Js

def backbone : List (Nat × Nat) := [(1, 2), (2, 6), (3, 4), (4, 5), (5, 6), (6, 0)]

def TrackNodes.edges (t : TrackNodes) : List (Nat × Nat) :=
  [(t.entry, t.userGain), (t.userGain, 6), (t.entry, 3)]

/-- The routing diagram: the backbone that `buildGraph` lays, and for every listed
track its own two nodes with their three connections. -/
structure Routed (g : MixerGraph) : Prop where
  ids : g.source = 1 ∧ g.broadcastGain = 2 ∧ g.cancellationSum = 3 ∧ g.sharedDelay = 4 ∧
    g.inverter = 5 ∧ g.master = 6
  next : 7 ≤ g.ctx.next
  slugs : (g.tracks.map Prod.fst).Nodup
  entries : (g.tracks.map (fun p => p.2.entry)).Nodup
  gains : (g.tracks.map (fun p => p.2.userGain)).Nodup
  apart : ∀ p ∈ g.tracks, ∀ q ∈ g.tracks, p.2.entry ≠ q.2.userGain
  fresh : ∀ p ∈ g.tracks, 7 ≤ p.2.entry ∧ p.2.entry < g.ctx.next ∧
    7 ≤ p.2.userGain ∧ p.2.userGain < g.ctx.next
  edges : ∀ e, e ∈ g.ctx.edges ↔ e ∈ backbone ∨ ∃ p ∈ g.tracks, e ∈ p.2.edges

/-- What each node of the diagram does to its input. -/
structure Tuned (g : MixerGraph) : Prop where
  destination : g.ctx.kind 0 = .wire
  source : g.ctx.kind 1 = .wire
  broadcast : g.ctx.kind 2 = .gain g.broadcast
  cancellationSum : g.ctx.kind 3 = .gain 1
  delay : g.ctx.kind 4 = .delay maxOffsetSeconds g.delay
  inverter : g.ctx.kind 5 = .gain (-1)
  master : g.ctx.kind 6 = .gain 1
  entry : ∀ p ∈ g.tracks, g.ctx.kind p.2.entry = .gain 1
  userGain : ∀ p ∈ g.tracks, g.ctx.kind p.2.userGain = .gain (g.gainOf p.2)

theorem routed_buildGraph : Routed buildGraph where
  ids := ⟨rfl, rfl, rfl, rfl, rfl, rfl⟩
  next := by decide
  slugs := List.nodup_nil
  entries := List.nodup_nil
  gains := List.nodup_nil
  apart := by intro p hp; cases hp
  fresh := by intro p hp; cases hp
  edges := by
    intro e
    simp [buildGraph, Context.create, Context.connect, Context.set, Context.empty, backbone,
      Context.destination]
    tauto

theorem tuned_buildGraph : Tuned buildGraph where
  destination := rfl
  source := rfl
  broadcast := rfl
  cancellationSum := rfl
  delay := rfl
  inverter := rfl
  master := rfl
  entry := by intro p hp; cases hp
  userGain := by intro p hp; cases hp

theorem lookup_none_iff (l : List (String × α)) (slug : String) :
    l.lookup slug = none ↔ ∀ p ∈ l, p.1 ≠ slug := by
  simp only [List.lookup_eq_none_iff, bne_iff_ne, ne_comm]

theorem mem_of_lookup {l : List (String × α)} (h : l.lookup slug = some v) : (slug, v) ∈ l := by
  obtain ⟨before, after, rfl, -⟩ := List.lookup_eq_some_iff.mp h
  exact List.mem_append_right _ List.mem_cons_self

theorem Routed.set {g : MixerGraph} (h : Routed g) (n : Nat) (k : Kind) :
    Routed { g with ctx := g.ctx.set n k } :=
  { h with }

theorem Tuned.setGain {g : MixerGraph} (h : Tuned g) (hr : Routed g) (n : Nat) (v : ℚ)
    (hn : n = 2 ∨ ∃ p ∈ g.tracks, n = p.2.userGain) :
    Tuned { g with ctx := g.ctx.set n (.gain v) } := by
  obtain ⟨h0, h1, h2, h3, h4, h5, h6, he, hu⟩ := h
  obtain ⟨⟨hi1, hi2, hi3, hi4, hi5, hi6⟩, -, -, -, -, ha, hf, -⟩ := hr
  constructor <;> simp only [Context.set, Function.update_apply, MixerGraph.broadcast,
    MixerGraph.delay, MixerGraph.gainOf] at * <;> grind [Kind.value]

theorem Tuned.setDelay {g : MixerGraph} (h : Tuned g) (hr : Routed g) (o d : ℚ) :
    Tuned { g with
      offsetMs := o, ctx := g.ctx.set g.sharedDelay (.delay maxOffsetSeconds d) } := by
  obtain ⟨h0, h1, h2, h3, h4, h5, h6, he, hu⟩ := h
  obtain ⟨⟨hi1, hi2, hi3, hi4, hi5, hi6⟩, -, -, -, -, ha, hf, -⟩ := hr
  constructor <;> simp only [Context.set, Function.update_apply, MixerGraph.broadcast,
    MixerGraph.delay, MixerGraph.gainOf] at * <;> grind [Kind.value]

/-- The two nodes that `addTrack` creates. -/
def MixerGraph.newNodes (g : MixerGraph) : TrackNodes := ⟨g.ctx.next, g.ctx.next + 1⟩

theorem MixerGraph.addTrack_new {g : MixerGraph} (hr : Routed g)
    (h : g.tracks.lookup slug = none) : g.addTrack slug =
      { g with
        ctx :=
          { next := g.ctx.next + 2
            kind := Function.update (Function.update g.ctx.kind g.ctx.next (.gain 1))
              (g.ctx.next + 1) (.gain 0.5)
            edges := insert (g.ctx.next, 3) (insert (g.ctx.next + 1, 6)
              (insert (g.ctx.next, g.ctx.next + 1) g.ctx.edges)) }
        tracks := g.tracks ++ [(slug, g.newNodes)] } := by
  obtain ⟨-, -, hc, -, -, hm⟩ := hr.ids
  simp only [addTrack, h, Context.create, Context.connect, Context.set, hc, hm]
  rfl

theorem Routed.addTrack {g : MixerGraph} (h : Routed g) (slug : String) :
    Routed (g.addTrack slug) := by
  cases hl : g.tracks.lookup slug with
  | some t => simpa [MixerGraph.addTrack, hl] using h
  | none =>
    rw [MixerGraph.addTrack_new h hl]
    have hslug := (lookup_none_iff _ _).mp hl
    have hf := h.fresh
    have hn := h.next
    refine ⟨h.ids, ?_, ?_, ?_, ?_, ?_, ?_, ?_⟩
    · simp only
      omega
    · simp only [List.map_append, List.map_cons, List.map_nil]
      refine List.nodup_append.mpr ⟨h.slugs, List.nodup_singleton _, ?_⟩
      simpa using fun a b hab => hslug (a, b) hab
    · simp only [List.map_append, List.map_cons, List.map_nil, MixerGraph.newNodes]
      refine List.nodup_append.mpr ⟨h.entries, List.nodup_singleton _, ?_⟩
      grind
    · simp only [List.map_append, List.map_cons, List.map_nil, MixerGraph.newNodes]
      refine List.nodup_append.mpr ⟨h.gains, List.nodup_singleton _, ?_⟩
      grind
    · have ha := h.apart
      simp only [List.mem_append, List.mem_singleton, MixerGraph.newNodes]
      grind
    · simp only [List.mem_append, List.mem_singleton, MixerGraph.newNodes]
      grind
    · intro e
      have he := h.edges e
      simp only [Finset.mem_insert, he, List.mem_append, List.mem_singleton,
        MixerGraph.newNodes, TrackNodes.edges]
      grind

theorem Tuned.addTrack {g : MixerGraph} (h : Tuned g) (hr : Routed g) (slug : String) :
    Tuned (g.addTrack slug) := by
  cases hl : g.tracks.lookup slug with
  | some t => simpa [MixerGraph.addTrack, hl] using h
  | none =>
    rw [MixerGraph.addTrack_new hr hl]
    have hf := hr.fresh
    have hn := hr.next
    obtain ⟨h0, h1, h2, h3, h4, h5, h6, he, hu⟩ := h
    obtain ⟨hi1, hi2, hi3, hi4, hi5, hi6⟩ := hr.ids
    constructor <;> simp only [Function.update_apply, MixerGraph.broadcast, MixerGraph.delay,
      MixerGraph.gainOf, MixerGraph.newNodes, List.mem_append, List.mem_singleton] at * <;>
      grind [Kind.value]

theorem Routed.removeTrack {g : MixerGraph} (h : Routed g) (slug : String) :
    Routed (g.removeTrack slug) := by
  cases hl : g.tracks.lookup slug with
  | none => simpa [MixerGraph.removeTrack, hl] using h
  | some t =>
    have ht := mem_of_lookup hl
    have hsub : (g.tracks.filter (fun p => p.1 ≠ slug)).Sublist g.tracks := List.filter_sublist
    simp only [MixerGraph.removeTrack, hl]
    refine ⟨h.ids, h.next, h.slugs.sublist (hsub.map _), h.entries.sublist (hsub.map _),
      h.gains.sublist (hsub.map _), ?_, ?_, ?_⟩
    · intro p hp q hq
      exact h.apart p (hsub.mem hp) q (hsub.mem hq)
    · intro p hp
      exact h.fresh p (hsub.mem hp)
    · intro e
      have he := h.edges e
      have hslug := fun p hp => List.inj_on_of_nodup_map h.slugs (x := p) hp ht
      have hentry := fun p hp => List.inj_on_of_nodup_map h.entries (x := p) hp ht
      have hgain := fun p hp => List.inj_on_of_nodup_map h.gains (x := p) hp ht
      have happart := h.apart
      have hf := h.fresh
      simp only [Context.disconnect, Finset.mem_filter, he, List.mem_filter, backbone,
        TrackNodes.edges, List.mem_cons, List.not_mem_nil, or_false, decide_eq_true_eq] at *
      constructor
      · rintro ⟨⟨hb | ⟨p, hp, hpe⟩, h1⟩, h2⟩
        · exact .inl hb
        · refine .inr ⟨p, ⟨hp, ?_⟩, hpe⟩
          grind
      · rintro (hb | ⟨p, ⟨hp, hps⟩, hpe⟩)
        · have := hf _ ht
          refine ⟨⟨.inl hb, ?_⟩, ?_⟩ <;> grind
        · have h1 := happart p hp _ ht
          have h2 := happart _ ht p hp
          have h3 := hentry p hp
          have h4 := hgain p hp
          refine ⟨⟨.inr ⟨p, hp, hpe⟩, ?_⟩, ?_⟩ <;> grind

theorem Tuned.removeTrack {g : MixerGraph} (h : Tuned g) (slug : String) :
    Tuned (g.removeTrack slug) := by
  cases hl : g.tracks.lookup slug with
  | none => simpa [MixerGraph.removeTrack, hl] using h
  | some t =>
    have hsub : (g.tracks.filter (fun p => p.1 ≠ slug)).Sublist g.tracks := List.filter_sublist
    simp only [MixerGraph.removeTrack, hl]
    exact { h with
      entry := fun p hp => h.entry p (hsub.mem hp)
      userGain := fun p hp => h.userGain p (hsub.mem hp) }

/-- Every operation keeps the diagram. -/
theorem routed_step {g : MixerGraph} (hr : Routed g) (ht : Tuned g) (a : GraphAct) :
    Routed (g.step a) ∧ Tuned (g.step a) := by
  cases a with
  | addTrack slug => exact ⟨hr.addTrack slug, ht.addTrack hr slug⟩
  | removeTrack slug => exact ⟨hr.removeTrack slug, ht.removeTrack slug⟩
  | setTrackGain slug v =>
    cases hl : g.tracks.lookup slug with
    | none => simpa [MixerGraph.step, MixerGraph.setTrackGain, hl] using ⟨hr, ht⟩
    | some t =>
      simp only [MixerGraph.step, MixerGraph.setTrackGain, hl]
      exact ⟨hr.set _ _, ht.setGain hr _ _ (.inr ⟨_, mem_of_lookup hl, rfl⟩)⟩
  | setBroadcastGain v =>
    exact ⟨hr.set _ _, ht.setGain hr _ _ (.inl hr.ids.2.1)⟩
  | setOffsetMs ms => exact ⟨{ hr.set _ _ with }, ht.setDelay hr _ _⟩

theorem routed_of_reachable {g : MixerGraph} (h : mixer.Reachable g) : Routed g ∧ Tuned g := by
  refine h.invariant (P := fun g => Routed g ∧ Tuned g) ⟨routed_buildGraph, tuned_buildGraph⟩ ?_
  rintro g a t ⟨hr, ht⟩ hs
  cases hs
  exact routed_step hr ht a

section Sources

variable {g : MixerGraph} (hr : Routed g)
include hr

theorem mem_sources_iff (m n : Nat) : m ∈ g.ctx.sources n ↔
    (m, n) ∈ backbone ∨ ∃ p ∈ g.tracks, (m, n) ∈ p.2.edges := by
  rw [Context.mem_sources, hr.edges]

theorem sources_entry (hp : p ∈ g.tracks) : g.ctx.sources p.2.entry = ∅ := by
  have hf := hr.fresh
  have ha := hr.apart
  ext m
  rw [mem_sources_iff hr]
  simp only [backbone, TrackNodes.edges, List.mem_cons, Prod.mk.injEq, List.not_mem_nil]
  grind

theorem sources_userGain (hp : p ∈ g.tracks) : g.ctx.sources p.2.userGain = {p.2.entry} := by
  have hf := hr.fresh
  have hg := fun q hq => List.inj_on_of_nodup_map hr.gains (x := q) hq hp
  ext m
  rw [mem_sources_iff hr]
  simp only [backbone, TrackNodes.edges, List.mem_cons, Prod.mk.injEq, List.not_mem_nil,
    Finset.mem_singleton]
  grind

theorem sources_cancellationSum :
    g.ctx.sources 3 = (g.tracks.map (fun p => p.2.entry)).toFinset := by
  have hf := hr.fresh
  ext m
  rw [mem_sources_iff hr]
  simp only [backbone, TrackNodes.edges, List.mem_cons, Prod.mk.injEq, List.not_mem_nil,
    List.mem_toFinset, List.mem_map]
  grind

theorem sources_master :
    g.ctx.sources 6 = insert 2 (insert 5 (g.tracks.map (fun p => p.2.userGain)).toFinset) := by
  have hf := hr.fresh
  ext m
  rw [mem_sources_iff hr]
  simp only [backbone, TrackNodes.edges, List.mem_cons, Prod.mk.injEq, List.not_mem_nil,
    Finset.mem_insert, List.mem_toFinset, List.mem_map]
  grind

theorem sources_inner (hn : n < 6) (h3 : n ≠ 3) (m : Nat) :
    m ∈ g.ctx.sources n ↔ (m, n) ∈ backbone := by
  have hf := hr.fresh
  rw [mem_sources_iff hr]
  simp only [TrackNodes.edges, List.mem_cons, Prod.mk.injEq, List.not_mem_nil]
  grind

theorem sources_single (hn : n < 6) (h3 : n ≠ 3) (hm : (m, n) ∈ backbone)
    (hu : ∀ k, (k, n) ∈ backbone → k = m) : g.ctx.sources n = {m} := by
  ext k
  rw [sources_inner hr hn h3, Finset.mem_singleton]
  exact ⟨hu k, fun h => h ▸ hm⟩

theorem feed_inner (player : Signal) (x : String → Signal) (hn : n < 7) (hs : n ≠ 1) :
    g.feed player x n = 0 := by
  have hnone : g.tracks.find? (fun p => p.2.entry = n) = none := by
    simp only [List.find?_eq_none, decide_eq_true_eq]
    intro p hp
    have := hr.fresh p hp
    omega
  simp [MixerGraph.feed, hr.ids.1, hs, hnone]

theorem feed_source (player : Signal) (x : String → Signal) : g.feed player x 1 = player := by
  simp [MixerGraph.feed, hr.ids.1]

theorem feed_entry (player : Signal) (x : String → Signal) (hp : p ∈ g.tracks) :
    g.feed player x p.2.entry = x p.1 := by
  have hf := hr.fresh p hp
  have hs : p.2.entry ≠ g.source := by
    rw [hr.ids.1]
    omega
  have hfind : g.tracks.find? (fun q => q.2.entry = p.2.entry) = some p := by
    cases hq : g.tracks.find? (fun q => q.2.entry = p.2.entry) with
    | none => exact absurd (List.find?_eq_none.mp hq p hp) (by simp)
    | some q =>
      have hmem := List.mem_of_find?_eq_some hq
      have heq : q.2.entry = p.2.entry := by simpa using List.find?_some hq
      rw [List.inj_on_of_nodup_map hr.entries hmem hp heq]
  simp [MixerGraph.feed, hs, hfind]

end Sources

section Output

variable {g : MixerGraph} (hr : Routed g) (ht : Tuned g) (player : Signal) (x : String → Signal)
include hr ht

theorem signal_entry (hp : p ∈ g.tracks) (t : ℝ) :
    g.ctx.signal (g.feed player x) (k + 1) p.2.entry t = x p.1 t := by
  rw [Context.signal_gain _ (ht.entry p hp), sources_entry hr hp, feed_entry hr _ _ hp]
  simp

theorem signal_userGain (hp : p ∈ g.tracks) (t : ℝ) :
    g.ctx.signal (g.feed player x) (k + 2) p.2.userGain t = g.gainOf p.2 * x p.1 t := by
  have hfeed : g.feed player x p.2.userGain = 0 := by
    have hnone : g.tracks.find? (fun q => q.2.entry = p.2.userGain) = none := by
      simpa using fun s q hq => hr.apart (s, q) hq p hp
    have hs : p.2.userGain ≠ g.source := by
      have := hr.fresh p hp
      rw [hr.ids.1]
      omega
    simp [MixerGraph.feed, hs, hnone]
  rw [Context.signal_gain _ (ht.userGain p hp), sources_userGain hr hp, hfeed,
    Finset.sum_singleton, signal_entry hr ht _ _ hp]
  simp

theorem signal_broadcast (t : ℝ) :
    g.ctx.signal (g.feed player x) (k + 2) 2 t = g.broadcast * player t := by
  have h1 : g.ctx.sources 1 = ∅ := by
    ext m
    rw [sources_inner hr (by omega) (by omega)]
    simp [backbone]
  have h2 : g.ctx.sources 2 = {1} :=
    sources_single hr (by omega) (by omega) (by decide) (by simp [backbone])
  rw [Context.signal_gain _ ht.broadcast, h2, feed_inner hr _ _ (by omega) (by omega),
    Finset.sum_singleton, Context.signal_wire _ ht.source, h1, feed_source hr]
  simp

theorem signal_cancellation (t : ℝ) :
    g.ctx.signal (g.feed player x) (k + 4) 5 t =
      -(g.tracks.map (fun p => x p.1 (t - g.delay))).sum := by
  have h4 : g.ctx.sources 4 = {3} :=
    sources_single hr (by omega) (by omega) (by decide) (by simp [backbone])
  have h5 : g.ctx.sources 5 = {4} :=
    sources_single hr (by omega) (by omega) (by decide) (by simp [backbone])
  have hsum : ∀ t, g.ctx.signal (g.feed player x) (k + 2) 3 t =
      (g.tracks.map (fun p => x p.1 t)).sum := by
    intro t
    rw [Context.signal_gain _ ht.cancellationSum, sources_cancellationSum hr,
      feed_inner hr _ _ (by omega) (by omega), List.sum_toFinset _ hr.entries, List.map_map]
    simp only [Rat.cast_one, one_mul, Pi.zero_apply, zero_add]
    congr 1
    exact List.map_congr_left (fun p hp => signal_entry hr ht _ _ hp t)
  rw [Context.signal_gain _ ht.inverter, h5, feed_inner hr _ _ (by omega) (by omega),
    Finset.sum_singleton, Context.signal_delay _ ht.delay, h4,
    feed_inner hr _ _ (by omega) (by omega), Finset.sum_singleton, hsum]
  simp

/-- The closed form of the output: the broadcast at its gain, and each track at its
own gain less its delayed copy. -/
theorem output_eq (t : ℝ) : g.output player x t = g.broadcast * player t +
    (g.tracks.map (fun p => g.gainOf p.2 * x p.1 t)).sum -
      (g.tracks.map (fun p => x p.1 (t - g.delay))).sum := by
  have h0 : g.ctx.sources 0 = {6} :=
    sources_single hr (by omega) (by omega) (by decide) (by simp [backbone])
  obtain ⟨k, hk⟩ : ∃ k, g.ctx.next = k + 6 := ⟨g.ctx.next - 6, by have := hr.next; omega⟩
  have hgains : ∀ n ∈ (g.tracks.map (fun p => p.2.userGain)).toFinset, 7 ≤ n := by
    simp only [List.mem_toFinset, List.mem_map]
    rintro n ⟨p, hp, rfl⟩
    exact (hr.fresh p hp).2.2.1
  have h5 : 5 ∉ (g.tracks.map (fun p => p.2.userGain)).toFinset := fun h => by
    have := hgains 5 h
    omega
  have h2 : 2 ∉ insert 5 (g.tracks.map (fun p => p.2.userGain)).toFinset := fun h => by
    obtain h | h := Finset.mem_insert.mp h
    · omega
    · have := hgains 2 h
      omega
  have hsum : ∑ m ∈ (g.tracks.map (fun p => p.2.userGain)).toFinset,
      g.ctx.signal (g.feed player x) (k + 4) m t =
        (g.tracks.map (fun p => g.gainOf p.2 * x p.1 t)).sum := by
    rw [List.sum_toFinset _ hr.gains, List.map_map]
    congr 1
    exact List.map_congr_left (fun p hp => signal_userGain hr ht _ _ hp t)
  rw [MixerGraph.output, Context.output, hk, Context.destination,
    Context.signal_wire _ ht.destination, h0, feed_inner hr _ _ (by omega) (by omega),
    Finset.sum_singleton, Context.signal_gain _ ht.master, sources_master hr,
    feed_inner hr _ _ (by omega) (by omega), Finset.sum_insert h2, Finset.sum_insert h5, hsum,
    signal_broadcast hr ht, signal_cancellation hr ht]
  simp only [Pi.zero_apply, zero_add, Rat.cast_one, one_mul]
  ring

end Output

namespace MixerGraph

end MixerGraph

end StreamMix.Extension
