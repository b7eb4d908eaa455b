import StreamMix.Extension.PerTrack
import StreamMix.Extension.Routing

/-! The routing of every mixer, and the same output from a graph in which each track has a delay
and an inverter of its own. -/

namespace StreamMix.Extension

open SignalGraph Js

/-! Ranges -/

/-- A gain between silence and full, or a delay within the buffer. -/
def InRange : Kind → Prop
  | .wire => True
  | .gain v => 0 ≤ v ∧ v ≤ 1
  | .delay w d => w = maxOffsetSeconds ∧ 0 ≤ d ∧ d ≤ maxOffsetSeconds

/-- Every node but the inverter is in range. -/
def Bounded (g : MixerGraph) : Prop := ∀ n, n ≠ 5 → InRange (g.ctx.kind n)

theorem clamp01_range (v : Number) : 0 ≤ clamp01 v ∧ clamp01 v ≤ 1 := by
  cases v with
  | fin v =>
    rw [clamp01]
    split_ifs with hlow hhigh
    · norm_num
    · norm_num
    · exact ⟨not_lt.mp hlow, not_lt.mp hhigh⟩
  | _ => exact ⟨le_rfl, zero_le_one⟩

theorem inRange_update {kind : Nat → Kind} (h : ∀ m, m ≠ 5 → InRange (kind m)) (n : Nat)
    (hk : n ≠ 5 → InRange k) : ∀ m, m ≠ 5 → InRange (Function.update kind n k m) := by
  intro m hm
  rw [Function.update_apply]
  split_ifs with hmn
  · exact hk (hmn ▸ hm)
  · exact h m hm

theorem bounded_buildGraph : Bounded buildGraph := by
  have hgain : InRange (.gain 1) := ⟨zero_le_one, le_rfl⟩
  have hdelay : InRange (.delay maxOffsetSeconds 0) := by norm_num [InRange, maxOffsetSeconds]
  have hempty : ∀ m, m ≠ 5 → InRange (Context.empty.kind m) := fun _ _ => trivial
  have hsource := inRange_update hempty 1 (k := .wire) (fun _ => trivial)
  have hbroadcast := inRange_update hsource 2 (fun _ => hgain)
  have hsum := inRange_update hbroadcast 3 (fun _ => hgain)
  have hshared := inRange_update hsum 4 (fun _ => hdelay)
  have hinverter := inRange_update hshared 5 (k := .gain (-1)) (fun h => absurd rfl h)
  exact inRange_update hinverter 6 (fun _ => hgain)

theorem clampMs_range (ms : ℚ) :
    0 ≤ max 0 (min maxOffsetMs ms) / 1000 ∧
      max 0 (min maxOffsetMs ms) / 1000 ≤ maxOffsetSeconds := by
  have hhigh : max 0 (min maxOffsetMs ms) ≤ maxOffsetSeconds * 1000 :=
    max_le (by norm_num [maxOffsetSeconds]) (min_le_left _ _)
  have hlow : 0 ≤ max 0 (min maxOffsetMs ms) := le_max_left _ _
  constructor
  · positivity
  · linarith

theorem Bounded.step {g : MixerGraph} (hr : Routed g) (h : Bounded g) (a : GraphAct) :
    Bounded (g.step a) := by
  cases a with
  | addTrack slug =>
    cases hl : g.tracks.lookup slug with
    | some t => simpa [MixerGraph.step, MixerGraph.addTrack, hl] using h
    | none =>
      rw [MixerGraph.step, MixerGraph.addTrack_new hr hl]
      have hentry : InRange (.gain 1) := ⟨zero_le_one, le_rfl⟩
      have huser : InRange (.gain 0.5) := by norm_num [InRange]
      exact inRange_update (inRange_update h _ (fun _ => hentry)) _ (fun _ => huser)
  | removeTrack slug =>
    cases hl : g.tracks.lookup slug with
    | none => simpa [MixerGraph.step, MixerGraph.removeTrack, hl] using h
    | some t =>
      simp only [MixerGraph.step, MixerGraph.removeTrack, hl]
      exact h
  | setTrackGain slug v =>
    cases hl : g.tracks.lookup slug with
    | none => simpa [MixerGraph.step, MixerGraph.setTrackGain, hl] using h
    | some t =>
      simp only [MixerGraph.step, MixerGraph.setTrackGain, hl]
      exact inRange_update h _ (fun _ => clamp01_range v)
  | setBroadcastGain v => exact inRange_update h _ (fun _ => clamp01_range v)
  | setOffsetMs ms =>
    apply inRange_update h
    intro _
    refine ⟨rfl, ?_⟩
    cases ms with
    | fin ms => exact clampMs_range ms
    | _ => norm_num [maxOffsetSeconds]

/-! Runs -/

def MixerGraph.after (as : List GraphAct) : MixerGraph := as.foldl MixerGraph.step buildGraph

theorem run_mixer (g : MixerGraph) (as : List GraphAct) :
    mixer.run g as = some (as.foldl MixerGraph.step g) := by
  induction as generalizing g with
  | nil => rfl
  | cons a as ih => exact ih (g.step a)

theorem reachable_after (as : List GraphAct) : mixer.Reachable (MixerGraph.after as) :=
  (Machine.Reachable.init mixer).of_run as (run_mixer buildGraph as)

theorem bounded_of_reachable {g : MixerGraph} (h : mixer.Reachable g) : Bounded g := by
  have hall : (Routed g ∧ Tuned g) ∧ Bounded g := by
    refine h.invariant (P := fun g => (Routed g ∧ Tuned g) ∧ Bounded g)
      ⟨⟨routed_buildGraph, tuned_buildGraph⟩, bounded_buildGraph⟩ ?_
    rintro g a t ⟨⟨hr, ht⟩, hb⟩ hs
    cases hs
    exact ⟨routed_step hr ht a, hb.step hr a⟩
  exact hall.2

/-! Removed tracks -/

/-- A node that was handed out and belongs to no listed track. -/
def Gone (n : Nat) (g : MixerGraph) : Prop :=
  (7 ≤ n ∧ n < g.ctx.next) ∧ ∀ p ∈ g.tracks, p.2.entry ≠ n ∧ p.2.userGain ≠ n

theorem Gone.step {g : MixerGraph} (hr : Routed g) (h : Gone n g) (a : GraphAct) :
    Gone n (g.step a) := by
  obtain ⟨⟨hlow, hhigh⟩, hother⟩ := h
  cases a with
  | addTrack slug =>
    cases hl : g.tracks.lookup slug with
    | some t => simpa [MixerGraph.step, MixerGraph.addTrack, hl] using ⟨⟨hlow, hhigh⟩, hother⟩
    | none =>
      rw [MixerGraph.step, MixerGraph.addTrack_new hr hl]
      refine ⟨⟨hlow, hhigh.trans (by simp)⟩, ?_⟩
      simp only [List.forall_mem_append, List.forall_mem_singleton, MixerGraph.newNodes]
      exact ⟨hother, hhigh.ne', (hhigh.trans (Nat.lt_succ_self _)).ne'⟩
  | removeTrack slug =>
    cases hl : g.tracks.lookup slug with
    | none => simpa [MixerGraph.step, MixerGraph.removeTrack, hl] using ⟨⟨hlow, hhigh⟩, hother⟩
    | some t =>
      simp only [MixerGraph.step, MixerGraph.removeTrack, hl]
      exact ⟨⟨hlow, hhigh⟩, fun p hp => hother p (List.mem_of_mem_filter hp)⟩
  | setTrackGain slug v =>
    cases hl : g.tracks.lookup slug with
    | none => simpa [MixerGraph.step, MixerGraph.setTrackGain, hl] using ⟨⟨hlow, hhigh⟩, hother⟩
    | some t =>
      simp only [MixerGraph.step, MixerGraph.setTrackGain, hl]
      exact ⟨⟨hlow, hhigh⟩, hother⟩
  | setBroadcastGain v => exact ⟨⟨hlow, hhigh⟩, hother⟩
  | setOffsetMs ms => exact ⟨⟨hlow, hhigh⟩, hother⟩

theorem Gone.run {g : MixerGraph} (hg : mixer.Reachable g) (h : Gone n g) (as : List GraphAct) :
    Gone n (as.foldl MixerGraph.step g) := by
  induction as generalizing g with
  | nil => exact h
  | cons a as ih => exact ih (hg.next rfl) (h.step (routed_of_reachable hg).1 a)

theorem Gone.not_reaches {g : MixerGraph} (hr : Routed g) (h : Gone n g) :
    ¬ g.ctx.Reaches n Context.destination := by
  obtain ⟨⟨hlow, -⟩, hother⟩ := h
  apply Context.not_reaches
  · intro k hk
    obtain hback | ⟨p, hp, hedge⟩ := (hr.edges _).mp hk
    · simp only [backbone, List.mem_cons, Prod.mk.injEq, List.not_mem_nil,
        or_false] at hback
      omega
    · have hp := hother p hp
      simp only [TrackNodes.edges, List.mem_cons, Prod.mk.injEq, List.not_mem_nil,
        or_false] at hedge
      omega
  · rw [Context.destination]
    omega

/-- The nodes of a removed track are gone. -/
theorem gone_removeTrack {g : MixerGraph} (hr : Routed g) (h : g.tracks.lookup slug = some t) :
    Gone t.entry (g.removeTrack slug) ∧ Gone t.userGain (g.removeTrack slug) := by
  have hmem := mem_of_lookup h
  have hfresh := hr.fresh _ hmem
  simp only [MixerGraph.removeTrack, h]
  constructor
  · refine ⟨⟨hfresh.1, hfresh.2.1⟩, ?_⟩
    intro p hp
    obtain ⟨hp, hne⟩ := List.mem_filter.mp hp
    refine ⟨fun heq => ?_, fun heq => hr.apart _ hmem p hp heq.symm⟩
    rw [List.inj_on_of_nodup_map hr.entries hp hmem heq] at hne
    simp at hne
  · refine ⟨⟨hfresh.2.2.1, hfresh.2.2.2⟩, ?_⟩
    intro p hp
    obtain ⟨hp, hne⟩ := List.mem_filter.mp hp
    refine ⟨hr.apart p hp _ hmem, fun heq => ?_⟩
    rw [List.inj_on_of_nodup_map hr.gains hp hmem heq] at hne
    simp at hne

/-! The output -/

/-- The slugs with the gains that the viewer has set. -/
def MixerGraph.gains (g : MixerGraph) : List (String × ℚ) :=
  g.tracks.map (fun p => (p.1, g.gainOf p.2))

theorem sum_map_sub (l : List α) (f k : α → ℝ) :
    (l.map (fun p => f p - k p)).sum = (l.map f).sum - (l.map k).sum := by
  induction l with
  | nil => simp
  | cons p l ih =>
    simp only [List.map_cons, List.sum_cons, ih]
    ring

/-- The mixer with one delay: its routing, what its nodes do and their ranges, and what the viewer
hears, which is what a delay and an inverter for each track would give. -/
structure MixerGraph.Shared (g : MixerGraph) : Prop where
  routed : Routed g
  tuned : Tuned g
  bounded : ∀ n, n ≠ g.inverter → InRange (g.ctx.kind n)
  output : ∀ player x t, g.output player x t = g.broadcast * player t +
    (g.tracks.map (fun p => g.gainOf p.2 * x p.1 t - x p.1 (t - g.delay))).sum
  perTrack : ∀ player x, g.output player x =
    (PerTrack.graph g.broadcast g.delay g.gains).output (PerTrack.feed g.gains player x)

theorem shared_of_reachable {g : MixerGraph} (h : mixer.Reachable g) : g.Shared := by
  obtain ⟨hr, ht⟩ := routed_of_reachable h
  have hid : g.inverter = 5 := hr.ids.2.2.2.2.1
  have hout (player : Signal) (x : String → Signal) (t : ℝ) : g.output player x t =
      g.broadcast * player t +
        (g.tracks.map (fun p => g.gainOf p.2 * x p.1 t - x p.1 (t - g.delay))).sum := by
    rw [output_eq hr ht, sum_map_sub, add_sub_assoc]
  refine ⟨hr, ht, hid ▸ bounded_of_reachable h, hout, ?_⟩
  intro player x
  funext t
  rw [hout, PerTrack.output_eq, MixerGraph.gains, List.map_map]
  rfl

/-- After any sequence of calls the mixer is routed as the diagram shows, and the nodes of a track
that was removed have no path to the destination, whatever follows. -/
theorem shared_delay (as : List GraphAct) : (MixerGraph.after as).Shared ∧
    ∀ slug t bs, (MixerGraph.after as).tracks.lookup slug = some t →
      ∀ n ∈ [t.entry, t.userGain],
        ¬ (MixerGraph.after (as ++ .removeTrack slug :: bs)).ctx.Reaches n Context.destination := by
  refine ⟨shared_of_reachable (reachable_after as), ?_⟩
  intro slug t bs hlookup
  have hrouted := (routed_of_reachable (reachable_after as)).1
  have hafter := reachable_after (as ++ .removeTrack slug :: bs)
  have hgone := gone_removeTrack hrouted hlookup
  have hremoved : mixer.Reachable ((MixerGraph.after as).removeTrack slug) :=
    (reachable_after as).next (a := .removeTrack slug) rfl
  have hfold : MixerGraph.after (as ++ .removeTrack slug :: bs) =
      bs.foldl MixerGraph.step ((MixerGraph.after as).removeTrack slug) := List.foldl_append
  simp only [List.forall_mem_cons, List.not_mem_nil, false_implies, implies_true, and_true]
  rw [hfold] at hafter ⊢
  have hr := (routed_of_reachable hafter).1
  exact ⟨(hgone.1.run hremoved bs).not_reaches hr, (hgone.2.run hremoved bs).not_reaches hr⟩

end StreamMix.Extension
