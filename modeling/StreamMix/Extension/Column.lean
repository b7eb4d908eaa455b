import StreamMix.Extension.Mixer
import StreamMix.Extension.Routing
import StreamMix.Lib.KeyedLoop

/-! What each handler does to the entries of one slug. -/

namespace StreamMix.Extension

open SignalGraph Js

namespace MixerGraph

def level (g : MixerGraph) (slug : String) : Option ℚ := (g.tracks.lookup slug).map g.gainOf

theorem lookup_of_mem {g : MixerGraph} (hr : Routed g) (h : p ∈ g.tracks) :
    g.tracks.lookup p.1 = some p.2 := by
  cases hl : g.tracks.lookup p.1 with
  | none => exact absurd rfl ((lookup_none_iff _ _).mp hl p h)
  | some t =>
    have heq := List.inj_on_of_nodup_map hr.slugs (mem_of_lookup hl) h rfl
    exact congrArg (fun q => some (Prod.snd q)) heq

theorem lookup_addTrack_of_ne (g : MixerGraph) (h : slug ≠ added) :
    (g.addTrack added).tracks.lookup slug = g.tracks.lookup slug := by
  cases hl : g.tracks.lookup added with
  | some t => simp [addTrack, hl]
  | none =>
    have hnew (t : TrackNodes) : [(added, t)].lookup slug = none := by
      simpa using h
    simp only [addTrack, hl, List.lookup_append, hnew, Option.or_none]

theorem lookup_addTrack (hr : Routed g) (h : g.tracks.lookup slug = none) :
    (g.addTrack slug).tracks.lookup slug = some g.newNodes := by
  rw [addTrack_new hr h]
  simp [List.lookup_append, h]

theorem level_addTrack_of_ne (hr : Routed g) (h : slug ≠ added) :
    (g.addTrack added).level slug = g.level slug := by
  rw [level, level, lookup_addTrack_of_ne g h]
  cases hl : g.tracks.lookup added with
  | some t => simp [addTrack, hl]
  | none =>
    refine Option.map_congr (fun t ht => ?_)
    obtain ⟨-, -, -, hf⟩ := hr.fresh (slug, t) (mem_of_lookup ht)
    have h1 : t.userGain ≠ g.ctx.next := Nat.ne_of_lt hf
    have h2 : t.userGain ≠ g.ctx.next + 1 := Nat.ne_of_lt (Nat.lt_succ_of_lt hf)
    simp only [addTrack_new hr hl, gainOf]
    rw [Function.update_of_ne h2, Function.update_of_ne h1]

theorem lookup_removeTrack (g : MixerGraph) (slug : String) :
    (g.removeTrack slug).tracks.lookup slug = none := by
  cases hl : g.tracks.lookup slug with
  | none => simp only [removeTrack, hl]
  | some t =>
    rw [lookup_none_iff]
    simp only [removeTrack, hl, List.mem_filter, decide_eq_true_eq]
    exact fun p hp => hp.2

theorem lookup_removeTrack_of_ne (g : MixerGraph) (h : slug ≠ removed) :
    (g.removeTrack removed).tracks.lookup slug = g.tracks.lookup slug := by
  have hfilter (l : List (String × TrackNodes)) :
      (l.filter (fun p => p.1 ≠ removed)).lookup slug = l.lookup slug := by
    induction l with
    | nil => rfl
    | cons p l ih =>
      by_cases hp : p.1 = removed
      · rw [List.filter_cons_of_neg (by simpa using hp), ih, List.lookup_cons,
          beq_false_of_ne (hp ▸ h)]
      · rw [List.filter_cons_of_pos (by simpa using hp), List.lookup_cons, List.lookup_cons, ih]
  cases hl : g.tracks.lookup removed with
  | none => simp [removeTrack, hl]
  | some t => simpa only [removeTrack, hl] using hfilter g.tracks

theorem level_removeTrack_of_ne (g : MixerGraph) (h : slug ≠ removed) :
    (g.removeTrack removed).level slug = g.level slug := by
  rw [level, level, lookup_removeTrack_of_ne g h]
  congr 1
  funext t
  cases hl : g.tracks.lookup removed <;> simp only [removeTrack, hl, gainOf, Context.disconnect]

@[simp] theorem tracks_setTrackGain (g : MixerGraph) (slug : String) (v : Number) :
    (g.setTrackGain slug v).tracks = g.tracks := by
  cases hl : g.tracks.lookup slug <;> simp [setTrackGain, hl]

theorem level_setTrackGain (g : MixerGraph) (slug : String) (v : Number) :
    (g.setTrackGain slug v).level slug =
      (g.tracks.lookup slug).map (fun _ => clamp01 v) := by
  rw [level, tracks_setTrackGain]
  refine Option.map_congr (fun t ht => ?_)
  simp [setTrackGain, ht, gainOf, Context.set, Kind.value]

theorem level_setTrackGain_of_ne (hr : Routed g) (h : slug ≠ moved) (v : Number) :
    (g.setTrackGain moved v).level slug = g.level slug := by
  rw [level, level, tracks_setTrackGain]
  refine Option.map_congr (fun t ht => ?_)
  cases hl : g.tracks.lookup moved with
  | none => simp [setTrackGain, hl]
  | some u =>
    have hne : t.userGain ≠ u.userGain := fun heq =>
      h (congrArg Prod.fst (List.inj_on_of_nodup_map hr.gains (mem_of_lookup ht)
        (mem_of_lookup hl) heq))
    simp [setTrackGain, hl, gainOf, Context.set, Function.update_of_ne hne]

/-- The node of no track is set. -/
theorem level_set (hr : Routed g) (hn : n < 7) (k : Kind) (slug : String) :
    level { g with ctx := g.ctx.set n k } slug = g.level slug := by
  refine Option.map_congr (fun t ht => ?_)
  have hf := hr.fresh (slug, t) (mem_of_lookup ht)
  have hne : t.userGain ≠ n := Nat.ne_of_gt (Nat.lt_of_lt_of_le hn hf.2.2.1)
  simp only [gainOf, Context.set]
  rw [Function.update_of_ne hne]

end MixerGraph

/-- Everything that is kept under one slug. -/
structure Column where
  gain : Option (Option ℚ)
  muted : Option (Option Bool)
  setting : Option ChannelSetting
  nodes : Option TrackNodes
  level : Option ℚ
  lane : Option Nat

def Column.empty : Column := ⟨none, none, none, none, none, none⟩

/-- What a new track starts from. -/
def Column.fresh (eff : ChannelSetting) (nodes : TrackNodes) (decoder : Bool) : Column where
  gain := some eff.gain
  muted := some eff.muted
  setting := some eff
  nodes := some nodes
  level := some (clamp01 eff.level)
  lane := if decoder then some nodes.entry else none

namespace MixerState

def column (m : MixerState) (slug : String) : Column where
  gain := m.gains slug
  muted := m.muted slug
  setting := m.settings slug
  nodes := m.graph.tracks.lookup slug
  level := m.graph.level slug
  lane := m.audioLanes slug

def Wired (m : MixerState) : Prop := mixer.Reachable m.graph

theorem Wired.routed {m : MixerState} (h : m.Wired) : Routed m.graph := (routed_of_reachable h).1

theorem Wired.graphStep {m : MixerState} (h : m.Wired) (a : GraphAct) :
    mixer.Reachable (m.graph.step a) := h.next (a := a) rfl

theorem wired_mount (stored global : Prefs) : (mount stored global).Wired :=
  Machine.Reachable.next (a := .setOffsetMs (.fin 0))
    (Machine.Reachable.next (a := .setBroadcastGain (.fin 0.2)) (.init mixer) rfl) rfl

/-- The write that the handlers make under one slug, with the gain of its node. -/
def write (m : MixerState) (slug : String) (gain : Option (Option ℚ))
    (muted : Option (Option Bool)) (setting : Option ChannelSetting) (v : Number) : MixerState :=
  { m with
    gains := Function.update m.gains slug gain
    muted := Function.update m.muted slug muted
    settings := Function.update m.settings slug setting
    graph := m.graph.setTrackGain slug v }

theorem onChange_eq (m : MixerState) (slug : String) (v : ℚ) :
    m.onChange slug v = m.write slug (some (some v)) (m.muted slug)
      ((m.settings slug).map (fun s => { s with gain := some v }))
      (if m.isMuted slug then .fin 0 else .fin v) := by
  rw [write, Function.update_eq_self]
  rfl

theorem onMuteToggle_eq (m : MixerState) (slug : String) :
    m.onMuteToggle slug = m.write slug (m.gains slug) (some (some (!m.isMuted slug)))
      ((m.settings slug).map (fun s => { s with muted := some (!m.isMuted slug) }))
      (if !m.isMuted slug then .fin 0 else m.gainOr slug) := by
  rw [write, Function.update_eq_self]
  rfl

theorem soloTurn_eq (m : MixerState) (slug : String) (t : TrackInfo) :
    m.soloTurn slug t = m.write t.slug (m.gains t.slug) (some (some (decide (t.slug ≠ slug))))
      (m.settings t.slug) (if t.slug ≠ slug then .fin 0 else m.gainOr t.slug) := by
  rw [write, Function.update_eq_self, Function.update_eq_self]
  simp only [soloTurn, decide_eq_true_eq]

theorem resetTurn_eq (m : MixerState) (t : TrackInfo) :
    m.resetTurn t =
      let eff := effectiveSetting t.slug t.category (fun _ => none) m.globalPrefs
      m.write t.slug (some eff.gain) (some eff.muted) (some eff) eff.level :=
  rfl

theorem Wired.write {m : MixerState} (h : m.Wired) (slug : String) (gain : Option (Option ℚ))
    (muted : Option (Option Bool)) (setting : Option ChannelSetting) (v : Number) :
    (m.write slug gain muted setting v).Wired :=
  h.graphStep (.setTrackGain slug v)

theorem column_write (m : MixerState) (slug : String) (gain : Option (Option ℚ))
    (muted : Option (Option Bool)) (setting : Option ChannelSetting) (v : Number) :
    (m.write slug gain muted setting v).column slug =
      { m.column slug with
        gain, muted, setting, level := (m.column slug).nodes.map (fun _ => clamp01 v) } := by
  simp [column, write, MixerGraph.level_setTrackGain]

theorem column_write_of_ne {m : MixerState} (hw : m.Wired) (h : other ≠ slug)
    (gain : Option (Option ℚ)) (muted : Option (Option Bool))
    (setting : Option ChannelSetting) (v : Number) :
    (m.write slug gain muted setting v).column other = m.column other := by
  simp [column, write, MixerGraph.level_setTrackGain_of_ne hw.routed h, Function.update_of_ne h]

theorem local_soloTurn (slug : String) :
    KeyedLoop.Local column TrackInfo.slug Wired (fun m t => m.soloTurn slug t) where
  inv m t hm := by
    rw [soloTurn_eq]
    exact hm.write _ _ _ _ _
  frame m t other hm h := by
    rw [soloTurn_eq, column_write_of_ne hm h]

theorem local_resetTurn : KeyedLoop.Local column TrackInfo.slug Wired resetTurn where
  inv _ t hm := hm.write t.slug _ _ _ _
  frame _ _ _ hm h := column_write_of_ne hm h _ _ _ _

theorem ensureLane_eq (m : MixerState) (slug : String) (decoder : Bool) :
    m.ensureLane slug decoder = { m with
      audioLanes := Function.update m.audioLanes slug
        ((m.audioLanes slug).or
          (if decoder then (m.graph.tracks.lookup slug).map TrackNodes.entry else none)) } := by
  have hself := Function.update_eq_self slug m.audioLanes
  cases hlane : m.audioLanes slug with
  | some n =>
    rw [hlane] at hself
    simp only [ensureLane, hlane, Option.some_or, hself]
  | none =>
    rw [hlane] at hself
    cases hl : m.graph.tracks.lookup slug <;> cases decoder <;>
      simp [ensureLane, hlane, hl, hself]

theorem Wired.ensureLane {m : MixerState} (h : m.Wired) (slug : String) (decoder : Bool) :
    (m.ensureLane slug decoder).Wired := by
  rw [ensureLane_eq]
  exact h

theorem column_ensureLane (m : MixerState) (slug : String) (decoder : Bool) :
    (m.ensureLane slug decoder).column slug =
      { m.column slug with
        lane := (m.column slug).lane.or
          (if decoder then (m.column slug).nodes.map TrackNodes.entry else none) } := by
  simp [ensureLane_eq, column]

theorem column_ensureLane_of_ne (m : MixerState) (h : other ≠ slug) (decoder : Bool) :
    (m.ensureLane slug decoder).column other = m.column other := by
  simp [ensureLane_eq, column, Function.update_of_ne h]

theorem Wired.drop {m : MixerState} (h : m.Wired) (slug : String) : (m.drop slug).Wired :=
  h.graphStep (.removeTrack slug)

theorem column_drop (m : MixerState) (slug : String) : (m.drop slug).column slug = .empty := by
  simp only [column, MixerState.drop, MixerGraph.level, MixerGraph.lookup_removeTrack,
    Function.update_self, Option.map_none, Column.empty]

theorem column_drop_of_ne (m : MixerState) (h : other ≠ slug) :
    (m.drop slug).column other = m.column other := by
  simp only [column, MixerState.drop, MixerGraph.level_removeTrack_of_ne m.graph h,
    MixerGraph.lookup_removeTrack_of_ne m.graph h, Function.update_of_ne h]

theorem local_dropTurn (incoming : List TrackInfo) :
    KeyedLoop.Local column TrackInfo.slug Wired (fun m t => m.dropTurn incoming t) where
  inv m t hm := by
    simp only [dropTurn]
    split_ifs with h
    · exact hm
    · exact hm.drop _
  frame m t other hm h := by
    simp only [dropTurn]
    split_ifs
    · rfl
    · exact column_drop_of_ne m h

/-- `add` as a new track in the graph, a write and a lane. -/
theorem add_eq (m : MixerState) (t : TrackInfo) (decoder : Bool) :
    m.add t decoder =
      let eff := effectiveSetting t.slug t.category m.streamerPrefs m.globalPrefs
      ({ m with graph := m.graph.addTrack t.slug }.write t.slug (some eff.gain) (some eff.muted)
        (some eff) eff.level).ensureLane t.slug decoder :=
  rfl

theorem Wired.addTrack {m : MixerState} (h : m.Wired) (slug : String) :
    Wired { m with graph := m.graph.addTrack slug } :=
  h.graphStep (.addTrack slug)

theorem Wired.add {m : MixerState} (h : m.Wired) (t : TrackInfo) (decoder : Bool) :
    (m.add t decoder).Wired :=
  ((h.addTrack t.slug).write _ _ _ _ _).ensureLane _ _

theorem column_add_of_ne {m : MixerState} (hw : m.Wired) (h : other ≠ t.slug) (decoder : Bool) :
    (m.add t decoder).column other = m.column other := by
  rw [add_eq, column_ensureLane_of_ne _ h, column_write_of_ne (hw.addTrack t.slug) h]
  simp only [column, MixerGraph.lookup_addTrack_of_ne m.graph h,
    MixerGraph.level_addTrack_of_ne hw.routed h]

theorem column_add {m : MixerState} (hw : m.Wired) (t : TrackInfo) (decoder : Bool)
    (hn : (m.column t.slug).nodes = none) (hl : (m.column t.slug).lane = none) :
    (m.add t decoder).column t.slug =
      .fresh (effectiveSetting t.slug t.category m.streamerPrefs m.globalPrefs)
        m.graph.newNodes decoder := by
  have hnew := MixerGraph.lookup_addTrack hw.routed hn
  have hl : m.audioLanes t.slug = none := hl
  rw [add_eq, column_ensureLane, column_write]
  simp [column, hnew, hl, Column.fresh]

theorem local_addTurn (decoders : String → Bool) :
    KeyedLoop.Local column TrackInfo.slug Wired (fun m t => m.addTurn decoders t) where
  inv m t hm := by
    simp only [addTurn]
    cases m.settings t.slug with
    | some s => exact hm
    | none => exact hm.add _ _
  frame m t other hm h := by
    simp only [addTurn]
    cases m.settings t.slug with
    | some s => rfl
    | none => exact column_add_of_ne hm h _

end MixerState

end StreamMix.Extension
