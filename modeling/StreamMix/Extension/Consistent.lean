import StreamMix.Extension.Ruled

namespace StreamMix.Extension

open Js

/-- What is heard of a track. -/
def heard (muted : Option Bool) (gain : Option ℚ) : ℚ :=
  if muted = some true then 0 else clamp01 (toNumber gain)

theorem clamp01_zero : clamp01 (.fin 0) = 0 := by decide

theorem clamp01_level (s : ChannelSetting) : clamp01 s.level = heard s.muted s.gain := by
  rw [ChannelSetting.level, heard]
  split_ifs
  · exact clamp01_zero
  · rfl

namespace Column

/-- There is a track in the graph, and the lane goes to its entry. -/
def Placed (c : Column) : Prop :=
  ∃ t, c.nodes = some t ∧ ∀ n, c.lane = some n → n = t.entry

structure Sound (c : Column) : Prop where
  placed : c.Placed
  gain : c.gain ≠ none
  muted : c.muted ≠ none
  setting : c.setting ≠ none
  level : ∀ a b, c.gain = some a → c.muted = some b → c.level = some (heard b a)

theorem Placed.write {c : Column} (h : c.Placed) (hv : clamp01 v = heard b a)
    (setting : ChannelSetting) :
    Sound { c with
      gain := some a, muted := some b, setting := some setting
      level := c.nodes.map (fun _ => clamp01 v) } := by
  obtain ⟨t, ht, hlane⟩ := h
  refine ⟨⟨t, ht, hlane⟩, nofun, nofun, nofun, ?_⟩
  rintro _ _ ⟨⟩ ⟨⟩
  simp only [ht, Option.map_some, hv]

theorem sound_fresh (eff : ChannelSetting) (t : TrackNodes) (decoder : Bool) :
    (fresh eff t decoder).Sound := by
  refine ⟨⟨t, rfl, ?_⟩, nofun, nofun, nofun, ?_⟩
  · intro n hn
    cases decoder with
    | true => exact (Option.some.inj hn).symm
    | false => cases hn
  · rintro _ _ ⟨⟩ ⟨⟩
    exact congrArg some (clamp01_level eff)

theorem Placed.lane {c : Column} (h : c.Placed) (decoder : Bool) :
    Placed { c with
      lane := c.lane.or (if decoder then c.nodes.map TrackNodes.entry else none) } := by
  obtain ⟨t, ht, hlane⟩ := h
  refine ⟨t, ht, ?_⟩
  intro n hn
  cases hc : c.lane with
  | some k =>
    rw [hc, Option.some_or] at hn
    exact hlane n (hc.trans hn)
  | none =>
    rw [hc, Option.none_or, ht] at hn
    cases decoder <;> simp at hn
    exact hn.symm

theorem Sound.lane {c : Column} (h : c.Sound) (decoder : Bool) :
    Sound { c with
      lane := c.lane.or (if decoder then c.nodes.map TrackNodes.entry else none) } :=
  ⟨h.placed.lane decoder, h.gain, h.muted, h.setting, h.level⟩

end Column

namespace MixerState

/-- `gains[slug]` as a number. -/
def gain (m : MixerState) (slug : String) : Number := toNumber (m.gains slug).join

structure Consistent (m : MixerState) : Prop where
  graphKeys : ∀ slug, slug ∈ m.graph.tracks.map Prod.fst ↔ slug ∈ m.slugs
  settingsKeys : ∀ slug, m.settings slug ≠ none ↔ slug ∈ m.slugs
  gainsKeys : ∀ slug, m.gains slug ≠ none ↔ slug ∈ m.slugs
  mutedKeys : ∀ slug, m.muted slug ≠ none ↔ slug ∈ m.slugs
  lanes : ∀ slug n, m.audioLanes slug = some n → slug ∈ m.slugs ∧
    ∃ t, m.graph.tracks.lookup slug = some t ∧ n = t.entry
  levels : ∀ p ∈ m.graph.tracks,
    m.graph.gainOf p.2 = if m.isMuted p.1 then 0 else clamp01 (m.gain p.1)

/-- The lists that the relay can send, and the clicks that the panel offers. -/
def Admits (m : MixerState) : MixerAct → Prop
  | .trackList incoming _ => (incoming.map (fun t => t.slug)).Nodup
  | .change slug _ | .muteToggle slug | .soloToggle slug => slug ∈ m.slugs
  | _ => True

/-- A click that makes a track heard finds a number as its gain. -/
def Numeric (m : MixerState) : MixerAct → Prop
  | .muteToggle slug => m.isMuted slug → m.gains slug ≠ some none
  | .soloToggle slug => m.gains slug ≠ some none
  | _ => True

instance (m : MixerState) : ∀ a, Decidable (m.Admits a)
  | .trackList incoming _ => inferInstanceAs (Decidable (incoming.map (fun t => t.slug)).Nodup)
  | .change slug _ | .muteToggle slug | .soloToggle slug =>
    inferInstanceAs (Decidable (slug ∈ m.slugs))
  | .audio .. | .broadcastChange _ | .offsetChange _ | .reset | .saveStreamer => .isTrue trivial

instance (m : MixerState) : ∀ a, Decidable (m.Numeric a)
  | .muteToggle slug => inferInstanceAs (Decidable (m.isMuted slug → m.gains slug ≠ some none))
  | .soloToggle slug => inferInstanceAs (Decidable (m.gains slug ≠ some none))
  | .trackList .. | .audio .. | .change .. | .broadcastChange _ | .offsetChange _ | .reset
  | .saveStreamer => .isTrue trivial

def Tidy (m : MixerState) : Prop := m.Ruled Column.Sound (· = .empty)

theorem isMuted_own {m : MixerState} (h : m.muted slug = some b) :
    m.isMuted slug = decide (b = some true) := by
  simp only [isMuted, property, h]

theorem gainOr_own {m : MixerState} (h : m.gains slug = some (some v)) :
    m.gainOr slug = .fin v := by
  simp only [gainOr, property, h]

theorem gainOr_undefined {m : MixerState} (h : m.gains slug = some none) :
    m.gainOr slug = .fin 0.5 := by
  simp only [gainOr, property, h]

/-- The level after a click: silence, or the gain if it is a number. -/
theorem clamp01_click {m : MixerState} (next : Bool) (hg : m.gains slug = some a)
    (hnum : next = false → a ≠ none) :
    clamp01 (if next then .fin 0 else m.gainOr slug) = heard (some next) a := by
  cases next with
  | true => exact clamp01_zero
  | false =>
    obtain ⟨v, rfl⟩ := Option.ne_none_iff_exists'.mp (hnum rfl)
    simp [heard, gainOr_own hg, toNumber]

theorem tidy_mount (stored global : Prefs) : (mount stored global).Tidy :=
  ruled_mount (P := Column.Sound) (Q := (· = .empty)) rfl stored global

section Steps

variable {m : MixerState} (hm : m.Tidy)
include hm

/-- A click on a listed slug that sets its gain to `a` and its flag to `b`. -/
theorem Tidy.click (h : slug ∈ m.slugs) (hv : clamp01 v = heard b a)
    (f : ChannelSetting → ChannelSetting) :
    (m.write slug (some a) (some b) ((m.settings slug).map f) v).Tidy := by
  have hsound := hm.listed slug h
  obtain ⟨e, he⟩ := Option.ne_none_iff_exists'.mp hsound.setting
  have he : m.settings slug = some e := he
  apply Ruled.write hm
  · intro _
    rw [column_write, he]
    exact hsound.placed.write hv (f e)
  · exact fun hnot => absurd h hnot

theorem Tidy.onChange (h : slug ∈ m.slugs) (v : ℚ) : (m.onChange slug v).Tidy := by
  obtain ⟨b, hb⟩ := Option.ne_none_iff_exists'.mp (hm.listed slug h).muted
  have hb : m.muted slug = some b := hb
  rw [onChange_eq, hb]
  apply hm.click h
  simp only [isMuted_own hb, heard, decide_eq_true_eq]
  split_ifs
  · exact clamp01_zero
  · rfl

theorem Tidy.onMuteToggle (h : slug ∈ m.slugs)
    (hnum : m.isMuted slug → m.gains slug ≠ some none) : (m.onMuteToggle slug).Tidy := by
  obtain ⟨a, ha⟩ := Option.ne_none_iff_exists'.mp (hm.listed slug h).gain
  have ha : m.gains slug = some a := ha
  rw [onMuteToggle_eq, ha]
  apply hm.click h
  apply clamp01_click _ ha
  rintro hnext rfl
  exact hnum (by simpa using hnext) ha

theorem Tidy.onSoloToggle (hnum : m.gains slug ≠ some none) : (m.onSoloToggle slug).Tidy := by
  apply ruled_foldl (local_soloTurn slug) (fun _ _ => rfl)
    (R := fun other c => c.Placed ∧ c.gain ≠ none ∧ c.setting ≠ none ∧
      (other = slug → c.gain ≠ some none))
  · exact hm.wired
  · intro other hother
    obtain ⟨hplaced, hgain, -, hsetting, -⟩ := hm.listed other hother
    exact ⟨hplaced, hgain, hsetting, fun heq => heq ▸ hnum⟩
  · intro other hother
    have hempty := hm.unlisted other hother
    simp only [column, Column.empty, Column.mk.injEq] at hempty ⊢
    exact ⟨hempty.1, trivial, hempty.2.2⟩
  · rintro s t ⟨hplaced, hgain, hsetting, hslug⟩
    obtain ⟨a, ha⟩ := Option.ne_none_iff_exists'.mp hgain
    obtain ⟨e, he⟩ := Option.ne_none_iff_exists'.mp hsetting
    have ha : s.gains t.slug = some a := ha
    have he : s.settings t.slug = some e := he
    rw [soloTurn_eq, column_write, ha, he]
    have hclick := clamp01_click (decide (t.slug ≠ slug)) ha (by
      rintro hnext rfl
      exact hslug (by simpa using hnext) ha)
    simp only [decide_eq_true_eq] at hclick
    exact ⟨⟨hplaced, by simp, by simp, fun heq hnone => hslug heq (ha.trans hnone)⟩,
      hplaced.write hclick e⟩

theorem Tidy.onReset : m.onReset.Tidy := by
  apply ruled_foldl local_resetTurn (fun _ _ => rfl) (R := fun _ => Column.Placed)
  · exact hm.wired
  · exact fun slug h => (hm.listed slug h).placed
  · intro slug h
    have hempty := hm.unlisted slug h
    simp only [column, Column.empty, Column.mk.injEq] at hempty ⊢
    exact ⟨trivial, trivial, hempty.2.2⟩
  · intro s t h
    rw [resetTurn_eq, column_write]
    exact ⟨h, h.write (clamp01_level _) _⟩

theorem Tidy.onTrackList (incoming : List TrackInfo) (decoders : String → Bool) :
    (m.onTrackList incoming decoders).Tidy := by
  apply Ruled.onTrackList hm (fun c hc => hc.setting) (fun c hc => congrArg Column.setting hc) rfl
  intro s t decoder hs hempty
  rw [column_add hs t decoder (congrArg Column.nodes hempty) (congrArg Column.lane hempty)]
  exact Column.sound_fresh _ _ _

theorem Tidy.onAudio (trackID : Nat) (decoder : Bool) : (m.onAudio trackID decoder).Tidy := by
  refine Ruled.onAudio hm (fun slug decoder => Ruled.ensureLane hm slug decoder ?_ ?_) _ _
  · intro hsound
    rw [column_ensureLane]
    exact hsound.lane decoder
  · intro hempty
    rw [column_ensureLane, hempty]
    cases decoder <;> rfl

theorem Tidy.step {a : MixerAct} (hadm : m.Admits a) (hnum : m.Numeric a) : (m.step a).Tidy := by
  cases a with
  | trackList incoming decoders => exact hm.onTrackList incoming decoders
  | audio trackID decoder => exact hm.onAudio trackID decoder
  | change slug v => exact hm.onChange hadm v
  | muteToggle slug => exact hm.onMuteToggle hadm hnum
  | soloToggle slug => exact hm.onSoloToggle hnum
  | broadcastChange v => exact Ruled.onBroadcastChange hm v
  | offsetChange ms => exact Ruled.onOffsetChange hm ms
  | reset => exact hm.onReset
  | saveStreamer => exact Ruled.onSaveStreamer hm

/-- A store that every sound column has an entry in holds the listed slugs. -/
theorem Tidy.keys (f : Column → Option α) (hempty : f .empty = none)
    (hsound : ∀ c, c.Sound → f c ≠ none) (slug : String) :
    f (m.column slug) ≠ none ↔ slug ∈ m.slugs := by
  constructor
  · intro h
    by_contra hnot
    have hcol : m.column slug = .empty := hm.unlisted slug hnot
    exact h (hcol ▸ hempty)
  · exact fun h => hsound _ (hm.listed slug h)

theorem Tidy.consistent : m.Consistent where
  graphKeys slug := by
    rw [← hm.keys Column.nodes rfl (fun c hc => by obtain ⟨t, ht, -⟩ := hc.placed; exact ht ▸ nofun)]
    simp only [column, ne_eq, lookup_none_iff, not_forall, List.mem_map]
    grind
  settingsKeys := hm.keys Column.setting rfl (fun _ hc => hc.setting)
  gainsKeys := hm.keys Column.gain rfl (fun _ hc => hc.gain)
  mutedKeys := hm.keys Column.muted rfl (fun _ hc => hc.muted)
  lanes slug n hn := by
    have hslug : slug ∈ m.slugs := by
      by_contra hnot
      have hnone := congrArg Column.lane (hm.unlisted slug hnot)
      cases hn.symm.trans hnone
    obtain ⟨t, ht, hlane⟩ := (hm.listed slug hslug).placed
    exact ⟨hslug, t, ht, hlane n hn⟩
  levels := by
    rintro ⟨slug, t⟩ ht
    have hl := MixerGraph.lookup_of_mem hm.wired.routed ht
    have hslug : slug ∈ m.slugs := by
      by_contra hnot
      cases hl.symm.trans (congrArg Column.nodes (hm.unlisted slug hnot))
    have hsound := hm.listed slug hslug
    obtain ⟨a, ha⟩ := Option.ne_none_iff_exists'.mp hsound.gain
    obtain ⟨b, hb⟩ := Option.ne_none_iff_exists'.mp hsound.muted
    have hlevel : m.graph.level slug = some (heard b a) := hsound.level a b ha hb
    have ha : m.gains slug = some a := ha
    rw [MixerGraph.level, hl] at hlevel
    simpa [isMuted_own hb, gain, ha, heard] using hlevel

end Steps

theorem tidy_of_reaches {stored global : Prefs}
    (h : (session stored global).Reaches (fun m a => m.Admits a ∧ m.Numeric a) m) : m.Tidy := by
  refine h.invariant (tidy_mount stored global) ?_
  rintro s a t hs ⟨hadm, hnum⟩ hstep
  cases hstep
  exact hs.step hadm hnum

/-! A click that takes `0.5` for a gain that is `undefined` breaks the equation of levels. -/

theorem not_consistent {m : MixerState} (slug : String)
    (hgain : (m.column slug).gain = some none)
    (hmuted : (m.column slug).muted = some (some false)) (hl : (m.column slug).nodes = some t)
    (hlevel : (m.column slug).level = some 0.5) : ¬ m.Consistent := by
  intro h
  have hl : m.graph.tracks.lookup slug = some t := hl
  have heq := h.levels (slug, t) (mem_of_lookup hl)
  have hlevel : m.graph.level slug = some 0.5 := hlevel
  rw [MixerGraph.level, hl] at hlevel
  rw [Option.some.inj hlevel, isMuted_own hmuted, gain, show m.gains slug = _ from hgain] at heq
  revert heq
  decide +kernel

theorem clamp01_half : clamp01 (.fin 0.5) = 0.5 := by decide +kernel

theorem Tidy.not_consistent_muteToggle {m : MixerState} (hm : m.Tidy) (h : slug ∈ m.slugs)
    (hmuted : m.isMuted slug) (hgain : m.gains slug = some none) :
    ¬ (m.onMuteToggle slug).Consistent := by
  obtain ⟨t, ht, -⟩ := (hm.listed slug h).placed
  apply not_consistent slug (t := t) <;>
    simp [onMuteToggle_eq, column_write, hmuted, hgain, ht, gainOr_undefined hgain, clamp01_half]

theorem Tidy.not_consistent_soloToggle {m : MixerState} (hm : m.Tidy) (h : slug ∈ m.slugs)
    (hgain : m.gains slug = some none) : ¬ (m.onSoloToggle slug).Consistent := by
  obtain ⟨t, ht, -⟩ := (hm.listed slug h).placed
  have hturn (s : MixerState) (u : TrackInfo) (hu : u.slug = slug)
      (hc : (s.column slug).gain = some none ∧ (s.column slug).nodes = some t) :
      let c := (s.soloTurn slug u).column slug
      (c.gain = some none ∧ c.nodes = some t) ∧ c.muted = some (some false) ∧
        c.level = some 0.5 := by
    subst hu
    obtain ⟨hg, hn⟩ := hc
    have hg : s.gains u.slug = some none := hg
    simp only [soloTurn_eq, column_write, hn]
    simp [hg, gainOr_undefined hg, clamp01_half]
  have hstart : (column { m with muted := fun _ => none } slug).gain = some none := hgain
  have hfold := (local_soloTurn slug).foldl_column m.tracks
    (s := { m with muted := fun _ => none })
    (P := fun c => c.gain = some none ∧ c.nodes = some t)
    (Q := fun c => (c.gain = some none ∧ c.nodes = some t) ∧ c.muted = some (some false) ∧
      c.level = some 0.5)
    hm.wired ⟨hstart, ht⟩ (mem_slugs.mp h) (fun s _ u _ hu hc => hturn s u hu hc)
    (fun s _ u _ hu hc => hturn s u hu hc.1)
  obtain ⟨⟨hg, hn⟩, hmut, hlevel⟩ := hfold
  exact not_consistent (m := m.onSoloToggle slug) slug hg hmut hn hlevel

theorem Tidy.consistent_step_iff {m : MixerState} (hm : m.Tidy) {a : MixerAct}
    (hadm : m.Admits a) : (m.step a).Consistent ↔ m.Numeric a := by
  constructor
  · intro h
    cases a with
    | muteToggle slug =>
      exact fun hmuted hgain => hm.not_consistent_muteToggle hadm hmuted hgain h
    | soloToggle slug => exact fun hgain => hm.not_consistent_soloToggle hadm hgain h
    | _ => trivial
  · exact fun hnum => (hm.step hadm hnum).consistent

/-- Only the slug that every object inherits can have a gain that is no number. -/
structure Named (stored global : Prefs) (m : MixerState) : Prop where
  streamerPrefs : m.streamerPrefs = stored
  globalPrefs : m.globalPrefs = global
  gains : ∀ slug, m.gains slug = some none → slug = "constructor"

section Named

variable {stored global : Prefs} (hs : stored.Shaped) (hg : global.Shaped)

theorem named_update {f : String → Option (Option ℚ)}
    (hf : ∀ slug, f slug = some none → slug = "constructor")
    (ha : a = some none → key = "constructor") :
    ∀ slug, Function.update f key a slug = some none → slug = "constructor" := by
  intro slug h
  by_cases heq : slug = key
  · subst heq
    exact ha (by simpa using h)
  · exact hf slug (by simpa [heq] using h)

include hg in
theorem Named.eff {streamer : Prefs} (hstreamer : streamer.Shaped) (t : TrackInfo) :
    some (effectiveSetting t.slug t.category streamer global).gain = some none →
      t.slug = "constructor" := by
  intro hnone
  by_contra hne
  exact (shaped_effectiveSetting hstreamer hg t (fun h => absurd h hne)).gain
    (Option.some.inj hnone)

include hs hg in
theorem Named.addTurn {m : MixerState} (h : m.Named stored global) (decoders : String → Bool)
    (t : TrackInfo) : (m.addTurn decoders t).Named stored global := by
  rw [MixerState.addTurn]
  cases m.settings t.slug with
  | some s => exact h
  | none =>
    rw [add_eq, ensureLane_eq]
    refine ⟨h.streamerPrefs, h.globalPrefs, ?_⟩
    apply named_update h.gains
    rw [h.streamerPrefs, h.globalPrefs]
    exact Named.eff hg hs t

theorem Named.dropTurn {m : MixerState} (h : m.Named stored global) (incoming : List TrackInfo)
    (t : TrackInfo) : (m.dropTurn incoming t).Named stored global := by
  rw [MixerState.dropTurn]
  split_ifs
  · exact h
  · exact ⟨h.streamerPrefs, h.globalPrefs, named_update h.gains (by simp)⟩

include hg in
theorem Named.resetTurn {m : MixerState} (h : m.Named stored global) (t : TrackInfo) :
    (m.resetTurn t).Named stored global := by
  refine ⟨h.streamerPrefs, h.globalPrefs, ?_⟩
  apply named_update h.gains
  rw [h.globalPrefs]
  exact Named.eff hg Prefs.shaped_none t

theorem Named.soloTurn {m : MixerState} (h : m.Named stored global) (slug : String)
    (t : TrackInfo) : (m.soloTurn slug t).Named stored global :=
  ⟨h.streamerPrefs, h.globalPrefs, h.gains⟩

theorem Named.ensureLane {m : MixerState} (h : m.Named stored global) (slug : String)
    (decoder : Bool) : (m.ensureLane slug decoder).Named stored global := by
  rw [ensureLane_eq]
  exact ⟨h.streamerPrefs, h.globalPrefs, h.gains⟩

include hs hg in
theorem Named.step {m : MixerState} (h : m.Named stored global) (a : MixerAct) :
    (m.step a).Named stored global := by
  obtain ⟨hstreamer, hglobal, hgains⟩ := h
  cases a with
  | trackList incoming decoders =>
    have hdrop := List.foldlRecOn (motive := Named stored global) m.tracks
      (fun m t => m.dropTurn incoming t) (b := m.indexTracks incoming) ⟨hstreamer, hglobal, hgains⟩
      (fun s hn t _ => hn.dropTurn incoming t)
    obtain ⟨h1, h2, h3⟩ := List.foldlRecOn (motive := Named stored global) incoming
      (fun m t => m.addTurn decoders t) hdrop (fun s hn t _ => hn.addTurn hs hg decoders t)
    exact ⟨h1, h2, h3⟩
  | audio trackID decoder =>
    simp only [MixerState.step, MixerState.onAudio]
    cases m.idToSlug trackID with
    | none => exact ⟨hstreamer, hglobal, hgains⟩
    | some slug => exact Named.ensureLane ⟨hstreamer, hglobal, hgains⟩ slug decoder
  | change slug v => exact ⟨hstreamer, hglobal, named_update hgains (by simp)⟩
  | muteToggle slug => exact ⟨hstreamer, hglobal, hgains⟩
  | soloToggle slug =>
    exact m.tracks.foldlRecOn (motive := Named stored global) (fun m t => m.soloTurn slug t)
      ⟨hstreamer, hglobal, hgains⟩ (fun s hn t _ => hn.soloTurn slug t)
  | broadcastChange v => exact ⟨hstreamer, hglobal, hgains⟩
  | offsetChange ms => exact ⟨hstreamer, hglobal, hgains⟩
  | reset =>
    exact m.tracks.foldlRecOn (motive := Named stored global) MixerState.resetTurn
      ⟨hstreamer, hglobal, by simp⟩ (fun s hn t _ => hn.resetTurn hg t)
  | saveStreamer => exact ⟨hstreamer, hglobal, hgains⟩

include hs hg in
theorem named_of_reachable (h : (session stored global).Reachable m) : m.Named stored global := by
  refine h.invariant (P := Named stored global) ⟨rfl, rfl, nofun⟩ ?_
  rintro s a t hn hstep
  cases hstep
  exact hn.step hs hg a

end Named

/-- Along a run whose clicks find numbers the stores of the panel agree, a list keeps
everything under a slug that stays, and a further event keeps the agreement just if it is
no click that falls back to `0.5`.  Only a track with the slug `constructor` can be the
target of such a click. -/
theorem consistent_of_reaches {stored global : Prefs} {m : MixerState}
    (h : (session stored global).Reaches (fun m a => m.Admits a ∧ m.Numeric a) m) :
    m.Consistent ∧
    (∀ incoming decoders, ∀ slug ∈ m.slugs, slug ∈ incoming.map (fun t => t.slug) →
      (m.step (.trackList incoming decoders)).column slug = m.column slug) ∧
    (∀ a, m.Admits a → ((m.step a).Consistent ↔ m.Numeric a)) ∧
    (stored.Shaped → global.Shaped → ∀ slug, m.gains slug = some none → slug = "constructor") := by
  have hm := tidy_of_reaches h
  refine ⟨hm.consistent, ?_, fun a => hm.consistent_step_iff, ?_⟩
  · intro incoming decoders slug hold hnew
    exact Ruled.keep hm (fun c hc => hc.setting) incoming decoders hold hnew
  · exact fun hs hg => (named_of_reachable hs hg h.reachable).gains

def musicTrack : TrackInfo := ⟨2, "music", "music", by decide, .inr (by decide)⟩

def constructorTrack : TrackInfo := ⟨1, "constructor", "custom", by decide, .inl rfl⟩

/-- A list, two mute clicks and a solo click, in a panel that had nothing stored. -/
def musicRun : List MixerAct :=
  [.trackList [musicTrack] (fun _ => true), .muteToggle "music", .muteToggle "music",
    .soloToggle "music"]

theorem consistent_musicRun : ∃ m : MixerState, m.slugs = ["music"] ∧ m.Consistent :=
  ⟨musicRun.foldl step (mount (fun _ => none) (fun _ => none)), by decide,
    (consistent_of_reaches (.of_run musicRun .init (by decide) rfl)).1⟩

/-- The only track is called `constructor`; the solo click takes `0.5` for its gain. -/
theorem constructor_not_consistent : ¬ ∀ stored global : Prefs, stored.Shaped → global.Shaped →
    ∀ m, (session stored global).Reaches Admits m → m.Consistent := by
  intro h
  have hlevels := (h _ _ Prefs.shaped_none Prefs.shaped_none _
    (.of_run [.trackList [constructorTrack] (fun _ => true), .soloToggle "constructor"] .init
      (by decide) rfl)).levels ("constructor", ⟨7, 8⟩) (by decide)
  revert hlevels
  decide +kernel

end MixerState

end StreamMix.Extension
