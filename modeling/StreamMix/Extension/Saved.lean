import StreamMix.Extension.Consistent

/-! What `onSaveStreamer` writes: the shown state of the listed tracks, and nothing else. -/

namespace StreamMix.Extension

open Js

namespace Column

/-- The setting holds the shown gain and the shown flag. -/
structure Synced (c : Column) (s : ChannelSetting) : Prop where
  setting : c.setting = some s
  gain : c.gain = some s.gain
  muted : ∃ b, c.muted = some b ∧ (b = some true ↔ s.muted = some true)

end Column

namespace MixerState

/-- After a save the entry of a listed slug has what the panel shows for it, and a panel
that is mounted on the entry shows the same for the same list. -/
def SavesShown (m : MixerState) : Prop :=
  ∀ slug ∈ m.slugs,
    (∃ s, m.onSaveStreamer.stored slug = some s ∧ m.gains slug = some s.gain ∧
      (s.muted = some true ↔ m.isMuted slug)) ∧
    ∀ global decoders,
      let again := (mount m.onSaveStreamer.stored global).step (.trackList m.tracks decoders)
      again.gainOr slug = m.gainOr slug ∧ again.isMuted slug = m.isMuted slug

/-- A solo click that changes no flag. -/
def SoloAsShown (m : MixerState) : MixerAct → Prop
  | .soloToggle slug => ∀ t ∈ m.tracks, m.isMuted t.slug = decide (t.slug ≠ slug)
  | _ => True

instance (m : MixerState) : ∀ a, Decidable (m.SoloAsShown a)
  | .soloToggle slug =>
    inferInstanceAs (Decidable (∀ t ∈ m.tracks, m.isMuted t.slug = decide (t.slug ≠ slug)))
  | .trackList .. | .audio .. | .change .. | .muteToggle _ | .broadcastChange _
  | .offsetChange _ | .reset | .saveStreamer => .isTrue trivial

def Shown (m : MixerState) : Prop :=
  m.Ruled (fun c => ∃ s, c.Synced s) (fun c => c.setting = none)

theorem entry_add (m : MixerState) (t : TrackInfo) (decoder : Bool) :
    ((m.add t decoder).column t.slug).Synced
      (effectiveSetting t.slug t.category m.streamerPrefs m.globalPrefs) := by
  rw [add_eq, column_ensureLane, column_write]
  exact ⟨rfl, rfl, _, rfl, Iff.rfl⟩

theorem isMuted_iff {m : MixerState} (h : (m.column slug).Synced s) :
    m.isMuted slug ↔ s.muted = some true := by
  obtain ⟨b, hb, hflag⟩ := h.muted
  rw [isMuted_own hb, decide_eq_true_eq, hflag]

section Steps

variable {m : MixerState} (hm : m.Shown)
include hm

theorem Shown.onChange (slug : String) (v : ℚ) : (m.onChange slug v).Shown := by
  rw [onChange_eq]
  apply Ruled.write hm <;> intro h <;> rw [column_write]
  · obtain ⟨s, hs, -, hb⟩ := hm.listed slug h
    have hs : m.settings slug = some s := hs
    rw [hs]
    exact ⟨{ s with gain := some v }, rfl, rfl, hb⟩
  · have hnone : m.settings slug = none := hm.unlisted slug h
    rw [hnone]
    rfl

theorem Shown.onMuteToggle (slug : String) : (m.onMuteToggle slug).Shown := by
  rw [onMuteToggle_eq]
  apply Ruled.write hm <;> intro h <;> rw [column_write]
  · obtain ⟨s, hs, hg, -⟩ := hm.listed slug h
    have hs : m.settings slug = some s := hs
    rw [hs]
    exact ⟨{ s with muted := some (!m.isMuted slug) }, rfl, hg, _, rfl, Iff.rfl⟩
  · have hnone : m.settings slug = none := hm.unlisted slug h
    rw [hnone]
    rfl

theorem Shown.onReset : m.onReset.Shown := by
  apply ruled_foldl local_resetTurn (fun _ _ => rfl) (R := fun _ _ => True)
  · exact hm.wired
  · exact fun _ _ => trivial
  · exact hm.unlisted
  · intro s t _
    rw [resetTurn_eq, column_write]
    exact ⟨trivial, _, rfl, rfl, _, rfl, Iff.rfl⟩

theorem Shown.onSoloToggle (hsolo : m.SoloAsShown (.soloToggle slug)) :
    (m.onSoloToggle slug).Shown := by
  apply ruled_foldl (local_soloTurn slug) (fun _ _ => rfl)
    (R := fun other c => ∃ s, c.setting = some s ∧ c.gain = some s.gain ∧
      (s.muted = some true ↔ other ≠ slug))
  · exact hm.wired
  · intro other hother
    obtain ⟨t, ht, rfl⟩ := mem_slugs.mp hother
    obtain ⟨s, hs⟩ := hm.listed t.slug hother
    refine ⟨s, hs.setting, hs.gain, ?_⟩
    rw [← isMuted_iff hs, hsolo t ht, decide_eq_true_eq]
  · exact hm.unlisted
  · rintro u t ⟨s, hs, hg, hflag⟩
    rw [soloTurn_eq, column_write]
    refine ⟨⟨s, hs, hg, hflag⟩, s, hs, hg, _, rfl, ?_⟩
    rw [hflag, Option.some_inj, decide_eq_true_eq]

theorem Shown.step {a : MixerAct} (hsolo : m.SoloAsShown a) : (m.step a).Shown := by
  have hlane (slug : String) (decoder : Bool) : (m.ensureLane slug decoder).Shown := by
    apply Ruled.ensureLane hm <;> rw [column_ensureLane]
    · rintro ⟨s, hs, hg, hb⟩
      exact ⟨s, hs, hg, hb⟩
    · exact fun h => h
  cases a with
  | trackList incoming decoders =>
    apply Ruled.onTrackList hm _ (fun _ h => h) rfl (fun s t decoder _ _ => ⟨_, entry_add s t decoder⟩)
    rintro c ⟨s, hs, -⟩
    exact hs ▸ nofun
  | audio trackID decoder => exact Ruled.onAudio hm hlane trackID decoder
  | change slug v => exact hm.onChange slug v
  | muteToggle slug => exact hm.onMuteToggle slug
  | soloToggle slug => exact hm.onSoloToggle hsolo
  | broadcastChange v => exact Ruled.onBroadcastChange hm v
  | offsetChange ms => exact Ruled.onOffsetChange hm ms
  | reset => exact hm.onReset
  | saveStreamer => exact Ruled.onSaveStreamer hm

end Steps

/-- A panel that is mounted on an override for a listed slug shows what the override says. -/
theorem column_mount_onTrackList (stored global : Prefs) (incoming : List TrackInfo)
    (decoders : String → Bool) (h : stored slug = some s)
    (hslug : slug ∈ incoming.map (fun t => t.slug)) :
    (((mount stored global).onTrackList incoming decoders).column slug).Synced s := by
  have hlocal := (local_addTurn decoders).and (J := fun m => m.streamerPrefs = stored) (by
    intro m t hm
    rw [addTurn]
    cases m.settings t.slug with
    | some s => exact hm
    | none =>
      rw [add_eq, ensureLane_eq]
      exact hm)
  refine hlocal.foldl_column (P := fun c => c.setting = none) (Q := fun c => c.Synced s) incoming
    (s := (mount stored global).indexTracks incoming) ⟨wired_mount stored global, rfl⟩ rfl
    (List.mem_map.mp hslug) ?_ ?_
  · rintro m ⟨-, hprefs⟩ t - rfl hnone
    have hnone : m.settings t.slug = none := hnone
    have hadd := entry_add m t (decoders t.slug)
    rw [hprefs, effectiveSetting_own h] at hadd
    simpa only [addTurn, hnone] using hadd
  · rintro m - t - rfl hsynced
    have hsome : m.settings t.slug = some s := hsynced.setting
    simpa only [addTurn, hsome] using hsynced

theorem gainOr_congr {m n : MixerState} (hm : m.gains slug = some v)
    (hn : n.gains slug = some v) : m.gainOr slug = n.gainOr slug := by
  simp only [gainOr, property, hm, hn]

theorem Shown.savesShown {m : MixerState} (hm : m.Shown) : m.SavesShown := by
  intro slug hslug
  obtain ⟨s, hs⟩ := hm.listed slug hslug
  refine ⟨⟨s, hs.setting, hs.gain, (isMuted_iff hs).symm⟩, fun global decoders => ?_⟩
  have hagain := column_mount_onTrackList m.onSaveStreamer.stored global m.tracks decoders
    hs.setting hslug
  refine ⟨gainOr_congr hagain.gain hs.gain, ?_⟩
  rw [Bool.eq_iff_iff]
  exact (isMuted_iff hagain).trans (isMuted_iff hs).symm

theorem shown_of_reaches {stored global : Prefs}
    (h : (session stored global).Reaches SoloAsShown m) : m.Shown := by
  have hmount : (mount stored global).Shown :=
    ruled_mount (P := fun c => ∃ s, c.Synced s) (Q := fun c => c.setting = none) rfl stored global
  refine h.invariant hmount ?_
  rintro s a t hs hsolo hstep
  cases hstep
  exact hs.step hsolo

/-- The settings after a solo click are those before it, while the flags are new. -/
theorem column_onSoloToggle {m : MixerState} (slug : String) (hw : m.Wired) (ht : t ∈ m.tracks)
    (hs : m.settings t.slug = some s) :
    ((m.onSoloToggle slug).column t.slug).setting = some s ∧
      ((m.onSoloToggle slug).column t.slug).muted = some (some (decide (t.slug ≠ slug))) := by
  have hturn (u : MixerState) (v : TrackInfo) (hv : v.slug = t.slug)
      (hc : (u.column t.slug).setting = some s) :
      ((u.soloTurn slug v).column t.slug).setting = some s ∧
        ((u.soloTurn slug v).column t.slug).muted = some (some (decide (t.slug ≠ slug))) := by
    rw [← hv] at hc ⊢
    rw [soloTurn_eq, column_write]
    exact ⟨hc, rfl⟩
  have hstart : (column { m with muted := fun _ => none } t.slug).setting = some s := hs
  exact (local_soloTurn slug).foldl_column
    (P := fun c => c.setting = some s)
    (Q := fun c => c.setting = some s ∧ c.muted = some (some (decide (t.slug ≠ slug))))
    m.tracks hw hstart ⟨t, ht, rfl⟩ (fun u _ v _ hv hc => hturn u v hv hc)
    (fun u _ v _ hv hc => hturn u v hv hc.1)

theorem Shown.savesShown_step_iff {m : MixerState} (hm : m.Shown) (a : MixerAct) :
    (m.step a).SavesShown ↔ m.SoloAsShown a := by
  constructor
  · intro h
    cases a with
    | soloToggle slug =>
      intro t ht
      obtain ⟨s, hs⟩ := hm.listed t.slug (mem_slugs.mpr ⟨t, ht, rfl⟩)
      obtain ⟨hset, hmuted⟩ := column_onSoloToggle slug hm.wired ht hs.setting
      have hslug : t.slug ∈ (m.onSoloToggle slug).slugs := by
        have htracks : (m.onSoloToggle slug).tracks = m.tracks := by
          apply foldl_keeps tracks
          exact fun _ _ => rfl
        exact mem_slugs.mpr ⟨t, htracks ▸ ht, rfl⟩
      obtain ⟨⟨r, hr, -, hflag⟩, -⟩ := h t.slug hslug
      obtain rfl : s = r := Option.some.inj (hset.symm.trans hr)
      have hshown : (m.onSoloToggle slug).isMuted t.slug = decide (t.slug ≠ slug) := by
        rw [isMuted_own hmuted]
        simp
      rw [← hshown, Bool.eq_iff_iff, isMuted_iff hs, hflag]
      rfl
    | _ => trivial
  · exact fun hsolo => (hm.step hsolo).savesShown

/-- Along a run whose solo clicks change no flag a save stores what is shown, and a further
event keeps that so just if it is no solo click that changes a flag. -/
theorem savesShown_of_reaches {stored global : Prefs} {m : MixerState}
    (h : (session stored global).Reaches SoloAsShown m) :
    m.SavesShown ∧ ∀ a, (m.step a).SavesShown ↔ m.SoloAsShown a :=
  have hm := shown_of_reaches h
  ⟨hm.savesShown, hm.savesShown_step_iff⟩

theorem savesShown_musicRun : ∃ m : MixerState, m.slugs = ["music"] ∧ m.SavesShown :=
  ⟨musicRun.foldl step (mount (fun _ => none) (fun _ => none)), by decide,
    (savesShown_of_reaches (.of_run musicRun .init (by decide) rfl)).1⟩

def micTrack : TrackInfo := ⟨1, "mic", "mic", by decide, .inr (by decide)⟩

/-- A solo click on the microphone shows the music as muted, and a save stores it as heard. -/
theorem solo_not_savesShown : ¬ ∀ (stored global : Prefs) (m : MixerState),
    (session stored global).Reachable m → m.SavesShown := by
  intro h
  have hrun := h (fun _ => none) (fun _ => none) _
    (.of_run [.trackList [micTrack, musicTrack] (fun _ => true), .soloToggle "mic"]
      (.init _) rfl) "music" (by decide)
  have hagain := (hrun.2 (fun _ => none) (fun _ => true)).2
  revert hagain
  decide

/-! What a save forgets. -/

/-- `settings` has the slugs of the current list. -/
def Keyed (m : MixerState) : Prop :=
  m.Ruled (fun c => c.setting ≠ none) (fun c => c.setting = none)

theorem keyed_mount (stored global : Prefs) : (mount stored global).Keyed :=
  ruled_mount (P := fun c => c.setting ≠ none) (Q := fun c => c.setting = none) rfl stored global

theorem Keyed.write {m : MixerState} (hm : m.Keyed) (slug : String) (gain : Option (Option ℚ))
    (muted : Option (Option Bool)) (f : ChannelSetting → ChannelSetting) (v : Number) :
    (m.write slug gain muted ((m.settings slug).map f) v).Keyed := by
  apply Ruled.write hm <;> intro h <;> rw [column_write]
  · exact fun hnone => hm.listed slug h (Option.map_eq_none_iff.mp hnone)
  · exact Option.map_eq_none_iff.mpr (hm.unlisted slug h)

theorem Keyed.step {m : MixerState} (hm : m.Keyed) (a : MixerAct) : (m.step a).Keyed := by
  have hlane (slug : String) (decoder : Bool) : (m.ensureLane slug decoder).Keyed := by
    apply Ruled.ensureLane hm <;> rw [column_ensureLane] <;> exact fun h => h
  cases a with
  | trackList incoming decoders =>
    refine Ruled.onTrackList hm (fun _ h => h) (fun _ h => h) rfl (fun s t decoder _ _ => ?_) _ _
    rw [(entry_add s t decoder).setting]
    simp
  | audio trackID decoder => exact Ruled.onAudio hm hlane trackID decoder
  | change slug v =>
    rw [MixerState.step, onChange_eq]
    exact hm.write slug _ _ _ _
  | muteToggle slug =>
    rw [MixerState.step, onMuteToggle_eq]
    exact hm.write slug _ _ _ _
  | soloToggle slug =>
    apply ruled_foldl (local_soloTurn slug) (fun _ _ => rfl) (R := fun _ c => c.setting ≠ none)
    · exact hm.wired
    · exact hm.listed
    · exact hm.unlisted
    · intro s t h
      rw [soloTurn_eq, column_write]
      exact ⟨h, h⟩
  | broadcastChange v => exact Ruled.onBroadcastChange hm v
  | offsetChange ms => exact Ruled.onOffsetChange hm ms
  | reset =>
    apply ruled_foldl local_resetTurn (fun _ _ => rfl) (R := fun _ _ => True)
    · exact hm.wired
    · exact fun _ _ => trivial
    · exact hm.unlisted
    · intro s t _
      rw [resetTurn_eq, column_write]
      exact ⟨trivial, by simp⟩
  | saveStreamer => exact Ruled.onSaveStreamer hm

theorem keyed_of_reachable {stored global : Prefs} (h : (visits stored global).Reachable m) :
    m.Keyed := by
  refine h.invariant (keyed_mount stored global) ?_
  rintro s (a | global) t hs hstep
  · cases hstep
    exact hs.step a
  · cases hstep
    exact keyed_mount _ _

/-- In every session a save keeps the overrides of the slugs that are not listed just if
there are none. -/
theorem save_keeps_iff {stored global : Prefs} {m : MixerState}
    (h : (visits stored global).Reachable m) :
    (∀ slug ∉ m.slugs, ∀ s, m.stored slug = some s → m.onSaveStreamer.stored slug = some s) ↔
      ∀ slug, m.stored slug ≠ none → slug ∈ m.slugs := by
  have hm := keyed_of_reachable h
  constructor
  · intro hkeep slug hstored
    obtain ⟨s, hs⟩ := Option.ne_none_iff_exists'.mp hstored
    by_contra hslug
    have hnone : m.settings slug = none := hm.unlisted slug hslug
    cases hnone.symm.trans (hkeep slug hslug s hs)
  · intro hall slug hslug s hs
    exact absurd (hall slug (hs ▸ nofun)) hslug

/-- The microphone and the music in one session. -/
def bothVisit : List Visit :=
  [.event (.trackList [micTrack, musicTrack] (fun _ => true)), .event .saveStreamer]

def bothSaved : MixerState :=
  ((mount (fun _ => none) (fun _ => none)).step
    (.trackList [micTrack, musicTrack] (fun _ => true))).onSaveStreamer

theorem save_keeps_bothSaved : bothSaved.slugs = ["mic", "music"] ∧ ∀ slug ∉ bothSaved.slugs,
    ∀ s, bothSaved.stored slug = some s → bothSaved.onSaveStreamer.stored slug = some s := by
  have hrun : (visits (fun _ => none) (fun _ => none)).Reachable bothSaved :=
    .of_run bothVisit (.init _) rfl
  refine ⟨by decide, (save_keeps_iff hrun).mpr (fun slug hstored => ?_)⟩
  by_contra hslug
  exact hstored ((keyed_of_reachable hrun).unlisted slug hslug)

/-- The override for the music is gone after a session without music that ends in a save. -/
theorem save_forgets : ¬ ∀ (stored global : Prefs) (m : MixerState),
    (visits stored global).Reachable m → ∀ slug ∉ m.slugs, ∀ s, m.stored slug = some s →
      m.onSaveStreamer.stored slug = some s := by
  intro h
  have hkeep := h (fun _ => none) (fun _ => none) _
    (.of_run (bothVisit ++ [.mount (fun _ => none),
      .event (.trackList [micTrack] (fun _ => true))]) (.init _) rfl) "music" (by decide)
    defaultSetting (by decide +kernel)
  revert hkeep
  decide

end MixerState

end StreamMix.Extension
