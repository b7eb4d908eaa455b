import StreamMix.Extension.Column

/-! Invariants that say one thing of the columns of listed slugs and another of the rest. -/

namespace StreamMix.Extension

open Js

namespace MixerState

structure Ruled (P Q : Column → Prop) (m : MixerState) : Prop where
  wired : m.Wired
  listed : ∀ slug ∈ m.slugs, P (m.column slug)
  unlisted : ∀ slug ∉ m.slugs, Q (m.column slug)

theorem ruled_mount {P Q : Column → Prop} (hempty : Q .empty) (stored global : Prefs) :
    (mount stored global).Ruled P Q where
  wired := wired_mount stored global
  listed := nofun
  unlisted _ _ := hempty

theorem mem_slugs {m : MixerState} : slug ∈ m.slugs ↔ ∃ t ∈ m.tracks, t.slug = slug :=
  List.mem_map

/-- What no turn of a loop changes. -/
theorem foldl_keeps (f : MixerState → α) {body : MixerState → TrackInfo → MixerState}
    (h : ∀ m t, f (body m t) = f m) (ts : List TrackInfo) (m : MixerState) :
    f (ts.foldl body m) = f m :=
  ts.foldlRecOn (motive := fun s => f s = f m) body rfl (fun s hs t _ => (h s t).trans hs)

/-! The two loops of `applyTrackList`. -/

section TrackList

variable {m : MixerState} (incoming : List TrackInfo) (decoders : String → Bool)

def dropLoop (m : MixerState) : MixerState :=
  m.tracks.foldl (fun m t => m.dropTurn incoming t) m

def addLoop (m : MixerState) : MixerState :=
  incoming.foldl (fun m t => m.addTurn decoders t) m

theorem column_onTrackList (m : MixerState) (slug : String) :
    (m.onTrackList incoming decoders).column slug =
      (addLoop incoming decoders (dropLoop incoming (m.indexTracks incoming))).column slug :=
  rfl

theorem wired_dropLoop (hm : m.Wired) : (dropLoop incoming m).Wired :=
  (local_dropTurn incoming).foldl_inv _ hm

theorem wired_addLoop (hm : m.Wired) : (addLoop incoming decoders m).Wired :=
  (local_addTurn decoders).foldl_inv _ hm

/-- A track that stays, or that was not there, is not dropped. -/
theorem column_dropLoop_keep (hm : m.Wired)
    (h : slug ∈ incoming.map (fun t => t.slug) ∨ slug ∉ m.slugs) :
    (dropLoop incoming m).column slug = m.column slug := by
  apply (local_dropTurn incoming).foldl_keep (P := (· = m.column slug)) m.tracks hm rfl
  rintro s - t ht rfl hs
  have hstay : t.slug ∈ incoming.map (fun t => t.slug) :=
    h.resolve_right (fun hnot => hnot (mem_slugs.mpr ⟨t, ht, rfl⟩))
  simpa only [dropTurn, if_pos hstay] using hs

theorem column_dropLoop_gone (hm : m.Wired) (h : slug ∈ m.slugs)
    (hgone : slug ∉ incoming.map (fun t => t.slug)) :
    (dropLoop incoming m).column slug = .empty := by
  have hturn (s : MixerState) (t : TrackInfo) (ht : t.slug = slug) :
      (s.dropTurn incoming t).column slug = .empty := by
    subst ht
    rw [dropTurn, if_neg hgone, column_drop]
  exact (local_dropTurn incoming).foldl_column (P := fun _ => True) (Q := (· = .empty)) m.tracks hm
    trivial (mem_slugs.mp h) (fun s _ t _ ht _ => hturn s t ht) (fun s _ t _ ht _ => hturn s t ht)

/-- A slug that `settings` has keeps its column, and so does one that is not listed. -/
theorem column_addLoop_keep (hm : m.Wired)
    (h : m.settings slug ≠ none ∨ slug ∉ incoming.map (fun t => t.slug)) :
    (addLoop incoming decoders m).column slug = m.column slug := by
  apply (local_addTurn decoders).foldl_keep (P := (· = m.column slug)) incoming hm rfl
  rintro s - t ht rfl hs
  have hset : m.settings t.slug ≠ none :=
    h.resolve_right (fun hnot => hnot (List.mem_map_of_mem ht))
  obtain ⟨e, he⟩ := Option.ne_none_iff_exists'.mp hset
  have hse : s.settings t.slug = some e := (congrArg Column.setting hs).trans he
  simpa only [addTurn, hse] using hs

end TrackList

section Rules

variable {P Q : Column → Prop} {m : MixerState}

/-- A list keeps the column of a track that is in the old and in the new one. -/
theorem Ruled.keep (hm : m.Ruled P Q) (hP : ∀ c, P c → c.setting ≠ none)
    (incoming : List TrackInfo) (decoders : String → Bool) (hold : slug ∈ m.slugs)
    (hnew : slug ∈ incoming.map (fun t => t.slug)) :
    (m.onTrackList incoming decoders).column slug = m.column slug := by
  have hw : (m.indexTracks incoming).Wired := hm.wired
  have hdrop := column_dropLoop_keep incoming hw (.inl hnew)
  have hset : (dropLoop incoming (m.indexTracks incoming)).settings slug ≠ none := by
    intro hnone
    have hcol := (congrArg Column.setting hdrop).symm.trans hnone
    exact hP _ (hm.listed slug hold) hcol
  rw [column_onTrackList, column_addLoop_keep incoming decoders
    (wired_dropLoop incoming hw) (.inl hset), hdrop]
  rfl

theorem Ruled.onTrackList (hm : m.Ruled P Q) (hP : ∀ c, P c → c.setting ≠ none)
    (hQ : ∀ c, Q c → c.setting = none) (hempty : Q .empty)
    (hadd : ∀ m t decoder, Wired m → Q (m.column t.slug) → P ((m.add t decoder).column t.slug))
    (incoming : List TrackInfo) (decoders : String → Bool) :
    (m.onTrackList incoming decoders).Ruled P Q := by
  have hw : (m.indexTracks incoming).Wired := hm.wired
  have hwdrop := wired_dropLoop incoming hw
  refine ⟨wired_addLoop incoming decoders hwdrop, ?_, ?_⟩
  · intro slug hnew
    by_cases hold : slug ∈ m.slugs
    · rw [hm.keep hP incoming decoders hold hnew]
      exact hm.listed slug hold
    · have hdrop := column_dropLoop_keep incoming hw (.inr hold)
      have hstart : Q ((dropLoop incoming (m.indexTracks incoming)).column slug) := by
        rw [hdrop]
        exact hm.unlisted slug hold
      rw [column_onTrackList]
      refine (local_addTurn decoders).foldl_column incoming hwdrop hstart
        (List.mem_map.mp hnew) ?_ ?_
      · rintro s hs t - rfl hq
        have hnone : s.settings t.slug = none := hQ _ hq
        simpa only [addTurn, hnone] using hadd s t (decoders t.slug) hs hq
      · rintro s - t - rfl hp
        obtain ⟨e, he⟩ := Option.ne_none_iff_exists'.mp (hP _ hp)
        have hsome : s.settings t.slug = some e := he
        simpa only [addTurn, hsome] using hp
  · intro slug hnew
    rw [column_onTrackList, column_addLoop_keep incoming decoders hwdrop (.inr hnew)]
    by_cases hold : slug ∈ m.slugs
    · rw [column_dropLoop_gone incoming hw hold hnew]
      exact hempty
    · rw [column_dropLoop_keep incoming hw (.inr hold)]
      exact hm.unlisted slug hold

theorem Ruled.congr {m' : MixerState} (hm : m.Ruled P Q) (hw : m'.Wired)
    (hslugs : m'.slugs = m.slugs) (hcolumn : m'.column = m.column) : m'.Ruled P Q := by
  refine ⟨hw, ?_, ?_⟩ <;> rw [hslugs, hcolumn]
  · exact hm.listed
  · exact hm.unlisted

theorem Ruled.onBroadcastChange (hm : m.Ruled P Q) (v : ℚ) : (m.onBroadcastChange v).Ruled P Q := by
  refine hm.congr (hm.wired.graphStep (.setBroadcastGain (.fin v))) rfl ?_
  funext slug
  have hr := hm.wired.routed
  obtain ⟨-, hb, -⟩ := hr.ids
  exact congrArg (fun level => { m.column slug with level })
    (MixerGraph.level_set hr (n := m.graph.broadcastGain) (by omega) _ slug)

theorem Ruled.onOffsetChange (hm : m.Ruled P Q) (ms : ℚ) : (m.onOffsetChange ms).Ruled P Q := by
  refine hm.congr (hm.wired.graphStep (.setOffsetMs (.fin ms))) rfl ?_
  funext slug
  have hr := hm.wired.routed
  obtain ⟨-, -, -, hd, -⟩ := hr.ids
  exact congrArg (fun level => { m.column slug with level })
    (MixerGraph.level_set hr (n := m.graph.sharedDelay) (by omega) _ slug)

theorem Ruled.onSaveStreamer (hm : m.Ruled P Q) : m.onSaveStreamer.Ruled P Q :=
  hm.congr hm.wired rfl rfl

/-- A write under one slug. -/
theorem Ruled.write (hm : m.Ruled P Q) (slug : String) (gain : Option (Option ℚ))
    (muted : Option (Option Bool)) (setting : Option ChannelSetting) (v : Number)
    (hP : slug ∈ m.slugs → P ((m.write slug gain muted setting v).column slug))
    (hQ : slug ∉ m.slugs → Q ((m.write slug gain muted setting v).column slug)) :
    (m.write slug gain muted setting v).Ruled P Q := by
  refine ⟨hm.wired.write _ _ _ _ _, fun other hother => ?_, fun other hother => ?_⟩
  · by_cases h : other = slug
    · subst h
      exact hP hother
    · rw [column_write_of_ne hm.wired h]
      exact hm.listed other hother
  · by_cases h : other = slug
    · subst h
      exact hQ hother
    · rw [column_write_of_ne hm.wired h]
      exact hm.unlisted other hother

theorem Ruled.ensureLane (hm : m.Ruled P Q) (slug : String) (decoder : Bool)
    (hP : P (m.column slug) → P ((m.ensureLane slug decoder).column slug))
    (hQ : Q (m.column slug) → Q ((m.ensureLane slug decoder).column slug)) :
    (m.ensureLane slug decoder).Ruled P Q := by
  have hslugs : (m.ensureLane slug decoder).slugs = m.slugs := by
    rw [ensureLane_eq]
    rfl
  refine ⟨hm.wired.ensureLane _ _, fun other hother => ?_, fun other hother => ?_⟩
  · rw [hslugs] at hother
    by_cases h : other = slug
    · subst h
      exact hP (hm.listed other hother)
    · rw [column_ensureLane_of_ne m h]
      exact hm.listed other hother
  · rw [hslugs] at hother
    by_cases h : other = slug
    · subst h
      exact hQ (hm.unlisted other hother)
    · rw [column_ensureLane_of_ne m h]
      exact hm.unlisted other hother

theorem Ruled.onAudio (hm : m.Ruled P Q)
    (h : ∀ slug decoder, (m.ensureLane slug decoder).Ruled P Q) (trackID : Nat) (decoder : Bool) :
    (m.onAudio trackID decoder).Ruled P Q := by
  rw [MixerState.onAudio]
  cases m.idToSlug trackID with
  | none => exact hm
  | some slug => exact h slug decoder

/-- A loop over the listed tracks, whose turns keep `R` and establish `P`. -/
theorem ruled_foldl {R : String → Column → Prop} {body : MixerState → TrackInfo → MixerState}
    (hlocal : KeyedLoop.Local column TrackInfo.slug Wired body)
    (htracks : ∀ m t, (body m t).tracks = m.tracks) (hw : m.Wired)
    (hlisted : ∀ slug ∈ m.slugs, R slug (m.column slug))
    (hunlisted : ∀ slug ∉ m.slugs, Q (m.column slug))
    (hturn : ∀ s t, R t.slug (s.column t.slug) →
      R t.slug ((body s t).column t.slug) ∧ P ((body s t).column t.slug)) :
    (m.tracks.foldl body m).Ruled P Q := by
  have hslugs : (m.tracks.foldl body m).slugs = m.slugs := by
    rw [slugs, foldl_keeps tracks htracks, slugs]
  refine ⟨hlocal.foldl_inv _ hw, fun slug h => ?_, fun slug h => ?_⟩
  · rw [hslugs] at h
    refine (hlocal.foldl_column (P := R slug) (Q := fun c => R slug c ∧ P c) m.tracks hw
      (hlisted slug h) (mem_slugs.mp h) ?_ ?_).2
    · rintro s - t - rfl
      exact hturn s t
    · rintro s - t - rfl ⟨hr, -⟩
      exact hturn s t hr
  · rw [hslugs] at h
    rw [hlocal.foldl_frame m.tracks hw (fun t ht hkey => h (mem_slugs.mpr ⟨t, ht, hkey⟩))]
    exact hunlisted slug h

end Rules

end MixerState

end StreamMix.Extension
