import StreamMix.Extension.Saved
import StreamMix.Extension.Seated

/-! Two solo clicks in a row. -/

namespace StreamMix.Extension

open Js

namespace MixerState

/-- One click leaves the track alone unmuted, and a second one brings back every flag and every
gain in the graph. -/
structure SoloReverts (m : MixerState) (slug : String) : Prop where
  once : ∀ other ∈ m.slugs, (m.onSoloToggle slug).isMuted other = decide (other ≠ slug)
  muted : ∀ other ∈ m.slugs,
    ((m.onSoloToggle slug).onSoloToggle slug).isMuted other = m.isMuted other
  level : ∀ other ∈ m.slugs,
    ((m.onSoloToggle slug).onSoloToggle slug).graph.level other = m.graph.level other

/-- The track is the only one that is not muted, and its node has the gain of its slider. -/
structure OnlyHeard (m : MixerState) (slug : String) : Prop where
  muted : ∀ other ∈ m.slugs, m.isMuted other = decide (other ≠ slug)
  level : m.graph.level slug = some (clamp01 (m.gainOr slug))

theorem gainOr_eq {m n : MixerState} (h : m.gains slug = n.gains slug) :
    m.gainOr slug = n.gainOr slug := by
  simp only [gainOr, property, h]

/-- The column that a solo click makes of another. -/
def soloed (m : MixerState) (slug other : String) : Column :=
  { m.column other with
    muted := some (some (decide (other ≠ slug)))
    level := (m.column other).nodes.map
      (fun _ => clamp01 (if other ≠ slug then .fin 0 else m.gainOr other)) }

theorem column_solo {m : MixerState} (slug : String) (hw : m.Wired) (h : other ∈ m.slugs) :
    (m.onSoloToggle slug).column other = m.soloed slug other := by
  have hturn (s : MixerState) (t : TrackInfo) (ht : t.slug = other)
      (hs : ∃ muted level, s.column other = { m.column other with muted, level }) :
      (s.soloTurn slug t).column other = m.soloed slug other := by
    obtain ⟨muted, level, hs⟩ := hs
    have hgain : s.gains other = m.gains other := congrArg Column.gain hs
    have hsetting : s.settings other = m.settings other := congrArg Column.setting hs
    subst ht
    rw [soloTurn_eq, column_write, hgain, hsetting, gainOr_eq hgain, hs]
    rfl
  exact (local_soloTurn slug).foldl_column
    (P := fun c => ∃ muted level, c = { m.column other with muted, level })
    (Q := (· = m.soloed slug other)) m.tracks hw ⟨none, _, rfl⟩ (mem_slugs.mp h)
    (fun s _ t _ ht hs => hturn s t ht hs) (fun s _ t _ ht hs => hturn s t ht ⟨_, _, hs⟩)

theorem slugs_onSoloToggle (m : MixerState) (slug : String) :
    (m.onSoloToggle slug).slugs = m.slugs := by
  have htracks : (m.onSoloToggle slug).tracks = m.tracks := by
    apply foldl_keeps tracks
    exact fun _ _ => rfl
  rw [slugs, htracks, slugs]

/-- The second click changes nothing. -/
theorem column_solo_solo {m : MixerState} (slug : String) (hm : m.Seated) (h : other ∈ m.slugs) :
    ((m.onSoloToggle slug).onSoloToggle slug).column other = m.soloed slug other := by
  have honce := column_solo slug hm.wired h
  have hgain : (m.onSoloToggle slug).gains other = m.gains other := congrArg Column.gain honce
  rw [column_solo slug (hm.onSoloToggle slug).wired (by rwa [slugs_onSoloToggle]), soloed, honce,
    gainOr_eq hgain]
  rfl

theorem Seated.level_of_muted {m : MixerState} (hm : m.Seated) (h : slug ∈ m.slugs)
    (hmuted : m.isMuted slug = true) : m.graph.level slug = some 0 := by
  obtain ⟨b, hb, hsilent⟩ := (hm.listed slug h).muted
  have hb : m.muted slug = some b := hb
  rw [isMuted_own hb, decide_eq_true_eq] at hmuted
  exact hsilent hmuted

theorem isMuted_soloed {m n : MixerState} (h : n.column other = m.soloed slug other) :
    n.isMuted other = decide (other ≠ slug) := by
  have hmuted : n.muted other = some (some (decide (other ≠ slug))) := congrArg Column.muted h
  rw [isMuted_own hmuted]
  simp

theorem level_soloed {m n : MixerState} (hm : m.Seated) (hslug : other ∈ m.slugs)
    (h : n.column other = m.soloed slug other) :
    n.graph.level other = some (clamp01 (if other ≠ slug then .fin 0 else m.gainOr other)) := by
  obtain ⟨t, ht, -⟩ := (hm.listed other hslug).placed
  have hlevel : n.graph.level other = (m.soloed slug other).level := congrArg Column.level h
  rw [hlevel, soloed, ht, Option.map_some]

/-- In every panel that is reached and for every listed track: two solo clicks are undone just if
the track was the only one heard before them. -/
theorem soloReverts_iff {stored global : Prefs} {m : MixerState}
    (h : (session stored global).Reachable m) (hslug : slug ∈ m.slugs) :
    m.SoloReverts slug ↔ m.OnlyHeard slug := by
  have hm := seated_of_reachable h
  constructor
  · intro hrev
    refine ⟨fun other hother => ?_, ?_⟩
    · rw [← hrev.muted other hother]
      exact isMuted_soloed (column_solo_solo slug hm hother)
    · rw [← hrev.level slug hslug, level_soloed hm hslug (column_solo_solo slug hm hslug),
        if_neg (by simp)]
  · intro honly
    refine ⟨fun other hother => ?_, fun other hother => ?_, fun other hother => ?_⟩
    · exact isMuted_soloed (column_solo slug hm.wired hother)
    · rw [honly.muted other hother]
      exact isMuted_soloed (column_solo_solo slug hm hother)
    · rw [level_soloed hm hother (column_solo_solo slug hm hother)]
      by_cases heq : other = slug
      · subst heq
        rw [if_neg (by simp), honly.level]
      · have hmuted : m.isMuted other = true := by
          rw [honly.muted other hother]
          simpa using heq
        rw [if_pos heq, hm.level_of_muted hother hmuted, clamp01_zero]

/-- A list of two, and a click that mutes the music. -/
def micRun : List MixerAct :=
  [.trackList [micTrack, musicTrack] (fun _ => true), .muteToggle "music"]

theorem soloReverts_micRun :
    (micRun.foldl step (mount (fun _ => none) (fun _ => none))).SoloReverts "mic" :=
  (soloReverts_iff (.of_run micRun (.init (session (fun _ => none) (fun _ => none))) rfl)
    (by decide)).mpr ⟨by decide, by decide +kernel⟩

/-- Nothing was muted, and after two solo clicks on the microphone the music is. -/
theorem solo_not_reverts : ¬ ∀ (stored global : Prefs) (m : MixerState),
    (session stored global).Reachable m → ∀ slug ∈ m.slugs, m.SoloReverts slug := by
  intro h
  have hmuted := (h (fun _ => none) (fun _ => none) _
    (.of_run [.trackList [micTrack, musicTrack] (fun _ => true)] (.init _) rfl) "mic"
    (by decide)).muted "music" (by decide)
  revert hmuted
  decide

end MixerState

end StreamMix.Extension
