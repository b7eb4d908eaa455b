import StreamMix.Extension.Consistent

/-! What holds of the tracks of every panel, whatever was clicked. -/

namespace StreamMix.Extension

open Js

namespace Column

/-- A listed track is in the graph and has its flag, and nothing of it is heard while that is
set. -/
structure Seated (c : Column) : Prop where
  placed : c.Placed
  setting : c.setting ≠ none
  muted : ∃ b, c.muted = some b ∧ (b = some true → c.level = some 0)

structure Vacant (c : Column) : Prop where
  setting : c.setting = none
  nodes : c.nodes = none
  lane : c.lane = none

theorem vacant_empty : Column.empty.Vacant := ⟨rfl, rfl, rfl⟩

/-- A write that silences the node if it sets the flag. -/
theorem Placed.seated {c : Column} (h : c.Placed) (gain : Option (Option ℚ))
    {setting : Option ChannelSetting} (hs : setting ≠ none)
    (hv : b = some true → clamp01 v = 0) :
    Seated { c with
      gain, muted := some b, setting, level := c.nodes.map (fun _ => clamp01 v) } := by
  obtain ⟨t, ht, hlane⟩ := h
  refine ⟨⟨t, ht, hlane⟩, hs, b, rfl, ?_⟩
  intro hb
  simp only [ht, Option.map_some, hv hb]

end Column

namespace MixerState

def Seated (m : MixerState) : Prop := m.Ruled Column.Seated Column.Vacant

theorem seated_mount (stored global : Prefs) : (mount stored global).Seated :=
  ruled_mount Column.vacant_empty stored global

theorem clamp01_effective (s : ChannelSetting) (h : s.muted = some true) : clamp01 s.level = 0 := by
  rw [clamp01_level, heard, if_pos h]

section Steps

variable {m : MixerState} (hm : m.Seated)
include hm

/-- A click that keeps the keys and silences the node if it sets the flag. -/
theorem Seated.write (slug : String) (gain : Option (Option ℚ)) (muted : Option (Option Bool))
    (f : ChannelSetting → ChannelSetting) (v : Number)
    (hv : slug ∈ m.slugs → ∃ b, muted = some b ∧ (b = some true → clamp01 v = 0)) :
    (m.write slug gain muted ((m.settings slug).map f) v).Seated := by
  apply Ruled.write hm <;> intro h <;> rw [column_write]
  · obtain ⟨hplaced, hsetting, -⟩ := hm.listed slug h
    obtain ⟨b, rfl, hb⟩ := hv h
    exact hplaced.seated gain (fun hnone => hsetting (Option.map_eq_none_iff.mp hnone)) hb
  · obtain ⟨hsetting, hnodes, hlane⟩ := hm.unlisted slug h
    exact ⟨Option.map_eq_none_iff.mpr hsetting, hnodes, hlane⟩

theorem Seated.onChange (slug : String) (v : ℚ) : (m.onChange slug v).Seated := by
  rw [onChange_eq]
  apply hm.write
  intro h
  obtain ⟨b, hb, -⟩ := (hm.listed slug h).muted
  have hb : m.muted slug = some b := hb
  refine ⟨b, hb, ?_⟩
  rintro rfl
  rw [isMuted_own hb, decide_eq_true rfl, if_pos rfl]
  exact clamp01_zero

theorem Seated.onMuteToggle (slug : String) : (m.onMuteToggle slug).Seated := by
  rw [onMuteToggle_eq]
  apply hm.write
  intro _
  refine ⟨_, rfl, ?_⟩
  intro hnext
  rw [Option.some.inj hnext, if_pos rfl]
  exact clamp01_zero

theorem Seated.onSoloToggle (slug : String) : (m.onSoloToggle slug).Seated := by
  apply ruled_foldl (local_soloTurn slug) (fun _ _ => rfl)
    (R := fun _ c => c.Placed ∧ c.setting ≠ none)
  · exact hm.wired
  · exact fun other h => ⟨(hm.listed other h).placed, (hm.listed other h).setting⟩
  · intro other h
    obtain ⟨hsetting, hnodes, hlane⟩ := hm.unlisted other h
    exact ⟨hsetting, hnodes, hlane⟩
  · rintro s t ⟨hplaced, hsetting⟩
    rw [soloTurn_eq, column_write]
    refine ⟨⟨hplaced, hsetting⟩, hplaced.seated _ hsetting ?_⟩
    intro hother
    rw [if_pos (by simpa using hother)]
    exact clamp01_zero

theorem Seated.onReset : m.onReset.Seated := by
  apply ruled_foldl local_resetTurn (fun _ _ => rfl) (R := fun _ => Column.Placed)
  · exact hm.wired
  · exact fun slug h => (hm.listed slug h).placed
  · intro slug h
    obtain ⟨hsetting, hnodes, hlane⟩ := hm.unlisted slug h
    exact ⟨hsetting, hnodes, hlane⟩
  · intro s t h
    rw [resetTurn_eq, column_write]
    exact ⟨h, h.seated _ (by simp) (clamp01_effective _)⟩

theorem Seated.onTrackList (incoming : List TrackInfo) (decoders : String → Bool) :
    (m.onTrackList incoming decoders).Seated := by
  apply Ruled.onTrackList hm (fun c h => h.setting) (fun c h => h.setting) Column.vacant_empty
  intro s t decoder hs hvacant
  rw [column_add hs t decoder hvacant.nodes hvacant.lane]
  obtain ⟨hplaced, -, hmuted, hsetting, -⟩ := Column.sound_fresh
    (effectiveSetting t.slug t.category s.streamerPrefs s.globalPrefs) s.graph.newNodes decoder
  exact ⟨hplaced, hsetting, _, rfl, fun h => congrArg some (clamp01_effective _ h)⟩

theorem Seated.onAudio (trackID : Nat) (decoder : Bool) : (m.onAudio trackID decoder).Seated := by
  refine Ruled.onAudio hm (fun slug decoder => Ruled.ensureLane hm slug decoder ?_ ?_) _ _
  · rintro ⟨hplaced, hsetting, hmuted⟩
    rw [column_ensureLane]
    exact ⟨hplaced.lane decoder, hsetting, hmuted⟩
  · rintro ⟨hsetting, hnodes, hlane⟩
    rw [column_ensureLane, hnodes, hlane]
    exact ⟨hsetting, hnodes, by cases decoder <;> rfl⟩

theorem Seated.step (a : MixerAct) : (m.step a).Seated := by
  cases a with
  | trackList incoming decoders => exact hm.onTrackList incoming decoders
  | audio trackID decoder => exact hm.onAudio trackID decoder
  | change slug v => exact hm.onChange slug v
  | muteToggle slug => exact hm.onMuteToggle slug
  | soloToggle slug => exact hm.onSoloToggle slug
  | broadcastChange v => exact Ruled.onBroadcastChange hm v
  | offsetChange ms => exact Ruled.onOffsetChange hm ms
  | reset => exact hm.onReset
  | saveStreamer => exact Ruled.onSaveStreamer hm

end Steps

theorem seated_of_reachable {stored global : Prefs} (h : (session stored global).Reachable m) :
    m.Seated := by
  refine h.invariant (seated_mount stored global) ?_
  rintro s a t hs hstep
  cases hstep
  exact hs.step a

end MixerState

end StreamMix.Extension
