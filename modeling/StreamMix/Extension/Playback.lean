import StreamMix.Extension.Decoder
import StreamMix.Extension.Saved
import StreamMix.Extension.Scheduler
import StreamMix.Extension.Seated

/-! The lanes of the content script, from the packets of the relay to the scheduler.  WebCodecs is
there, and a decoded buffer is named by the chunk it comes from. -/

namespace StreamMix.Extension

open Wire (Bytes)

structure AudioLane where
  decoder : OpusDecoderLane
  scheduler : ScheduledLane EncodedAudioChunk

def AudioLane.close (lane : AudioLane) : AudioLane := ⟨lane.decoder.close, lane.scheduler.close⟩

/-- The panel, whose `audioLanes` says which slugs have a lane, and what the lanes are. -/
structure Playback where
  panel : MixerState
  lanes : String → AudioLane

/-- How `onAudio` ends. -/
inductive AudioOutcome
  | ignored
  | submitted (slug : String)
  | thrown (slug : String)
  deriving DecidableEq

/-- A message of the relay, a click on the panel, or a callback of a lane. -/
inductive PlaybackAct
  | trackList (incoming : List TrackInfo)
  | audio (trackID : Nat) (packet : Bytes) (seq : UInt32)
  | click (a : MixerAct)
  | output (slug : String) (now : ℚ≥0)
  | error (slug : String)
  | ended (slug : String) (idx : Nat)

def MixerAct.isClick : MixerAct → Bool
  | .trackList .. | .audio .. => false
  | _ => true

namespace Playback

def mount (stored global : Prefs) : Playback where
  panel := .mount stored global
  lanes _ := ⟨⟨.create, none, none⟩, createScheduler⟩

/-- `audioLanes.get(slug)`. -/
def get (p : Playback) (slug : String) : Option AudioLane :=
  (p.panel.audioLanes slug).map (fun _ => p.lanes slug)

def set (p : Playback) (slug : String) (lane : AudioLane) : Playback :=
  { p with lanes := Function.update p.lanes slug lane }

def ensureLane (p : Playback) (slug : String) : Option AudioLane × Playback :=
  match p.get slug with
  | some lane => (some lane, p)
  | none =>
    match p.panel.graph.tracks.lookup slug, createOpusDecoder with
    | some _, some decoder =>
      let lane : AudioLane := ⟨decoder, createScheduler⟩
      (some lane, { p with panel := p.panel.ensureLane slug true }.set slug lane)
    | _, _ => (none, p)

def drop (p : Playback) (slug : String) : Playback :=
  let p := match p.get slug with
    | some lane => p.set slug lane.close
    | none => p
  { p with panel := p.panel.drop slug }

def dropTurn (incoming : List TrackInfo) (p : Playback) (t : TrackInfo) : Playback :=
  if t.slug ∈ incoming.map (fun t => t.slug) then p else p.drop t.slug

def addTurn (p : Playback) (t : TrackInfo) : Playback :=
  match p.panel.settings t.slug with
  | some _ => p
  -- all of `add` but its last line
  | none => ({ p with panel := p.panel.add t false }.ensureLane t.slug).2

def applyTrackList (p : Playback) (incoming : List TrackInfo) : Playback :=
  let p := p.panel.tracks.foldl (dropTurn incoming) p
  let p := incoming.foldl addTurn p
  { p with panel := { p.panel with tracks := incoming } }

def onTrackList (p : Playback) (incoming : List TrackInfo) : Playback :=
  { p with panel := p.panel.indexTracks incoming }.applyTrackList incoming

def onAudio (p : Playback) (trackID : Nat) (packet : Bytes) (seq : UInt32) :
    AudioOutcome × Playback :=
  match p.panel.idToSlug trackID with
  | none => (.ignored, p)
  | some slug =>
    match p.ensureLane slug with
    | (none, p) => (.ignored, p)
    | (some lane, p) =>
      let (submission, decoder) := lane.decoder.decode packet seq
      (if submission.taken then .submitted slug else .thrown slug, p.set slug { lane with decoder })

/-- A callback of the lane of a slug. -/
def callback (p : Playback) (slug : String) (f : AudioLane → Option AudioLane) :
    Option Playback :=
  (p.get slug).bind (fun lane => (f lane).map (p.set slug))

/-- The buffer is scheduled at a time of the context. -/
def onOutput (now : ℚ≥0) (lane : AudioLane) : Option AudioLane :=
  lane.decoder.decoder.output.map (fun (chunk, decoder) =>
    ⟨{ lane.decoder with decoder }, (lane.scheduler.enqueue now chunk).2⟩)

/-- The error callback writes to the console. -/
def onError (lane : AudioLane) : Option AudioLane :=
  lane.decoder.decoder.error.map (fun decoder =>
    { lane with decoder := { lane.decoder with decoder } })

def onEnded (idx : Nat) (lane : AudioLane) : Option AudioLane :=
  if idx < lane.scheduler.liveSources.length then
    some { lane with scheduler := lane.scheduler.onEnded idx }
  else none

def step (p : Playback) : PlaybackAct → Option Playback
  | .trackList incoming => some (p.onTrackList incoming)
  | .audio trackID packet seq => some (p.onAudio trackID packet seq).2
  | .click a => if a.isClick then some { p with panel := p.panel.step a } else none
  | .output slug now => p.callback slug (onOutput now)
  | .error slug => p.callback slug onError
  | .ended slug idx => p.callback slug (onEnded idx)

end Playback

def playback (stored global : Prefs) : Machine Playback PlaybackAct :=
  ⟨.mount stored global, Playback.step⟩

/-- A track whose decoder has failed, and that is on every list since; the latest event comes
first. -/
def Failed (slug : String) : List PlaybackAct → Prop
  | [] => False
  | .error failed :: older => failed = slug ∨ Failed slug older
  | .trackList incoming :: older => slug ∈ incoming.map (fun t => t.slug) ∧ Failed slug older
  | .audio .. :: older | .click _ :: older | .output .. :: older | .ended .. :: older =>
    Failed slug older

namespace MixerState

theorem ensureLane_false (m : MixerState) (slug : String) : m.ensureLane slug false = m := by
  simp only [ensureLane]
  split
  · rfl
  · split <;> rfl

theorem add_ensureLane (m : MixerState) (t : TrackInfo) :
    (m.add t false).ensureLane t.slug true = m.add t true := by
  rw [add_eq, ensureLane_false, add_eq]

theorem idToSlug_ensureLane (m : MixerState) (slug : String) (decoder : Bool) :
    (m.ensureLane slug decoder).idToSlug = m.idToSlug := by
  rw [ensureLane_eq]

theorem idToSlug_onTrackList (m : MixerState) (incoming : List TrackInfo)
    (decoders : String → Bool) :
    (m.onTrackList incoming decoders).idToSlug = (m.indexTracks incoming).idToSlug := by
  have hdrop (s : MixerState) (t : TrackInfo) :
      (s.dropTurn incoming t).idToSlug = s.idToSlug := by
    rw [dropTurn]
    split_ifs <;> rfl
  have hadd (s : MixerState) (t : TrackInfo) : (s.addTurn decoders t).idToSlug = s.idToSlug := by
    rw [addTurn]
    cases s.settings t.slug with
    | some _ => rfl
    | none => exact idToSlug_ensureLane _ _ _
  exact (foldl_keeps idToSlug hadd _ _).trans (foldl_keeps idToSlug hdrop _ _)

theorem mem_of_indexTracks (m : MixerState) (incoming : List TrackInfo) :
    ∀ id slug, (m.indexTracks incoming).idToSlug id = some slug →
      ∃ t ∈ incoming, t.id = id ∧ t.slug = slug := by
  refine incoming.foldlRecOn (motive := fun (f : Nat → Option String) =>
    ∀ id slug, f id = some slug → ∃ t ∈ incoming, t.id = id ∧ t.slug = slug) _ ?_ ?_
  · rintro _ _ ⟨⟩
  · intro f hf t ht id slug hslug
    rw [Function.update_apply] at hslug
    split_ifs at hslug with hid
    · exact ⟨t, ht, hid.symm, Option.some.inj hslug⟩
    · exact hf id slug hslug

/-- An identifier stands for a listed track. -/
theorem routed_onTrackList (m : MixerState) (incoming : List TrackInfo) (decoders : String → Bool)
    (trackID : Nat) (slug : String)
    (h : (m.onTrackList incoming decoders).idToSlug trackID = some slug) :
    slug ∈ (m.onTrackList incoming decoders).slugs := by
  rw [idToSlug_onTrackList] at h
  obtain ⟨t, ht, -, rfl⟩ := m.mem_of_indexTracks incoming trackID slug h
  exact List.mem_map_of_mem ht

theorem routed_onAudio (m : MixerState) (trackID : Nat) (decoder : Bool) :
    (m.onAudio trackID decoder).idToSlug = m.idToSlug ∧
      (m.onAudio trackID decoder).slugs = m.slugs := by
  rw [onAudio]
  cases m.idToSlug trackID with
  | none => exact ⟨rfl, rfl⟩
  | some slug =>
    have htracks : (m.ensureLane slug decoder).tracks = m.tracks := by rw [ensureLane_eq]
    exact ⟨idToSlug_ensureLane m slug decoder, congrArg (List.map TrackInfo.slug) htracks⟩

/-- What a click leaves alone. -/
def routing (m : MixerState) : (String → Option Nat) × (Nat → Option String) × List TrackInfo :=
  (m.audioLanes, m.idToSlug, m.tracks)

theorem routing_click (m : MixerState) (h : a.isClick) : (m.step a).routing = m.routing := by
  cases a with
  | trackList => cases h
  | audio => cases h
  | soloToggle slug =>
    exact foldl_keeps routing (fun s t => show (s.soloTurn slug t).routing = s.routing from rfl) _ _
  | reset =>
    exact foldl_keeps routing (fun s t => show (s.resetTurn t).routing = s.routing from rfl) _ _
  | _ => rfl

end MixerState

namespace Playback

variable {p q : Playback}

/-! What is kept under one slug. -/

def view (p : Playback) (slug : String) : Column × AudioLane := (p.panel.column slug, p.lanes slug)

def Configured (lane : AudioLane) : Prop := lane.decoder.decoder.state = .configured

/-- The slug has a lane, and its decoder takes no more. -/
def Dead (v : Column × AudioLane) : Prop := v.1.lane ≠ none ∧ ¬ Configured v.2

theorem get_eq_some :
    p.get slug = some lane ↔ p.panel.audioLanes slug ≠ none ∧ p.lanes slug = lane := by
  rw [get, Option.map_eq_some_iff, Option.ne_none_iff_exists']
  exact exists_and_right

theorem get_eq_none : p.get slug = none ↔ p.panel.audioLanes slug = none := by
  rw [get, Option.map_eq_none_iff]

theorem ensureLane_some (h : p.get slug = some lane) : p.ensureLane slug = (some lane, p) := by
  rw [ensureLane, h]

theorem ensureLane_new (h : p.get slug = none) (ht : p.panel.graph.tracks.lookup slug = some t) :
    p.ensureLane slug = (some ⟨⟨⟨.configured, []⟩, none, none⟩, createScheduler⟩,
      { p with panel := p.panel.ensureLane slug true }.set slug
        ⟨⟨⟨.configured, []⟩, none, none⟩, createScheduler⟩) := by
  rw [ensureLane, h, ht]
  rfl

theorem ensureLane_none (h : p.get slug = none) (ht : p.panel.graph.tracks.lookup slug = none) :
    p.ensureLane slug = (none, p) := by
  rw [ensureLane, h, ht]

theorem panel_ensureLane (p : Playback) (slug : String) :
    (p.ensureLane slug).2.panel = p.panel.ensureLane slug true := by
  cases hget : p.get slug with
  | some lane =>
    obtain ⟨n, hn⟩ := Option.ne_none_iff_exists'.mp (get_eq_some.mp hget).1
    rw [ensureLane_some hget, MixerState.ensureLane, hn]
  | none =>
    cases ht : p.panel.graph.tracks.lookup slug with
    | some t =>
      rw [ensureLane_new hget ht]
      rfl
    | none => rw [ensureLane_none hget ht, MixerState.ensureLane, get_eq_none.mp hget, ht]

theorem lanes_ensureLane_of_ne (p : Playback) (h : other ≠ slug) :
    (p.ensureLane slug).2.lanes other = p.lanes other := by
  cases hget : p.get slug with
  | some lane => rw [ensureLane_some hget]
  | none =>
    cases ht : p.panel.graph.tracks.lookup slug with
    | some t =>
      rw [ensureLane_new hget ht]
      exact Function.update_of_ne h _ _
    | none => rw [ensureLane_none hget ht]

/-- A lane that is there is kept, and a new one is configured. -/
theorem dead_ensureLane (p : Playback) (slug : String) :
    Dead ((p.ensureLane slug).2.view slug) ↔ Dead (p.view slug) := by
  cases hget : p.get slug with
  | some lane => rw [ensureLane_some hget]
  | none =>
    have hnone : ¬ Dead (p.view slug) := fun h => h.1 (get_eq_none.mp hget)
    cases ht : p.panel.graph.tracks.lookup slug with
    | some t =>
      rw [ensureLane_new hget ht]
      refine iff_of_false (fun h => h.2 ?_) hnone
      simp [view, set, Configured]
    | none => rw [ensureLane_none hget ht]

/-! The loops of `applyTrackList`. -/

theorem panel_drop (p : Playback) (slug : String) : (p.drop slug).panel = p.panel.drop slug := by
  rw [drop]
  cases p.get slug <;> rfl

theorem panel_dropTurn (incoming : List TrackInfo) (p : Playback) (t : TrackInfo) :
    (p.dropTurn incoming t).panel = p.panel.dropTurn incoming t := by
  rw [dropTurn, MixerState.dropTurn, apply_ite panel, panel_drop]

theorem panel_addTurn (p : Playback) (t : TrackInfo) :
    (p.addTurn t).panel = p.panel.addTurn (fun _ => true) t := by
  rw [addTurn, MixerState.addTurn]
  cases p.panel.settings t.slug with
  | some _ => rfl
  | none =>
    rw [panel_ensureLane]
    exact p.panel.add_ensureLane t

theorem panel_dropLoop (incoming ts : List TrackInfo) (p : Playback) :
    (ts.foldl (dropTurn incoming) p).panel =
      ts.foldl (fun m t => m.dropTurn incoming t) p.panel :=
  (List.foldl_hom panel (fun p t => (panel_dropTurn incoming p t).symm)).symm

theorem panel_addLoop (ts : List TrackInfo) (p : Playback) :
    (ts.foldl addTurn p).panel = ts.foldl (fun m t => m.addTurn (fun _ => true) t) p.panel :=
  (List.foldl_hom panel (fun p t => (panel_addTurn p t).symm)).symm

theorem panel_onTrackList (p : Playback) (incoming : List TrackInfo) :
    (p.onTrackList incoming).panel = p.panel.onTrackList incoming (fun _ => true) := by
  have hloops := panel_addLoop incoming
    (p.panel.tracks.foldl (dropTurn incoming) { p with panel := p.panel.indexTracks incoming })
  rw [panel_dropLoop] at hloops
  exact congrArg (fun m : MixerState => { m with tracks := incoming }) hloops

theorem view_dropTurn_of_ne (incoming : List TrackInfo) (p : Playback) (h : other ≠ t.slug) :
    (p.dropTurn incoming t).view other = p.view other := by
  rw [dropTurn]
  split_ifs with hstay
  · rfl
  · have hcol := p.panel.column_drop_of_ne h
    have hlanes : (p.drop t.slug).lanes other = p.lanes other := by
      rw [drop]
      cases p.get t.slug with
      | some lane => exact Function.update_of_ne h _ _
      | none => rfl
    rw [view, panel_drop, hcol, hlanes, view]

theorem local_dropTurn (incoming : List TrackInfo) :
    KeyedLoop.Local view TrackInfo.slug (fun p => p.panel.Wired) (dropTurn incoming) where
  inv p t hp := by
    rw [panel_dropTurn]
    exact (MixerState.local_dropTurn incoming).inv p.panel t hp
  frame p t other _ h := view_dropTurn_of_ne incoming p h

theorem local_addTurn :
    KeyedLoop.Local view TrackInfo.slug (fun p => p.panel.Wired) addTurn where
  inv p t hp := by
    rw [panel_addTurn]
    exact (MixerState.local_addTurn _).inv p.panel t hp
  frame p t other hp h := by
    have hcol := (MixerState.local_addTurn (fun _ => true)).frame p.panel t other hp h
    have hlanes : (p.addTurn t).lanes other = p.lanes other := by
      rw [addTurn]
      cases p.panel.settings t.slug with
      | some _ => rfl
      | none => exact lanes_ensureLane_of_ne _ h
    rw [view, panel_addTurn, hcol, hlanes, view]

/-- A lane that is there is kept, and a new one is configured. -/
theorem dead_addTurn (p : Playback) (t : TrackInfo) :
    Dead ((p.addTurn t).view t.slug) ↔ Dead (p.view t.slug) := by
  rw [addTurn]
  cases p.panel.settings t.slug with
  | some _ => exact Iff.rfl
  | none =>
    rw [dead_ensureLane]
    have hlane : (p.panel.add t false).audioLanes t.slug = p.panel.audioLanes t.slug := by
      rw [MixerState.add_eq, MixerState.ensureLane_false]
      rfl
    exact and_congr (by simp only [view, MixerState.column, hlane]) Iff.rfl

/-- A list leaves the lane of a track on it as dead or alive as it was. -/
theorem dead_onTrackList (p : Playback) (hw : p.panel.Wired) (incoming : List TrackInfo)
    (h : slug ∈ incoming.map (fun t => t.slug)) :
    Dead ((p.onTrackList incoming).view slug) ↔ Dead (p.view slug) := by
  let indexed : Playback := { p with panel := p.panel.indexTracks incoming }
  have hdrop := (local_dropTurn incoming).foldl_keep (s := indexed) (k := slug)
    (P := (· = indexed.view slug)) p.panel.tracks hw rfl (by
      rintro s - t - rfl hs
      rwa [dropTurn, if_pos h])
  have hadd := local_addTurn.foldl_keep (k := slug)
    (P := fun v => Dead v ↔ Dead (p.view slug)) incoming
    ((local_dropTurn incoming).foldl_inv (s := indexed) p.panel.tracks hw)
    (by rw [hdrop]; exact Iff.rfl) (by
      rintro s - t - rfl hs
      exact (dead_addTurn s t).trans hs)
  exact hadd

theorem get_ensureLane (p : Playback) (slug : String) :
    (p.ensureLane slug).2.get slug = (p.ensureLane slug).1 := by
  cases hget : p.get slug with
  | some lane => rw [ensureLane_some hget, hget]
  | none =>
    cases ht : p.panel.graph.tracks.lookup slug with
    | some t =>
      have hnew : (p.panel.ensureLane slug true).audioLanes slug = some t.entry := by
        simp [MixerState.ensureLane, get_eq_none.mp hget, ht]
      rw [ensureLane_new hget ht, get_eq_some]
      exact ⟨by simp [set, hnew], Function.update_self ..⟩
    | none => rw [ensureLane_none hget ht, hget]

theorem dead_of_get (h : p.get slug = some lane) : Dead (p.view slug) ↔ ¬ Configured lane := by
  obtain ⟨hlane, rfl⟩ := get_eq_some.mp h
  exact and_iff_right hlane

theorem dead_set (h : p.get slug = some lane) (lane' : AudioLane) :
    Dead ((p.set slug lane').view slug) ↔ ¬ Configured lane' := by
  have hget : (p.set slug lane').get slug = some lane' :=
    get_eq_some.mpr ⟨(get_eq_some.mp h).1, Function.update_self ..⟩
  exact dead_of_get hget

theorem view_set_of_ne (p : Playback) (h : other ≠ slug) (lane : AudioLane) :
    (p.set slug lane).view other = p.view other := by
  have hlanes : (p.set slug lane).lanes other = p.lanes other := Function.update_of_ne h _ _
  rw [view, hlanes]
  rfl

/-! A packet. -/

theorem onAudio_unrouted (h : p.panel.idToSlug trackID = none) (packet : Bytes) (seq : UInt32) :
    p.onAudio trackID packet seq = (.ignored, p) := by
  rw [onAudio, h]

theorem onAudio_none (h : p.panel.idToSlug trackID = some slug)
    (hlane : p.ensureLane slug = (none, q)) (packet : Bytes) (seq : UInt32) :
    p.onAudio trackID packet seq = (.ignored, q) := by
  rw [onAudio, h]
  simp only [hlane]

theorem onAudio_some (h : p.panel.idToSlug trackID = some slug)
    (hlane : p.ensureLane slug = (some lane, q)) (packet : Bytes) (seq : UInt32) :
    p.onAudio trackID packet seq =
      (if (lane.decoder.decode packet seq).1.taken then .submitted slug else .thrown slug,
        q.set slug { lane with decoder := (lane.decoder.decode packet seq).2 }) := by
  rw [onAudio, h]
  simp only [hlane]

theorem panel_onAudio (p : Playback) (trackID : Nat) (packet : Bytes) (seq : UInt32) :
    (p.onAudio trackID packet seq).2.panel = p.panel.onAudio trackID true := by
  cases h : p.panel.idToSlug trackID with
  | none => rw [onAudio_unrouted h, MixerState.onAudio, h]
  | some slug =>
    have hroute : p.panel.onAudio trackID true = (p.ensureLane slug).2.panel := by
      rw [MixerState.onAudio, h, panel_ensureLane]
    rw [hroute]
    rcases hlane : p.ensureLane slug with ⟨_ | lane, q⟩
    · rw [onAudio_none h hlane]
    · rw [onAudio_some h hlane]
      rfl

/-- A packet leaves every lane as dead or alive as it was. -/
theorem dead_onAudio (p : Playback) (trackID : Nat) (packet : Bytes) (seq : UInt32)
    (other : String) :
    Dead ((p.onAudio trackID packet seq).2.view other) ↔ Dead (p.view other) := by
  cases h : p.panel.idToSlug trackID with
  | none => rw [onAudio_unrouted h]
  | some slug =>
    have hkeep : Dead ((p.ensureLane slug).2.view other) ↔ Dead (p.view other) := by
      by_cases heq : other = slug
      · subst heq
        exact p.dead_ensureLane other
      · rw [view, panel_ensureLane, MixerState.column_ensureLane_of_ne _ heq,
          lanes_ensureLane_of_ne _ heq, view]
    have hget := p.get_ensureLane slug
    rcases hlane : p.ensureLane slug with ⟨_ | lane, q⟩ <;> rw [hlane] at hkeep hget
    · rw [onAudio_none h hlane]
      exact hkeep
    · rw [onAudio_some h hlane, ← hkeep]
      by_cases heq : other = slug
      · subst heq
        rw [dead_set hget, dead_of_get hget, Configured, (lane.decoder.decode_decoder packet seq).2,
          Configured]
      · rw [view_set_of_ne q heq]

/-- A packet for a track of the graph. -/
theorem submitted_iff (h : p.panel.idToSlug trackID = some slug)
    (ht : p.panel.graph.tracks.lookup slug ≠ none) (packet : Bytes) (seq : UInt32) :
    (p.onAudio trackID packet seq).1 = .submitted slug ↔ ¬ Dead (p.view slug) := by
  have hkeep := p.dead_ensureLane slug
  have hget := p.get_ensureLane slug
  rcases hlane : p.ensureLane slug with ⟨_ | lane, q⟩ <;> rw [hlane] at hkeep hget
  · obtain ⟨t, ht⟩ := Option.ne_none_iff_exists'.mp ht
    cases hnone : p.get slug with
    | some lane => cases hlane.symm.trans (ensureLane_some hnone)
    | none => cases hlane.symm.trans (ensureLane_new hnone ht)
  · rw [onAudio_some h hlane, ← hkeep, dead_of_get hget, not_not, Configured,
      (lane.decoder.decode_decoder packet seq).1]
    by_cases hstate : lane.decoder.decoder.state = .configured <;> simp [hstate]

/-! A callback. -/

theorem callback_eq_some (h : p.callback slug f = some q) :
    ∃ lane lane', p.get slug = some lane ∧ f lane = some lane' ∧ p.set slug lane' = q := by
  obtain ⟨lane, hget, h⟩ := Option.bind_eq_some_iff.mp h
  obtain ⟨lane', hf, h⟩ := Option.map_eq_some_iff.mp h
  exact ⟨lane, lane', hget, hf, h⟩

theorem configured_onOutput (h : onOutput now lane = some lane') :
    Configured lane' ↔ Configured lane := by
  obtain ⟨⟨chunk, decoder⟩, hout, rfl⟩ := Option.map_eq_some_iff.mp h
  rw [AudioDecoder.output] at hout
  split at hout
  · cases hout
    exact Iff.rfl
  · cases hout

theorem configured_onEnded (h : onEnded idx lane = some lane') :
    Configured lane' ↔ Configured lane := by
  rw [onEnded] at h
  split_ifs at h
  cases h
  exact Iff.rfl

theorem not_configured_onError (h : onError lane = some lane') : ¬ Configured lane' := by
  obtain ⟨decoder, herr, rfl⟩ := Option.map_eq_some_iff.mp h
  rw [AudioDecoder.error] at herr
  split at herr
  · cases herr
    exact nofun
  · cases herr

/-- What holds after the events of a history. -/
structure Follows (history : List PlaybackAct) (p : Playback) : Prop where
  seated : p.panel.Seated
  routed : ∀ trackID slug, p.panel.idToSlug trackID = some slug → slug ∈ p.panel.slugs
  dead : ∀ slug, Dead (p.view slug) ↔ Failed slug history

theorem follows_mount (stored global : Prefs) : (mount stored global).Follows [] where
  seated := MixerState.seated_mount stored global
  routed := by simp [mount, MixerState.mount]
  dead _ := iff_of_false (fun h => h.1 rfl) id

section Steps

variable {history : List PlaybackAct} (hp : p.Follows history)
include hp

theorem Follows.listed (h : Dead (p.view slug)) : slug ∈ p.panel.slugs := by
  by_contra hnot
  exact h.1 (hp.seated.unlisted slug hnot).lane

theorem Follows.onTrackList (incoming : List TrackInfo) :
    (p.onTrackList incoming).Follows (.trackList incoming :: history) := by
  have hpanel := p.panel_onTrackList incoming
  have hseated : (p.onTrackList incoming).panel.Seated := by
    rw [hpanel]
    exact hp.seated.onTrackList incoming _
  refine ⟨hseated, ?_, ?_⟩
  · rw [hpanel]
    exact p.panel.routed_onTrackList incoming _
  · intro slug
    by_cases h : slug ∈ incoming.map (fun t => t.slug)
    · rw [dead_onTrackList p hp.seated.wired incoming h, hp.dead, Failed, and_iff_right h]
    · refine iff_of_false (fun hdead => hdead.1 ?_) (fun hfailed => h hfailed.1)
      exact (hseated.unlisted slug (by rw [hpanel]; exact h)).lane

theorem Follows.onAudio (trackID : Nat) (packet : Bytes) (seq : UInt32) :
    (p.onAudio trackID packet seq).2.Follows (.audio trackID packet seq :: history) := by
  have hpanel := p.panel_onAudio trackID packet seq
  refine ⟨?_, ?_, fun slug => (p.dead_onAudio trackID packet seq slug).trans (hp.dead slug)⟩
  · rw [hpanel]
    exact hp.seated.onAudio trackID true
  · obtain ⟨hid, hslugs⟩ := p.panel.routed_onAudio trackID true
    rw [hpanel, hid, hslugs]
    exact hp.routed

theorem Follows.click (h : a.isClick) :
    Follows (.click a :: history) { p with panel := p.panel.step a } := by
  obtain ⟨hlanes, hrest⟩ := Prod.mk.inj (p.panel.routing_click h)
  obtain ⟨hid, htracks⟩ := Prod.mk.inj hrest
  refine ⟨hp.seated.step a, ?_, ?_⟩
  · simp only [hid, MixerState.slugs, htracks]
    exact hp.routed
  · intro slug
    rw [Failed, ← hp.dead]
    exact and_congr_left' (by simp only [view, MixerState.column, hlanes])

/-- A callback that decides whether the decoder takes more. -/
theorem Follows.callback (h : p.callback slug f = some q)
    (hf : ∀ lane lane', p.get slug = some lane → f lane = some lane' →
      (¬ Configured lane' ↔ Failed slug (a :: history)))
    (hother : ∀ other ≠ slug, (Failed other (a :: history) ↔ Failed other history)) :
    q.Follows (a :: history) := by
  obtain ⟨lane, lane', hget, hlane, rfl⟩ := callback_eq_some h
  refine ⟨hp.seated, hp.routed, fun other => ?_⟩
  by_cases heq : other = slug
  · subst heq
    rw [dead_set hget, hf lane lane' hget hlane]
  · rw [view_set_of_ne p heq, hp.dead, hother other heq]

/-- A callback that leaves the decoder as it is. -/
theorem Follows.quiet (h : p.callback slug f = some q)
    (hf : ∀ lane lane', f lane = some lane' → (Configured lane' ↔ Configured lane))
    (ha : ∀ other, Failed other (a :: history) ↔ Failed other history) :
    q.Follows (a :: history) := by
  refine hp.callback h (fun lane lane' hget hlane => ?_) (fun other _ => ha other)
  rw [ha, ← hp.dead, dead_of_get hget, hf lane lane' hlane]

theorem Follows.step (h : p.step a = some q) : q.Follows (a :: history) := by
  cases a with
  | trackList incoming =>
    cases h
    exact hp.onTrackList incoming
  | audio trackID packet seq =>
    cases h
    exact hp.onAudio trackID packet seq
  | click a =>
    rw [Playback.step] at h
    split_ifs at h with ha
    cases h
    exact hp.click ha
  | output slug now => exact hp.quiet h (fun _ _ => configured_onOutput) (fun _ => Iff.rfl)
  | ended slug idx => exact hp.quiet h (fun _ _ => configured_onEnded) (fun _ => Iff.rfl)
  | error slug =>
    refine hp.callback h (fun lane lane' _ hlane => ?_) (fun other hne => ?_)
    · exact iff_of_true (not_configured_onError hlane) (.inl rfl)
    · exact or_iff_right hne.symm

end Steps

/-- Every packet that is routed to a track is submitted to its decoder, which is configured. -/
def Submits (stored global : Prefs) (as : List PlaybackAct) : Prop :=
  ∀ older trackID packet seq later, as = older ++ .audio trackID packet seq :: later →
    ∀ p slug, (playback stored global).run (mount stored global) older = some p →
      p.panel.idToSlug trackID = some slug →
      (p.onAudio trackID packet seq).1 = .submitted slug

/-- No packet is routed to a track whose decoder has failed. -/
def Spares (stored global : Prefs) (as : List PlaybackAct) : Prop :=
  ∀ older trackID packet seq later, as = older ++ .audio trackID packet seq :: later →
    ∀ p slug, (playback stored global).run (mount stored global) older = some p →
      p.panel.idToSlug trackID = some slug → ¬ Failed slug older.reverse

/-- For every sequence of events: every packet for a listed track is submitted just if none comes
after a failure of the decoder of its track. -/
theorem submits_iff (stored global : Prefs) (as : List PlaybackAct) :
    Submits stored global as ↔ Spares stored global as := by
  refine forall₅_congr (fun older trackID packet seq later => forall_congr' (fun _ => ?_))
  refine forall₄_congr (fun p slug hrun hroute => ?_)
  have hp : p.Follows older.reverse :=
    Machine.run_invariant (follows_mount stored global)
      (fun _ _ _ _ hs hstep => hs.step hstep) hrun
  obtain ⟨t, ht, -⟩ := (hp.seated.listed slug (hp.routed trackID slug hroute)).placed
  have ht : p.panel.graph.tracks.lookup slug = some t := ht
  rw [submitted_iff hroute (by simp [ht]), hp.dead]

/-- The codec fails on the first packet of the microphone, and a second one comes. -/
def spoiled : List PlaybackAct :=
  [.trackList [MixerState.micTrack], .audio 1 [] 0, .error "mic", .audio 1 [] 1]

theorem not_submits_spoiled :
    ¬ ∀ (stored global : Prefs) (as : List PlaybackAct), Submits stored global as := by
  intro h
  have hsecond := h (fun _ => none) (fun _ => none) spoiled (spoiled.take 3) 1 [] 1 [] rfl _ "mic"
    rfl (by decide)
  revert hsecond
  decide

end Playback

end StreamMix.Extension
