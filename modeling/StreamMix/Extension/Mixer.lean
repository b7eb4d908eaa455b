import StreamMix.Extension.Graph
import StreamMix.Extension.Prefs
import StreamMix.Lib.Machine

namespace StreamMix.Extension

open Js

/-- `ToNumber` on a number or `undefined`. -/
def toNumber : Option ℚ → Number
  | some v => .fin v
  | none => .nan

/-- `muted ? 0 : gain`. -/
def ChannelSetting.level (s : ChannelSetting) : Number :=
  if s.muted = some true then .fin 0 else toNumber s.gain

/-- What one call of `mount` closes over.  The objects and maps are given by their own
properties; a value `none` in one of them is `undefined`.  Slider values are finite. -/
structure MixerState where
  graph : MixerGraph
  tracks : List TrackInfo
  gains : String → Option (Option ℚ)
  muted : String → Option (Option Bool)
  settings : String → Option ChannelSetting
  /-- The node that the scheduler of the lane connects to. -/
  audioLanes : String → Option Nat
  idToSlug : Nat → Option String
  broadcastGain : ℚ
  offsetMs : ℚ
  streamerPrefs : Prefs
  globalPrefs : Prefs
  /-- The entry of the channel in `chrome.storage`. -/
  stored : Prefs

inductive MixerAct
  | trackList (incoming : List TrackInfo) (decoders : String → Bool)
  | audio (trackID : Nat) (decoder : Bool)
  | change (slug : String) (v : ℚ)
  | muteToggle (slug : String)
  | soloToggle (slug : String)
  | broadcastChange (v : ℚ)
  | offsetChange (ms : ℚ)
  | reset
  | saveStreamer

namespace MixerState

def mount (stored global : Prefs) : MixerState where
  graph := (buildGraph.setBroadcastGain (.fin 0.2)).setOffsetMs (.fin 0)
  tracks := []
  gains _ := none
  muted _ := none
  settings _ := none
  audioLanes _ := none
  idToSlug _ := none
  broadcastGain := 0.2
  offsetMs := 0
  streamerPrefs := stored
  globalPrefs := global
  stored := stored

variable (m : MixerState)

def slugs : List String := m.tracks.map (fun t => t.slug)

/-- The truth value of `muted[slug]`. -/
def isMuted (slug : String) : Bool :=
  match property m.muted slug with
  | .own b => b = some true
  | .inherited => true
  | .missing => false

/-- `gains[slug] ?? 0.5`. -/
def gainOr (slug : String) : Number :=
  match property m.gains slug with
  | .own (some v) => .fin v
  | .inherited => .nan
  | _ => .fin 0.5

def onChange (slug : String) (v : ℚ) : MixerState :=
  { m with
    gains := Function.update m.gains slug (some (some v))
    settings := Function.update m.settings slug
      ((m.settings slug).map (fun s => { s with gain := some v }))
    graph := m.graph.setTrackGain slug (if m.isMuted slug then .fin 0 else .fin v) }

def onMuteToggle (slug : String) : MixerState :=
  let next := !m.isMuted slug
  { m with
    muted := Function.update m.muted slug (some (some next))
    settings := Function.update m.settings slug
      ((m.settings slug).map (fun s => { s with muted := some next }))
    graph := m.graph.setTrackGain slug (if next then .fin 0 else m.gainOr slug) }

/-- A turn of the loop in `onSoloToggle`, with `muted` for `nextMuted`. -/
def soloTurn (slug : String) (t : TrackInfo) : MixerState :=
  let next : Bool := t.slug ≠ slug
  { m with
    muted := Function.update m.muted t.slug (some (some next))
    graph := m.graph.setTrackGain t.slug (if next then .fin 0 else m.gainOr t.slug) }

def onSoloToggle (slug : String) : MixerState :=
  m.tracks.foldl (fun m t => m.soloTurn slug t) { m with muted := fun _ => none }

def onBroadcastChange (v : ℚ) : MixerState :=
  { m with broadcastGain := v, graph := m.graph.setBroadcastGain (.fin v) }

def onOffsetChange (ms : ℚ) : MixerState :=
  { m with offsetMs := ms, graph := m.graph.setOffsetMs (.fin ms) }

/-- A turn of the loop in `onReset`, with `gains` and `muted` for the new objects. -/
def resetTurn (t : TrackInfo) : MixerState :=
  let eff := effectiveSetting t.slug t.category (fun _ => none) m.globalPrefs
  { m with
    gains := Function.update m.gains t.slug (some eff.gain)
    muted := Function.update m.muted t.slug (some eff.muted)
    settings := Function.update m.settings t.slug (some eff)
    graph := m.graph.setTrackGain t.slug eff.level }

def onReset : MixerState :=
  m.tracks.foldl resetTurn { m with gains := fun _ => none, muted := fun _ => none }

/-- The object that is stored has an own property for every entry of `settings`. -/
def onSaveStreamer : MixerState := { m with stored := m.settings }

def ensureLane (slug : String) (decoder : Bool) : MixerState :=
  match m.audioLanes slug with
  | some _ => m
  | none =>
    match m.graph.tracks.lookup slug with
    | none => m
    | some t =>
      if decoder then
        { m with audioLanes := Function.update m.audioLanes slug (some t.entry) }
      else m

/-- The body of the first loop in `applyTrackList`, for a track that is gone. -/
def drop (slug : String) : MixerState :=
  { m with
    audioLanes := Function.update m.audioLanes slug none
    graph := m.graph.removeTrack slug
    gains := Function.update m.gains slug none
    muted := Function.update m.muted slug none
    settings := Function.update m.settings slug none }

/-- The body of the second loop, for a track that `settings` does not have. -/
def add (t : TrackInfo) (decoder : Bool) : MixerState :=
  let eff := effectiveSetting t.slug t.category m.streamerPrefs m.globalPrefs
  let m := { m with
    settings := Function.update m.settings t.slug (some eff)
    gains := Function.update m.gains t.slug (some eff.gain)
    muted := Function.update m.muted t.slug (some eff.muted)
    graph := (m.graph.addTrack t.slug).setTrackGain t.slug eff.level }
  m.ensureLane t.slug decoder

def dropTurn (incoming : List TrackInfo) (t : TrackInfo) : MixerState :=
  if t.slug ∈ incoming.map (fun t => t.slug) then m else m.drop t.slug

def addTurn (decoders : String → Bool) (t : TrackInfo) : MixerState :=
  match m.settings t.slug with
  | some _ => m
  | none => m.add t (decoders t.slug)

def applyTrackList (incoming : List TrackInfo) (decoders : String → Bool) : MixerState :=
  let m := m.tracks.foldl (fun m t => m.dropTurn incoming t) m
  let m := incoming.foldl (fun m t => m.addTurn decoders t) m
  { m with tracks := incoming }

def indexTracks (incoming : List TrackInfo) : MixerState :=
  { m with
    idToSlug := incoming.foldl (fun f t => Function.update f t.id (some t.slug)) (fun _ => none) }

def onTrackList (incoming : List TrackInfo) (decoders : String → Bool) : MixerState :=
  (m.indexTracks incoming).applyTrackList incoming decoders

def onAudio (trackID : Nat) (decoder : Bool) : MixerState :=
  match m.idToSlug trackID with
  | none => m
  | some slug => m.ensureLane slug decoder

def step : MixerAct → MixerState
  | .trackList incoming decoders => m.onTrackList incoming decoders
  | .audio trackID decoder => m.onAudio trackID decoder
  | .change slug v => m.onChange slug v
  | .muteToggle slug => m.onMuteToggle slug
  | .soloToggle slug => m.onSoloToggle slug
  | .broadcastChange v => m.onBroadcastChange v
  | .offsetChange ms => m.onOffsetChange ms
  | .reset => m.onReset
  | .saveStreamer => m.onSaveStreamer

end MixerState

/-- The panel of one call of `mount`. -/
def session (stored global : Prefs) : Machine MixerState MixerAct :=
  ⟨.mount stored global, fun m a => some (m.step a)⟩

inductive Visit
  | event (a : MixerAct)
  | mount (global : Prefs)

/-- Session after session on one channel; what a session finds is what the one before it
left in the store. -/
def visits (stored global : Prefs) : Machine MixerState Visit where
  init := .mount stored global
  step
    | m, .event a => some (m.step a)
    | m, .mount global => some (.mount m.stored global)

end StreamMix.Extension
