import StreamMix.Lib.JsNumber
import StreamMix.Lib.Machine
import StreamMix.Lib.SignalGraph

namespace StreamMix.Extension

open SignalGraph Js

structure TrackNodes where
  entry : Nat
  userGain : Nat
  deriving DecidableEq

structure MixerGraph where
  ctx : Context
  master : Nat
  broadcastGain : Nat
  cancellationSum : Nat
  sharedDelay : Nat
  inverter : Nat
  source : Nat
  offsetMs : ℚ
  tracks : List (String × TrackNodes)

def maxOffsetSeconds : ℚ := 30
def maxOffsetMs : ℚ := maxOffsetSeconds * 1000

def buildGraph : MixerGraph :=
  let ctx := Context.empty
  let (source, ctx) := ctx.create .wire
  let (broadcastGain, ctx) := ctx.create (.gain 1)
  let (cancellationSum, ctx) := ctx.create (.gain 1)
  let (sharedDelay, ctx) := ctx.create (.delay maxOffsetSeconds 0)
  let (inverter, ctx) := ctx.create (.gain (-1))
  let (master, ctx) := ctx.create (.gain 1)
  let ctx := ctx.connect source broadcastGain
  let ctx := ctx.connect broadcastGain master
  let ctx := ctx.connect cancellationSum sharedDelay
  let ctx := ctx.connect sharedDelay inverter
  let ctx := ctx.connect inverter master
  let ctx := ctx.connect master Context.destination
  { ctx, master, broadcastGain, cancellationSum, sharedDelay, inverter, source
    offsetMs := 0, tracks := [] }

def clamp01 : Number → ℚ
  | .fin v => if v < 0 then 0 else if v > 1 then 1 else v
  | _ => 0

namespace MixerGraph

def addTrack (g : MixerGraph) (slug : String) : MixerGraph :=
  match g.tracks.lookup slug with
  | some _ => g
  | none =>
    let (entry, ctx) := g.ctx.create (.gain 1)
    let (userGain, ctx) := ctx.create (.gain 0.5)
    let ctx := ctx.connect entry userGain
    let ctx := ctx.connect userGain g.master
    -- the cancellation tap reads the entry, before the gain
    let ctx := ctx.connect entry g.cancellationSum
    { g with ctx, tracks := g.tracks ++ [(slug, ⟨entry, userGain⟩)] }

def removeTrack (g : MixerGraph) (slug : String) : MixerGraph :=
  match g.tracks.lookup slug with
  | none => g
  | some t =>
    { g with
      ctx := (g.ctx.disconnect t.entry).disconnect t.userGain
      tracks := g.tracks.filter (fun p => p.1 ≠ slug) }

def setTrackGain (g : MixerGraph) (slug : String) (value : Number) : MixerGraph :=
  match g.tracks.lookup slug with
  | none => g
  | some t => { g with ctx := g.ctx.set t.userGain (.gain (clamp01 value)) }

def setBroadcastGain (g : MixerGraph) (value : Number) : MixerGraph :=
  { g with ctx := g.ctx.set g.broadcastGain (.gain (clamp01 value)) }

def setOffsetMs (g : MixerGraph) (ms : Number) : MixerGraph :=
  let clamped := match ms with
    | .fin ms => max 0 (min maxOffsetMs ms)
    | _ => 0
  { g with
    offsetMs := clamped
    ctx := g.ctx.set g.sharedDelay (.delay maxOffsetSeconds (clamped / 1000)) }

/-- `b`, the gain of the player's broadcast. -/
def broadcast (g : MixerGraph) : ℚ := (g.ctx.kind g.broadcastGain).value

/-- `d`, the delay that the side-channels share. -/
def delay (g : MixerGraph) : ℚ := (g.ctx.kind g.sharedDelay).value

def gainOf (g : MixerGraph) (t : TrackNodes) : ℚ := (g.ctx.kind t.userGain).value

/-- The player feeds the source and the decoder of each track feeds its entry. -/
def feed (g : MixerGraph) (player : Signal) (x : String → Signal) (n : Nat) : Signal :=
  if n = g.source then player
  else match g.tracks.find? (fun p => p.2.entry = n) with
    | some p => x p.1
    | none => 0

/-- What the viewer hears. -/
noncomputable def output (g : MixerGraph) (player : Signal) (x : String → Signal) : Signal :=
  g.ctx.output (g.feed player x)

end MixerGraph

inductive GraphAct
  | addTrack (slug : String)
  | removeTrack (slug : String)
  | setTrackGain (slug : String) (value : Number)
  | setBroadcastGain (value : Number)
  | setOffsetMs (ms : Number)

def MixerGraph.step (g : MixerGraph) : GraphAct → MixerGraph
  | .addTrack slug => g.addTrack slug
  | .removeTrack slug => g.removeTrack slug
  | .setTrackGain slug v => g.setTrackGain slug v
  | .setBroadcastGain v => g.setBroadcastGain v
  | .setOffsetMs ms => g.setOffsetMs ms

def mixer : Machine MixerGraph GraphAct := ⟨buildGraph, fun g a => some (g.step a)⟩

end StreamMix.Extension
