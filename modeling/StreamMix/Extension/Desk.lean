import StreamMix.Lib.JsNumber
import StreamMix.Lib.SignalGraph

/-! A mixing desk: what can be read off it, what each move does to it, and how it sounds. -/

namespace StreamMix.Extension

open SignalGraph Js

/-- The fader of a track, with the percentage that stands beside it. -/
structure Row where
  slug : String
  muted : Bool
  value : Number
  deriving DecidableEq

structure Desk where
  rows : List Row
  broadcast : Number
  seconds : ℚ
  deriving DecidableEq

inductive Move
  | list (fresh : List Row)
  | slide (row value : Nat)
  | mute (row : Nat)
  | solo (row : Nat)
  | broadcast (value : Nat)
  | delay (hundredths : Nat)
  | reset (fresh : List Row)
  | clear
  | stay
  deriving DecidableEq

/-- What a fader lets through that stands at a percentage. -/
def share : Number → ℚ
  | .fin q => q / 100
  | _ => 0

def Row.gain (r : Row) : ℚ := if r.muted then 0 else share r.value

namespace Desk

def clear : Desk := ⟨[], .fin 20, 0⟩

/-- The row that the desk has for the slug of another. -/
def kept (d : Desk) (r : Row) : Row := (d.rows.find? (fun q => q.slug = r.slug)).getD r

def step (d : Desk) : Move → Desk
  | .list fresh => { d with rows := fresh.map d.kept }
  | .slide i v => { d with rows := d.rows.modify i (fun r => { r with value := .fin v }) }
  | .mute i => { d with rows := d.rows.modify i (fun r => { r with muted := !r.muted }) }
  | .solo i => { d with rows := d.rows.mapIdx (fun j r => { r with muted := decide (j ≠ i) }) }
  | .broadcast v => { d with broadcast := .fin v }
  | .delay k => { d with seconds := k / 100 }
  | .reset fresh => { d with rows := fresh }
  | .clear => .clear
  | .stay => d

/-- The broadcast at its fader, and each track at its own less its delayed copy. -/
noncomputable def output (d : Desk) (player : Signal) (x : String → Signal) : Signal := fun t =>
  share d.broadcast * player t +
    (d.rows.map (fun r => r.gain * x r.slug t - x r.slug (t - d.seconds))).sum

end Desk

end StreamMix.Extension
