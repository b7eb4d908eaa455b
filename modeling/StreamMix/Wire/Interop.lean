import StreamMix.Wire.Interop.Error
import StreamMix.Wire.Interop.Hello
import StreamMix.Wire.Interop.Stats
import StreamMix.Wire.Interop.TrackList
import StreamMix.Wire.Interop.TrackMeta

namespace StreamMix.Wire

open Js (Number)

/-- The messages with a JSON payload in both languages. -/
inductive Kind
  | hello
  | trackList
  | trackMeta
  | stats
  | error

namespace Ts

def Payload : Kind → Type
  | .hello => HelloPayload
  | .trackList => List TrackInfo
  | .trackMeta => TrackMetaPayload
  | .stats => StatsPayload
  | .error => ErrorPayload

def encode : (k : Kind) → Payload k → Except ProtocolError Bytes
  | .hello => encodeHello
  | .trackList => encodeTrackList
  | .trackMeta => encodeTrackMeta
  | .stats => encodeStats
  | .error => encodeError

def decode : (k : Kind) → Bytes → Except ProtocolError (Payload k)
  | .hello => decodeHello
  | .trackList => decodeTrackList
  | .trackMeta => decodeTrackMeta
  | .stats => decodeStats
  | .error => decodeError

end Ts

namespace Go

def Payload : Kind → Type
  | .hello => Hello
  | .trackList => TrackList
  | .trackMeta => TrackMeta
  | .stats => Stats
  | .error => ErrorPayload

def encode : (k : Kind) → Payload k → Except ProtocolError Bytes
  | .hello => encodeHello
  | .trackList => encodeTrackList
  | .trackMeta => encodeTrackMeta
  | .stats => encodeStats
  | .error => encodeError

def decode : (k : Kind) → Bytes → Except ProtocolError (Payload k)
  | .hello => decodeHello
  | .trackList => decodeTrackList
  | .trackMeta => decodeTrackMeta
  | .stats => decodeStats
  | .error => decodeError

end Go

def Same : (k : Kind) → Ts.Payload k → Go.Payload k → Prop
  | .hello => SameHello
  | .trackList => SameTrackList
  | .trackMeta => SameTrackMeta
  | .stats => SameStats
  | .error => SameError

/-- The payloads that the other language has, too. -/
def FitsGo : (k : Kind) → Ts.Payload k → Prop
  | .hello, p => Fits 128 p.client
  | .trackList, (ts : List Ts.TrackInfo) => ∀ t ∈ ts, Fits 64 t.label
  | .trackMeta, p => Fits 256 (p.title.getD []) ∧ Fits 256 (p.artist.getD []) ∧
    Fits 1024 (p.albumArtUrl.getD [])
  | .stats, p => ∀ x ∈ [p.uptimeS, p.packetsSent, p.subscribers, p.tracksActive], Exact x
  | .error, p => Fits 512 p.message

def FitsTs : (k : Kind) → Go.Payload k → Prop
  | .hello, _ | .trackMeta, _ | .error, _ => True
  | .trackList, t => t.tracks ≠ none
  | .stats, s => ∀ i ∈ [s.uptimeS, s.packetsSent, s.subscribers, s.tracksActive],
    Number.ofDecimal i = .fin i

theorem carried_of_ts (k : Kind) {p : Ts.Payload k} (h : Ts.decode k buf = .ok p)
    (hb : Ts.encode k p = .ok b) :
    (∃ w, Go.decode k b = .ok w ∧ Same k p w) ↔ FitsGo k p := by
  cases k with
  | hello => exact hello_of_ts h hb
  | trackList => exact trackList_of_ts h hb
  | trackMeta => exact trackMeta_of_ts h hb
  | stats => exact stats_of_ts h hb
  | error => exact error_of_ts h hb

theorem carried_of_go (k : Kind) {w : Go.Payload k} (h : Go.decode k buf = .ok w)
    (hb : Go.encode k w = .ok b) :
    (∃ p, Ts.decode k b = .ok p ∧ Same k p w) ↔ FitsTs k w := by
  cases k with
  | hello => exact iff_true_intro (hello_of_go h hb)
  | trackList => exact trackList_of_go h hb
  | trackMeta => exact iff_true_intro (trackMeta_of_go h hb)
  | stats => exact stats_of_go h hb
  | error => exact iff_true_intro (error_of_go h hb)

/-- What is encoded from an accepted payload reaches the other language as the same one. -/
theorem payloads_carried_iff (k : Kind) :
    (∀ p buf b, Ts.decode k buf = .ok p → Ts.encode k p = .ok b →
      ((∃ w, Go.decode k b = .ok w ∧ Same k p w) ↔ FitsGo k p)) ∧
    (∀ w buf b, Go.decode k buf = .ok w → Go.encode k w = .ok b →
      ((∃ p, Ts.decode k b = .ok p ∧ Same k p w) ↔ FitsTs k w)) :=
  ⟨fun _ _ _ h hb => carried_of_ts k h hb, fun _ _ _ h hb => carried_of_go k h hb⟩

def oneMinute : Ts.StatsPayload := ⟨.fin 60, .fin 3000, .fin 2, .fin 1⟩

def oneMinuteBuffer : Bytes :=
  ascii ("\x7b\"uptime_s\":60,\"packets_sent\":3000,\"subscribers\":2,\"tracks_active\":1\x7d")

theorem stats_carried_oneMinute :
    ∃ w, Go.decodeStats oneMinuteBuffer = .ok w ∧ SameStats oneMinute w := by
  have hdecode : Ts.decodeStats oneMinuteBuffer = .ok oneMinute := by decide +kernel
  have hencode : Ts.encodeStats oneMinute = .ok oneMinuteBuffer := by decide +kernel
  apply ((payloads_carried_iff .stats).1 _ _ _ hdecode hencode).mpr
  simp only [FitsGo, List.forall_mem_cons, oneMinute]
  exact ⟨⟨60, by decide, rfl, by decide +kernel⟩, ⟨3000, by decide, rfl, by decide +kernel⟩,
    ⟨2, by decide, rfl, by decide +kernel⟩, ⟨1, by decide, rfl, by decide +kernel⟩, nofun⟩

/-- A client of 128 accented letters, which take two bytes each. -/
def accentedHello : Ts.HelloPayload :=
  ⟨.fin 1, List.replicate 128 0xe9, ⟨Ts.units "opus", .fin 48000, .fin 2, .fin 20⟩⟩

def halfSecond : Ts.StatsPayload := ⟨.fin (1 / 2), .fin 0, .fin 0, .fin 0⟩

deriving instance DecidableEq for Ts.TrackInfo

def nilTracks : Go.TrackList := ⟨none⟩

def beyondDouble : Go.Stats := ⟨0, 2 ^ 53 + 1, 0, 0⟩

theorem payloads_drift :
    (∃ b, Ts.encodeHello accentedHello = .ok b ∧ Ts.decodeHello b = .ok accentedHello ∧
      Go.decodeHello b = .error (Go.protoErr .badPayload "field client too long")) ∧
    (∃ b, Ts.encodeStats halfSecond = .ok b ∧ Ts.decodeStats b = .ok halfSecond ∧
      Go.decodeStats b = .error (Go.protoErr .badPayload "json")) ∧
    (∃ b, Go.encodeTrackList nilTracks = .ok b ∧ Go.decodeTrackList b = .ok nilTracks ∧
      Ts.decodeTrackList b = .error (Ts.bad "track_list.tracks")) ∧
    (∃ b, Go.encodeStats beyondDouble = .ok b ∧ Go.decodeStats b = .ok beyondDouble ∧
      Ts.decodeStats b = .ok ⟨.fin 0, .fin (2 ^ 53), .fin 0, .fin 0⟩) := by
  refine ⟨⟨(Ts.encodeHello accentedHello).toOption.getD [], ?_⟩,
    ⟨(Ts.encodeStats halfSecond).toOption.getD [], ?_⟩,
    ⟨(Go.encodeTrackList nilTracks).toOption.getD [], ?_⟩,
    ⟨(Go.encodeStats beyondDouble).toOption.getD [], ?_⟩⟩
  · decide +kernel
  · decide +kernel
  · decide +kernel
  · decide +kernel

end StreamMix.Wire
