import StreamMix.Publisher.Announce
import StreamMix.Publisher.WsClient
import StreamMix.Wire.Codec

/-! What the publisher queues and what the relay takes from it. -/

namespace StreamMix.Relay

open Wire (Bytes magic)

/-- The default of `Limits.MaxFrameBytes`. -/
def maxFrameBytes : Nat := 5 * 1024

/-- A message that `handlePublish` goes on to broadcast: within the read limit of the
connection, and with the magic in front. -/
def takes (readLimit : Nat) (data : Bytes) : Bool :=
  data.length ≤ readLimit &&
    !(data.length < 4 || data.getD 0 0 != magic.getD 0 0 || data.getD 1 0 != magic.getD 1 0 ||
      data.getD 2 0 != magic.getD 2 0 || data.getD 3 0 != magic.getD 3 0)

end StreamMix.Relay

namespace StreamMix.Publisher

open Wire

/-- A packet that decodes, and that the relay takes with its default limits. -/
def Packet.Accepted (p : Packet) : Prop :=
  (∃ f, Go.decodeFrame p.bytes = .ok f ∧ Cpp.decodeFrame p.bytes = .ok f) ∧
    Relay.takes Relay.maxFrameBytes p.bytes = true

/-- Encoders have room for 4096 bytes of payload, and no frame is longer than the limit. -/
theorem accepted_of_encodeFrame (h : Cpp.encodeFrame f = .ok p.bytes) : Packet.Accepted p := by
  obtain ⟨hf, hbytes⟩ := (Cpp.encodeFrame_ok_iff f p.bytes).mp h
  refine ⟨⟨f, (decode_ok_iff Go.decodeFrame_parse f _).mpr ⟨hf, hbytes⟩,
    (decode_ok_iff Cpp.decodeFrame_parse f _).mpr ⟨hf, hbytes⟩⟩, ?_⟩
  have hlen := f.length_layout
  have hpay := hf.payload
  have hsizes : headerBytes = 21 ∧ maxPayloadBytes = 4096 ∧ Relay.maxFrameBytes = 5120 :=
    ⟨rfl, rfl, rfl⟩
  rw [hbytes, Relay.takes, Bool.and_eq_true]
  constructor
  · rw [decide_eq_true_eq]
    omega
  · simp [Frame.layout, magic]

theorem accepted_of_known (h : Client.Known cfg p) : p.Accepted := by
  simp only [Client.Known] at h
  split at h
  · obtain ⟨t, _, seq, now, encoded, h⟩ := h
    exact accepted_of_encodeFrame h
  · obtain ⟨now, h⟩ := h
    exact accepted_of_encodeFrame h
  · obtain ⟨now, h⟩ := h
    exact accepted_of_encodeFrame h

theorem not_accepted_empty (o : Origin) : ¬ Packet.Accepted ⟨o, []⟩ := by
  rintro ⟨_, htakes⟩
  cases htakes

/-- The bytes of an entry and of its separator. -/
def announcedLength (t : TrackSpec) : Nat :=
  44 + t.slug.length + t.category.length + t.label.length

theorem length_buildTrackListPayload (h : parseArgs args = .ok cfg) :
    (buildTrackListPayload cfg).length = 12 + (cfg.tracks.map announcedLength).sum := by
  obtain ⟨hc, hpos, hlen⟩ := checked_parseArgs h
  have hentry : ∀ t ∈ cfg.tracks, (entry t).length + 1 = announcedLength t := by
    intro t ht
    obtain ⟨-, h1, h8⟩ := hc.each hlen t ht
    rw [length_entry h1 h8, announcedLength]
    omega
  rw [length_payload (List.length_pos_iff.mp hpos), List.map_congr_left hentry]

/-- The announcement of a connection, up to the two calls of `Enqueue`. -/
def announce (now : UInt64) : List ClientAct :=
  [.tryConnect true, .established, .clear, .hello now, .trackList now]

/-- An announcement that does not encode is queued all the same, as an empty message. -/
theorem queue_announce (h : maxPayloadBytes < (buildTrackListPayload cfg).length) (now : UInt64) :
    ∃ c, (client cfg).Reachable c ∧ ⟨.trackList 1, []⟩ ∈ c.queue := by
  have hfail : encodeFrameOrLog (trackListFrame cfg now) = [] := by
    have hlong : (trackListFrame cfg now).payload.length > maxPayloadBytes := h
    rw [encodeFrameOrLog, Cpp.encodeFrame, if_pos hlong]
  refine ⟨_, .of_run (announce now) (.init _) rfl, ?_⟩
  rw [hfail]
  exact List.mem_cons_of_mem _ List.mem_cons_self

/-- Everything that gets into the queue is accepted if and only if the list of the tracks
fits a payload. -/
theorem queue_accepted_iff (h : parseArgs args = .ok cfg) :
    (∀ c, (client cfg).Reachable c → ∀ p ∈ c.queue, p.Accepted) ↔
      12 + (cfg.tracks.map announcedLength).sum ≤ maxPayloadBytes := by
  rw [← length_buildTrackListPayload h]
  constructor
  · intro hall
    by_contra hlong
    obtain ⟨c, hc, hmem⟩ := queue_announce (Nat.lt_of_not_le hlong) 0
    exact not_accepted_empty _ (hall c hc _ hmem)
  · intro hcfg c hc p hp
    exact accepted_of_known ((Client.allKnown_of_reachable hcfg hc).queue p hp)

theorem queue_accepted_music :
    parseArgs (required ++ [ascii "--track", ascii "music:Spotify.exe"]) = .ok (configOf [music]) ∧
      ∀ c, (client (configOf [music])).Reachable c → ∀ p ∈ c.queue, p.Accepted := by
  have h : parseArgs (required ++ [ascii "--track", ascii "music:Spotify.exe"]) =
      .ok (configOf [music]) := by
    decide
  exact ⟨h, (queue_accepted_iff h).mpr (by decide)⟩

/-- A custom track whose label is a letter and 480 marks. -/
def loudTrack (id c : UInt8) : TrackSpec :=
  ⟨id, ascii "custom", [c], c :: List.replicate 480 0x21, ascii "system"⟩

def loudTracks : List TrackSpec :=
  List.zipWith loudTrack [1, 2, 3, 4, 5, 6, 7, 8] (ascii "abcdefgh")

def loudArgs : List Bytes :=
  required ++ loudTracks.flatMap (fun t =>
    [ascii "--track", ascii "custom:" ++ t.label ++ ascii "|system"])

/-- Labels are not limited: eight of them outgrow the payload, and the relay closes every
connection at the empty message that is sent for the list. -/
theorem empty_message_queued :
    parseArgs loudArgs = .ok (configOf loudTracks) ∧
      ∃ c, (client (configOf loudTracks)).Reachable c ∧ ∃ p ∈ c.queue, ¬ p.Accepted := by
  have h : parseArgs loudArgs = .ok (configOf loudTracks) := by decide +kernel
  have hlong : maxPayloadBytes < (buildTrackListPayload (configOf loudTracks)).length := by
    rw [length_buildTrackListPayload h]
    decide +kernel
  obtain ⟨c, hc, hmem⟩ := queue_announce hlong 0
  exact ⟨h, c, hc, _, hmem, not_accepted_empty _⟩

end StreamMix.Publisher
