import StreamMix.Extension.Viewer
import StreamMix.Session.Order

/-! From the encoders of a publisher to the speakers of a viewer. -/

namespace StreamMix.Session

open Wire Publisher Relay
open Extension (Playing ViewerAct text viewer)
open Js (Number)
open scoped List

def slugText (t : TrackSpec) : String := text (t.slug.map UInt8.toNat)

/-- The messages among what happens to a page. -/
def messages (vs : List ViewerAct) : List Bytes :=
  vs.filterMap (fun
    | .message data => some data
    | _ => none)

/-- What the encoders of the tracks with a slug have put out. -/
def captured (cfg : Config) (slug : String) (as : List Act) : List Bytes :=
  as.filterMap (fun
    | .client (.capture i _ encoded) =>
      if cfg.tracks[i]?.any (fun t => slugText t == slug) then some encoded else none
    | _ => none)

/-- The payload of an audio frame of a track with the slug. -/
def payloadUnder (cfg : Config) (slug : String) (data : Bytes) : Option Bytes :=
  match Ts.decodeFrame data with
  | .error _ => none
  | .ok f =>
    if f.type = (MessageType.audioOpus.code.toNat : Number) ∧
        ∃ t ∈ cfg.tracks, f.track = (t.id.toNat : Number) ∧ slugText t = slug then
      some f.payload
    else none

section Messages

variable {cfg : Config}

/-- The calls of `onAudio`. -/
theorem handleMessage_audio (h : Extension.handleMessage data = some (.audio trackID packet seq)) :
    ∃ f, Ts.decodeFrame data = .ok f ∧ f.type = (MessageType.audioOpus.code.toNat : Number) ∧
      trackID = f.track.toUint 32 ∧ packet = f.payload := by
  rw [Extension.handleMessage] at h
  split at h
  · cases h
  · next f hf =>
    split_ifs at h with hlist haudio
    · split at h <;> cases h
    · cases h
      exact ⟨f, hf, haudio, rfl, rfl⟩

/-- The calls of `onTrackList`, with the packets of a publisher. -/
theorem handleMessage_trackList
    (hdecode : Ts.decodeTrackList (buildTrackListPayload cfg) = .ok (cfg.tracks.map TrackSpec.info))
    (hk : Client.Known cfg p) (h : Extension.handleMessage p.bytes = some (.trackList incoming)) :
    ∀ i ∈ incoming, ∃ t ∈ cfg.tracks, t.id.toNat = i.id ∧ slugText t = i.slug := by
  rw [Extension.handleMessage] at h
  simp only [Client.Known] at hk
  split at hk
  · obtain ⟨t, -, n, now, encoded, henc⟩ := hk
    simp only [Ts.decodeFrame_of_encode henc] at h
    split_ifs at h with hlist
    · exact absurd (code_inj (a := .audioOpus) (b := .trackList) hlist) (by simp)
    all_goals cases h
  · obtain ⟨now, henc⟩ := hk
    simp only [Ts.decodeFrame_of_encode henc] at h
    split_ifs at h with hlist
    · exact absurd (code_inj (a := .hello) (b := .trackList) hlist) (by simp)
    all_goals cases h
  · obtain ⟨now, henc⟩ := hk
    simp only [Ts.decodeFrame_of_encode henc] at h
    split_ifs at h with hlist haudio
    · split at h
      · cases h
      · next tracks htracks =>
        cases h
        have heq : tracks = cfg.tracks.map TrackSpec.info :=
          Except.ok.inj (htracks.symm.trans hdecode)
        intro i hi
        obtain ⟨u, hu, rfl⟩ := List.mem_pmap.mp hi
        rw [heq] at hu
        obtain ⟨t, ht, rfl⟩ := List.mem_map.mp hu
        refine ⟨t, ht, ?_, rfl⟩
        have hlt : t.id.toNat < 2 ^ 32 := Nat.lt_trans t.id.toNat_lt (by decide)
        exact ((Number.toUint_natCast 32 t.id.toNat).trans (Nat.mod_eq_of_lt hlt)).symm
    · cases h

/-- Audio comes from nothing but a capture thread. -/
theorem payloadUnder_of_ne (hk : Client.Known cfg p) (hp : p.origin ≠ .capture) (slug : String) :
    payloadUnder cfg slug p.bytes = none := by
  simp only [payloadUnder]
  split
  · rfl
  · next f hf => exact if_neg (fun h => hp (capture_of_audio hk hf h.1).1)

theorem payloadUnder_eq (hk : Client.Known cfg p)
    (h : Extension.handleMessage p.bytes = some (.audio trackID packet seq))
    (hroute : ∃ t ∈ cfg.tracks, t.id.toNat = trackID ∧ slugText t = slug) :
    payloadUnder cfg slug p.bytes = some packet := by
  obtain ⟨f, hf, htype, rfl, rfl⟩ := handleMessage_audio h
  obtain ⟨-, u, -, htrack⟩ := capture_of_audio hk hf htype
  obtain ⟨t, ht, hid, hslug⟩ := hroute
  have hlt : u.id.toNat < 2 ^ 32 := Nat.lt_trans u.id.toNat_lt (by decide)
  have hsame : t.id.toNat = u.id.toNat := by
    rw [hid, htrack]
    exact (Number.toUint_natCast 32 u.id.toNat).trans (Nat.mod_eq_of_lt hlt)
  simp only [payloadUnder, hf]
  exact if_pos ⟨htype, t, ht, by rw [hsame, htrack], hslug⟩

/-- A frame of a track, as its encoder put it out. -/
theorem payloadUnder_frame {i : Nat} (hc : cfg.Checked) (hlen : cfg.tracks.length ≤ 8)
    (ht : cfg.tracks[i]? = some t)
    (henc : Cpp.encodeFrame (audioFrame t n now encoded) = .ok bytes) (slug : String) :
    payloadUnder cfg slug bytes = if slugText t = slug then some encoded else none := by
  have hown : (∃ u ∈ cfg.tracks, ((t.id.toNat : Number) = (u.id.toNat : Number)) ∧
      slugText u = slug) ↔ slugText t = slug := by
    constructor
    · rintro ⟨u, hu, hid, hslug⟩
      have hnat : t.id.toNat = u.id.toNat :=
        Nat.cast_injective (R := ℚ) (Number.fin_injective hid)
      obtain ⟨j, hj⟩ := List.mem_iff_getElem?.mp hu
      obtain rfl := index_of_id hc hlen ht hj (UInt8.toNat_inj.mp hnat)
      rw [ht] at hj
      cases hj
      exact hslug
    · exact fun hslug => ⟨t, List.mem_of_getElem? ht, rfl, hslug⟩
  simp only [payloadUnder, Ts.decodeFrame_of_encode henc]
  by_cases hslug : slugText t = slug
  · rw [if_pos hslug]
    exact if_pos ⟨rfl, hown.mpr hslug⟩
  · rw [if_neg hslug]
    exact if_neg (fun h => hslug (hown.mp h.2))

/-- What the packets of the capture threads hold. -/
theorem made_sublist (hc : cfg.Checked) (hlen : cfg.tracks.length ≤ 8) (slug : String)
    (as : List Act) :
    ((recorded cfg as).made.filterMap (fun p => payloadUnder cfg slug p.bytes)).Sublist
      (captured cfg slug as) := by
  induction as using List.reverseRecOn with
  | nil => exact List.Sublist.refl _
  | append_singleton as a ih =>
    have hcaptured : captured cfg slug (as ++ [a]) =
        captured cfg slug as ++ captured cfg slug [a] :=
      List.filterMap_append ..
    have hrecorded : recorded cfg (as ++ [a]) = frame cfg (recorded cfg as) a := by
      rw [recorded, List.foldl_append]
      rfl
    rw [hrecorded, hcaptured]
    have hskip := ih.trans (List.sublist_append_left _ (captured cfg slug [a]))
    cases a with
    | relay b => exact hskip
    | client b =>
      cases b with
      | capture i now encoded =>
        simp only [frame, Pipelines.frame]
        split
        · next t ht =>
          split
          · exact hskip
          · next hbytes =>
            have hsame : captured cfg slug [.client (.capture i now encoded)] =
                (if slugText t = slug then some encoded else none).toList := by
              simp only [captured, List.filterMap_cons, List.filterMap_nil, ht, Option.any_some]
              by_cases hslug : slugText t = slug <;> simp [hslug]
            have henc := encodeFrame_of_nonempty hbytes
            rw [List.filterMap_append, hsame]
            refine ih.append ?_
            rw [List.filterMap_cons, payloadUnder_frame hc hlen ht henc]
            split_ifs <;> exact List.Sublist.refl _
        · exact hskip
      | tryConnect | connectionError | established | clear | hello | trackList | writeable | write
      | closed => exact hskip

/-- What a page has made of the messages of a publisher. -/
structure Plays (cfg : Config) (ms : List Bytes) (w : Playing) : Prop where
  routes : ∀ id slug, w.playback.panel.idToSlug id = some slug →
    ∃ t ∈ cfg.tracks, t.id.toNat = id ∧ slugText t = slug
  payloads : ∀ slug, ((w.submitted slug).map Extension.EncodedAudioChunk.data).Sublist
    (ms.filterMap (payloadUnder cfg slug))

theorem Plays.act (h : Plays cfg ms w) (he : w.step a = some x)
    (hlist : ∀ incoming, a = .trackList incoming →
      ∀ i ∈ incoming, ∃ t ∈ cfg.tracks, t.id.toNat = i.id ∧ slugText t = i.slug)
    (haudio : ∀ trackID packet seq slug, a = .audio trackID packet seq →
      (∃ t ∈ cfg.tracks, t.id.toNat = trackID ∧ slugText t = slug) →
        [packet].Sublist (new.filterMap (payloadUnder cfg slug))) : Plays cfg (ms ++ new) x where
  routes := by
    obtain ⟨incoming, rfl, hindex⟩ | hsame := Playing.idToSlug_step he
    · intro id slug hslug
      rw [hindex] at hslug
      obtain ⟨i, hi, rfl, rfl⟩ := Extension.MixerState.mem_of_indexTracks _ incoming id slug hslug
      exact hlist incoming rfl i hi
    · rw [hsame]
      exact h.routes
  payloads := by
    intro slug
    rw [Playing.submitted_step he slug, List.map_append, List.filterMap_append]
    refine (h.payloads slug).append ?_
    obtain hnone | ⟨trackID, packet, seq, chunk, rfl, hroute, hone, hdata⟩ :=
      Playing.gives_eq w.playback slug a
    · rw [hnone]
      exact List.nil_sublist _
    · rw [hone, List.map_singleton, hdata]
      exact haudio trackID packet seq slug rfl (h.routes trackID slug hroute)

theorem Plays.step
    (hdecode : Ts.decodeTrackList (buildTrackListPayload cfg) = .ok (cfg.tracks.map TrackSpec.info))
    (h : Plays cfg ms w) (he : w.view v = some x)
    (hk : ∀ data, v = .message data → ∃ p, Client.Known cfg p ∧ p.bytes = data) :
    Plays cfg (ms ++ messages [v]) x := by
  simp only [Playing.view] at he
  split at he
  · next a hact =>
    cases v with
    | message data =>
      obtain ⟨p, hp, rfl⟩ := hk data rfl
      refine h.act he ?_ ?_
      · rintro incoming rfl
        exact handleMessage_trackList hdecode hp hact
      · rintro trackID packet seq slug rfl hroute
        rw [show messages [.message p.bytes] = [p.bytes] from rfl, List.filterMap_cons,
          payloadUnder_eq hp hact hroute]
        exact List.Sublist.refl _
    | click | output | error | ended =>
      cases hact
      exact h.act he (by simp) (by simp)
  · cases he
    refine ⟨h.routes, fun slug => ?_⟩
    rw [List.filterMap_append]
    exact (h.payloads slug).trans (List.sublist_append_left ..)

theorem plays_of_run
    (hdecode : Ts.decodeTrackList (buildTrackListPayload cfg) = .ok (cfg.tracks.map TrackSpec.info))
    (hview : (viewer stored global).run (viewer stored global).init vs = some w)
    (hk : ∀ data ∈ messages vs, ∃ p, Client.Known cfg p ∧ p.bytes = data) :
    Plays cfg (messages vs) w := by
  have hall : (∀ data ∈ messages vs.reverse.reverse, ∃ p, Client.Known cfg p ∧ p.bytes = data) →
      Plays cfg (messages vs.reverse.reverse) w := by
    refine Machine.run_invariant (P := fun vs w =>
      (∀ data ∈ messages vs.reverse, ∃ p, Client.Known cfg p ∧ p.bytes = data) →
        Plays cfg (messages vs.reverse) w) ?_ ?_ hview
    · exact fun _ => ⟨nofun, fun _ => List.Sublist.refl _⟩
    · intro vs w v x ih he hknown
      have hsplit : messages (v :: vs).reverse = messages vs.reverse ++ messages [v] := by
        rw [List.reverse_cons]
        exact List.filterMap_append ..
      rw [hsplit] at hknown ⊢
      refine (ih (fun d hd => hknown d (List.mem_append_left _ hd))).step hdecode he ?_
      rintro data rfl
      exact hknown data (List.mem_append_right _ List.mem_cons_self)
  rw [List.reverse_reverse] at hall
  exact hall hk

end Messages

/-- What the hub broadcasts, the client wrote. -/
theorem known_of_history (hcfg : (buildTrackListPayload cfg).length ≤ maxPayloadBytes)
    (hi : Tracks cfg name maxSubs sendBuf p y) :
    ∀ m ∈ y.hub.history, Client.Known cfg m.packet := by
  intro m hm
  have hpast : m.packet ∈ (y.past m.conn).map Sent.packet :=
    List.mem_map_of_mem (List.mem_filter.mpr ⟨hm, beq_self_eq_true _⟩)
  exact (Client.allKnown_of_reachable hcfg hi.client).written m.conn _
    ((hi.ordered.past m.conn).subset hpast)

/-- In every run of a publisher with verbatim labels and a relay, and for a viewer that reads some
of the broadcasts in their order, whatever else it does: the audio that is played under a slug is
what the encoders of the tracks with that slug put out, in that order and with nothing twice. -/
theorem played_as_captured (hargs : parseArgs args = .ok cfg)
    (hl : ∀ t ∈ cfg.tracks, Verbatim t.label)
    (hrun : (session cfg name maxSubs sendBuf).run (session cfg name maxSubs sendBuf).init as =
      some y)
    (hview : (viewer stored global).run (viewer stored global).init vs = some w)
    (hms : (messages vs).Sublist (y.hub.history.map (fun m => m.packet.bytes)))
    (slug : String) :
    ((w.started slug).map (fun src => src.buffer.data)).Sublist (captured cfg slug as) := by
  obtain ⟨hc, hpos, hlen⟩ := checked_parseArgs hargs
  have hne : cfg.tracks ≠ [] := List.length_pos_iff.mp hpos
  have hdecode := decodeTrackList_payload hc hne hlen hl
  have hi := tracks_of_run hrun
  have hknown := known_of_history (length_payload_le hne (hc.each hlen) hlen hl) hi
  have hplays := plays_of_run hdecode hview (fun data hdata => by
    obtain ⟨m, hm, rfl⟩ := List.mem_map.mp (hms.subset hdata)
    exact ⟨m.packet, hknown m hm, rfl⟩)
  have hplayed : ((w.started slug).map (fun src => src.buffer.data)).Sublist
      ((w.submitted slug).map Extension.EncodedAudioChunk.data) := by
    have hbuffers := ((Playing.sound_of_reachable (Extension.playing_of_viewer
      ((Machine.Reachable.init _).of_run _ hview))).steady.paced slug).buffers
    have hmap := hbuffers.map Extension.EncodedAudioChunk.data
    rwa [List.map_map] at hmap
  have hsent : (y.hub.history.map (fun m => m.packet.bytes)).filterMap (payloadUnder cfg slug) =
      (captures (y.hub.history.map Sent.packet)).filterMap
        (fun p => payloadUnder cfg slug p.bytes) := by
    rw [captures, List.filterMap_filter, List.filterMap_map, List.filterMap_map]
    refine List.filterMap_congr (fun m hm => ?_)
    simp only [Function.comp]
    split_ifs with horigin
    · rfl
    · exact payloadUnder_of_ne (hknown m hm) (by simpa using horigin) slug
  calc (w.started slug).map (fun src => src.buffer.data)
    _ <+ (w.submitted slug).map Extension.EncodedAudioChunk.data := hplayed
    _ <+ (messages vs).filterMap (payloadUnder cfg slug) := hplays.payloads slug
    _ <+ (y.hub.history.map (fun m => m.packet.bytes)).filterMap (payloadUnder cfg slug) :=
      hms.filterMap _
    _ = (captures (y.hub.history.map Sent.packet)).filterMap
        (fun p => payloadUnder cfg slug p.bytes) := hsent
    _ <+ (recorded cfg as).made.filterMap (fun p => payloadUnder cfg slug p.bytes) :=
      (broadcast_sublist hi).filterMap _
    _ <+ captured cfg slug as := made_sublist hc hlen slug as

end StreamMix.Session
