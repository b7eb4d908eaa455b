import StreamMix.Wire.Written

/-! What the decoders accept. -/

namespace StreamMix.Wire

open Js (Number)
open Json (Value)
open Unicode (Units)

namespace Ts

theorem bounded_decodeJson (h : decodeJson buf = .ok v) : v.Bounded := by
  simp only [decodeJson, reject_eq_ok] at h
  obtain ⟨-, h⟩ := h
  split at h
  · cases h
  · next fields heq =>
    cases h
    obtain ⟨ps, hps, hparse⟩ := Option.bind_eq_some_iff.mp heq
    apply Json.bounded_of_parse _ hparse
    apply Unicode.units_utf16
    intro p hp
    apply Unicode.decode_lt hps p
    rw [Unicode.stripMark.eq_def] at hp
    split at hp
    · exact .tail _ hp
    · exact hp
  · cases h

theorem bounded_get (hv : v.Bounded) (h : get v key = some w) : w.Bounded := by
  obtain ⟨fields, rfl⟩ := get_eq_some h
  exact (Json.boundedMembers_iff fields).mp hv _ (mem_of_get h)

theorem bounded_element (hv : (Value.arr vs).Bounded) (h : w ∈ vs) : w.Bounded :=
  (Json.boundedElements_iff vs).mp hv w h

theorem isNumber_iff : isNumber v q = true ↔ v = some (.num (.fin q)) := by
  rw [isNumber.eq_def]
  split
  · next x => simp
  · next hne =>
    constructor
    · nofun
    · intro h
      exact absurd h (hne _)

theorem isString_iff : isString v t = true ↔ v = some (.str (units t)) := by
  rw [isString.eq_def]
  split
  · next x => simp
  · next hne =>
    constructor
    · nofun
    · intro h
      exact absurd h (hne _)

structure HelloPayload.Checked (p : HelloPayload) : Prop where
  version : p.version = .fin 1
  client : p.client.length ≤ 128
  codec : p.audio.codec = units "opus"
  sampleRate : p.audio.sampleRate = .fin 48000
  channels : p.audio.channels = .fin 1 ∨ p.audio.channels = .fin 2
  frameMs : p.audio.frameMs = .fin 20

/-- The payload passes the checks and is what the object has. -/
structure HelloPayload.Of (v : Value) (p : HelloPayload) : Prop extends p.Checked where
  get_version : get v "version" = some (.num p.version)
  get_client : get v "client" = some (.str p.client)
  get_audio : ∃ audio, get v "audio" = some audio ∧
    get audio "codec" = some (.str p.audio.codec) ∧
    get audio "sample_rate" = some (.num p.audio.sampleRate) ∧
    get audio "channels" = some (.num p.audio.channels) ∧
    get audio "frame_ms" = some (.num p.audio.frameMs)

theorem decodeHello_eq_ok :
    decodeHello buf = .ok p ↔ ∃ v, decodeJson buf = .ok v ∧ p.Of v := by
  simp only [decodeHello, bind_eq_ok, reject_eq_ok]
  constructor
  · rintro ⟨v, hv, hversion, client, hclient, h⟩
    split at h
    · cases h
    · next audio haudio =>
      simp only [reject_eq_ok] at h
      obtain ⟨-, hcodec, hrate, h⟩ := h
      split at h
      · next channels hchannels =>
        simp only [reject_eq_ok] at h
        obtain ⟨hrange, hframe, h⟩ := h
        cases h
        simp only [Bool.not_eq_true', Bool.not_eq_false, isNumber_iff, isString_iff] at hversion hcodec hrate hframe
        obtain ⟨hclient, hlen⟩ := strField_eq_ok.mp hclient
        exact ⟨v, hv, ⟨rfl, hlen, rfl, rfl, by tauto, rfl⟩, hversion, hclient, audio, haudio, hcodec,
          hrate, hchannels, hframe⟩
      · cases h
  · rintro ⟨v, hv, ⟨hversion, hlen, hcodec, hrate, hchannels, hframe⟩, hget, hclient, audio, haudio,
      haCodec, haRate, haChannels, haFrame⟩
    obtain ⟨version, client, codec, rate, channels, frame⟩ := p
    obtain rfl : version = .fin 1 := hversion
    obtain rfl : codec = units "opus" := hcodec
    obtain rfl : rate = .fin 48000 := hrate
    obtain rfl : frame = .fin 20 := hframe
    obtain ⟨fields, rfl⟩ := get_eq_some haCodec
    have hversion := isNumber_iff.mpr hget
    have hcodec := isString_iff.mpr haCodec
    have hrate := isNumber_iff.mpr haRate
    have hframe := isNumber_iff.mpr haFrame
    refine ⟨v, hv, by simp [hversion], client, strField_eq_ok.mpr ⟨hclient, hlen⟩, ?_⟩
    simp only [haudio, haChannels, reject_eq_ok, hcodec, hrate, hframe, isObject]
    simp only [Bool.not_true, Bool.false_eq_true, not_false_eq_true, true_and, and_true]
    tauto

theorem HelloPayload.Of.text (h : HelloPayload.Of v p) (hv : v.Bounded) : Units p.client :=
  bounded_get hv h.get_client

/-! TRACK_META -/

structure TrackMetaPayload.Checked (p : TrackMetaPayload) : Prop where
  title : ∀ s ∈ p.title, s.length ≤ 256
  artist : ∀ s ∈ p.artist, s.length ≤ 256
  albumArtUrl : ∀ s ∈ p.albumArtUrl, s.length ≤ 1024 ∧ (units "https://").isPrefixOf s = true

structure TrackMetaPayload.Of (v : Value) (p : TrackMetaPayload) : Prop extends p.Checked where
  get_title : get v "title" = p.title.map .str
  get_artist : get v "artist" = p.artist.map .str
  get_albumArtUrl : get v "album_art_url" = p.albumArtUrl.map .str

theorem optionalField_eq_ok : optionalField v key m = .ok o ↔
    get v key = o.map .str ∧ ∀ s ∈ o, s.length ≤ m := by
  rw [optionalField.eq_def]
  split
  · next hnone =>
    rw [hnone]
    cases o <;> simp
  · next w hsome =>
    rw [hsome]
    cases o with
    | none =>
      cases h : strField v key m <;> simp [Except.map]
    | some s =>
      have hfield : strField v key m = .ok s ↔ _ := strField_eq_ok
      rw [hsome] at hfield
      cases h : strField v key m with
      | error e => simpa [h, Except.map] using hfield
      | ok t => simpa [h, Except.map] using hfield

theorem decodeTrackMeta_eq_ok :
    decodeTrackMeta buf = .ok p ↔ ∃ v, decodeJson buf = .ok v ∧ p.Of v := by
  simp only [decodeTrackMeta, bind_eq_ok, reject_eq_ok, optionalField_eq_ok]
  constructor
  · rintro ⟨v, hv, title, ⟨htitle, hlen1⟩, artist, ⟨hartist, hlen2⟩, url, ⟨hurl, hlen3⟩, hprefix, ⟨⟩⟩
    refine ⟨v, hv, ⟨hlen1, hlen2, fun s hs => ⟨hlen3 s hs, ?_⟩⟩, htitle, hartist, hurl⟩
    obtain rfl : url = some s := hs
    simpa using hprefix
  · rintro ⟨v, hv, ⟨hlen1, hlen2, hlen3⟩, htitle, hartist, hurl⟩
    refine ⟨v, hv, p.title, ⟨htitle, hlen1⟩, p.artist, ⟨hartist, hlen2⟩, p.albumArtUrl,
      ⟨hurl, fun s hs => (hlen3 s hs).1⟩, ?_, rfl⟩
    cases h : p.albumArtUrl with
    | none => simp
    | some s => simp [(hlen3 s h).2]

theorem TrackMetaPayload.Of.text (h : TrackMetaPayload.Of v p) (hv : v.Bounded) :
    (∀ s ∈ p.title, Units s) ∧ (∀ s ∈ p.artist, Units s) ∧ ∀ s ∈ p.albumArtUrl, Units s := by
  refine ⟨fun s hs => ?_, fun s hs => ?_, fun s hs => ?_⟩
  · exact bounded_get hv (h.get_title.trans (congrArg _ hs))
  · exact bounded_get hv (h.get_artist.trans (congrArg _ hs))
  · exact bounded_get hv (h.get_albumArtUrl.trans (congrArg _ hs))

/-! STATS -/

def Nonnegative (x : Number) : Prop := ∃ q : ℚ, x = .fin q ∧ 0 ≤ q

structure StatsPayload.Checked (p : StatsPayload) : Prop where
  uptimeS : Nonnegative p.uptimeS
  packetsSent : Nonnegative p.packetsSent
  subscribers : Nonnegative p.subscribers
  tracksActive : Nonnegative p.tracksActive

structure StatsPayload.Of (v : Value) (p : StatsPayload) : Prop extends p.Checked where
  get_uptimeS : get v "uptime_s" = some (.num p.uptimeS)
  get_packetsSent : get v "packets_sent" = some (.num p.packetsSent)
  get_subscribers : get v "subscribers" = some (.num p.subscribers)
  get_tracksActive : get v "tracks_active" = some (.num p.tracksActive)

theorem numField_eq_ok : numField v key = .ok x ↔ get v key = some (.num x) ∧ Nonnegative x := by
  rw [numField.eq_def]
  split
  · next q hq =>
    rw [hq, reject_eq_ok, not_lt]
    constructor
    · rintro ⟨hpos, ⟨⟩⟩
      exact ⟨rfl, q, rfl, hpos⟩
    · rintro ⟨⟨⟩, p, ⟨⟩, hpos⟩
      exact ⟨hpos, rfl⟩
  · next hne =>
    constructor
    · nofun
    · rintro ⟨hget, q, rfl, -⟩
      exact absurd hget (hne q)

theorem decodeStats_eq_ok :
    decodeStats buf = .ok p ↔ ∃ v, decodeJson buf = .ok v ∧ p.Of v := by
  simp only [decodeStats, bind_eq_ok, numField_eq_ok]
  constructor
  · rintro ⟨v, hv, a, ⟨ha, ha0⟩, b, ⟨hb, hb0⟩, c, ⟨hc, hc0⟩, d, ⟨hd, hd0⟩, ⟨⟩⟩
    exact ⟨v, hv, ⟨ha0, hb0, hc0, hd0⟩, ha, hb, hc, hd⟩
  · rintro ⟨v, hv, ⟨ha0, hb0, hc0, hd0⟩, ha, hb, hc, hd⟩
    exact ⟨v, hv, _, ⟨ha, ha0⟩, _, ⟨hb, hb0⟩, _, ⟨hc, hc0⟩, _, ⟨hd, hd0⟩, rfl⟩

/-! ERROR -/

structure ErrorPayload.Checked (p : ErrorPayload) : Prop where
  code : isErrorCode p.code = true
  message : p.message.length ≤ 512

structure ErrorPayload.Of (v : Value) (p : ErrorPayload) : Prop extends p.Checked where
  get_code : get v "code" = some (.str p.code)
  get_message : get v "message" = some (.str p.message)

theorem length_of_isErrorCode (h : isErrorCode s = true) : s.length ≤ 32 := by
  obtain ⟨c, hc, heq⟩ := List.any_eq_true.mp h
  rw [← eq_of_beq heq]
  have hall : ∀ c ∈ errorCodes, (units c).length ≤ 32 := by decide
  exact hall c hc

theorem decodeError_eq_ok :
    decodeError buf = .ok p ↔ ∃ v, decodeJson buf = .ok v ∧ p.Of v := by
  simp only [decodeError, bind_eq_ok, reject_eq_ok, strField_eq_ok]
  constructor
  · rintro ⟨v, hv, code, ⟨hcode, -⟩, hvalid, message, ⟨hmessage, hlen⟩, ⟨⟩⟩
    exact ⟨v, hv, ⟨by simpa using hvalid, hlen⟩, hcode, hmessage⟩
  · rintro ⟨v, hv, ⟨hvalid, hlen⟩, hcode, hmessage⟩
    exact ⟨v, hv, p.code, ⟨hcode, length_of_isErrorCode hvalid⟩, by simp [hvalid], p.message,
      ⟨hmessage, hlen⟩, rfl⟩

end Ts

namespace Go

open GoJson (Decoder struct Keeps Utf8)

/-- `dec.More` stops at a closing bracket, but at no other character. -/
theorem decJSON_eq_ok {decode : Decoder α} (h : decJSON buf decode zero = .ok a) :
    buf.length ≤ maxJSONBytes ∧ ∃ text v r, jsString buf = some text ∧
      Json.readFirst text = some (v, r) ∧ decode v zero = some a ∧
      ∀ c s, Json.skip r = c :: s → c = 0x5d ∨ c = 0x7d := by
  simp only [decJSON, reject_eq_ok, not_lt] at h
  obtain ⟨hlen, h⟩ := h
  refine ⟨hlen, ?_⟩
  split at h
  · cases h
  · next text htext =>
    split at h
    · cases h
    · next b rest heq =>
      obtain ⟨⟨v, r⟩, hread, hdec⟩ := Option.bind_eq_some_iff.mp heq
      obtain ⟨b', hb, ⟨⟩⟩ := Option.map_eq_some_iff.mp hdec
      refine ⟨text, v, r, htext, hread, ?_⟩
      dsimp only at hb h
      split at h
      · next hskip =>
        cases h
        refine ⟨hb, fun c s hs => ?_⟩
        cases hskip.symm.trans hs
      · next d t hskip =>
        split_ifs at h with hd
        cases h
        refine ⟨hb, fun c s hs => ?_⟩
        obtain ⟨rfl, -⟩ := List.cons.inj (hskip.symm.trans hs)
        exact hd.symm

/-- What is decoded from a buffer has what its fields keep. -/
theorem keeps_decJSON {decode : Decoder α} (hkeeps : Keeps decode P) (hzero : P zero)
    (h : decJSON buf decode zero = .ok a) : P a := by
  obtain ⟨-, text, v, r, htext, hread, hdec, -⟩ := decJSON_eq_ok h
  have hunits : Units text := by
    obtain ⟨ps, hps, rfl⟩ := Option.map_eq_some_iff.mp htext
    exact Unicode.units_utf16 (Unicode.decode_lt hps)
  have hparse := (Json.parse_eq_read (2 * text.length + 1)).1 (Json.skip text)
  rw [Json.readFirst] at hread
  rw [hread] at hparse
  have hv := ((Json.bounded_parse _).1 _ _ _ (Json.units_skip hunits) hparse).1
  exact hkeeps v zero a hv hzero hdec

theorem checkStr_eq_ok : checkStr field v m = .ok u ↔ v.length ≤ m := by
  rw [checkStr, reject_eq_ok, not_lt, and_iff_left rfl]

/-! HELLO -/

structure Hello.Checked (h : Hello) : Prop where
  version : h.version = 1
  client : h.client.length ≤ 128
  codec : h.audio.codec = ascii "opus"
  sampleRate : h.audio.sampleRate = 48000
  channels : h.audio.channels = 1 ∨ h.audio.channels = 2
  frameMS : h.audio.frameMS = 20

theorem decodeHello_eq_ok : decodeHello buf = .ok h ↔
    decJSON buf (struct helloFields) .zero = .ok h ∧ h.Checked := by
  simp only [decodeHello, bind_eq_ok, reject_eq_ok, checkStr_eq_ok, not_not]
  constructor
  · rintro ⟨h, hdec, hversion, _, hclient, hcodec, hrate, hchannels, hframe, ⟨⟩⟩
    exact ⟨hdec, hversion, hclient, hcodec, hrate, by tauto, hframe⟩
  · rintro ⟨hdec, hversion, hclient, hcodec, hrate, hchannels, hframe⟩
    exact ⟨h, hdec, hversion, (), hclient, hcodec, hrate, by tauto, hframe, rfl⟩

theorem utf8_hello (h : decJSON buf (struct helloFields) .zero = .ok hello) :
    Utf8 hello.client := by
  refine keeps_decJSON (P := fun h => Utf8 h.client) (GoJson.keeps_struct ?_) GoJson.utf8_nil h
  simp only [helloFields, List.forall_mem_cons]
  refine ⟨GoJson.keeps_int (fun _ _ ha => ha), GoJson.keeps_string (fun _ _ hs _ => hs), ?_, nofun⟩
  intro v a a' _ ha hdec
  obtain ⟨audio, -, rfl⟩ := Option.map_eq_some_iff.mp hdec
  exact ha

/-! TRACK_LIST -/

structure TrackInfo.Checked (t : TrackInfo) : Prop where
  id : 1 ≤ t.id ∧ t.id ≤ maxTrackSlot
  slug : isValidSlug t.slug = true
  category : t.category = ascii customCategory ∨ isPresetCategory t.category = true
  label : t.label.length ≤ 64

theorem length_of_isValidSlug (h : isValidSlug s = true) : s.length ≤ 64 := by
  rw [isValidSlug] at h
  split_ifs at h with hlen
  simp only [Bool.or_eq_true, decide_eq_true_eq] at hlen
  omega

theorem checkTracks_eq_ok : checkTracks seen ts = .ok () ↔
    (∀ t ∈ ts, t.Checked) ∧ (ts.map TrackInfo.id).Nodup ∧ ∀ t ∈ ts, t.id ∉ seen := by
  induction ts generalizing seen with
  | nil => simp [checkTracks]
  | cons t ts ih =>
    simp only [checkTracks, bind_eq_ok, reject_eq_ok, checkStr_eq_ok, ih, List.map_cons,
      List.nodup_cons, List.forall_mem_cons]
    constructor
    · rintro ⟨hrange, hseen, _, -, hslug, hcategory, _, hlabel, hall, hnodup, hfresh⟩
      refine ⟨⟨⟨by omega, by simpa using hslug, ?_, hlabel⟩, hall⟩, ⟨?_, hnodup⟩,
        by simpa using hseen, fun u hu hmem => hfresh u hu (.tail _ hmem)⟩
      · by_contra hnot
        rw [not_or] at hnot
        exact hcategory (by simp [hnot])
      · intro hmem
        obtain ⟨u, hu, heq⟩ := List.mem_map.mp hmem
        exact hfresh u hu (heq ▸ .head _)
    · rintro ⟨⟨⟨hrange, hslug, hcategory, hlabel⟩, hall⟩, ⟨hnew, hnodup⟩, hseen, hfresh⟩
      refine ⟨by omega, by simpa using hseen, (), length_of_isValidSlug hslug, by simp [hslug], ?_, (),
        hlabel, hall, hnodup, fun u hu hmem => ?_⟩
      · obtain h | h := hcategory <;> simp [h]
      · obtain heq | hmem := List.mem_cons.mp hmem
        · exact hnew (heq ▸ List.mem_map_of_mem hu)
        · exact hfresh u hu hmem

structure TrackList.Checked (t : TrackList) : Prop where
  each : ∀ i ∈ t.tracks.getD [], i.Checked
  nodup : ((t.tracks.getD []).map TrackInfo.id).Nodup
  count : (t.tracks.getD []).length ≤ maxTrackSlot

theorem decodeTrackList_eq_ok : decodeTrackList buf = .ok t ↔
    decJSON buf (struct trackListFields) ⟨none⟩ = .ok t ∧ t.Checked := by
  simp only [decodeTrackList, bind_eq_ok, reject_eq_ok, not_lt]
  constructor
  · rintro ⟨t, hdec, hcount, _, htracks, ⟨⟩⟩
    obtain ⟨heach, hnodup, -⟩ := checkTracks_eq_ok.mp htracks
    exact ⟨hdec, heach, hnodup, hcount⟩
  · rintro ⟨hdec, heach, hnodup, hcount⟩
    exact ⟨t, hdec, hcount, (), checkTracks_eq_ok.mpr ⟨heach, hnodup, fun _ _ => nofun⟩, rfl⟩

theorem utf8_trackList (h : decJSON buf (struct trackListFields) ⟨none⟩ = .ok t) :
    ∀ i ∈ t.tracks.getD [], Utf8 i.label := by
  refine keeps_decJSON (P := fun t => ∀ i ∈ t.tracks.getD [], Utf8 i.label)
    (GoJson.keeps_struct ?_) nofun h
  simp only [trackListFields, List.forall_mem_cons]
  refine ⟨GoJson.keeps_slice (Q := fun i => Utf8 i.label) (GoJson.keeps_struct ?_) GoJson.utf8_nil
    (fun ys _ hys _ => hys), nofun⟩
  simp only [trackFields, List.forall_mem_cons]
  exact ⟨GoJson.keeps_uint8 (fun _ _ ha => ha), GoJson.keeps_string (fun _ _ _ ha => ha),
    GoJson.keeps_string (fun _ _ _ ha => ha), GoJson.keeps_string (fun _ _ hs _ => hs), nofun⟩

/-! TRACK_META -/

structure TrackMeta.Checked (m : TrackMeta) : Prop where
  title : m.title.length ≤ 256
  artist : m.artist.length ≤ 256
  albumArtURL : m.albumArtURL.length ≤ 1024
  https : m.albumArtURL = [] ∨ (ascii "https://").isPrefixOf m.albumArtURL = true

theorem decodeTrackMeta_eq_ok : decodeTrackMeta buf = .ok m ↔
    decJSON buf (struct trackMetaFields) ⟨[], [], []⟩ = .ok m ∧ m.Checked := by
  simp only [decodeTrackMeta, bind_eq_ok, reject_eq_ok, checkStr_eq_ok]
  constructor
  · rintro ⟨m, hdec, _, htitle, _, hartist, _, hurl, hhttps, ⟨⟩⟩
    refine ⟨hdec, htitle, hartist, hurl, ?_⟩
    by_contra hnot
    rw [not_or] at hnot
    exact hhttps (by simp [hnot])
  · rintro ⟨hdec, htitle, hartist, hurl, hhttps⟩
    refine ⟨m, hdec, (), htitle, (), hartist, (), hurl, ?_, rfl⟩
    obtain h | h := hhttps <;> simp [h]

theorem utf8_trackMeta (h : decJSON buf (struct trackMetaFields) ⟨[], [], []⟩ = .ok m) :
    Utf8 m.title ∧ Utf8 m.artist ∧ Utf8 m.albumArtURL := by
  refine keeps_decJSON (P := fun m => Utf8 m.title ∧ Utf8 m.artist ∧ Utf8 m.albumArtURL)
    (GoJson.keeps_struct ?_) ⟨GoJson.utf8_nil, GoJson.utf8_nil, GoJson.utf8_nil⟩ h
  simp only [trackMetaFields, List.forall_mem_cons]
  exact ⟨GoJson.keeps_string (fun _ _ hs ha => ⟨hs, ha.2⟩),
    GoJson.keeps_string (fun _ _ hs ha => ⟨ha.1, hs, ha.2.2⟩),
    GoJson.keeps_string (fun _ _ hs ha => ⟨ha.1, ha.2.1, hs⟩), nofun⟩

/-! STATS -/

structure Stats.Checked (s : Stats) : Prop where
  uptimeS : 0 ≤ s.uptimeS
  packetsSent : 0 ≤ s.packetsSent
  subscribers : 0 ≤ s.subscribers
  tracksActive : 0 ≤ s.tracksActive

theorem decodeStats_eq_ok : decodeStats buf = .ok s ↔
    decJSON buf (struct statsFields) ⟨0, 0, 0, 0⟩ = .ok s ∧ s.Checked := by
  simp only [decodeStats, bind_eq_ok, reject_eq_ok, not_or, not_lt]
  constructor
  · rintro ⟨s, hdec, ⟨h1, h2, h3, h4⟩, ⟨⟩⟩
    exact ⟨hdec, h1, h2, h3, h4⟩
  · rintro ⟨hdec, h1, h2, h3, h4⟩
    exact ⟨s, hdec, ⟨h1, h2, h3, h4⟩, rfl⟩

/-! ERROR -/

structure ErrorPayload.Checked (e : ErrorPayload) : Prop where
  code : isErrorCode e.code = true
  message : e.message.length ≤ 512

theorem decodeError_eq_ok : decodeError buf = .ok e ↔
    decJSON buf (struct errorFields) ⟨[], []⟩ = .ok e ∧ e.Checked := by
  simp only [decodeError, bind_eq_ok, reject_eq_ok, checkStr_eq_ok]
  constructor
  · rintro ⟨e, hdec, hcode, _, hmessage, ⟨⟩⟩
    exact ⟨hdec, by simpa using hcode, hmessage⟩
  · rintro ⟨hdec, hcode, hmessage⟩
    exact ⟨e, hdec, by simp [hcode], (), hmessage, rfl⟩

theorem utf8_error (h : decJSON buf (struct errorFields) ⟨[], []⟩ = .ok e) : Utf8 e.message := by
  refine keeps_decJSON (P := fun e => Utf8 e.message) (GoJson.keeps_struct ?_) GoJson.utf8_nil h
  simp only [errorFields, List.forall_mem_cons]
  exact ⟨GoJson.keeps_string (fun _ _ _ ha => ha), GoJson.keeps_string (fun _ _ hs _ => hs), nofun⟩

end Go

end StreamMix.Wire
