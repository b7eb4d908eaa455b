import StreamMix.Wire.Interop.Error
import StreamMix.Wire.Interop.Hello
import StreamMix.Wire.Interop.SubTracks
import StreamMix.Wire.Interop.TrackList
import StreamMix.Wire.Sizes

/-! Every payload that passes the checks of its decoder fits, and comes back. -/

namespace StreamMix.Wire

open Js (Number)
open Unicode (Units utf16)
open GoJson (goString struct Utf8)

/-- The encoder writes the value, into no more than a frame holds, and the decoder reads it. -/
def Kept (encode : α → Except ProtocolError Bytes) (decode : Bytes → Except ProtocolError α)
    (a : α) : Prop :=
  ∃ b, encode a = .ok b ∧ b.length ≤ maxPayloadBytes ∧ decode b = .ok a

theorem Ts.encodeJson_of_size (h : size t ≤ 4096) : Ts.encodeJson t = .ok (Unicode.encode t) :=
  if_neg (Nat.not_lt.mpr h)

theorem Go.encJSON_of_size (h : size t ≤ 4096) : Go.encJSON t = .ok (Unicode.encode t) :=
  if_neg (Nat.not_lt.mpr h)

/-! HELLO -/

theorem size_hello (client codec : List Nat) (hn : n = 1 ∨ n = 2) :
    size (helloText client codec n) = size client + size codec + 89 := by
  have hn : size (Json.decimal n) = 1 := by
    obtain rfl | rfl := hn <;> decide
  have h1 : size (Json.decimal 1) = 1 := by decide
  have h20 : size (Json.decimal 20) = 2 := by decide
  have h48000 : size (Json.decimal 48000) = 5 := by decide
  have hnames : ∀ k ∈ ["version", "client", "audio", "codec", "sample_rate", "channels", "frame_ms"],
      Name (Ts.units k) := by
    decide
  simp only [List.forall_mem_cons] at hnames
  obtain ⟨hversion, hclient, haudio, hcodec, hrate, hchannels, hframe, -⟩ := hnames
  rw [helloText, size_object _ _ (by simp [hversion, hclient, haudio])]
  simp only [List.map_cons, List.map_nil]
  rw [size_object _ _ (by simp [hcodec, hrate, hchannels, hframe])]
  simp [Ts.units, ascii, hn, h1, h20, h48000]
  omega

theorem Ts.hello_kept (h : Ts.HelloPayload.Checked p) (hu : Units p.client) :
    Kept Ts.encodeHello Ts.decodeHello p := by
  have hlen := h.client
  obtain ⟨client, n, rfl, hn⟩ := h.eq
  have hopus : size (Ts.stringText (Ts.units "opus")) = 6 := by decide
  have htext := Ts.size_stringText hu
  have hsize : size (helloText (Ts.stringText client) (Ts.stringText (Ts.units "opus")) n) ≤ 4096 := by
    rw [size_hello _ _ hn, hopus]
    simp only at hlen htext
    omega
  have hread := Ts.decodeJson_encode
    (written_hello (Ts.written_stringText hu) (Ts.written_constant mem_constants_opus) n) hsize
  refine ⟨_, (encodeHello_ts client hn).trans (Ts.encodeJson_of_size hsize), hsize, ?_⟩
  exact Ts.decodeHello_eq_ok.mpr ⟨_, hread, h,
    get_number 1 rfl (by decide), rfl, _, rfl, rfl, get_number 48000 rfl (by decide),
    get_number n rfl (by omega), get_number 20 rfl (by decide)⟩

theorem goString_utf16 {ps : List Nat} (h : ∀ p ∈ ps, Unicode.Scalar p) :
    goString (utf16 ps) = Unicode.encode ps := by
  rw [goString, Unicode.points_utf16 h]

theorem Go.hello_kept (h : Go.Hello.Checked w) (hu : Utf8 w.client) :
    Kept Go.encodeHello Go.decodeHello w := by
  have hlen := h.client
  have hchecked := h
  obtain ⟨ps, hps, hclient⟩ := hu
  obtain ⟨client, n, rfl, hn⟩ := h.eq
  obtain rfl : client = Unicode.encode ps := hclient
  have hopus : size (GoJson.stringText (ascii "opus")) = 6 := by decide
  have htext := Go.size_stringText hps
  have hsize : size (helloText (GoJson.stringText (Unicode.encode ps))
      (GoJson.stringText (ascii "opus")) n) ≤ 4096 := by
    rw [size_hello _ _ hn, hopus]
    simp only at hlen
    omega
  have hread := Go.decJSON_encode
    (written_hello (Go.written_stringText hps) (Go.written_constant mem_constants_opus) n) hsize
    (struct Go.helloFields) .zero
  rw [struct_hello _ _ (by omega), goString_utf16 hps, goString_constant _ mem_constants_opus] at hread
  exact ⟨_, (encodeHello_go (Unicode.encode ps) n).trans (Go.encJSON_of_size hsize), hsize,
    Go.decodeHello_eq_ok.mpr ⟨hread, hchecked⟩⟩

/-! TRACK_LIST -/

theorem size_track (id slug category label : List Nat) :
    size (Json.object [(Ts.units "id", id), (Ts.units "slug", slug),
      (Ts.units "category", category), (Ts.units "label", label)]) =
      size id + size slug + size category + size label + 36 := by
  have hnames : ∀ k ∈ ["id", "slug", "category", "label"], Name (Ts.units k) := by decide
  simp only [List.forall_mem_cons] at hnames
  obtain ⟨hid, hslug, hcategory, hlabel, -⟩ := hnames
  rw [size_object _ _ (by simp [hid, hslug, hcategory, hlabel])]
  simp [Ts.units, ascii]
  omega

theorem size_tracks (tracks : List Nat) :
    size (Json.object [(Ts.units "tracks", tracks)]) = size tracks + 11 := by
  have hname : Name (Ts.units "tracks") := by decide
  rw [size_object _ _ (by simp [hname])]
  simp [Ts.units, ascii]
  omega

/-- A full list, with the texts of all tracks at their longest. -/
theorem size_full {ts : List (List Nat)} (h : ∀ t ∈ ts, size t ≤ 504) (hlen : ts.length ≤ 8) :
    size (Json.object [(Ts.units "tracks", Json.array ts)]) ≤ 4053 := by
  rw [size_tracks]
  have hsize := size_array h
  omega

theorem size_id (h1 : 1 ≤ n) (h8 : n ≤ 8) : size (Json.decimal n) = 1 := by
  have hall : ∀ n ∈ [1, 2, 3, 4, 5, 6, 7, 8], size (Json.decimal n) = 1 := by decide
  apply hall
  simp only [List.mem_cons]
  omega

theorem numberText_id (h1 : 1 ≤ n) (h8 : n ≤ 8) :
    Ts.numberText (.fin (n : Nat)) = Json.decimal n := by
  apply numberText_small
  simp only [List.mem_cons]
  omega

theorem Ts.size_category (h : Ts.IsCategory s) : size (Ts.stringText s) ≤ 15 := by
  have hall : ∀ c ∈ customCategory :: presetCategories, size (Ts.stringText (Ts.units c)) ≤ 15 := by
    decide
  obtain ⟨c, hc, rfl⟩ := isCategory_ts h
  exact hall c hc

theorem Ts.size_trackText (h : Ts.TrackInfo.Checked t) (hu : Units t.label) :
    size (Ts.trackText t) ≤ 504 := by
  obtain ⟨n, hid, h1, h8⟩ := h.id
  have h8 : n ≤ 8 := h8
  have hslug := Ts.size_slug h.slug
  have hcategory := Ts.size_category h.category
  have hlabel := Ts.size_stringText hu
  have hlen := h.label
  rw [Ts.trackText, size_track, hid, numberText_id h1 h8, size_id h1 h8]
  omega

/-- The entry that is read has the track. -/
theorem entry_tsValue (h : Ts.TrackInfo.Checked t) : Ts.Entry (tsValue t).value t := by
  obtain ⟨hid, h1, h8⟩ := toUint_id h
  exact ⟨h, hid ▸ get_number _ rfl (by omega), rfl, rfl, rfl⟩

theorem Ts.trackList_kept {ts : List Ts.TrackInfo} (h : ∀ t ∈ ts, t.Checked ∧ Units t.label)
    (hnodup : (ts.map Ts.TrackInfo.id).Nodup) (hcount : ts.length ≤ maxTrackSlot) :
    Kept Ts.encodeTrackList Ts.decodeTrackList ts := by
  have hsize : size (Json.object [(Ts.units "tracks", Json.array (ts.map Ts.trackText))]) ≤ 4096 := by
    refine Nat.le_trans (size_full ?_ ?_) (by decide)
    · intro text htext
      obtain ⟨t, ht, rfl⟩ := List.mem_map.mp htext
      exact Ts.size_trackText (h t ht).1 (h t ht).2
    · rw [List.length_map]
      exact hcount
  have htexts : List.Forall₂ Written (ts.map Ts.trackText) (ts.map tsValue) := by
    rw [List.forall₂_map_left_iff, List.forall₂_map_right_iff, List.forall₂_same]
    exact fun t ht => written_tsValue (h t ht).1 (h t ht).2
  refine ⟨_, Ts.encodeJson_of_size hsize, hsize, ?_⟩
  apply Ts.decodeTrackList_eq_ok.mpr
  refine ⟨_, _, Ts.decodeJson_encode (written_tracks htexts) hsize, rfl, ?_, hnodup, hcount⟩
  rw [Json.valueElements_eq, List.forall₂_map_left_iff, List.forall₂_map_left_iff,
    List.forall₂_same]
  exact fun t ht => entry_tsValue (h t ht).1

theorem Go.size_category (h : Go.TrackInfo.Checked i) : size (GoJson.stringText i.category) ≤ 15 := by
  have hall : ∀ c ∈ customCategory :: presetCategories, size (GoJson.stringText (ascii c)) ≤ 15 := by
    decide
  obtain ⟨c, hc, heq⟩ := category_go h
  rw [heq]
  exact hall c hc

theorem Go.size_trackText (h : Go.TrackInfo.Checked i) (hu : Utf8 i.label) :
    size (Go.trackText i) ≤ 504 := by
  obtain ⟨ps, hps, hlabel⟩ := hu
  obtain ⟨h1, h8⟩ := h.id
  have h8 : i.id ≤ 8 := h8
  have hslug := Go.size_slug h.slug
  have hcategory := Go.size_category h
  have htext := Go.size_stringText hps
  have hlen := h.label
  rw [← hlabel] at htext
  rw [Go.trackText, size_track, intText_natCast, size_id h1 h8]
  omega

theorem goString_tsText (h : Utf8 bs) : goString (tsText bs) = bs := by
  obtain ⟨ps, hps, rfl⟩ := h
  rw [tsText_eq (sameText_encode hps), goString_utf16 hps]

theorem utf8_slug (h : Go.isValidSlug bs = true) : Utf8 bs := by
  have hsmall : ∀ c ∈ bs.map UInt8.toNat, c < 0x80 := by
    intro c hc
    obtain ⟨b, hb, rfl⟩ := List.mem_map.mp hc
    exact Go.ascii_of_isValidSlug h b hb
  refine ⟨bs.map UInt8.toNat, fun p hp => scalar_of_lt (hsmall p hp), ?_⟩
  rw [Unicode.encode_of_lt hsmall, List.map_map]
  conv_lhs => rw [← List.map_id bs]
  exact List.map_congr_left (fun b _ => UInt8.ofNat_toNat.symm)

theorem utf8_category (h : Go.TrackInfo.Checked i) : Utf8 i.category := by
  obtain ⟨c, hc, heq⟩ := category_go h
  have hconstant := mem_constants_category hc
  rw [heq, ← goString_constant c hconstant]
  exact GoJson.utf8_goString (Unicode.units_of_forall_lt (small_constant c hconstant))

theorem struct_goValue (h : Go.TrackInfo.Checked i) (hu : Utf8 i.label) :
    struct Go.trackFields (goValue i) .zero = some i := by
  have h8 : i.id ≤ 8 := h.id.2
  refine (struct_track _ _ _ (by omega)).trans ?_
  rw [goString_tsText (utf8_slug h.slug), goString_tsText (utf8_category h), goString_tsText hu]

theorem Go.trackList_kept {t : Go.TrackList} (h : t.Checked)
    (hu : ∀ i ∈ t.tracks.getD [], Utf8 i.label) :
    Kept Go.encodeTrackList Go.decodeTrackList t := by
  obtain ⟨tracks⟩ := t
  cases tracks with
  | none =>
    have hwritten : Written (Json.object [(Ts.units "tracks", [0x6e, 0x75, 0x6c, 0x6c])])
        (.obj [(Ts.units "tracks", .null)]) :=
      written_object (.cons (written_member (by decide) written_null) .nil)
    have hsize : size (Json.object [(Ts.units "tracks", [0x6e, 0x75, 0x6c, 0x6c])]) ≤ 4096 := by
      decide
    have hread := Go.decJSON_encode hwritten hsize (struct Go.trackListFields) ⟨none⟩
    exact ⟨_, Go.encJSON_of_size hsize, hsize, Go.decodeTrackList_eq_ok.mpr ⟨hread, h⟩⟩
  | some is =>
    have hall : ∀ i ∈ is, i.Checked ∧ Utf8 i.label := fun i hi => ⟨h.each i hi, hu i hi⟩
    have hsize : size (Json.object [(Ts.units "tracks", Json.array (is.map Go.trackText))]) ≤ 4096 := by
      refine Nat.le_trans (size_full ?_ ?_) (by decide)
      · intro text htext
        obtain ⟨i, hi, rfl⟩ := List.mem_map.mp htext
        exact Go.size_trackText (hall i hi).1 (hall i hi).2
      · rw [List.length_map]
        exact h.count
    have htexts : List.Forall₂ Written (is.map Go.trackText) (is.map goValue) := by
      rw [List.forall₂_map_left_iff, List.forall₂_map_right_iff, List.forall₂_same]
      exact fun i hi => written_goValue (hall i hi).1 (hall i hi).2
    have helements : (is.map goValue).mapM (fun x => struct Go.trackFields x .zero) = some is := by
      rw [GoJson.mapM_eq_some, List.forall₂_map_left_iff, List.forall₂_same]
      exact fun i hi => struct_goValue (hall i hi).1 (hall i hi).2
    have hvalue : struct Go.trackListFields (.obj [(Ts.units "tracks", .arr (is.map goValue))])
        ⟨none⟩ = some ⟨some is⟩ :=
      (struct_cons rfl (slice_arr helements (fun ts _ => ⟨ts⟩) _)).trans rfl
    have hread := Go.decJSON_encode (written_tracks htexts) hsize (struct Go.trackListFields) ⟨none⟩
    rw [hvalue] at hread
    exact ⟨_, Go.encJSON_of_size hsize, hsize, Go.decodeTrackList_eq_ok.mpr ⟨hread, h⟩⟩

/-! SUB_TRACKS -/

theorem value_numberOf (h : n < 2 ^ 53) : (numberOf n).value = .num (.fin n) := by
  rw [numberOf, Json.Syntax.value, Number.ofDecimal_natCast h]

theorem Ts.subTracks_kept (h : Ts.CheckedIds ids) :
    Kept Ts.encodeSubTracks Ts.decodeSubTracks ids := by
  let number (x : Number) := numberOf (x.toUint 8)
  have hid : ∀ x ∈ ids, Written (Ts.numberText x) (number x) ∧ size (Ts.numberText x) ≤ 504 ∧
      (number x).value = .num x := by
    intro x hx
    obtain ⟨n, rfl, h1, h8⟩ := h.each x hx
    have h8 : n ≤ 8 := h8
    have hnumber : number (.fin (n : ℚ)) = numberOf n := by
      change numberOf _ = _
      rw [Number.toUint_natCast, Nat.mod_eq_of_lt (by omega)]
    rw [numberText_id h1 h8, hnumber, size_id h1 h8]
    exact ⟨written_decimal n, by decide, value_numberOf (by omega)⟩
  have hsize : size (Json.object [(Ts.units "tracks", Json.array (ids.map Ts.numberText))]) ≤ 4096 := by
    refine Nat.le_trans (size_full ?_ ?_) (by decide)
    · intro text htext
      obtain ⟨x, hx, rfl⟩ := List.mem_map.mp htext
      exact (hid x hx).2.1
    · rw [List.length_map]
      exact h.count
  have htexts : List.Forall₂ Written (ids.map Ts.numberText) (ids.map number) := by
    rw [List.forall₂_map_left_iff, List.forall₂_map_right_iff, List.forall₂_same]
    exact fun x hx => (hid x hx).1
  have hvalues : Json.valueElements (ids.map number) = ids.map .num := by
    rw [Json.valueElements_eq, List.map_map]
    exact List.map_congr_left (fun x hx => (hid x hx).2.2)
  refine ⟨_, Ts.encodeJson_of_size hsize, hsize, Ts.decodeSubTracks_eq_ok.mpr ⟨_,
    Ts.decodeJson_encode (written_tracks htexts) hsize, ?_, h⟩⟩
  rw [← hvalues]
  rfl

theorem size_base64 (bs : Bytes) :
    size (GoJson.bytesText (some bs)) = (bs.length + 2) / 3 * 4 + 2 := by
  have hsmall : ∀ p ∈ base64 bs, p < 0x80 := fun p hp => (base64_range bs p hp).2.1
  have hlen : (base64 bs).length = (bs.length + 2) / 3 * 4 := by
    rw [base64, List.length_map, Base64.length_encodeStd]
  rw [← hlen, ← size_of_lt hsmall]
  exact size_enclosed (by decide) (by decide) _

theorem Go.subTracks_kept {s : Go.SubTracks} (h : s.Checked) :
    Kept Go.encodeSubTracks Go.decodeSubTracks s := by
  have hsize : size (Json.object [(Ts.units "tracks", GoJson.bytesText s.tracks)]) ≤ 4096 := by
    obtain ⟨tracks⟩ := s
    rw [size_tracks]
    cases tracks with
    | none => decide
    | some bs =>
      have hlen := size_base64 bs
      have hcount : bs.length ≤ 8 := h.count
      simp only
      omega
  have hread := Go.decJSON_encode (written_subTracks s.tracks) hsize (struct Go.subTracksFields) ⟨none⟩
  rw [struct_subTracks] at hread
  exact ⟨_, Go.encJSON_of_size hsize, hsize, Go.decodeSubTracks_eq_ok.mpr ⟨hread, h⟩⟩

/-! ERROR -/

theorem size_error (code message : List Nat) :
    size (errorText code message) = size code + size message + 20 := by
  have hnames : Name (Ts.units "code") ∧ Name (Ts.units "message") := by decide
  rw [errorText, size_object _ _ (by simp [hnames])]
  simp [Ts.units, ascii]
  omega

theorem Ts.error_kept (h : Ts.ErrorPayload.Checked p) (hu : Units p.message) :
    Kept Ts.encodeError Ts.decodeError p := by
  obtain ⟨c, hc, hcode⟩ := isErrorCode_ts h.code
  have hlen := h.message
  obtain ⟨code, message⟩ := p
  obtain rfl : code = Ts.units c := hcode
  have hcodes : ∀ c ∈ errorCodes, size (Ts.stringText (Ts.units c)) ≤ 34 := by decide
  have htext := Ts.size_stringText hu
  have hsize : size (errorText (Ts.stringText (Ts.units c)) (Ts.stringText message)) ≤ 4096 := by
    have := hcodes c hc
    rw [size_error]
    simp only at hlen htext
    omega
  have hread := Ts.decodeJson_encode (written_error (Ts.written_constant (mem_constants_code hc))
    (Ts.written_stringText hu)) hsize
  exact ⟨_, Ts.encodeJson_of_size hsize, hsize,
    Ts.decodeError_eq_ok.mpr ⟨_, hread, h, rfl, rfl⟩⟩

theorem Go.error_kept (h : Go.ErrorPayload.Checked e) (hu : Utf8 e.message) :
    Kept Go.encodeError Go.decodeError e := by
  obtain ⟨c, hc, hcode⟩ := isErrorCode_go h.code
  obtain ⟨ps, hps, hmessage⟩ := hu
  have hlen := h.message
  obtain ⟨code, message⟩ := e
  obtain rfl : code = ascii c := hcode
  obtain rfl : message = Unicode.encode ps := hmessage
  have hconstant := mem_constants_code hc
  have hcodes : ∀ c ∈ errorCodes, size (GoJson.stringText (ascii c)) ≤ 34 := by decide
  have htext := Go.size_stringText hps
  have hsize : size (errorText (GoJson.stringText (ascii c))
      (GoJson.stringText (Unicode.encode ps))) ≤ 4096 := by
    have := hcodes c hc
    rw [size_error]
    simp only at hlen
    omega
  have hread := Go.decJSON_encode (written_error (Go.written_constant hconstant)
    (Go.written_stringText hps)) hsize (struct Go.errorFields) ⟨[], []⟩
  have hvalue : struct Go.errorFields (.obj (errorValue (Ts.units c) (utf16 ps))) ⟨[], []⟩ =
      some ⟨ascii c, Unicode.encode ps⟩ := by
    rw [← goString_constant c hconstant, ← goString_utf16 hps]
    rfl
  rw [hvalue] at hread
  exact ⟨_, Go.encJSON_of_size hsize, hsize, Go.decodeError_eq_ok.mpr ⟨hread, h⟩⟩

/-- In both languages a payload that its own decoder accepts is encoded within the cap of a
frame and decoded again, the strings of Go being UTF-8. -/
theorem payloads_kept :
    (∀ p, Ts.HelloPayload.Checked p → Units p.client → Kept Ts.encodeHello Ts.decodeHello p) ∧
    (∀ ts : List Ts.TrackInfo, (∀ t ∈ ts, t.Checked ∧ Units t.label) →
      (ts.map Ts.TrackInfo.id).Nodup → ts.length ≤ maxTrackSlot →
      Kept Ts.encodeTrackList Ts.decodeTrackList ts) ∧
    (∀ ids, Ts.CheckedIds ids → Kept Ts.encodeSubTracks Ts.decodeSubTracks ids) ∧
    (∀ p, Ts.ErrorPayload.Checked p → Units p.message → Kept Ts.encodeError Ts.decodeError p) ∧
    (∀ w, Go.Hello.Checked w → Utf8 w.client → Kept Go.encodeHello Go.decodeHello w) ∧
    (∀ t, Go.TrackList.Checked t → (∀ i ∈ t.tracks.getD [], Utf8 i.label) →
      Kept Go.encodeTrackList Go.decodeTrackList t) ∧
    (∀ s, Go.SubTracks.Checked s → Kept Go.encodeSubTracks Go.decodeSubTracks s) ∧
    (∀ e, Go.ErrorPayload.Checked e → Utf8 e.message → Kept Go.encodeError Go.decodeError e) :=
  ⟨fun _ => Ts.hello_kept, fun _ => Ts.trackList_kept, fun _ => Ts.subTracks_kept,
    fun _ => Ts.error_kept, fun _ => Go.hello_kept, fun _ => Go.trackList_kept,
    fun _ => Go.subTracks_kept, fun _ => Go.error_kept⟩

/-- Eight tracks with all fields at their longest: every character of a label takes six bytes. -/
def fullList : List Ts.TrackInfo :=
  (List.range 8).map (fun i => ⟨.fin (i + 1 : Nat), List.replicate 64 0x61, Ts.units "notifications",
    List.replicate 64 0x01⟩)

theorem fullList_kept : Kept Ts.encodeTrackList Ts.decodeTrackList fullList := by
  have hslug : Ts.isValidSlug (List.replicate 64 0x61) = true := by decide
  have hcategory : Ts.isPresetCategory (Ts.units "notifications") = true := by decide
  apply payloads_kept.2.1
  · intro t ht
    obtain ⟨i, hi, rfl⟩ := List.mem_map.mp ht
    have hi : i < 8 := List.mem_range.mp hi
    refine ⟨⟨⟨i + 1, rfl, Nat.le_add_left 1 i, hi⟩, hslug, .inr hcategory, Nat.le_refl 64⟩, ?_⟩
    intro u hu
    rw [List.eq_of_mem_replicate hu]
    decide
  · decide
  · decide

end StreamMix.Wire
