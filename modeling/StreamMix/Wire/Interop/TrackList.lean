import StreamMix.Wire.Interop.Texts
import StreamMix.Wire.SlugRule

namespace StreamMix.Wire

open Js (Number)
open Json (Syntax)
open Unicode (Units utf16 encode)
open GoJson (goString struct Utf8)

structure SameTrack (t : Ts.TrackInfo) (i : Go.TrackInfo) : Prop where
  id : t.id = .fin i.id
  slug : SameText t.slug i.slug
  category : SameText t.category i.category
  label : SameText t.label i.label

def SameTrackList (ts : List Ts.TrackInfo) (t : Go.TrackList) : Prop :=
  List.Forall₂ SameTrack ts (t.tracks.getD [])

def trackValue (id : Nat) (slug category label : List Nat) : Syntax :=
  .obj [(Ts.units "id", numberOf id), (Ts.units "slug", .str slug),
    (Ts.units "category", .str category), (Ts.units "label", .str label)]

theorem uint8_decimal (h : n < 256) (set : Nat → α → α) (x : Number) (a : α) :
    GoJson.uint8 set (.num (Json.decimal n) x) a = some (set n a) := by
  obtain ⟨d, ds, heq, -⟩ := Json.head_decimal n
  have hall : (Json.decimal n).all Json.isDigit = true :=
    List.all_eq_true.mpr (Json.isDigit_decimal n)
  have hne : Json.decimal n ≠ [] := by
    rw [heq]
    nofun
  rw [GoJson.uint8, Json.digitsValue_decimal, if_pos ⟨hne, hall, h⟩]

theorem slice_arr {element : GoJson.Decoder β} {xs : List Syntax}
    (h : xs.mapM (fun x => element x zero) = some ys) (set : Option (List β) → α → α) (a : α) :
    GoJson.slice zero element set (.arr xs) a = some (set (some ys) a) := by
  rw [GoJson.slice, h]
  rfl

theorem struct_track (slug category label : List Nat) (h : n < 256) :
    struct Go.trackFields (trackValue n slug category label) .zero =
      some ⟨n, goString slug, goString category, goString label⟩ := by
  apply (struct_cons rfl (uint8_decimal h (fun i t => { t with id := i }) _ _)).trans
  apply (struct_cons rfl rfl).trans
  apply (struct_cons rfl rfl).trans
  apply (struct_cons rfl rfl).trans
  rfl

theorem written_track (hid : Written num (numberOf n)) (hslug : Written slug (.str s))
    (hcategory : Written category (.str c)) (hlabel : Written label (.str l)) :
    Written (Json.object [(Ts.units "id", num), (Ts.units "slug", slug),
      (Ts.units "category", category), (Ts.units "label", label)]) (trackValue n s c l) :=
  written_object (.cons (written_member (by decide) hid)
    (.cons (written_member (by decide) hslug)
      (.cons (written_member (by decide) hcategory)
        (.cons (written_member (by decide) hlabel) .nil))))

theorem written_tracks {ts : List (List Nat)} {vs : List Syntax} (h : List.Forall₂ Written ts vs) :
    Written (Json.object [(Ts.units "tracks", Json.array ts)])
      (.obj [(Ts.units "tracks", .arr vs)]) :=
  written_object (.cons (written_member (by decide) (written_array h)) .nil)

/-! Slugs and categories are ASCII. -/

theorem small_isValidSlug (h : Ts.isValidSlug s = true) : ∀ c ∈ s, c < 0x80 := by
  simp only [Ts.isValidSlug, Bool.and_eq_true] at h
  exact lt_of_accepts (slugRe_eq _ _ ▸ h.2)

theorem isValidSlug_goString (hs : ∀ c ∈ s, c < 0x80) :
    Go.isValidSlug (goString s) = Ts.isValidSlug s := by
  rw [Bool.eq_iff_iff, Go.isValidSlug_iff, Ts.isValidSlug_iff, ← mem_slugUnits_toNat,
    GoJson.goString_of_lt hs, Unicode.map_toNat_ofNat hs, List.length_map]

theorem isCategory_ts (h : Ts.IsCategory s) : ∃ c ∈ customCategory :: presetCategories, s = Ts.units c := by
  obtain rfl | h := h
  · exact ⟨_, .head _, rfl⟩
  · obtain ⟨c, hc, heq⟩ := List.any_eq_true.mp h
    exact ⟨c, .tail _ hc, (eq_of_beq heq).symm⟩

theorem mem_constants_category (h : c ∈ customCategory :: presetCategories) : c ∈ constants := by
  cases h with
  | head => exact .tail _ (.head _)
  | tail _ h => exact .tail _ (.tail _ (List.mem_append_left _ h))

section FromTs

/-- The track that the other side reads. -/
def goTrack (t : Ts.TrackInfo) : Go.TrackInfo :=
  ⟨t.id.toUint 8, goString t.slug, goString t.category, goString t.label⟩

def tsValue (t : Ts.TrackInfo) : Syntax :=
  trackValue (t.id.toUint 8) t.slug t.category t.label

theorem struct_tsValue (t : Ts.TrackInfo) :
    struct Go.trackFields (tsValue t) .zero = some (goTrack t) := by
  apply struct_track
  cases t.id with
  | fin q =>
    simp only [Number.toUint]
    generalize (if 0 ≤ q then ⌊q⌋ else ⌈q⌉) = z
    omega
  | _ => exact Nat.zero_lt_succ _

theorem toUint_id (h : Ts.TrackInfo.Checked t) :
    t.id = .fin (t.id.toUint 8) ∧ 1 ≤ t.id.toUint 8 ∧ t.id.toUint 8 ≤ 8 := by
  obtain ⟨n, hn, h1, h8⟩ := h.id
  have h8 : n ≤ 8 := h8
  have hmod : n % 2 ^ 8 = n := Nat.mod_eq_of_lt (by omega)
  rw [hn, Number.toUint_natCast, hmod]
  exact ⟨rfl, h1, h8⟩

theorem written_tsValue (h : Ts.TrackInfo.Checked t) (hl : Units t.label) :
    Written (Ts.trackText t) (tsValue t) := by
  obtain ⟨hid, h1, h8⟩ := toUint_id h
  obtain ⟨c, hc, hcategory⟩ := isCategory_ts h.category
  have hmem : t.id.toUint 8 ∈ [1, 2, 3, 4, 5, 6, 7, 8, 20, 48000] := by
    simp only [List.mem_cons]
    omega
  have hnumber : Written (Ts.numberText t.id) (numberOf (t.id.toUint 8)) := by
    have htext := numberText_small _ hmem
    rw [← hid] at htext
    rw [htext]
    exact written_decimal _
  refine written_track hnumber
    (Ts.written_stringText (Unicode.units_of_forall_lt (small_isValidSlug h.slug))) ?_
    (Ts.written_stringText hl)
  rw [hcategory]
  exact Ts.written_constant (mem_constants_category hc)

theorem checked_goTrack (h : Ts.TrackInfo.Checked t) :
    (goTrack t).Checked ↔ (goString t.label).length ≤ 64 := by
  constructor
  · exact Go.TrackInfo.Checked.label
  · intro hlen
    obtain ⟨c, hc, hcategory⟩ := isCategory_ts h.category
    refine ⟨(toUint_id h).2, ?_, ?_, hlen⟩
    · exact (isValidSlug_goString (small_isValidSlug h.slug)).trans h.slug
    · have hgo : (goTrack t).category = ascii c := by
        rw [← goString_constant c (mem_constants_category hc), ← hcategory]
        rfl
      rw [hgo]
      cases hc with
      | head => exact .inl rfl
      | tail _ hc => exact .inr (List.any_eq_true.mpr ⟨c, hc, beq_self_eq_true _⟩)

theorem sameTrack_goTrack (h : Ts.TrackInfo.Checked t) :
    SameTrack t (goTrack t) ↔ SameText t.label (goString t.label) := by
  constructor
  · exact SameTrack.label
  · intro hlabel
    obtain ⟨c, hc, hcategory⟩ := isCategory_ts h.category
    refine ⟨?_, sameText_of_lt (small_isValidSlug h.slug), ?_, hlabel⟩
    · exact (toUint_id h).1
    · apply sameText_of_lt
      rw [hcategory]
      exact small_constant c (mem_constants_category hc)

theorem trackList_of_ts (h : Ts.decodeTrackList buf = .ok ts) (hb : Ts.encodeTrackList ts = .ok b) :
    (∃ w, Go.decodeTrackList b = .ok w ∧ SameTrackList ts w) ↔ ∀ t ∈ ts, Fits 64 t.label := by
  obtain ⟨v, raws, hv, hraws, hentries, hnodup, hcount⟩ := Ts.decodeTrackList_eq_ok.mp h
  have hbounded := Ts.bounded_get (Ts.bounded_decodeJson hv) hraws
  have hall : ∀ t ∈ ts, t.Checked ∧ Units t.label := by
    intro t ht
    obtain ⟨raw, hraw, hentry⟩ := exists_left hentries ht
    exact ⟨hentry.toChecked, Ts.bounded_get (Ts.bounded_element hbounded hraw) hentry.get_label⟩
  obtain ⟨rfl, hsize⟩ := Ts.encodeJson_eq_ok hb
  have htexts : List.Forall₂ Written (ts.map Ts.trackText) (ts.map tsValue) := by
    rw [List.forall₂_map_left_iff, List.forall₂_map_right_iff, List.forall₂_same]
    exact fun t ht => written_tsValue (hall t ht).1 (hall t ht).2
  have hread := Go.decJSON_encode (written_tracks htexts) hsize (struct Go.trackListFields) ⟨none⟩
  have hvalue : struct Go.trackListFields (.obj [(Ts.units "tracks", .arr (ts.map tsValue))])
      ⟨none⟩ = some ⟨some (ts.map goTrack)⟩ := by
    have helements : (ts.map tsValue).mapM (fun x => struct Go.trackFields x .zero) =
        some (ts.map goTrack) := by
      rw [GoJson.mapM_eq_some, List.forall₂_map_left_iff, List.forall₂_map_right_iff,
        List.forall₂_same]
      exact fun t _ => struct_tsValue t
    apply (struct_cons rfl (slice_arr helements (fun ts _ => ⟨ts⟩) _)).trans
    rfl
  rw [hvalue] at hread
  simp only [Go.decodeTrackList_eq_ok, hread]
  constructor
  · rintro ⟨w, ⟨⟨⟩, hchecked⟩, hsame⟩
    intro t ht
    have hsame : List.Forall₂ SameTrack ts (ts.map goTrack) := hsame
    rw [List.forall₂_map_right_iff, List.forall₂_same] at hsame
    exact (fits_iff (hall t ht).2).mpr
      ⟨(hsame t ht).label, (hchecked.each _ (List.mem_map_of_mem ht)).label⟩
  · intro hfits
    have hfits (t : Ts.TrackInfo) (ht : t ∈ ts) := (fits_iff (hall t ht).2).mp (hfits t ht)
    refine ⟨_, ⟨rfl, ?_, ?_, ?_⟩, ?_⟩
    · intro i hi
      obtain ⟨t, ht, rfl⟩ := List.mem_map.mp hi
      exact (checked_goTrack (hall t ht).1).mpr (hfits t ht).2
    · have hids : (ts.map goTrack).map Go.TrackInfo.id = (ts.map Ts.TrackInfo.id).map (Number.toUint 8) := by
        rw [List.map_map, List.map_map]
        rfl
      change ((ts.map goTrack).map Go.TrackInfo.id).Nodup
      rw [hids]
      apply hnodup.map_on
      intro x hx y hy heq
      obtain ⟨t, ht, rfl⟩ := List.mem_map.mp hx
      obtain ⟨u, hu, rfl⟩ := List.mem_map.mp hy
      rw [(toUint_id (hall t ht).1).1, (toUint_id (hall u hu).1).1, heq]
    · exact Nat.le_trans (Nat.le_of_eq (List.length_map _)) hcount
    · change List.Forall₂ SameTrack ts (ts.map goTrack)
      rw [List.forall₂_map_right_iff, List.forall₂_same]
      exact fun t ht => (sameTrack_goTrack (hall t ht).1).mpr (hfits t ht).1

end FromTs

section FromGo

def tsText (bs : Bytes) : List Nat := (jsString bs).getD []

theorem tsText_eq (h : SameText s bs) : tsText bs = s := by
  rw [tsText, h]
  rfl

def tsTrack (i : Go.TrackInfo) : Ts.TrackInfo :=
  ⟨.fin i.id, tsText i.slug, tsText i.category, tsText i.label⟩

def goValue (i : Go.TrackInfo) : Syntax :=
  trackValue i.id (tsText i.slug) (tsText i.category) (tsText i.label)

/-- The string is written and is the text that is read from it. -/
def Sent (bs : Bytes) : Prop :=
  SameText (tsText bs) bs ∧ Written (GoJson.stringText bs) (.str (tsText bs))

theorem sent_of_same (hs : SameText s bs) (hw : Written (GoJson.stringText bs) (.str s)) :
    Sent bs := by
  rw [Sent, tsText_eq hs]
  exact ⟨hs, hw⟩

theorem sent_utf8 (h : Utf8 bs) : Sent bs := by
  obtain ⟨ps, hps, rfl⟩ := h
  exact sent_of_same (sameText_encode hps) (Go.written_stringText hps)

theorem sent_constant (h : c ∈ constants) : Sent (ascii c) ∧ tsText (ascii c) = Ts.units c :=
  ⟨sent_of_same (sameText_constant h) (Go.written_constant h), tsText_eq (sameText_constant h)⟩

theorem sent_slug (h : Go.isValidSlug bs = true) :
    Sent bs ∧ Ts.isValidSlug (tsText bs) = true := by
  have hre : Ts.slugRe false (bs.map UInt8.toNat) = true := by
    rw [Go.isValidSlug] at h
    split_ifs at h
    exact h
  have hsmall := lt_of_accepts (slugRe_eq _ _ ▸ hre)
  have hback : goString (bs.map UInt8.toNat) = bs := by
    rw [GoJson.goString_of_lt hsmall, List.map_map]
    conv_rhs => rw [← List.map_id bs]
    exact List.map_congr_left (fun b _ => UInt8.ofNat_toNat)
  have hsame := sameText_of_lt hsmall
  have hwritten := Go.written_of_lt hsmall
  have hvalid := isValidSlug_goString hsmall
  rw [hback] at hsame hwritten hvalid
  exact ⟨sent_of_same hsame hwritten, tsText_eq hsame ▸ hvalid.symm.trans h⟩

theorem category_go (h : Go.TrackInfo.Checked i) :
    ∃ c ∈ customCategory :: presetCategories, i.category = ascii c := by
  obtain h | h := h.category
  · exact ⟨_, .head _, h⟩
  · obtain ⟨c, hc, heq⟩ := List.any_eq_true.mp h
    exact ⟨c, .tail _ hc, (eq_of_beq heq).symm⟩

theorem written_goValue (h : Go.TrackInfo.Checked i) (hl : Utf8 i.label) :
    Written (Go.trackText i) (goValue i) := by
  obtain ⟨c, hc, hcategory⟩ := category_go h
  refine written_track ?_ (sent_slug h.slug).1.2 ?_ (sent_utf8 hl).2
  · rw [intText_natCast]
    exact written_decimal i.id
  · rw [hcategory]
    exact (sent_constant (mem_constants_category hc)).1.2

theorem entry_goValue (h : Go.TrackInfo.Checked i) (hl : Utf8 i.label) :
    Ts.Entry (goValue i).value (tsTrack i) := by
  obtain ⟨c, hc, hcategory⟩ := category_go h
  have hid : i.id ≤ 8 := h.id.2
  refine ⟨⟨⟨i.id, rfl, h.id⟩, (sent_slug h.slug).2, ?_, ?_⟩, get_number i.id rfl (by omega), rfl, rfl, rfl⟩
  · have hunits : (tsTrack i).category = Ts.units c := by
      rw [tsTrack, hcategory]
      exact (sent_constant (mem_constants_category hc)).2
    rw [hunits]
    cases hc with
    | head => exact .inl rfl
    | tail _ hc => exact .inr (List.any_eq_true.mpr ⟨c, hc, beq_self_eq_true _⟩)
  · obtain ⟨ps, hps, hlabel⟩ := hl
    have htext : (tsTrack i).label = utf16 ps := by
      rw [tsTrack, hlabel]
      exact tsText_eq (sameText_encode hps)
    rw [htext]
    exact Nat.le_trans (Unicode.length_utf16_le ps) (hlabel ▸ h.label)

theorem sameTrack_tsTrack (h : Go.TrackInfo.Checked i) (hl : Utf8 i.label) :
    SameTrack (tsTrack i) i := by
  obtain ⟨c, hc, hcategory⟩ := category_go h
  refine ⟨by simp [tsTrack], (sent_slug h.slug).1.1, ?_, (sent_utf8 hl).1⟩
  have hsent := (sent_constant (mem_constants_category hc)).1.1
  rwa [← hcategory] at hsent

theorem trackList_of_go (h : Go.decodeTrackList buf = .ok w) (hb : Go.encodeTrackList w = .ok b) :
    (∃ ts, Ts.decodeTrackList b = .ok ts ∧ SameTrackList ts w) ↔ w.tracks ≠ none := by
  obtain ⟨hdec, hchecked⟩ := Go.decodeTrackList_eq_ok.mp h
  have hutf8 := Go.utf8_trackList hdec
  obtain ⟨rfl, hsize⟩ := Go.encJSON_eq_ok hb
  obtain ⟨tracks⟩ := w
  cases tracks with
  | none =>
    have hwritten : Written (Json.object [(Ts.units "tracks", [0x6e, 0x75, 0x6c, 0x6c])])
        (.obj [(Ts.units "tracks", .null)]) :=
      written_object (.cons (written_member (by decide) written_null) .nil)
    have hread := Ts.decodeJson_encode hwritten hsize
    constructor
    · rintro ⟨ts, hts, -⟩
      obtain ⟨v, raws, hv, hraws, -⟩ := Ts.decodeTrackList_eq_ok.mp hts
      cases hread.symm.trans hv
      have hnull : Ts.get (.obj (Json.valueMembers [(Ts.units "tracks", .null)])) "tracks" =
        some .null := rfl
      cases hnull.symm.trans hraws
    · intro hne
      exact absurd rfl hne
  | some is =>
    have hall : ∀ i ∈ is, i.Checked ∧ Utf8 i.label := fun i hi => ⟨hchecked.each i hi, hutf8 i hi⟩
    have htexts : List.Forall₂ Written (is.map Go.trackText) (is.map goValue) := by
      rw [List.forall₂_map_left_iff, List.forall₂_map_right_iff, List.forall₂_same]
      exact fun i hi => written_goValue (hall i hi).1 (hall i hi).2
    have hread := Ts.decodeJson_encode (written_tracks htexts) hsize
    refine ⟨fun _ => nofun, fun _ => ⟨is.map tsTrack, ?_, ?_⟩⟩
    · apply Ts.decodeTrackList_eq_ok.mpr
      refine ⟨_, _, hread, rfl, ?_, ?_, ?_⟩
      · rw [Json.valueElements_eq, List.forall₂_map_left_iff, List.forall₂_map_left_iff,
          List.forall₂_map_right_iff, List.forall₂_same]
        exact fun i hi => entry_goValue (hall i hi).1 (hall i hi).2
      · have hids : (is.map tsTrack).map Ts.TrackInfo.id =
            (is.map Go.TrackInfo.id).map (fun n : Nat => (.fin n : Number)) := by
          rw [List.map_map, List.map_map]
          rfl
        rw [hids]
        exact hchecked.nodup.map (fun m n h => Nat.cast_injective (Number.fin_injective h))
      · rw [List.length_map]
        exact hchecked.count
    · change List.Forall₂ SameTrack (is.map tsTrack) is
      rw [List.forall₂_map_left_iff, List.forall₂_same]
      exact fun i hi => sameTrack_tsTrack (hall i hi).1 (hall i hi).2

end FromGo

end StreamMix.Wire
