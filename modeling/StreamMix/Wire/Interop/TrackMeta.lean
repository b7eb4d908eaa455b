import StreamMix.Wire.Interop.Texts

namespace StreamMix.Wire

open Json (Syntax)
open Unicode (Scalar Units utf16 encode)
open GoJson (goString struct)

/-- A field that is missing on one side is empty on the other. -/
structure SameTrackMeta (p : Ts.TrackMetaPayload) (m : Go.TrackMeta) : Prop where
  title : SameText (p.title.getD []) m.title
  artist : SameText (p.artist.getD []) m.artist
  albumArtUrl : SameText (p.albumArtUrl.getD []) m.albumArtURL

def optionalValue (key : String) (o : Option (List Nat)) : List (List Nat × Syntax) :=
  o.toList.map (fun s => (Ts.units key, .str s))

def trackMetaValue (title artist url : Option (List Nat)) : List (List Nat × Syntax) :=
  optionalValue "title" title ++ optionalValue "artist" artist ++ optionalValue "album_art_url" url

theorem written_optional {o : Option (List Nat)} (hk : Name (Ts.units key)) (h : ∀ s ∈ o, Units s) :
    List.Forall₂ WrittenMember (Ts.optional key o) (optionalValue key o) := by
  cases o with
  | none => exact .nil
  | some s => exact .cons (written_member hk (Ts.written_stringText (h s rfl))) .nil

theorem struct_trackMeta (title artist url : Option (List Nat)) :
    struct Go.trackMetaFields (.obj (trackMetaValue title artist url)) ⟨[], [], []⟩ =
      some ⟨goString (title.getD []), goString (artist.getD []), goString (url.getD [])⟩ := by
  cases title <;> cases artist <;> cases url <;> rfl

theorem get_trackMeta (title artist url : Option (List Nat)) :
    let v := .obj (Json.valueMembers (trackMetaValue title artist url))
    Ts.get v "title" = title.map .str ∧ Ts.get v "artist" = artist.map .str ∧
      Ts.get v "album_art_url" = url.map .str := by
  cases title <;> cases artist <;> cases url <;> exact ⟨rfl, rfl, rfl⟩

theorem small_https : ∀ c ∈ Ts.units "https://", c < 0x80 := by decide

theorem goString_append {s : List Nat} (hs : ∀ c ∈ s, c < 0x80) (t : List Nat) :
    goString (s ++ t) = goString s ++ goString t := by
  simp only [goString, Unicode.points, Unicode.codePoints_append hs, Unicode.codePoints_of_lt hs,
    List.map_append, encode, List.flatMap_append]

theorem https_go (h : (Ts.units "https://").isPrefixOf s = true) :
    (ascii "https://").isPrefixOf (goString s) = true := by
  obtain ⟨t, rfl⟩ := List.isPrefixOf_iff_prefix.mp h
  have hgo : goString (Ts.units "https://") = ascii "https://" := by decide
  rw [goString_append small_https, hgo, List.isPrefixOf_iff_prefix]
  exact List.prefix_append _ _

theorem https_ts {ps : List Nat} (hps : ∀ p ∈ ps, Scalar p)
    (h : (ascii "https://").isPrefixOf (encode ps) = true) :
    (Ts.units "https://").isPrefixOf (utf16 ps) = true := by
  obtain ⟨rest, hrest⟩ := List.isPrefixOf_iff_prefix.mp h
  have hdecode := Unicode.decode_encode hps
  have hascii : ∀ c ∈ ascii "https://", c < 0x80 := by decide +kernel
  rw [← hrest, Unicode.decode, Unicode.decodeFrom_append (Unicode.decode_ascii hascii)] at hdecode
  obtain ⟨qs, -, rfl⟩ := Option.map_eq_some_iff.mp hdecode
  rw [Unicode.utf16_append, Unicode.utf16_ascii hascii, List.isPrefixOf_iff_prefix]
  exact List.prefix_append _ _

theorem written_trackMeta {ms₁ ms₂ ms₃ : List (List Nat × List Nat)}
    (htitle : List.Forall₂ WrittenMember ms₁ (optionalValue "title" title))
    (hartist : List.Forall₂ WrittenMember ms₂ (optionalValue "artist" artist))
    (hurl : List.Forall₂ WrittenMember ms₃ (optionalValue "album_art_url" url)) :
    Written (Json.object (ms₁ ++ ms₂ ++ ms₃)) (.obj (trackMetaValue title artist url)) :=
  written_object (List.rel_append (List.rel_append htitle hartist) hurl)

theorem trackMeta_of_ts (h : Ts.decodeTrackMeta buf = .ok p) (hb : Ts.encodeTrackMeta p = .ok b) :
    (∃ w, Go.decodeTrackMeta b = .ok w ∧ SameTrackMeta p w) ↔
      Fits 256 (p.title.getD []) ∧ Fits 256 (p.artist.getD []) ∧
        Fits 1024 (p.albumArtUrl.getD []) := by
  obtain ⟨v, hv, hof⟩ := Ts.decodeTrackMeta_eq_ok.mp h
  obtain ⟨htitle, hartist, hurl⟩ := hof.text (Ts.bounded_decodeJson hv)
  obtain ⟨rfl, hsize⟩ := Ts.encodeJson_eq_ok hb
  have hwritten := written_trackMeta (written_optional (by decide) htitle)
    (written_optional (by decide) hartist) (written_optional (by decide) hurl)
  have hread := Go.decJSON_encode hwritten hsize (struct Go.trackMetaFields) ⟨[], [], []⟩
  rw [struct_trackMeta] at hread
  have hunits {o : Option (List Nat)} (h : ∀ s ∈ o, Units s) : Units (o.getD []) := by
    cases o with
    | none => nofun
    | some s => exact h s rfl
  rw [fits_iff (hunits htitle), fits_iff (hunits hartist), fits_iff (hunits hurl)]
  simp only [Go.decodeTrackMeta_eq_ok, hread]
  constructor
  · rintro ⟨w, ⟨⟨⟩, hchecked⟩, hsame⟩
    exact ⟨⟨hsame.title, hchecked.title⟩, ⟨hsame.artist, hchecked.artist⟩, hsame.albumArtUrl,
      hchecked.albumArtURL⟩
  · rintro ⟨⟨htitle, hlen1⟩, ⟨hartist, hlen2⟩, hurl, hlen3⟩
    refine ⟨_, ⟨rfl, hlen1, hlen2, hlen3, ?_⟩, htitle, hartist, hurl⟩
    cases hprefix : p.albumArtUrl with
    | none => exact .inl rfl
    | some s => exact .inr (https_go (hof.albumArtUrl s hprefix).2)

/-- The property that the other side finds. -/
def present (ps : List Nat) : Option (List Nat) := if ps = [] then none else some (utf16 ps)

theorem present_getD (ps : List Nat) : (present ps).getD [] = utf16 ps := by
  rw [present]
  split_ifs with h
  · rw [h]
    rfl
  · rfl

theorem mem_present (h : s ∈ present ps) : s = utf16 ps ∧ ps ≠ [] := by
  rw [present] at h
  split_ifs at h with hne
  · cases h
  · exact ⟨(Option.some.inj h).symm, hne⟩

theorem encode_eq_nil {ps : List Nat} : encode ps = [] ↔ ps = [] := by
  rw [encode, List.flatMap_eq_nil_iff]
  constructor
  · intro h
    rw [List.eq_nil_iff_forall_not_mem]
    intro p hp
    have hnil := h p hp
    rw [Unicode.encodePoint] at hnil
    split_ifs at hnil
  · rintro rfl
    simp

theorem written_omitEmpty (hk : Name (Ts.units key)) {ps : List Nat} (h : ∀ p ∈ ps, Scalar p) :
    List.Forall₂ WrittenMember (Go.omitEmpty key (encode ps)) (optionalValue key (present ps)) := by
  rw [Go.omitEmpty, present]
  by_cases hps : ps = []
  · rw [if_pos hps, hps]
    exact .nil
  · have hne : (encode ps).isEmpty = false := by
      rw [List.isEmpty_eq_false_iff]
      exact fun hnil => hps (encode_eq_nil.mp hnil)
    rw [if_neg hps, hne]
    exact .cons (written_member hk (Go.written_stringText h)) .nil

theorem trackMeta_of_go (h : Go.decodeTrackMeta buf = .ok w) (hb : Go.encodeTrackMeta w = .ok b) :
    ∃ p, Ts.decodeTrackMeta b = .ok p ∧ SameTrackMeta p w := by
  obtain ⟨hdec, hchecked⟩ := Go.decodeTrackMeta_eq_ok.mp h
  obtain ⟨⟨ps, hps, htitle⟩, ⟨qs, hqs, hartist⟩, rs, hrs, hurl⟩ := Go.utf8_trackMeta hdec
  obtain ⟨title, artist, url⟩ := w
  obtain rfl : title = encode ps := htitle
  obtain rfl : artist = encode qs := hartist
  obtain rfl : url = encode rs := hurl
  obtain ⟨rfl, hsize⟩ := Go.encJSON_eq_ok hb
  have hwritten := written_trackMeta (written_omitEmpty (by decide) hps)
    (written_omitEmpty (by decide) hqs) (written_omitEmpty (by decide) hrs)
  have hread := Ts.decodeJson_encode hwritten hsize
  obtain ⟨hlen1, hlen2, hlen3, hhttps⟩ := hchecked
  obtain ⟨htitle, hartist, hurl⟩ := get_trackMeta (present ps) (present qs) (present rs)
  have hlen {s ps : List Nat} {m : Nat} (hs : s ∈ present ps) (h : (encode ps).length ≤ m) :
      s.length ≤ m := by
    rw [(mem_present hs).1]
    exact Nat.le_trans (Unicode.length_utf16_le ps) h
  refine ⟨⟨present ps, present qs, present rs⟩, ?_, ?_⟩
  · apply Ts.decodeTrackMeta_eq_ok.mpr
    refine ⟨_, hread, ⟨fun s hs => hlen hs hlen1, fun s hs => hlen hs hlen2, fun s hs =>
      ⟨hlen hs hlen3, ?_⟩⟩, htitle, hartist, hurl⟩
    obtain ⟨rfl, hne⟩ := mem_present hs
    obtain hnil | hhttps := hhttps
    · exact absurd (encode_eq_nil.mp hnil) hne
    · exact https_ts hrs hhttps
  · constructor
    · exact (present_getD ps).symm ▸ sameText_encode hps
    · exact (present_getD qs).symm ▸ sameText_encode hqs
    · exact (present_getD rs).symm ▸ sameText_encode hrs

end StreamMix.Wire
