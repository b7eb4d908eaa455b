import StreamMix.Wire.SlugRule
import StreamMix.Wire.SubTracks

/-! The values that the TypeScript decoders take for tracks. -/

namespace StreamMix.Wire.Ts

open Js (Number)
open Json (Value)

/-- `JSON.parse(decoder.decode(buf))`. -/
def parsed (buf : Bytes) : Option Value :=
  (Unicode.decode buf).bind (fun ps => Json.parse (Unicode.utf16 (Unicode.stripMark ps)))

theorem decodeJson_iff : decodeJson buf = .ok v ↔
    buf.length ≤ maxJsonBytes ∧ parsed buf = some v ∧ ∃ fields, v = .obj fields := by
  rw [decodeJson, reject_eq_ok, not_lt]
  apply and_congr_right
  intro _
  rw [← parsed]
  cases parsed buf with
  | none => simp
  | some w =>
    cases w with
    | obj fields =>
      constructor
      · rintro ⟨⟩
        exact ⟨rfl, fields, rfl⟩
      · rintro ⟨⟨⟩, -⟩
        rfl
    | _ =>
      constructor
      · rintro ⟨⟩
      · rintro ⟨⟨⟩, fields, ⟨⟩⟩

/-- The entry of a track. -/
structure TrackValue (raw : Value) (t : TrackInfo) : Prop where
  object : ∃ fields, raw = .obj fields
  id : ∃ n : Nat, get raw "id" = some (.num (.fin n)) ∧ t.id = .fin n ∧ 1 ≤ n ∧ n ≤ 8
  slug : get raw "slug" = some (.str t.slug) ∧
    1 ≤ t.slug.length ∧ t.slug.length ≤ 64 ∧ t.slug ∈ slugUnits
  category : get raw "category" = some (.str t.category) ∧
    ∃ c ∈ customCategory :: presetCategories, t.category = units c
  label : get raw "label" = some (.str t.label) ∧ t.label.length ≤ 64

structure TrackListValue (v : Value) (ts : List TrackInfo) : Prop where
  object : ∃ fields, v = .obj fields
  tracks : ∃ raws, get v "tracks" = some (.arr raws) ∧ List.Forall₂ TrackValue raws ts
  count : ts.length ≤ 8
  distinct : (ts.map TrackInfo.id).Nodup

structure SubTracksValue (v : Value) (ids : List Number) : Prop where
  object : ∃ fields, v = .obj fields
  tracks : get v "tracks" = some (.arr (ids.map .num))
  each : ∀ x ∈ ids, ∃ n : Nat, x = .fin n ∧ 1 ≤ n ∧ n ≤ 8
  count : ids.length ≤ 8
  distinct : ids.Nodup

theorem isCategory_iff : IsCategory s ↔ ∃ c ∈ customCategory :: presetCategories, s = units c := by
  rw [IsCategory, isPresetCategory, List.any_eq_true, List.exists_mem_cons_iff]
  simp only [beq_iff_eq, eq_comm (a := s)]

theorem entry_iff : Entry raw t ↔ TrackValue raw t := by
  constructor
  · intro h
    obtain ⟨n, hn, hrange⟩ := h.id
    exact ⟨get_eq_some h.get_id, ⟨n, hn ▸ h.get_id, hn, hrange⟩,
      ⟨h.get_slug, (isValidSlug_iff _).mp h.slug⟩,
      ⟨h.get_category, isCategory_iff.mp h.category⟩, ⟨h.get_label, h.label⟩⟩
  · intro h
    obtain ⟨n, hget, hn, hrange⟩ := h.id
    exact ⟨⟨⟨n, hn, hrange⟩, (isValidSlug_iff _).mpr h.slug.2, isCategory_iff.mpr h.category.2,
      h.label.2⟩, hn ▸ hget, h.slug.1, h.category.1, h.label.1⟩

/-- What comes behind `decodeJson` in `decodeTrackList`. -/
def tracksOf (obj : Value) : Except ProtocolError (List TrackInfo) :=
  match get obj "tracks" with
  | some (.arr raws) =>
    if raws.length > maxTrackSlot then .error (bad "track_list too many tracks")
    else decodeTracks [] raws
  | _ => .error (bad "track_list.tracks")

theorem decodeTrackList_eq (buf : Bytes) : decodeTrackList buf = decodeJson buf >>= tracksOf := rfl

theorem tracksOf_eq_ok : tracksOf v = .ok ts ↔ TrackListValue v ts := by
  rw [tracksOf]
  constructor
  · intro h
    split at h
    · next raws hraws =>
      rw [reject_eq_ok, decodeTracks_eq_ok] at h
      obtain ⟨hlen, hentries, hnodup, -⟩ := h
      refine ⟨get_eq_some hraws, ⟨raws, hraws, hentries.imp (fun _ _ => entry_iff.mp)⟩, ?_, hnodup⟩
      rw [← hentries.length_eq]
      exact Nat.le_of_not_lt hlen
    · cases h
  · rintro ⟨-, ⟨raws, hraws, hentries⟩, hcount, hnodup⟩
    rw [← hentries.length_eq] at hcount
    rw [hraws]
    exact reject_eq_ok.mpr ⟨Nat.not_lt.mpr hcount,
      decodeTracks_eq_ok.mpr ⟨hentries.imp (fun _ _ => entry_iff.mpr), hnodup, by simp⟩⟩

/-- The two decoders accept the values of their grammars within the size cap, and return what
these hold, in order. -/
theorem decodes_grammar (buf : Bytes) :
    (∀ ts, decodeTrackList buf = .ok ts ↔
      buf.length ≤ maxJsonBytes ∧ ∃ v, parsed buf = some v ∧ TrackListValue v ts) ∧
    ∀ tracks, decodeSubTracks buf = .ok tracks ↔
      buf.length ≤ maxJsonBytes ∧ ∃ v, parsed buf = some v ∧ SubTracksValue v tracks := by
  constructor
  · intro ts
    simp only [decodeTrackList_eq, bind_eq_ok, decodeJson_iff, tracksOf_eq_ok]
    constructor
    · rintro ⟨v, ⟨hlen, hv, -⟩, h⟩
      exact ⟨hlen, v, hv, h⟩
    · rintro ⟨hlen, v, hv, h⟩
      exact ⟨v, ⟨hlen, hv, h.object⟩, h⟩
  · intro tracks
    simp only [decodeSubTracks_eq_ok, decodeJson_iff]
    constructor
    · rintro ⟨v, ⟨hlen, hv, hobj⟩, htracks, heach, hnodup, hcount⟩
      exact ⟨hlen, v, hv, hobj, htracks, heach, hcount, hnodup⟩
    · rintro ⟨hlen, v, hv, hobj, htracks, heach, hcount, hnodup⟩
      exact ⟨v, ⟨hlen, hv, hobj⟩, htracks, heach, hnodup, hcount⟩

/-! Categories that the decoder does not know. -/

/-- The property with its value changed. -/
def mapMember (key : String) (f : Value → Value) : Value → Value
  | .obj fields => .obj (fields.map (fun m => if m.1 = units key then (m.1, f m.2) else m))
  | v => v

def IsUnknown (s : List Nat) : Prop := isValidSlug s = true ∧ ¬ IsCategory s

instance : DecidablePred IsCategory := fun _ => inferInstanceAs (Decidable (_ ∨ _))

instance : DecidablePred IsUnknown := fun _ => inferInstanceAs (Decidable (_ ∧ _))

def degradeCategory : Value → Value
  | .str s => if IsUnknown s then .str (units customCategory) else .str s
  | v => v

def degradeTracks : Value → Value
  | .arr raws => .arr (raws.map (mapMember "category" degradeCategory))
  | v => v

/-- The payload with `custom` for every category that is not known. -/
def degrade (v : Value) : Value := mapMember "tracks" degradeTracks v

def HasUnknown (v : Value) : Prop :=
  ∃ raws, get v "tracks" = some (.arr raws) ∧
    ∃ raw ∈ raws, ∃ s, get raw "category" = some (.str s) ∧ IsUnknown s

theorem lookup_mapMember (key other : String) (f : Value → Value) (ms : List (List Nat × Value)) :
    (ms.map (fun m => if m.1 = units key then (m.1, f m.2) else m)).lookup (units other) =
      if units other = units key then (ms.lookup (units other)).map f else ms.lookup (units other) := by
  induction ms with
  | nil => simp
  | cons m ms ih =>
    obtain ⟨k, w⟩ := m
    rw [List.map_cons]
    by_cases hk : k = units key
    · subst hk
      rw [if_pos rfl, List.lookup_cons, List.lookup_cons, ih]
      by_cases heq : units other = units key
      · simp [heq]
      · simp [beq_false_of_ne heq, heq]
    · rw [if_neg hk, List.lookup_cons, List.lookup_cons, ih]
      by_cases heq : units other = k
      · subst heq
        simp [hk]
      · simp [beq_false_of_ne heq]

theorem get_mapMember (key other : String) (f : Value → Value) (v : Value) :
    get (mapMember key f v) other =
      if units other = units key then (get v other).map f else get v other := by
  cases v with
  | obj fields =>
    simp only [mapMember, get, ← List.map_reverse]
    exact lookup_mapMember key other f fields.reverse
  | _ => exact (ite_self _).symm

theorem trackValue_degrade : TrackValue raw t ↔
    TrackValue (mapMember "category" degradeCategory raw) t ∧
      ∀ s, get raw "category" = some (.str s) → ¬ IsUnknown s := by
  have hget (key : String) := get_mapMember "category" key degradeCategory raw
  constructor
  · intro h
    obtain ⟨fields, rfl⟩ := h.object
    obtain ⟨n, hn⟩ := h.id
    have hknown : ¬ IsUnknown t.category := fun hu => hu.2 (isCategory_iff.mpr h.category.2)
    refine ⟨⟨⟨_, rfl⟩, ⟨n, ?_⟩, ?_, ⟨?_, h.category.2⟩, ?_⟩, ?_⟩
    · rwa [hget, if_neg (by decide)]
    · rw [hget, if_neg (by decide)]
      exact h.slug
    · rw [hget, if_pos rfl, h.category.1, Option.map_some, degradeCategory, if_neg hknown]
    · rw [hget, if_neg (by decide)]
      exact h.label
    · intro s hs
      cases h.category.1.symm.trans hs
      exact hknown
  · rintro ⟨h, hknown⟩
    obtain ⟨n, hn⟩ := h.id
    rw [hget, if_neg (by decide)] at hn
    have hslug := h.slug
    rw [hget, if_neg (by decide)] at hslug
    have hlabel := h.label
    rw [hget, if_neg (by decide)] at hlabel
    refine ⟨get_eq_some hn.1, ⟨n, hn⟩, hslug, ⟨?_, h.category.2⟩, hlabel⟩
    have hcategory := h.category.1
    rw [hget, if_pos rfl] at hcategory
    obtain ⟨w, hw, hstr⟩ := Option.map_eq_some_iff.mp hcategory
    rw [hw]
    cases w with
    | str s =>
      rw [degradeCategory, if_neg (hknown s hw)] at hstr
      rw [hstr]
    | _ => cases hstr

theorem forall₂_degrade : List.Forall₂ TrackValue raws ts ↔
    List.Forall₂ TrackValue (raws.map (mapMember "category" degradeCategory)) ts ∧
      ∀ raw ∈ raws, ∀ s, get raw "category" = some (.str s) → ¬ IsUnknown s := by
  rw [List.forall₂_map_left_iff]
  induction raws generalizing ts with
  | nil => simp
  | cons raw raws ih =>
    cases ts with
    | nil => simp
    | cons t ts =>
      rw [List.forall₂_cons, List.forall₂_cons, List.forall_mem_cons, trackValue_degrade, ih]
      exact and_and_and_comm

theorem tracksOf_degrade : tracksOf v = .ok ts ↔ tracksOf (degrade v) = .ok ts ∧ ¬ HasUnknown v := by
  have hget := get_mapMember "tracks" "tracks" degradeTracks v
  rw [if_pos rfl] at hget
  rw [tracksOf_eq_ok, tracksOf_eq_ok]
  constructor
  · intro h
    obtain ⟨fields, rfl⟩ := h.object
    obtain ⟨raws, hraws, hentries⟩ := h.tracks
    obtain ⟨hdegraded, hknown⟩ := forall₂_degrade.mp hentries
    rw [hraws] at hget
    refine ⟨⟨⟨_, rfl⟩, ⟨_, hget, hdegraded⟩, h.count, h.distinct⟩, ?_⟩
    rintro ⟨raws', hraws', raw, hraw, s, hs, hunknown⟩
    cases hraws.symm.trans hraws'
    exact hknown raw hraw s hs hunknown
  · rintro ⟨h, hknown⟩
    obtain ⟨raws', hraws', hentries⟩ := h.tracks
    obtain ⟨w, hw, harr⟩ := Option.map_eq_some_iff.mp (hget.symm.trans hraws')
    cases w with
    | arr raws =>
      cases harr
      refine ⟨get_eq_some hw, ⟨raws, hw, forall₂_degrade.mpr ⟨hentries, ?_⟩⟩, h.count, h.distinct⟩
      intro raw hraw s hs hunknown
      exact hknown ⟨raws, hw, raw, hraw, s, hs, hunknown⟩
    | _ => cases harr

/-- A track list is accepted if it is with `custom` for the categories that are not known,
and there was none of these. -/
theorem decodeTrackList_degrade (buf : Bytes) (ts : List TrackInfo) :
    decodeTrackList buf = .ok ts ↔
      ∃ v, decodeJson buf = .ok v ∧ tracksOf (degrade v) = .ok ts ∧ ¬ HasUnknown v := by
  rw [decodeTrackList_eq, bind_eq_ok]
  constructor
  · rintro ⟨v, hv, h⟩
    exact ⟨v, hv, tracksOf_degrade.mp h⟩
  · rintro ⟨v, hv, h⟩
    exact ⟨v, hv, tracksOf_degrade.mpr h⟩

/-- A track of a category that came later. -/
def newerTrack (category : String) : Bytes :=
  ascii ("\x7b\"tracks\":[\x7b\"id\":1,\"slug\":\"foo\",\"category\":\"" ++ category ++
    "\",\"label\":\"Foo\"\x7d]\x7d")

def newerValue (category : String) : Value :=
  .obj [(units "tracks", .arr [.obj [(units "id", .num (.fin 1)), (units "slug", .str (units "foo")),
    (units "category", .str (units category)), (units "label", .str (units "Foo"))]])]

theorem synthwave_refused :
    degrade (newerValue "synthwave") = newerValue "custom" ∧
    tracksOf (newerValue "custom") = .ok [⟨.fin 1, units "foo", units "custom", units "Foo"⟩] ∧
    tracksOf (newerValue "synthwave") = .error (bad "track.category") ∧
    (decodeTrackList (newerTrack "custom")).toOption.isSome = true ∧
    (decodeTrackList (newerTrack "synthwave")).toOption.isSome = false := by
  refine ⟨rfl, rfl, rfl, ?_, ?_⟩
  · decide +kernel
  · decide +kernel

end StreamMix.Wire.Ts
