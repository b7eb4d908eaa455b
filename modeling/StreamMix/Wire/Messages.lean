import StreamMix.Wire.Header
import StreamMix.Lib.Json
import StreamMix.Lib.Unicode
import Mathlib.Data.List.Forall2
import Mathlib.Tactic.Linarith
import Mathlib.Tactic.SplitIfs

namespace StreamMix.Wire

/-- The bytes of an ASCII string constant. -/
def ascii (s : String) : Bytes := s.toList.map (fun c => UInt8.ofNat c.toNat)

def presetCategories : List String :=
  ["mic", "game", "music", "voicechat", "notifications", "browser", "alerts", "tts"]

def customCategory : String := "custom"

/-- The string a fatal `TextDecoder` makes of bytes in the middle of its input. -/
def jsString (bs : Bytes) : Option (List Nat) := (Unicode.decode bs).map Unicode.utf16

theorem jsString_append {a b : Bytes} (ha : jsString a = some u) (hb : jsString b = some w) :
    jsString (a ++ b) = some (u ++ w) := by
  obtain ⟨ps, hps, rfl⟩ := Option.map_eq_some_iff.mp ha
  obtain ⟨qs, hqs, rfl⟩ := Option.map_eq_some_iff.mp hb
  rw [jsString, Unicode.decode, Unicode.decodeFrom_append hps, hqs, ← Unicode.utf16_append]
  rfl

theorem jsString_ascii {a : Bytes} (ha : Unicode.Ascii a) :
    jsString a = some (a.map UInt8.toNat) := by
  rw [jsString, Unicode.decode_ascii ha, Option.map_some, Unicode.utf16_ascii ha]

theorem length_jsString {a : Bytes} (ha : jsString a = some u) : a.length ≤ 4 * u.length := by
  obtain ⟨ps, hps, rfl⟩ := Option.map_eq_some_iff.mp ha
  have := Unicode.length_decode hps
  have := Unicode.length_utf16 ps
  omega

theorem bind_eq_ok {x : Except ε α} {f : α → Except ε β} :
    (x >>= f) = .ok b ↔ ∃ a, x = .ok a ∧ f a = .ok b := by
  constructor
  · intro h
    cases x with
    | error e => cases h
    | ok a => exact ⟨a, rfl, h⟩
  · rintro ⟨a, rfl, h⟩
    exact h

theorem reject_eq_ok {c : Prop} [Decidable c] {x : Except ε α} :
    (if c then .error e else x) = .ok a ↔ ¬ c ∧ x = .ok a := by
  split_ifs with h <;> simp [h]

namespace Cpp

def dash : UInt8 := 0x2d

def isSlugChar (c : UInt8) : Bool := (0x61 ≤ c && c ≤ 0x7a) || (0x30 ≤ c && c ≤ 0x39)

def isPresetCategory (s : Bytes) : Bool := presetCategories.any (fun c => ascii c == s)

/-- The loop of `IsValidSlug`, with `prev_dash`. -/
def scanSlug : Bool → Bytes → Bool
  | _, [] => true
  | prevDash, c :: s =>
    if c = dash then !prevDash && scanSlug true s
    else isSlugChar c && scanSlug false s

def isValidSlug (s : Bytes) : Bool :=
  if s.isEmpty || s.length > 64 then false
  else if s.head? = some dash || s.getLast? = some dash then false
  else scanSlug false s

end Cpp

namespace Ts

open Js (Number)
open Json (Value)

def units (s : String) : List Nat := (ascii s).map UInt8.toNat

def isPresetCategory (s : List Nat) : Bool := presetCategories.any (fun c => units c == s)

def isSlugUnit (c : Nat) : Bool := (0x61 ≤ c && c ≤ 0x7a) || (0x30 ≤ c && c ≤ 0x39)

/-- A match of `[a-z0-9]*(?:-[a-z0-9]+)*$` inside a segment, or of the expression from the
start of one. -/
def slugRe : Bool → List Nat → Bool
  | inside, [] => inside
  | inside, c :: s =>
    if isSlugUnit c then slugRe true s
    else if c = 0x2d then inside && slugRe false s
    else false

def isValidSlug (s : List Nat) : Bool := 1 ≤ s.length && s.length ≤ 64 && slugRe false s

structure TrackInfo where
  id : Number
  slug : List Nat
  category : List Nat
  label : List Nat

def maxJsonBytes : Nat := 4096

def bad (detail : String) : ProtocolError := ⟨.badPayload, "malformed payload: " ++ detail⟩

/-- An own property; none of the keys read here is one of `Object.prototype`. -/
def get (v : Value) (key : String) : Option Value :=
  match v with
  | .obj fields => fields.reverse.lookup (units key)
  | _ => none

def decodeJson (buf : Bytes) : Except ProtocolError Value :=
  if buf.length > maxJsonBytes then
    .error ⟨.tooLarge, "json payload too large: " ++ toString buf.length⟩
  else
    match (Unicode.decode buf).bind (fun ps => Json.parse (Unicode.utf16 (Unicode.stripMark ps))) with
    | none => .error ⟨.badPayload, "invalid json or utf-8"⟩
    | some (.obj fields) => .ok (.obj fields)
    | some _ => .error ⟨.badPayload, "payload must be a json object"⟩

/-- No byte order mark stands before a brace. -/
theorem bind_stripMark (bs : Bytes) (f : List Nat → Option α) :
    (Unicode.decode (0x7b :: bs)).bind (fun ps => f (Unicode.utf16 (Unicode.stripMark ps))) =
      (jsString (0x7b :: bs)).bind f := by
  have hdecode : Unicode.decode (0x7b :: bs) = (Unicode.decode bs).map (0x7b :: ·) := rfl
  rw [jsString, hdecode]
  cases Unicode.decode bs <;> rfl

theorem decodeJson_eq_ok {bs : Bytes} (h : decodeJson (0x7b :: bs) = .ok v) :
    ∃ fields, (jsString (0x7b :: bs)).bind Json.parse = some (.obj fields) ∧ v = .obj fields := by
  simp only [decodeJson, bind_stripMark] at h
  split_ifs at h
  split at h
  · cases h
  · next fields heq =>
    cases h
    exact ⟨fields, heq, rfl⟩
  · cases h

theorem decodeJson_of_parse {bs : Bytes} (hlen : (0x7b :: bs).length ≤ maxJsonBytes)
    (h : (jsString (0x7b :: bs)).bind Json.parse = some (.obj fields)) :
    decodeJson (0x7b :: bs) = .ok (.obj fields) := by
  rw [decodeJson, if_neg (Nat.not_lt.mpr hlen), bind_stripMark, h]

def strField (v : Value) (key : String) (maxLen : Nat) : Except ProtocolError (List Nat) :=
  match get v key with
  | some (.str s) =>
    if s.length > maxLen then .error (bad ("field " ++ key ++ " too long")) else .ok s
  | _ => .error (bad ("field " ++ key ++ " must be string"))

/-- `Number.isInteger(id) && id >= 1 && id <= MAX_TRACK_SLOT`. -/
def trackId : Option Value → Option ℚ
  | some (.num (.fin q)) => if q.den = 1 ∧ 1 ≤ q ∧ q ≤ maxTrackSlot then some q else none
  | _ => none

def isObject : Value → Bool
  | .obj _ | .arr _ => true
  | _ => false

def decodeTrack (seen : List ℚ) (raw : Value) : Except ProtocolError (ℚ × TrackInfo) :=
  if !isObject raw then .error (bad "track entry")
  else
    match trackId (get raw "id") with
    | none => .error (bad "track.id")
    | some id =>
      if seen.contains id then .error (bad "track.id duplicate")
      else do
        let slug ← strField raw "slug" 64
        if !isValidSlug slug then .error (bad "track.slug format")
        else do
          let category ← strField raw "category" 32
          if category ≠ units customCategory && !isPresetCategory category then
            .error (bad "track.category")
          else do
            let label ← strField raw "label" 64
            return (id, ⟨.fin id, slug, category, label⟩)

def decodeTracks (seen : List ℚ) : List Value → Except ProtocolError (List TrackInfo)
  | [] => .ok []
  | raw :: raws => do
    let (id, track) ← decodeTrack seen raw
    let tracks ← decodeTracks (id :: seen) raws
    return track :: tracks

def decodeTrackList (buf : Bytes) : Except ProtocolError (List TrackInfo) := do
  let obj ← decodeJson buf
  match get obj "tracks" with
  | some (.arr raws) =>
    if raws.length > maxTrackSlot then .error (bad "track_list too many tracks")
    else decodeTracks [] raws
  | _ => .error (bad "track_list.tracks")

/-! What the checks of a track list pass. -/

theorem get_eq_some (h : get v key = some w) : ∃ fields, v = .obj fields := by
  cases v with
  | obj fields => exact ⟨fields, rfl⟩
  | _ => cases h

theorem mem_of_get (h : get (.obj fields) key = some v) : (units key, v) ∈ fields := by
  obtain ⟨l₁, l₂, heq, -⟩ := List.lookup_eq_some_iff.mp h
  rw [← List.mem_reverse, heq]
  exact List.mem_append_right _ List.mem_cons_self

theorem strField_eq_ok : strField v key m = .ok s ↔ get v key = some (.str s) ∧ s.length ≤ m := by
  constructor
  · intro h
    simp only [strField] at h
    split at h
    · next t heq =>
      split_ifs at h with hlen
      cases h
      exact ⟨heq, Nat.le_of_not_lt hlen⟩
    · cases h
  · rintro ⟨hget, hlen⟩
    rw [strField, hget]
    exact if_neg (Nat.not_lt.mpr hlen)

theorem trackId_eq_some : trackId v = some q ↔
    v = some (.num (.fin q)) ∧ ∃ n : Nat, q = n ∧ 1 ≤ n ∧ n ≤ maxTrackSlot := by
  have hrange : (q.den = 1 ∧ 1 ≤ q ∧ q ≤ maxTrackSlot) ↔
      ∃ n : Nat, q = n ∧ 1 ≤ n ∧ n ≤ maxTrackSlot := by
    constructor
    · rintro ⟨hden, hlow, hhigh⟩
      have hint : ((q.num.toNat : Nat) : ℚ) = q := by
        have hnum : 0 ≤ q.num := Rat.num_nonneg.mpr (by linarith)
        conv_rhs => rw [← Rat.coe_int_num_of_den_eq_one hden]
        exact_mod_cast Int.toNat_of_nonneg hnum
      rw [← hint] at hlow hhigh
      exact ⟨_, hint.symm, by exact_mod_cast hlow, by exact_mod_cast hhigh⟩
    · rintro ⟨n, rfl, hlow, hhigh⟩
      exact ⟨Rat.den_natCast n, by exact_mod_cast hlow, by exact_mod_cast hhigh⟩
  rw [← hrange, trackId.eq_def]
  split
  · next p =>
    split_ifs with hp
    · constructor
      · rintro ⟨⟩
        exact ⟨rfl, hp⟩
      · rintro ⟨⟨⟩, -⟩
        rfl
    · constructor
      · nofun
      · rintro ⟨⟨⟩, hq⟩
        exact absurd hq hp
  · next hne =>
    constructor
    · nofun
    · rintro ⟨rfl, -⟩
      exact absurd rfl (hne q)

def IsCategory (s : List Nat) : Prop := s = units customCategory ∨ isPresetCategory s = true

theorem IsCategory.length_le (h : IsCategory s) : s.length ≤ 32 := by
  obtain rfl | h := h
  · decide
  · obtain ⟨c, hc, heq⟩ := List.any_eq_true.mp h
    rw [← eq_of_beq heq]
    have hall : ∀ c ∈ presetCategories, (units c).length ≤ 32 := by decide
    exact hall c hc

structure TrackInfo.Checked (t : TrackInfo) : Prop where
  id : ∃ n : Nat, t.id = .fin n ∧ 1 ≤ n ∧ n ≤ maxTrackSlot
  slug : isValidSlug t.slug = true
  category : IsCategory t.category
  label : t.label.length ≤ 64

/-- The entry passes every check of its own, and this is its track. -/
structure Entry (raw : Value) (t : TrackInfo) : Prop extends TrackInfo.Checked t where
  get_id : get raw "id" = some (.num t.id)
  get_slug : get raw "slug" = some (.str t.slug)
  get_category : get raw "category" = some (.str t.category)
  get_label : get raw "label" = some (.str t.label)

theorem length_of_isValidSlug (h : isValidSlug s = true) : s.length ≤ 64 := by
  simp only [isValidSlug, Bool.and_eq_true, decide_eq_true_eq] at h
  exact h.1.2

theorem decodeTrack_eq_ok : decodeTrack seen raw = .ok (q, t) ↔
    Entry raw t ∧ t.id = .fin q ∧ q ∉ seen := by
  constructor
  · intro h
    simp only [decodeTrack] at h
    split_ifs at h with hobj
    split at h
    · cases h
    · next id hid =>
      split_ifs at h with hseen
      obtain ⟨slug, hslug, h⟩ := bind_eq_ok.mp h
      split_ifs at h with hvalid
      obtain ⟨category, hcategory, h⟩ := bind_eq_ok.mp h
      split_ifs at h with hcat
      obtain ⟨label, hlabel, h⟩ := bind_eq_ok.mp h
      cases h
      obtain ⟨hget, n, rfl, hrange⟩ := trackId_eq_some.mp hid
      refine ⟨⟨⟨⟨n, rfl, hrange⟩, by simpa using hvalid, ?_, (strField_eq_ok.mp hlabel).2⟩, hget,
        (strField_eq_ok.mp hslug).1, (strField_eq_ok.mp hcategory).1,
        (strField_eq_ok.mp hlabel).1⟩, rfl, by simpa using hseen⟩
      rw [IsCategory]
      by_contra hnot
      rw [not_or] at hnot
      exact hcat (by simp [hnot])
  · rintro ⟨h, hq, hseen⟩
    obtain ⟨n, hn, hrange⟩ := h.id
    obtain ⟨fields, rfl⟩ := get_eq_some h.get_id
    have hid : trackId (get (.obj fields) "id") = some q :=
      trackId_eq_some.mpr ⟨by rw [h.get_id, hq], n, Js.Number.fin_injective (hq.symm.trans hn), hrange⟩
    have hslug := strField_eq_ok.mpr ⟨h.get_slug, length_of_isValidSlug h.slug⟩
    have hcategory := strField_eq_ok.mpr ⟨h.get_category, h.category.length_le⟩
    have hlabel := strField_eq_ok.mpr ⟨h.get_label, h.label⟩
    have hcheck : (decide (t.category ≠ units customCategory) && !isPresetCategory t.category) =
        false := by
      obtain hc | hc := h.category <;> simp [hc]
    have hcontains : seen.contains q = false := by simpa using hseen
    simp only [decodeTrack, isObject, hid, hcontains, hslug, hcategory, hlabel, h.slug, hcheck, bind,
      Except.bind, ← hq]
    rfl

theorem decodeTracks_eq_ok : decodeTracks seen raws = .ok ts ↔
    List.Forall₂ Entry raws ts ∧ (ts.map TrackInfo.id).Nodup ∧
      ∀ t ∈ ts, ∀ q ∈ seen, t.id ≠ .fin q := by
  induction raws generalizing seen ts with
  | nil =>
    rw [List.forall₂_nil_left_iff]
    constructor
    · rintro ⟨⟩
      exact ⟨rfl, .nil, nofun⟩
    · rintro ⟨rfl, -⟩
      rfl
  | cons raw raws ih =>
    constructor
    · intro h
      obtain ⟨⟨q, t⟩, hhead, h⟩ := bind_eq_ok.mp h
      obtain ⟨rest, htail, h⟩ := bind_eq_ok.mp h
      cases h
      obtain ⟨hentry, hq, hseen⟩ := decodeTrack_eq_ok.mp hhead
      obtain ⟨hentries, hnodup, hfresh⟩ := ih.mp htail
      refine ⟨.cons hentry hentries, ?_, ?_⟩
      · rw [List.map_cons, List.nodup_cons, hq]
        refine ⟨fun hmem => ?_, hnodup⟩
        obtain ⟨u, hu, heq⟩ := List.mem_map.mp hmem
        exact hfresh u hu q (.head _) heq
      · intro u hu p hp heq
        cases hu with
        | head => exact hseen (Js.Number.fin_injective (hq.symm.trans heq) ▸ hp)
        | tail _ hu => exact hfresh u hu p (.tail _ hp) heq
    · rintro ⟨h, hnodup, hfresh⟩
      cases h with
      | @cons _ t _ ts hentry hentries =>
        obtain ⟨n, hn, -⟩ := hentry.id
        rw [List.map_cons, List.nodup_cons] at hnodup
        have hhead := decodeTrack_eq_ok.mpr
          ⟨hentry, hn, fun hmem => hfresh t (.head _) _ hmem hn⟩
        have hrest : ∀ u ∈ ts, ∀ p ∈ (n : ℚ) :: seen, u.id ≠ .fin p := by
          intro u hu p hp heq
          cases hp with
          | head => exact hnodup.1 (hn ▸ heq ▸ List.mem_map_of_mem hu)
          | tail _ hp => exact hfresh u (.tail _ hu) p hp heq
        have htail := ih.mpr ⟨hentries, hnodup.2, hrest⟩
        rw [decodeTracks, hhead]
        simp only [bind, Except.bind, htail]
        rfl

theorem decodeTrackList_eq_ok : decodeTrackList buf = .ok ts ↔
    ∃ v raws, decodeJson buf = .ok v ∧ get v "tracks" = some (.arr raws) ∧
      List.Forall₂ Entry raws ts ∧ (ts.map TrackInfo.id).Nodup ∧ ts.length ≤ maxTrackSlot := by
  simp only [decodeTrackList, bind_eq_ok]
  constructor
  · rintro ⟨v, hv, h⟩
    split at h
    · next raws hraws =>
      rw [reject_eq_ok, decodeTracks_eq_ok] at h
      obtain ⟨hlen, hentries, hnodup, -⟩ := h
      exact ⟨v, raws, hv, hraws, hentries, hnodup, by rw [← hentries.length_eq]; omega⟩
    · cases h
  · rintro ⟨v, raws, hv, hraws, hentries, hnodup, hlen⟩
    rw [← hentries.length_eq] at hlen
    refine ⟨v, hv, ?_⟩
    rw [hraws]
    exact reject_eq_ok.mpr
      ⟨Nat.not_lt.mpr hlen, decodeTracks_eq_ok.mpr ⟨hentries, hnodup, fun _ _ => nofun⟩⟩

end Ts

end StreamMix.Wire
