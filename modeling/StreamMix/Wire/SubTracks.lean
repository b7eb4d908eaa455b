import StreamMix.Wire.Checks

namespace StreamMix.Wire

namespace Ts

open Js (Number)
open Json (Value)

def encodeSubTracks (tracks : List Number) : Except ProtocolError Bytes :=
  encodeJson (Json.object [(units "tracks", Json.array (tracks.map numberText))])

/-- The loop over the ids, with `seen`. -/
def decodeIds (seen : List ℚ) : List Value → Except ProtocolError (List Number)
  | [] => .ok []
  | raw :: raws =>
    match trackId (some raw) with
    | none => .error (bad "sub_tracks.id")
    | some id =>
      if seen.contains id then .error (bad "sub_tracks.id duplicate")
      else do
        let tracks ← decodeIds (id :: seen) raws
        return .fin id :: tracks

def decodeSubTracks (buf : Bytes) : Except ProtocolError (List Number) := do
  let obj ← decodeJson buf
  match get obj "tracks" with
  | some (.arr raws) =>
    if raws.length > maxTrackSlot then .error (bad "sub_tracks too many")
    else decodeIds [] raws
  | _ => .error (bad "sub_tracks")

def IsTrackId (x : Number) : Prop := ∃ n : Nat, x = .fin n ∧ 1 ≤ n ∧ n ≤ maxTrackSlot

structure CheckedIds (tracks : List Number) : Prop where
  each : ∀ x ∈ tracks, IsTrackId x
  nodup : tracks.Nodup
  count : tracks.length ≤ maxTrackSlot

theorem decodeIds_eq_ok : decodeIds seen raws = .ok tracks ↔
    raws = tracks.map .num ∧ (∀ x ∈ tracks, IsTrackId x) ∧ tracks.Nodup ∧
      ∀ x ∈ tracks, ∀ q ∈ seen, x ≠ .fin q := by
  induction raws generalizing seen tracks with
  | nil =>
    rw [decodeIds, eq_comm (a := []), List.map_eq_nil_iff]
    constructor
    · rintro ⟨⟩
      simp
    · rintro ⟨rfl, -⟩
      rfl
  | cons raw raws ih =>
    rw [decodeIds]
    constructor
    · intro h
      split at h
      · cases h
      · next q hid =>
        obtain ⟨hraw, hrange⟩ := trackId_eq_some.mp hid
        cases hraw
        rw [reject_eq_ok] at h
        obtain ⟨hseen, h⟩ := h
        obtain ⟨rest, hrest, h⟩ := bind_eq_ok.mp h
        cases h
        obtain ⟨rfl, heach, hnodup, hfresh⟩ := ih.mp hrest
        refine ⟨rfl, ?_, ?_, ?_⟩
        · obtain ⟨n, rfl, hn⟩ := hrange
          exact List.forall_mem_cons.mpr ⟨⟨n, rfl, hn⟩, heach⟩
        · exact List.nodup_cons.mpr ⟨fun hmem => hfresh _ hmem q (.head _) rfl, hnodup⟩
        · intro x hx p hp heq
          cases hx with
          | head =>
            cases heq
            exact hseen (by simpa using hp)
          | tail _ hx => exact hfresh x hx p (.tail _ hp) heq
    · rintro ⟨hraws, heach, hnodup, hfresh⟩
      cases tracks with
      | nil => cases hraws
      | cons x tracks =>
        cases hraws
        obtain ⟨hx, htail⟩ := List.forall_mem_cons.mp heach
        obtain ⟨n, rfl, hn⟩ := hx
        obtain ⟨hnew, hnodup⟩ := List.nodup_cons.mp hnodup
        have hid : trackId (some (.num (.fin (n : ℚ)))) = some (n : ℚ) :=
          trackId_eq_some.mpr ⟨rfl, n, rfl, hn⟩
        have hseen : seen.contains (n : ℚ) = false := by
          simpa using fun hmem => hfresh _ (.head _) n hmem rfl
        have hrest : decodeIds ((n : ℚ) :: seen) (tracks.map .num) = .ok tracks := by
          refine ih.mpr ⟨rfl, htail, hnodup, ?_⟩
          intro y hy p hp heq
          cases hp with
          | head => exact hnew (heq ▸ hy)
          | tail _ hp => exact hfresh y (.tail _ hy) p hp heq
        rw [hid]
        simp only [hseen, hrest, bind, Except.bind]
        rfl

theorem decodeSubTracks_eq_ok : decodeSubTracks buf = .ok tracks ↔
    ∃ v, decodeJson buf = .ok v ∧ get v "tracks" = some (.arr (tracks.map .num)) ∧
      CheckedIds tracks := by
  simp only [decodeSubTracks, bind_eq_ok]
  constructor
  · rintro ⟨v, hv, h⟩
    split at h
    · next raws hraws =>
      rw [reject_eq_ok, decodeIds_eq_ok] at h
      obtain ⟨hlen, rfl, heach, hnodup, -⟩ := h
      rw [List.length_map] at hlen
      exact ⟨v, hv, hraws, heach, hnodup, Nat.le_of_not_lt hlen⟩
    · cases h
  · rintro ⟨v, hv, hraws, heach, hnodup, hcount⟩
    refine ⟨v, hv, ?_⟩
    rw [hraws]
    exact reject_eq_ok.mpr ⟨by rw [List.length_map]; exact Nat.not_lt.mpr hcount,
      decodeIds_eq_ok.mpr ⟨rfl, heach, hnodup, by simp⟩⟩

end Ts

namespace Go

open GoJson (Decoder struct)

/-- `none` is the nil slice. -/
structure SubTracks where
  tracks : Option Bytes
  deriving DecidableEq

def subTracksFields : List (List Nat × Decoder SubTracks) :=
  [(Ts.units "tracks", GoJson.bytes (fun bs _ => ⟨bs⟩))]

def encodeSubTracks (s : SubTracks) : Except ProtocolError Bytes :=
  encJSON (Json.object [(Ts.units "tracks", GoJson.bytesText s.tracks)])

/-- The loop over the ids, with `seen`. -/
def checkIds (seen : Bytes) : Bytes → Except ProtocolError Unit
  | [] => .ok ()
  | id :: ids =>
    if id < 1 ∨ id.toNat > maxTrackSlot then .error (bad "sub_tracks.id")
    else if seen.contains id then .error (bad "sub_tracks.id duplicate")
    else checkIds (id :: seen) ids

def decodeSubTracks (buf : Bytes) : Except ProtocolError SubTracks := do
  let s ← decJSON buf (struct subTracksFields) ⟨none⟩
  if (s.tracks.getD []).length > maxTrackSlot then .error (bad "sub_tracks too many")
  else do
    checkIds [] (s.tracks.getD [])
    return s

structure SubTracks.Checked (s : SubTracks) : Prop where
  each : ∀ id ∈ s.tracks.getD [], 1 ≤ id.toNat ∧ id.toNat ≤ maxTrackSlot
  nodup : (s.tracks.getD []).Nodup
  count : (s.tracks.getD []).length ≤ maxTrackSlot

theorem checkIds_eq_ok : checkIds seen ids = .ok () ↔
    (∀ id ∈ ids, 1 ≤ id.toNat ∧ id.toNat ≤ maxTrackSlot) ∧ ids.Nodup ∧ ∀ id ∈ ids, id ∉ seen := by
  induction ids generalizing seen with
  | nil => simp [checkIds]
  | cons id ids ih =>
    have hlow : id < 1 ↔ ¬ 1 ≤ id.toNat := by
      rw [UInt8.lt_iff_toNat_lt]
      exact Nat.not_le.symm
    simp only [checkIds, reject_eq_ok, ih, List.forall_mem_cons, List.nodup_cons, hlow]
    constructor
    · rintro ⟨hrange, hseen, heach, hnodup, hfresh⟩
      refine ⟨⟨by omega, heach⟩, ⟨fun hmem => hfresh id hmem (.head _), hnodup⟩,
        by simpa using hseen, fun i hi hmem => hfresh i hi (.tail _ hmem)⟩
    · rintro ⟨⟨hrange, heach⟩, ⟨hnew, hnodup⟩, hseen, hfresh⟩
      refine ⟨by omega, by simpa using hseen, heach, hnodup, fun i hi hmem => ?_⟩
      obtain rfl | hmem := List.mem_cons.mp hmem
      · exact hnew hi
      · exact hfresh i hi hmem

theorem decodeSubTracks_eq_ok : decodeSubTracks buf = .ok s ↔
    decJSON buf (struct subTracksFields) ⟨none⟩ = .ok s ∧ s.Checked := by
  simp only [decodeSubTracks, bind_eq_ok, reject_eq_ok, not_lt]
  constructor
  · rintro ⟨s, hdec, hcount, _, hids, ⟨⟩⟩
    obtain ⟨heach, hnodup, -⟩ := checkIds_eq_ok.mp hids
    exact ⟨hdec, heach, hnodup, hcount⟩
  · rintro ⟨hdec, heach, hnodup, hcount⟩
    exact ⟨s, hdec, hcount, (), checkIds_eq_ok.mpr ⟨heach, hnodup, by simp⟩, rfl⟩

end Go

end StreamMix.Wire
