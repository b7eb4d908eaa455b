import StreamMix.Wire.Interop.Texts
import StreamMix.Wire.Strict
import StreamMix.Wire.SubTracks

namespace StreamMix.Wire

open Json (Syntax Value)
open Unicode (encode)
open GoJson (goString struct)

/-- The text of a byte slice in Base64. -/
def base64 (bs : Bytes) : List Nat := (Base64.encodeStd bs).map UInt8.toNat

theorem base64_range (bs : Bytes) : ∀ p ∈ base64 bs, 0x2b ≤ p ∧ p < 0x80 ∧ p ≠ 0x5c := by
  intro p hp
  obtain ⟨c, hc, rfl⟩ := List.mem_map.mp hp
  exact Base64.encodeStd_range bs c hc

theorem goString_base64 (bs : Bytes) : goString (base64 bs) = Base64.encodeStd bs := by
  rw [GoJson.goString_of_lt (fun p hp => (base64_range bs p hp).2.1), base64, List.map_map]
  conv_rhs => rw [← List.map_id (Base64.encodeStd bs)]
  exact List.map_congr_left (fun c _ => UInt8.ofNat_toNat)

theorem written_base64 (bs : Bytes) :
    Written (GoJson.bytesText (some bs)) (.str (base64 bs)) := by
  have hshown : ∀ p ∈ base64 bs, Shown (fun p => [p]) p := by
    intro p hp
    obtain ⟨hlow, hhigh, hslash⟩ := base64_range bs p hp
    refine shown_self (scalar_of_lt hhigh) (isPlain_iff.mpr ⟨?_, hslash, by omega⟩) rfl
    simp only [Json.quote]
    omega
  have hwritten := written_quoted hshown
  rw [Unicode.utf16_of_small (fun p hp => (base64_range bs p hp).2.1), Json.quoted,
    List.flatMap_singleton'] at hwritten
  exact hwritten

def subTracksValue : Option Bytes → List (List Nat × Syntax)
  | some bs => [(Ts.units "tracks", .str (base64 bs))]
  | none => [(Ts.units "tracks", .null)]

theorem written_subTracks (tracks : Option Bytes) :
    Written (Json.object [(Ts.units "tracks", GoJson.bytesText tracks)])
      (.obj (subTracksValue tracks)) := by
  cases tracks with
  | none => exact written_object (.cons (written_member (by decide) written_null) .nil)
  | some bs => exact written_object (.cons (written_member (by decide) (written_base64 bs)) .nil)

theorem struct_subTracks (tracks : Option Bytes) :
    struct Go.subTracksFields (.obj (subTracksValue tracks)) ⟨none⟩ = some ⟨tracks⟩ := by
  cases tracks with
  | none => rfl
  | some bs =>
    have hbytes : GoJson.bytes (fun bs _ => (⟨bs⟩ : Go.SubTracks)) (.str (base64 bs)) ⟨none⟩ =
        some ⟨some bs⟩ := by
      rw [GoJson.bytes, goString_base64, Base64.decodeStd_encodeStd]
      rfl
    exact (struct_cons rfl hbytes).trans rfl

/-! The shape of the `tracks` member. -/

end StreamMix.Wire
