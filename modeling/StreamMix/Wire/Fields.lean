import StreamMix.Wire.Codec
import StreamMix.Wire.Messages

/-! What the TypeScript encoders check of the numbers that they write. -/

namespace StreamMix.Wire.Ts

open Js (Number)
open BigEndian (bytes value)

/-- One of the checks of `encodeFrame` throws. -/
def Frame.Refused (g : Frame) : Prop :=
  g.payload.length > maxPayloadBytes ∨ g.track.outside maxTrackSlot = true ∨
    g.flags.outside 0xff = true ∨ g.seq.outside 0xffffffff = true ∨
    g.timestampMs < 0 ∨ g.timestampMs > 0xffffffffffffffff

theorem encodeFrame_error_iff (g : Frame) : (∃ e, encodeFrame g = .error e) ↔ g.Refused := by
  rw [encodeFrame, Frame.Refused]
  split_ifs with hpay htrack hflags hseq hts
  · simp [hpay]
  · simp [htrack]
  · simp [hflags]
  · simp [hseq]
  · simp [hts]
  · simp only [reduceCtorEq, exists_false, hpay, htrack, hflags, hseq, hts, or_self]

/-- The encoder throws, or its bytes decode to the fields it was given. -/
def Frame.Kept (g : Frame) : Prop :=
  (∃ e, encodeFrame g = .error e) ∨ ∃ b, encodeFrame g = .ok b ∧ decodeFrame b = .ok g

theorem integral_of_decodeFrame (h : decodeFrame b = .ok g) : g.Integral := by
  obtain ⟨f, hf, rfl, -⟩ := (decodeFrame_ok_iff g b).mp h
  obtain ⟨m, -, hm⟩ := List.any_eq_true.mp hf.type
  have hnat (n : Nat) : Number.isInteger (n : Nat) = true :=
    (Number.isInteger_iff _).mpr ⟨n, rfl⟩
  exact ⟨⟨m, by rw [eq_of_beq hm]; rfl⟩, hnat _, hnat _, hnat _⟩

theorem Frame.kept_iff (g : Frame) : g.Kept ↔ g.Refused ∨ g.Integral := by
  rw [Frame.Kept, encodeFrame_error_iff]
  constructor
  · rintro (h | ⟨b, -, hb⟩)
    · exact .inl h
    · exact .inr (integral_of_decodeFrame hb)
  · rintro (h | hg)
    · exact .inl h
    · cases hencode : encodeFrame g with
      | error e => exact .inl ((encodeFrame_error_iff g).mp ⟨e, hencode⟩)
      | ok b =>
        have hb := (encodeFrame_ok_iff hg b).mp hencode
        exact .inr ⟨b, rfl, (decodeFrame_ok_iff g b).mpr hb⟩

/-! FINGERPRINT -/

structure FingerprintPayload where
  hash : Int
  windowMs : Number
  deriving DecidableEq

/-- `setBigUint64` and `setUint16` throw on no bigint and on no number. -/
def encodeFingerprint (p : FingerprintPayload) : Bytes :=
  bytes 8 (p.hash % 2 ^ 64).toNat ++ bytes 2 (p.windowMs.toUint 16)

def decodeFingerprint (buf : Bytes) : Except ProtocolError FingerprintPayload :=
  if buf.length ≠ 10 then .error (bad "fingerprint length")
  else .ok ⟨getUint 8 buf 0, (getUint 2 buf 8 : Nat)⟩

theorem toUint_lt (width : Nat) (x : Number) : x.toUint width < 2 ^ width := by
  have hpos : 0 < 2 ^ width := Nat.two_pow_pos width
  cases x with
  | fin q =>
    have hmod := Int.emod_lt_of_pos (if 0 ≤ q then ⌊q⌋ else ⌈q⌉) (b := 2 ^ width) (by positivity)
    have hnonneg := Int.emod_nonneg (if 0 ≤ q then ⌊q⌋ else ⌈q⌉) (b := 2 ^ width) (by positivity)
    rw [Number.toUint]
    zify
    rwa [Int.toNat_of_nonneg hnonneg]
  | nan => exact hpos
  | posInf => exact hpos
  | negInf => exact hpos

/-- What the two fields are reduced to. -/
theorem decodeFingerprint_encodeFingerprint (p : FingerprintPayload) :
    decodeFingerprint (encodeFingerprint p) =
      .ok ⟨p.hash % 2 ^ 64, (p.windowMs.toUint 16 : Nat)⟩ := by
  have hlow := Int.emod_nonneg p.hash (b := 2 ^ 64) (by decide)
  have hhigh := Int.emod_lt_of_pos p.hash (b := 2 ^ 64) (by decide)
  have hhash : (p.hash % 2 ^ 64).toNat < 256 ^ 8 := by omega
  have hwindow : p.windowMs.toUint 16 < 256 ^ 2 := toUint_lt 16 p.windowMs
  have hfirst : slice (encodeFingerprint p) 0 8 = bytes 8 (p.hash % 2 ^ 64).toNat :=
    List.take_left' (BigEndian.length_bytes _ _)
  have hsecond : slice (encodeFingerprint p) 8 10 = bytes 2 (p.windowMs.toUint 16) := by
    rw [slice, encodeFingerprint, List.drop_left' (BigEndian.length_bytes _ _)]
    exact List.take_of_length_le (BigEndian.length_bytes _ _).le
  have hlength : (encodeFingerprint p).length = 10 := by
    rw [encodeFingerprint, List.length_append, BigEndian.length_bytes, BigEndian.length_bytes]
  rw [decodeFingerprint, if_neg (not_not.mpr hlength), getUint, getUint, hfirst, hsecond,
    BigEndian.value_bytes_of_lt hhash, BigEndian.value_bytes_of_lt hwindow,
    Int.toNat_of_nonneg hlow]

def FingerprintPayload.Kept (p : FingerprintPayload) : Prop :=
  decodeFingerprint (encodeFingerprint p) = .ok p

/-- The fields fit the widths that they are written with. -/
def FingerprintPayload.Fits (p : FingerprintPayload) : Prop :=
  0 ≤ p.hash ∧ p.hash < 2 ^ 64 ∧ ∃ n : Nat, n < 2 ^ 16 ∧ p.windowMs = (n : Nat)

theorem FingerprintPayload.kept_iff (p : FingerprintPayload) : p.Kept ↔ p.Fits := by
  rw [Kept, decodeFingerprint_encodeFingerprint, Fits]
  constructor
  · intro h
    obtain ⟨hash, windowMs⟩ := p
    injection h with h
    injection h with hhash hwindow
    have hlow := Int.emod_nonneg hash (b := 2 ^ 64) (by decide)
    have hhigh := Int.emod_lt_of_pos hash (b := 2 ^ 64) (by decide)
    rw [hhash] at hlow hhigh
    exact ⟨hlow, hhigh, _, toUint_lt 16 windowMs, hwindow.symm⟩
  · rintro ⟨hlow, hhigh, n, hn, hwindow⟩
    have htoUint : p.windowMs.toUint 16 = n := by
      rw [hwindow, Js.natCast_eq, Number.toUint_natCast, Nat.mod_eq_of_lt hn]
    rw [Int.emod_eq_of_lt hlow hhigh, htoUint, ← hwindow]

/-- The encoders check the ranges of some fields, the type of none. -/
theorem encoders_kept_iff (g : Frame) (p : FingerprintPayload) :
    (g.Kept ↔ g.Refused ∨ g.Integral) ∧ (p.Kept ↔ p.Fits) :=
  ⟨g.kept_iff, p.kept_iff⟩

/-- A type that the decoder refuses, one that is reduced to another, a fraction, `NaN`, and the
fields of a fingerprint past their widths. -/
theorem encoders_truncate :
    (∃ b, encodeFrame { silence with type := .fin 0x77 } = .ok b ∧
      decodeFrame b = .error ⟨.badType, "unknown message type: 0x77"⟩) ∧
      (encodeFrame silence).bind decodeFrame = .ok silence ∧
      encodeFrame { silence with type := .fin 259 } = encodeFrame silence ∧
      encodeFrame { silence with seq := .fin (15 / 2) } = encodeFrame silence ∧
      encodeFrame { silence with flags := .nan } = encodeFrame silence ∧
      decodeFingerprint (encodeFingerprint ⟨2 ^ 64 + 5, .fin 65536⟩) = .ok ⟨5, .fin 0⟩ := by
  refine ⟨⟨_, rfl, ?_⟩, ?_, ?_, ?_, ?_, ?_⟩ <;> decide +kernel

end StreamMix.Wire.Ts
