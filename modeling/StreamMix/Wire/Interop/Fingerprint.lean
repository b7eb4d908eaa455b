import StreamMix.Wire.Codec
import StreamMix.Wire.Fields
import StreamMix.Wire.Payloads

/-! FINGERPRINT, the one payload that is no JSON. -/

namespace StreamMix.Wire

open BigEndian (bytes value)
open Js (Number)

namespace Go

structure Fingerprint where
  hash : UInt64
  windowMS : UInt16
  deriving DecidableEq

def encodeFingerprint (f : Fingerprint) : Bytes := putUint64 f.hash ++ putUint16 f.windowMS

def decodeFingerprint (buf : Bytes) : Except ProtocolError Fingerprint :=
  if buf.length ≠ 10 then .error (bad "fingerprint length")
  else .ok ⟨uint64 (slice buf 0 8), uint16 (slice buf 8 10)⟩

/-- The same fingerprint in TypeScript. -/
def Fingerprint.payload (f : Fingerprint) : Ts.FingerprintPayload :=
  ⟨f.hash.toNat, (f.windowMS.toNat : Nat)⟩

end Go

/-- The layout: the hash, then the window. -/
def fingerprintBytes (hash window : Nat) : Bytes := bytes 8 hash ++ bytes 2 window

theorem length_fingerprintBytes (hash window : Nat) :
    (fingerprintBytes hash window).length = 10 := by
  rw [fingerprintBytes, List.length_append, BigEndian.length_bytes, BigEndian.length_bytes]

/-- The numbers that ten bytes hold. -/
def fingerprintOf (buf : Bytes) : Nat × Nat := (value (slice buf 0 8), value (slice buf 8 10))

theorem slices_of_length {buf : Bytes} (h : buf.length = 10) : (slice buf 0 8).length = 8 ∧
    (slice buf 8 10).length = 2 ∧ slice buf 0 8 ++ slice buf 8 10 = buf := by
  have hrest : (buf.drop 8).take 2 = buf.drop 8 := List.take_of_length_le (by simp [h])
  refine ⟨by simp [slice, h], by simp [slice, h], ?_⟩
  simp only [slice, List.drop_zero, Nat.sub_zero, Nat.reduceSub, hrest, List.take_append_drop]

theorem fingerprintBytes_fingerprintOf {buf : Bytes} (h : buf.length = 10) :
    fingerprintBytes (fingerprintOf buf).1 (fingerprintOf buf).2 = buf := by
  obtain ⟨h8, h2, happend⟩ := slices_of_length h
  have hhash := BigEndian.bytes_value (slice buf 0 8)
  have hwindow := BigEndian.bytes_value (slice buf 8 10)
  rw [h8] at hhash
  rw [h2] at hwindow
  rw [fingerprintBytes, fingerprintOf, hhash, hwindow, happend]

theorem fingerprintOf_fingerprintBytes {hash window : Nat} (hh : hash < 2 ^ 64)
    (hw : window < 2 ^ 16) :
    fingerprintOf (fingerprintBytes hash window) = (hash, window) := by
  have hfirst : slice (fingerprintBytes hash window) 0 8 = bytes 8 hash :=
    List.take_left' (BigEndian.length_bytes _ _)
  have hsecond : slice (fingerprintBytes hash window) 8 10 = bytes 2 window := by
    rw [slice, fingerprintBytes, List.drop_left' (BigEndian.length_bytes _ _)]
    exact List.take_of_length_le (BigEndian.length_bytes _ _).le
  rw [fingerprintOf, hfirst, hsecond, BigEndian.value_bytes_of_lt hh,
    BigEndian.value_bytes_of_lt hw]

namespace Go

theorem encodeFingerprint_eq (f : Fingerprint) :
    encodeFingerprint f = fingerprintBytes f.hash.toNat f.windowMS.toNat := by
  rw [encodeFingerprint, putUint64_eq, putUint16_eq, Cpp.writeU64BE_eq, Cpp.writeU16BE_eq]
  rfl

theorem decodeFingerprint_eq_ok : decodeFingerprint buf = .ok f ↔
    buf.length = 10 ∧ fingerprintOf buf = (f.hash.toNat, f.windowMS.toNat) := by
  rw [decodeFingerprint]
  by_cases h : buf.length = 10
  · obtain ⟨h8, h2, -⟩ := slices_of_length h
    rw [if_neg (not_not.mpr h), fingerprintOf, ← toNat_uint64 _ h8, ← toNat_uint16 _ h2]
    obtain ⟨hash, windowMS⟩ := f
    simp [h, UInt64.toNat_inj, UInt16.toNat_inj]
  · simp [h]

theorem decodeFingerprint_iff : decodeFingerprint buf = .ok f ↔ encodeFingerprint f = buf := by
  rw [decodeFingerprint_eq_ok, encodeFingerprint_eq]
  constructor
  · rintro ⟨hlen, hof⟩
    have hback := fingerprintBytes_fingerprintOf hlen
    rwa [hof] at hback
  · rintro rfl
    exact ⟨length_fingerprintBytes .., fingerprintOf_fingerprintBytes f.hash.toNat_lt
      f.windowMS.toNat_lt⟩

end Go

namespace Ts

theorem FingerprintPayload.fits_iff {p : FingerprintPayload} :
    p.Fits ↔ ∃ f : Go.Fingerprint, f.payload = p := by
  constructor
  · rintro ⟨hlow, hhigh, n, hn, hwindow⟩
    refine ⟨⟨UInt64.ofNat p.hash.toNat, UInt16.ofNat n⟩, ?_⟩
    have hhash : p.hash.toNat % 2 ^ 64 = p.hash.toNat := Nat.mod_eq_of_lt (by omega)
    simp only [Go.Fingerprint.payload, UInt64.toNat_ofNat', UInt16.toNat_ofNat', hhash,
      Nat.mod_eq_of_lt hn, Int.toNat_of_nonneg hlow]
    rw [← hwindow]
  · rintro ⟨f, rfl⟩
    have hhash := f.hash.toNat_lt
    exact ⟨by simp [Go.Fingerprint.payload], by simp only [Go.Fingerprint.payload]; omega, _,
      f.windowMS.toNat_lt, rfl⟩

theorem encodeFingerprint_payload (f : Go.Fingerprint) :
    encodeFingerprint f.payload = Go.encodeFingerprint f := by
  have hhash : ((f.hash.toNat : Int) % 2 ^ 64).toNat = f.hash.toNat := by
    have hlt := f.hash.toNat_lt
    omega
  rw [Go.encodeFingerprint_eq, encodeFingerprint, fingerprintBytes]
  simp only [Go.Fingerprint.payload, hhash, Js.natCast_eq, Number.toUint_natCast,
    Nat.mod_eq_of_lt f.windowMS.toNat_lt]

theorem decodeFingerprint_eq_ok {buf : Bytes} : decodeFingerprint buf = .ok p ↔
    ∃ f, Go.decodeFingerprint buf = .ok f ∧ f.payload = p := by
  rw [decodeFingerprint, Go.decodeFingerprint]
  by_cases h : buf.length = 10
  · obtain ⟨h8, h2, -⟩ := slices_of_length h
    have hhash : getUint 8 buf 0 = (Go.uint64 (slice buf 0 8)).toNat :=
      (Go.toNat_uint64 _ h8).symm
    have hwindow : getUint 2 buf 8 = (Go.uint16 (slice buf 8 10)).toNat :=
      (Go.toNat_uint16 _ h2).symm
    rw [if_neg (not_not.mpr h), if_neg (not_not.mpr h), hhash, hwindow]
    simp [Go.Fingerprint.payload]
  · simp [h]

end Ts

/-- Both decoders take the bytes of the encoders and nothing else, and they read the same
fingerprint. -/
theorem fingerprint_interop (buf : Bytes) :
    (∀ f, Go.decodeFingerprint buf = .ok f ↔ Go.encodeFingerprint f = buf) ∧
    (∀ p, Ts.decodeFingerprint buf = .ok p ↔ p.Fits ∧ Ts.encodeFingerprint p = buf) ∧
    ∀ p, Ts.decodeFingerprint buf = .ok p ↔
      ∃ f, Go.decodeFingerprint buf = .ok f ∧ f.payload = p := by
  refine ⟨fun f => Go.decodeFingerprint_iff, fun p => ?_, fun p => Ts.decodeFingerprint_eq_ok⟩
  rw [Ts.decodeFingerprint_eq_ok, Ts.FingerprintPayload.fits_iff]
  constructor
  · rintro ⟨f, hf, rfl⟩
    exact ⟨⟨f, rfl⟩, (Ts.encodeFingerprint_payload f).trans (Go.decodeFingerprint_iff.mp hf)⟩
  · rintro ⟨⟨f, rfl⟩, hbuf⟩
    rw [Ts.encodeFingerprint_payload] at hbuf
    exact ⟨f, Go.decodeFingerprint_iff.mpr hbuf, rfl⟩

end StreamMix.Wire
