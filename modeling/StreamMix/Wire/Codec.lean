import StreamMix.Wire.Layout

/-! Encoding and decoding as inverses of each other, in the three languages. -/

namespace StreamMix.Wire

open BigEndian (value bytes bytes_value)
open Js (Number)

theorem slice_append (input : Bytes) (hij : i ≤ j) :
    slice input i j ++ input.drop j = input.drop i := by
  have hdrop : input.drop j = (input.drop i).drop (j - i) := by
    rw [List.drop_drop, Nat.add_sub_cancel' hij]
  rw [slice, hdrop, List.take_append_drop]

theorem magicMatches_iff (input : Bytes) (h : 4 ≤ input.length) :
    magicMatches input = true ↔ input.take 4 = magic := by
  match input, h with
  | a :: b :: c :: d :: rest, _ => simp [magicMatches, magic, List.range_succ]

theorem drop_four (input : Bytes) (h : 7 ≤ input.length) :
    input.drop 4 = [input.getD 4 0, input.getD 5 0, input.getD 6 0] ++ input.drop 7 := by
  match input, h with
  | _ :: _ :: _ :: _ :: _ :: _ :: _ :: rest, _ => rfl

/-- A byte string is the header fields one after the other and the rest. -/
theorem fields_append (input : Bytes) (h : headerBytes ≤ input.length) :
    input.take 4 ++ ([input.getD 4 0, input.getD 5 0, input.getD 6 0] ++ (slice input 7 9 ++
      (slice input 9 13 ++ (slice input 13 21 ++ input.drop headerBytes)))) = input := by
  have hlong : 21 ≤ input.length := h
  rw [headerBytes, slice_append input (by decide), slice_append input (by decide),
    slice_append input (by decide), ← drop_four input (by omega), List.take_append_drop]

/-- What parses is the layout of a valid frame: no second byte string denotes it. -/
theorem parse_ok (h : parse input = .ok v) :
    ∃ f : Frame, f.Valid ∧ input = f.layout ∧ v = f.view := by
  simp only [parse] at h
  split_ifs at h with hshort hmagic hlarge hlen htrack htype
  have hlong : 21 ≤ input.length := by simpa [headerBytes] using hshort
  have hmagic : input.take 4 = magic := by
    apply (magicMatches_iff input (by omega)).mp
    simpa using hmagic
  have hlen : headerBytes + value (slice input 7 9) = input.length := by simpa using hlen
  have hpay : slice input headerBytes input.length = input.drop headerBytes := by
    rw [slice, List.take_of_length_le (by rw [List.length_drop])]
  have hpayLen : (input.drop headerBytes).length = value (slice input 7 9) := by
    rw [List.length_drop]
    omega
  have hseq := BigEndian.value_lt (slice input 9 13)
  have hts := BigEndian.value_lt (slice input 13 21)
  have hw16 := bytes_value (slice input 7 9)
  have hw32 := bytes_value (slice input 9 13)
  have hw64 := bytes_value (slice input 13 21)
  rw [length_slice input (by omega)] at hseq hts hw16 hw32 hw64
  have hseq : (UInt32.ofNat (value (slice input 9 13))).toNat = value (slice input 9 13) :=
    UInt32.toNat_ofNat_of_lt' hseq
  have hts : (UInt64.ofNat (value (slice input 13 21))).toNat = value (slice input 13 21) :=
    UInt64.toNat_ofNat_of_lt' hts
  refine ⟨⟨input.getD 4 0, input.getD 5 0, input.getD 6 0, .ofNat (value (slice input 9 13)),
    .ofNat (value (slice input 13 21)), input.drop headerBytes⟩, ⟨?_, ?_, ?_⟩, ?_, ?_⟩
  · rw [hpayLen]
    exact Nat.not_lt.mp hlarge
  · exact Nat.not_lt.mp htrack
  · simpa using htype
  · simp only [Frame.layout, hpayLen, hseq, hts, hw16, hw32, hw64, List.append_assoc, ← hmagic]
    exact (fields_append input hlong).symm
  · cases h
    rw [Frame.view, hseq, hts, hlen, hpay]

/-- The fields can be read off the layout of any frame, valid or not. -/
theorem Frame.view_eq (f : Frame) : f.view = {
    type := (f.layout.getD 4 0).toNat
    track := (f.layout.getD 5 0).toNat
    flags := (f.layout.getD 6 0).toNat
    seq := value (slice f.layout 9 13)
    timestampMs := value (slice f.layout 13 21)
    payload := f.layout.drop headerBytes } := by
  obtain ⟨_, h32, h64, hpay⟩ := f.slice_layout
  have hseq : value (bytes 4 f.seq.toNat) = f.seq.toNat :=
    BigEndian.value_bytes_of_lt f.seq.toNat_lt
  have hts : value (bytes 8 f.timestampMs.toNat) = f.timestampMs.toNat :=
    BigEndian.value_bytes_of_lt f.timestampMs.toNat_lt
  rw [h32, h64, hpay, hseq, hts]
  rfl

theorem Frame.layout_injective : Function.Injective Frame.layout := by
  intro f g h
  apply Frame.view_injective
  rw [f.view_eq, g.view_eq, h]

/-- A decoder that implements `parse` accepts the layouts of the valid frames, each as
its frame. -/
theorem decode_ok_iff {decode : Bytes → Except ProtocolError Frame}
    (hdecode : ∀ input, (outcome (decode input)).map Frame.view = parse input) (f : Frame)
    (b : Bytes) : decode b = .ok f ↔ f.Valid ∧ b = f.layout := by
  have hb := hdecode b
  constructor
  · intro h
    rw [h] at hb
    obtain ⟨g, hg, hlayout, hview⟩ := parse_ok hb.symm
    cases Frame.view_injective hview
    exact ⟨hg, hlayout⟩
  · rintro ⟨hf, rfl⟩
    rw [f.parse_layout hf] at hb
    cases hd : decode f.layout with
    | error e =>
      rw [hd] at hb
      cases hb
    | ok g =>
      rw [hd] at hb
      rw [Frame.view_injective (Except.ok.inj hb)]

theorem outcome_eq_ok {r : Except ProtocolError α} : outcome r = .ok a ↔ r = .ok a := by
  cases r <;> simp

namespace Go

theorem putUint16_eq (v : UInt16) : putUint16 v = Cpp.writeU16BE v := by
  simp only [putUint16, Cpp.writeU16BE]
  congr 1 <;> simp [← UInt8.toNat_inj, and_255]

theorem putUint32_eq (v : UInt32) : putUint32 v = Cpp.writeU32BE v := by
  have hlow (w : UInt32) : (w &&& 0xff).toUInt8 = w.toUInt8 := by
    simp [← UInt8.toNat_inj, and_255]
  simp only [putUint32, Cpp.writeU32BE, hlow]

theorem length_putUint64 (v : UInt64) : (putUint64 v).length = 8 := rfl

theorem putUint64_eq (v : UInt64) : putUint64 v = Cpp.writeU64BE v := by
  have hlow (w : UInt64) : (w &&& 0xff).toUInt8 = w.toUInt8 := by
    simp [← UInt8.toNat_inj, and_255]
  simp [putUint64, Cpp.writeU64BE, hlow]

/-- The Go and the C++ encoder differ in the texts of their errors only. -/
theorem outcome_encodeFrame (f : Frame) :
    outcome (Go.encodeFrame f) = outcome (Cpp.encodeFrame f) := by
  simp only [Go.encodeFrame, Cpp.encodeFrame, putUint16_eq, putUint32_eq, putUint64_eq]
  split_ifs <;> rfl

theorem encodeFrame_ok_iff (f : Frame) (b : Bytes) :
    Go.encodeFrame f = .ok b ↔ f.Valid ∧ b = f.layout := by
  rw [← Cpp.encodeFrame_ok_iff, ← outcome_eq_ok, outcome_encodeFrame, outcome_eq_ok]

end Go

namespace Ts

/-- A frame of the interface `Frame`, with a member of the enumeration for its type and
integers in the other fields. -/
structure Frame.Integral (g : Frame) : Prop where
  type : ∃ m : MessageType, g.type = (m.code.toNat : Nat)
  track : g.track.isInteger = true
  flags : g.flags.isInteger = true
  seq : g.seq.isInteger = true

theorem bytes_one (b : UInt8) : bytes 1 (b.toNat % 2 ^ 8) = [b] := by
  have hb := b.toNat_lt
  simp [bytes]

/-- The fields of a frame that the wire carries fit. -/
theorem encodeFrame_view (f : Wire.Frame) (h : f.Valid) :
    Ts.encodeFrame f.view.toTs = .ok f.layout := by
  have hflags : f.flags.toNat ≤ 0xff := by
    have := f.flags.toNat_lt
    omega
  have hseq : f.seq.toNat ≤ 0xffffffff := by
    have := f.seq.toNat_lt
    omega
  have hts := f.timestampMs.toNat_lt
  have hmod : ((f.timestampMs.toNat : Int) % 2 ^ 64).toNat = f.timestampMs.toNat := by omega
  have hseqMod : f.seq.toNat % 2 ^ 32 = f.seq.toNat := Nat.mod_eq_of_lt f.seq.toNat_lt
  have htrack : ¬ Number.outside maxTrackSlot f.view.toTs.track = true :=
    Bool.eq_false_iff.mp (Number.outside_natCast h.track)
  have hflags : ¬ Number.outside 0xff f.view.toTs.flags = true :=
    Bool.eq_false_iff.mp (Number.outside_natCast hflags)
  have hseq : ¬ Number.outside 0xffffffff f.view.toTs.seq = true :=
    Bool.eq_false_iff.mp (Number.outside_natCast hseq)
  have htime : ¬ (f.view.toTs.timestampMs < 0 ∨ f.view.toTs.timestampMs > 0xffffffffffffffff) := by
    simp only [View.toTs, Frame.view]
    omega
  have hpay : ¬ f.view.toTs.payload.length > maxPayloadBytes := Nat.not_lt.mpr h.payload
  rw [Ts.encodeFrame, if_neg hpay, if_neg htrack, if_neg hflags, if_neg hseq,
    if_neg htime]
  simp only [View.toTs, Frame.view, Js.natCast_eq, Number.toUint_natCast, bytes_one, hmod,
    hseqMod, Frame.layout, List.append_assoc, List.cons_append, List.nil_append]

/-- On integer fields the range checks leave the frames that the wire carries. -/
theorem encodeFrame_ok (hg : g.Integral) (h : Ts.encodeFrame g = .ok b) :
    ∃ f : Wire.Frame, f.Valid ∧ g = f.view.toTs := by
  obtain ⟨m, hm⟩ := hg.type
  simp only [Ts.encodeFrame] at h
  split_ifs at h with hpay htrack hflags hseq hts
  obtain ⟨track, hle, htrack⟩ := Number.natCast_of_outside hg.track (Bool.eq_false_iff.mpr htrack)
  obtain ⟨flags, hflagsLe, hflags⟩ :=
    Number.natCast_of_outside hg.flags (Bool.eq_false_iff.mpr hflags)
  obtain ⟨seq, hseqLe, hseq⟩ := Number.natCast_of_outside hg.seq (Bool.eq_false_iff.mpr hseq)
  have hslot : maxTrackSlot = 8 := rfl
  have ht : (UInt8.ofNat track).toNat = track := UInt8.toNat_ofNat_of_lt' (Nat.lt_of_le_of_lt ‹_› (by decide))
  have hf : (UInt8.ofNat flags).toNat = flags := UInt8.toNat_ofNat_of_lt' (Nat.lt_of_le_of_lt ‹_› (by decide))
  have hs : (UInt32.ofNat seq).toNat = seq :=
    UInt32.toNat_ofNat_of_lt' (Nat.lt_succ_of_le hseqLe)
  have hw : ((UInt64.ofNat g.timestampMs.toNat).toNat : Int) = g.timestampMs := by
    rw [UInt64.toNat_ofNat']
    omega
  refine ⟨⟨m.code, .ofNat track, .ofNat flags, .ofNat seq, .ofNat g.timestampMs.toNat, g.payload⟩,
    ⟨Nat.not_lt.mp hpay, ht.le.trans hle, m.isKnownType_code⟩, ?_⟩
  cases g
  simp only [View.toTs, Frame.view, ht, hf, hs, hw, Frame.mk.injEq, and_true]
  exact ⟨hm, htrack, hflags, hseq⟩

theorem encodeFrame_ok_iff (hg : g.Integral) (b : Bytes) :
    Ts.encodeFrame g = .ok b ↔ ∃ f : Wire.Frame, f.Valid ∧ g = f.view.toTs ∧ b = f.layout := by
  constructor
  · intro h
    obtain ⟨f, hf, rfl⟩ := encodeFrame_ok hg h
    rw [encodeFrame_view f hf] at h
    exact ⟨f, hf, rfl, (Except.ok.inj h).symm⟩
  · rintro ⟨f, hf, rfl, rfl⟩
    exact encodeFrame_view f hf

theorem decodeFrame_ok_iff (g : Frame) (b : Bytes) :
    Ts.decodeFrame b = .ok g ↔ ∃ f : Wire.Frame, f.Valid ∧ g = f.view.toTs ∧ b = f.layout := by
  rw [← outcome_eq_ok, decodeFrame_parse]
  constructor
  · intro h
    cases hv : parse b with
    | error e =>
      rw [hv] at h
      cases h
    | ok v =>
      rw [hv] at h
      obtain ⟨f, hf, hlayout, rfl⟩ := parse_ok hv
      exact ⟨f, hf, (Except.ok.inj h).symm, hlayout⟩
  · rintro ⟨f, hf, rfl, rfl⟩
    rw [f.parse_layout hf]
    rfl

end Ts

/-- Each codec is a bijection between the valid frames and the byte strings that it
accepts, and it is the same one in the three languages. -/
theorem encodeFrame_iff_decodeFrame :
    (∀ f b, Go.encodeFrame f = .ok b ↔ Go.decodeFrame b = .ok f) ∧
      (∀ f b, Cpp.encodeFrame f = .ok b ↔ Cpp.decodeFrame b = .ok f) ∧
      (∀ f, (∃ b, Go.encodeFrame f = .ok b) ↔ f.Valid) ∧
      (∀ f, (∃ b, Cpp.encodeFrame f = .ok b) ↔ f.Valid) ∧
      (∀ f : Frame, (∃ g, Go.decodeFrame f.layout = .ok g) ↔ f.Valid) ∧
      (∀ f : Frame, (∃ g, Cpp.decodeFrame f.layout = .ok g) ↔ f.Valid) ∧
      (∀ g : Ts.Frame, g.Integral → ∀ b, Ts.encodeFrame g = .ok b ↔ Ts.decodeFrame b = .ok g) ∧
      (∀ g : Ts.Frame, g.Integral → ∀ b, Ts.encodeFrame g = .ok b ↔
        ∃ f : Frame, g = f.view.toTs ∧ Go.encodeFrame f = .ok b ∧ Cpp.encodeFrame f = .ok b) := by
  have hgo (f : Frame) (b : Bytes) := decode_ok_iff Go.decodeFrame_parse f b
  have hcpp (f : Frame) (b : Bytes) := decode_ok_iff Cpp.decodeFrame_parse f b
  have hlayout (f g : Frame) (hg : g.Valid ∧ f.layout = g.layout) : f.Valid := by
    rw [Frame.layout_injective hg.2]
    exact hg.1
  refine ⟨?_, ?_, ?_, ?_, ?_, ?_, ?_, ?_⟩
  · intro f b
    rw [Go.encodeFrame_ok_iff, hgo]
  · intro f b
    rw [Cpp.encodeFrame_ok_iff, hcpp]
  · simp [Go.encodeFrame_ok_iff]
  · simp [Cpp.encodeFrame_ok_iff]
  · intro f
    simp only [hgo]
    exact ⟨fun ⟨g, hg⟩ => hlayout f g hg, fun hf => ⟨f, hf, rfl⟩⟩
  · intro f
    simp only [hcpp]
    exact ⟨fun ⟨g, hg⟩ => hlayout f g hg, fun hf => ⟨f, hf, rfl⟩⟩
  · intro g hg b
    rw [Ts.encodeFrame_ok_iff hg, Ts.decodeFrame_ok_iff]
  · intro g hg b
    simp only [Ts.encodeFrame_ok_iff hg, Go.encodeFrame_ok_iff, Cpp.encodeFrame_ok_iff]
    constructor
    · rintro ⟨f, hf, hview, hb⟩
      exact ⟨f, hview, ⟨hf, hb⟩, hf, hb⟩
    · rintro ⟨f, hview, ⟨hf, hb⟩, _⟩
      exact ⟨f, hf, hview, hb⟩

/-- The silent packet of the first track. -/
def Ts.silence : Ts.Frame where
  type := (MessageType.audioOpus.code.toNat : Nat)
  track := (1 : Nat)
  flags := (0 : Nat)
  seq := (7 : Nat)
  timestampMs := 20
  payload := []

theorem decodeFrame_silence :
    ∃ b, Ts.encodeFrame Ts.silence = .ok b ∧ Ts.decodeFrame b = .ok Ts.silence := by
  have hsilence : Ts.silence.Integral := ⟨⟨.audioOpus, rfl⟩, by decide, by decide, by decide⟩
  have hencode : Ts.encodeFrame Ts.silence = .ok [0x53, 0x4d, 0x58, 0x31, 3, 1, 0, 0, 0, 0, 0, 0, 7,
      0, 0, 0, 0, 0, 0, 0, 20] := by decide
  have hcodec := encodeFrame_iff_decodeFrame.2.2.2.2.2.2.1 Ts.silence hsilence
  exact ⟨_, hencode, (hcodec _).mp hencode⟩

end StreamMix.Wire
