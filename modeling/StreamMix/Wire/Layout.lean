import StreamMix.Wire.Header

/-! The frame layout as one function on byte strings, and the three decoders as
implementations of it. -/

namespace StreamMix.Wire

open BigEndian (value bytes or_mul_two_pow shiftLeft_mod)

theorem length_slice (input : Bytes) (h : j ≤ input.length) :
    (slice input i j).length = j - i := by
  rw [slice, List.length_take, List.length_drop]
  omega

theorem and_255 (n : Nat) : n &&& 255 = n % 256 := Nat.and_two_pow_sub_one_eq_mod n 8

namespace Go

theorem toNat_uint16 (bs : Bytes) (h : bs.length = 2) : (uint16 bs).toNat = value bs := by
  match bs, h with
  | [a, b], _ =>
    have ha := a.toNat_lt
    have hb := b.toNat_lt
    have h8 := shiftLeft_mod a (k := 8) (w := 16) (by omega)
    simp only [uint16, List.getD_cons_zero, List.getD_cons_succ, UInt16.toNat_or,
      UInt16.toNat_shiftLeft, UInt8.toNat_toUInt16, UInt16.reduceToNat, Nat.reduceMod, h8]
    simp (disch := omega) only [or_mul_two_pow, value, List.foldl_cons, List.foldl_nil]
    omega

theorem toNat_uint32 (bs : Bytes) (h : bs.length = 4) : (uint32 bs).toNat = value bs := by
  match bs, h with
  | [a, b, c, d], _ =>
    have ha := a.toNat_lt
    have hb := b.toNat_lt
    have hc := c.toNat_lt
    have hd := d.toNat_lt
    have h8 := shiftLeft_mod c (k := 8) (w := 32) (by omega)
    have h16 := shiftLeft_mod b (k := 16) (w := 32) (by omega)
    have h24 := shiftLeft_mod a (k := 24) (w := 32) (by omega)
    simp only [uint32, List.getD_cons_zero, List.getD_cons_succ, UInt32.toNat_or,
      UInt32.toNat_shiftLeft, UInt8.toNat_toUInt32, UInt32.reduceToNat, Nat.reduceMod,
      h8, h16, h24]
    simp (disch := omega) only [or_mul_two_pow, value, List.foldl_cons, List.foldl_nil]
    omega

theorem toNat_uint64 (bs : Bytes) (h : bs.length = 8) : (uint64 bs).toNat = value bs := by
  match bs, h with
  | [a, b, c, d, e, f, g, i], _ =>
    have ha := a.toNat_lt
    have hb := b.toNat_lt
    have hc := c.toNat_lt
    have hd := d.toNat_lt
    have he := e.toNat_lt
    have hf := f.toNat_lt
    have hg := g.toNat_lt
    have hi := i.toNat_lt
    have h8 := shiftLeft_mod g (k := 8) (w := 64) (by omega)
    have h16 := shiftLeft_mod f (k := 16) (w := 64) (by omega)
    have h24 := shiftLeft_mod e (k := 24) (w := 64) (by omega)
    have h32 := shiftLeft_mod d (k := 32) (w := 64) (by omega)
    have h40 := shiftLeft_mod c (k := 40) (w := 64) (by omega)
    have h48 := shiftLeft_mod b (k := 48) (w := 64) (by omega)
    have h56 := shiftLeft_mod a (k := 56) (w := 64) (by omega)
    simp only [uint64, List.getD_cons_zero, List.getD_cons_succ, UInt64.toNat_or,
      UInt64.toNat_shiftLeft, UInt8.toNat_toUInt64, UInt64.reduceToNat, Nat.reduceMod,
      h8, h16, h24, h32, h40, h48, h56]
    simp (disch := omega) only [or_mul_two_pow, value, List.foldl_cons, List.foldl_nil]
    omega

end Go

namespace Cpp

theorem toNat_readU16BE (src : Bytes) (h : 2 ≤ src.length) :
    (readU16BE src).toNat = value (src.take 2) := by
  match src, h with
  | a :: b :: rest, _ =>
    have ha := a.toNat_lt
    have hb := b.toNat_lt
    have h8 := shiftLeft_mod a (k := 8) (w := 32) (by omega)
    simp only [readU16BE, List.getD_cons_zero, List.getD_cons_succ, UInt32.toNat_toUInt16,
      UInt32.toNat_or, UInt32.toNat_shiftLeft, UInt8.toNat_toUInt32, UInt32.reduceToNat,
      Nat.reduceMod, h8]
    rw [Nat.lor_comm, or_mul_two_pow (by omega)]
    simp only [value, List.take_succ_cons, List.take_zero, List.foldl_cons, List.foldl_nil]
    omega

theorem toNat_readU32BE (src : Bytes) (h : 4 ≤ src.length) :
    (readU32BE src).toNat = value (src.take 4) := by
  match src, h with
  | a :: b :: c :: d :: rest, _ =>
    have ha := a.toNat_lt
    have hb := b.toNat_lt
    have hc := c.toNat_lt
    have hd := d.toNat_lt
    have h8 := shiftLeft_mod c (k := 8) (w := 32) (by omega)
    have h16 := shiftLeft_mod b (k := 16) (w := 32) (by omega)
    have h24 := shiftLeft_mod a (k := 24) (w := 32) (by omega)
    -- Go's terms in the opposite order
    have hrev : ∀ x y z w : Nat, x ||| y ||| z ||| w = w ||| z ||| y ||| x := by
      intro x y z w
      ac_rfl
    simp only [readU32BE, List.getD_cons_zero, List.getD_cons_succ, UInt32.toNat_or,
      UInt32.toNat_shiftLeft, UInt8.toNat_toUInt32, UInt32.reduceToNat, Nat.reduceMod,
      h8, h16, h24]
    rw [hrev]
    simp (disch := omega) only [or_mul_two_pow, value, List.take_succ_cons, List.take_zero,
      List.foldl_cons, List.foldl_nil]
    omega

/-- One turn of the `ReadU64BE` loop, while the top byte of the accumulator is free. -/
theorem toNat_shift_or (v : UInt64) (b : UInt8) (h : v.toNat < 2 ^ 56) :
    (v <<< 8 ||| b.toUInt64).toNat = v.toNat * 256 + b.toNat := by
  have hb := b.toNat_lt
  have hv : v.toNat <<< 8 % 2 ^ 64 = v.toNat * 2 ^ 8 := by
    rw [Nat.shiftLeft_eq, Nat.mod_eq_of_lt (by omega)]
  simp only [UInt64.toNat_or, UInt64.toNat_shiftLeft, UInt8.toNat_toUInt64,
    UInt64.reduceToNat, Nat.reduceMod, hv]
  rw [Nat.lor_comm, or_mul_two_pow (by omega)]
  omega

/-- The accumulator after `n` turns of the loop. -/
theorem toNat_readU64BE_loop (src : Bytes) (n : Nat) (hn : n ≤ 8) (h : n ≤ src.length) :
    ((List.range n).foldl (fun (v : UInt64) i => v <<< 8 ||| (src.getD i 0).toUInt64) 0).toNat =
      value (src.take n) := by
  induction n with
  | zero => rfl
  | succ n ih =>
    have hget : src[n]? = some (src.getD n 0) := by
      rw [List.getD_eq_getElem?_getD, List.getElem?_eq_getElem (by omega), Option.getD_some]
    have ih := ih (by omega) (by omega)
    have hlt := BigEndian.value_lt (src.take n)
    have hpow : 256 ^ (src.take n).length ≤ 2 ^ 56 := by
      rw [List.length_take, Nat.min_eq_left (by omega), show 256 = 2 ^ 8 from rfl, ← Nat.pow_mul]
      exact Nat.pow_le_pow_right (by decide) (by omega)
    rw [List.range_succ, List.foldl_append, List.foldl_cons, List.foldl_nil,
      toNat_shift_or _ _ (by omega), ih, List.take_add_one, hget, Option.toList_some,
      BigEndian.value_concat]

theorem toNat_readU64BE (src : Bytes) (h : 8 ≤ src.length) :
    (readU64BE src).toNat = value (src.take 8) :=
  toNat_readU64BE_loop src 8 (by decide) h

theorem writeU16BE_eq (v : UInt16) : writeU16BE v = bytes 2 v.toNat := by
  have hhigh : (v >>> 8 &&& 0xff).toUInt8 = UInt8.ofNat (v.toNat / 256) := by
    apply UInt8.toNat_inj.mp
    simp [Nat.shiftRight_eq_div_pow, and_255]
  have hlow : (v &&& 0xff).toUInt8 = UInt8.ofNat v.toNat := by
    apply UInt8.toNat_inj.mp
    simp [and_255]
  rw [writeU16BE, hhigh, hlow]
  rfl

theorem toUInt8_shiftRight32 (v k : UInt32) (hk : k.toNat < 32) :
    (v >>> k &&& 0xff).toUInt8 = UInt8.ofNat (v.toNat / 2 ^ k.toNat) := by
  apply UInt8.toNat_inj.mp
  simp only [UInt32.toNat_toUInt8, UInt32.toNat_and, UInt32.toNat_shiftRight,
    UInt32.reduceToNat, and_255, Nat.shiftRight_eq_div_pow, Nat.mod_eq_of_lt hk,
    UInt8.toNat_ofNat', Nat.reducePow, Nat.mod_mod]

theorem writeU32BE_eq (v : UInt32) : writeU32BE v = bytes 4 v.toNat := by
  have hlow : (v &&& 0xff).toUInt8 = UInt8.ofNat v.toNat := by
    apply UInt8.toNat_inj.mp
    simp [and_255]
  rw [writeU32BE, hlow, toUInt8_shiftRight32 v 24 (by decide),
    toUInt8_shiftRight32 v 16 (by decide), toUInt8_shiftRight32 v 8 (by decide)]
  simp only [bytes, List.nil_append, List.cons_append, Nat.div_div_eq_div_mul, Nat.reduceMul,
    UInt32.reduceToNat, Nat.reducePow]

theorem toUInt8_shiftRight64 (v k : UInt64) (hk : k.toNat < 64) :
    (v >>> k &&& 0xff).toUInt8 = UInt8.ofNat (v.toNat / 2 ^ k.toNat) := by
  apply UInt8.toNat_inj.mp
  simp only [UInt64.toNat_toUInt8, UInt64.toNat_and, UInt64.toNat_shiftRight,
    UInt64.reduceToNat, and_255, Nat.shiftRight_eq_div_pow, Nat.mod_eq_of_lt hk,
    UInt8.toNat_ofNat', Nat.reducePow, Nat.mod_mod]

theorem writeU64BE_eq (v : UInt64) : writeU64BE v = bytes 8 v.toNat := by
  simp only [writeU64BE, List.map_cons, List.map_nil, UInt64.reduceMul]
  rw [toUInt8_shiftRight64 v 56 (by decide), toUInt8_shiftRight64 v 48 (by decide),
    toUInt8_shiftRight64 v 40 (by decide), toUInt8_shiftRight64 v 32 (by decide),
    toUInt8_shiftRight64 v 24 (by decide), toUInt8_shiftRight64 v 16 (by decide),
    toUInt8_shiftRight64 v 8 (by decide), toUInt8_shiftRight64 v 0 (by decide)]
  simp only [bytes, List.nil_append, List.cons_append, Nat.div_div_eq_div_mul, Nat.reduceMul,
    UInt64.reduceToNat, Nat.reducePow, Nat.div_one]

end Cpp

/-- What a decoded frame says, whatever integers a language holds it in. -/
structure View where
  type : Nat
  track : Nat
  flags : Nat
  seq : Nat
  timestampMs : Nat
  payload : Bytes
  deriving DecidableEq

/-- The wire contract: the checks in the order the codecs make them, on the numbers
the header fields denote. -/
def parse (input : Bytes) : Except ProtocolErrorKind View :=
  let payloadLen := value (slice input 7 9)
  let track := (input.getD 5 0).toNat
  if input.length < headerBytes then .error .badLength
  else if !magicMatches input then .error .badMagic
  else if payloadLen > maxPayloadBytes then .error .tooLarge
  else if headerBytes + payloadLen ≠ input.length then .error .badLength
  else if track > maxTrackSlot then .error .badTrack
  else if !isKnownType (input.getD 4 0) then .error .badType
  else .ok {
    type := (input.getD 4 0).toNat
    track := track
    flags := (input.getD 6 0).toNat
    seq := value (slice input 9 13)
    timestampMs := value (slice input 13 21)
    payload := slice input headerBytes (headerBytes + payloadLen) }

def Frame.view (f : Frame) : View where
  type := f.type.toNat
  track := f.track.toNat
  flags := f.flags.toNat
  seq := f.seq.toNat
  timestampMs := f.timestampMs.toNat
  payload := f.payload

/-- The bytes of a frame, field after field. -/
def Frame.layout (f : Frame) : Bytes :=
  magic ++ [f.type, f.track, f.flags] ++ bytes 2 f.payload.length ++ bytes 4 f.seq.toNat ++
    bytes 8 f.timestampMs.toNat ++ f.payload

/-- The frames that the wire carries. -/
structure Frame.Valid (f : Frame) : Prop where
  payload : f.payload.length ≤ maxPayloadBytes
  track : f.track.toNat ≤ maxTrackSlot
  type : isKnownType f.type = true

theorem Frame.slice_layout (f : Frame) :
    slice f.layout 7 9 = bytes 2 f.payload.length ∧ slice f.layout 9 13 = bytes 4 f.seq.toNat ∧
      slice f.layout 13 21 = bytes 8 f.timestampMs.toNat ∧ f.layout.drop headerBytes = f.payload := by
  refine ⟨?_, ?_, ?_, ?_⟩ <;> simp [layout, magic, slice, bytes, headerBytes]

theorem Frame.length_layout (f : Frame) : f.layout.length = headerBytes + f.payload.length := by
  simp [layout, magic, headerBytes]
  omega

/-- Laying a frame out and parsing it gives the frame back. -/
theorem Frame.parse_layout (f : Frame) (h : f.Valid) : parse f.layout = .ok f.view := by
  obtain ⟨h16, h32, h64, hpay⟩ := f.slice_layout
  have hlen := f.length_layout
  have hp := h.payload
  have hmax : maxPayloadBytes = 4096 := rfl
  have hv16 : value (bytes 2 f.payload.length) = f.payload.length :=
    BigEndian.value_bytes_of_lt (by omega)
  have hv32 : value (bytes 4 f.seq.toNat) = f.seq.toNat :=
    BigEndian.value_bytes_of_lt (by simpa using f.seq.toNat_lt)
  have hv64 : value (bytes 8 f.timestampMs.toNat) = f.timestampMs.toNat :=
    BigEndian.value_bytes_of_lt (by simpa using f.timestampMs.toNat_lt)
  have hmagic : magicMatches f.layout = true := by
    simp [magicMatches, layout, magic, List.range_succ]
  have htype : f.layout.getD 4 0 = f.type := by simp [layout, magic]
  have htrack : f.layout.getD 5 0 = f.track := by simp [layout, magic]
  have hflags : f.layout.getD 6 0 = f.flags := by simp [layout, magic]
  have htake : slice f.layout headerBytes (headerBytes + f.payload.length) = f.payload := by
    rw [slice, hpay, Nat.add_sub_cancel_left, List.take_length]
  have htr := h.track
  simp only [parse, h16, h32, h64, hv16, hv32, hv64, hmagic, htype, htrack, hflags, htake,
    h.type, hlen, if_false, Bool.not_true, Bool.false_eq_true, ne_eq, not_true]
  rw [if_neg (by omega), if_neg (by omega), if_neg (by omega)]
  rfl

/-- The C++ encoder lays valid frames out and refuses the others. -/
theorem Cpp.encodeFrame_ok_iff (f : Frame) (b : Bytes) :
    Cpp.encodeFrame f = .ok b ↔ f.Valid ∧ b = f.layout := by
  have hbytes : (UInt16.ofNat f.payload.length).toNat = f.payload.length % 2 ^ 16 :=
    UInt16.toNat_ofNat'
  simp only [encodeFrame, writeU16BE_eq, writeU32BE_eq, writeU64BE_eq, hbytes]
  constructor
  · intro h
    split_ifs at h with h1 h2 h3
    have hv : f.Valid := ⟨by omega, by omega, by simpa using h3⟩
    have hp := hv.payload
    have hmax : maxPayloadBytes = 4096 := rfl
    rw [Nat.mod_eq_of_lt (by omega)] at h
    exact ⟨hv, (Except.ok.inj h).symm⟩
  · rintro ⟨hv, rfl⟩
    have hp := hv.payload
    have ht := hv.track
    have hmax : maxPayloadBytes = 4096 := rfl
    rw [if_neg (by omega), if_neg (by omega), if_neg (by simp [hv.type]),
      Nat.mod_eq_of_lt (by omega)]
    rfl

/-- The view as the record that TypeScript builds. -/
def View.toTs (v : View) : Ts.Frame where
  type := v.type
  track := v.track
  flags := v.flags
  seq := v.seq
  timestampMs := v.timestampMs
  payload := v.payload

/-- The answer of a decoder without the wording of its errors. -/
def outcome (r : Except ProtocolError α) : Except ProtocolErrorKind α :=
  r.mapError ProtocolError.kind

@[simp] theorem outcome_ok (a : α) : outcome (.ok a) = .ok a := rfl
@[simp] theorem outcome_error (e : ProtocolError) :
    outcome (.error e : Except ProtocolError α) = .error e.kind := rfl

theorem Go.decodeFrame_parse (input : Bytes) :
    (outcome (Go.decodeFrame input)).map Frame.view = parse input := by
  by_cases h : input.length < headerBytes
  · simp [Go.decodeFrame, parse, h, Go.protoErr, Except.map]
  · have hlen : 21 ≤ input.length := by simpa [headerBytes] using h
    have h16 := Go.toNat_uint16 (slice input 7 9) (length_slice input (by omega))
    have h32 := Go.toNat_uint32 (slice input 9 13) (length_slice input (by omega))
    have h64 := Go.toNat_uint64 (slice input 13 21) (length_slice input (by omega))
    simp only [Go.decodeFrame, parse, h, if_false, h16]
    split_ifs <;> simp [Go.protoErr, Except.map, Frame.view, h32, h64]

theorem Cpp.decodeFrame_parse (input : Bytes) :
    (outcome (Cpp.decodeFrame input)).map Frame.view = parse input := by
  by_cases h : input.length < headerBytes
  · simp [Cpp.decodeFrame, parse, h, Except.map]
  · have hlen : 21 ≤ input.length := by simpa [headerBytes] using h
    have h16 : (readU16BE (input.drop 7)).toNat = value (slice input 7 9) :=
      toNat_readU16BE _ (by rw [List.length_drop]; omega)
    have h32 : (readU32BE (input.drop 9)).toNat = value (slice input 9 13) :=
      toNat_readU32BE _ (by rw [List.length_drop]; omega)
    have h64 : (readU64BE (input.drop 13)).toNat = value (slice input 13 21) :=
      toNat_readU64BE _ (by rw [List.length_drop]; omega)
    simp only [Cpp.decodeFrame, parse, h, if_false, h16]
    split_ifs <;> simp [Except.map, Frame.view, h32, h64]

theorem Ts.knownTypes_contains (t : UInt8) : knownTypes.contains t.toNat = isKnownType t := by
  simp only [knownTypes, isKnownType, List.contains_eq_any_beq, List.any_map]
  congr 1
  funext m
  simp only [Function.comp_apply, Bool.beq_eq_decide_eq, UInt8.toNat_inj, decide_eq_decide]
  exact eq_comm

theorem Ts.decodeFrame_parse (input : Bytes) :
    outcome (Ts.decodeFrame input) = (parse input).map View.toTs := by
  by_cases h : input.length < headerBytes
  · simp [Ts.decodeFrame, parse, h, Except.map]
  · simp only [Ts.decodeFrame, parse, h, if_false, getUint, knownTypes_contains, Nat.reduceAdd]
    split_ifs <;> simp [Except.map, View.toTs]

/-- The extension reads what the publisher encodes. -/
theorem Ts.decodeFrame_of_encode (h : Cpp.encodeFrame f = .ok b) :
    Ts.decodeFrame b = .ok f.view.toTs := by
  obtain ⟨hv, rfl⟩ := (Cpp.encodeFrame_ok_iff f b).mp h
  have hparse := Ts.decodeFrame_parse f.layout
  rw [f.parse_layout hv] at hparse
  cases hd : Ts.decodeFrame f.layout with
  | error e =>
    rw [hd] at hparse
    cases hparse
  | ok g =>
    rw [hd] at hparse
    cases hparse
    rfl

theorem Frame.view_injective : Function.Injective Frame.view := by
  intro f g h
  cases f
  cases g
  simpa [Frame.view, UInt8.toNat_inj, UInt32.toNat_inj, UInt64.toNat_inj] using h

/-- On every byte string the three decoders accept the same frame, or refuse with the
same kind of error. -/
theorem decodeFrame_agree (input : Bytes) :
    outcome (Go.decodeFrame input) = outcome (Cpp.decodeFrame input) ∧
      (outcome (Go.decodeFrame input)).map (fun f => f.view.toTs) =
        outcome (Ts.decodeFrame input) := by
  have hgo := Go.decodeFrame_parse input
  have hcpp := Cpp.decodeFrame_parse input
  constructor
  · rw [← hcpp] at hgo
    cases hg : outcome (Go.decodeFrame input) <;> cases hc : outcome (Cpp.decodeFrame input) <;>
      simp_all [Except.map]
    exact Frame.view_injective hgo
  · rw [Ts.decodeFrame_parse, ← hgo]
    cases outcome (Go.decodeFrame input) <;> rfl

end StreamMix.Wire
