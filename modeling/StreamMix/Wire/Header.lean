import StreamMix.Lib.BigEndian
import StreamMix.Lib.JsNumber

namespace StreamMix.Wire

abbrev Bytes := List UInt8

def magic : Bytes := [0x53, 0x4d, 0x58, 0x31]
def headerBytes : Nat := 21
def maxPayloadBytes : Nat := 4096
def maxTrackSlot : Nat := 0x08
def controlTrack : UInt8 := 0x00

inductive MessageType
  | hello | trackList | audioOpus | fingerprint | trackMeta | stats | subTracks | error
  deriving DecidableEq, Repr

def MessageType.code : MessageType → UInt8
  | .hello => 0x01
  | .trackList => 0x02
  | .audioOpus => 0x03
  | .fingerprint => 0x04
  | .trackMeta => 0x05
  | .stats => 0x10
  | .subTracks => 0x20
  | .error => 0xff

def MessageType.all : List MessageType :=
  [.hello, .trackList, .audioOpus, .fingerprint, .trackMeta, .stats, .subTracks, .error]

def isKnownType (t : UInt8) : Bool := MessageType.all.any (fun m => m.code == t)

theorem MessageType.isKnownType_code (m : MessageType) : isKnownType m.code = true := by
  cases m <;> decide

inductive ProtocolErrorKind
  | badMagic | badLength | badTrack | badType | badPayload | tooLarge
  deriving DecidableEq, Repr

structure ProtocolError where
  kind : ProtocolErrorKind
  message : String
  deriving DecidableEq

/-- The frame of the Go and C++ codecs.  The type is a bare byte: both languages let
a caller put an unknown one there, and the encoders refuse it. -/
structure Frame where
  type : UInt8
  track : UInt8
  flags : UInt8
  seq : UInt32
  timestampMs : UInt64
  payload : Bytes
  deriving DecidableEq

/-- `input[i:j]`. -/
def slice (input : Bytes) (i j : Nat) : Bytes := (input.drop i).take (j - i)

/-- The magic loop, the same in the three decoders. -/
def magicMatches (input : Bytes) : Bool :=
  (List.range magic.length).all (fun i => input.getD i 0 == magic.getD i 0)

def hex (n : Nat) : String := String.ofList (Nat.toDigits 16 n)

/-- `%02x`. -/
def hex02 (n : Nat) : String := if n < 16 then "0" ++ hex n else hex n

namespace Go

def protoErr (kind : ProtocolErrorKind) (message : String) : ProtocolError := ⟨kind, message⟩

/-- `binary.BigEndian.Uint16`. -/
def uint16 (b : Bytes) : UInt16 :=
  (b.getD 1 0).toUInt16 ||| (b.getD 0 0).toUInt16 <<< 8

/-- `binary.BigEndian.Uint32`. -/
def uint32 (b : Bytes) : UInt32 :=
  (b.getD 3 0).toUInt32 ||| (b.getD 2 0).toUInt32 <<< 8 |||
    (b.getD 1 0).toUInt32 <<< 16 ||| (b.getD 0 0).toUInt32 <<< 24

/-- `binary.BigEndian.Uint64`. -/
def uint64 (b : Bytes) : UInt64 :=
  (b.getD 7 0).toUInt64 ||| (b.getD 6 0).toUInt64 <<< 8 |||
    (b.getD 5 0).toUInt64 <<< 16 ||| (b.getD 4 0).toUInt64 <<< 24 |||
    (b.getD 3 0).toUInt64 <<< 32 ||| (b.getD 2 0).toUInt64 <<< 40 |||
    (b.getD 1 0).toUInt64 <<< 48 ||| (b.getD 0 0).toUInt64 <<< 56

/-- `binary.BigEndian.PutUint16`. -/
def putUint16 (v : UInt16) : Bytes := [(v >>> 8).toUInt8, v.toUInt8]

/-- `binary.BigEndian.PutUint32`. -/
def putUint32 (v : UInt32) : Bytes :=
  [(v >>> 24).toUInt8, (v >>> 16).toUInt8, (v >>> 8).toUInt8, v.toUInt8]

/-- `binary.BigEndian.PutUint64`. -/
def putUint64 (v : UInt64) : Bytes :=
  [(v >>> 56).toUInt8, (v >>> 48).toUInt8, (v >>> 40).toUInt8, (v >>> 32).toUInt8,
    (v >>> 24).toUInt8, (v >>> 16).toUInt8, (v >>> 8).toUInt8, v.toUInt8]

def encodeFrame (f : Frame) : Except ProtocolError Bytes :=
  if f.payload.length > maxPayloadBytes then
    .error (protoErr .tooLarge ("payload too large: " ++ toString f.payload.length ++
      " > " ++ toString maxPayloadBytes))
  else if f.track.toNat > maxTrackSlot then
    .error (protoErr .badTrack ("invalid track slot: " ++ toString f.track))
  else if !isKnownType f.type then
    .error (protoErr .badType ("unknown message type: 0x" ++ hex02 f.type.toNat))
  else
    .ok (magic ++ [f.type, f.track, f.flags] ++ putUint16 (UInt16.ofNat f.payload.length) ++
      putUint32 f.seq ++ putUint64 f.timestampMs ++ f.payload)

def decodeFrame (input : Bytes) : Except ProtocolError Frame :=
  if input.length < headerBytes then
    .error (protoErr .badLength ("frame shorter than header: " ++ toString input.length ++
      " < " ++ toString headerBytes))
  else if !magicMatches input then
    .error (protoErr .badMagic "magic mismatch")
  else
    let typ := input.getD 4 0
    let track := input.getD 5 0
    let flags := input.getD 6 0
    let payloadLen := uint16 (slice input 7 9)
    let seq := uint32 (slice input 9 13)
    let ts := uint64 (slice input 13 21)
    if payloadLen.toNat > maxPayloadBytes then
      .error (protoErr .tooLarge ("payload too large: " ++ toString payloadLen))
    else if headerBytes + payloadLen.toNat ≠ input.length then
      .error (protoErr .badLength ("length mismatch: declared " ++ toString payloadLen ++
        ", got " ++ toString (input.length - headerBytes)))
    else if track.toNat > maxTrackSlot then
      .error (protoErr .badTrack ("invalid track slot: " ++ toString track))
    else if !isKnownType typ then
      .error (protoErr .badType ("unknown message type: 0x" ++ hex02 typ.toNat))
    else
      .ok { type := typ, track := track, flags := flags, seq := seq, timestampMs := ts
            payload := slice input headerBytes (headerBytes + payloadLen.toNat) }

end Go

namespace Cpp

def writeU16BE (v : UInt16) : Bytes :=
  [(v >>> 8 &&& 0xff).toUInt8, (v &&& 0xff).toUInt8]

def writeU32BE (v : UInt32) : Bytes :=
  [(v >>> 24 &&& 0xff).toUInt8, (v >>> 16 &&& 0xff).toUInt8,
    (v >>> 8 &&& 0xff).toUInt8, (v &&& 0xff).toUInt8]

/-- The loop counts `i` down from 7 and writes `dst[7 - i]`. -/
def writeU64BE (v : UInt64) : Bytes :=
  ([7, 6, 5, 4, 3, 2, 1, 0] : List UInt64).map (fun i => (v >>> (i * 8) &&& 0xff).toUInt8)

/-- The buffer is filled front to back, so it is the fields one after the other. -/
def encodeFrame (f : Frame) : Except ProtocolError Bytes :=
  if f.payload.length > maxPayloadBytes then
    .error ⟨.tooLarge, "payload too large"⟩
  else if f.track.toNat > maxTrackSlot then
    .error ⟨.badTrack, "invalid track slot"⟩
  else if !isKnownType f.type then
    .error ⟨.badType, "unknown message type"⟩
  else
    .ok (magic ++ [f.type, f.track, f.flags] ++ writeU16BE (UInt16.ofNat f.payload.length) ++
      writeU32BE f.seq ++ writeU64BE f.timestampMs ++ f.payload)

/-- The operands are promoted to `int` before the shift. -/
def readU16BE (src : Bytes) : UInt16 :=
  ((src.getD 0 0).toUInt32 <<< 8 ||| (src.getD 1 0).toUInt32).toUInt16

def readU32BE (src : Bytes) : UInt32 :=
  (src.getD 0 0).toUInt32 <<< 24 ||| (src.getD 1 0).toUInt32 <<< 16 |||
    (src.getD 2 0).toUInt32 <<< 8 ||| (src.getD 3 0).toUInt32

def readU64BE (src : Bytes) : UInt64 :=
  (List.range 8).foldl (fun v i => v <<< 8 ||| (src.getD i 0).toUInt64) 0

def decodeFrame (input : Bytes) : Except ProtocolError Frame :=
  if input.length < headerBytes then
    .error ⟨.badLength, "frame shorter than header"⟩
  else if !magicMatches input then
    .error ⟨.badMagic, "magic mismatch"⟩
  else
    let type := input.getD 4 0
    let track := input.getD 5 0
    let flags := input.getD 6 0
    let payloadLen := readU16BE (input.drop 7)
    let seq := readU32BE (input.drop 9)
    let ts := readU64BE (input.drop 13)
    if payloadLen.toNat > maxPayloadBytes then
      .error ⟨.tooLarge, "payload too large"⟩
    else if headerBytes + payloadLen.toNat ≠ input.length then
      .error ⟨.badLength, "length mismatch"⟩
    else if track.toNat > maxTrackSlot then
      .error ⟨.badTrack, "invalid track slot"⟩
    else if !isKnownType type then
      .error ⟨.badType, "unknown message type"⟩
    else
      .ok { type := type, track := track, flags := flags, seq := seq, timestampMs := ts
            payload := slice input headerBytes (headerBytes + payloadLen.toNat) }

end Cpp

namespace Ts

open Js (Number)

structure Frame where
  type : Number
  track : Number
  flags : Number
  seq : Number
  timestampMs : Int
  payload : Bytes
  deriving DecidableEq

def knownTypes : List Nat := MessageType.all.map (fun m => m.code.toNat)

/-- Writing a field into the buffer reduces it to the width of the field: `ToUint8` for an
element, `setUint16`, `setUint32` and `setBigUint64` for the others.  The type is not
checked. -/
def encodeFrame (frame : Frame) : Except ProtocolError Bytes :=
  if frame.payload.length > maxPayloadBytes then
    .error ⟨.tooLarge, "payload too large: " ++ toString frame.payload.length ++
      " > " ++ toString maxPayloadBytes⟩
  else if frame.track.outside maxTrackSlot then
    .error ⟨.badTrack, "invalid track slot: " ++ frame.track.text⟩
  else if frame.flags.outside 0xff then
    .error ⟨.badPayload, "flags out of range: " ++ frame.flags.text⟩
  else if frame.seq.outside 0xffffffff then
    .error ⟨.badPayload, "seq out of uint32 range: " ++ frame.seq.text⟩
  else if frame.timestampMs < 0 ∨ frame.timestampMs > 0xffffffffffffffff then
    .error ⟨.badPayload, "timestamp out of uint64 range"⟩
  else
    .ok (magic ++ BigEndian.bytes 1 (frame.type.toUint 8) ++
      BigEndian.bytes 1 (frame.track.toUint 8) ++ BigEndian.bytes 1 (frame.flags.toUint 8) ++
      BigEndian.bytes 2 frame.payload.length ++ BigEndian.bytes 4 (frame.seq.toUint 32) ++
      BigEndian.bytes 8 (frame.timestampMs % 2 ^ 64).toNat ++ frame.payload)

/-- `DataView.getUint16/getUint32/getBigUint64` with `littleEndian = false`. -/
def getUint (width : Nat) (view : Bytes) (offset : Nat) : Nat :=
  BigEndian.value (slice view offset (offset + width))

def decodeFrame (input : Bytes) : Except ProtocolError Frame :=
  if input.length < headerBytes then
    .error ⟨.badLength, "frame shorter than header: " ++ toString input.length ++
      " < " ++ toString headerBytes⟩
  else if !magicMatches input then
    .error ⟨.badMagic, "magic mismatch"⟩
  else
    let type := (input.getD 4 0).toNat
    let track := (input.getD 5 0).toNat
    let flags := (input.getD 6 0).toNat
    let payloadLen := getUint 2 input 7
    let seq := getUint 4 input 9
    let timestampMs := getUint 8 input 13
    if payloadLen > maxPayloadBytes then
      .error ⟨.tooLarge, "payload too large: " ++ toString payloadLen⟩
    else if headerBytes + payloadLen ≠ input.length then
      .error ⟨.badLength, "length mismatch: declared " ++ toString payloadLen ++
        ", got " ++ toString (input.length - headerBytes)⟩
    else if track > maxTrackSlot then
      .error ⟨.badTrack, "invalid track slot: " ++ toString track⟩
    else if !knownTypes.contains type then
      .error ⟨.badType, "unknown message type: 0x" ++ hex type⟩
    else
      .ok { type := type, track := track, flags := flags, seq := seq
            timestampMs := timestampMs
            payload := slice input headerBytes (headerBytes + payloadLen) }

end Ts

end StreamMix.Wire
