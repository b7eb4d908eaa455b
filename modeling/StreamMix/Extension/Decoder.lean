import Mathlib.Algebra.Order.Ring.Int
import StreamMix.Wire.Header

/-! A lane of the Opus decoder, on an `AudioDecoder` of WebCodecs. -/

namespace StreamMix.Extension

open Wire (Bytes)

def frameDurationUs : Int := 20000

/-- A key chunk; its timestamp is in microseconds. -/
structure EncodedAudioChunk where
  timestamp : Int
  data : Bytes
  deriving DecidableEq

inductive CodecState
  | unconfigured | configured | closed
  deriving DecidableEq

structure AudioDecoder where
  state : CodecState
  queue : List EncodedAudioChunk

namespace AudioDecoder

def create : AudioDecoder := ⟨.unconfigured, []⟩

/-! The methods throw on a decoder that is closed; `none` is the exception. -/

def configure (d : AudioDecoder) : Option AudioDecoder :=
  if d.state = .closed then none else some { d with state := .configured }

def decode (d : AudioDecoder) (chunk : EncodedAudioChunk) : Option AudioDecoder :=
  if d.state = .configured then some { d with queue := d.queue ++ [chunk] } else none

def close (d : AudioDecoder) : Option AudioDecoder :=
  if d.state = .closed then none else some ⟨.closed, []⟩

/-- The codec is through with the oldest chunk, which goes to the output callback. -/
def output (d : AudioDecoder) : Option (EncodedAudioChunk × AudioDecoder) :=
  match d.state, d.queue with
  | .configured, chunk :: queue => some (chunk, { d with queue })
  | _, _ => none

/-- The codec fails on the oldest chunk, which closes the decoder before the error callback. -/
def error (d : AudioDecoder) : Option AudioDecoder :=
  match d.state, d.queue with
  | .configured, _ :: _ => some ⟨.closed, []⟩
  | _, _ => none

end AudioDecoder

structure OpusDecoderLane where
  decoder : AudioDecoder
  baseSeq : Option UInt32
  lastSeq : Option UInt32

def createOpusDecoder : Option OpusDecoderLane :=
  AudioDecoder.create.configure.map (fun decoder => ⟨decoder, none, none⟩)

/-- A call of `decode`: the chunk that it made, and whether `decoder.decode` took it. -/
structure Submission where
  chunk : EncodedAudioChunk
  taken : Bool
  deriving DecidableEq

namespace OpusDecoderLane

/-- The timestamp for a packet, and the lane with its new marks. -/
def stamp (lane : OpusDecoderLane) (seq : UInt32) : Int × OpusDecoderLane :=
  let baseSeq := lane.baseSeq.getD seq
  let rel : Int := seq.toNat - baseSeq.toNat
  let timestamp := rel * frameDurationUs
  -- the base is moved for the packets that follow
  let rebased := match lane.lastSeq with
    | some last => if seq < last then seq else baseSeq
    | none => baseSeq
  (timestamp, { lane with baseSeq := some rebased, lastSeq := some seq })

def decode (lane : OpusDecoderLane) (packet : Bytes) (seq : UInt32) :
    Submission × OpusDecoderLane :=
  let (timestamp, lane) := lane.stamp seq
  let chunk : EncodedAudioChunk := ⟨timestamp, packet⟩
  match lane.decoder.decode chunk with
  | some decoder => (⟨chunk, true⟩, { lane with decoder })
  | none => (⟨chunk, false⟩, lane)

def close (lane : OpusDecoderLane) : OpusDecoderLane :=
  { lane with decoder := lane.decoder.close.getD lane.decoder }

theorem decode_marks (lane : OpusDecoderLane) (packet : Bytes) (seq : UInt32) :
    (lane.decode packet seq).1.chunk.timestamp = (lane.stamp seq).1 ∧
      (lane.decode packet seq).2.baseSeq = (lane.stamp seq).2.baseSeq ∧
      (lane.decode packet seq).2.lastSeq = (lane.stamp seq).2.lastSeq := by
  simp only [decode]
  split <;> exact ⟨rfl, rfl, rfl⟩

/-- A decoder takes chunks while it is configured, and stays as it is. -/
theorem decode_decoder (lane : OpusDecoderLane) (packet : Bytes) (seq : UInt32) :
    (lane.decode packet seq).1.taken = decide (lane.decoder.state = .configured) ∧
      (lane.decode packet seq).2.decoder.state = lane.decoder.state := by
  have hkeep : (lane.stamp seq).2.decoder = lane.decoder := rfl
  by_cases hstate : lane.decoder.state = .configured
  · simp [decode, AudioDecoder.decode, hkeep, hstate]
  · simp [decode, AudioDecoder.decode, hkeep, hstate]

/-- The lane before call `n` of `decode`, which finds its decoder in whatever state that has
reached since the call before. -/
def before (found : Nat → AudioDecoder) (packet : Nat → Bytes) (seq : Nat → UInt32) :
    Nat → OpusDecoderLane
  | 0 => ⟨found 0, none, none⟩
  | n + 1 => { ((before found packet seq n).decode (packet n) (seq n)).2 with
      decoder := found (n + 1) }

def timestamp (found : Nat → AudioDecoder) (packet : Nat → Bytes) (seq : Nat → UInt32)
    (n : Nat) : Int :=
  ((before found packet seq n).decode (packet n) (seq n)).1.chunk.timestamp

/-- The first packet of the run that a packet belongs to. -/
def runStart (seq : Nat → UInt32) : Nat → Nat
  | 0 => 0
  | n + 1 => if seq (n + 1) < seq n then n + 1 else runStart seq n

/-- The timeline of the first `count` packets: each run starts at zero. -/
structure Timeline (stamps : Nat → Int) (seq : Nat → UInt32) (count : Nat) : Prop where
  timestamp : ∀ k < count,
    stamps k = ((seq k).toNat - (seq (runStart seq k)).toNat) * frameDurationUs
  nonneg : ∀ k < count, 0 ≤ stamps k
  restart : ∀ k, k + 1 < count → seq (k + 1) < seq k → stamps (k + 1) = 0

/-- Every restart goes back to where the run before it started. -/
def Returns (seq : Nat → UInt32) (count : Nat) : Prop :=
  ∀ k, k + 1 < count → seq (k + 1) < seq k → seq (k + 1) = seq (runStart seq k)

variable (found : Nat → AudioDecoder) (packet : Nat → Bytes) (seq : Nat → UInt32)

/-- Packet `n` leaves the start of its run and itself behind. -/
theorem before_succ (n : Nat) :
    (before found packet seq (n + 1)).baseSeq = some (seq (runStart seq n)) ∧
      (before found packet seq (n + 1)).lastSeq = some (seq n) := by
  have hmarks (n : Nat) := decode_marks (before found packet seq n) (packet n) (seq n)
  induction n with
  | zero => exact ⟨(hmarks 0).2.1, (hmarks 0).2.2⟩
  | succ n ih =>
    obtain ⟨hbase, hlast⟩ := ih
    refine ⟨(hmarks (n + 1)).2.1.trans ?_, (hmarks (n + 1)).2.2⟩
    simp only [stamp, hbase, hlast, Option.getD_some, runStart]
    split <;> rfl

theorem timestamp_zero : timestamp found packet seq 0 = 0 := by
  rw [timestamp, (decode_marks _ _ _).1]
  simp [stamp, before]

/-- The base of a packet is the start of the run that its predecessor belongs to. -/
theorem timestamp_succ (n : Nat) :
    timestamp found packet seq (n + 1) =
      ((seq (n + 1)).toNat - (seq (runStart seq n)).toNat) * frameDurationUs := by
  rw [timestamp, (decode_marks _ _ _).1]
  simp only [stamp, (before_succ found packet seq n).1, Option.getD_some]

theorem runStart_le (n : Nat) : seq (runStart seq n) ≤ seq n := by
  induction n with
  | zero => exact UInt32.le_refl _
  | succ n ih =>
    rw [runStart]
    split_ifs with hreset
    · exact UInt32.le_refl _
    · exact UInt32.le_trans ih (UInt32.not_lt.mp hreset)

theorem timeline_of_returns (count : Nat) (h : Returns seq count) :
    Timeline (timestamp found packet seq) seq count := by
  have hstamp : ∀ k < count, timestamp found packet seq k =
      ((seq k).toNat - (seq (runStart seq k)).toNat) * frameDurationUs := by
    rintro (_ | k) hk
    · rw [timestamp_zero]
      simp [runStart]
    · rw [timestamp_succ, runStart]
      split_ifs with hreset
      · rw [h k hk hreset]
      · rfl
  refine ⟨hstamp, ?_, ?_⟩
  · intro k hk
    rw [hstamp k hk]
    have hle := UInt32.le_iff_toNat_le.mp (runStart_le seq k)
    exact mul_nonneg (by omega) (by decide)
  · intro k hk hreset
    rw [hstamp (k + 1) hk, runStart, if_pos hreset]
    simp

/-- For every sequence of SEQ values, and whatever befalls the decoder: the timestamps count each
run from its own start just if every restart goes back to where the run before it started. -/
theorem timeline_iff (count : Nat) :
    Timeline (timestamp found packet seq) seq count ↔ Returns seq count := by
  refine ⟨fun h k hk hreset => ?_, timeline_of_returns found packet seq count⟩
  have hzero := h.restart k hk hreset
  rw [timestamp_succ, mul_eq_zero] at hzero
  obtain hsame | hframe := hzero
  · exact UInt32.toNat_inj.mp (by omega)
  · cases hframe

/-- The viewer joins at packet 5, and the publisher starts again from 0. -/
def rejoined : List UInt32 := [5, 6, 0, 1]

/-- The first packet after the restart is stamped 100 ms before the first one of all. -/
theorem restart_not_zero : ¬ ∀ (found : Nat → AudioDecoder) (packet : Nat → Bytes)
    (seq : Nat → UInt32) (count : Nat), Timeline (timestamp found packet seq) seq count := by
  intro h
  have htimeline := h (fun _ => ⟨.configured, []⟩) (fun _ => []) (fun n => rejoined.getD n 0) 4
  have hzero := htimeline.restart 1 (by decide) (by decide)
  revert hzero
  decide

end OpusDecoderLane

end StreamMix.Extension
