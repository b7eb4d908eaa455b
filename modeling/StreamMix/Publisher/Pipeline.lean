import StreamMix.Lib.Blocks
import StreamMix.Publisher.Announce
import StreamMix.Publisher.WsClient

universe u v

/-! The pipeline of one track, from the samples that the capture delivers to the frames that
go through `Enqueue`. -/

namespace StreamMix.Publisher

open Wire

def kFrameSamples : Nat := 960

def kChannels : Nat := 2

def kNeed : Nat := kFrameSamples * kChannels

variable {Sample : Type u} {σ : Type v}

/-- `std::vector::resize`. -/
def resize (out : Bytes) (n : Nat) : Bytes := out.take n ++ List.replicate (n - out.length) 0

section

-- `opus_encode_float`: what it returns, what it leaves in the output buffer and its next state
variable (opus : σ → List Sample → Int × Bytes × σ)

/-- `OpusEncoder::Encode`. -/
def encode (enc : σ) (samples : List Sample) : Bytes × σ :=
  if samples.length ≠ kFrameSamples * kChannels then ([], enc)
  else
    match opus enc samples with
    | (written, out, enc) => if written < 0 then ([], enc) else (resize out written.toNat, enc)

/-- The packets of consecutive blocks. -/
def encodeAll : σ → List (List Sample) → List Bytes × σ
  | enc, [] => ([], enc)
  | enc, block :: blocks =>
    ((encode opus enc block).1 :: (encodeAll (encode opus enc block).2 blocks).1,
      (encodeAll (encode opus enc block).2 blocks).2)

/-- Those that are sent. -/
def packets (enc : σ) (blocks : List (List Sample)) : List Bytes :=
  (encodeAll opus enc blocks).1.filter (fun packet => !packet.isEmpty)

end

/-- `blocks` and `queued` are ghosts: what was passed to `Encode` and to `Enqueue`. -/
structure TrackPipeline (Sample : Type u) (σ : Type v) where
  encoder : σ
  buffer : List Sample
  seq : UInt32
  blocks : List (List Sample)
  queued : List Bytes

namespace TrackPipeline

section

-- `clock n` is what `NowMs` shows after the `n`-th block
variable (opus : σ → List Sample → Int × Bytes × σ) (t : TrackSpec) (clock : Nat → UInt64)

def create (enc : σ) : TrackPipeline Sample σ := ⟨enc, [], 0, [], []⟩

/-- The body of the loop. -/
def turn (p : TrackPipeline Sample σ) : TrackPipeline Sample σ :=
  let block := p.buffer.take kNeed
  let encoded := encode opus p.encoder block
  let next := { p with
    encoder := encoded.2
    buffer := p.buffer.drop kNeed
    blocks := p.blocks ++ [block] }
  if encoded.1.isEmpty then next
  else
    let seq := p.seq + 1
    let bytes := encodeFrameOrLog (audioFrame t seq (clock p.blocks.length) encoded.1)
    if bytes.isEmpty then { next with seq := seq }
    else { next with seq := seq, queued := p.queued ++ [bytes] }

theorem buffer_turn (p : TrackPipeline Sample σ) :
    (p.turn opus t clock).buffer = p.buffer.drop kNeed := by
  simp only [turn]
  split
  · rfl
  · split <;> rfl

/-- `while (p->buffer.size() >= kNeed)`. -/
def drain (p : TrackPipeline Sample σ) : TrackPipeline Sample σ :=
  if kNeed ≤ p.buffer.length then (p.turn opus t clock).drain else p
termination_by p.buffer.length
decreasing_by
  have hpos : 0 < kNeed := by decide
  rw [buffer_turn, List.length_drop]
  omega

/-- The callback of the capture. -/
def feed (p : TrackPipeline Sample σ) (samples : List Sample) : TrackPipeline Sample σ :=
  { p with buffer := p.buffer ++ samples }.drain opus t clock

/-- The chunks that the capture delivers. -/
def capture (enc : σ) (chunks : List (List Sample)) : TrackPipeline Sample σ :=
  chunks.foldl (feed opus t clock) (create enc)

end

section

variable {opus : σ → List Sample → Int × Bytes × σ} {t : TrackSpec} {clock : Nat → UInt64}
  {enc : σ} {p : TrackPipeline Sample σ}

theorem encodeAll_concat (opus : σ → List Sample → Int × Bytes × σ) (enc : σ)
    (blocks : List (List Sample)) (block : List Sample) :
    encodeAll opus enc (blocks ++ [block]) =
      ((encodeAll opus enc blocks).1 ++ [(encode opus (encodeAll opus enc blocks).2 block).1],
        (encode opus (encodeAll opus enc blocks).2 block).2) := by
  induction blocks generalizing enc with
  | nil => rfl
  | cons first blocks ih => simp only [List.cons_append, encodeAll, ih]

theorem packets_concat (opus : σ → List Sample → Int × Bytes × σ) (enc : σ)
    (blocks : List (List Sample)) (block : List Sample) :
    packets opus enc (blocks ++ [block]) = packets opus enc blocks ++
      if (encode opus (encodeAll opus enc blocks).2 block).1.isEmpty then []
      else [(encode opus (encodeAll opus enc blocks).2 block).1] := by
  rw [packets, encodeAll_concat, List.filter_append, packets]
  congr 1
  split <;> simp_all

theorem length_resize (out : Bytes) (n : Nat) : (resize out n).length = n := by
  rw [resize, List.length_append, List.length_take, List.length_replicate]
  omega

theorem length_encode_le (hopus : ∀ enc samples, (opus enc samples).1 ≤ 4000) (enc : σ)
    (samples : List Sample) : (encode opus enc samples).1.length ≤ 4000 := by
  have hle := hopus enc samples
  simp only [encode]
  split_ifs
  · exact Nat.zero_le _
  · exact Nat.zero_le _
  · rw [length_resize]
    omega

/-- The frames of a track: its packets under the sequence numbers 1, 2 and so on. -/
structure Numbered (t : TrackSpec) (sent queued : List Bytes) : Prop where
  length : queued.length = sent.length
  frame : ∀ k packet, sent[k]? = some packet → ∃ now bytes, queued[k]? = some bytes ∧
    Cpp.encodeFrame (audioFrame t (UInt32.ofNat (k + 1)) now packet) = .ok bytes

theorem Numbered.concat {sent queued : List Bytes} (h : Numbered t sent queued)
    (hok : Cpp.encodeFrame (audioFrame t (UInt32.ofNat (sent.length + 1)) now packet) = .ok bytes) :
    Numbered t (sent ++ [packet]) (queued ++ [bytes]) where
  length := by simp [h.length]
  frame k q hq := by
    rcases Nat.lt_or_ge k sent.length with hlt | hge
    · rw [List.getElem?_append_left hlt] at hq
      rw [List.getElem?_append_left (h.length ▸ hlt)]
      exact h.frame k q hq
    · rw [List.getElem?_append_right hge, List.getElem?_singleton] at hq
      split_ifs at hq with hk
      cases hq
      have hk : k = sent.length := by omega
      refine ⟨now, bytes, ?_, hk ▸ hok⟩
      rw [hk, ← h.length]
      simp

/-- What the pipeline has done with the samples so far. -/
structure Follows (opus : σ → List Sample → Int × Bytes × σ) (t : TrackSpec) (enc : σ)
    (stream : List Sample) (p : TrackPipeline Sample σ) : Prop where
  whole : p.blocks.flatten ++ p.buffer = stream
  sized : ∀ block ∈ p.blocks, block.length = kNeed
  encoder : p.encoder = (encodeAll opus enc p.blocks).2
  seq : p.seq = UInt32.ofNat (packets opus enc p.blocks).length
  queued : Numbered t (packets opus enc p.blocks) p.queued

theorem follows_create (enc : σ) : Follows opus t enc [] (create enc) where
  whole := rfl
  sized := nofun
  encoder := rfl
  seq := rfl
  queued := ⟨rfl, nofun⟩

/-- Opus packets have room in a frame. -/
theorem encodeFrame_audio (ht : t.id.toNat ≤ maxTrackSlot) (seq : UInt32) (now : UInt64)
    (hlen : packet.length ≤ 4000) :
    Cpp.encodeFrame (audioFrame t seq now packet) =
        .ok (encodeFrameOrLog (audioFrame t seq now packet)) ∧
      (encodeFrameOrLog (audioFrame t seq now packet)).isEmpty = false := by
  have hvalid : (audioFrame t seq now packet).Valid :=
    ⟨Nat.le_trans hlen (by decide), ht, MessageType.isKnownType_code .audioOpus⟩
  have hok := (Cpp.encodeFrame_ok_iff _ _).mpr ⟨hvalid, rfl⟩
  rw [encodeFrameOrLog, hok]
  exact ⟨rfl, rfl⟩

theorem Follows.turn (h : Follows opus t enc stream p) (ht : t.id.toNat ≤ maxTrackSlot)
    (hopus : ∀ enc samples, (opus enc samples).1 ≤ 4000) (hfull : kNeed ≤ p.buffer.length) :
    Follows opus t enc stream (p.turn opus t clock) := by
  have hwhole : (p.blocks ++ [p.buffer.take kNeed]).flatten ++ p.buffer.drop kNeed = stream := by
    rw [← h.whole, List.flatten_append, List.flatten_singleton, List.append_assoc,
      List.take_append_drop]
  have hsized : ∀ block ∈ p.blocks ++ [p.buffer.take kNeed], block.length = kNeed := by
    intro block hblock
    rcases List.mem_append.mp hblock with hblock | hblock
    · exact h.sized block hblock
    · rw [List.mem_singleton.mp hblock, List.length_take, Nat.min_eq_left hfull]
  have hall := encodeAll_concat opus enc p.blocks (p.buffer.take kNeed)
  have hpackets := packets_concat opus enc p.blocks (p.buffer.take kNeed)
  rw [← h.encoder] at hall hpackets
  have hlen := length_encode_le hopus p.encoder (p.buffer.take kNeed)
  simp only [TrackPipeline.turn]
  by_cases hempty : (encode opus p.encoder (p.buffer.take kNeed)).1.isEmpty
  · rw [if_pos hempty] at hpackets ⊢
    rw [List.append_nil] at hpackets
    refine ⟨hwhole, hsized, ?_, ?_, ?_⟩
    · rw [hall]
    · rw [hpackets]
      exact h.seq
    · rw [hpackets]
      exact h.queued
  · have hseq : p.seq + 1 = UInt32.ofNat ((packets opus enc p.blocks).length + 1) := by
      rw [h.seq, UInt32.ofNat_add]
      rfl
    obtain ⟨hok, hbytes⟩ := encodeFrame_audio ht (p.seq + 1) (clock p.blocks.length) hlen
    rw [if_neg hempty] at hpackets ⊢
    simp only [hbytes, Bool.false_eq_true, if_false]
    refine ⟨hwhole, hsized, ?_, ?_, ?_⟩
    · rw [hall]
    · rw [hpackets, hseq, List.length_append, List.length_singleton]
    · rw [hpackets]
      apply h.queued.concat
      rw [← hseq]
      exact hok

/-- The loop ends with less than a block. -/
theorem Follows.drain (h : Follows opus t enc stream p) (ht : t.id.toNat ≤ maxTrackSlot)
    (hopus : ∀ enc samples, (opus enc samples).1 ≤ 4000) :
    Follows opus t enc stream (p.drain opus t clock) ∧
      (p.drain opus t clock).buffer.length < kNeed := by
  fun_induction TrackPipeline.drain opus t clock p with
  | case1 p hfull ih => exact ih (h.turn ht hopus hfull)
  | case2 p hshort => exact ⟨h, Nat.lt_of_not_le hshort⟩

theorem Follows.feed (h : Follows opus t enc stream p) (ht : t.id.toNat ≤ maxTrackSlot)
    (hopus : ∀ enc samples, (opus enc samples).1 ≤ 4000) (samples : List Sample) :
    Follows opus t enc (stream ++ samples) (p.feed opus t clock samples) ∧
      (p.feed opus t clock samples).buffer.length < kNeed := by
  have hgrown : Follows opus t enc (stream ++ samples) { p with buffer := p.buffer ++ samples } := by
    refine ⟨?_, h.sized, h.encoder, h.seq, h.queued⟩
    rw [← h.whole, List.append_assoc]
  exact hgrown.drain ht hopus

theorem follows_capture (ht : t.id.toNat ≤ maxTrackSlot)
    (hopus : ∀ enc samples, (opus enc samples).1 ≤ 4000) (chunks : List (List Sample)) :
    Follows opus t enc chunks.flatten (capture opus t clock enc chunks) ∧
      (capture opus t clock enc chunks).buffer.length < kNeed := by
  induction chunks using List.reverseRecOn with
  | nil => exact ⟨follows_create enc, show 0 < kNeed by decide⟩
  | append_singleton chunks samples ih =>
    rw [List.flatten_append, List.flatten_singleton, capture, List.foldl_append]
    exact ih.1.feed ht hopus samples

/-- For every way of cutting the samples of a track into chunks: its blocks are the consecutive
ones of the stream, what is left is shorter than a block, and the packets are numbered in order. -/
theorem capture_framed (hargs : parseArgs args = .ok cfg) (ht : t ∈ cfg.tracks)
    (hopus : ∀ enc samples, (opus enc samples).1 ≤ 4000) (enc : σ) (clock : Nat → UInt64)
    (chunks : List (List Sample)) :
    (capture opus t clock enc chunks).blocks = Blocks.blocks kNeed chunks.flatten ∧
      (capture opus t clock enc chunks).buffer = Blocks.rest kNeed chunks.flatten ∧
      (capture opus t clock enc chunks).buffer.length < kNeed ∧
      Numbered t (packets opus enc (Blocks.blocks kNeed chunks.flatten))
        (capture opus t clock enc chunks).queued ∧
      ∀ (clock' : Nat → UInt64) (chunks' : List (List Sample)), chunks'.flatten = chunks.flatten →
        (capture opus t clock' enc chunks').blocks = (capture opus t clock enc chunks).blocks ∧
          (capture opus t clock' enc chunks').buffer = (capture opus t clock enc chunks).buffer ∧
          (capture opus t clock' enc chunks').seq = (capture opus t clock enc chunks).seq := by
  obtain ⟨hchecked, -, hcount⟩ := checked_parseArgs hargs
  have hslot : t.id.toNat ≤ maxTrackSlot := (hchecked.each hcount t ht).2.2
  have hcut (clock : Nat → UInt64) (chunks : List (List Sample)) :
      Follows opus t enc chunks.flatten (capture opus t clock enc chunks) ∧
        (capture opus t clock enc chunks).buffer.length < kNeed :=
    follows_capture hslot hopus chunks
  have hblocks (clock : Nat → UInt64) (chunks : List (List Sample)) :=
    Blocks.blocks_unique (hcut clock chunks).1.whole (hcut clock chunks).1.sized
      (hcut clock chunks).2
  obtain ⟨hfollows, hshort⟩ := hcut clock chunks
  obtain ⟨hb, hr⟩ := hblocks clock chunks
  refine ⟨hb, hr, hshort, hb ▸ hfollows.queued, ?_⟩
  intro clock' chunks' hsame
  obtain ⟨hb', hr'⟩ := hblocks clock' chunks'
  rw [hsame, ← hb] at hb'
  rw [hsame, ← hr] at hr'
  refine ⟨hb', hr', ?_⟩
  rw [(hcut clock' chunks').1.seq, hfollows.seq, hb']

end

/-- An encoder that meets silence only. -/
def silence (enc : Unit) (_ : List Int) : Int × Bytes × Unit :=
  (3, [0xf8, 0xff, 0xfe] ++ List.replicate 3997 0, enc)

theorem silence_le (enc : Unit) (samples : List Int) : (silence enc samples).1 ≤ 4000 :=
  show (3 : Int) ≤ 4000 by decide

def chunks : List (List Int) := [List.replicate 1000 0, [], List.replicate 3000 0]

/-- Two blocks in three chunks. -/
theorem capture_framed_silence :
    parseArgs (required ++ [ascii "--track", ascii "music:Spotify.exe"]) = .ok (configOf [music]) ∧
      (capture silence music (fun _ => 0) () chunks).blocks =
        Blocks.blocks kNeed chunks.flatten ∧
      Numbered music (packets silence () (Blocks.blocks kNeed chunks.flatten))
        (capture silence music (fun _ => 0) () chunks).queued := by
  have hargs : parseArgs (required ++ [ascii "--track", ascii "music:Spotify.exe"]) =
      .ok (configOf [music]) := by
    decide
  have hframed := capture_framed hargs (.head _) silence_le () (fun _ => 0) chunks
  exact ⟨hargs, hframed.1, hframed.2.2.2.1⟩

end TrackPipeline

end StreamMix.Publisher
