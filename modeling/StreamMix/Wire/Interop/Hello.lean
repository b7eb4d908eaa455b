import StreamMix.Wire.Interop.Texts

namespace StreamMix.Wire

open Js (Number)
open Json (Syntax)
open Unicode (utf16 encode)
open GoJson (goString struct)

structure SameHello (p : Ts.HelloPayload) (h : Go.Hello) : Prop where
  version : p.version = .fin h.version
  client : SameText p.client h.client
  codec : SameText p.audio.codec h.audio.codec
  sampleRate : p.audio.sampleRate = .fin h.audio.sampleRate
  channels : p.audio.channels = .fin h.audio.channels
  frameMs : p.audio.frameMs = .fin h.audio.frameMS

/-- A payload with the texts of its two strings. -/
def helloText (client codec : List Nat) (n : Nat) : List Nat :=
  Json.object [
    (Ts.units "version", Json.decimal 1),
    (Ts.units "client", client),
    (Ts.units "audio", Json.object [
      (Ts.units "codec", codec),
      (Ts.units "sample_rate", Json.decimal 48000),
      (Ts.units "channels", Json.decimal n),
      (Ts.units "frame_ms", Json.decimal 20)])]

def helloValue (client codec : List Nat) (n : Nat) : List (List Nat × Syntax) :=
  [(Ts.units "version", numberOf 1),
    (Ts.units "client", .str client),
    (Ts.units "audio", .obj [
      (Ts.units "codec", .str codec),
      (Ts.units "sample_rate", numberOf 48000),
      (Ts.units "channels", numberOf n),
      (Ts.units "frame_ms", numberOf 20)])]

theorem written_hello (hclient : Written client (.str c)) (hcodec : Written codec (.str k))
    (n : Nat) : Written (helloText client codec n) (.obj (helloValue c k n)) := by
  apply written_object
  refine .cons (written_member (by decide) (written_decimal 1))
    (.cons (written_member (by decide) hclient)
      (.cons (written_member (by decide) (written_object ?_)) .nil))
  exact .cons (written_member (by decide) hcodec)
    (.cons (written_member (by decide) (written_decimal 48000))
      (.cons (written_member (by decide) (written_decimal n))
        (.cons (written_member (by decide) (written_decimal 20)) .nil)))

theorem struct_audio (k : List Nat) (hn : n < 2 ^ 63) (a : Go.Audio) :
    struct Go.audioFields (.obj [(Ts.units "codec", .str k), (Ts.units "sample_rate", numberOf 48000),
      (Ts.units "channels", numberOf n), (Ts.units "frame_ms", numberOf 20)]) a =
      some ⟨goString k, 48000, n, 20⟩ := by
  apply (struct_cons rfl rfl).trans
  apply (struct_cons rfl (int64_decimal (by decide) _ _ _)).trans
  apply (struct_cons rfl (int64_decimal hn _ _ _)).trans
  apply (struct_cons rfl (int64_decimal (by decide) _ _ _)).trans
  rfl

theorem struct_hello (c k : List Nat) (hn : n < 2 ^ 63) :
    struct Go.helloFields (.obj (helloValue c k n)) .zero =
      some ⟨1, goString c, ⟨goString k, 48000, n, 20⟩⟩ := by
  apply (struct_cons rfl (int64_decimal (by decide) _ _ _)).trans
  apply (struct_cons rfl rfl).trans
  apply (struct_cons rfl (Option.map_eq_some_iff.mpr ⟨_, struct_audio k hn _, rfl⟩)).trans
  rfl

theorem mem_constants_opus : "opus" ∈ constants := .head _

theorem Ts.HelloPayload.Checked.eq (h : Ts.HelloPayload.Checked p) :
    ∃ client, ∃ n : Nat, p = ⟨.fin 1, client, ⟨Ts.units "opus", .fin 48000, .fin n, .fin 20⟩⟩ ∧
      (n = 1 ∨ n = 2) := by
  obtain ⟨version, client, codec, rate, channels, frame⟩ := p
  obtain ⟨hversion, hlen, hcodec, hrate, hchannels, hframe⟩ := h
  simp only at hversion hcodec hrate hchannels hframe
  rw [hversion, hcodec, hrate, hframe]
  obtain h | h := hchannels
  · exact ⟨client, 1, by rw [h]; rfl, .inl rfl⟩
  · exact ⟨client, 2, by rw [h]; rfl, .inr rfl⟩

theorem encodeHello_ts (client : List Nat) (hn : n = 1 ∨ n = 2) :
    Ts.encodeHello ⟨.fin 1, client, ⟨Ts.units "opus", .fin 48000, .fin (n : Nat), .fin 20⟩⟩ =
      Ts.encodeJson (helloText (Ts.stringText client) (Ts.stringText (Ts.units "opus")) n) := by
  have h1 : Ts.numberText (.fin 1) = Json.decimal 1 := numberText_small 1 (by decide)
  have h48000 : Ts.numberText (.fin 48000) = Json.decimal 48000 := numberText_small 48000 (by decide)
  have h20 : Ts.numberText (.fin 20) = Json.decimal 20 := numberText_small 20 (by decide)
  have hchannels : Ts.numberText (.fin n) = Json.decimal n := numberText_small n (by grind)
  simp only [Ts.encodeHello, h1, h48000, h20, hchannels]
  rfl

theorem hello_of_ts (h : Ts.decodeHello buf = .ok p) (hb : Ts.encodeHello p = .ok b) :
    (∃ w, Go.decodeHello b = .ok w ∧ SameHello p w) ↔ Fits 128 p.client := by
  obtain ⟨v, hv, hof⟩ := Ts.decodeHello_eq_ok.mp h
  have hunits := hof.text (Ts.bounded_decodeJson hv)
  obtain ⟨client, n, rfl, hn⟩ := hof.toChecked.eq
  rw [encodeHello_ts client hn] at hb
  obtain ⟨rfl, hsize⟩ := Ts.encodeJson_eq_ok hb
  have hwritten := written_hello (Ts.written_stringText hunits)
    (Ts.written_constant mem_constants_opus) n
  have hread := Go.decJSON_encode hwritten hsize (struct Go.helloFields) .zero
  rw [struct_hello _ _ (by omega)] at hread
  simp only [Go.decodeHello_eq_ok, hread]
  rw [fits_iff hunits]
  constructor
  · rintro ⟨w, ⟨⟨⟩, hchecked⟩, hsame⟩
    exact ⟨hsame.client, hchecked.client⟩
  · rintro ⟨hsame, hlen⟩
    have hchannels : (n : ℤ) = 1 ∨ (n : ℤ) = 2 := by omega
    exact ⟨_, ⟨rfl, rfl, hlen, goString_constant _ mem_constants_opus, rfl, hchannels, rfl⟩, rfl, hsame,
      goString_constant _ mem_constants_opus ▸ sameText_constant mem_constants_opus, rfl, rfl, rfl⟩

theorem Go.Hello.Checked.eq (h : Go.Hello.Checked w) :
    ∃ client, ∃ n : Nat, w = ⟨1, client, ⟨ascii "opus", 48000, n, 20⟩⟩ ∧ (n = 1 ∨ n = 2) := by
  obtain ⟨version, client, codec, rate, channels, frame⟩ := w
  obtain ⟨hversion, hlen, hcodec, hrate, hchannels, hframe⟩ := h
  simp only at hversion hcodec hrate hchannels hframe
  rw [hversion, hcodec, hrate, hframe]
  obtain h | h := hchannels
  · exact ⟨client, 1, by rw [h]; rfl, .inl rfl⟩
  · exact ⟨client, 2, by rw [h]; rfl, .inr rfl⟩

theorem encodeHello_go (client : Bytes) (n : Nat) :
    Go.encodeHello ⟨1, client, ⟨ascii "opus", 48000, n, 20⟩⟩ =
      Go.encJSON (helloText (GoJson.stringText client) (GoJson.stringText (ascii "opus")) n) := by
  have h1 : GoJson.intText 1 = Json.decimal 1 := intText_natCast 1
  have h48000 : GoJson.intText 48000 = Json.decimal 48000 := intText_natCast 48000
  have h20 : GoJson.intText 20 = Json.decimal 20 := intText_natCast 20
  simp only [Go.encodeHello, h1, h48000, h20, intText_natCast]
  rfl

theorem hello_of_go (h : Go.decodeHello buf = .ok w) (hb : Go.encodeHello w = .ok b) :
    ∃ p, Ts.decodeHello b = .ok p ∧ SameHello p w := by
  obtain ⟨hdec, hchecked⟩ := Go.decodeHello_eq_ok.mp h
  obtain ⟨ps, hps, hclient⟩ := Go.utf8_hello hdec
  obtain ⟨client, n, rfl, hn⟩ := hchecked.eq
  obtain rfl : client = encode ps := hclient
  rw [encodeHello_go] at hb
  obtain ⟨rfl, hsize⟩ := Go.encJSON_eq_ok hb
  have hwritten := written_hello (Go.written_stringText hps) (Go.written_constant mem_constants_opus) n
  have hread := Ts.decodeJson_encode hwritten hsize
  have hlen := Nat.le_trans (Unicode.length_utf16_le ps) hchecked.client
  refine ⟨⟨.fin 1, utf16 ps, ⟨Ts.units "opus", .fin 48000, .fin n, .fin 20⟩⟩, ?_, ?_⟩
  · apply Ts.decodeHello_eq_ok.mpr
    have hchannels : (.fin (n : ℚ) : Number) = .fin 1 ∨ (.fin (n : ℚ) : Number) = .fin 2 := by
      obtain rfl | rfl := hn
      · exact .inl rfl
      · exact .inr rfl
    exact ⟨_, hread, ⟨rfl, hlen, rfl, rfl, hchannels, rfl⟩,
      get_number 1 rfl (by decide), rfl, _, rfl, rfl, get_number 48000 rfl (by decide),
      get_number n rfl (by omega), get_number 20 rfl (by decide)⟩
  · exact ⟨rfl, sameText_encode hps, sameText_constant mem_constants_opus, rfl, rfl, rfl⟩

end StreamMix.Wire
