import StreamMix.Wire.Interop.Texts

namespace StreamMix.Wire

open Json (Syntax)
open Unicode (utf16 encode)
open GoJson (goString struct)

structure SameError (p : Ts.ErrorPayload) (e : Go.ErrorPayload) : Prop where
  code : SameText p.code e.code
  message : SameText p.message e.message

def errorText (code message : List Nat) : List Nat :=
  Json.object [(Ts.units "code", code), (Ts.units "message", message)]

def errorValue (code message : List Nat) : List (List Nat × Syntax) :=
  [(Ts.units "code", .str code), (Ts.units "message", .str message)]

theorem written_error (hcode : Written code (.str c)) (hmessage : Written message (.str m)) :
    Written (errorText code message) (.obj (errorValue c m)) :=
  written_object (.cons (written_member (by decide) hcode)
    (.cons (written_member (by decide) hmessage) .nil))

theorem mem_constants_code (h : c ∈ errorCodes) : c ∈ constants :=
  .tail _ (.tail _ (List.mem_append_right _ h))

theorem isErrorCode_ts (h : Ts.isErrorCode s = true) : ∃ c ∈ errorCodes, s = Ts.units c := by
  obtain ⟨c, hc, heq⟩ := List.any_eq_true.mp h
  exact ⟨c, hc, (eq_of_beq heq).symm⟩

theorem isErrorCode_go (h : Go.isErrorCode s = true) : ∃ c ∈ errorCodes, s = ascii c := by
  obtain ⟨c, hc, heq⟩ := List.any_eq_true.mp h
  exact ⟨c, hc, (eq_of_beq heq).symm⟩

theorem error_of_ts (h : Ts.decodeError buf = .ok p) (hb : Ts.encodeError p = .ok b) :
    (∃ w, Go.decodeError b = .ok w ∧ SameError p w) ↔ Fits 512 p.message := by
  obtain ⟨v, hv, hof⟩ := Ts.decodeError_eq_ok.mp h
  have hunits : Unicode.Units p.message := Ts.bounded_get (Ts.bounded_decodeJson hv) hof.get_message
  obtain ⟨c, hc, hcode⟩ := isErrorCode_ts hof.code
  obtain ⟨code, message⟩ := p
  obtain rfl : code = Ts.units c := hcode
  have hconstant := mem_constants_code hc
  obtain ⟨rfl, hsize⟩ := Ts.encodeJson_eq_ok hb
  have hwritten := written_error (Ts.written_constant hconstant) (Ts.written_stringText hunits)
  have hread := Go.decJSON_encode hwritten hsize (struct Go.errorFields) ⟨[], []⟩
  have hvalue : struct Go.errorFields (.obj (errorValue (Ts.units c) message)) ⟨[], []⟩ =
      some ⟨ascii c, goString message⟩ := by
    rw [← goString_constant c hconstant]
    apply (struct_cons rfl rfl).trans
    apply (struct_cons rfl rfl).trans
    rfl
  rw [hvalue] at hread
  simp only [Go.decodeError_eq_ok, errorText] at hread ⊢
  rw [hread, fits_iff hunits]
  constructor
  · rintro ⟨w, ⟨⟨⟩, hchecked⟩, hsame⟩
    exact ⟨hsame.message, hchecked.message⟩
  · rintro ⟨hsame, hlen⟩
    exact ⟨_, ⟨rfl, List.any_eq_true.mpr ⟨c, hc, beq_self_eq_true _⟩, hlen⟩,
      sameText_constant hconstant, hsame⟩

theorem error_of_go (h : Go.decodeError buf = .ok w) (hb : Go.encodeError w = .ok b) :
    ∃ p, Ts.decodeError b = .ok p ∧ SameError p w := by
  obtain ⟨hdec, hchecked⟩ := Go.decodeError_eq_ok.mp h
  obtain ⟨ps, hps, hmessage⟩ := Go.utf8_error hdec
  obtain ⟨c, hc, hcode⟩ := isErrorCode_go hchecked.code
  obtain ⟨code, message⟩ := w
  obtain rfl : code = ascii c := hcode
  obtain rfl : message = encode ps := hmessage
  have hconstant := mem_constants_code hc
  obtain ⟨rfl, hsize⟩ := Go.encJSON_eq_ok hb
  have hwritten := written_error (Go.written_constant hconstant) (Go.written_stringText hps)
  have hread := Ts.decodeJson_encode hwritten hsize
  have hlen := Nat.le_trans (Unicode.length_utf16_le ps) hchecked.message
  refine ⟨⟨Ts.units c, utf16 ps⟩, ?_, sameText_constant hconstant, sameText_encode hps⟩
  apply Ts.decodeError_eq_ok.mpr
  exact ⟨_, hread, ⟨List.any_eq_true.mpr ⟨c, hc, beq_self_eq_true _⟩, hlen⟩, rfl, rfl⟩

end StreamMix.Wire
