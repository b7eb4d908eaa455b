import StreamMix.Wire.Checks

/-! What the Go decoders leave unread, and what they take for an object. -/

namespace StreamMix.Wire.Go

open GoJson (Decoder struct)
open Json (Syntax)

/-- Valid UTF-8 of at most 4096 bytes: one JSON object, white space around it, and nothing
else. -/
def OneObject (buf : Bytes) : Prop :=
  buf.length ≤ maxJSONBytes ∧
    ∃ text fields, jsString buf = some text ∧ Json.parse text = some (.obj fields)

/-- The first value of a buffer and the text behind it. -/
def first (buf : Bytes) : Option (Syntax × List Nat) := (jsString buf).bind Json.readFirst

/-- Behind the first value comes a bracket or a brace that closes nothing. -/
def Unbalanced (buf : Bytes) : Prop :=
  ∃ v rest, first buf = some (v, rest) ∧
    ∃ c s, Json.skip rest = c :: s ∧ (c = 0x5d ∨ c = 0x7d)

def LeadsWithNull (buf : Bytes) : Prop := ∃ rest, first buf = some (.null, rest)

/-- An object, or `null`, which changes nothing. -/
theorem struct_eq_some {fields : List (List Nat × Decoder α)} (h : struct fields v zero = some a) :
    (∃ members, v = .obj members) ∨ v = .null := by
  cases v with
  | obj members => exact .inl ⟨members, rfl⟩
  | null => exact .inr rfl
  | _ => cases h

/-- A text that is parsed as a whole is its first value. -/
theorem first_of_parse (htext : jsString buf = some text) (h : Json.parse text = some w) :
    ∃ v rest, first buf = some (v, rest) ∧ v.value = w ∧ Json.skip rest = [] := by
  have hparse := (Json.parse_eq_read (2 * text.length + 1)).1 (Json.skip text)
  rw [first, htext, Option.bind_some, Json.readFirst]
  simp only [Json.parse, hparse] at h
  cases hread : Json.readValue (2 * text.length + 1) (Json.skip text) with
  | none =>
    rw [hread] at h
    cases h
  | some p =>
    obtain ⟨v, rest⟩ := p
    simp only [hread, Option.map_some] at h
    split_ifs at h with hskip
    cases h
    exact ⟨v, rest, rfl, rfl, hskip⟩

/-- What is decoded into a struct comes from one object alone, except behind a bracket that
closes nothing and from `null`. -/
theorem decJSON_strict_iff (fields : List (List Nat × Decoder α)) (zero : α) (buf : Bytes) (a : α)
    (h : decJSON buf (struct fields) zero = .ok a) :
    OneObject buf ↔ ¬ Unbalanced buf ∧ ¬ LeadsWithNull buf := by
  obtain ⟨hlen, text, v, rest, htext, hread, hdec, hmore⟩ := decJSON_eq_ok h
  have hfirst : first buf = some (v, rest) := by rw [first, htext, Option.bind_some, hread]
  constructor
  · rintro ⟨-, text', members, htext', hparse⟩
    obtain ⟨v', rest', hfirst', hvalue, hskip⟩ := first_of_parse htext' hparse
    constructor
    · rintro ⟨w, r, hw, c, s, hs, -⟩
      cases hfirst'.symm.trans hw
      rw [hskip] at hs
      cases hs
    · rintro ⟨r, hr⟩
      cases hfirst'.symm.trans hr
      cases hvalue
  · rintro ⟨hbalanced, hnull⟩
    have hskip : Json.skip rest = [] := by
      cases hs : Json.skip rest with
      | nil => rfl
      | cons c s => exact absurd ⟨v, rest, hfirst, c, s, hs, hmore c s hs⟩ hbalanced
    obtain ⟨members, rfl⟩ | rfl := struct_eq_some hdec
    · exact ⟨hlen, text, _, htext, Json.parse_of_readFirst hread hskip⟩
    · exact absurd ⟨rest, hfirst⟩ hnull

def noStats : Bytes :=
  ascii "\x7b\"uptime_s\":0,\"packets_sent\":0,\"subscribers\":0,\"tracks_active\":0\x7d"

theorem decJSON_strict_noStats :
    OneObject noStats ↔ ¬ Unbalanced noStats ∧ ¬ LeadsWithNull noStats :=
  decJSON_strict_iff statsFields ⟨0, 0, 0, 0⟩ noStats ⟨0, 0, 0, 0⟩ (by decide +kernel)

/-- Junk behind a bracket, and `null`. -/
theorem decodeStats_junk :
    decodeStats (noStats ++ ascii "] and more") = .ok ⟨0, 0, 0, 0⟩ ∧
      ¬ OneObject (noStats ++ ascii "] and more") ∧
    decodeStats (ascii "null") = .ok ⟨0, 0, 0, 0⟩ ∧ ¬ OneObject (ascii "null") := by
  refine ⟨by decide +kernel, ?_, by decide +kernel, ?_⟩
  · rintro ⟨-, text, fields, htext, hparse⟩
    have hnone : ((jsString (noStats ++ ascii "] and more")).bind Json.parse).isSome = false := by
      decide +kernel
    rw [htext, Option.bind_some, hparse] at hnone
    cases hnone
  · rintro ⟨-, text, fields, htext, hparse⟩
    cases htext
    cases hparse

end StreamMix.Wire.Go
