import StreamMix.Lib.JsonUnits
import StreamMix.Wire.Payloads

namespace StreamMix.Wire

open Json (Syntax Reads quote backslash isPlain)
open Unicode (Scalar Units utf16 codePoints encode)

/-- A text of code points that is read as the value after it went through UTF-8. -/
structure Written (t : List Nat) (v : Syntax) : Prop where
  scalar : ∀ p ∈ t, Scalar p
  reads : Reads (utf16 t) v

theorem scalar_of_lt (h : p < 0x80) : Scalar p := by
  simp only [Scalar, Unicode.isSurrogate, Bool.and_eq_false_iff, decide_eq_false_iff_not]
  omega

section Documents

theorem utf16_cons (h : p < 0x10000) (t : List Nat) : utf16 (p :: t) = p :: utf16 t := by
  rw [← List.singleton_append, Unicode.utf16_append, Json.utf16_of_lt (by simpa using h)]
  rfl

theorem utf16_commas (ts : List (List Nat)) :
    utf16 (Json.commas ts) = Json.commas (ts.map utf16) := by
  induction ts using Json.commas.induct with
  | case1 => rfl
  | case2 t => rfl
  | case3 t ts hne ih =>
    obtain ⟨t', ts, rfl⟩ := List.exists_cons_of_ne_nil hne
    simp only [Json.commas, List.map_cons, Unicode.utf16_append, utf16_cons (show 0x2c < 0x10000 by decide)]
    rw [ih]
    rfl

theorem mem_commas (h : p ∈ Json.commas ts) : p = 0x2c ∨ ∃ t ∈ ts, p ∈ t := by
  induction ts using Json.commas.induct with
  | case1 => cases h
  | case2 t => exact .inr ⟨t, .head _, h⟩
  | case3 t ts hne ih =>
    obtain ⟨t', ts, rfl⟩ := List.exists_cons_of_ne_nil hne
    simp only [Json.commas, List.mem_append, List.mem_cons] at h
    obtain h | h | h := h
    · exact .inr ⟨t, .head _, h⟩
    · exact .inl h
    · obtain h | ⟨u, hu, h⟩ := ih h
      · exact .inl h
      · exact .inr ⟨u, .tail _ hu, h⟩

theorem exists_right {R : α → β → Prop} {as : List α} {bs : List β} (h : List.Forall₂ R as bs)
    (ha : a ∈ as) : ∃ b, R a b := by
  induction h with
  | nil => cases ha
  | cons hab _ ih =>
    cases ha with
    | head => exact ⟨_, hab⟩
    | tail _ ha => exact ih ha

theorem exists_left {R : α → β → Prop} {as : List α} {bs : List β} (h : List.Forall₂ R as bs)
    (hb : b ∈ bs) : ∃ a ∈ as, R a b := by
  induction h with
  | nil => cases hb
  | cons hab _ ih =>
    cases hb with
    | head => exact ⟨_, .head _, hab⟩
    | tail _ hb =>
      obtain ⟨a, ha, hab⟩ := ih hb
      exact ⟨a, .tail _ ha, hab⟩

/-- A name that is written as it stands. -/
def Name (k : List Nat) : Prop := ∀ c ∈ k, isPlain c = true ∧ c < 0x80

instance : Decidable (Name k) := inferInstanceAs (Decidable (∀ c ∈ k, _))

def WrittenMember (m : List Nat × List Nat) (f : List Nat × Syntax) : Prop :=
  m.1 = f.1 ∧ Name m.1 ∧ Written m.2 f.2

theorem written_member (hk : Name k) (h : Written t v) : WrittenMember (k, t) (k, v) :=
  ⟨rfl, hk, h⟩

theorem utf16_member {m : List Nat × List Nat} (h : Name m.1) :
    utf16 (Json.member m) = Json.member (m.1, utf16 m.2) := by
  have hname : utf16 m.1 = m.1 := Json.utf16_of_lt (fun c hc => by
    have := (h c hc).2
    omega)
  rw [Json.member, List.cons_append, utf16_cons (by decide), Unicode.utf16_append, hname,
    utf16_cons (by decide), utf16_cons (by decide)]
  rfl

theorem written_object {ms : List (List Nat × List Nat)} {fs : List (List Nat × Syntax)}
    (h : List.Forall₂ WrittenMember ms fs) : Written (Json.object ms) (.obj fs) where
  scalar p hp := by
    have hmember : ∀ m ∈ ms, ∀ p ∈ Json.member m, Scalar p := by
      intro m hm p hp
      obtain ⟨f, -, hname, hv⟩ := exists_right h hm
      simp only [Json.member, List.cons_append, List.mem_cons, List.mem_append] at hp
      obtain rfl | hp | rfl | rfl | hp := hp
      · exact scalar_of_lt (by decide)
      · exact scalar_of_lt (hname p hp).2
      · exact scalar_of_lt (by decide)
      · exact scalar_of_lt (by decide)
      · exact hv.scalar p hp
    simp only [Json.object, List.cons_append, List.mem_cons, List.mem_append, List.not_mem_nil,
      or_false] at hp
    obtain rfl | hp | rfl := hp
    · exact scalar_of_lt (by decide)
    · obtain rfl | ⟨t, ht, hp⟩ := mem_commas hp
      · exact scalar_of_lt (by decide)
      · obtain ⟨m, hm, rfl⟩ := List.mem_map.mp ht
        exact hmember m hm p hp
    · exact scalar_of_lt (by decide)
  reads := by
    have htext : utf16 (Json.object ms) = Json.object (ms.map (fun m => (m.1, utf16 m.2))) := by
      have hmap : (ms.map Json.member).map utf16 =
          (ms.map (fun m => (m.1, utf16 m.2))).map Json.member := by
        rw [List.map_map, List.map_map]
        apply List.map_congr_left
        intro m hm
        obtain ⟨f, -, hname, -⟩ := exists_right h hm
        exact utf16_member hname
      rw [Json.object, List.cons_append, utf16_cons (by decide), Unicode.utf16_append, utf16_commas,
        hmap]
      rfl
    rw [htext]
    apply Json.reads_object
    apply List.forall₂_map_left_iff.mpr
    apply h.imp
    intro m f hm
    exact ⟨hm.1, fun c hc => (hm.2.1 c hc).1, hm.2.2.reads⟩

theorem written_array {ts : List (List Nat)} {vs : List Syntax} (h : List.Forall₂ Written ts vs) :
    Written (Json.array ts) (.arr vs) where
  scalar p hp := by
    simp only [Json.array, List.cons_append, List.mem_cons, List.mem_append, List.not_mem_nil,
      or_false] at hp
    obtain rfl | hp | rfl := hp
    · exact scalar_of_lt (by decide)
    · obtain rfl | ⟨t, ht, hp⟩ := mem_commas hp
      · exact scalar_of_lt (by decide)
      · obtain ⟨v, hv⟩ := exists_right h ht
        exact hv.scalar p hp
    · exact scalar_of_lt (by decide)
  reads := by
    have htext : utf16 (Json.array ts) = Json.array (ts.map utf16) := by
      rw [Json.array, List.cons_append, utf16_cons (by decide), Unicode.utf16_append, utf16_commas]
      rfl
    rw [htext]
    apply Json.reads_array
    apply List.forall₂_map_left_iff.mpr
    exact h.imp (fun _ _ hv => hv.reads)

end Documents

section Strings

/-- The escape of a code point can be encoded and is read back. -/
def Shown (escape : Nat → List Nat) (p : Nat) : Prop :=
  (∀ q ∈ escape p, Scalar q) ∧ Json.Escapes escape p

theorem written_quoted {escape : Nat → List Nat} {ps : List Nat}
    (h : ∀ p ∈ ps, Shown escape p) : Written (Json.quoted escape ps) (.str (utf16 ps)) where
  scalar q hq := by
    simp only [Json.quoted, List.cons_append, List.mem_cons, List.mem_append, List.mem_flatMap,
      List.not_mem_nil, or_false] at hq
    obtain rfl | ⟨p, hp, hq⟩ | rfl := hq
    · exact scalar_of_lt (by decide)
    · exact (h p hp).1 q hq
    · exact scalar_of_lt (by decide)
  reads := Json.reads_quoted (fun p hp => (h p hp).2)

variable {escape : Nat → List Nat}

theorem shown_letter (he : escape p = [backslash, e]) (hu : e ≠ 0x75)
    (h : Json.escape e = some p) (hsmall : e < 0x80) : Shown escape p := by
  constructor
  · rw [he]
    simp only [List.mem_cons, List.not_mem_nil, or_false]
    rintro q (rfl | rfl)
    · exact scalar_of_lt (by decide)
    · exact scalar_of_lt hsmall
  · exact Json.escapes_letter he hu h

theorem hexChar_lt (d : Nat) : Json.hexChar (d % 16) < 0x80 := by
  rw [Json.hexChar]
  split_ifs <;> omega

theorem shown_unicode (hp : p < 0x10000) (he : escape p = Json.unicodeEscape p) :
    Shown escape p := by
  constructor
  · intro q hq
    apply scalar_of_lt
    simp only [he, Json.unicodeEscape, List.mem_cons, List.not_mem_nil, or_false] at hq
    obtain rfl | rfl | rfl | rfl | rfl | rfl := hq
    · decide
    · decide
    · exact hexChar_lt _
    · exact hexChar_lt _
    · exact hexChar_lt _
    · exact hexChar_lt _
  · exact Json.escapes_unicode hp he

theorem shown_self (hp : Scalar p) (hplain : isPlain p = true) (he : escape p = [p]) :
    Shown escape p := by
  constructor
  · rw [he]
    simpa using hp
  · exact Json.escapes_self hplain he

theorem isPlain_iff : isPlain p = true ↔ p ≠ quote ∧ p ≠ backslash ∧ 0x20 ≤ p := by
  simp [isPlain, and_assoc]

theorem Ts.shown (hp : p < 0x110000) : Shown Ts.escape p := by
  have hself := Ts.escape.eq_def p
  split_ifs at hself with h1 h2 h3 h4 h5 h6 h7
  · exact shown_letter hself (by decide) (h1 ▸ rfl) (by decide)
  · exact shown_letter hself (by decide) (h2 ▸ rfl) (by decide)
  · exact shown_letter hself (by decide) (h3 ▸ rfl) (by decide)
  · exact shown_letter hself (by decide) (h4 ▸ rfl) (by decide)
  · exact shown_letter hself (by decide) (h5 ▸ rfl) (by decide)
  · obtain rfl | rfl := h6 <;> exact shown_letter hself (by decide) rfl (by decide)
  · apply shown_unicode _ hself
    simp only [Unicode.isSurrogate, Bool.and_eq_true, decide_eq_true_eq] at h7
    omega
  · rw [not_or] at h6 h7
    exact shown_self ⟨hp, by simpa using h7.2⟩ (isPlain_iff.mpr ⟨h6.1, h6.2, by omega⟩) hself

theorem Go.shown (hp : Scalar p) : Shown (fun p => GoJson.escape (some p)) p := by
  have hself : (fun p => GoJson.escape (some p)) p = _ := GoJson.escape.eq_def (some p)
  simp only at hself
  split_ifs at hself with h1 h2 h3 h4 h5 h6 h7
  · obtain rfl | rfl := h1 <;> exact shown_letter hself (by decide) rfl (by decide)
  · exact shown_letter hself (by decide) (h2 ▸ rfl) (by decide)
  · exact shown_letter hself (by decide) (h3 ▸ rfl) (by decide)
  · exact shown_letter hself (by decide) (h4 ▸ rfl) (by decide)
  · exact shown_letter hself (by decide) (h5 ▸ rfl) (by decide)
  · exact shown_letter hself (by decide) (h6 ▸ rfl) (by decide)
  · exact shown_unicode (by omega) hself
  · rw [not_or] at h1 h7
    exact shown_self hp (isPlain_iff.mpr ⟨h1.1, h1.2, by omega⟩) hself

theorem Ts.written_stringText {s : List Nat} (hs : Units s) :
    Written (Ts.stringText s) (.str s) := by
  have h := written_quoted (fun p hp => Ts.shown (Unicode.codePoints_lt hs p hp))
  rwa [Unicode.utf16_codePoints hs] at h

theorem Go.written_stringText {ps : List Nat} (h : ∀ p ∈ ps, Scalar p) :
    Written (GoJson.stringText (encode ps)) (.str (utf16 ps)) := by
  have htext : GoJson.stringText (encode ps) =
      Json.quoted (fun p => GoJson.escape (some p)) ps := by
    rw [GoJson.stringText, GoJson.runes_encode h, List.flatMap_map]
    rfl
  rw [htext]
  exact written_quoted (fun p hp => Go.shown (h p hp))

end Strings

theorem written_decimal (n : Nat) :
    Written (Json.decimal n) (.num (Json.decimal n) (.ofDecimal n)) := by
  have hlt : ∀ c ∈ Json.decimal n, c < 0x80 := by
    intro c hc
    have := Json.isDigit_decimal n c hc
    simp only [Json.isDigit, Bool.and_eq_true, decide_eq_true_eq] at this
    omega
  constructor
  · exact fun p hp => scalar_of_lt (hlt p hp)
  · rw [Json.utf16_of_lt (fun c hc => by have := hlt c hc; omega)]
    exact Json.reads_decimal n

theorem written_null : Written [0x6e, 0x75, 0x6c, 0x6c] .null where
  scalar p hp := by
    simp only [List.mem_cons, List.not_mem_nil, or_false] at hp
    exact scalar_of_lt (by omega)
  reads := Json.reads_null

section Buffers

theorem jsString_encode {t : List Nat} (h : ∀ p ∈ t, Scalar p) :
    jsString (encode t) = some (utf16 t) := by
  rw [jsString, Unicode.decode_encode h]
  rfl

theorem Ts.encodeJson_eq_ok (h : Ts.encodeJson t = .ok b) :
    b = encode t ∧ (encode t).length ≤ 4096 := by
  simp only [Ts.encodeJson] at h
  split_ifs at h with hlen
  cases h
  exact ⟨rfl, Nat.le_of_not_lt hlen⟩

theorem Go.encJSON_eq_ok (h : Go.encJSON t = .ok b) :
    b = encode t ∧ (encode t).length ≤ 4096 := by
  simp only [Go.encJSON] at h
  split_ifs at h with hlen
  cases h
  exact ⟨rfl, Nat.le_of_not_lt hlen⟩

theorem Go.decJSON_encode (h : Written t v) (hlen : (encode t).length ≤ 4096)
    (decode : GoJson.Decoder α) (zero : α) :
    Go.decJSON (encode t) decode zero =
      match decode v zero with
      | some a => .ok a
      | none => .error (protoErr .badPayload "json") := by
  rw [Go.decJSON, if_neg (show ¬ Go.maxJSONBytes < _ from Nat.not_lt.mpr hlen), jsString_encode h.scalar]
  simp only [h.reads.readFirst, Option.bind_some]
  cases decode v zero <;> rfl

theorem Ts.decodeJson_encode (h : Written (Json.object ms) (.obj fs))
    (hlen : (encode (Json.object ms)).length ≤ 4096) :
    Ts.decodeJson (encode (Json.object ms)) = .ok (.obj (Json.valueMembers fs)) := by
  have hparse : (jsString (encode (Json.object ms))).bind Json.parse =
      some (.obj (Json.valueMembers fs)) := by
    rw [jsString_encode h.scalar, Option.bind_some, h.reads.parse]
    rfl
  exact Ts.decodeJson_of_parse hlen hparse

end Buffers

end StreamMix.Wire
