import StreamMix.Lib.Kebab
import StreamMix.Wire.Payloads

/-! The slug checks of the three languages, and the one rule behind them. -/

namespace StreamMix.Wire

open Cpp (dash isSlugChar scanSlug)
open Kebab (kebab accepts accepts_iff)
open Ts (isSlugUnit)

/-- `^[a-z0-9]+(?:-[a-z0-9]+)*$`, over the bytes of a string and over its code units. -/
abbrev slugBytes : Language UInt8 := kebab isSlugChar dash

abbrev slugUnits : Language Nat := kebab isSlugUnit 0x2d

theorem slugRe_eq (inside : Bool) (s : List Nat) :
    Ts.slugRe inside s = accepts isSlugUnit 0x2d inside s := by
  induction s generalizing inside with
  | nil => rfl
  | cons c s ih => simp only [Ts.slugRe, accepts, ih]

theorem isSlugUnit_toNat (c : UInt8) : isSlugUnit c.toNat = isSlugChar c := rfl

theorem accepts_toNat (inside : Bool) (s : Bytes) :
    accepts isSlugUnit 0x2d inside (s.map UInt8.toNat) = accepts isSlugChar dash inside s := by
  apply Kebab.accepts_map
  · intro c _
    exact isSlugUnit_toNat c
  · intro c _
    exact UInt8.toNat_inj (b := dash)

theorem mem_slugUnits_toNat (s : Bytes) : s.map UInt8.toNat ∈ slugUnits ↔ s ∈ slugBytes := by
  rw [← (accepts_iff (by decide) _).1, ← (accepts_iff (by decide) _).1, accepts_toNat]

/-! C++ -/

/-- The loop accepts what is left of a slug if no dash is at its end. -/
theorem scanSlug_iff (hlast : s.getLast? ≠ some dash) (hne : prev = true → s ≠ []) :
    scanSlug prev s = true ↔ accepts isSlugChar dash (!prev) s = true := by
  induction s generalizing prev with
  | nil =>
    cases prev with
    | false => exact Iff.rfl
    | true => exact absurd rfl (hne rfl)
  | cons c s ih =>
    have htail : s.getLast? ≠ some dash := by
      intro htail
      cases s with
      | nil => cases htail
      | cons d s => exact hlast htail
    rw [scanSlug, accepts]
    by_cases hdash : c = dash
    · subst hdash
      have hs : s ≠ [] := by
        rintro rfl
        exact hlast rfl
      rw [if_pos rfl, if_neg (by decide), if_pos rfl, Bool.and_eq_true, Bool.and_eq_true,
        ih htail (fun _ => hs)]
      exact Iff.rfl
    · rw [if_neg hdash, if_neg hdash, Bool.and_eq_true, ih htail (by simp)]
      cases isSlugChar c <;> simp

theorem getLast_of_accepts (h : accepts isSlugChar dash inside s = true) :
    s.getLast? ≠ some dash := by
  induction s generalizing inside with
  | nil => simp
  | cons c s ih =>
    rw [accepts] at h
    cases s with
    | nil =>
      rintro ⟨⟩
      cases inside <;> cases h
    | cons d s =>
      rw [List.getLast?_cons_cons]
      split_ifs at h
      · exact ih h
      · exact ih (Bool.and_eq_true_iff.mp h).2

theorem head_of_accepts (h : accepts isSlugChar dash false s = true) : s.head? ≠ some dash := by
  cases s with
  | nil => cases h
  | cons c s =>
    rintro ⟨⟩
    cases h

theorem accepts_cons (hc : c ≠ dash) (inside : Bool) (s : Bytes) :
    accepts isSlugChar dash inside (c :: s) = accepts isSlugChar dash true (c :: s) := by
  simp only [accepts, if_neg hc]

theorem Cpp.isValidSlug_iff (s : Bytes) :
    Cpp.isValidSlug s = true ↔ 1 ≤ s.length ∧ s.length ≤ 64 ∧ s ∈ slugBytes := by
  rw [← (accepts_iff (by decide) s).1, Cpp.isValidSlug]
  cases s with
  | nil => simp
  | cons c s =>
    simp only [List.isEmpty_cons, Bool.false_or, decide_eq_true_eq, Bool.or_eq_true]
    split_ifs with hlen hdash
    · simp only [false_iff]
      omega
    · simp only [false_iff]
      rintro ⟨-, -, h⟩
      exact hdash.elim (head_of_accepts h) (getLast_of_accepts h)
    · rw [not_or] at hdash
      have hc : c ≠ dash := fun heq => hdash.1 (congrArg some heq)
      rw [scanSlug_iff hdash.2 (by simp), accepts_cons hc false]
      simp only [List.length_cons] at hlen ⊢
      simp
      omega

/-! TypeScript and Go -/

theorem Ts.isValidSlug_iff (s : List Nat) :
    Ts.isValidSlug s = true ↔ 1 ≤ s.length ∧ s.length ≤ 64 ∧ s ∈ slugUnits := by
  rw [← (accepts_iff (by decide) s).1, Ts.isValidSlug, slugRe_eq]
  simp [and_assoc]

theorem Go.isValidSlug_iff (s : Bytes) :
    Go.isValidSlug s = true ↔ 1 ≤ s.length ∧ s.length ≤ 64 ∧ s ∈ slugBytes := by
  rw [← (accepts_iff (by decide) s).1, Go.isValidSlug, slugRe_eq, accepts_toNat]
  simp only [Bool.or_eq_true, decide_eq_true_eq]
  split_ifs with hlen
  · simp only [false_iff]
    omega
  · have hlen' : 1 ≤ s.length ∧ s.length ≤ 64 := by omega
    simp [hlen']

/-- What is accepted is ASCII. -/
theorem lt_of_accepts (h : accepts isSlugUnit 0x2d inside s = true) : ∀ c ∈ s, c < 0x80 := by
  intro c hc
  obtain hunit | rfl := Kebab.letter_or_sep_of_accepts h c hc
  · simp only [isSlugUnit, Bool.or_eq_true, Bool.and_eq_true, decide_eq_true_eq] at hunit
    omega
  · decide

/-- The expression has no rune that is not ASCII, so that it reads bytes as it reads runes. -/
theorem Go.slugRe_runes (inside : Bool) (bs : Bytes) :
    Ts.slugRe inside ((GoJson.runes bs).map (fun r => r.getD 0xfffd)) =
      Ts.slugRe inside (bs.map UInt8.toNat) := by
  rw [slugRe_eq, slugRe_eq]
  by_cases hbs : Unicode.Ascii bs
  · rw [GoJson.runes_ascii hbs, List.map_map]
    exact congrArg _ (List.map_id _)
  · simp only [Unicode.Ascii, not_forall] at hbs
    obtain ⟨b, hb, hwide⟩ := hbs
    obtain ⟨r, hr, hr'⟩ := GoJson.exists_rune ⟨b, hb, hwide⟩
    have hbytes : accepts isSlugUnit 0x2d inside (bs.map UInt8.toNat) = false := by
      apply eq_false_of_ne_true
      intro h
      exact hwide (lt_of_accepts h _ (List.mem_map_of_mem hb))
    have hrunes : accepts isSlugUnit 0x2d inside
        ((GoJson.runes bs).map (fun r => r.getD 0xfffd)) = false := by
      apply eq_false_of_ne_true
      intro h
      have hlt := lt_of_accepts h _ (List.mem_map_of_mem hr)
      cases r with
      | none => exact absurd hlt (by decide)
      | some x => exact absurd hlt (Nat.not_lt.mpr (hr' x rfl))
    rw [hbytes, hrunes]

/-! One text in the two encodings. -/

theorem isValidSlug_points_of_wide (h : ¬ ∀ p ∈ ps, p < 0x80) :
    ¬ Unicode.encode ps ∈ slugBytes ∧ ¬ Unicode.utf16 ps ∈ slugUnits := by
  simp only [not_forall] at h
  obtain ⟨p, hp, hwide⟩ := h
  rw [← (accepts_iff (by decide) _).1, ← (accepts_iff (by decide) _).1, ← accepts_toNat]
  constructor
  · intro h
    have hb : UInt8.ofNat (0x80 + p % 0x40) ∈ Unicode.encode ps := by
      apply List.mem_flatMap.mpr ⟨p, hp, _⟩
      rw [Unicode.encodePoint, if_neg hwide]
      split_ifs <;> simp
    have hlt := lt_of_accepts h _ (List.mem_map_of_mem hb)
    rw [UInt8.toNat_ofNat_of_lt' (by simp only [UInt8.size]; omega)] at hlt
    omega
  · intro h
    have hunits : ∃ u ∈ Unicode.units p, ¬ u < 0x80 := by
      rw [Unicode.units]
      split_ifs
      · exact ⟨p, .head _, hwide⟩
      · exact ⟨_, .head _, by omega⟩
    obtain ⟨u, hu, hwide⟩ := hunits
    exact hwide (lt_of_accepts h u (List.mem_flatMap.mpr ⟨p, hp, hu⟩))

theorem isValidSlug_points (ps : List Nat) :
    Cpp.isValidSlug (Unicode.encode ps) = Ts.isValidSlug (Unicode.utf16 ps) := by
  rw [Bool.eq_iff_iff, Cpp.isValidSlug_iff, Ts.isValidSlug_iff]
  by_cases hps : ∀ p ∈ ps, p < 0x80
  · rw [Unicode.utf16_of_small hps, Unicode.encode_of_lt hps, List.length_map,
      ← (accepts_iff (by decide) _).1, ← (accepts_iff (by decide) _).1, ← accepts_toNat,
      Unicode.map_toNat_ofNat hps]
  · obtain ⟨hbytes, hunits⟩ := isValidSlug_points_of_wide hps
    simp [hbytes, hunits]

/-- Every language accepts the strings of 1 to 64 characters that match the expression: over
the bytes of any string, over the code units of any string, and the same texts. -/
theorem isValidSlug_agree :
    (∀ bs : Bytes, Cpp.isValidSlug bs = Go.isValidSlug bs ∧
      (Cpp.isValidSlug bs = true ↔ 1 ≤ bs.length ∧ bs.length ≤ 64 ∧ bs ∈ slugBytes)) ∧
    (∀ s : List Nat,
      Ts.isValidSlug s = true ↔ 1 ≤ s.length ∧ s.length ≤ 64 ∧ s ∈ slugUnits) ∧
    ∀ ps : List Nat, Cpp.isValidSlug (Unicode.encode ps) = Ts.isValidSlug (Unicode.utf16 ps) ∧
      Go.isValidSlug (Unicode.encode ps) = Ts.isValidSlug (Unicode.utf16 ps) := by
  have hgo (bs : Bytes) : Cpp.isValidSlug bs = Go.isValidSlug bs := by
    rw [Bool.eq_iff_iff, Cpp.isValidSlug_iff, Go.isValidSlug_iff]
  refine ⟨?_, Ts.isValidSlug_iff, ?_⟩
  · intro bs
    exact ⟨hgo bs, Cpp.isValidSlug_iff bs⟩
  · intro ps
    exact ⟨isValidSlug_points ps, (hgo _).symm.trans (isValidSlug_points ps)⟩

end StreamMix.Wire
