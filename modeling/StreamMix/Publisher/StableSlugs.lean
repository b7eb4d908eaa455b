import StreamMix.Publisher.Labels

/-! Slugs are well formed, and a slug is its own slug. -/

namespace StreamMix.Publisher

open Wire
open Cpp (dash isSlugChar)
open Kebab (join kebab)
open Ts (isSlugUnit)

/-- The slug of a label is empty or matches the expression of the check, so that only its length
can fail it, and it is the slug of itself. -/
structure Stable (slug : List α → List α) (rule : Language α) (isValid : List α → Bool)
    (label : List α) : Prop where
  shape : slug label = [] ∨ slug label ∈ rule
  valid : isValid (slug label) = true ↔ slug label ≠ [] ∧ (slug label).length ≤ 64
  again : slug (slug label) = slug label

theorem valid_of_shape {rule : Language α} {isValid : List α → Bool} {s : List α}
    (hvalid : isValid s = true ↔ 1 ≤ s.length ∧ s.length ≤ 64 ∧ s ∈ rule)
    (hshape : s = [] ∨ s ∈ rule) : isValid s = true ↔ s ≠ [] ∧ s.length ≤ 64 := by
  rw [hvalid, ← List.length_pos_iff]
  constructor
  · rintro ⟨hpos, hlen, -⟩
    exact ⟨hpos, hlen⟩
  · rintro ⟨hpos, hlen⟩
    refine ⟨hpos, hlen, ?_⟩
    cases hshape with
    | inl h =>
      rw [h] at hpos
      cases hpos
    | inr h => exact h

section

variable [DecidableEq α] {letter : α → Bool} {sep : α}

/-- The joined words have nothing but letters and separators. -/
theorem letter_or_sep_of_mem (hsep : letter sep = false) (s : List α) :
    ∀ c ∈ join sep (Kebab.words letter s), letter c = true ∨ c = sep := by
  cases Kebab.join_words letter sep s with
  | inl h => simp [h]
  | inr h => exact Kebab.letter_or_sep_of_accepts ((Kebab.accepts_iff hsep _).1.mpr h)

/-- A function that joins the words of a text, and keeps letters and separators as they are in
making the text, gives what it joined a second time. -/
theorem again_of_plain (hsep : letter sep = false) (plain : List α → List α)
    (hplain : ∀ s, (∀ c ∈ s, letter c = true ∨ c = sep) → plain s = s) (s : List α) :
    join sep (Kebab.words letter (plain (join sep (Kebab.words letter s)))) =
      join sep (Kebab.words letter s) := by
  rw [hplain _ (letter_or_sep_of_mem hsep s), Kebab.words_join_words hsep]

end

theorem Ts.plain_of_slug (hlower : ∀ s : List Nat, (∀ u ∈ s, isSlugUnit u = true ∨ u = 0x2d) →
      toLowerCase s = s ∧ nfkd s = s) (s : List Nat)
    (hs : ∀ u ∈ s, isSlugUnit u = true ∨ u = 0x2d) : Ts.plain toLowerCase nfkd s = s := by
  obtain ⟨hcase, hform⟩ := hlower s hs
  rw [Ts.plain, hcase, hform, List.filter_eq_self]
  intro u hu
  cases hs u hu with
  | inl h => simp [isMark_of_isSlugUnit h]
  | inr h =>
    rw [h]
    rfl

theorem Ts.stable (hlower : ∀ s : List Nat, (∀ u ∈ s, isSlugUnit u = true ∨ u = 0x2d) →
      toLowerCase s = s ∧ nfkd s = s) (label : List Nat) :
    Stable (Ts.sluggify toLowerCase nfkd) slugUnits Ts.isValidSlug label := by
  have hshape : Ts.sluggify toLowerCase nfkd label = [] ∨
      Ts.sluggify toLowerCase nfkd label ∈ slugUnits := by
    rw [Ts.sluggify_eq]
    exact Kebab.join_words isSlugUnit 0x2d _
  refine ⟨hshape, valid_of_shape (Ts.isValidSlug_iff _) hshape, ?_⟩
  rw [Ts.sluggify_eq, Ts.sluggify_eq]
  exact again_of_plain (by decide) _ (Ts.plain_of_slug hlower) _

theorem toNat_slugChar (h : isSlugChar c = true ∨ c = dash) :
    isSlugUnit c.toNat = true ∨ c.toNat = 0x2d := by
  cases h with
  | inl h => exact .inl h
  | inr h =>
    rw [h]
    exact .inr rfl

theorem Go.plain_of_slug
    (hlower : ∀ r, isSlugUnit r = true ∨ r = 0x2d → toLower r = r ∧ isMn r = false) (s : Bytes)
    (hs : ∀ c ∈ s, isSlugChar c = true ∨ c = dash) :
    Go.plain toLower isMn s = s.map UInt8.toNat := by
  have hfix : ∀ c ∈ s, toLower c.toNat = c.toNat ∧ isMn c.toNat = false := by
    intro c hc
    exact hlower _ (toNat_slugChar (hs c hc))
  have hascii : Unicode.Ascii s := by
    intro c hc
    cases hs c hc with
    | inl h =>
      simp only [isSlugChar, Bool.or_eq_true, Bool.and_eq_true, decide_eq_true_eq,
        UInt8.le_iff_toNat_le, UInt8.lt_iff_toNat_lt, UInt8.reduceToNat] at h ⊢
      omega
    | inr h =>
      rw [h]
      decide
  have hcase : (s.map UInt8.toNat).map toLower = s.map UInt8.toNat := by
    rw [List.map_map]
    exact List.map_congr_left (fun c hc => (hfix c hc).1)
  rw [Go.plain, GoJson.runes_ascii hascii, List.map_map]
  change ((s.map UInt8.toNat).map toLower).filter _ = _
  rw [hcase, List.filter_eq_self]
  intro r hr
  obtain ⟨c, hc, rfl⟩ := List.mem_map.mp hr
  simp [(hfix c hc).2]

theorem Go.stable (hlower : ∀ r, isSlugUnit r = true ∨ r = 0x2d → toLower r = r ∧ isMn r = false)
    (label : Bytes) : Stable (Go.sluggify toLower isMn) slugBytes Go.isValidSlug label := by
  have hinj : Function.Injective (List.map UInt8.toNat) :=
    List.map_injective_iff.mpr (fun _ _ => UInt8.toNat_inj.mp)
  have hshape : Go.sluggify toLower isMn label = [] ∨
      Go.sluggify toLower isMn label ∈ slugBytes := by
    rw [← mem_slugUnits_toNat, ← List.map_eq_nil_iff (f := UInt8.toNat), Go.sluggify_toNat]
    exact Kebab.join_words isSlugUnit 0x2d _
  have hchars : ∀ c ∈ Go.sluggify toLower isMn label, isSlugChar c = true ∨ c = dash := by
    cases hshape with
    | inl h => simp [h]
    | inr h => exact Kebab.letter_or_sep_of_accepts ((Kebab.accepts_iff (by decide) _).1.mpr h)
  refine ⟨hshape, valid_of_shape (Go.isValidSlug_iff _) hshape, hinj ?_⟩
  rw [Go.sluggify_toNat, Go.plain_of_slug hlower _ hchars, Go.sluggify_toNat,
    Kebab.words_join_words (by decide)]

theorem slugOf_stable (label : Bytes) : Stable slugOf slugBytes Cpp.isValidSlug label := by
  have hshape : slugOf label = [] ∨ slugOf label ∈ slugBytes := by
    rw [slugOf_eq]
    exact Kebab.join_words isSlugChar dash _
  refine ⟨hshape, valid_of_shape (Cpp.isValidSlug_iff _) hshape, ?_⟩
  rw [slugOf_eq, slugOf_eq]
  refine again_of_plain (by decide) (List.map lower) ?_ _
  intro s hs
  have hlower : ∀ c ∈ s, lower c = c := by
    intro c hc
    cases hs c hc with
    | inl h => exact lower_of_isSlugChar h
    | inr h =>
      rw [h]
      rfl
  exact (List.map_congr_left hlower).trans (List.map_id s)

theorem lowerPoint_of_slug (h : isSlugUnit p = true ∨ p = 0x2d) : lowerPoint p = p := by
  apply if_neg
  simp only [isSlugUnit, Bool.or_eq_true, Bool.and_eq_true, decide_eq_true_eq] at h
  omega

theorem splitUmlaut_of_slug (h : isSlugUnit u = true ∨ u = 0x2d) : splitUmlaut u = [u] := by
  apply if_neg
  simp only [isSlugUnit, Bool.or_eq_true, Bool.and_eq_true, decide_eq_true_eq] at h
  omega

theorem sluggify_stable
    (hts : ∀ s : List Nat, (∀ u ∈ s, isSlugUnit u = true ∨ u = 0x2d) →
      toLowerCase s = s ∧ nfkd s = s)
    (hgo : ∀ r, isSlugUnit r = true ∨ r = 0x2d → toLower r = r ∧ isMn r = false) :
    (∀ label, Stable (Ts.sluggify toLowerCase nfkd) slugUnits Ts.isValidSlug label) ∧
      (∀ label, Stable (Go.sluggify toLower isMn) slugBytes Go.isValidSlug label) ∧
      (∀ label, Stable slugOf slugBytes Cpp.isValidSlug label) ∧
      ∀ label, slugOf label ≠ [] →
        (Cpp.isValidSlug (slugOf label) = false ↔ 64 < (slugOf label).length) := by
  refine ⟨Ts.stable hts, Go.stable hgo, slugOf_stable, ?_⟩
  intro label hne
  rw [← Bool.not_eq_true, (slugOf_stable label).valid, not_and, Nat.not_le]
  constructor
  · intro h
    exact h hne
  · intro h _
    exact h

theorem stable_myMic :
    Stable (Ts.sluggify lowerUnits splitUnits) slugUnits Ts.isValidSlug myMic ∧
      Stable (Go.sluggify lowerPoint Ts.isMark) slugBytes Go.isValidSlug (ascii "My Mic") ∧
      Stable slugOf slugBytes Cpp.isValidSlug (ascii "My Mic") := by
  have hts (s : List Nat) (hs : ∀ u ∈ s, isSlugUnit u = true ∨ u = 0x2d) :
      lowerUnits s = s ∧ splitUnits s = s := by
    have hlower := List.map_congr_left (fun u hu => lowerPoint_of_slug (hs u hu))
    have hsplit := List.flatMap_congr (fun u hu => splitUmlaut_of_slug (hs u hu))
    exact ⟨hlower.trans (List.map_id s), hsplit.trans (List.flatMap_singleton' s)⟩
  have hgo (r : Nat) (hr : isSlugUnit r = true ∨ r = 0x2d) :
      lowerPoint r = r ∧ Ts.isMark r = false := by
    refine ⟨lowerPoint_of_slug hr, ?_⟩
    cases hr with
    | inl h => exact isMark_of_isSlugUnit h
    | inr h =>
      rw [h]
      rfl
  obtain ⟨hunits, hrunes, hbytes, -⟩ := sluggify_stable hts hgo
  exact ⟨hunits _, hrunes _, hbytes _⟩

end StreamMix.Publisher
