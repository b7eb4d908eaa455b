import StreamMix.Wire.Interop.Texts
import StreamMix.Wire.SlugRule
import Mathlib.Algebra.BigOperators.Ring.List

/-! How many bytes a JSON text takes. -/

namespace StreamMix.Wire

open Unicode (Units units utf16 codePoints encodePoint)

def size (t : List Nat) : Nat := (Unicode.encode t).length

@[simp] theorem size_nil : size [] = 0 := rfl

@[simp] theorem size_append (t u : List Nat) : size (t ++ u) = size t + size u := by
  rw [size, Unicode.encode, List.flatMap_append, List.length_append]
  rfl

theorem size_cons (p : Nat) (t : List Nat) : size (p :: t) = (encodePoint p).length + size t := by
  rw [size, Unicode.encode, List.flatMap_cons, List.length_append]
  rfl

theorem size_of_lt {t : List Nat} (h : ∀ c ∈ t, c < 0x80) : size t = t.length := by
  rw [size, Unicode.encode_of_lt h, List.length_map]

theorem size_member (h : Name m.1) : size (Json.member m) = m.1.length + 3 + size m.2 := by
  have hquote (t : List Nat) : size (Json.quote :: t) = 1 + size t := size_cons _ t
  have hcolon (t : List Nat) : size (0x3a :: t) = 1 + size t := size_cons _ t
  rw [Json.member, List.cons_append, hquote, size_append, hquote, hcolon,
    size_of_lt (fun c hc => (h c hc).2)]
  omega

theorem size_commas_cons (t : List Nat) (ts : List (List Nat)) :
    size (Json.commas (t :: ts)) = size t + (ts.map (fun u => 1 + size u)).sum := by
  induction ts generalizing t with
  | nil => rfl
  | cons u ts ih =>
    rw [Json.commas, size_append, size_cons, ih, List.map_cons, List.sum_cons,
      show (encodePoint 0x2c).length = 1 from rfl]
    · omega
    · simp

/-- A text with one byte before and one byte behind the others. -/
theorem size_enclosed (ho : o < 0x80) (hc : c < 0x80) (t : List Nat) :
    size (o :: t ++ [c]) = size t + 2 := by
  rw [List.cons_append, size_cons, size_append, size_cons, size_nil, encodePoint, encodePoint,
    if_pos ho, if_pos hc]
  simp only [List.length_singleton]
  omega

theorem size_object (m : List Nat × List Nat) (ms : List (List Nat × List Nat))
    (h : ∀ m' ∈ m :: ms, Name m'.1) :
    size (Json.object (m :: ms)) =
      m.1.length + size m.2 + 5 + (ms.map (fun m => m.1.length + size m.2 + 4)).sum := by
  obtain ⟨hm, hms⟩ := List.forall_mem_cons.mp h
  have hsum : ((ms.map Json.member).map (fun u => 1 + size u)).sum =
      (ms.map (fun m => m.1.length + size m.2 + 4)).sum := by
    rw [List.map_map]
    congr 1
    apply List.map_congr_left
    intro n hn
    simp only [Function.comp, size_member (hms n hn)]
    omega
  rw [Json.object, size_enclosed (by decide) (by decide), List.map_cons, size_commas_cons,
    size_member hm, hsum]
  omega

/-- Elements of the size `k` at most, with the comma behind each but the last. -/
theorem size_array {ts : List (List Nat)} (h : ∀ t ∈ ts, size t ≤ k) :
    size (Json.array ts) ≤ (k + 1) * ts.length + 2 := by
  rw [Json.array, size_enclosed (by decide) (by decide), Nat.add_le_add_iff_right]
  cases ts with
  | nil => exact Nat.zero_le _
  | cons t ts =>
    obtain ⟨ht, hts⟩ := List.forall_mem_cons.mp h
    have hsum : (ts.map (fun u => 1 + size u)).sum ≤ ts.length * (k + 1) := by
      rw [← List.length_map (fun u => 1 + size u)]
      apply List.sum_le_card_nsmul
      intro n hn
      obtain ⟨u, hu, rfl⟩ := List.mem_map.mp hn
      have := hts u hu
      omega
    rw [size_commas_cons, List.length_cons, Nat.mul_succ]
    rw [Nat.mul_comm] at hsum
    omega

/-! Strings: six bytes for a code unit or a byte at most. -/

theorem size_quoted {escape : Nat → List Nat} {ps : List Nat} {weight : Nat → Nat}
    (h : ∀ p ∈ ps, size (escape p) ≤ weight p) :
    size (Json.quoted escape ps) ≤ (ps.map weight).sum + 2 := by
  rw [Json.quoted, size_enclosed (by decide) (by decide), Nat.add_le_add_iff_right]
  induction ps with
  | nil => exact Nat.le_refl 0
  | cons p ps ih =>
    obtain ⟨hp, hps⟩ := List.forall_mem_cons.mp h
    rw [List.flatMap_cons, size_append, List.map_cons, List.sum_cons]
    exact Nat.add_le_add hp (ih hps)

theorem size_unicodeEscape (p : Nat) : size (Json.unicodeEscape p) = 6 := by
  refine (size_of_lt ?_).trans rfl
  simp only [Json.unicodeEscape, List.forall_mem_cons]
  exact ⟨by decide, by decide, hexChar_lt _, hexChar_lt _, hexChar_lt _, hexChar_lt _, by simp⟩

theorem length_encodePoint (p : Nat) :
    1 ≤ (encodePoint p).length ∧ (encodePoint p).length ≤ 3 * (units p).length := by
  rw [encodePoint, units]
  split_ifs <;> simp only [List.length_cons, List.length_nil] <;> omega

theorem size_letter (h : e < 0x80) : size [Json.backslash, e] = 2 := by
  refine (size_of_lt ?_).trans rfl
  simpa using ⟨by decide, h⟩

theorem size_self (p : Nat) : size [p] = (encodePoint p).length := size_cons p []

theorem Ts.size_escape (p : Nat) : size (Ts.escape p) ≤ 6 * (Unicode.units p).length := by
  have hpoint := length_encodePoint p
  have hself := Ts.escape.eq_def p
  split_ifs at hself with h1 h2 h3 h4 h5 h6 h7
  · rw [hself, size_letter (by decide)]
    omega
  · rw [hself, size_letter (by decide)]
    omega
  · rw [hself, size_letter (by decide)]
    omega
  · rw [hself, size_letter (by decide)]
    omega
  · rw [hself, size_letter (by decide)]
    omega
  · obtain rfl | rfl := h6 <;> decide
  · rw [hself, size_unicodeEscape]
    omega
  · rw [hself, size_self]
    omega

theorem Go.size_escape (p : Nat) : size (GoJson.escape (some p)) ≤ 6 * (encodePoint p).length := by
  have hpoint := length_encodePoint p
  have hself := GoJson.escape.eq_def (some p)
  simp only at hself
  split_ifs at hself with h1 h2 h3 h4 h5 h6 h7
  · obtain rfl | rfl := h1 <;> decide
  · rw [hself, size_letter (by decide)]
    omega
  · rw [hself, size_letter (by decide)]
    omega
  · rw [hself, size_letter (by decide)]
    omega
  · rw [hself, size_letter (by decide)]
    omega
  · rw [hself, size_letter (by decide)]
    omega
  · rw [hself, size_unicodeEscape]
    omega
  · rw [hself, size_self]
    omega

theorem Ts.size_stringText {s : List Nat} (hs : Units s) :
    size (Ts.stringText s) ≤ 6 * s.length + 2 := by
  have hsum : ((codePoints s).map (fun p => 6 * (Unicode.units p).length)).sum = 6 * s.length := by
    conv_rhs => rw [← Unicode.utf16_codePoints hs, utf16, List.length_flatMap]
    rw [List.sum_map_mul_left]
  rw [← hsum]
  exact size_quoted (fun p _ => Ts.size_escape p)

theorem Go.size_stringText {ps : List Nat} (h : ∀ p ∈ ps, Unicode.Scalar p) :
    size (GoJson.stringText (Unicode.encode ps)) ≤ 6 * (Unicode.encode ps).length + 2 := by
  have hsum : (ps.map (fun p => 6 * (encodePoint p).length)).sum =
      6 * (Unicode.encode ps).length := by
    rw [Unicode.encode, List.length_flatMap, List.sum_map_mul_left]
  have htext : GoJson.stringText (Unicode.encode ps) =
      Json.quoted (fun p => GoJson.escape (some p)) ps := by
    rw [GoJson.stringText, GoJson.runes_encode h, List.flatMap_map]
    rfl
  rw [← hsum, htext]
  exact size_quoted (fun p _ => Go.size_escape p)

/-! Slugs are written as they stand. -/

theorem range_of_slugRe (h : Ts.slugRe inside s = true) :
    ∀ c ∈ s, 0x2d ≤ c ∧ c ≤ 0x7a ∧ c ≠ 0x5c ∧ c ≠ 0x3c ∧ c ≠ 0x3e := by
  rw [slugRe_eq] at h
  intro c hc
  obtain hunit | rfl := Kebab.letter_or_sep_of_accepts h c hc
  · simp only [Ts.isSlugUnit, Bool.or_eq_true, Bool.and_eq_true, decide_eq_true_eq] at hunit
    omega
  · decide

theorem size_plain {escape : Nat → List Nat} {s : List Nat} (h : ∀ c ∈ s, escape c = [c] ∧ c < 0x80) :
    size (Json.quoted escape s) ≤ s.length + 2 := by
  have hone : ∀ c ∈ s, size (escape c) ≤ 1 := by
    intro c hc
    obtain ⟨hself, hlt⟩ := h c hc
    rw [hself, size_of_lt (by simpa using hlt), List.length_singleton]
  simpa using size_quoted hone

theorem Ts.size_slug (h : Ts.isValidSlug s = true) : size (Ts.stringText s) ≤ 66 := by
  simp only [Ts.isValidSlug, Bool.and_eq_true, decide_eq_true_eq] at h
  have hrange := range_of_slugRe h.2
  have hsmall : ∀ c ∈ s, c < 0x80 := fun c hc => by
    have := hrange c hc
    omega
  have hplain : ∀ c ∈ s, Ts.escape c = [c] ∧ c < 0x80 := by
    intro c hc
    obtain ⟨hlow, hhigh, hslash, -⟩ := hrange c hc
    have hletter : ¬ (c = Json.quote ∨ c = Json.backslash) := by
      simp only [Json.quote, Json.backslash]
      omega
    have hsurrogate : ¬ (c < 0x20 ∨ Unicode.isSurrogate c = true) := by
      simp only [Unicode.isSurrogate, Bool.and_eq_true, decide_eq_true_eq]
      omega
    refine ⟨?_, hsmall c hc⟩
    rw [Ts.escape, if_neg (by omega), if_neg (by omega), if_neg (by omega), if_neg (by omega),
      if_neg (by omega), if_neg hletter, if_neg hsurrogate]
  rw [Ts.stringText, Unicode.codePoints_of_lt hsmall]
  have := size_plain hplain
  omega

theorem Go.ascii_of_isValidSlug (h : Go.isValidSlug bs = true) : Unicode.Ascii bs := by
  rw [Go.isValidSlug] at h
  split_ifs at h
  intro b hb
  have := range_of_slugRe h _ (List.mem_map_of_mem hb)
  rw [UInt8.lt_iff_toNat_lt]
  exact Nat.lt_of_le_of_lt this.2.1 (by decide)

theorem Go.size_slug (h : Go.isValidSlug bs = true) : size (GoJson.stringText bs) ≤ 66 := by
  have hascii := Go.ascii_of_isValidSlug h
  rw [Go.isValidSlug] at h
  split_ifs at h with hlen
  have hrange := range_of_slugRe h
  have hplain : ∀ c ∈ bs.map UInt8.toNat, GoJson.escape (some c) = [c] ∧ c < 0x80 := by
    intro c hc
    obtain ⟨hlow, hhigh, hslash, hless, hgreater⟩ := hrange c hc
    have hletter : ¬ (c = Json.quote ∨ c = Json.backslash) := by
      simp only [Json.quote, Json.backslash]
      omega
    refine ⟨?_, by omega⟩
    rw [GoJson.escape, if_neg hletter, if_neg (by omega), if_neg (by omega), if_neg (by omega),
      if_neg (by omega), if_neg (by omega), if_neg (by omega)]
  have hsize := size_plain hplain
  rw [List.length_map] at hsize
  simp only [Bool.or_eq_true, decide_eq_true_eq, not_or, not_lt] at hlen
  rw [GoJson.stringText, GoJson.runes_ascii hascii, List.flatMap_map]
  exact Nat.le_trans hsize (by omega)

end StreamMix.Wire
