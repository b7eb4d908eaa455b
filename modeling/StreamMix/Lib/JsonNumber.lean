import StreamMix.Lib.JsonWriter
import Mathlib.Data.List.Induction

/-! Numerals of natural numbers, and where a numeral ends. -/

namespace Json

open Js (Number Decimal shortest)

def decimal (n : Nat) : List Nat := (Nat.toDigits 10 n).map Char.toNat

theorem decimal_single (h : d < 10) : decimal d = [0x30 + d] := by
  rw [decimal, Nat.toDigits_of_lt_base h]
  interval_cases d <;> rfl

theorem decimal_append (hn : 0 < n) (hd : d < 10) : decimal (10 * n + d) = decimal n ++ [0x30 + d] := by
  rw [decimal, ← Nat.toDigits_append_toDigits (by decide) hn hd, List.map_append, ← decimal,
    ← decimal, decimal_single hd]

theorem isDigit_decimal (n : Nat) : ∀ c ∈ decimal n, isDigit c = true := by
  induction n using Nat.base_induction 10 (by decide) with
  | single d hd =>
    rw [decimal_single hd]
    simp [isDigit]
    omega
  | digit n d hd hn ih =>
    rw [decimal_append hn hd]
    intro c hc
    obtain hc | hc := List.mem_append.mp hc
    · exact ih c hc
    · rw [List.mem_singleton.mp hc]
      simp [isDigit]
      omega

theorem digitsValue_append (ds : List Nat) (d : Nat) :
    digitsValue (ds ++ [d]) = digitsValue ds * 10 + (d - 0x30) := by
  simp [digitsValue]

theorem digitsValue_decimal (n : Nat) : digitsValue (decimal n) = n := by
  induction n using Nat.base_induction 10 (by decide) with
  | single d hd => simp [decimal_single hd, digitsValue]
  | digit n d hd hn ih =>
    rw [decimal_append hn hd, digitsValue_append, ih]
    omega

/-- The first digit is zero for zero alone. -/
theorem head_decimal (n : Nat) : ∃ d ds, decimal n = d :: ds ∧ (d = 0x30 → ds = []) := by
  induction n using Nat.base_induction 10 (by decide) with
  | single d hd => exact ⟨_, _, decimal_single hd, fun _ => rfl⟩
  | digit n d hd hn ih =>
    obtain ⟨e, ds, he, hzero⟩ := ih
    refine ⟨e, ds ++ [0x30 + d], by rw [decimal_append hn hd, he]; rfl, fun h => ?_⟩
    rw [hzero h, h] at he
    have hvalue := digitsValue_decimal n
    rw [he] at hvalue
    simp [digitsValue] at hvalue
    omega

/-- Digits without a leading zero are the numeral of their value. -/
theorem decimal_digitsValue (ds : List Nat) : ∀ d, (∀ c ∈ d :: ds, isDigit c = true) →
    (d = 0x30 → ds = []) → decimal (digitsValue (d :: ds)) = d :: ds := by
  induction ds using List.reverseRecOn with
  | nil =>
    intro d hd _
    have hrange := hd d (.head _)
    simp only [isDigit, Bool.and_eq_true, decide_eq_true_eq] at hrange
    rw [show digitsValue [d] = d - 0x30 by simp [digitsValue], decimal_single (by omega)]
    congr 1
    omega
  | append_singleton ds e ih =>
    intro d hd hzero
    have hne : d ≠ 0x30 := fun h => by simpa using hzero h
    have hprev := ih d (fun c hc => hd c (by
      rw [← List.cons_append]
      exact List.mem_append_left _ hc)) (fun h => absurd h hne)
    have he := hd e (by simp)
    simp only [isDigit, Bool.and_eq_true, decide_eq_true_eq] at he
    have hpos : 0 < digitsValue (d :: ds) := by
      by_contra hnot
      have hvalue : digitsValue (d :: ds) = 0 := by omega
      rw [hvalue, decimal_single (by decide)] at hprev
      exact hne (List.cons.inj hprev).1.symm
    rw [← List.cons_append, digitsValue_append, Nat.mul_comm, decimal_append hpos (by omega), hprev]
    congr 2
    omega

theorem span_digits {ds r : List Nat} (hd : ∀ c ∈ ds, isDigit c = true) (hr : ∀ c ∈ r.head?, isDigit c = false) :
    (ds ++ r).span isDigit = (ds, r) := by
  rw [List.span_eq_takeWhile_dropWhile, List.takeWhile_append_of_pos hd,
    List.dropWhile_append_of_pos hd]
  cases r with
  | nil => simp
  | cons c r =>
    have hc := hr c rfl
    simp [hc]

theorem Delimited.not_digit (h : Delimited r) : ∀ c ∈ r.head?, isDigit c = false := by
  intro c hc
  obtain rfl | rfl | rfl := h c hc <;> rfl

theorem parseScale_delimited (m : ℚ) (h : Delimited r) : parseScale m r = some (m, r) := by
  cases r with
  | nil => rfl
  | cons c r =>
    obtain rfl | rfl | rfl := h c rfl <;> rfl

theorem parseFraction_delimited (n : Nat) (h : Delimited r) :
    parseFraction n r = some ((n : ℚ), r) := by
  have hscale := parseScale_delimited n h
  cases r with
  | nil => exact hscale
  | cons c r =>
    obtain rfl | rfl | rfl := h c rfl <;> exact hscale

theorem parseUnsigned_decimal (n : Nat) (h : Delimited r) :
    parseUnsigned (decimal n ++ r) = some ((n : ℚ), r) := by
  obtain ⟨d, ds, heq, hzero⟩ := head_decimal n
  have hdigits := isDigit_decimal n
  have hvalue := digitsValue_decimal n
  rw [heq] at hdigits hvalue ⊢
  rw [List.cons_append, parseUnsigned]
  split_ifs with h0 hd
  · rw [hzero h0, h0] at hvalue
    rw [hzero h0, show n = 0 from hvalue.symm]
    exact parseFraction_delimited 0 h
  · rw [span_digits (fun c hc => hdigits c (.tail _ hc)) h.not_digit, hvalue]
    exact parseFraction_delimited n h
  · exact absurd (hdigits d (.head _)) hd

theorem reads_decimal (n : Nat) :
    Reads (decimal n) (.num (decimal n) (.ofDecimal n)) := by
  obtain ⟨d, ds, heq, -⟩ := head_decimal n
  have hd : isDigit d = true := isDigit_decimal n d (heq ▸ .head _)
  have hrange := hd
  simp only [isDigit, Bool.and_eq_true, decide_eq_true_eq] at hrange
  refine ⟨⟨d, ds, heq, ?_, by omega⟩, ?_⟩
  · simp [isSpace]
    omega
  · intro fuel r hfuel hr
    have hunsigned := parseUnsigned_decimal n hr
    rw [heq] at hfuel hunsigned ⊢
    obtain ⟨k, rfl⟩ : ∃ k, fuel = k + 1 := ⟨fuel - 1, by simp at hfuel; omega⟩
    have hnumber : parseNumber (d :: ds ++ r) = some (.num (.ofDecimal n), r) := by
      rw [parseNumber, hunsigned]
      · rfl
      · intro s hs
        have := (List.cons.inj hs).1
        omega
    have hq : d ≠ quote := by
      simp only [quote]
      omega
    rw [List.cons_append, readValue, if_neg hq, if_neg (by omega), if_neg (by omega),
      if_neg (by omega), if_neg (by omega), if_neg (by omega), ← List.cons_append, readNumber,
      hnumber]
    simp only [List.length_append, Nat.add_sub_cancel, List.take_left]

/-! The text of a number, taken from the front of a longer text. -/

def numeric (c : Nat) : Bool :=
  isDigit c || c == 0x2e || c == 0x65 || c == 0x45 || c == 0x2b || c == 0x2d

theorem numeric_of_isDigit (h : isDigit c = true) : numeric c = true := by
  simp [numeric, h]

/-- A part of a numeral that does not begin with a digit. -/
structure Tail (t : List Nat) : Prop where
  numeric : ∀ c ∈ t, numeric c = true
  head : ∀ c ∈ t.head?, isDigit c = false

theorem Tail.nil : Tail [] := ⟨nofun, nofun⟩

theorem Tail.eq_nil (h : Tail t) (hd : ∀ c ∈ t, isDigit c = true) : t = [] := by
  cases t with
  | nil => rfl
  | cons c t =>
    have hc := h.head c rfl
    rw [hd c (.head _)] at hc
    cases hc

theorem takes_span {s : List Nat} (h : s.span isDigit = (ds, r)) : s = ds ++ r ∧ ∀ c ∈ ds, isDigit c = true := by
  rw [List.span_eq_takeWhile_dropWhile, Prod.mk.injEq] at h
  obtain ⟨rfl, rfl⟩ := h
  exact ⟨List.takeWhile_append_dropWhile.symm, List.all_eq_true.mp List.all_takeWhile⟩

theorem takes_parseExponent (h : parseExponent m sign s = some (q, r)) :
    ∃ t, s = t ++ r ∧ ∀ c ∈ t, numeric c = true := by
  rw [parseExponent] at h
  split at h
  · cases h
  · next ds rest _ heq =>
    cases h
    obtain ⟨hs, hd⟩ := takes_span heq
    exact ⟨ds, hs, fun c hc => numeric_of_isDigit (hd c hc)⟩

theorem takes_parseScale (h : parseScale m s = some (q, r)) : ∃ t, s = t ++ r ∧ Tail t := by
  have hcons {e : Nat} {t : List Nat} (he : e = 0x65 ∨ e = 0x45)
      (ht : ∀ c ∈ t, numeric c = true) : Tail (e :: t) := by
    constructor
    · intro c hc
      obtain rfl | hc := List.mem_cons.mp hc
      · obtain rfl | rfl := he <;> rfl
      · exact ht c hc
    · rintro c ⟨⟩
      obtain rfl | rfl := he <;> rfl
  rw [parseScale.eq_def] at h
  split at h
  · cases h
    exact ⟨[], rfl, .nil⟩
  · next e s =>
    split_ifs at h with he
    · split at h
      · obtain ⟨t, rfl, ht⟩ := takes_parseExponent h
        exact ⟨e :: 0x2b :: t, rfl, hcons he (List.forall_mem_cons.mpr ⟨rfl, ht⟩)⟩
      · obtain ⟨t, rfl, ht⟩ := takes_parseExponent h
        exact ⟨e :: 0x2d :: t, rfl, hcons he (List.forall_mem_cons.mpr ⟨rfl, ht⟩)⟩
      · obtain ⟨t, rfl, ht⟩ := takes_parseExponent h
        exact ⟨e :: t, rfl, hcons he ht⟩
    · cases h
      exact ⟨[], rfl, .nil⟩

theorem takes_parseFraction (h : parseFraction n s = some (q, r)) : ∃ t, s = t ++ r ∧ Tail t := by
  rw [parseFraction.eq_def] at h
  split at h
  · next s =>
    split at h
    · cases h
    · next ds rest _ heq =>
      obtain ⟨rfl, hd⟩ := takes_span heq
      obtain ⟨t, rfl, ht⟩ := takes_parseScale h
      refine ⟨0x2e :: ds ++ t, by simp, ?_, ?_⟩
      · intro c hc
        simp only [List.cons_append, List.mem_cons, List.mem_append] at hc
        obtain rfl | hc | hc := hc
        · rfl
        · exact numeric_of_isDigit (hd c hc)
        · exact ht.numeric c hc
      · rintro c ⟨⟩
        rfl
  · exact takes_parseScale h

/-- A numeral: its digits, if it has nothing else, are those of its value. -/
structure Numeral (t : List Nat) : Prop where
  ne_nil : t ≠ []
  numeric : ∀ c ∈ t, numeric c = true
  decimal : (∀ c ∈ t, isDigit c = true) → t = decimal (digitsValue t)

theorem takes_parseUnsigned (h : parseUnsigned s = some (q, r)) : ∃ t, s = t ++ r ∧ Numeral t := by
  rw [parseUnsigned.eq_def] at h
  split at h
  · cases h
  · next d s =>
    split_ifs at h with h0 hd
    · obtain ⟨t, rfl, ht⟩ := takes_parseFraction h
      refine ⟨d :: t, rfl, by simp, List.forall_mem_cons.mpr ⟨by rw [h0]; rfl, ht.numeric⟩, ?_⟩
      intro hdigits
      have hnil := ht.eq_nil (fun c hc => hdigits c (.tail _ hc))
      rw [hnil]
      exact (decimal_digitsValue [] d (by simpa [hnil] using hdigits) (fun _ => rfl)).symm
    · obtain ⟨hs, hds⟩ : s = (s.span isDigit).1 ++ (s.span isDigit).2 ∧
          ∀ c ∈ (s.span isDigit).1, isDigit c = true := takes_span rfl
      obtain ⟨t, hrest, ht⟩ := takes_parseFraction h
      refine ⟨d :: ((s.span isDigit).1 ++ t), ?_, by simp, ?_, ?_⟩
      · rw [List.cons_append, List.append_assoc, ← hrest, ← hs]
      · refine List.forall_mem_cons.mpr ⟨numeric_of_isDigit hd, fun c hc => ?_⟩
        obtain hc | hc := List.mem_append.mp hc
        · exact numeric_of_isDigit (hds c hc)
        · exact ht.numeric c hc
      · intro hdigits
        have hnil := ht.eq_nil (fun c hc =>
          hdigits c (.tail _ (List.mem_append_right _ hc)))
        rw [hnil, List.append_nil]
        exact (decimal_digitsValue _ d (List.forall_mem_cons.mpr ⟨hd, hds⟩)
          (fun h => absurd h h0)).symm

theorem takes_parseNumber (h : parseNumber s = some (v, r)) : ∃ t, s = t ++ r ∧ Numeral t := by
  rw [parseNumber.eq_def] at h
  split at h
  · next s =>
    obtain ⟨⟨q, r⟩, hu, ⟨⟩⟩ := Option.map_eq_some_iff.mp h
    obtain ⟨t, rfl, ht⟩ := takes_parseUnsigned hu
    refine ⟨0x2d :: t, rfl, by simp, List.forall_mem_cons.mpr ⟨rfl, ht.numeric⟩, fun hd => ?_⟩
    cases hd 0x2d (.head _)
  · obtain ⟨⟨q, r⟩, hu, ⟨⟩⟩ := Option.map_eq_some_iff.mp h
    exact takes_parseUnsigned hu

theorem readNumber_eq_some (h : readNumber s = some (v, r)) :
    ∃ t n, v = .num t n ∧ s = t ++ r ∧ Numeral t := by
  rw [readNumber] at h
  split at h
  · next n r' hnum =>
    cases h
    obtain ⟨t, rfl, ht⟩ := takes_parseNumber hnum
    refine ⟨t, n, ?_, rfl, ht⟩
    simp only [List.length_append, Nat.add_sub_cancel, List.take_left]
  · cases h

section Munch

/-- What may follow a numeral and is no part of it. -/
theorem head_of_skip (h : skip s = c :: t) (hc : numeric c = false) :
    ∀ d ∈ s.head?, numeric d = false := by
  cases s with
  | nil => nofun
  | cons d s =>
    rintro _ ⟨⟩
    cases hd : isSpace d with
    | false =>
      rw [skip_cons hd] at h
      rw [(List.cons.inj h).1]
      exact hc
    | true =>
      simp only [isSpace, Bool.or_eq_true, beq_iff_eq] at hd
      obtain ((rfl | rfl) | rfl) | rfl := hd <;> rfl

variable {t r : List Nat} (ht : ∀ c ∈ t, numeric c = true) (he : e = 0x2c ∨ e = 0x7d)
include ht he

theorem head_numeral : ∃ c s, t ++ e :: r = c :: s ∧ (numeric c = true ∨ c = 0x2c ∨ c = 0x7d) := by
  cases t with
  | nil => exact ⟨e, r, rfl, .inr he⟩
  | cons c t => exact ⟨c, t ++ e :: r, rfl, .inl (ht c (.head _))⟩

theorem skip_numeral : skip (t ++ e :: r) = t ++ e :: r := by
  obtain ⟨c, s, heq, hc⟩ := head_numeral (r := r) ht he
  rw [heq]
  apply skip_cons
  simp [numeric, isDigit, isSpace] at hc ⊢
  omega

/-- A value that is read where there are only characters of numerals before the delimiter is
all of them. -/
theorem readValue_numeral (h : readValue n (t ++ e :: r) = some (v, s))
    (hs : ∀ c ∈ s.head?, numeric c = false) : s = e :: r ∧ ∃ x, v = .num t x ∧ Numeral t := by
  obtain ⟨c, rest, heq, hc⟩ := head_numeral (r := r) ht he
  have hdelim : numeric e = false := by
    obtain rfl | rfl := he <;> rfl
  have hread : readNumber (t ++ e :: r) = some (v, s) := by
    cases n with
    | zero => cases h
    | succ n =>
      rw [heq] at h ⊢
      have hrange : c ≠ quote ∧ c ≠ 0x7b ∧ c ≠ 0x5b ∧ c ≠ 0x74 ∧ c ≠ 0x66 ∧ c ≠ 0x6e := by
        simp [numeric, isDigit, quote] at hc ⊢
        omega
      obtain ⟨h1, h2, h3, h4, h5, h6⟩ := hrange
      rwa [readValue, if_neg h1, if_neg h2, if_neg h3, if_neg h4, if_neg h5, if_neg h6] at h
  obtain ⟨u, x, rfl, hsplit, hu⟩ := readNumber_eq_some hread
  obtain ⟨a, ha, hrest⟩ | ⟨a, ha, hrest⟩ := List.append_eq_append_iff.mp hsplit
  · cases a with
    | nil =>
      rw [List.append_nil] at ha
      exact ⟨hrest.symm, x, by rw [ha], ha ▸ hu⟩
    | cons d a =>
      obtain ⟨rfl, -⟩ := List.cons.inj hrest
      have hnumeric := hu.numeric e (by simp [ha])
      rw [hdelim] at hnumeric
      cases hnumeric
  · cases a with
    | nil =>
      rw [List.append_nil] at ha
      exact ⟨hrest, x, by rw [ha], ha.symm ▸ hu⟩
    | cons d a =>
      have hnumeric := ht d (by simp [ha])
      rw [hs d (by simp [hrest])] at hnumeric
      cases hnumeric

end Munch

/-! An object whose values have only characters of numerals. -/

structure NumericMember (m : List Nat × List Nat) : Prop where
  key : ∀ c ∈ m.1, isPlain c = true
  value : ∀ c ∈ m.2, numeric c = true

def ReadsNumeral (m : List Nat × List Nat) (f : List Nat × Syntax) : Prop :=
  f.1 = m.1 ∧ Numeral m.2 ∧ ∃ x, f.2 = .num m.2 x

/-- The member is read as its numeral, and then the rest. -/
theorem readMembers_numeral (hm : NumericMember m) (he : e = 0x2c ∨ e = 0x7d)
    (h : readMembers (n + 1) (member m ++ e :: r) = some (fs, s)) :
    ∃ f, ReadsNumeral m f ∧
      ((e = 0x2c ∧ (readMembers n (skip r)).map (fun r => (f :: r.1, r.2)) = some (fs, s)) ∨
        (e = 0x7d ∧ fs = [f] ∧ s = r)) := by
  obtain ⟨k, t⟩ := m
  obtain ⟨hk, ht⟩ := hm
  have hchars : parseChars (k ++ quote :: 0x3a :: (t ++ e :: r)) = some (k, 0x3a :: (t ++ e :: r)) :=
    parseChars_plain hk _
  have hmember : member (k, t) ++ e :: r = quote :: (k ++ quote :: 0x3a :: (t ++ e :: r)) := by
    simp [member]
  rw [hmember] at h
  simp only [readMembers, if_true, hchars, skip_cons (show isSpace 0x3a = false by rfl),
    skip_numeral ht he] at h
  split at h
  · cases h
  · next v rest hread =>
    split at h
    · next more hmore =>
      obtain ⟨rfl, x, rfl, hnumeral⟩ := readValue_numeral ht he hread (head_of_skip hmore rfl)
      rw [skip_cons (by obtain rfl | rfl := he <;> rfl)] at hmore
      obtain ⟨rfl, rfl⟩ := List.cons.inj hmore
      exact ⟨(k, .num t x), ⟨rfl, hnumeral, x, rfl⟩, .inl ⟨rfl, h⟩⟩
    · next more hmore =>
      obtain ⟨rfl, x, rfl, hnumeral⟩ := readValue_numeral ht he hread (head_of_skip hmore rfl)
      rw [skip_cons (by obtain rfl | rfl := he <;> rfl)] at hmore
      obtain ⟨rfl, rfl⟩ := List.cons.inj hmore
      cases h
      exact ⟨(k, .num t x), ⟨rfl, hnumeral, x, rfl⟩, .inr ⟨rfl, rfl, rfl⟩⟩
    · cases h

theorem readMembers_numerals {ms : List (List Nat × List Nat)} (hm : ∀ m ∈ ms, NumericMember m)
    (hne : ms ≠ []) (h : readMembers n (commas (ms.map member) ++ 0x7d :: r) = some (fs, s)) :
    List.Forall₂ ReadsNumeral ms fs := by
  induction ms generalizing n fs s with
  | nil => exact absurd rfl hne
  | cons m ms ih =>
    have hhead := hm m (.head _)
    cases n with
    | zero => cases h
    | succ n =>
      cases ms with
      | nil =>
        obtain ⟨f, hf, ⟨heq, -⟩ | ⟨-, rfl, -⟩⟩ := readMembers_numeral hhead (.inr rfl) h
        · cases heq
        · exact .cons hf .nil
      | cons m' ms =>
        have hcommas : commas ((m :: m' :: ms).map member) ++ 0x7d :: r =
            member m ++ 0x2c :: (commas ((m' :: ms).map member) ++ 0x7d :: r) := by
          simp [commas]
        rw [hcommas] at h
        obtain ⟨f, hf, ⟨-, h⟩ | ⟨heq, -⟩⟩ := readMembers_numeral hhead (.inl rfl) h
        · obtain ⟨⟨gs, s'⟩, hrest, ⟨⟩⟩ := Option.map_eq_some_iff.mp h
          have hskip : skip (commas ((m' :: ms).map member) ++ 0x7d :: r) =
              commas ((m' :: ms).map member) ++ 0x7d :: r := by
            cases ms <;> exact skip_cons rfl _
          rw [hskip] at hrest
          exact .cons hf (ih (fun m hm' => hm m (.tail _ hm')) (by simp) hrest)
        · cases heq

theorem readFirst_numerals {ms : List (List Nat × List Nat)} (hm : ∀ m ∈ ms, NumericMember m)
    (hne : ms ≠ []) (h : readFirst (object ms) = some (v, s)) :
    ∃ fs, v = .obj fs ∧ List.Forall₂ ReadsNumeral ms fs := by
  obtain ⟨m, ms, rfl⟩ := List.exists_cons_of_ne_nil hne
  have hhead : ∃ t, commas ((m :: ms).map member) ++ [0x7d] = quote :: t := by
    cases ms <;> exact ⟨_, rfl⟩
  obtain ⟨t, ht⟩ := hhead
  have htext : object (m :: ms) = 0x7b :: quote :: t := congrArg (0x7b :: ·) ht
  rw [readFirst, htext, skip_cons rfl] at h
  have hvalue : readValue (2 * (0x7b :: quote :: t).length + 1) (0x7b :: quote :: t) =
      (readMembers (2 * (0x7b :: quote :: t).length) (quote :: t)).map
        (fun r => (.obj r.1, r.2)) := by
    rw [readValue, if_neg (by decide), if_pos rfl, skip_cons rfl]
    rfl
  rw [hvalue] at h
  obtain ⟨⟨fs, s'⟩, hread, ⟨⟩⟩ := Option.map_eq_some_iff.mp h
  rw [← ht] at hread
  exact ⟨fs, rfl, readMembers_numerals hm (by simp) hread⟩

/-! The characters of a number that JavaScript prints. -/

def NumericText (t : String) : Prop := ∀ c ∈ t.toList, numeric c.toNat = true

theorem numericText_of_all (h : t.toList.all (fun c => numeric c.toNat) = true) : NumericText t :=
  List.all_eq_true.mp h

theorem numeric_toDigits (n : Nat) : ∀ c ∈ Nat.toDigits 10 n, numeric c.toNat = true :=
  fun _ hc => numeric_of_isDigit (isDigit_decimal n _ (List.mem_map_of_mem hc))

theorem numericText_exponent (z : ℤ) :
    NumericText ((if 0 ≤ z then "e+" else "e-") ++ toString z.natAbs) := by
  intro c hc
  rw [String.toList_append, List.mem_append] at hc
  obtain hc | hc := hc
  · split_ifs at hc
    · exact numericText_of_all (by decide) c hc
    · exact numericText_of_all (by decide) c hc
  · exact numeric_toDigits z.natAbs c (by simpa [Nat.repr] using hc)

theorem numericText_decimal (d : Decimal) : NumericText d.text := by
  have hdigits := numeric_toDigits d.s
  have hexponent := numericText_exponent (d.n - 1)
  have hzero : numeric '0'.toNat = true := rfl
  have hpoint : numeric '.'.toNat = true := rfl
  have htake {k : Nat} : ∀ c ∈ (Nat.toDigits 10 d.s).take k, numeric c.toNat = true :=
    fun c hc => hdigits c (List.mem_of_mem_take hc)
  have hdrop {k : Nat} : ∀ c ∈ (Nat.toDigits 10 d.s).drop k, numeric c.toNat = true :=
    fun c hc => hdigits c (List.mem_of_mem_drop hc)
  have hzeros {k : Nat} : ∀ c ∈ List.replicate k '0', numeric c.toNat = true := by
    intro c hc
    rw [List.eq_of_mem_replicate hc]
    rfl
  rw [NumericText] at hexponent ⊢
  simp only [Decimal.text]
  generalize (if 0 ≤ d.n - 1 then "e+" else "e-") ++ toString (d.n - 1).natAbs = exponent
    at hexponent ⊢
  split_ifs <;> simp only [String.toList_append, String.toList_ofList, List.forall_mem_append,
    List.forall_mem_cons]
  · exact ⟨hdigits, hzeros⟩
  · exact ⟨htake, hpoint, hdrop⟩
  · exact ⟨⟨hzero, hpoint, hzeros⟩, hdigits⟩
  · exact ⟨hdigits, hexponent⟩
  · exact ⟨⟨htake, hpoint, hdrop⟩, hexponent⟩

/-- A number that is not negative has no sign. -/
theorem numericText_number {q : ℚ} (h : 0 ≤ q) : NumericText (Number.fin q).text := by
  rw [Number.text]
  split_ifs with hzero hneg
  · exact numericText_of_all (by decide)
  · exact absurd h (not_le.mpr hneg)
  · cases shortest |q| with
    | none => nofun
    | some d => exact numericText_decimal d

end Json
