import StreamMix.Lib.JsonText
import Mathlib.Data.List.Forall2
import Mathlib.Tactic.IntervalCases
import Mathlib.Tactic.SplitIfs

/-! Writing JSON texts and reading them back. -/

namespace Json

open Unicode (utf16)

def member (m : List Nat × List Nat) : List Nat := quote :: m.1 ++ quote :: 0x3a :: m.2

def commas : List (List Nat) → List Nat
  | [] => []
  | [t] => t
  | t :: ts => t ++ 0x2c :: commas ts

def object (members : List (List Nat × List Nat)) : List Nat :=
  0x7b :: commas (members.map member) ++ [0x7d]

def array (elements : List (List Nat)) : List Nat := 0x5b :: commas elements ++ [0x5d]

def quoted (escape : Nat → List Nat) (ps : List Nat) : List Nat :=
  quote :: ps.flatMap escape ++ [quote]

def hexChar (d : Nat) : Nat := if d < 10 then 0x30 + d else 0x57 + d

def unicodeEscape (p : Nat) : List Nat :=
  [backslash, 0x75, hexChar (p / 0x1000 % 16), hexChar (p / 0x100 % 16), hexChar (p / 16 % 16),
    hexChar (p % 16)]

/-- What may follow a value inside a text. -/
def Delimited (r : List Nat) : Prop := ∀ c ∈ r.head?, c = 0x2c ∨ c = 0x7d ∨ c = 0x5d

/-- The text is read as the value wherever it stands. -/
structure Reads (t : List Nat) (v : Syntax) : Prop where
  head : ∃ c s, t = c :: s ∧ isSpace c = false ∧ c ≠ 0x5d
  read : ∀ n r, t.length ≤ n → Delimited r → readValue n (t ++ r) = some (v, r)

theorem Reads.skip (h : Reads t v) (r : List Nat) : skip (t ++ r) = t ++ r := by
  obtain ⟨c, s, rfl, hc, -⟩ := h.head
  exact skip_cons hc _

theorem Reads.readFirst (h : Reads t v) : readFirst t = some (v, []) := by
  have hread := h.read (2 * t.length + 1) [] (by omega) (by simp [Delimited])
  have hskip := h.skip []
  rw [List.append_nil] at hread hskip
  rw [Json.readFirst, hskip, hread]

theorem Reads.parse (h : Reads t v) : parse t = some v.value :=
  parse_of_readFirst h.readFirst rfl

theorem length_pos_of_reads (h : Reads t v) : 1 ≤ t.length := by
  obtain ⟨c, s, rfl, -⟩ := h.head
  simp

theorem reads_null : Reads [0x6e, 0x75, 0x6c, 0x6c] .null where
  head := ⟨_, _, rfl, rfl, by decide⟩
  read n r hn _ := by
    obtain ⟨n, rfl⟩ : ∃ k, n = k + 1 := ⟨n - 1, by simp at hn; omega⟩
    rfl

section Members

/-- A member and what it is read as. -/
def ReadsMember (m : List Nat × List Nat) (f : List Nat × Syntax) : Prop :=
  m.1 = f.1 ∧ (∀ c ∈ m.1, isPlain c = true) ∧ Reads m.2 f.2

theorem readMembers_member (h : ReadsMember m f) (hn : m.2.length ≤ n) (hr : Delimited r) :
    readMembers (n + 1) (member m ++ r) =
      match skip r with
      | 0x2c :: s => (readMembers n (skip s)).map (fun r => (f :: r.1, r.2))
      | 0x7d :: s => some ([f], s)
      | _ => none := by
  obtain ⟨k, t⟩ := m
  obtain ⟨k', v⟩ := f
  obtain ⟨rfl, hplain, hv⟩ := h
  have hchars : parseChars (k ++ quote :: 0x3a :: (t ++ r)) = some (k, 0x3a :: (t ++ r)) :=
    parseChars_plain hplain _
  have hmember : member (k, t) ++ r = quote :: (k ++ quote :: 0x3a :: (t ++ r)) := by
    simp [member]
  rw [hmember]
  simp only [readMembers, if_true, hchars, skip_cons (show isSpace 0x3a = false by rfl),
    hv.skip, hv.read n r hn hr] <;> rfl

theorem readMembers_commas {ms : List (List Nat × List Nat)} {fs : List (List Nat × Syntax)}
    (h : List.Forall₂ ReadsMember ms fs) (hne : ms ≠ []) (r : List Nat)
    (hn : (commas (ms.map member)).length ≤ n) :
    readMembers n (commas (ms.map member) ++ 0x7d :: r) = some (fs, r) := by
  induction h generalizing n with
  | nil => exact absurd rfl hne
  | @cons m f ms fs hm hms ih =>
    cases ms with
    | nil =>
      cases hms
      have hlen : m.2.length + 1 ≤ n := by
        simp only [commas, List.map_cons, List.map_nil, member, List.length_cons,
          List.length_append] at hn
        omega
      obtain ⟨n, rfl⟩ : ∃ k, n = k + 1 := ⟨n - 1, by omega⟩
      change readMembers (n + 1) (member m ++ 0x7d :: r) = _
      rw [readMembers_member hm (by omega) (by simp [Delimited]), skip_cons rfl]
      rfl
    | cons m' ms =>
      have hcommas : commas ((m :: m' :: ms).map member) =
          member m ++ 0x2c :: commas ((m' :: ms).map member) := rfl
      rw [hcommas] at hn ⊢
      have hlen : m.2.length + 2 + (commas ((m' :: ms).map member)).length ≤ n := by
        simp only [member, List.length_cons, List.length_append] at hn ⊢
        omega
      obtain ⟨n, rfl⟩ : ∃ k, n = k + 1 := ⟨n - 1, by omega⟩
      have hrest := ih (n := n) (by simp) (by omega)
      have hskip : skip (commas ((m' :: ms).map member) ++ 0x7d :: r) =
          commas ((m' :: ms).map member) ++ 0x7d :: r := by
        cases ms <;> exact skip_cons rfl _
      rw [List.append_assoc, List.cons_append,
        readMembers_member hm (by omega) (by simp [Delimited]), skip_cons rfl]
      simp only [hskip, hrest, Option.map_some]

theorem reads_object {ms : List (List Nat × List Nat)} {fs : List (List Nat × Syntax)}
    (h : List.Forall₂ ReadsMember ms fs) : Reads (object ms) (.obj fs) where
  head := ⟨_, _, rfl, rfl, by decide⟩
  read n r hn hr := by
    obtain ⟨n, rfl⟩ : ∃ k, n = k + 1 := ⟨n - 1, by simp [object] at hn; omega⟩
    have htext : object ms ++ r = 0x7b :: (commas (ms.map member) ++ 0x7d :: r) := by
      simp [object]
    rw [htext, readValue, if_neg (by decide), if_pos rfl]
    cases h with
    | nil => rfl
    | @cons m f ms fs hm hms =>
      have hlen : (commas ((m :: ms).map member)).length ≤ n := by
        simp only [object, List.length_cons, List.length_append, List.length_nil] at hn
        omega
      have hmembers := readMembers_commas (.cons hm hms) (by simp) r hlen
      have hhead : ∃ s, commas ((m :: ms).map member) = quote :: s := by
        cases ms <;> exact ⟨_, rfl⟩
      obtain ⟨s, hs⟩ := hhead
      rw [hs] at hmembers ⊢
      rw [List.cons_append, skip_cons rfl]
      change (readMembers n (quote :: s ++ 0x7d :: r)).map _ = _
      rw [hmembers]
      rfl

end Members

section Elements

theorem readElements_commas {ts : List (List Nat)} {vs : List Syntax}
    (h : List.Forall₂ Reads ts vs) (hne : ts ≠ []) (r : List Nat)
    (hn : (commas ts).length + 1 ≤ n) :
    readElements n (commas ts ++ 0x5d :: r) = some (vs, r) := by
  induction h generalizing n with
  | nil => exact absurd rfl hne
  | @cons t v ts vs ht hts ih =>
    obtain ⟨n, rfl⟩ : ∃ k, n = k + 1 := ⟨n - 1, by omega⟩
    cases ts with
    | nil =>
      cases hts
      have hread := ht.read n (0x5d :: r) (by simpa [commas] using hn) (by simp [Delimited])
      simp only [commas, readElements, hread, skip_cons (show isSpace 0x5d = false by rfl)]
    | cons t' ts =>
      have hcommas : commas (t :: t' :: ts) = t ++ 0x2c :: commas (t' :: ts) := rfl
      rw [hcommas] at hn ⊢
      have hlen : t.length + 1 + (commas (t' :: ts)).length ≤ n := by
        simp only [List.length_cons, List.length_append] at hn ⊢
        omega
      have hrest := ih (n := n) (by simp) (by
        have := length_pos_of_reads ht
        omega)
      have hskip : skip (commas (t' :: ts) ++ 0x5d :: r) = commas (t' :: ts) ++ 0x5d :: r := by
        cases hts with
        | cons ht' hts =>
          cases ts with
          | nil => exact ht'.skip _
          | cons t'' ts =>
            rw [show commas (t' :: t'' :: ts) = t' ++ 0x2c :: commas (t'' :: ts) from rfl,
              List.append_assoc]
            exact ht'.skip _
      have hread := ht.read n (0x2c :: (commas (t' :: ts) ++ 0x5d :: r)) (by omega)
        (by simp [Delimited])
      rw [List.append_assoc, List.cons_append]
      simp only [readElements, hread, skip_cons (show isSpace 0x2c = false by rfl), hskip, hrest,
        Option.map_some]

theorem reads_array {ts : List (List Nat)} {vs : List Syntax}
    (h : List.Forall₂ Reads ts vs) : Reads (array ts) (.arr vs) where
  head := ⟨_, _, rfl, rfl, by decide⟩
  read n r hn hr := by
    obtain ⟨n, rfl⟩ : ∃ k, n = k + 1 := ⟨n - 1, by simp [array] at hn; omega⟩
    have htext : array ts ++ r = 0x5b :: (commas ts ++ 0x5d :: r) := by
      simp [array]
    rw [htext, readValue, if_neg (by decide), if_neg (by decide), if_pos rfl]
    cases h with
    | nil => rfl
    | @cons t v ts vs ht hts =>
      have hlen : (commas (t :: ts)).length + 1 ≤ n := by
        simp only [array, List.length_cons, List.length_append, List.length_nil] at hn
        omega
      have helements := readElements_commas (.cons ht hts) (by simp) r hlen
      obtain ⟨c, s, hcs, hspace, hclose⟩ := ht.head
      have hhead : ∃ s, commas (t :: ts) = c :: s := by
        cases ts <;> exact ⟨_, by rw [hcs]; rfl⟩
      obtain ⟨s, hs⟩ := hhead
      rw [hs] at helements ⊢
      rw [List.cons_append, skip_cons hspace]
      split
      · next heq => exact absurd (List.cons.inj heq).1 hclose
      · rw [← List.cons_append, helements]
        rfl

end Elements

section Strings

/-- The code point is read back from its escape, wherever that stands in a string. -/
def Escapes (escape : Nat → List Nat) (p : Nat) : Prop :=
  ∀ s, parseChars (utf16 (escape p) ++ s) =
    (parseChars s).map (fun r => (Unicode.units p ++ r.1, r.2))

theorem parseChars_cons (hc : isPlain c = true) (s : List Nat) :
    parseChars (c :: s) = (parseChars s).map (fun r => (c :: r.1, r.2)) := by
  have hq : c ≠ quote := by
    rintro rfl
    cases hc
  have hb : c ≠ backslash := by
    rintro rfl
    cases hc
  rw [parseChars.eq_def]
  simp only [if_neg hq, if_neg hb, if_pos hc]

theorem isPlain_of_le (h : 0x5d ≤ c) : isPlain c = true := by
  simp [isPlain, quote, backslash]
  omega

theorem escapes_self {escape : Nat → List Nat} (hp : isPlain p = true) (he : escape p = [p]) :
    Escapes escape p := by
  intro s
  rw [he, utf16, List.flatMap_singleton, Unicode.units]
  split_ifs
  · exact parseChars_cons hp s
  · simp only [List.cons_append, List.nil_append]
    rw [parseChars_cons (isPlain_of_le (by omega)), parseChars_cons (isPlain_of_le (by omega)),
      Option.map_map]
    rfl

theorem units_of_lt (h : p < 0x10000) : Unicode.units p = [p] := if_pos h

theorem utf16_of_lt {ps : List Nat} (h : ∀ p ∈ ps, p < 0x10000) : utf16 ps = ps := by
  induction ps with
  | nil => rfl
  | cons p ps ih =>
    have hrest := ih (fun q hq => h q (.tail _ hq))
    rw [utf16] at hrest ⊢
    rw [List.flatMap_cons, hrest, units_of_lt (h p (.head _))]
    rfl

theorem escapes_letter {escape : Nat → List Nat} (he : escape p = [backslash, e])
    (hu : e ≠ 0x75) (h : Json.escape e = some p) : Escapes escape p := by
  have hsmall : e < 0x10000 ∧ p < 0x10000 := by
    simp only [Json.escape, quote, backslash] at h
    grind
  intro s
  rw [he, utf16_of_lt (by simp [backslash, hsmall]), units_of_lt hsmall.2]
  simp only [List.cons_append, List.nil_append]
  rw [parseChars.eq_def]
  simp only [if_neg (show backslash ≠ quote by decide), if_true, if_neg hu, h]

theorem hexDigit_hexChar (h : d < 16) : hexDigit (hexChar d) = some d := by
  interval_cases d <;> rfl

theorem hexChar_lt (h : d < 16) : hexChar d < 0x10000 := by
  rw [hexChar]
  split_ifs <;> omega

theorem escapes_unicode {escape : Nat → List Nat} (hp : p < 0x10000)
    (he : escape p = unicodeEscape p) : Escapes escape p := by
  have hlt (k : Nat) : hexChar (k % 16) < 0x10000 := hexChar_lt (Nat.mod_lt _ (by decide))
  have hdigit (k : Nat) : hexDigit (hexChar (k % 16)) = some (k % 16) :=
    hexDigit_hexChar (Nat.mod_lt _ (by decide))
  have hvalue : ((p / 0x1000 % 16 * 16 + p / 0x100 % 16) * 16 + p / 16 % 16) * 16 + p % 16 = p := by
    omega
  intro s
  rw [he, utf16_of_lt (by simp [unicodeEscape, backslash, hlt]), units_of_lt hp]
  simp only [unicodeEscape, List.cons_append, List.nil_append]
  rw [parseChars.eq_def]
  simp [if_neg (show backslash ≠ quote by decide), hexUnit, hdigit, hvalue]

theorem parseChars_flatMap {escape : Nat → List Nat} {ps : List Nat}
    (h : ∀ p ∈ ps, Escapes escape p) (r : List Nat) :
    parseChars (utf16 (ps.flatMap escape) ++ quote :: r) = some (utf16 ps, r) := by
  induction ps with
  | nil =>
    change parseChars (quote :: r) = some ([], r)
    rw [parseChars.eq_def]
    exact if_pos rfl
  | cons p ps ih =>
    rw [List.flatMap_cons, Unicode.utf16_append, List.append_assoc, h p (.head _),
      ih (fun q hq => h q (.tail _ hq))]
    rfl

theorem reads_quoted {escape : Nat → List Nat} {ps : List Nat}
    (h : ∀ p ∈ ps, Escapes escape p) : Reads (utf16 (quoted escape ps)) (.str (utf16 ps)) := by
  have htext : utf16 (quoted escape ps) = quote :: (utf16 (ps.flatMap escape) ++ [quote]) := by
    change utf16 (quote :: (ps.flatMap escape ++ [quote])) = _
    rw [← List.singleton_append, Unicode.utf16_append, Unicode.utf16_append]
    rfl
  rw [htext]
  refine ⟨⟨_, _, rfl, rfl, by decide⟩, ?_⟩
  intro n r hn hr
  obtain ⟨n, rfl⟩ : ∃ k, n = k + 1 := ⟨n - 1, by simp at hn; omega⟩
  rw [List.cons_append, List.append_assoc, List.singleton_append, readValue, if_pos rfl,
    parseChars_flatMap h]
  rfl

end Strings

end Json
