import StreamMix.Lib.JsNumber
import Mathlib.Data.List.Nodup
import Mathlib.Data.List.Perm.Subperm
import Mathlib.Algebra.Order.BigOperators.Group.List

/-! JSON texts over UTF-16 code units.  A value remembers every member of an object in
the order of the text; the last of several with one key is the one that counts. -/

namespace Json

open Js (Number)

inductive Value
  | null
  | bool (b : Bool)
  | num (n : Number)
  | str (s : List Nat)
  | arr (xs : List Value)
  | obj (fields : List (List Nat × Value))

def quote : Nat := 0x22
def backslash : Nat := 0x5c

/-- What may stand in a string unescaped. -/
def isPlain (c : Nat) : Bool := c != quote && c != backslash && 0x20 ≤ c

def isSpace (c : Nat) : Bool := c == 0x20 || c == 0x09 || c == 0x0a || c == 0x0d

def isDigit (c : Nat) : Bool := 0x30 ≤ c && c ≤ 0x39

def skip (s : List Nat) : List Nat := s.dropWhile isSpace

def hexDigit (c : Nat) : Option Nat :=
  if isDigit c then some (c - 0x30)
  else if 0x61 ≤ c ∧ c ≤ 0x66 then some (c - 0x61 + 10)
  else if 0x41 ≤ c ∧ c ≤ 0x46 then some (c - 0x41 + 10)
  else none

def hexUnit (a b c d : Nat) : Option Nat := do
  let a ← hexDigit a
  let b ← hexDigit b
  let c ← hexDigit c
  let d ← hexDigit d
  return ((a * 16 + b) * 16 + c) * 16 + d

/-- The escapes of one letter. -/
def escape (c : Nat) : Option Nat :=
  if c = quote ∨ c = backslash ∨ c = 0x2f then some c
  else if c = 0x62 then some 0x08
  else if c = 0x66 then some 0x0c
  else if c = 0x6e then some 0x0a
  else if c = 0x72 then some 0x0d
  else if c = 0x74 then some 0x09
  else none

/-- The rest of a string after its opening quote. -/
def parseChars : List Nat → Option (List Nat × List Nat)
  | [] => none
  | c :: s =>
    if c = quote then some ([], s)
    else if c = backslash then
      match s with
      | [] => none
      | e :: s =>
        if e = 0x75 then
          match s with
          | a :: b :: c :: d :: s =>
            match hexUnit a b c d with
            | some u => (parseChars s).map (fun r => (u :: r.1, r.2))
            | none => none
          | _ => none
        else
          match escape e with
          | some u => (parseChars s).map (fun r => (u :: r.1, r.2))
          | none => none
    else if isPlain c then (parseChars s).map (fun r => (c :: r.1, r.2))
    else none

def digitsValue (ds : List Nat) : Nat := ds.foldl (fun n d => n * 10 + (d - 0x30)) 0

/-- The digits of an exponent, after its sign. -/
def parseExponent (mantissa : ℚ) (sign : ℤ) (s : List Nat) : Option (ℚ × List Nat) :=
  match s.span isDigit with
  | ([], _) => none
  | (ds, rest) => some (mantissa * 10 ^ (sign * digitsValue ds), rest)

def parseScale (mantissa : ℚ) : List Nat → Option (ℚ × List Nat)
  | [] => some (mantissa, [])
  | e :: s =>
    if e = 0x65 ∨ e = 0x45 then
      match s with
      | 0x2b :: s => parseExponent mantissa 1 s
      | 0x2d :: s => parseExponent mantissa (-1) s
      | s => parseExponent mantissa 1 s
    else some (mantissa, e :: s)

def parseFraction (whole : Nat) : List Nat → Option (ℚ × List Nat)
  | 0x2e :: s =>
    match s.span isDigit with
    | ([], _) => none
    | (ds, rest) => parseScale (whole + digitsValue ds / 10 ^ ds.length) rest
  | s => parseScale whole s

def parseUnsigned : List Nat → Option (ℚ × List Nat)
  | [] => none
  | d :: s =>
    if d = 0x30 then parseFraction 0 s
    else if isDigit d then
      parseFraction (digitsValue (d :: (s.span isDigit).1)) (s.span isDigit).2
    else none

def parseNumber : List Nat → Option (Value × List Nat)
  | 0x2d :: s => (parseUnsigned s).map (fun r => (.num (.ofDecimal (-r.1)), r.2))
  | s => (parseUnsigned s).map (fun r => (.num (.ofDecimal r.1), r.2))

def literal (word : List Nat) (v : Value) (s : List Nat) : Option (Value × List Nat) :=
  if word.isPrefixOf s then some (v, s.drop word.length) else none

mutual

def parseValue : Nat → List Nat → Option (Value × List Nat)
  | 0, _ => none
  | _ + 1, [] => none
  | n + 1, c :: s =>
    if c = quote then (parseChars s).map (fun r => (.str r.1, r.2))
    else if c = 0x7b then
      match skip s with
      | 0x7d :: s => some (.obj [], s)
      | s => (parseMembers n s).map (fun r => (.obj r.1, r.2))
    else if c = 0x5b then
      match skip s with
      | 0x5d :: s => some (.arr [], s)
      | s => (parseElements n s).map (fun r => (.arr r.1, r.2))
    else if c = 0x74 then literal [0x74, 0x72, 0x75, 0x65] (.bool true) (c :: s)
    else if c = 0x66 then literal [0x66, 0x61, 0x6c, 0x73, 0x65] (.bool false) (c :: s)
    else if c = 0x6e then literal [0x6e, 0x75, 0x6c, 0x6c] .null (c :: s)
    else parseNumber (c :: s)

def parseElements : Nat → List Nat → Option (List Value × List Nat)
  | 0, _ => none
  | n + 1, s =>
    match parseValue n s with
    | none => none
    | some (v, s) =>
      match skip s with
      | 0x2c :: s => (parseElements n (skip s)).map (fun r => (v :: r.1, r.2))
      | 0x5d :: s => some ([v], s)
      | _ => none

def parseMembers : Nat → List Nat → Option (List (List Nat × Value) × List Nat)
  | 0, _ => none
  | _ + 1, [] => none
  | n + 1, c :: s =>
    if c = quote then
      match parseChars s with
      | none => none
      | some (k, s) =>
        match skip s with
        | 0x3a :: s =>
          match parseValue n (skip s) with
          | none => none
          | some (v, s) =>
            match skip s with
            | 0x2c :: s => (parseMembers n (skip s)).map (fun r => ((k, v) :: r.1, r.2))
            | 0x7d :: s => some ([(k, v)], s)
            | _ => none
        | _ => none
    else none

end

/-- No value nests deeper than twice its text is long. -/
def parse (s : List Nat) : Option Value :=
  match parseValue (2 * s.length + 1) (skip s) with
  | some (v, rest) => if skip rest = [] then some v else none
  | none => none

/-! A text is at least as long as the value it denotes: a lower bound on the length of
the texts of a value, which counts two units for a character that must be escaped. -/

def charWeight (c : Nat) : Nat := if isPlain c then 1 else 2

def strWeight (s : List Nat) : Nat := 2 + (s.map charWeight).sum

mutual

def Value.weight : Value → Nat
  | .null => 4
  | .bool _ => 4
  | .num _ => 1
  | .str s => strWeight s
  | .arr xs => 1 + weightElements xs
  | .obj fields => 1 + weightMembers fields

def weightElements : List Value → Nat
  | [] => 0
  | v :: vs => v.weight + 1 + weightElements vs

def weightMembers : List (List Nat × Value) → Nat
  | [] => 0
  | (k, v) :: fields => strWeight k + 1 + v.weight + 1 + weightMembers fields

end

theorem length_skip (s : List Nat) : (skip s).length ≤ s.length :=
  (List.dropWhile_sublist _).length_le

theorem charWeight_le (c : Nat) : charWeight c ≤ 2 := by
  simp only [charWeight]
  split <;> omega

theorem length_parseChars (h : parseChars s = some (t, r)) :
    (t.map charWeight).sum + 1 + r.length ≤ s.length := by
  fun_induction parseChars s generalizing t r with
  | case2 s =>
    cases h
    simp [Nat.add_comm]
  | case4 a b c d s u _ _ ih =>
    obtain ⟨⟨t, r⟩, hr, ⟨⟩⟩ := Option.map_eq_some_iff.mp h
    have := ih hr
    have := charWeight_le u
    simp only [List.map_cons, List.sum_cons, List.length_cons]
    omega
  | case7 e s _ u _ _ ih =>
    obtain ⟨⟨t, r⟩, hr, ⟨⟩⟩ := Option.map_eq_some_iff.mp h
    have := ih hr
    have := charWeight_le u
    simp only [List.map_cons, List.sum_cons, List.length_cons]
    omega
  | case9 c s _ _ hc ih =>
    obtain ⟨⟨t, r⟩, hr, ⟨⟩⟩ := Option.map_eq_some_iff.mp h
    have := ih hr
    have : charWeight c = 1 := if_pos hc
    simp only [List.map_cons, List.sum_cons, List.length_cons]
    omega
  | _ => cases h

theorem length_span (s : List Nat) : (s.span isDigit).2.length ≤ s.length := by
  rw [List.span_eq_takeWhile_dropWhile]
  exact (List.dropWhile_sublist _).length_le

theorem length_parseExponent (h : parseExponent m sign s = some (q, r)) : r.length ≤ s.length := by
  simp only [parseExponent] at h
  have hs := length_span s
  split at h
  · cases h
  · next ds rest _ heq =>
    cases h
    rwa [heq] at hs

theorem length_parseScale (h : parseScale m s = some (q, r)) : r.length ≤ s.length := by
  simp only [parseScale] at h
  split at h
  · cases h
    exact Nat.le_refl _
  · next e s =>
    split at h
    · have hlen : ∀ x s', s = x :: s' → s'.length ≤ (e :: s).length := by
        rintro x s' rfl
        simp only [List.length_cons]
        omega
      split at h
      · exact Nat.le_trans (length_parseExponent h) (hlen _ _ rfl)
      · exact Nat.le_trans (length_parseExponent h) (hlen _ _ rfl)
      · exact Nat.le_trans (length_parseExponent h) (Nat.le_succ _)
    · cases h
      exact Nat.le_refl _

theorem length_parseFraction (h : parseFraction n s = some (q, r)) : r.length ≤ s.length := by
  simp only [parseFraction] at h
  split at h
  · next s =>
    have hs := length_span s
    split at h
    · cases h
    · next ds rest _ heq =>
      rw [heq] at hs
      exact Nat.le_trans (Nat.le_trans (length_parseScale h) hs) (Nat.le_succ _)
  · exact length_parseScale h

theorem length_parseUnsigned (h : parseUnsigned s = some (q, r)) : r.length + 1 ≤ s.length := by
  simp only [parseUnsigned] at h
  split at h
  · cases h
  · next d s =>
    split at h
    · exact Nat.succ_le_succ (length_parseFraction h)
    · split at h
      · exact Nat.succ_le_succ (Nat.le_trans (length_parseFraction h) (length_span s))
      · cases h

theorem length_parseNumber (h : parseNumber s = some (v, r)) : v.weight + r.length ≤ s.length := by
  simp only [parseNumber] at h
  split at h
  · obtain ⟨⟨q, r⟩, hr, ⟨⟩⟩ := Option.map_eq_some_iff.mp h
    have := length_parseUnsigned hr
    simp only [Value.weight, List.length_cons]
    omega
  · obtain ⟨⟨q, r⟩, hr, ⟨⟩⟩ := Option.map_eq_some_iff.mp h
    have := length_parseUnsigned hr
    simp only [Value.weight]
    omega

theorem length_literal (hv : v.weight ≤ word.length) (h : literal word v s = some (w, r)) :
    w.weight + r.length ≤ s.length := by
  simp only [literal] at h
  split at h
  · next hp =>
    cases h
    have := (List.isPrefixOf_iff_prefix.mp hp).length_le
    rw [List.length_drop]
    omega
  · cases h

/-! What a text with a value in front looks like, one case for each way out of the parser. -/

inductive ValueCase (n : Nat) : List Nat → Value → List Nat → Prop
  | str (h : parseChars s = some (t, r)) : ValueCase n (quote :: s) (.str t) r
  | emptyObj (h : skip s = 0x7d :: r) : ValueCase n (0x7b :: s) (.obj []) r
  | obj (h : parseMembers n (skip s) = some (fs, r)) : ValueCase n (0x7b :: s) (.obj fs) r
  | emptyArr (h : skip s = 0x5d :: r) : ValueCase n (0x5b :: s) (.arr []) r
  | arr (h : parseElements n (skip s) = some (vs, r)) : ValueCase n (0x5b :: s) (.arr vs) r
  | word (hv : v = .null ∨ ∃ b, v = .bool b) (hlen : 4 ≤ word.length)
      (h : literal word v s = some (w, r)) : ValueCase n s w r
  | num (h : parseNumber s = some (v, r)) : ValueCase n s v r

inductive ElementsCase (n : Nat) (s : List Nat) : List Value → List Nat → Prop
  | last (hv : parseValue n s = some (v, rest)) (h : skip rest = 0x5d :: r) :
      ElementsCase n s [v] r
  | more (hv : parseValue n s = some (v, rest)) (h : skip rest = 0x2c :: more)
      (hvs : parseElements n (skip more) = some (vs, r)) : ElementsCase n s (v :: vs) r

inductive MembersCase (n : Nat) : List Nat → List (List Nat × Value) → List Nat → Prop
  | last (hk : parseChars s = some (k, rest)) (hcolon : skip rest = 0x3a :: after)
      (hv : parseValue n (skip after) = some (v, tail)) (h : skip tail = 0x7d :: r) :
      MembersCase n (quote :: s) [(k, v)] r
  | more (hk : parseChars s = some (k, rest)) (hcolon : skip rest = 0x3a :: after)
      (hv : parseValue n (skip after) = some (v, tail)) (h : skip tail = 0x2c :: more)
      (hfs : parseMembers n (skip more) = some (fs, r)) :
      MembersCase n (quote :: s) ((k, v) :: fs) r

theorem valueCase_of_parse (h : parseValue (n + 1) s = some (v, r)) : ValueCase n s v r := by
  cases s with
  | nil => cases h
  | cons c s =>
    simp only [parseValue] at h
    split_ifs at h with hquote hobj harr
    · obtain ⟨⟨t, r⟩, hr, ⟨⟩⟩ := Option.map_eq_some_iff.mp h
      exact hquote ▸ .str hr
    · subst hobj
      split at h
      · next heq =>
        cases h
        exact .emptyObj heq
      · obtain ⟨⟨fs, r⟩, hr, ⟨⟩⟩ := Option.map_eq_some_iff.mp h
        exact .obj hr
    · subst harr
      split at h
      · next heq =>
        cases h
        exact .emptyArr heq
      · obtain ⟨⟨vs, r⟩, hr, ⟨⟩⟩ := Option.map_eq_some_iff.mp h
        exact .arr hr
    · exact .word (.inr ⟨true, rfl⟩) (by simp) h
    · exact .word (.inr ⟨false, rfl⟩) (by simp) h
    · exact .word (.inl rfl) (by simp) h
    · exact .num h

theorem elementsCase_of_parse (h : parseElements (n + 1) s = some (vs, r)) :
    ElementsCase n s vs r := by
  simp only [parseElements] at h
  split at h
  · cases h
  · next v rest hv =>
    split at h
    · next more heq =>
      obtain ⟨⟨vs, r⟩, hr, ⟨⟩⟩ := Option.map_eq_some_iff.mp h
      exact .more hv heq hr
    · next heq =>
      cases h
      exact .last hv heq
    · cases h

theorem membersCase_of_parse (h : parseMembers (n + 1) s = some (fs, r)) :
    MembersCase n s fs r := by
  cases s with
  | nil => cases h
  | cons c s =>
    simp only [parseMembers] at h
    split_ifs at h with hquote
    subst hquote
    split at h
    · cases h
    · next k rest hk =>
      split at h
      · next after hcolon =>
        split at h
        · cases h
        · next v tail hv =>
          split at h
          · next more heq =>
            obtain ⟨⟨fs, r⟩, hr, ⟨⟩⟩ := Option.map_eq_some_iff.mp h
            exact .more hk hcolon hv heq hr
          · next heq =>
            cases h
            exact .last hk hcolon hv heq
          · cases h
      · cases h

/-- Blanks and one more symbol, and blanks again. -/
theorem length_of_skip (h : skip s = c :: r) :
    r.length + 1 ≤ s.length ∧ (skip r).length + 1 ≤ s.length := by
  have hs := length_skip s
  have hr := length_skip r
  rw [h, List.length_cons] at hs
  omega

theorem weight_word {v : Value} (h : v = .null ∨ ∃ b, v = .bool b) : v.weight = 4 := by
  obtain rfl | ⟨b, rfl⟩ := h
  · rw [Value.weight]
  · rw [Value.weight]

theorem length_parse (n : Nat) :
    (∀ s v r, parseValue n s = some (v, r) → v.weight + r.length ≤ s.length) ∧
    (∀ s vs r, parseElements n s = some (vs, r) → weightElements vs + r.length ≤ s.length) ∧
    (∀ s fs r, parseMembers n s = some (fs, r) → weightMembers fs + r.length ≤ s.length) := by
  induction n with
  | zero => exact ⟨nofun, nofun, nofun⟩
  | succ n ih =>
    obtain ⟨ihv, ihe, ihm⟩ := ih
    refine ⟨?_, ?_, ?_⟩
    · intro s v r hparse
      cases valueCase_of_parse hparse with
      | str h =>
        have := length_parseChars h
        simp only [Value.weight, strWeight, List.length_cons]
        omega
      | emptyObj h =>
        have := (length_of_skip h).1
        simp only [Value.weight, weightMembers, List.length_cons]
        omega
      | obj h =>
        have := (ihm _ _ _ h).trans (length_skip _)
        simp only [Value.weight, List.length_cons]
        omega
      | emptyArr h =>
        have := (length_of_skip h).1
        simp only [Value.weight, weightElements, List.length_cons]
        omega
      | arr h =>
        have := (ihe _ _ _ h).trans (length_skip _)
        simp only [Value.weight, List.length_cons]
        omega
      | word hv hlen h => exact length_literal ((weight_word hv).trans_le hlen) h
      | num h => exact length_parseNumber h
    · intro s vs r hparse
      cases elementsCase_of_parse hparse with
      | last hv h =>
        have := ihv _ _ _ hv
        have := (length_of_skip h).1
        simp only [weightElements]
        omega
      | more hv h hvs =>
        have := ihv _ _ _ hv
        have := (length_of_skip h).2
        have := ihe _ _ _ hvs
        simp only [weightElements]
        omega
    · intro s fs r hparse
      cases membersCase_of_parse hparse with
      | last hk hcolon hv h =>
        have := length_parseChars hk
        have := (length_of_skip hcolon).2
        have := ihv _ _ _ hv
        have := (length_of_skip h).1
        simp only [weightMembers, strWeight, List.length_cons]
        omega
      | more hk hcolon hv h hfs =>
        have := length_parseChars hk
        have := (length_of_skip hcolon).2
        have := ihv _ _ _ hv
        have := (length_of_skip h).2
        have := ihm _ _ _ hfs
        simp only [weightMembers, strWeight, List.length_cons]
        omega

/-- A text is no shorter than the weight of its value. -/
theorem weight_le (h : parse s = some v) : v.weight ≤ s.length := by
  simp only [parse] at h
  split at h
  · next w r hw =>
    split at h <;> cases h
    have := (length_parse _).1 _ _ _ hw
    have := length_skip s
    omega
  · cases h

theorem one_le_weight (v : Value) : 1 ≤ v.weight := by
  cases v <;> simp only [Value.weight, strWeight] <;> omega

/-- The fuel of `parse` is enough: one unit more changes nothing. -/
theorem parse_succ (n : Nat) :
    (∀ s, 2 * s.length + 1 ≤ n → parseValue (n + 1) s = parseValue n s) ∧
    (∀ s, 2 * s.length + 2 ≤ n → parseElements (n + 1) s = parseElements n s) ∧
    (∀ s, 2 * s.length + 2 ≤ n → parseMembers (n + 1) s = parseMembers n s) := by
  induction n with
  | zero => exact ⟨nofun, nofun, nofun⟩
  | succ n ih =>
    obtain ⟨ihv, ihe, ihm⟩ := ih
    refine ⟨?_, ?_, ?_⟩
    · intro s hs
      cases s with
      | nil => rfl
      | cons c s =>
        have := length_skip s
        rw [List.length_cons] at hs
        have he := ihe (skip s) (by omega)
        have hm := ihm (skip s) (by omega)
        simp only [parseValue]
        generalize skip s = t at he hm
        split_ifs
        · rfl
        · split
          · rfl
          · rw [hm]
        · split
          · rfl
          · rw [he]
        all_goals rfl
    · intro s hs
      rw [parseElements, parseElements, ihv s (by omega)]
      split
      · rfl
      · next v rest hv =>
        have := (length_parse _).1 _ _ _ hv
        have := one_le_weight v
        have hr := length_skip rest
        split
        · next more heq =>
          have := length_skip more
          rw [heq, List.length_cons] at hr
          rw [ihe (skip more) (by omega)]
        · rfl
        · rfl
    · intro s hs
      cases s with
      | nil => rfl
      | cons c s =>
        rw [List.length_cons] at hs
        rw [parseMembers, parseMembers]
        split
        · split
          · rfl
          · next k rest hk =>
            have := length_parseChars hk
            have hr := length_skip rest
            split
            · next after heq =>
              have := length_skip after
              rw [heq, List.length_cons] at hr
              rw [ihv (skip after) (by omega)]
              split
              · rfl
              · next v tail hv =>
                have := (length_parse _).1 _ _ _ hv
                have ht := length_skip tail
                split
                · next more heq =>
                  have := length_skip more
                  rw [heq, List.length_cons] at ht
                  rw [ihm (skip more) (by omega)]
                · rfl
                · rfl
            · rfl
        · rfl

theorem parse_of_fuel {s : List Nat}
    (h : parseValue (2 * s.length + 1 + n) (skip s) = some (v, r)) (hr : skip r = []) :
    parse s = some v := by
  have hfuel : parseValue (2 * s.length + 1) (skip s) = some (v, r) := by
    rw [← h]
    clear h
    induction n with
    | zero => rfl
    | succ n ih =>
      have := length_skip s
      rw [ih]
      exact ((parse_succ _).1 _ (by omega)).symm
  simp only [parse, hfuel, hr, if_true]

/-! Members are found by their keys, and each costs its own part of the text. -/

def memberWeight (m : List Nat × Value) : Nat := strWeight m.1 + 1 + m.2.weight + 1

theorem weightMembers_eq (fields : List (List Nat × Value)) :
    weightMembers fields = (fields.map memberWeight).sum := by
  induction fields with
  | nil => rfl
  | cons m fields ih =>
    obtain ⟨k, v⟩ := m
    rw [weightMembers, ih]
    rfl

theorem weight_members {m fields : List (List Nat × Value)} (hk : (m.map Prod.fst).Nodup)
    (hm : ∀ f ∈ m, f ∈ fields) : (m.map memberWeight).sum ≤ weightMembers fields := by
  rw [weightMembers_eq]
  obtain ⟨l, hperm, hsub⟩ := List.subperm_of_subset (List.Nodup.of_map _ hk) hm
  rw [← (hperm.map memberWeight).sum_eq]
  exact (hsub.map memberWeight).sum_le_sum (fun _ _ => Nat.zero_le _)

theorem le_sum_charWeight (s : List Nat) : s.length ≤ (s.map charWeight).sum := by
  induction s with
  | nil => exact Nat.le_refl 0
  | cons c s ih =>
    have : 1 ≤ charWeight c := by
      simp only [charWeight]
      split <;> omega
    rw [List.map_cons, List.sum_cons, List.length_cons]
    omega

theorem plain_of_sum_charWeight {s : List Nat} (h : (s.map charWeight).sum ≤ s.length) :
    ∀ c ∈ s, isPlain c = true := by
  induction s with
  | nil => nofun
  | cons c s ih =>
    have hs := le_sum_charWeight s
    rw [List.map_cons, List.sum_cons, List.length_cons] at h
    have hc : isPlain c = true := by
      by_contra hc
      rw [charWeight, if_neg hc] at h
      omega
    rw [charWeight, if_pos hc] at h
    intro d hd
    obtain rfl | hd := List.mem_cons.mp hd
    · exact hc
    · exact ih (by omega) d hd

/-! Texts without spaces and escapes parse back. -/

theorem skip_cons (hc : isSpace c = false) (s : List Nat) : skip (c :: s) = c :: s :=
  List.dropWhile_cons_of_neg (by simp [hc])

theorem parseChars_plain (hs : ∀ c ∈ s, isPlain c = true) (r : List Nat) :
    parseChars (s ++ quote :: r) = some (s, r) := by
  induction s with
  | nil =>
    rw [List.nil_append, parseChars.eq_def]
    exact if_pos rfl
  | cons c s ih =>
    have hc := hs c List.mem_cons_self
    have hrest := ih (fun d hd => hs d (List.mem_cons_of_mem _ hd))
    have hq : c ≠ quote := by
      rintro rfl
      cases hc
    have hb : c ≠ backslash := by
      rintro rfl
      cases hc
    rw [List.cons_append, parseChars.eq_def]
    simp only [if_neg hq, if_neg hb, if_pos hc, hrest, Option.map_some]

theorem parseValue_str (n : Nat) (hs : ∀ c ∈ s, isPlain c = true) (r : List Nat) :
    parseValue (n + 1) (quote :: (s ++ quote :: r)) = some (.str s, r) := by
  rw [parseValue, if_pos rfl, parseChars_plain hs]
  rfl

theorem parseValue_digit (n : Nat) (h1 : 1 ≤ d) (h9 : d ≤ 9) (r : List Nat) :
    parseValue (n + 1) ((0x30 + d) :: 0x2c :: r) =
      some (.num (.ofDecimal d), 0x2c :: r) := by
  have hspan : (0x2c :: r).span isDigit = ([], 0x2c :: r) := by
    rw [List.span_eq_takeWhile_dropWhile]
    rfl
  have hdigit : isDigit (0x30 + d) = true := by
    simp [isDigit]
    omega
  have hunsigned : parseUnsigned ((0x30 + d) :: 0x2c :: r) = some ((d : ℚ), 0x2c :: r) := by
    rw [parseUnsigned, if_neg (by omega), if_pos hdigit, hspan]
    simp [parseFraction, parseScale, digitsValue]
  have hq : 0x30 + d ≠ quote := by
    simp only [quote]
    omega
  rw [parseValue, if_neg hq, if_neg (by omega), if_neg (by omega), if_neg (by omega),
    if_neg (by omega), if_neg (by omega), parseNumber, hunsigned]
  · rfl
  · intro s hs
    have := (List.cons.inj hs).1
    omega

theorem parseMembers_comma (hk : ∀ c ∈ k, isPlain c = true) (ht : skip t = t)
    (hv : parseValue n t = some (v, 0x2c :: s)) (hs : skip s = s) :
    parseMembers (n + 1) (quote :: (k ++ quote :: 0x3a :: t)) =
      (parseMembers n s).map (fun r => ((k, v) :: r.1, r.2)) := by
  simp only [parseMembers, if_true, parseChars_plain hk, skip_cons (show isSpace 0x3a = false by rfl),
    skip_cons (show isSpace 0x2c = false by rfl), ht, hv, hs]

theorem parseMembers_close (hk : ∀ c ∈ k, isPlain c = true) (ht : skip t = t)
    (hv : parseValue n t = some (v, 0x7d :: s)) :
    parseMembers (n + 1) (quote :: (k ++ quote :: 0x3a :: t)) = some ([(k, v)], s) := by
  simp only [parseMembers, if_true, parseChars_plain hk, skip_cons (show isSpace 0x3a = false by rfl),
    skip_cons (show isSpace 0x7d = false by rfl), ht, hv]

theorem parseElements_comma (hv : parseValue n t = some (v, 0x2c :: s)) (hs : skip s = s) :
    parseElements (n + 1) t = (parseElements n s).map (fun r => (v :: r.1, r.2)) := by
  simp only [parseElements, hv, skip_cons (show isSpace 0x2c = false by rfl), hs]

theorem parseElements_close (hv : parseValue n t = some (v, 0x5d :: s)) :
    parseElements (n + 1) t = some ([v], s) := by
  simp only [parseElements, hv, skip_cons (show isSpace 0x5d = false by rfl)]

theorem parseValue_obj (h : parseMembers n (quote :: s) = some (fields, r)) :
    parseValue (n + 1) (0x7b :: quote :: s) = some (.obj fields, r) := by
  rw [parseValue, if_neg (by decide), if_pos rfl, skip_cons (by rfl)]
  change (parseMembers n (quote :: s)).map _ = _
  rw [h]
  rfl

theorem parseValue_arr (hc : isSpace c = false) (hb : c ≠ 0x5d)
    (h : parseElements n (c :: s) = some (vs, r)) :
    parseValue (n + 1) (0x5b :: c :: s) = some (.arr vs, r) := by
  rw [parseValue, if_neg (by decide), if_neg (by decide), if_pos rfl, skip_cons hc]
  split
  · next heq => exact absurd (List.cons.inj heq).1 hb
  · rw [h]
    rfl

end Json
