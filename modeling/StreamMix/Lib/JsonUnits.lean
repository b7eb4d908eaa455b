import StreamMix.Lib.JsonNumber

/-! The strings of a value that is parsed from code units are code units. -/

namespace Json

open Unicode (Units)

mutual

def Value.Bounded : Value → Prop
  | .str s => Units s
  | .arr xs => BoundedElements xs
  | .obj fields => BoundedMembers fields
  | _ => True

def BoundedElements : List Value → Prop
  | [] => True
  | v :: vs => v.Bounded ∧ BoundedElements vs

def BoundedMembers : List (List Nat × Value) → Prop
  | [] => True
  | (_, v) :: fields => v.Bounded ∧ BoundedMembers fields

end

theorem boundedElements_iff (vs : List Value) : BoundedElements vs ↔ ∀ v ∈ vs, v.Bounded := by
  induction vs with
  | nil => simp [BoundedElements]
  | cons v vs ih => simp [BoundedElements, ih]

theorem boundedMembers_iff (fields : List (List Nat × Value)) :
    BoundedMembers fields ↔ ∀ f ∈ fields, f.2.Bounded := by
  induction fields with
  | nil => simp [BoundedMembers]
  | cons f fields ih =>
    obtain ⟨k, v⟩ := f
    simp [BoundedMembers, ih]

theorem units_cons : Units (c :: s) ↔ c < 0x10000 ∧ Units s := List.forall_mem_cons

theorem units_skip (h : Units s) : Units (skip s) :=
  fun c hc => h c ((List.dropWhile_sublist _).mem hc)

theorem units_of_skip (h : Units s) (heq : skip s = c :: r) : Units r := by
  have hs := units_skip h
  rw [heq] at hs
  exact (units_cons.mp hs).2

theorem hexDigit_lt (h : hexDigit c = some d) : d < 16 := by
  simp only [hexDigit, isDigit] at h
  grind

theorem hexUnit_lt (h : hexUnit a b c d = some u) : u < 0x10000 := by
  simp only [hexUnit, Option.bind_eq_bind, Option.bind_eq_some_iff] at h
  obtain ⟨a, ha, b, hb, c, hc, d, hd, ⟨⟩⟩ := h
  have := hexDigit_lt ha
  have := hexDigit_lt hb
  have := hexDigit_lt hc
  have := hexDigit_lt hd
  omega

theorem escape_lt (h : escape c = some u) : u < 0x10000 := by
  simp only [escape, quote, backslash] at h
  grind

theorem units_parseChars (hs : Units s) (h : parseChars s = some (t, r)) : Units t ∧ Units r := by
  fun_induction parseChars s generalizing t r with
  | case2 s =>
    cases h
    exact ⟨by simp [Unicode.Units], (units_cons.mp hs).2⟩
  | case4 a b c d s u hu _ ih =>
    obtain ⟨⟨t, r⟩, hr, ⟨⟩⟩ := Option.map_eq_some_iff.mp h
    have hrest := ih (fun e he => hs e (by simp [he])) hr
    exact ⟨units_cons.mpr ⟨hexUnit_lt hu, hrest.1⟩, hrest.2⟩
  | case7 e s _ u hu _ ih =>
    obtain ⟨⟨t, r⟩, hr, ⟨⟩⟩ := Option.map_eq_some_iff.mp h
    have hrest := ih (fun e he => hs e (by simp [he])) hr
    exact ⟨units_cons.mpr ⟨escape_lt hu, hrest.1⟩, hrest.2⟩
  | case9 c s _ _ hc ih =>
    obtain ⟨⟨t, r⟩, hr, ⟨⟩⟩ := Option.map_eq_some_iff.mp h
    obtain ⟨hc, hs⟩ := units_cons.mp hs
    have hrest := ih hs hr
    exact ⟨units_cons.mpr ⟨hc, hrest.1⟩, hrest.2⟩
  | _ => cases h

theorem bounded_literal (hs : Units s) (hv : v.Bounded) (h : literal word v s = some (w, r)) :
    w.Bounded ∧ Units r := by
  rw [literal] at h
  split at h
  · cases h
    exact ⟨hv, fun c hc => hs c (List.mem_of_mem_drop hc)⟩
  · cases h

theorem bounded_parseNumber (hs : Units s) (h : parseNumber s = some (v, r)) :
    v.Bounded ∧ Units r := by
  obtain ⟨t, rfl, -⟩ := takes_parseNumber h
  refine ⟨?_, fun c hc => hs c (List.mem_append_right _ hc)⟩
  rw [parseNumber_eq] at h
  obtain ⟨⟨w, r'⟩, hread, ⟨⟩⟩ := Option.map_eq_some_iff.mp h
  obtain ⟨t', n, rfl, -⟩ := readNumber_eq_some hread
  trivial

theorem bounded_word {v : Value} (h : v = .null ∨ ∃ b, v = .bool b) : v.Bounded := by
  obtain rfl | ⟨b, rfl⟩ := h
  · trivial
  · trivial

theorem bounded_parse (n : Nat) :
    (∀ s v r, Units s → parseValue n s = some (v, r) → v.Bounded ∧ Units r) ∧
    (∀ s vs r, Units s → parseElements n s = some (vs, r) → BoundedElements vs ∧ Units r) ∧
    (∀ s fs r, Units s → parseMembers n s = some (fs, r) → BoundedMembers fs ∧ Units r) := by
  induction n with
  | zero => exact ⟨nofun, nofun, nofun⟩
  | succ n ih =>
    obtain ⟨ihv, ihe, ihm⟩ := ih
    refine ⟨?_, ?_, ?_⟩
    · intro s v r hs hparse
      cases valueCase_of_parse hparse with
      | str h => exact units_parseChars (units_cons.mp hs).2 h
      | emptyObj h => exact ⟨trivial, units_of_skip (units_cons.mp hs).2 h⟩
      | obj h => exact ihm _ _ _ (units_skip (units_cons.mp hs).2) h
      | emptyArr h => exact ⟨trivial, units_of_skip (units_cons.mp hs).2 h⟩
      | arr h => exact ihe _ _ _ (units_skip (units_cons.mp hs).2) h
      | word hv hlen h => exact bounded_literal hs (bounded_word hv) h
      | num h => exact bounded_parseNumber hs h
    · intro s vs r hs hparse
      cases elementsCase_of_parse hparse with
      | last hv h =>
        obtain ⟨hvb, hrest⟩ := ihv _ _ _ hs hv
        exact ⟨⟨hvb, trivial⟩, units_of_skip hrest h⟩
      | more hv h hvs =>
        obtain ⟨hvb, hrest⟩ := ihv _ _ _ hs hv
        obtain ⟨hvs, hr⟩ := ihe _ _ _ (units_skip (units_of_skip hrest h)) hvs
        exact ⟨⟨hvb, hvs⟩, hr⟩
    · intro s fs r hs hparse
      cases membersCase_of_parse hparse with
      | last hk hcolon hv h =>
        have hrest := (units_parseChars (units_cons.mp hs).2 hk).2
        obtain ⟨hvb, htail⟩ := ihv _ _ _ (units_skip (units_of_skip hrest hcolon)) hv
        exact ⟨⟨hvb, trivial⟩, units_of_skip htail h⟩
      | more hk hcolon hv h hfs =>
        have hrest := (units_parseChars (units_cons.mp hs).2 hk).2
        obtain ⟨hvb, htail⟩ := ihv _ _ _ (units_skip (units_of_skip hrest hcolon)) hv
        obtain ⟨hfs, hr⟩ := ihm _ _ _ (units_skip (units_of_skip htail h)) hfs
        exact ⟨⟨hvb, hfs⟩, hr⟩

theorem bounded_of_parse (hs : Units s) (h : parse s = some v) : v.Bounded := by
  rw [parse] at h
  split at h
  · next w r hw =>
    split at h <;> cases h
    exact ((bounded_parse _).1 _ _ _ (units_skip hs) hw).1
  · cases h

end Json
