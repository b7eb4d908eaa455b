import StreamMix.Lib.CodePoints
import StreamMix.Lib.Json

/-! JSON texts with their numerals.  The reader follows the grammar of `Json.parse` and
keeps the text of every number; the writer joins texts and quotes strings. -/

namespace Json

open Js (Number)

inductive Syntax
  | null
  | bool (b : Bool)
  | num (text : List Nat) (n : Number)
  | str (s : List Nat)
  | arr (xs : List Syntax)
  | obj (fields : List (List Nat × Syntax))

mutual

def Syntax.value : Syntax → Value
  | .null => .null
  | .bool b => .bool b
  | .num _ n => .num n
  | .str s => .str s
  | .arr xs => .arr (valueElements xs)
  | .obj fields => .obj (valueMembers fields)

def valueElements : List Syntax → List Value
  | [] => []
  | v :: vs => v.value :: valueElements vs

def valueMembers : List (List Nat × Syntax) → List (List Nat × Value)
  | [] => []
  | (k, v) :: fields => (k, v.value) :: valueMembers fields

end

theorem valueElements_eq (vs : List Syntax) : valueElements vs = vs.map Syntax.value := by
  induction vs with
  | nil => rfl
  | cons v vs ih => rw [valueElements, ih, List.map_cons]

def readNumber (s : List Nat) : Option (Syntax × List Nat) :=
  match parseNumber s with
  | some (.num n, r) => some (.num (s.take (s.length - r.length)) n, r)
  | _ => none

def readWord (word : List Nat) (v : Syntax) (s : List Nat) : Option (Syntax × List Nat) :=
  if word.isPrefixOf s then some (v, s.drop word.length) else none

mutual

def readValue : Nat → List Nat → Option (Syntax × List Nat)
  | 0, _ => none
  | _ + 1, [] => none
  | n + 1, c :: s =>
    if c = quote then (parseChars s).map (fun r => (.str r.1, r.2))
    else if c = 0x7b then
      match skip s with
      | 0x7d :: s => some (.obj [], s)
      | s => (readMembers n s).map (fun r => (.obj r.1, r.2))
    else if c = 0x5b then
      match skip s with
      | 0x5d :: s => some (.arr [], s)
      | s => (readElements n s).map (fun r => (.arr r.1, r.2))
    else if c = 0x74 then readWord [0x74, 0x72, 0x75, 0x65] (.bool true) (c :: s)
    else if c = 0x66 then readWord [0x66, 0x61, 0x6c, 0x73, 0x65] (.bool false) (c :: s)
    else if c = 0x6e then readWord [0x6e, 0x75, 0x6c, 0x6c] .null (c :: s)
    else readNumber (c :: s)

def readElements : Nat → List Nat → Option (List Syntax × List Nat)
  | 0, _ => none
  | n + 1, s =>
    match readValue n s with
    | none => none
    | some (v, s) =>
      match skip s with
      | 0x2c :: s => (readElements n (skip s)).map (fun r => (v :: r.1, r.2))
      | 0x5d :: s => some ([v], s)
      | _ => none

def readMembers : Nat → List Nat → Option (List (List Nat × Syntax) × List Nat)
  | 0, _ => none
  | _ + 1, [] => none
  | n + 1, c :: s =>
    if c = quote then
      match parseChars s with
      | none => none
      | some (k, s) =>
        match skip s with
        | 0x3a :: s =>
          match readValue n (skip s) with
          | none => none
          | some (v, s) =>
            match skip s with
            | 0x2c :: s => (readMembers n (skip s)).map (fun r => ((k, v) :: r.1, r.2))
            | 0x7d :: s => some ([(k, v)], s)
            | _ => none
        | _ => none
    else none

end

/-- The first value of a text and what follows it. -/
def readFirst (s : List Nat) : Option (Syntax × List Nat) := readValue (2 * s.length + 1) (skip s)

theorem parseNumber_eq (s : List Nat) :
    parseNumber s = (readNumber s).map (fun r => (r.1.value, r.2)) := by
  have hnum : ∀ v r, parseNumber s = some (v, r) → ∃ n, v = .num n := by
    intro v r h
    simp only [parseNumber] at h
    split at h <;> obtain ⟨r, -, ⟨⟩⟩ := Option.map_eq_some_iff.mp h <;> exact ⟨_, rfl⟩
  rw [readNumber]
  cases h : parseNumber s with
  | none => rfl
  | some p =>
    obtain ⟨v, r⟩ := p
    obtain ⟨n, rfl⟩ := hnum v r h
    rfl

theorem literal_eq (word : List Nat) (v : Syntax) (s : List Nat) :
    literal word v.value s = (readWord word v s).map (fun r => (r.1.value, r.2)) := by
  simp only [literal, readWord]
  split <;> rfl

/-- Reading a text and forgetting its numerals is parsing it. -/
theorem parse_eq_read (n : Nat) :
    (∀ s, parseValue n s = (readValue n s).map (fun r => (r.1.value, r.2))) ∧
    (∀ s, parseElements n s = (readElements n s).map (fun r => (valueElements r.1, r.2))) ∧
    (∀ s, parseMembers n s = (readMembers n s).map (fun r => (valueMembers r.1, r.2))) := by
  induction n with
  | zero => exact ⟨fun _ => rfl, fun _ => rfl, fun _ => rfl⟩
  | succ n ih =>
    obtain ⟨ihv, ihe, ihm⟩ := ih
    refine ⟨?_, ?_, ?_⟩
    · intro s
      cases s with
      | nil => rfl
      | cons c s =>
        -- the reader is opened in each branch of the parser
        rw [parseValue]
        split_ifs with h1 h2 h3 h4 h5 h6
        · rw [readValue, if_pos h1, Option.map_map]
          rfl
        · split
          · next heq =>
            rw [readValue, if_neg h1, if_pos h2, heq]
            rfl
          · next hne =>
            rw [readValue, if_neg h1, if_pos h2]
            split
            · next heq => exact (hne _ heq).elim
            · rw [ihm, Option.map_map, Option.map_map]
              rfl
        · split
          · next heq =>
            rw [readValue, if_neg h1, if_neg h2, if_pos h3, heq]
            rfl
          · next hne =>
            rw [readValue, if_neg h1, if_neg h2, if_pos h3]
            split
            · next heq => exact (hne _ heq).elim
            · rw [ihe, Option.map_map, Option.map_map]
              rfl
        · rw [readValue, if_neg h1, if_neg h2, if_neg h3, if_pos h4]
          exact literal_eq _ (.bool true) _
        · rw [readValue, if_neg h1, if_neg h2, if_neg h3, if_neg h4, if_pos h5]
          exact literal_eq _ (.bool false) _
        · rw [readValue, if_neg h1, if_neg h2, if_neg h3, if_neg h4, if_neg h5, if_pos h6]
          exact literal_eq _ .null _
        · rw [readValue, if_neg h1, if_neg h2, if_neg h3, if_neg h4, if_neg h5, if_neg h6]
          exact parseNumber_eq _
    · intro s
      rw [parseElements, ihv s]
      cases hread : readValue n s with
      | none => simp only [readElements, hread, Option.map_none]
      | some p =>
        simp only [Option.map_some]
        split
        · next heq =>
          simp only [readElements, hread, heq, ihe, Option.map_map]
          rfl
        · next heq =>
          simp only [readElements, hread, heq]
          rfl
        · next h1 h2 =>
          simp only [readElements, hread]
          rfl
    · intro s
      cases s with
      | nil => rfl
      | cons c s =>
        rw [parseMembers]
        split_ifs with hc
        · cases hkey : parseChars s with
          | none => simp only [readMembers, if_pos hc, hkey, Option.map_none]
          | some p =>
            simp only
            split
            · next t heq =>
              rw [ihv]
              cases hread : readValue n (skip t) with
              | none => simp only [readMembers, if_pos hc, hkey, heq, hread, Option.map_none]
              | some q =>
                simp only [Option.map_some]
                split
                · next hmore =>
                  simp only [readMembers, if_pos hc, hkey, heq, hread, hmore, ihm, Option.map_map]
                  rfl
                · next hmore =>
                  simp only [readMembers, if_pos hc, hkey, heq, hread, hmore]
                  rfl
                · next h1 h2 =>
                  simp only [readMembers, if_pos hc, hkey, heq, hread]
                  rfl
            · next hne =>
              simp only [readMembers, if_pos hc, hkey]
              rfl
        · simp only [readMembers, if_neg hc, Option.map_none]

theorem parse_of_readFirst (h : readFirst s = some (v, r)) (hr : skip r = []) :
    parse s = some v.value := by
  have hparse := (parse_eq_read (2 * s.length + 1)).1 (skip s)
  rw [readFirst] at h
  simp only [parse, hparse, h, Option.map_some, hr, if_true]

end Json
