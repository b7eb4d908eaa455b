import StreamMix.Lib.Base64
import StreamMix.Lib.JsonUnits

/-! Go's `encoding/json`: structs from JSON values and back, unknown fields disallowed.
A decoder turns a value into a change of what it decodes into. -/

namespace GoJson

open Json (Syntax quote backslash isDigit digitsValue)
open Unicode (Pending lead)

abbrev Decoder (α : Type u) := Syntax → α → Option α

/-- A Go string from the code units between two quotes. -/
def goString (s : List Nat) : List UInt8 := Unicode.encode (Unicode.points s)

def string (set : List UInt8 → α → α) : Decoder α
  | .str s, a => some (set (goString s) a)
  | .null, a => some a
  | _, _ => none

/-- `strconv.ParseInt` in base ten, on the text of a number. -/
def parseInt : List Nat → Option ℤ
  | 0x2d :: ds => if ds ≠ [] ∧ ds.all isDigit then some (-(digitsValue ds)) else none
  | ds => if ds ≠ [] ∧ ds.all isDigit then some (digitsValue ds) else none

/-- An integer type with the values from `low` to `high`. -/
def int (low high : ℤ) (set : ℤ → α → α) : Decoder α
  | .num t _, a => do
    let i ← parseInt t
    if low ≤ i ∧ i ≤ high then some (set i a) else none
  | .null, a => some a
  | _, _ => none

def int64 (set : ℤ → α → α) : Decoder α := int (-2 ^ 63) (2 ^ 63 - 1) set

/-- `strconv.ParseUint` takes no sign. -/
def uint8 (set : Nat → α → α) : Decoder α
  | .num t _, a =>
    if t ≠ [] ∧ t.all isDigit ∧ digitsValue t < 256 then some (set (digitsValue t) a) else none
  | .null, a => some a
  | _, _ => none

/-- Every element is decoded into a zero value; `none` is the nil slice. -/
def slice (zero : β) (element : Decoder β) (set : Option (List β) → α → α) : Decoder α
  | .arr xs, a => do
    let ys ← xs.mapM (fun x => element x zero)
    return set (some ys) a
  | .null, a => some (set none a)
  | _, _ => none

/-- A `[]uint8` is read from a string in Base64, and from an array too. -/
def bytes (set : Option (List UInt8) → α → α) : Decoder α
  | .str s, a => (Base64.decodeStd (goString s)).map (fun bs => set (some bs) a)
  | v, a => slice 0 (uint8 (fun n _ => UInt8.ofNat n)) set v a

/-- The least code point of a fold class that has an ASCII letter in it. -/
def foldRune (p : Nat) : Nat :=
  if 0x61 ≤ p ∧ p ≤ 0x7a then p - 0x20
  else if p = 0x17f then 0x53
  else if p = 0x212a then 0x4b
  else p

def foldName (ps : List Nat) : List Nat := ps.map foldRune

/-- The field with the name of the key, else one whose name the key folds to. -/
def field (fields : List (List Nat × Decoder α)) (key : List Nat) : Option (Decoder α) :=
  let name := Unicode.points key
  ((fields.find? (fun f => f.1 == name)).or
    (fields.find? (fun f => foldName f.1 == foldName name))).map Prod.snd

def struct (fields : List (List Nat × Decoder α)) : Decoder α
  | .obj members, a => members.foldlM (fun a m => do (← field fields m.1) m.2 a) a
  | .null, a => some a
  | _, _ => none

/-! `json.Marshal`. -/

/-- The runes that a loop over a string yields, `none` for a byte that is in none.  The
number counts the bytes of the sequence that is being read. -/
def runesFrom : Option (Pending × Nat) → List UInt8 → List (Option Nat)
  | none, [] => []
  | some (_, n), [] => List.replicate n none
  | none, b :: bs =>
    if b < 0x80 then some b.toNat :: runesFrom none bs
    else
      match lead b with
      | some p => runesFrom (some (p, 1)) bs
      | none => none :: runesFrom none bs
  | some (p, n), b :: bs =>
    if p.lower ≤ b ∧ b ≤ p.upper then
      let point := p.point * 0x40 + b.toNat % 0x40
      match p.needed with
      | 0 => some point :: runesFrom none bs
      | k + 1 => runesFrom (some (⟨k, 0x80, 0xbf, point, Unicode.le_continuation⟩, n + 1)) bs
    else
      List.replicate n none ++
        if b < 0x80 then some b.toNat :: runesFrom none bs
        else
          match lead b with
          | some p => runesFrom (some (p, 1)) bs
          | none => none :: runesFrom none bs

def runes (bs : List UInt8) : List (Option Nat) := runesFrom none bs

def escape : Option Nat → List Nat
  | none => Json.unicodeEscape 0xfffd
  | some p =>
    if p = quote ∨ p = backslash then [backslash, p]
    else if p = 0x08 then [backslash, 0x62]
    else if p = 0x0c then [backslash, 0x66]
    else if p = 0x0a then [backslash, 0x6e]
    else if p = 0x0d then [backslash, 0x72]
    else if p = 0x09 then [backslash, 0x74]
    else if p < 0x20 ∨ p = 0x3c ∨ p = 0x3e ∨ p = 0x26 ∨ p = 0x2028 ∨ p = 0x2029 then
      Json.unicodeEscape p
    else [p]

def stringText (bs : List UInt8) : List Nat := quote :: (runes bs).flatMap escape ++ [quote]

def intText (i : ℤ) : List Nat :=
  if i < 0 then 0x2d :: Json.decimal i.natAbs else Json.decimal i.natAbs

def sliceText (element : β → List Nat) : Option (List β) → List Nat
  | some ys => Json.array (ys.map element)
  | none => [0x6e, 0x75, 0x6c, 0x6c]

/-- A `[]uint8` is written in Base64. -/
def bytesText : Option (List UInt8) → List Nat
  | some bs => quote :: (Base64.encodeStd bs).map UInt8.toNat ++ [quote]
  | none => [0x6e, 0x75, 0x6c, 0x6c]

/-- A valid string has the runes that a fatal decoder finds. -/
theorem runesFrom_of_decodeFrom {p : Option Pending} (h : Unicode.decodeFrom p bs = some ps)
    (n : Nat) : runesFrom (p.map (fun p => (p, n))) bs = ps.map some := by
  induction bs generalizing p ps n with
  | nil =>
    cases p with
    | none =>
      cases h
      rfl
    | some p => cases h
  | cons b bs ih =>
    cases p with
    | none =>
      simp only [Unicode.decodeFrom] at h
      simp only [Option.map_none, runesFrom]
      split_ifs at h ⊢ with hb
      · obtain ⟨qs, hq, rfl⟩ := Option.map_eq_some_iff.mp h
        exact congrArg (some b.toNat :: ·) (ih hq 0)
      · cases hl : lead b with
        | none =>
          rw [hl] at h
          cases h
        | some q =>
          rw [hl] at h
          exact ih h 1
    | some p =>
      simp only [Unicode.decodeFrom] at h
      simp only [Option.map_some, runesFrom]
      split_ifs at h ⊢ with hb
      cases hn : p.needed with
      | zero =>
        rw [hn] at h
        obtain ⟨qs, hq, rfl⟩ := Option.map_eq_some_iff.mp h
        exact congrArg (_ :: ·) (ih hq 0)
      | succ k =>
        rw [hn] at h
        exact ih h (n + 1)

theorem runes_encode {ps : List Nat} (h : ∀ p ∈ ps, Unicode.Scalar p) :
    runes (Unicode.encode ps) = ps.map some :=
  runesFrom_of_decodeFrom (Unicode.decode_encode h) 0

/-- What is read so far cannot end in an ASCII code point. -/
def Wide (q : Pending) : Prop :=
  q.upper ≤ 0xbf ∧ (2 ≤ q.point ∨ 0 < q.needed ∧ (1 ≤ q.point ∨ 0x90 ≤ q.lower))

theorem wide_lead (h : lead b = some q) : Wide q := by
  simp only [lead] at h
  split_ifs at h with h1 _ _ h4 _ _ h7 <;> cases h <;>
    simp only [Wide, UInt8.le_iff_toNat_le, UInt8.reduceToNat] at * <;> omega

theorem wide_next (h : Wide q) (hb : q.lower ≤ b ∧ b ≤ q.upper) :
    (q.needed = 0 → 0x80 ≤ q.point * 0x40 + b.toNat % 0x40) ∧
      Wide ⟨n, 0x80, 0xbf, q.point * 0x40 + b.toNat % 0x40, Unicode.le_continuation⟩ := by
  simp only [Wide, UInt8.le_iff_toNat_le, UInt8.reduceToNat] at h hb ⊢
  omega

/-- A byte that is not ASCII is in no rune that is. -/
theorem exists_wide_rune {p : Option (Pending × Nat)} (hp : ∀ q ∈ p, Wide q.1 ∧ 0 < q.2)
    (h : p = none → ∃ b ∈ bs, ¬ b < 0x80) : ∃ r ∈ runesFrom p bs, ∀ x ∈ r, 0x80 ≤ x := by
  induction bs generalizing p with
  | nil =>
    cases p with
    | none => simp at h
    | some q => exact ⟨none, by simp [runesFrom, (hp q rfl).2.ne'], by simp⟩
  | cons b bs ih =>
    cases p with
    | none =>
      rw [runesFrom]
      split_ifs with hb
      · obtain ⟨c, hc, hwide⟩ := h rfl
        obtain rfl | hc := List.mem_cons.mp hc
        · exact absurd hb hwide
        · obtain ⟨r, hr, hr'⟩ := ih (p := none) (by simp) (fun _ => ⟨c, hc, hwide⟩)
          exact ⟨r, .tail _ hr, hr'⟩
      · cases hl : lead b with
        | none => exact ⟨none, .head _, by simp⟩
        | some q => exact ih (p := some (q, 1)) (by simp [wide_lead hl]) (by simp)
    | some p =>
      obtain ⟨q, n⟩ := p
      obtain ⟨hq, hn⟩ := hp _ rfl
      rw [runesFrom]
      split_ifs with hb
      · cases hk : q.needed with
        | zero => exact ⟨_, .head _, by simpa using (wide_next (n := 0) hq hb).1 hk⟩
        | succ k => exact ih (p := some (_, n + 1)) (by simp [(wide_next hq hb).2]) (by simp)
      · exact ⟨none, List.mem_append_left _ (by simp [hn.ne']), by simp⟩
      · exact ⟨none, List.mem_append_left _ (by simp [hn.ne']), by simp⟩

theorem exists_rune (h : ∃ b ∈ bs, ¬ b < 0x80) : ∃ r ∈ runes bs, ∀ x ∈ r, 0x80 ≤ x :=
  exists_wide_rune (by simp) (fun _ => h)

theorem runes_ascii (h : Unicode.Ascii bs) : runes bs = (bs.map UInt8.toNat).map some :=
  runesFrom_of_decodeFrom (p := none) (Unicode.decode_ascii h) 0

theorem goString_of_lt {s : List Nat} (h : ∀ c ∈ s, c < 0x80) : goString s = s.map UInt8.ofNat := by
  rw [goString, Unicode.points_eq (Unicode.wellFormed_of_lt h), Unicode.codePoints_of_lt h,
    Unicode.encode_of_lt h]

/-! What a decoder can store. -/

/-- A valid string. -/
def Utf8 (bs : List UInt8) : Prop := ∃ ps, (∀ p ∈ ps, Unicode.Scalar p) ∧ bs = Unicode.encode ps

theorem utf8_goString {s : List Nat} (h : Unicode.Units s) : Utf8 (goString s) :=
  ⟨_, Unicode.scalar_points h, rfl⟩

theorem utf8_nil : Utf8 [] := ⟨[], nofun, rfl⟩

/-- Decoding a value of code units into what has the property leaves the property. -/
def Keeps (decode : Decoder α) (P : α → Prop) : Prop :=
  ∀ v a a', v.value.Bounded → P a → decode v a = some a' → P a'

theorem keeps_string {set : List UInt8 → α → α} (h : ∀ bs a, Utf8 bs → P a → P (set bs a)) :
    Keeps (string set) P := by
  intro v a a' hv ha hdec
  cases v with
  | str s =>
    cases hdec
    exact h _ a (utf8_goString hv) ha
  | null =>
    cases hdec
    exact ha
  | _ => cases hdec

theorem keeps_int {set : ℤ → α → α} (h : ∀ i a, P a → P (set i a)) :
    Keeps (int low high set) P := by
  intro v a a' _ ha hdec
  cases v with
  | num t n =>
    obtain ⟨i, -, hset⟩ := Option.bind_eq_some_iff.mp hdec
    split_ifs at hset
    cases hset
    exact h i a ha
  | null =>
    cases hdec
    exact ha
  | _ => cases hdec

theorem keeps_uint8 {set : Nat → α → α} (h : ∀ n a, P a → P (set n a)) :
    Keeps (uint8 set) P := by
  intro v a a' _ ha hdec
  cases v with
  | num t n =>
    simp only [uint8] at hdec
    split_ifs at hdec
    cases hdec
    exact h _ a ha
  | null =>
    cases hdec
    exact ha
  | _ => cases hdec

theorem mem_elements {xs : List Syntax} (h : x ∈ xs) : x.value ∈ Json.valueElements xs := by
  induction xs with
  | nil => cases h
  | cons y xs ih =>
    cases h with
    | head => exact .head _
    | tail _ h => exact .tail _ (ih h)

theorem mem_members {ms : List (List Nat × Syntax)} (h : m ∈ ms) :
    (m.1, m.2.value) ∈ Json.valueMembers ms := by
  induction ms with
  | nil => cases h
  | cons n ms ih =>
    cases h with
    | head => exact .head _
    | tail _ h => exact .tail _ (ih h)

theorem mapM_eq_some {f : α → Option β} {xs : List α} {ys : List β} :
    xs.mapM f = some ys ↔ List.Forall₂ (fun x y => f x = some y) xs ys := by
  induction xs generalizing ys with
  | nil =>
    rw [List.mapM_nil, List.forall₂_nil_left_iff]
    exact ⟨fun h => (Option.some.inj h).symm, fun h => congrArg some h.symm⟩
  | cons x xs ih =>
    rw [List.mapM_cons, List.forall₂_cons_left_iff]
    constructor
    · intro h
      obtain ⟨y, hy, h⟩ := Option.bind_eq_some_iff.mp h
      obtain ⟨ys, hys, ⟨⟩⟩ := Option.bind_eq_some_iff.mp h
      exact ⟨y, ys, hy, ih.mp hys, rfl⟩
    · rintro ⟨y, ys, hy, hys, rfl⟩
      simp only [hy, ih.mpr hys]
      rfl

theorem exists_of_mapM {f : α → Option β} {xs : List α} {ys : List β} (h : xs.mapM f = some ys)
    (hy : y ∈ ys) : ∃ x ∈ xs, f x = some y := by
  have hall := mapM_eq_some.mp h
  clear h
  induction hall with
  | nil => cases hy
  | @cons x z xs zs hxz hrest ih =>
    cases hy with
    | head => exact ⟨x, .head _, hxz⟩
    | tail _ hy =>
      obtain ⟨w, hw, hwy⟩ := ih hy
      exact ⟨w, .tail _ hw, hwy⟩

theorem keeps_slice {element : Decoder β} {set : Option (List β) → α → α}
    (helement : Keeps element Q) (hzero : Q zero)
    (h : ∀ ys a, (∀ y ∈ ys.getD [], Q y) → P a → P (set ys a)) :
    Keeps (slice zero element set) P := by
  intro v a a' hv ha hdec
  cases v with
  | arr xs =>
    obtain ⟨ys, hys, ⟨⟩⟩ := Option.bind_eq_some_iff.mp hdec
    have hbounded : ∀ x ∈ xs, x.value.Bounded := fun x hx =>
      (Json.boundedElements_iff _).mp hv _ (mem_elements hx)
    apply h _ a _ ha
    intro y hy
    obtain ⟨x, hx, hxy⟩ := exists_of_mapM hys hy
    exact helement x zero y (hbounded x hx) hzero hxy
  | null =>
    cases hdec
    exact h none a nofun ha
  | _ => cases hdec

theorem keeps_struct {fields : List (List Nat × Decoder α)}
    (h : ∀ f ∈ fields, Keeps f.2 P) : Keeps (struct fields) P := by
  intro v a a' hv ha hdec
  cases v with
  | obj ms =>
    have hbounded : ∀ m ∈ ms, m.2.value.Bounded := fun m hm =>
      (Json.boundedMembers_iff _).mp hv _ (mem_members hm)
    clear hv
    simp only [struct] at hdec
    induction ms generalizing a with
    | nil =>
      cases hdec
      exact ha
    | cons m ms ih =>
      rw [List.foldlM_cons] at hdec
      obtain ⟨b, hb, hrest⟩ := Option.bind_eq_some_iff.mp hdec
      obtain ⟨d, hd, hb⟩ := Option.bind_eq_some_iff.mp hb
      obtain ⟨f, hf, rfl⟩ := Option.map_eq_some_iff.mp hd
      have hmem : f ∈ fields := by
        obtain hf | ⟨-, hf⟩ := Option.or_eq_some_iff.mp hf <;> exact List.mem_of_find?_eq_some hf
      exact ih b (h f hmem _ _ _ (hbounded m (.head _)) ha hb) hrest
        (fun m hm => hbounded m (.tail _ hm))
  | null =>
    cases hdec
    exact ha
  | _ => cases hdec

end GoJson
