import Mathlib.Data.List.Basic

/-! UTF-8 to code points to UTF-16, one byte at a time, as a fatal decoder reads it. -/

namespace Unicode

/-- The middle of a sequence: how many bytes are to come, the range of the next one, and
the bits read so far. -/
structure Pending where
  needed : Nat
  lower : UInt8
  upper : UInt8
  point : Nat
  low : 0x80 ≤ lower

/-- The state after the first byte of a sequence of several bytes. -/
def lead (b : UInt8) : Option Pending :=
  if 0xc2 ≤ b ∧ b ≤ 0xdf then some ⟨0, 0x80, 0xbf, b.toNat % 0x20, by decide⟩
  else if b = 0xe0 then some ⟨1, 0xa0, 0xbf, 0, by decide⟩
  else if b = 0xed then some ⟨1, 0x80, 0x9f, 0x0d, by decide⟩
  else if 0xe1 ≤ b ∧ b ≤ 0xef then some ⟨1, 0x80, 0xbf, b.toNat % 0x10, by decide⟩
  else if b = 0xf0 then some ⟨2, 0x90, 0xbf, 0, by decide⟩
  else if b = 0xf4 then some ⟨2, 0x80, 0x8f, 4, by decide⟩
  else if 0xf1 ≤ b ∧ b ≤ 0xf3 then some ⟨2, 0x80, 0xbf, b.toNat % 8, by decide⟩
  else none

/-- The least continuation byte is in range. -/
theorem le_continuation : (0x80 : UInt8) ≤ 0x80 := UInt8.le_refl _

/-- `needed` counts the bytes after the next one. -/
def decodeFrom : Option Pending → List UInt8 → Option (List Nat)
  | none, [] => some []
  | some _, [] => none
  | none, b :: bs =>
    if b < 0x80 then (decodeFrom none bs).map (b.toNat :: ·)
    else
      match lead b with
      | some p => decodeFrom (some p) bs
      | none => none
  | some p, b :: bs =>
    if p.lower ≤ b ∧ b ≤ p.upper then
      let point := p.point * 0x40 + b.toNat % 0x40
      match p.needed with
      | 0 => (decodeFrom none bs).map (point :: ·)
      | n + 1 => decodeFrom (some ⟨n, 0x80, 0xbf, point, le_continuation⟩) bs
    else none

def decode (bs : List UInt8) : Option (List Nat) := decodeFrom none bs

/-- `TextDecoder` drops a byte order mark at the start of its input. -/
def stripMark : List Nat → List Nat
  | 0xfeff :: ps => ps
  | ps => ps

/-- The UTF-16 code units of a code point. -/
def units (p : Nat) : List Nat :=
  if p < 0x10000 then [p]
  else [0xd800 + (p - 0x10000) / 0x400, 0xdc00 + (p - 0x10000) % 0x400]

def utf16 (ps : List Nat) : List Nat := ps.flatMap units

def Ascii (bs : List UInt8) : Prop := ∀ b ∈ bs, b < 0x80

variable {bs cs : List UInt8} {ps : List Nat} {p : Option Pending}

theorem decodeFrom_append (h : decodeFrom p bs = some ps) (cs : List UInt8) :
    decodeFrom p (bs ++ cs) = (decode cs).map (ps ++ ·) := by
  induction bs generalizing p ps with
  | nil =>
    cases p with
    | none =>
      cases h
      simp [decode]
    | some p => cases h
  | cons b bs ih =>
    cases p with
    | none =>
      simp only [decodeFrom, List.cons_append] at h ⊢
      split
      · next hb =>
        rw [if_pos hb] at h
        obtain ⟨qs, hq, rfl⟩ := Option.map_eq_some_iff.mp h
        rw [ih hq, Option.map_map]
        rfl
      · next hb =>
        rw [if_neg hb] at h
        split at h
        · next q hl => exact ih h
        · cases h
    | some p =>
      simp only [decodeFrom, List.cons_append] at h ⊢
      split
      · next hb =>
        rw [if_pos hb] at h
        split at h
        · next hn =>
          obtain ⟨qs, hq, rfl⟩ := Option.map_eq_some_iff.mp h
          rw [ih hq, Option.map_map]
          rfl
        · next n hn => exact ih h
      · next hb =>
        rw [if_neg hb] at h
        cases h

theorem decode_ascii (h : Ascii bs) : decode bs = some (bs.map UInt8.toNat) := by
  induction bs with
  | nil => rfl
  | cons b bs ih =>
    have hrest := ih (fun c hc => h c (List.mem_cons_of_mem _ hc))
    rw [decode, decodeFrom, if_pos (h b List.mem_cons_self)]
    rw [decode] at hrest
    rw [hrest]
    rfl

theorem lead_needed {q : Pending} (h : lead b = some q) : q.needed ≤ 2 := by
  simp only [lead] at h
  split_ifs at h <;> cases h <;> simp

/-- No code point takes more than four bytes. -/
theorem length_decodeFrom (h : decodeFrom p bs = some ps) :
    match p with
    | none => bs.length ≤ 4 * ps.length
    | some q => q.needed ≤ 2 → bs.length + (3 - q.needed) ≤ 4 * ps.length := by
  induction bs generalizing p ps with
  | nil =>
    cases p with
    | none => exact Nat.zero_le _
    | some q => cases h
  | cons b bs ih =>
    cases p with
    | none =>
      simp only [decodeFrom] at h
      split at h
      · obtain ⟨qs, hq, rfl⟩ := Option.map_eq_some_iff.mp h
        have := ih hq
        simp only [List.length_cons] at this ⊢
        omega
      · split at h
        · next q hl =>
          have hn := lead_needed hl
          have := ih h hn
          simp only [List.length_cons]
          omega
        · cases h
    | some q =>
      intro hn
      simp only [decodeFrom] at h
      split at h
      · split at h
        · next hz =>
          obtain ⟨qs, hq, rfl⟩ := Option.map_eq_some_iff.mp h
          have := ih hq
          simp only [List.length_cons] at this ⊢
          omega
        · next n hz =>
          have := ih h
          simp only [List.length_cons] at this ⊢
          omega
      · cases h

theorem length_decode (h : decode bs = some ps) : bs.length ≤ 4 * ps.length :=
  length_decodeFrom h

theorem length_utf16 (ps : List Nat) : ps.length ≤ (utf16 ps).length := by
  induction ps with
  | nil => exact Nat.le_refl 0
  | cons p ps ih =>
    rw [utf16, List.flatMap_cons, List.length_append, List.length_cons]
    have : 1 ≤ (units p).length := by
      simp only [units]
      split <;> simp
    rw [utf16] at ih
    omega

theorem utf16_append (ps qs : List Nat) : utf16 (ps ++ qs) = utf16 ps ++ utf16 qs :=
  List.flatMap_append

theorem utf16_ascii (h : Ascii bs) : utf16 (bs.map UInt8.toNat) = bs.map UInt8.toNat := by
  induction bs with
  | nil => rfl
  | cons b bs ih =>
    have hrest := ih (fun c hc => h c (List.mem_cons_of_mem _ hc))
    have hb : b.toNat < 0x10000 := Nat.lt_trans b.toNat_lt (by decide)
    rw [utf16] at hrest
    rw [List.map_cons, utf16, List.flatMap_cons, hrest, units, if_pos hb]
    rfl

end Unicode
