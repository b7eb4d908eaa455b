import StreamMix.Lib.Unicode
import Mathlib.Tactic.IntervalCases
import Mathlib.Tactic.SplitIfs

/-! Code points to UTF-8, and UTF-16 back to code points. -/

namespace Unicode

def isSurrogate (p : Nat) : Bool := 0xd800 ≤ p && p < 0xe000

/-- What UTF-8 can encode. -/
def Scalar (p : Nat) : Prop := p < 0x110000 ∧ isSurrogate p = false

def encodePoint (p : Nat) : List UInt8 :=
  if p < 0x80 then [UInt8.ofNat p]
  else if p < 0x800 then [UInt8.ofNat (0xc0 + p / 0x40), UInt8.ofNat (0x80 + p % 0x40)]
  else if p < 0x10000 then
    [UInt8.ofNat (0xe0 + p / 0x1000), UInt8.ofNat (0x80 + p / 0x40 % 0x40),
      UInt8.ofNat (0x80 + p % 0x40)]
  else
    [UInt8.ofNat (0xf0 + p / 0x40000), UInt8.ofNat (0x80 + p / 0x1000 % 0x40),
      UInt8.ofNat (0x80 + p / 0x40 % 0x40), UInt8.ofNat (0x80 + p % 0x40)]

def encode (ps : List Nat) : List UInt8 := ps.flatMap encodePoint

def utf8 (s : String) : List UInt8 := encode (s.toList.map Char.toNat)

theorem encode_of_ascii {ps : List Nat} (h : ∀ p ∈ ps, p < 0x80) :
    encode ps = ps.map UInt8.ofNat := by
  induction ps with
  | nil => rfl
  | cons p ps ih =>
    obtain ⟨hp, hps⟩ := List.forall_mem_cons.mp h
    rw [encode, List.flatMap_cons, encodePoint, if_pos hp, ← encode, ih hps]
    rfl

/-- The code points of a text of code units; an unpaired surrogate counts as one. -/
def codePoints : List Nat → List Nat
  | [] => []
  | [u] => [u]
  | u :: v :: s =>
    if 0xd800 ≤ u ∧ u < 0xdc00 ∧ 0xdc00 ≤ v ∧ v < 0xe000 then
      (0x10000 + (u - 0xd800) * 0x400 + (v - 0xdc00)) :: codePoints s
    else u :: codePoints (v :: s)

def replaceSurrogate (p : Nat) : Nat := if isSurrogate p then 0xfffd else p

/-- The code points with U+FFFD for an unpaired surrogate. -/
def points (s : List Nat) : List Nat := (codePoints s).map replaceSurrogate

section Continuation

variable (q : Pending) (hk : k < 0x40) (hlow : q.lower.toNat ≤ 0x80 + k)
  (hhigh : 0x80 + k ≤ q.upper.toNat)
include hk hlow hhigh

theorem continuation_range :
    (q.lower ≤ UInt8.ofNat (0x80 + k) ∧ UInt8.ofNat (0x80 + k) ≤ q.upper) ∧
      (UInt8.ofNat (0x80 + k)).toNat % 0x40 = k := by
  have hb : (UInt8.ofNat (0x80 + k)).toNat = 0x80 + k := UInt8.toNat_ofNat_of_lt' (by
    simp only [UInt8.size]
    omega)
  simp only [UInt8.le_iff_toNat_le, hb]
  exact ⟨⟨hlow, hhigh⟩, by omega⟩

theorem decodeFrom_last (hn : q.needed = 0) (bs : List UInt8) :
    decodeFrom (some q) (UInt8.ofNat (0x80 + k) :: bs) =
      (decodeFrom none bs).map ((q.point * 0x40 + k) :: ·) := by
  obtain ⟨hrange, hmod⟩ := continuation_range q hk hlow hhigh
  simp only [decodeFrom, if_pos hrange, hmod, hn]

theorem decodeFrom_more (hn : q.needed = n + 1) (bs : List UInt8) :
    decodeFrom (some q) (UInt8.ofNat (0x80 + k) :: bs) =
      decodeFrom (some ⟨n, 0x80, 0xbf, q.point * 0x40 + k, le_continuation⟩) bs := by
  obtain ⟨hrange, hmod⟩ := continuation_range q hk hlow hhigh
  simp only [decodeFrom, if_pos hrange, hmod, hn]

end Continuation

theorem decodeFrom_lead (hb : ¬ b < 0x80) (hl : lead b = some q) (bs : List UInt8) :
    decodeFrom none (b :: bs) = decodeFrom (some q) bs := by
  rw [decodeFrom, if_neg hb, hl]

theorem lead_two (hlow : 2 ≤ k) (hhigh : k < 0x20) :
    ¬ UInt8.ofNat (0xc0 + k) < 0x80 ∧
    ∃ q, lead (UInt8.ofNat (0xc0 + k)) = some q ∧ q.needed = 0 ∧ q.point = k ∧
      q.lower = 0x80 ∧ q.upper = 0xbf := by
  interval_cases k <;> exact ⟨by decide, _, rfl, rfl, rfl, rfl, rfl⟩

theorem lead_three (hhigh : k < 0x10) :
    ¬ UInt8.ofNat (0xe0 + k) < 0x80 ∧
    ∃ q, lead (UInt8.ofNat (0xe0 + k)) = some q ∧ q.needed = 1 ∧ q.point = k ∧
      q.lower = (if k = 0 then 0xa0 else 0x80) ∧ q.upper = if k = 0x0d then 0x9f else 0xbf := by
  interval_cases k <;> exact ⟨by decide, _, rfl, rfl, rfl, rfl, rfl⟩

theorem lead_four (hhigh : k < 5) :
    ¬ UInt8.ofNat (0xf0 + k) < 0x80 ∧
    ∃ q, lead (UInt8.ofNat (0xf0 + k)) = some q ∧ q.needed = 2 ∧ q.point = k ∧
      q.lower = (if k = 0 then 0x90 else 0x80) ∧ q.upper = if k = 4 then 0x8f else 0xbf := by
  interval_cases k <;> exact ⟨by decide, _, rfl, rfl, rfl, rfl, rfl⟩

theorem decodeFrom_encodePoint (h : Scalar p) (bs : List UInt8) :
    decodeFrom none (encodePoint p ++ bs) = (decodeFrom none bs).map (p :: ·) := by
  obtain ⟨hmax, hsur⟩ := h
  simp only [isSurrogate, Bool.and_eq_false_iff, decide_eq_false_iff_not, not_le, not_lt] at hsur
  rw [encodePoint]
  split_ifs with h1 h2 h3
  · have hb : (UInt8.ofNat p).toNat = p := UInt8.toNat_ofNat_of_lt' (by
      simp only [UInt8.size]
      omega)
    have hlt : UInt8.ofNat p < 0x80 := by
      simpa only [UInt8.lt_iff_toNat_lt, hb, UInt8.reduceToNat] using h1
    rw [List.singleton_append, decodeFrom, if_pos hlt, hb]
  · obtain ⟨hb, q, hl, hn, hpoint, hlow, hhigh⟩ := lead_two (k := p / 0x40) (by omega) (by omega)
    have hp : q.point * 0x40 + p % 0x40 = p := by omega
    simp only [List.cons_append, List.nil_append]
    rw [decodeFrom_lead hb hl, decodeFrom_last q (by omega) _ _ hn, hp]
    · simp only [hlow, UInt8.reduceToNat]
      omega
    · simp only [hhigh, UInt8.reduceToNat]
      omega
  · obtain ⟨hb, q, hl, hn, hpoint, hlow, hhigh⟩ := lead_three (k := p / 0x1000) (by omega)
    have hp : (q.point * 0x40 + p / 0x40 % 0x40) * 0x40 + p % 0x40 = p := by omega
    simp only [List.cons_append, List.nil_append]
    rw [decodeFrom_lead hb hl, decodeFrom_more q (by omega) _ _ hn,
      decodeFrom_last _ (by omega) _ _ rfl, hp]
    · simp only [UInt8.reduceToNat]
      omega
    · simp only [UInt8.reduceToNat]
      omega
    · rw [hlow]
      split_ifs <;> simp only [UInt8.reduceToNat] <;> omega
    · rw [hhigh]
      split_ifs <;> simp only [UInt8.reduceToNat] <;> omega
  · obtain ⟨hb, q, hl, hn, hpoint, hlow, hhigh⟩ := lead_four (k := p / 0x40000) (by omega)
    have hp : ((q.point * 0x40 + p / 0x1000 % 0x40) * 0x40 + p / 0x40 % 0x40) * 0x40 +
        p % 0x40 = p := by omega
    simp only [List.cons_append, List.nil_append]
    rw [decodeFrom_lead hb hl, decodeFrom_more q (by omega) _ _ hn,
      decodeFrom_more _ (by omega) _ _ rfl, decodeFrom_last _ (by omega) _ _ rfl, hp]
    · simp only [UInt8.reduceToNat]
      omega
    · simp only [UInt8.reduceToNat]
      omega
    · simp only [UInt8.reduceToNat]
      omega
    · simp only [UInt8.reduceToNat]
      omega
    · rw [hlow]
      split_ifs <;> simp only [UInt8.reduceToNat] <;> omega
    · rw [hhigh]
      split_ifs <;> simp only [UInt8.reduceToNat] <;> omega

theorem decode_encode (h : ∀ p ∈ ps, Scalar p) : decode (encode ps) = some ps := by
  induction ps with
  | nil => rfl
  | cons p ps ih =>
    rw [decode, encode, List.flatMap_cons, decodeFrom_encodePoint (h p (.head _))]
    have hrest := ih (fun q hq => h q (.tail _ hq))
    rw [decode, encode] at hrest
    rw [hrest]
    rfl

/-- A code point takes no more code units than bytes. -/
theorem length_units_le (p : Nat) : (units p).length ≤ (encodePoint p).length := by
  rw [units, encodePoint]
  split_ifs <;> simp only [List.length_cons, List.length_nil] <;> omega

theorem length_utf16_le (ps : List Nat) : (utf16 ps).length ≤ (encode ps).length := by
  induction ps with
  | nil => exact Nat.le_refl 0
  | cons p ps ih =>
    have hp := length_units_le p
    rw [utf16] at ih
    rw [encode] at ih
    rw [utf16, encode, List.flatMap_cons, List.flatMap_cons, List.length_append, List.length_append]
    omega

/-- A text of code units. -/
def Units (s : List Nat) : Prop := ∀ u ∈ s, u < 0x10000

/-- What is read so far cannot grow beyond the last code point. -/
def Pending.Small (q : Pending) : Prop :=
  match q.needed with
  | 0 => q.point < 0x4400
  | 1 => q.point < 0x110
  | 2 => q.point < 4 ∨ q.point = 4 ∧ q.upper.toNat ≤ 0x8f
  | _ => False

theorem small_lead (h : lead b = some q) : q.Small := by
  simp only [lead] at h
  split_ifs at h with _ _ _ _ _ _ h7 <;> cases h <;> simp only [Pending.Small]
  · omega
  · omega
  · omega
  · omega
  · omega
  · simp
  · simp only [UInt8.le_iff_toNat_le, UInt8.reduceToNat] at h7
    omega

theorem small_next {q : Pending} (h : q.Small) (hn : q.needed = n + 1)
    (hb : q.lower ≤ b ∧ b ≤ q.upper) :
    Pending.Small ⟨n, 0x80, 0xbf, q.point * 0x40 + b.toNat % 0x40, le_continuation⟩ := by
  have hlow := q.low
  simp only [UInt8.le_iff_toNat_le, UInt8.reduceToNat] at hb hlow
  simp only [Pending.Small, hn] at h ⊢
  match n with
  | 0 =>
    simp only at h ⊢
    omega
  | 1 =>
    simp only at h ⊢
    omega
  | n + 2 => exact h.elim

theorem decodeFrom_lt {p : Option Pending} (hp : ∀ q ∈ p, q.Small)
    (h : decodeFrom p bs = some ps) : ∀ x ∈ ps, x < 0x110000 := by
  induction bs generalizing p ps with
  | nil =>
    cases p with
    | none =>
      cases h
      exact nofun
    | some p => cases h
  | cons b bs ih =>
    cases p with
    | none =>
      simp only [decodeFrom] at h
      split at h
      · next hb =>
        obtain ⟨qs, hq, rfl⟩ := Option.map_eq_some_iff.mp h
        have hlt := b.toNat_lt
        exact List.forall_mem_cons.mpr ⟨by omega, ih (by simp) hq⟩
      · split at h
        · next q hl => exact ih (by rintro _ ⟨⟩; exact small_lead hl) h
        · cases h
    | some p =>
      have hsmall := hp p rfl
      simp only [decodeFrom] at h
      split at h
      · next hb =>
        split at h
        · next hn =>
          obtain ⟨qs, hq, rfl⟩ := Option.map_eq_some_iff.mp h
          simp only [Pending.Small, hn] at hsmall
          exact List.forall_mem_cons.mpr ⟨by omega, ih (by simp) hq⟩
        · next n hn =>
          refine ih ?_ h
          rintro _ ⟨⟩
          exact small_next hsmall hn hb
      · cases h

theorem decode_lt (h : decode bs = some ps) : ∀ x ∈ ps, x < 0x110000 :=
  decodeFrom_lt (by simp) h

theorem units_utf16 {ps : List Nat} (h : ∀ p ∈ ps, p < 0x110000) : Units (utf16 ps) := by
  intro u hu
  obtain ⟨p, hp, hu⟩ := List.mem_flatMap.mp hu
  have hlt := h p hp
  rw [units] at hu
  split_ifs at hu with hsmall
  · rw [List.mem_singleton.mp hu]
    exact hsmall
  · simp only [List.mem_cons, List.not_mem_nil, or_false] at hu
    omega

theorem utf16_codePoints {s : List Nat} (hs : Units s) : utf16 (codePoints s) = s := by
  induction s using codePoints.induct with
  | case1 => rfl
  | case2 u => simp [codePoints, utf16, units, hs u (.head _)]
  | case3 u v s hpair ih =>
    have hrest := ih (fun w hw => hs w (.tail _ (.tail _ hw)))
    obtain ⟨h1, h2, h3, h4⟩ := hpair
    rw [codePoints, if_pos ⟨h1, h2, h3, h4⟩]
    rw [utf16] at hrest ⊢
    rw [List.flatMap_cons, hrest, units, if_neg (by omega)]
    simp only [List.cons_append, List.nil_append, List.cons.injEq, and_true]
    omega
  | case4 u v s hpair ih =>
    have hrest := ih (fun w hw => hs w (.tail _ hw))
    rw [codePoints, if_neg hpair]
    rw [utf16] at hrest ⊢
    rw [List.flatMap_cons, hrest, units, if_pos (hs u (.head _))]
    rfl

theorem codePoints_units (h : Scalar p) (s : List Nat) :
    codePoints (units p ++ s) = p :: codePoints s := by
  obtain ⟨hlt, hs⟩ := h
  simp only [isSurrogate, Bool.and_eq_false_iff, decide_eq_false_iff_not] at hs
  rw [units]
  split_ifs with hp
  · cases s with
    | nil => rfl
    | cons v s =>
      rw [List.singleton_append, codePoints, if_neg (by omega)]
  · have hpoint : 0x10000 + (0xd800 + (p - 0x10000) / 0x400 - 0xd800) * 0x400 +
        (0xdc00 + (p - 0x10000) % 0x400 - 0xdc00) = p := by omega
    rw [List.cons_append, List.singleton_append, codePoints, if_pos (by omega), hpoint]

theorem codePoints_utf16 (h : ∀ p ∈ ps, Scalar p) : codePoints (utf16 ps) = ps := by
  induction ps with
  | nil => rfl
  | cons p ps ih =>
    obtain ⟨hp, hps⟩ := List.forall_mem_cons.mp h
    rw [utf16, List.flatMap_cons, codePoints_units hp]
    exact congrArg _ (ih hps)

/-- A text that came from UTF-8 loses nothing on its way back. -/
theorem points_utf16 (h : ∀ p ∈ ps, Scalar p) : points (utf16 ps) = ps := by
  rw [points, codePoints_utf16 h]
  conv_rhs => rw [← List.map_id ps]
  exact List.map_congr_left (fun p hp => if_neg (by simp [(h p hp).2]))

theorem codePoints_lt {s : List Nat} (hs : Units s) : ∀ p ∈ codePoints s, p < 0x110000 := by
  induction s using codePoints.induct with
  | case1 => nofun
  | case2 u =>
    intro p hp
    have := hs u (.head _)
    rw [codePoints, List.mem_singleton] at hp
    omega
  | case3 u v s hpair ih =>
    intro p hp
    rw [codePoints, if_pos hpair, List.mem_cons] at hp
    cases hp with
    | inl heq =>
      obtain ⟨h1, h2, h3, h4⟩ := hpair
      omega
    | inr hp => exact ih (fun w hw => hs w (.tail _ (.tail _ hw))) p hp
  | case4 u v s hpair ih =>
    intro p hp
    rw [codePoints, if_neg hpair, List.mem_cons] at hp
    obtain rfl | hp := hp
    · have := hs p (.head _)
      omega
    · exact ih (fun w hw => hs w (.tail _ hw)) p hp

theorem scalar_points {s : List Nat} (hs : Units s) : ∀ p ∈ points s, Scalar p := by
  intro p hp
  obtain ⟨q, hq, rfl⟩ := List.mem_map.mp hp
  rw [replaceSurrogate]
  split_ifs with hsur
  · simp [Scalar, isSurrogate]
  · exact ⟨codePoints_lt hs q hq, by simpa using hsur⟩

/-- No surrogate of the text is unpaired. -/
def WellFormed (s : List Nat) : Prop := ∀ p ∈ codePoints s, isSurrogate p = false

instance : Decidable (WellFormed s) := inferInstanceAs (Decidable (∀ p ∈ codePoints s, _))

theorem points_eq (h : WellFormed s) : points s = codePoints s := by
  rw [points]
  conv_rhs => rw [← List.map_id (codePoints s)]
  apply List.map_congr_left
  intro p hp
  rw [replaceSurrogate, if_neg (by simp [h p hp])]
  rfl

theorem utf16_replaceSurrogate (ps : List Nat) :
    utf16 (ps.map replaceSurrogate) = utf16 ps ↔ ∀ p ∈ ps, isSurrogate p = false := by
  induction ps with
  | nil => exact ⟨fun _ => nofun, fun _ => rfl⟩
  | cons p ps ih =>
    have hp : units (replaceSurrogate p) = units p ↔ isSurrogate p = false := by
      rw [replaceSurrogate]
      cases hsur : isSurrogate p with
      | false => simp
      | true =>
        simp only [isSurrogate, Bool.and_eq_true, decide_eq_true_eq] at hsur
        simp [units, if_pos (show p < 0x10000 by omega)]
        omega
    have hlen : (units (replaceSurrogate p)).length = (units p).length := by
      rw [replaceSurrogate]
      split_ifs with hsur
      · simp only [isSurrogate, Bool.and_eq_true, decide_eq_true_eq] at hsur
        simp [units, if_pos (show p < 0x10000 by omega)]
      · rfl
    rw [utf16] at ih ⊢
    rw [utf16] at ih ⊢
    rw [List.map_cons, List.flatMap_cons, List.flatMap_cons, List.forall_mem_cons, ← hp, ← ih]
    constructor
    · intro h
      exact List.append_inj h hlen
    · rintro ⟨h1, h2⟩
      rw [h1, h2]

/-- Replacing what is unpaired leaves only a well-formed text as it was. -/
theorem utf16_points_iff {s : List Nat} (hs : Units s) : utf16 (points s) = s ↔ WellFormed s := by
  conv_lhs =>
    rhs
    rw [← utf16_codePoints hs]
  exact utf16_replaceSurrogate (codePoints s)

section Small

variable {s : List Nat} (h : ∀ c ∈ s, c < 0x80)
include h

theorem codePoints_of_lt : codePoints s = s := by
  induction s using codePoints.induct with
  | case1 => rfl
  | case2 u => rfl
  | case3 u v s hpair ih =>
    have := h u (.head _)
    omega
  | case4 u v s hpair ih => rw [codePoints, if_neg hpair, ih (fun c hc => h c (.tail _ hc))]

theorem codePoints_append (t : List Nat) : codePoints (s ++ t) = s ++ codePoints t := by
  induction s with
  | nil => rfl
  | cons c s ih =>
    have hc := h c (.head _)
    have hcons (r : List Nat) : codePoints (c :: r) = c :: codePoints r := by
      cases r with
      | nil => rfl
      | cons d r =>
        rw [codePoints, if_neg]
        omega
    rw [List.cons_append, hcons, ih (fun d hd => h d (.tail _ hd))]
    rfl

theorem wellFormed_of_lt : WellFormed s := by
  rw [WellFormed, codePoints_of_lt h]
  intro p hp
  have := h p hp
  simp only [isSurrogate, Bool.and_eq_false_iff, decide_eq_false_iff_not]
  omega

theorem encode_of_lt : encode s = s.map UInt8.ofNat := by
  induction s with
  | nil => rfl
  | cons c s ih =>
    rw [encode, List.flatMap_cons, encodePoint, if_pos (h c (.head _)), ← encode,
      ih (fun d hd => h d (.tail _ hd))]
    rfl

theorem utf16_of_small : utf16 s = s := by
  induction s with
  | nil => rfl
  | cons c s ih =>
    rw [utf16, List.flatMap_cons, ← utf16, ih (fun d hd => h d (.tail _ hd)), units,
      if_pos (Nat.lt_trans (h c (.head _)) (by decide))]
    rfl

theorem units_of_forall_lt : Units s := fun c hc => Nat.lt_trans (h c hc) (by decide)

theorem map_toNat_ofNat : (s.map UInt8.ofNat).map UInt8.toNat = s := by
  rw [List.map_map]
  conv_rhs => rw [← List.map_id s]
  apply List.map_congr_left
  intro c hc
  have := h c hc
  exact UInt8.toNat_ofNat_of_lt' (by simp only [UInt8.size]; omega)

end Small

end Unicode
