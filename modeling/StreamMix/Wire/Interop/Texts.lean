import StreamMix.Wire.Checks

/-! Texts and numbers as both languages write and read them. -/

namespace StreamMix.Wire

open Js (Number)
open Json (Syntax)
open Unicode (Scalar Units WellFormed utf16 codePoints points encode)
open GoJson (goString struct)

/-- The byte string is the text in UTF-8. -/
def SameText (s : List Nat) (bs : Bytes) : Prop := jsString bs = some s

/-- A text that a byte string of the length can be. -/
def Fits (limit : Nat) (s : List Nat) : Prop :=
  WellFormed s ∧ (encode (codePoints s)).length ≤ limit

theorem sameText_goString {s : List Nat} (hs : Units s) :
    SameText s (goString s) ↔ WellFormed s := by
  rw [SameText, goString, jsString_encode (Unicode.scalar_points hs), Option.some.injEq,
    Unicode.utf16_points_iff hs]

theorem fits_iff {s : List Nat} (hs : Units s) :
    Fits limit s ↔ SameText s (goString s) ∧ (goString s).length ≤ limit := by
  rw [Fits, sameText_goString hs]
  apply and_congr_right
  intro h
  rw [goString, Unicode.points_eq h]

theorem sameText_encode {ps : List Nat} (h : ∀ p ∈ ps, Scalar p) :
    SameText (utf16 ps) (encode ps) := jsString_encode h

theorem sameText_of_lt {s : List Nat} (h : ∀ c ∈ s, c < 0x80) : SameText s (goString s) :=
  (sameText_goString (Unicode.units_of_forall_lt h)).mpr (Unicode.wellFormed_of_lt h)

theorem parseInt_decimal (n : Nat) : GoJson.parseInt (Json.decimal n) = some (n : ℤ) := by
  obtain ⟨d, ds, heq, -⟩ := Json.head_decimal n
  have hdigits := Json.isDigit_decimal n
  have hvalue := Json.digitsValue_decimal n
  rw [heq] at hdigits hvalue ⊢
  rw [GoJson.parseInt.eq_def]
  split
  · next hminus =>
    cases hminus
    cases hdigits _ (.head _)
  · rw [if_pos ⟨by simp, List.all_eq_true.mpr hdigits⟩, hvalue]

theorem int64_decimal (h : n < 2 ^ 63) (set : ℤ → α → α) (x : Number) (a : α) :
    GoJson.int64 set (.num (Json.decimal n) x) a = some (set n a) := by
  simp only [GoJson.int64, GoJson.int, parseInt_decimal, Option.bind_eq_bind, Option.bind_some]
  rw [if_pos (by omega)]

theorem intText_natCast (n : Nat) : GoJson.intText n = Json.decimal n := by
  rw [GoJson.intText, if_neg (by omega), Int.natAbs_natCast]

theorem struct_cons {fields : List (List Nat × GoJson.Decoder α)}
    (hd : GoJson.field fields k = some d) (h : d v a = some b) :
    struct fields (.obj ((k, v) :: ms)) a = struct fields (.obj ms) b := by
  simp only [struct, List.foldlM_cons, hd, Option.bind_eq_bind, Option.bind_some, h]

theorem struct_cons_eq_some {fields : List (List Nat × GoJson.Decoder α)}
    (hd : GoJson.field fields k = some d) (h : struct fields (.obj ((k, v) :: ms)) a = some c) :
    ∃ b, d v a = some b ∧ struct fields (.obj ms) b = some c := by
  simp only [struct, List.foldlM_cons, hd, Option.bind_eq_bind, Option.bind_some] at h
  exact Option.bind_eq_some_iff.mp h

def numberOf (n : Nat) : Syntax := .num (Json.decimal n) (.ofDecimal n)

theorem numberText_small : ∀ n ∈ [1, 2, 3, 4, 5, 6, 7, 8, 20, 48000],
    Ts.numberText (.fin (n : Nat)) = Json.decimal n := by
  decide +kernel

/-- The number is below the first one that is not written exactly. -/
theorem get_number (n : Nat) (h : Ts.get v key = some (numberOf n).value) (hn : n < 2 ^ 53) :
    Ts.get v key = some (.num (.fin n)) := by
  rw [h, numberOf, Syntax.value, Number.ofDecimal_natCast hn]

theorem Go.written_of_lt {s : List Nat} (h : ∀ c ∈ s, c < 0x80) :
    Written (GoJson.stringText (goString s)) (.str s) := by
  have hpoints : points s = s := by
    rw [Unicode.points_eq (Unicode.wellFormed_of_lt h), Unicode.codePoints_of_lt h]
  have hwritten := Go.written_stringText (fun p hp => scalar_of_lt (h p hp))
  rw [Unicode.utf16_of_small h] at hwritten
  rwa [goString, hpoints]

/-! The constants that both languages compare strings with. -/

def constants : List String := "opus" :: customCategory :: (presetCategories ++ errorCodes)

theorem small_constant : ∀ c ∈ constants, ∀ d ∈ Ts.units c, d < 0x80 := by decide

theorem goString_constant : ∀ c ∈ constants, goString (Ts.units c) = ascii c := by decide

theorem sameText_constant (h : c ∈ constants) : SameText (Ts.units c) (ascii c) := by
  rw [← goString_constant c h]
  exact sameText_of_lt (small_constant c h)

theorem Ts.written_constant (h : c ∈ constants) :
    Written (Ts.stringText (Ts.units c)) (.str (Ts.units c)) :=
  Ts.written_stringText (Unicode.units_of_forall_lt (small_constant c h))

theorem Go.written_constant (h : c ∈ constants) :
    Written (GoJson.stringText (ascii c)) (.str (Ts.units c)) := by
  rw [← goString_constant c h]
  exact Go.written_of_lt (small_constant c h)

end StreamMix.Wire
