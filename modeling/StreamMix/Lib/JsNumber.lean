import Mathlib.Data.Nat.Log
import Mathlib.Data.Rat.Floor

/-! JavaScript numbers with exact finite values: the arithmetic of the models is
rational, and only the conversion from decimal text rounds.  The sign of zero is not
represented. -/

namespace Js

inductive Number
  | nan
  | posInf
  | negInf
  | fin (q : ℚ)
  deriving DecidableEq

instance : NatCast Number := ⟨fun n => .fin n⟩

@[simp] theorem natCast_eq (n : Nat) : (n : Number) = .fin n := rfl

/-- The largest `k` with `2 ^ k ≤ q`. -/
def log2 (q : ℚ) : ℤ :=
  let k := (Nat.log2 q.num.natAbs : ℤ) - Nat.log2 q.den
  if (2 : ℚ) ^ k ≤ q then k else k - 1

def roundEven (q : ℚ) : ℤ :=
  let n := ⌊q⌋
  if q - n < 1 / 2 then n
  else if 1 / 2 < q - n then n + 1
  else if n % 2 = 0 then n else n + 1

/-- The nearest double, ties to even. -/
def Number.ofDecimal (q : ℚ) : Number :=
  if q = 0 then .fin 0
  else
    let ulp : ℚ := 2 ^ max (log2 |q| - 52) (-1074)
    let r := roundEven (q / ulp) * ulp
    if 2 ^ 1024 ≤ r then .posInf
    else if r ≤ -2 ^ 1024 then .negInf
    else .fin r

def Number.isInteger : Number → Bool
  | .fin q => q.den = 1
  | _ => false

/-- `a < b`; no comparison with `NaN` holds. -/
def Number.lt : Number → Number → Bool
  | .nan, _ | _, .nan => false
  | .posInf, _ | _, .negInf => false
  | .negInf, _ | _, .posInf => true
  | .fin p, .fin q => p < q

/-- `x < 0 || x > limit`. -/
def Number.outside (limit : Nat) (x : Number) : Bool := x.lt (0 : Nat) || Number.lt limit x

/-- `ToUint8` and its siblings: the whole part modulo `2 ^ width`. -/
def Number.toUint (width : Nat) : Number → Nat
  | .fin q => ((if 0 ≤ q then ⌊q⌋ else ⌈q⌉) % 2 ^ width).toNat
  | _ => 0

/-- The `n` with `10 ^ (n - 1) ≤ q < 10 ^ n`. -/
def pointOf (q : ℚ) : ℤ :=
  let e := (Nat.log 10 q.num.natAbs : ℤ) - Nat.log 10 q.den
  if (10 : ℚ) ^ e ≤ q then e + 1 else e

/-- A decimal of `k` digits: `s * 10 ^ (n - k)`. -/
structure Decimal where
  s : Nat
  k : Nat
  n : ℤ
  deriving DecidableEq, Repr

def Decimal.toRat (d : Decimal) : ℚ := d.s * 10 ^ (d.n - d.k)

/-- The decimals of `k` digits on either side of `q`. -/
def neighbours (q : ℚ) (k : Nat) : List Decimal :=
  let n := pointOf q
  let lo := ⌊q / 10 ^ (n - k)⌋.toNat
  [⟨lo, k, n⟩, if lo + 1 < 10 ^ k then ⟨lo + 1, k, n⟩ else ⟨10 ^ (k - 1), k, n + 1⟩]

/-- The decimal of fewest digits that denotes `q`, the nearer one of two.  Seventeen
digits are enough for a double. -/
def shortest (q : ℚ) : Option Decimal :=
  (List.range' 1 17).findSome? fun k =>
    match (neighbours q k).filter (fun d => Number.ofDecimal d.toRat = .fin q) with
    | [a, b] => some (if |q - a.toRat| ≤ |b.toRat - q| then a else b)
    | ds => ds.head?

/-- Up to 21 places in positional notation, else with an exponent. -/
def Decimal.text (d : Decimal) : String :=
  let digits := (Nat.toDigits 10 d.s)
  let exponent := (if 0 ≤ d.n - 1 then "e+" else "e-") ++ toString (d.n - 1).natAbs
  if d.k ≤ d.n ∧ d.n ≤ 21 then
    String.ofList (digits ++ List.replicate (d.n - d.k).toNat '0')
  else if 0 < d.n ∧ d.n ≤ 21 then
    String.ofList (digits.take d.n.toNat ++ '.' :: digits.drop d.n.toNat)
  else if -6 < d.n ∧ d.n ≤ 0 then
    String.ofList ('0' :: '.' :: List.replicate (-d.n).toNat '0' ++ digits)
  else if d.k = 1 then String.ofList digits ++ exponent
  else String.ofList (digits.take 1 ++ '.' :: digits.drop 1) ++ exponent

/-- `Number::toString` of the specification in base ten. -/
def Number.text : Number → String
  | .nan => "NaN"
  | .posInf => "Infinity"
  | .negInf => "-Infinity"
  | .fin q =>
    if q = 0 then "0"
    else
      let body := ((shortest |q|).map Decimal.text).getD ""
      if q < 0 then "-" ++ body else body

theorem Number.isInteger_iff (x : Number) : x.isInteger = true ↔ ∃ z : ℤ, x = .fin z := by
  cases x with
  | fin q =>
    simp only [isInteger, decide_eq_true_eq, fin.injEq]
    constructor
    · intro h
      exact ⟨q.num, (Rat.coe_int_num_of_den_eq_one h).symm⟩
    · rintro ⟨z, rfl⟩
      exact Rat.den_intCast z
  | _ => simp [isInteger]

/-- The integers that pass a range check from zero. -/
theorem Number.natCast_of_outside {x : Number} (hint : x.isInteger = true)
    (h : outside limit x = false) : ∃ n ≤ limit, x = (n : Nat) := by
  obtain ⟨z, rfl⟩ := (isInteger_iff x).mp hint
  simp only [outside, lt, Bool.or_eq_false_iff, decide_eq_false_iff_not, not_lt] at h
  obtain ⟨hlow, hhigh⟩ := h
  have hlow : 0 ≤ z := by exact_mod_cast hlow
  have hhigh : z ≤ limit := by exact_mod_cast hhigh
  refine ⟨z.toNat, by omega, ?_⟩
  rw [natCast_eq, fin.injEq]
  exact_mod_cast (Int.toNat_of_nonneg hlow).symm

theorem Number.outside_natCast {n : Nat} (h : n ≤ limit) : outside limit (n : Nat) = false := by
  simpa [outside, lt] using h

@[simp] theorem Number.toUint_natCast (width n : Nat) :
    Number.toUint width (.fin (n : ℚ)) = n % 2 ^ width := by
  have hn : (0 : ℚ) ≤ n := by exact_mod_cast Nat.zero_le n
  simp only [toUint, if_pos hn, Int.floor_natCast]
  exact_mod_cast Int.toNat_natCast (n % 2 ^ width)

theorem Number.fin_injective : Function.Injective Number.fin := by
  intro p q h
  cases h
  rfl

theorem roundEven_intCast (z : ℤ) : roundEven z = z := by
  simp [roundEven]

theorem log2_natCast_le {n k : Nat} (h : n < 2 ^ (k + 1)) (hn : n ≠ 0) : log2 (n : ℚ) ≤ k := by
  have hlog : Nat.log2 n < k + 1 := (Nat.log2_lt hn).mpr h
  have hone : Nat.log2 1 = 0 := rfl
  simp only [log2, Rat.num_natCast, Rat.den_natCast, Int.natAbs_natCast, hone]
  split <;> omega

/-- An integer that fits in the significand is read exactly. -/
theorem Number.ofDecimal_natCast {n : Nat} (h : n < 2 ^ 53) : ofDecimal (n : ℚ) = .fin n := by
  obtain rfl | hn := Nat.eq_zero_or_pos n
  · rfl
  have hpos : (0 : ℚ) < n := by exact_mod_cast hn
  have hlog := log2_natCast_le (k := 52) h (by omega)
  obtain ⟨k, hk⟩ : ∃ k : Nat, max (log2 |(n : ℚ)| - 52) (-1074) = -(k : ℤ) := by
    rw [abs_of_pos hpos]
    exact ⟨(-max (log2 (n : ℚ) - 52) (-1074)).toNat, by omega⟩
  have hscaled : (n : ℚ) / 2 ^ (-(k : ℤ)) = ((n * 2 ^ k : ℕ) : ℤ) := by
    rw [zpow_neg, zpow_natCast, div_inv_eq_mul]
    push_cast
    rfl
  have hback : (((n * 2 ^ k : ℕ) : ℤ) : ℚ) * 2 ^ (-(k : ℤ)) = n := by
    rw [← hscaled, div_mul_cancel₀ _ (zpow_ne_zero _ (by decide))]
  have hhigh : (n : ℚ) < 2 ^ 1024 := by
    have hsmall : (n : ℚ) < 2 ^ 53 := by exact_mod_cast h
    exact hsmall.trans_le (pow_le_pow_right₀ one_le_two (by decide))
  have hlow : ¬ (n : ℚ) ≤ -2 ^ 1024 :=
    not_le.mpr (lt_trans (neg_neg_of_pos (pow_pos two_pos _)) hpos)
  simp only [ofDecimal, if_neg hpos.ne', hk, hscaled, roundEven_intCast, hback,
    if_neg (not_le.mpr hhigh), if_neg hlow]

end Js
