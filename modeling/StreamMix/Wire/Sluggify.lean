import StreamMix.Wire.SlugRule
import Mathlib.Data.List.DropRight

/-! Slugs of labels in TypeScript and Go.  What the two languages' libraries know of Unicode is
left open: case, decomposition, and the category Mn. -/

namespace StreamMix.Wire

open Cpp (dash isSlugChar)
open Kebab (words join scan trimmed)
open Ts (isSlugUnit)

def isDash (c : Nat) : Bool := c = 0x2d

namespace Ts

/-- `[\u0300-\u036f]`. -/
def isMark (u : Nat) : Bool := 0x300 ≤ u && u ≤ 0x36f

/-- `.replace(/[^a-z0-9]+/g, "-")`, in front of a run or inside one. -/
def dashRuns : Bool → List Nat → List Nat
  | _, [] => []
  | inside, u :: s =>
    if isSlugUnit u then u :: dashRuns false s
    else if inside then dashRuns true s
    else 0x2d :: dashRuns true s

/-- `.replace(/^-+|-+$/g, "")`. -/
def trimDashes (s : List Nat) : List Nat := (s.dropWhile isDash).rdropWhile isDash

/-- The label before its first regular expression for separators. -/
def plain (toLowerCase nfkd : List Nat → List Nat) (label : List Nat) : List Nat :=
  (nfkd (toLowerCase label)).filter (fun u => !isMark u)

def sluggify (toLowerCase nfkd : List Nat → List Nat) (label : List Nat) : List Nat :=
  trimDashes (dashRuns false (plain toLowerCase nfkd label))

end Ts

namespace Go

/-- The runes of the string in the builder `b`. -/
def plain (toLower : Nat → Nat) (isMn : Nat → Bool) (label : Bytes) : List Nat :=
  ((GoJson.runes label).map (fun r => toLower (r.getD 0xfffd))).filter (fun r => !isMn r)

/-- The second loop, with `prevDash`; `out` is reversed. -/
def slugLoop : Bytes → Bool → List Nat → Bytes
  | out, _, [] => out
  | out, prevDash, r :: s =>
    if isSlugUnit r then slugLoop (UInt8.ofNat r :: out) false s
    else if !prevDash && out.length > 0 then slugLoop (dash :: out) true s
    else slugLoop out prevDash s

/-- `strings.Trim(s, "-")` takes the right side first. -/
def trim (s : Bytes) : Bytes := (s.rdropWhile (fun c => c = dash)).dropWhile (fun c => c = dash)

def sluggify (toLower : Nat → Nat) (isMn : Nat → Bool) (label : Bytes) : Bytes :=
  trim (slugLoop [] false (plain toLower isMn label)).reverse

end Go

/-! Both write the words of the plain text with dashes between them. -/

/-- Behind the first letter the expression writes what the scan does. -/
theorem scan_eq_dashRuns (s : List Nat) (c : Nat) (out : List Nat) (pending : Bool) :
    scan isSlugUnit 0x2d (c :: out) pending s = (Ts.dashRuns pending s).reverse ++ c :: out := by
  induction s generalizing c out pending with
  | nil => rfl
  | cons d s ih =>
    rw [scan, Ts.dashRuns]
    cases isSlugUnit d with
    | true => simp [ih]
    | false => cases pending <;> simp [ih]

theorem Ts.trimDashes_dashRuns (s : List Nat) (inside : Bool) :
    Ts.trimDashes (Ts.dashRuns inside s) = trimmed 0x2d (scan isSlugUnit 0x2d [] false s) := by
  induction s generalizing inside with
  | nil => rfl
  | cons d s ih =>
    rw [scan, Ts.dashRuns]
    cases hd : isSlugUnit d with
    | true =>
      have hdash : ¬ isDash d = true := by
        intro h
        rw [of_decide_eq_true h] at hd
        cases hd
      rw [if_pos rfl, if_pos rfl, scan_eq_dashRuns, Ts.trimDashes, List.dropWhile_cons_of_neg hdash,
        List.rdropWhile, List.reverse_cons]
      rfl
    | false =>
      have hskip := ih true
      cases inside with
      | true => exact hskip
      | false => exact hskip

theorem Ts.sluggify_eq (toLowerCase nfkd : List Nat → List Nat) (label : List Nat) :
    Ts.sluggify toLowerCase nfkd label =
      join 0x2d (words isSlugUnit (Ts.plain toLowerCase nfkd label)) := by
  rw [Ts.sluggify, Ts.trimDashes_dashRuns, Kebab.trimmed_scan (by decide)]

theorem toNat_ofNat_of_isSlugUnit (h : isSlugUnit r = true) : (UInt8.ofNat r).toNat = r := by
  simp only [isSlugUnit, Bool.or_eq_true, Bool.and_eq_true, decide_eq_true_eq] at h
  apply UInt8.toNat_ofNat_of_lt'
  simp only [UInt8.size]
  omega

theorem Go.slugLoop_toNat (out : Bytes) (prevDash : Bool) (s : List Nat) :
    (Go.slugLoop out prevDash s).map UInt8.toNat =
      scan isSlugUnit 0x2d (out.map UInt8.toNat) prevDash s := by
  induction s generalizing out prevDash with
  | nil => rfl
  | cons r s ih =>
    have hempty : decide (out.length > 0) = !(out.map UInt8.toNat).isEmpty := by
      cases out <;> rfl
    rw [Go.slugLoop, scan, hempty]
    split_ifs with hr
    · rw [ih, List.map_cons, toNat_ofNat_of_isSlugUnit hr]
    · exact ih (dash :: out) true
    · exact ih out prevDash

theorem dropWhile_toNat (s : Bytes) :
    (s.dropWhile (fun c => c = dash)).map UInt8.toNat = (s.map UInt8.toNat).dropWhile isDash := by
  have hdash (c : UInt8) : isDash c.toNat = decide (c = dash) :=
    decide_eq_decide.mpr (UInt8.toNat_inj (b := dash))
  rw [List.dropWhile_map]
  simp only [Function.comp_def, hdash]

/-- There is no dash in front of the words. -/
theorem dropWhile_join (s : List Nat) :
    (join 0x2d (words isSlugUnit s)).dropWhile isDash = join 0x2d (words isSlugUnit s) := by
  cases hjoin : join 0x2d (words isSlugUnit s) with
  | nil => rfl
  | cons c t =>
    apply List.dropWhile_cons_of_neg
    intro hdash
    have hc := Kebab.head_join hjoin
    rw [of_decide_eq_true hdash] at hc
    cases hc

theorem Go.sluggify_toNat (toLower : Nat → Nat) (isMn : Nat → Bool) (label : Bytes) :
    (Go.sluggify toLower isMn label).map UInt8.toNat =
      join 0x2d (words isSlugUnit (Go.plain toLower isMn label)) := by
  have hloop := Go.slugLoop_toNat [] false (Go.plain toLower isMn label)
  have htrimmed : trimmed 0x2d (scan isSlugUnit 0x2d [] false (Go.plain toLower isMn label)) = _ :=
    Kebab.trimmed_scan (by decide) _
  rw [List.map_nil] at hloop
  rw [Go.sluggify, Go.trim, dropWhile_toNat, List.rdropWhile, List.map_reverse, dropWhile_toNat,
    List.reverse_reverse, hloop]
  change (trimmed 0x2d _).dropWhile isDash = _
  rw [htrimmed, dropWhile_join]

end StreamMix.Wire
