import Mathlib.Data.List.Basic
import Mathlib.Tactic.SplitIfs

/-! Queries of URLs in Go: `strings.Cut`, `url.QueryUnescape` and `url.ParseQuery` on byte
strings. -/

namespace UrlQuery

/-- `strings.Cut` without its flag. -/
def cut (sep : UInt8) : List UInt8 → List UInt8 × List UInt8
  | [] => ([], [])
  | b :: s => if b = sep then ([], s) else (b :: (cut sep s).1, (cut sep s).2)

theorem cut_append (h : sep ∉ s) (t : List UInt8) : cut sep (s ++ sep :: t) = (s, t) := by
  induction s with
  | nil => simp [cut]
  | cons b s ih =>
    obtain ⟨hb, hs⟩ := not_or.mp (mt List.mem_cons.mpr h)
    rw [List.cons_append, cut, if_neg (Ne.symm hb), ih hs]

theorem cut_of_not_mem (h : sep ∉ s) : cut sep s = (s, []) := by
  induction s with
  | nil => rfl
  | cons b s ih =>
    obtain ⟨hb, hs⟩ := not_or.mp (mt List.mem_cons.mpr h)
    rw [cut, if_neg (Ne.symm hb), ih hs]

theorem length_cut (sep b : UInt8) (s : List UInt8) : (cut sep (b :: s)).2.length ≤ s.length := by
  induction s generalizing b with
  | nil =>
    rw [cut]
    split_ifs <;> exact Nat.le_refl _
  | cons c s ih =>
    rw [cut]
    split_ifs
    · exact Nat.le_refl _
    · exact Nat.le_succ_of_le (ih c)

def ishex (c : UInt8) : Bool :=
  (0x30 ≤ c && c ≤ 0x39) || (0x61 ≤ c && c ≤ 0x66) || (0x41 ≤ c && c ≤ 0x46)

def unhex (c : UInt8) : UInt8 :=
  if 0x30 ≤ c ∧ c ≤ 0x39 then c - 0x30
  else if 0x61 ≤ c ∧ c ≤ 0x66 then c - 0x61 + 10
  else if 0x41 ≤ c ∧ c ≤ 0x46 then c - 0x41 + 10
  else 0

/-- `none` stands for an `EscapeError`. -/
def queryUnescape : List UInt8 → Option (List UInt8)
  | [] => some []
  | c :: s =>
    if c = 0x25 then
      match s with
      | a :: b :: t =>
        if ishex a && ishex b then
          (queryUnescape t).map (fun bs => (unhex a <<< 4 ||| unhex b) :: bs)
        else none
      | _ => none
    else if c = 0x2b then (queryUnescape s).map (fun bs => 0x20 :: bs)
    else (queryUnescape s).map (fun bs => c :: bs)

theorem queryUnescape_cons (hpercent : c ≠ 0x25) (hplus : c ≠ 0x2b) (s : List UInt8) :
    queryUnescape (c :: s) = (queryUnescape s).map (fun bs => c :: bs) := by
  rw [queryUnescape.eq_def]
  simp only [if_neg hpercent, if_neg hplus]

theorem queryUnescape_escape (ha : ishex a = true) (hb : ishex b = true) (s : List UInt8) :
    queryUnescape (0x25 :: a :: b :: s) =
      (queryUnescape s).map (fun bs => (unhex a <<< 4 ||| unhex b) :: bs) := by
  rw [queryUnescape.eq_def]
  simp only [ha, hb, Bool.and_self, if_true]

/-- The pairs in the order of their `append`, and whether there was an error. -/
def parseQuery (query : List UInt8) : List (List UInt8 × List UInt8) × Bool :=
  match query with
  | [] => ([], false)
  | b :: s =>
    let key := (cut 0x26 (b :: s)).1
    let rest := parseQuery (cut 0x26 (b :: s)).2
    if key.contains 0x3b then (rest.1, true)
    else if key = [] then rest
    else
      match queryUnescape (cut 0x3d key).1, queryUnescape (cut 0x3d key).2 with
      | some name, some value => ((name, value) :: rest.1, rest.2)
      | _, _ => (rest.1, true)
termination_by query.length
decreasing_by exact Nat.lt_succ_of_le (length_cut ..)

/-- `Values.Get`. -/
def get (values : List (List UInt8 × List UInt8)) (key : List UInt8) : List UInt8 :=
  ((values.find? (fun p => p.1 = key)).map Prod.snd).getD []

/-- What stands between two separators of a query. -/
structure Field (name value : List UInt8) : Prop where
  name : 0x26 ∉ name ∧ 0x3b ∉ name ∧ 0x3d ∉ name
  value : 0x26 ∉ value ∧ 0x3b ∉ value

theorem Field.not_mem {name value : List UInt8} (h : Field name value) :
    0x26 ∉ name ++ 0x3d :: value ∧ 0x3b ∉ name ++ 0x3d :: value := by
  obtain ⟨⟨h1, h2, -⟩, h3, h4⟩ := h
  simp [h1, h2, h3, h4]

theorem parseQuery_step {name value : List UInt8} (h : Field name value) (rest : List UInt8)
    (hname : queryUnescape name = some n) (hvalue : queryUnescape value = some v)
    (hcut : cut 0x26 query = (name ++ 0x3d :: value, rest)) :
    parseQuery query = ((n, v) :: (parseQuery rest).1, (parseQuery rest).2) := by
  cases query with
  | nil =>
    have hnil := congrArg Prod.fst hcut
    simp [cut] at hnil
  | cons b s =>
    have hsemi := h.not_mem.2
    rw [parseQuery, hcut]
    simp [hsemi, cut_append h.name.2.2, hname, hvalue]

theorem parseQuery_cons {name value : List UInt8} (h : Field name value) (rest : List UInt8)
    (hname : queryUnescape name = some n) (hvalue : queryUnescape value = some v) :
    parseQuery (name ++ 0x3d :: value ++ 0x26 :: rest) =
      ((n, v) :: (parseQuery rest).1, (parseQuery rest).2) :=
  parseQuery_step h rest hname hvalue (cut_append h.not_mem.1 rest)

theorem parseQuery_last {name value : List UInt8} (h : Field name value)
    (hname : queryUnescape name = some n) (hvalue : queryUnescape value = some v) :
    parseQuery (name ++ 0x3d :: value) = ([(n, v)], false) := by
  rw [parseQuery_step h [] hname hvalue (cut_of_not_mem h.not_mem.1), parseQuery]

/-! Percent encoding with the upper-case digits. -/

def upperhex (n : UInt8) : UInt8 := if n < 10 then 0x30 + n else 0x37 + n

def percentEncodeByte (keep : UInt8 → Bool) (c : UInt8) : List UInt8 :=
  if keep c then [c] else [0x25, upperhex (c >>> 4), upperhex (c &&& 0xf)]

def percentEncode (keep : UInt8 → Bool) (s : List UInt8) : List UInt8 :=
  s.flatMap (percentEncodeByte keep)

theorem escape_byte (c : UInt8) : ishex (upperhex (c >>> 4)) = true ∧
    ishex (upperhex (c &&& 0xf)) = true ∧
    (unhex (upperhex (c >>> 4)) <<< 4 ||| unhex (upperhex (c &&& 0xf))) = c := by
  have hall : ∀ n : Fin 256, ishex (upperhex (UInt8.ofNat n >>> 4)) = true ∧
      ishex (upperhex (UInt8.ofNat n &&& 0xf)) = true ∧
      (unhex (upperhex (UInt8.ofNat n >>> 4)) <<< 4 |||
        unhex (upperhex (UInt8.ofNat n &&& 0xf))) = UInt8.ofNat n := by
    decide +kernel
  simpa using hall ⟨c.toNat, c.toNat_lt⟩

theorem queryUnescape_percentEncode {keep : UInt8 → Bool} (hpercent : keep 0x25 = false)
    (hplus : keep 0x2b = false) (s : List UInt8) :
    queryUnescape (percentEncode keep s) = some s := by
  induction s with
  | nil => rfl
  | cons c s ih =>
    have hcons : percentEncode keep (c :: s) = percentEncodeByte keep c ++ percentEncode keep s :=
      List.flatMap_cons ..
    rw [hcons, percentEncodeByte]
    split_ifs with hc
    · have hne : c ≠ 0x25 ∧ c ≠ 0x2b := by
        constructor <;>
        · rintro rfl
          simp_all
      rw [List.singleton_append, queryUnescape_cons hne.1 hne.2, ih]
      rfl
    · obtain ⟨ha, hb, hvalue⟩ := escape_byte c
      simp only [List.cons_append, List.nil_append]
      rw [queryUnescape_escape ha hb, ih, hvalue]
      rfl

/-- What is escaped stands nowhere, if no digit of an escape. -/
theorem not_mem_percentEncode {keep : UInt8 → Bool} (hc : keep c = false) (hne : c ≠ 0x25)
    (hhex : ishex c = false) (s : List UInt8) : c ∉ percentEncode keep s := by
  intro hmem
  obtain ⟨b, -, hb⟩ := List.mem_flatMap.mp hmem
  rw [percentEncodeByte] at hb
  split_ifs at hb with hk
  · rw [List.mem_singleton] at hb
    rw [hb, hk] at hc
    cases hc
  · obtain ⟨hx, hy, -⟩ := escape_byte b
    simp only [List.mem_cons, List.not_mem_nil, or_false] at hb
    obtain rfl | rfl | rfl := hb
    · exact hne rfl
    · rw [hx] at hhex
      cases hhex
    · rw [hy] at hhex
      cases hhex

end UrlQuery
