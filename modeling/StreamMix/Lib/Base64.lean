import Mathlib.Data.List.Basic

/-! Base64 with the URL alphabet and without padding, and with the standard alphabet and
padding.  The decoders are the lenient ones: they skip line ends anywhere and ignore the
bits that do not fill a byte. -/

namespace Base64

def encodeDigit (n : Nat) : UInt8 :=
  if n < 26 then UInt8.ofNat (0x41 + n)
  else if n < 52 then UInt8.ofNat (0x61 + (n - 26))
  else if n < 62 then UInt8.ofNat (0x30 + (n - 52))
  else if n = 62 then 0x2d
  else 0x5f

def decodeDigit (c : UInt8) : Option Nat :=
  if 0x41 ≤ c ∧ c ≤ 0x5a then some (c.toNat - 0x41)
  else if 0x61 ≤ c ∧ c ≤ 0x7a then some (c.toNat - 0x61 + 26)
  else if 0x30 ≤ c ∧ c ≤ 0x39 then some (c.toNat - 0x30 + 52)
  else if c = 0x2d then some 62
  else if c = 0x5f then some 63
  else none

def isNewline (c : UInt8) : Bool := c == 0x0a || c == 0x0d

def digits : List UInt8 → List Nat
  | a :: b :: c :: rest =>
    let v := a.toNat * 65536 + b.toNat * 256 + c.toNat
    v / 262144 :: v / 4096 % 64 :: v / 64 % 64 :: v % 64 :: digits rest
  | [a, b] =>
    let v := a.toNat * 65536 + b.toNat * 256
    [v / 262144, v / 4096 % 64, v / 64 % 64]
  | [a] =>
    let v := a.toNat * 65536
    [v / 262144, v / 4096 % 64]
  | [] => []

def encode (bs : List UInt8) : List UInt8 := (digits bs).map encodeDigit

/-- The bytes of the quanta; a lone digit at the end is an error. -/
def ofDigits : List Nat → Option (List UInt8)
  | a :: b :: c :: d :: rest =>
    let v := a * 262144 + b * 4096 + c * 64 + d
    (ofDigits rest).map (fun bs =>
      UInt8.ofNat (v / 65536) :: UInt8.ofNat (v / 256) :: UInt8.ofNat v :: bs)
  | [a, b, c] =>
    let v := a * 262144 + b * 4096 + c * 64
    some [UInt8.ofNat (v / 65536), UInt8.ofNat (v / 256)]
  | [a, b] => some [UInt8.ofNat ((a * 262144 + b * 4096) / 65536)]
  | [_] => none
  | [] => some []

def decode (s : List UInt8) : Option (List UInt8) :=
  ((s.filter (fun c => !isNewline c)).mapM decodeDigit).bind ofDigits

theorem decodeDigit_encodeDigit (h : n < 64) : decodeDigit (encodeDigit n) = some n := by
  have hall : ∀ n : Fin 64, decodeDigit (encodeDigit n) = some n.val := by decide
  exact hall ⟨n, h⟩

theorem isNewline_encodeDigit (h : n < 64) : isNewline (encodeDigit n) = false := by
  have hall : ∀ n : Fin 64, isNewline (encodeDigit n) = false := by decide
  exact hall ⟨n, h⟩

theorem digits_lt (bs : List UInt8) : ∀ n ∈ digits bs, n < 64 := by
  induction bs using digits.induct with
  | case1 a b c rest ih =>
    have ha := a.toNat_lt
    have hb := b.toNat_lt
    have hc := c.toNat_lt
    simp only [digits, List.forall_mem_cons]
    refine ⟨?_, ?_, ?_, ?_, ih⟩ <;> omega
  | case2 a b =>
    have ha := a.toNat_lt
    have hb := b.toNat_lt
    simp only [digits, List.forall_mem_cons]
    refine ⟨?_, ?_, ?_, by simp⟩ <;> omega
  | case3 a =>
    have ha := a.toNat_lt
    simp only [digits, List.forall_mem_cons]
    refine ⟨?_, ?_, by simp⟩ <;> omega
  | case4 => simp [digits]

theorem ofDigits_digits (bs : List UInt8) : ofDigits (digits bs) = some bs := by
  have hbyte (n : Nat) (a : UInt8) (h : n % 256 = a.toNat) : UInt8.ofNat n = a := by
    apply UInt8.toNat_inj.mp
    rw [UInt8.toNat_ofNat', h]
  induction bs using digits.induct with
  | case1 a b c rest ih =>
    have ha := a.toNat_lt
    have hb := b.toNat_lt
    have hc := c.toNat_lt
    simp only [digits, ofDigits, ih, Option.map_some]
    rw [hbyte _ a (by omega), hbyte _ b (by omega), hbyte _ c (by omega)]
  | case2 a b =>
    have ha := a.toNat_lt
    have hb := b.toNat_lt
    simp only [digits, ofDigits]
    rw [hbyte _ a (by omega), hbyte _ b (by omega)]
  | case3 a =>
    have ha := a.toNat_lt
    simp only [digits, ofDigits]
    rw [hbyte _ a (by omega)]
  | case4 => rfl

theorem mapM_decodeDigit (ds : List Nat) (h : ∀ n ∈ ds, n < 64) :
    (ds.map encodeDigit).mapM decodeDigit = some ds := by
  induction ds with
  | nil => rfl
  | cons d ds ih =>
    rw [List.forall_mem_cons] at h
    simp [List.mapM_cons, decodeDigit_encodeDigit h.1, ih h.2]

theorem decode_encode (bs : List UInt8) : decode (encode bs) = some bs := by
  have hkeep : (encode bs).filter (fun c => !isNewline c) = encode bs := by
    apply List.filter_eq_self.mpr
    intro c hc
    obtain ⟨d, hd, rfl⟩ := List.mem_map.mp hc
    rw [isNewline_encodeDigit (digits_lt bs d hd)]
    rfl
  rw [decode, hkeep, encode, mapM_decodeDigit _ (digits_lt bs)]
  exact ofDigits_digits bs

theorem length_digits (bs : List UInt8) : (digits bs).length = (4 * bs.length + 2) / 3 := by
  induction bs using digits.induct with
  | case1 a b c rest ih =>
    simp only [digits, List.length_cons, ih]
    omega
  | case2 a b => simp [digits]
  | case3 a => simp [digits]
  | case4 => rfl

theorem length_encode (bs : List UInt8) : (encode bs).length = (4 * bs.length + 2) / 3 := by
  rw [encode, List.length_map, length_digits]

/-- A byte that is no digit does not occur in an encoding. -/
theorem not_mem_encode (bs : List UInt8) (h : decodeDigit c = none) : c ∉ encode bs := by
  intro hc
  obtain ⟨d, hd, rfl⟩ := List.mem_map.mp hc
  rw [decodeDigit_encodeDigit (digits_lt bs d hd)] at h
  cases h

/-! The standard alphabet. -/

def encodeStdDigit (n : Nat) : UInt8 :=
  if n = 62 then 0x2b else if n = 63 then 0x2f else encodeDigit n

def decodeStdDigit (c : UInt8) : Option Nat :=
  if c = 0x2b then some 62
  else if c = 0x2f then some 63
  else (decodeDigit c).filter (fun n => n < 62)

def pad : UInt8 := 0x3d

def encodeStd (bs : List UInt8) : List UInt8 :=
  (digits bs).map encodeStdDigit ++ List.replicate ((3 - bs.length % 3) % 3) pad

/-- The last quantum is filled up with one or two pads, and nothing follows them. -/
def decodeStd (s : List UInt8) : Option (List UInt8) :=
  let t := s.filter (fun c => !isNewline c)
  let ds := t.takeWhile (fun c => c != pad)
  let ps := t.dropWhile (fun c => c != pad)
  if t.length % 4 = 0 ∧ ps.length ≤ 2 ∧ ps.all (fun c => c == pad) then
    (ds.mapM decodeStdDigit).bind ofDigits
  else none

theorem stdDigit_spec (h : n < 64) : decodeStdDigit (encodeStdDigit n) = some n ∧
    isNewline (encodeStdDigit n) = false ∧ encodeStdDigit n ≠ pad := by
  have hall : ∀ n : Fin 64, decodeStdDigit (encodeStdDigit n) = some n.val ∧
      isNewline (encodeStdDigit n) = false ∧ encodeStdDigit n ≠ pad := by
    decide
  exact hall ⟨n, h⟩

/-- A text in the standard alphabet may stand between quotes as it is. -/
theorem encodeStd_range (bs : List UInt8) :
    ∀ c ∈ encodeStd bs, 0x2b ≤ c.toNat ∧ c.toNat < 0x80 ∧ c.toNat ≠ 0x5c := by
  have hall : ∀ n : Fin 64, 0x2b ≤ (encodeStdDigit n).toNat ∧ (encodeStdDigit n).toNat < 0x80 ∧
      (encodeStdDigit n).toNat ≠ 0x5c := by
    decide
  intro c hc
  obtain hc | hc := List.mem_append.mp hc
  · obtain ⟨d, hd, rfl⟩ := List.mem_map.mp hc
    exact hall ⟨d, digits_lt bs d hd⟩
  · rw [(List.mem_replicate.mp hc).2]
    decide

theorem mapM_decodeStdDigit (ds : List Nat) (h : ∀ n ∈ ds, n < 64) :
    (ds.map encodeStdDigit).mapM decodeStdDigit = some ds := by
  induction ds with
  | nil => rfl
  | cons d ds ih =>
    rw [List.forall_mem_cons] at h
    simp [List.mapM_cons, (stdDigit_spec h.1).1, ih h.2]

theorem length_encodeStd (bs : List UInt8) : (encodeStd bs).length = (bs.length + 2) / 3 * 4 := by
  rw [encodeStd, List.length_append, List.length_map, length_digits, List.length_replicate]
  have hmod : bs.length % 3 = 0 ∨ bs.length % 3 = 1 ∨ bs.length % 3 = 2 := by omega
  obtain h | h | h := hmod <;> rw [h] <;> omega

theorem decodeStd_encodeStd (bs : List UInt8) : decodeStd (encodeStd bs) = some bs := by
  have hdigit : ∀ c ∈ (digits bs).map encodeStdDigit, isNewline c = false ∧ c ≠ pad := by
    intro c hc
    obtain ⟨d, hd, rfl⟩ := List.mem_map.mp hc
    exact (stdDigit_spec (digits_lt bs d hd)).2
  have hkeep : (encodeStd bs).filter (fun c => !isNewline c) = encodeStd bs := by
    apply List.filter_eq_self.mpr
    intro c hc
    obtain hc | hc := List.mem_append.mp hc
    · rw [(hdigit c hc).1]
      rfl
    · rw [(List.mem_replicate.mp hc).2]
      rfl
  have hdigits : ∀ c ∈ (digits bs).map encodeStdDigit, (c != pad) = true :=
    fun c hc => bne_iff_ne.mpr (hdigit c hc).2
  have hpads : (List.replicate ((3 - bs.length % 3) % 3) pad).takeWhile (fun c => c != pad) = [] ∧
      (List.replicate ((3 - bs.length % 3) % 3) pad).dropWhile (fun c => c != pad) =
        List.replicate ((3 - bs.length % 3) % 3) pad := by
    cases (3 - bs.length % 3) % 3 <;> exact ⟨rfl, rfl⟩
  have htake : (encodeStd bs).takeWhile (fun c => c != pad) = (digits bs).map encodeStdDigit := by
    rw [encodeStd, List.takeWhile_append_of_pos hdigits, hpads.1, List.append_nil]
  have hdrop : (encodeStd bs).dropWhile (fun c => c != pad) =
      List.replicate ((3 - bs.length % 3) % 3) pad := by
    rw [encodeStd, List.dropWhile_append_of_pos hdigits, hpads.2]
  have hlen : (encodeStd bs).length % 4 = 0 := by
    rw [length_encodeStd, Nat.mul_mod_left]
  simp only [decodeStd, hkeep, htake, hdrop]
  rw [if_pos ⟨hlen, by simp; omega, by simp⟩, mapM_decodeStdDigit _ (digits_lt bs)]
  exact ofDigits_digits bs

end Base64
