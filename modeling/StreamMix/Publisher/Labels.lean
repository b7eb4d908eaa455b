import StreamMix.Lib.Gaps
import StreamMix.Publisher.Slugs
import StreamMix.Wire.Sluggify

/-! One label in the three languages. -/

namespace StreamMix.Publisher

open Wire
open Cpp (dash isSlugChar)
open Kebab (Alike GapsKept join scan trimmed)
open Ts (isSlugUnit)
open Unicode (Scalar encodePoint utf16)

def lowerPoint (p : Nat) : Nat := if 0x41 ≤ p ∧ p ≤ 0x5a then p + 0x20 else p

theorem toNat_lower (c : UInt8) : (lower c).toNat = lowerPoint c.toNat := by
  rw [lower, lowerPoint]
  simp only [UInt8.le_iff_toNat_le, UInt8.reduceToNat]
  split_ifs with h
  · simp only [UInt8.toNat_add, UInt8.reduceToNat]
    omega
  · rfl

theorem isSlugUnit_of_wide (h : 0x80 ≤ p) : isSlugUnit (lowerPoint p) = false := by
  rw [lowerPoint, if_neg (by omega)]
  simp only [isSlugUnit, Bool.or_eq_false_iff, Bool.and_eq_false_iff, decide_eq_false_iff_not]
  omega

/-- A code point that is not ASCII has no byte that is. -/
theorem encodePoint_wide (h : 0x80 ≤ p) (hp : p < 0x110000) :
    ∃ b bs, encodePoint p = b :: bs ∧ ∀ c ∈ b :: bs, 0x80 ≤ c.toNat := by
  have hbyte (n : Nat) (hlow : 0x80 ≤ n) (hhigh : n < 0x100) : 0x80 ≤ (UInt8.ofNat n).toNat := by
    rwa [UInt8.toNat_ofNat_of_lt' (by simpa only [UInt8.size] using hhigh)]
  rw [encodePoint, if_neg (by omega)]
  split_ifs
  · refine ⟨_, _, rfl, ?_⟩
    simp only [List.forall_mem_cons]
    exact ⟨hbyte _ (by omega) (by omega), hbyte _ (by omega) (by omega), by simp⟩
  · refine ⟨_, _, rfl, ?_⟩
    simp only [List.forall_mem_cons]
    exact ⟨hbyte _ (by omega) (by omega), hbyte _ (by omega) (by omega),
      hbyte _ (by omega) (by omega), by simp⟩
  · refine ⟨_, _, rfl, ?_⟩
    simp only [List.forall_mem_cons]
    exact ⟨hbyte _ (by omega) (by omega), hbyte _ (by omega) (by omega),
      hbyte _ (by omega) (by omega), hbyte _ (by omega) (by omega), by simp⟩

/-- The scan of the bytes is that of the code points: the bytes of a wide one count as one
separator. -/
theorem scan_encode {ps : List Nat} (hps : ∀ p ∈ ps, Scalar p) (out : List Nat) (pending : Bool) :
    scan isSlugUnit 0x2d out pending ((Unicode.encode ps).map (fun c => lowerPoint c.toNat)) =
      scan isSlugUnit 0x2d out pending (ps.map lowerPoint) := by
  induction ps generalizing out pending with
  | nil => rfl
  | cons p ps ih =>
    obtain ⟨hp, hps⟩ := List.forall_mem_cons.mp hps
    have ih := ih hps
    have hcons : Unicode.encode (p :: ps) = encodePoint p ++ Unicode.encode ps := rfl
    rw [hcons, List.map_append, List.map_cons]
    by_cases hsmall : p < 0x80
    · have hpoint : encodePoint p = [UInt8.ofNat p] := if_pos hsmall
      have hbyte : (UInt8.ofNat p).toNat = p :=
        UInt8.toNat_ofNat_of_lt' (by simp only [UInt8.size]; omega)
      rw [hpoint, List.map_singleton, hbyte, List.singleton_append]
      simp only [scan, ih]
    · have hwide : 0x80 ≤ p := Nat.le_of_not_lt hsmall
      obtain ⟨b, bs, hpoint, hbytes⟩ := encodePoint_wide hwide hp.1
      obtain ⟨hb, hbs⟩ := List.forall_mem_cons.mp hbytes
      have hseps : ∀ d ∈ bs.map (fun c => lowerPoint c.toNat), isSlugUnit d = false := by
        intro d hd
        obtain ⟨c, hc, rfl⟩ := List.mem_map.mp hd
        exact isSlugUnit_of_wide (hbs c hc)
      rw [hpoint, List.map_cons, Kebab.scan_seps (isSlugUnit_of_wide hb) _ hseps]
      simp [scan, isSlugUnit_of_wide hb, isSlugUnit_of_wide hwide, ih]

theorem slugOf_toNat (hps : ∀ p ∈ ps, Scalar p) :
    (slugOf (Unicode.encode ps)).map UInt8.toNat =
      join 0x2d (Kebab.words isSlugUnit (ps.map lowerPoint)) := by
  have hdash (c : UInt8) : c.toNat = 0x2d ↔ c = dash := UInt8.toNat_inj (b := dash)
  have hscan : scan isSlugUnit 0x2d [] false (((Unicode.encode ps).map lower).map UInt8.toNat) =
      (scan isSlugChar dash [] false ((Unicode.encode ps).map lower)).map UInt8.toNat :=
    Kebab.scan_map isSlugUnit_toNat ((hdash dash).mpr rfl) [] false _
  change (trimmed dash (slugLoop [] false (Unicode.encode ps))).map UInt8.toNat = _
  rw [slugLoop_eq, ← Kebab.trimmed_map hdash, ← hscan, List.map_map]
  simp only [Function.comp_def, toNat_lower]
  rw [scan_encode hps, Kebab.trimmed_scan (by decide)]

/-! What is assumed of the tables of Unicode. -/

/-- The text of a label is what each code point decomposes into, in lower case, up to the order
of what is no ASCII letter or digit. -/
structure Ts.Decomposes (toLowerCase nfkd : List Nat → List Nat) (decomposed : Nat → List Nat) :
    Prop where
  text : ∀ ps, (∀ p ∈ ps, Scalar p) → List.Forall₂ (Alike isSlugUnit)
    (Ts.plain toLowerCase nfkd (utf16 ps)) ((ps.flatMap decomposed).filter (fun u => !Ts.isMark u))
  ascii : ∀ p, isSlugUnit (lowerPoint p) = true → decomposed p = [lowerPoint p]

structure Go.LowersAscii (toLower : Nat → Nat) (isMn : Nat → Bool) : Prop where
  ascii : ∀ p, isSlugUnit (lowerPoint p) = true → toLower p = lowerPoint p
  kept : ∀ p, isSlugUnit p = true → isMn p = false

/-- What a code point of the label leaves in the text that is searched for words. -/
def Ts.left (decomposed : Nat → List Nat) (p : Nat) : List Nat :=
  (decomposed p).filter (fun u => !Ts.isMark u)

def Go.left (toLower : Nat → Nat) (isMn : Nat → Bool) (p : Nat) : List Nat :=
  [toLower p].filter (fun r => !isMn r)

/-- Only ASCII letters and digits leave some, and no two of these come together. -/
structure Harmless (left : Nat → List Nat) (ps : List Nat) : Prop where
  letters : ∀ p ∈ ps, isSlugUnit (lowerPoint p) = false → ∀ c ∈ left p, isSlugUnit c = false
  gaps : GapsKept isSlugUnit lowerPoint left ps

theorem harmless_iff (hascii : ∀ p, isSlugUnit (lowerPoint p) = true → left p = [lowerPoint p])
    (ps : List Nat) :
    join 0x2d (Kebab.words isSlugUnit (ps.flatMap left)) =
      join 0x2d (Kebab.words isSlugUnit (ps.map lowerPoint)) ↔ Harmless left ps := by
  rw [Kebab.join_words_flatMap (by decide) ps (fun p _ => hascii p)]
  constructor
  · rintro ⟨hletters, hgaps⟩
    exact ⟨hletters, hgaps⟩
  · rintro ⟨hletters, hgaps⟩
    exact ⟨hletters, hgaps⟩

theorem harmless_of_kept (h : ∀ p ∈ ps, left p = [lowerPoint p]) : Harmless left ps where
  letters := by
    intro p hp hletter c hc
    rw [h p hp, List.mem_singleton] at hc
    rwa [hc]
  gaps := by
    intro a ms b hin _ _ hne
    obtain ⟨m, ms, rfl⟩ := List.exists_cons_of_ne_nil hne
    have hm : m ∈ ps := hin.mem (by simp)
    refine ⟨m, List.mem_cons_self, ?_⟩
    rw [h m hm]
    exact List.cons_ne_nil _ _

theorem isMark_of_isSlugUnit (h : isSlugUnit u = true) : Ts.isMark u = false := by
  simp only [isSlugUnit, Ts.isMark, Bool.or_eq_true, Bool.and_eq_true, decide_eq_true_eq,
    Bool.and_eq_false_iff, decide_eq_false_iff_not] at h ⊢
  omega

theorem Ts.sluggify_agrees_iff (h : Ts.Decomposes toLowerCase nfkd decomposed)
    (hps : ∀ p ∈ ps, Scalar p) :
    Ts.sluggify toLowerCase nfkd (utf16 ps) = (slugOf (Unicode.encode ps)).map UInt8.toNat ↔
      Harmless (Ts.left decomposed) ps := by
  have hascii (p : Nat) (hp : isSlugUnit (lowerPoint p) = true) :
      Ts.left decomposed p = [lowerPoint p] := by
    rw [Ts.left, h.ascii p hp]
    simp [isMark_of_isSlugUnit hp]
  rw [Ts.sluggify_eq, slugOf_toNat hps, Kebab.join_words_alike (h.text ps hps),
    List.filter_flatMap]
  exact harmless_iff hascii ps

theorem Go.sluggify_agrees_iff (h : Go.LowersAscii toLower isMn) (hps : ∀ p ∈ ps, Scalar p) :
    Go.sluggify toLower isMn (Unicode.encode ps) = slugOf (Unicode.encode ps) ↔
      Harmless (Go.left toLower isMn) ps := by
  have hascii (p : Nat) (hp : isSlugUnit (lowerPoint p) = true) :
      Go.left toLower isMn p = [lowerPoint p] := by
    rw [Go.left, h.ascii p hp]
    simp [h.kept _ hp]
  have hplain : Go.plain toLower isMn (Unicode.encode ps) = ps.flatMap (Go.left toLower isMn) := by
    rw [Go.plain, GoJson.runes_encode hps, List.map_map, List.map_eq_flatMap, List.filter_flatMap]
    rfl
  have hinj : Function.Injective (List.map UInt8.toNat) :=
    List.map_injective_iff.mpr (fun _ _ => UInt8.toNat_inj.mp)
  rw [← hinj.eq_iff, Go.sluggify_toNat, slugOf_toNat hps, hplain]
  exact harmless_iff hascii ps

/-- A label of which every code point at most changes its case, an ASCII label say, has one
slug. -/
theorem slugs_agree_of_kept (hts : Ts.Decomposes toLowerCase nfkd decomposed)
    (hgo : Go.LowersAscii toLower isMn) (hps : ∀ p ∈ ps, Scalar p)
    (hleft : ∀ p ∈ ps, Ts.left decomposed p = [lowerPoint p])
    (hleft' : ∀ p ∈ ps, Go.left toLower isMn p = [lowerPoint p]) :
    Ts.sluggify toLowerCase nfkd (utf16 ps) = (slugOf (Unicode.encode ps)).map UInt8.toNat ∧
      Go.sluggify toLower isMn (Unicode.encode ps) = slugOf (Unicode.encode ps) :=
  ⟨(Ts.sluggify_agrees_iff hts hps).mpr (harmless_of_kept hleft),
    (Go.sluggify_agrees_iff hgo hps).mpr (harmless_of_kept hleft')⟩

/-! The tables as far as these labels need them. -/

def lowerUnits (s : List Nat) : List Nat := s.map lowerPoint

def splitUmlaut (u : Nat) : List Nat := if u = 0xfc then [0x75, 0x308] else [u]

def splitUnits (s : List Nat) : List Nat := s.flatMap splitUmlaut

def splitPoint (p : Nat) : List Nat := splitUnits (lowerUnits (Unicode.units p))

theorem decomposes_split : Ts.Decomposes lowerUnits splitUnits splitPoint where
  text := by
    intro ps _
    have hpoints : splitUnits (lowerUnits (utf16 ps)) = ps.flatMap splitPoint := by
      rw [splitUnits, lowerUnits, utf16, List.map_flatMap, List.flatMap_assoc]
      rfl
    rw [Ts.plain, hpoints, List.forall₂_same]
    intro u _
    exact .inl rfl
  ascii := by
    intro p hp
    have hsmall : p < 0x80 := by
      by_contra hwide
      rw [isSlugUnit_of_wide (Nat.le_of_not_lt hwide)] at hp
      cases hp
    have hunit : lowerPoint p ≠ 0xfc := by
      intro h
      rw [h] at hp
      cases hp
    rw [splitPoint, Unicode.units, if_pos (by omega), lowerUnits, List.map_singleton, splitUnits,
      List.flatMap_singleton, splitUmlaut, if_neg hunit]

theorem lowersAscii_lowerPoint : Go.LowersAscii lowerPoint Ts.isMark where
  ascii _ _ := rfl
  kept _ := isMark_of_isSlugUnit

def myMic : List Nat := Ts.units "My Mic"

/-- A label has one slug in the three languages if normalisation does it no harm. -/
theorem slugs_agree_iff (hts : Ts.Decomposes toLowerCase nfkd decomposed)
    (hgo : Go.LowersAscii toLower isMn) (hps : ∀ p ∈ ps, Scalar p) :
    (Ts.sluggify toLowerCase nfkd (utf16 ps) = (slugOf (Unicode.encode ps)).map UInt8.toNat ∧
      Go.sluggify toLower isMn (Unicode.encode ps) = slugOf (Unicode.encode ps)) ↔
    Harmless (Ts.left decomposed) ps ∧ Harmless (Go.left toLower isMn) ps := by
  rw [Ts.sluggify_agrees_iff hts hps, Go.sluggify_agrees_iff hgo hps]

theorem harmless_myMic :
    Harmless (Ts.left splitPoint) myMic ∧ Harmless (Go.left lowerPoint Ts.isMark) myMic :=
  (slugs_agree_iff decomposes_split lowersAscii_lowerPoint (by unfold Scalar; decide)).mp
    (by decide)

/-- U+00FC, and u with a diaeresis of its own. -/
def muzik : List Nat := [0x4d, 0xfc, 0x7a, 0x69, 0x6b]

def muzikMarked : List Nat := [0x4d, 0x75, 0x308, 0x7a, 0x69, 0x6b]

/-- Three slugs of one word. -/
theorem slugs_muzik :
    (Ts.sluggify lowerUnits splitUnits (utf16 muzik) = Ts.units "muzik" ∧
      Go.sluggify lowerPoint Ts.isMark (Unicode.encode muzik) = ascii "m-zik" ∧
      slugOf (Unicode.encode muzik) = ascii "m-zik") ∧
    (Ts.sluggify lowerUnits splitUnits (utf16 muzikMarked) = Ts.units "muzik" ∧
      Go.sluggify lowerPoint Ts.isMark (Unicode.encode muzikMarked) = ascii "muzik" ∧
      slugOf (Unicode.encode muzikMarked) = ascii "mu-zik") ∧
    ∀ ps ∈ [muzik, muzikMarked],
      ¬ (Ts.sluggify lowerUnits splitUnits (utf16 ps) =
          (slugOf (Unicode.encode ps)).map UInt8.toNat ∧
        Go.sluggify lowerPoint Ts.isMark (Unicode.encode ps) = slugOf (Unicode.encode ps)) := by
  decide

end StreamMix.Publisher
