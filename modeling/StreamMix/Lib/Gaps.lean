import StreamMix.Lib.Kebab

/-! Words of a text that was rewritten symbol by symbol: letters are kept, and anything else
may vanish or grow. -/

namespace Kebab

variable {α : Type u} {β : Type v} {letter : α → Bool} {sep : α} {g : β → α} {f : β → List α}

theorem rest_true_append (s : List α) (hs : ∀ c ∈ s, letter c = false) (t : List α) :
    rest letter sep true (s ++ t) = rest letter sep true t := by
  induction s with
  | nil => rfl
  | cons c s ih =>
    obtain ⟨hc, hs⟩ := List.forall_mem_cons.mp hs
    simp [rest, hc, ih hs]

theorem rest_false_append (s : List α) (hs : ∀ c ∈ s, letter c = false) (hne : s ≠ [])
    (t : List α) : rest letter sep false (s ++ t) = rest letter sep true t := by
  cases s with
  | nil => exact absurd rfl hne
  | cons c s =>
    obtain ⟨hc, hs⟩ := List.forall_mem_cons.mp hs
    simp [rest, hc, rest_true_append s hs]

theorem written_append (s : List α) (hs : ∀ c ∈ s, letter c = false) (t : List α) :
    written letter sep (s ++ t) = written letter sep t := by
  induction s with
  | nil => rfl
  | cons c s ih =>
    obtain ⟨hc, hs⟩ := List.forall_mem_cons.mp hs
    simp [written, hc, ih hs]

/-! Symbols that are no letters count as one. -/

def Alike (letter : α → Bool) (c d : α) : Prop := c = d ∨ letter c = false ∧ letter d = false

theorem Alike.letter_eq (h : Alike letter c d) : letter c = letter d := by
  cases h with
  | inl h => rw [h]
  | inr h => rw [h.1, h.2]

theorem Alike.eq (h : Alike letter c d) (hd : letter d = true) : c = d := by
  cases h with
  | inl h => exact h
  | inr h =>
    rw [h.2] at hd
    cases hd

theorem rest_alike (h : List.Forall₂ (Alike letter) s t) (due : Bool) :
    rest letter sep due s = rest letter sep due t := by
  induction h generalizing due with
  | nil => rfl
  | @cons c d s t hcd _ ih =>
    simp only [rest, hcd.letter_eq, ih]
    split_ifs with hd
    · rw [hcd.eq hd]
    · rw [hcd.eq hd]
    · rfl

theorem written_alike (h : List.Forall₂ (Alike letter) s t) :
    written letter sep s = written letter sep t := by
  induction h with
  | nil => rfl
  | @cons c d s t hcd h ih =>
    simp only [written, hcd.letter_eq, ih, rest_alike h]
    split_ifs with hd
    · rw [hcd.eq hd]
    · rfl

theorem join_words_alike (h : List.Forall₂ (Alike letter) s t) :
    join sep (words letter s) = join sep (words letter t) := by
  rw [join_words_eq, join_words_eq, written_alike h]

/-! The letters of a text are those of its words. -/

theorem countP_rest (hsep : letter sep = false) (s : List α) (due : Bool) :
    (rest letter sep due s).countP letter = s.countP letter := by
  induction s generalizing due with
  | nil => rfl
  | cons c s ih =>
    rw [rest]
    cases hc : letter c with
    | true => cases due <;> simp [hc, hsep, ih]
    | false => simp [hc, ih]

theorem countP_written (hsep : letter sep = false) (s : List α) :
    (written letter sep s).countP letter = s.countP letter := by
  induction s with
  | nil => rfl
  | cons c s ih =>
    rw [written]
    cases hc : letter c with
    | true => simp [hc, countP_rest hsep]
    | false => simp [hc, ih]

/-- If letters are kept, there are no fewer, and as many only if nothing else leaves one. -/
theorem countP_flatMap {ps : List β} (hf : ∀ p ∈ ps, letter (g p) = true → f p = [g p]) :
    (ps.map g).countP letter ≤ (ps.flatMap f).countP letter ∧
      ((ps.flatMap f).countP letter = (ps.map g).countP letter →
        ∀ p ∈ ps, letter (g p) = false → ∀ c ∈ f p, letter c = false) := by
  induction ps with
  | nil => simp
  | cons p ps ih =>
    obtain ⟨hp, hps⟩ := List.forall_mem_cons.mp hf
    obtain ⟨hle, heq⟩ := ih hps
    rw [List.flatMap_cons, List.map_cons, List.countP_append, List.countP_cons,
      List.forall_mem_cons]
    cases hg : letter (g p) with
    | true =>
      rw [hp hg, List.countP_singleton, hg, if_pos rfl]
      refine ⟨by omega, ?_⟩
      intro hcount
      exact ⟨by simp, heq (by omega)⟩
    | false =>
      rw [if_neg (by simp)]
      refine ⟨by omega, ?_⟩
      intro hcount
      have hzero : (f p).countP letter = 0 := by omega
      refine ⟨fun _ c hc => ?_, heq (by omega)⟩
      exact eq_false_of_ne_true (List.countP_eq_zero.mp hzero c hc)

/-! Gaps. -/

/-- In front of the next letter something is left, if there is anything (`wide` says that there
was something before). -/
def GapKept (letter : α → Bool) (g : β → α) (f : β → List α) (wide : Bool) (ps : List β) : Prop :=
  ∀ ms b, ms ++ [b] <+: ps → letter (g b) = true → wide = true ∨ ms ≠ [] → ∃ m ∈ ms, f m ≠ []

/-- Between two letters something is left, if there is anything. -/
def GapsKept (letter : α → Bool) (g : β → α) (f : β → List α) (ps : List β) : Prop :=
  ∀ a ms b, a :: (ms ++ [b]) <:+: ps → letter (g a) = true → letter (g b) = true → ms ≠ [] →
    ∃ m ∈ ms, f m ≠ []

theorem gapsKept_cons (p : β) (ps : List β) :
    GapsKept letter g f (p :: ps) ↔
      (letter (g p) = true → GapKept letter g f false ps) ∧ GapsKept letter g f ps := by
  simp only [GapsKept, GapKept, List.infix_cons_iff, List.cons_prefix_cons]
  constructor
  · intro h
    constructor
    · intro hp ms b hpre hb hne
      exact h p ms b (.inl ⟨rfl, hpre⟩) hp hb (hne.resolve_left Bool.false_ne_true)
    · intro a ms b hin
      exact h a ms b (.inr hin)
  · rintro ⟨hgap, hgaps⟩ a ms b (⟨rfl, hpre⟩ | hin) ha hb hne
    · exact hgap ha ms b hpre hb (.inr hne)
    · exact hgaps a ms b hin ha hb hne

theorem gapKept_left (hp : f p ≠ []) (hwide : letter (g p) = true → wide = false) (ps : List β) :
    GapKept letter g f wide (p :: ps) := by
  intro ms b hpre hb hne
  cases ms with
  | nil =>
    obtain ⟨rfl, -⟩ := List.cons_prefix_cons.mp hpre
    rw [hwide hb] at hne
    simp at hne
  | cons m ms =>
    obtain ⟨rfl, -⟩ := List.cons_prefix_cons.mp hpre
    exact ⟨m, List.mem_cons_self, hp⟩

theorem not_gapKept (hp : letter (g p) = true) (ps : List β) :
    ¬ GapKept letter g f true (p :: ps) := by
  intro h
  obtain ⟨m, hm, -⟩ := h [] p (by simp) hp (.inl rfl)
  cases hm

theorem gapKept_gone (hp : f p = []) (hletter : letter (g p) = false) (ps : List β) :
    GapKept letter g f wide (p :: ps) ↔ GapKept letter g f true ps := by
  constructor
  · intro h ms b hpre hb _
    obtain ⟨m, hm, hleft⟩ := h (p :: ms) b (List.cons_prefix_cons.mpr ⟨rfl, hpre⟩) hb
      (.inr (List.cons_ne_nil _ _))
    cases hm with
    | head => exact absurd hp hleft
    | tail _ hm => exact ⟨m, hm, hleft⟩
  · intro h ms b hpre hb _
    cases ms with
    | nil =>
      obtain ⟨rfl, -⟩ := List.cons_prefix_cons.mp hpre
      rw [hletter] at hb
      cases hb
    | cons m ms =>
      obtain ⟨rfl, htail⟩ := List.cons_prefix_cons.mp hpre
      obtain ⟨m', hm', hleft⟩ := h ms b htail hb (.inl rfl)
      exact ⟨m', .tail _ hm', hleft⟩

theorem rest_flatMap (hsep : letter sep = false) (ps : List β)
    (hf : ∀ p ∈ ps, letter (g p) = true → f p = [g p])
    (hg : ∀ p ∈ ps, letter (g p) = false → ∀ c ∈ f p, letter c = false) :
    (∀ wide, rest letter sep false (ps.flatMap f) = rest letter sep wide (ps.map g) ↔
        GapKept letter g f wide ps ∧ GapsKept letter g f ps) ∧
      (rest letter sep true (ps.flatMap f) = rest letter sep true (ps.map g) ↔
        GapsKept letter g f ps) := by
  induction ps with
  | nil => simp [rest, GapKept, GapsKept]
  | cons p ps ih =>
    obtain ⟨hfp, hf⟩ := List.forall_mem_cons.mp hf
    obtain ⟨hgp, hg⟩ := List.forall_mem_cons.mp hg
    obtain ⟨hinside, hdue⟩ := ih hf hg
    rw [List.flatMap_cons, List.map_cons, gapsKept_cons]
    cases hp : letter (g p) with
    | true =>
      have hfp := hfp hp
      have hkept : GapKept letter g f false (p :: ps) :=
        gapKept_left (hfp ▸ List.cons_ne_nil (g p) []) (fun _ => rfl) ps
      have hword := hinside false
      rw [hfp]
      constructor
      · intro wide
        cases wide with
        | true =>
          have hne : g p ≠ sep := by
            rintro rfl
            rw [hsep] at hp
            cases hp
          simp [rest, hp, hne, not_gapKept hp]
        | false => simp [rest, hp, hword, hkept]
      · simp [rest, hp, hword]
    | false =>
      have hgp := hgp hp
      by_cases hgone : f p = []
      · simp [rest, hp, hgone, hinside, hdue, gapKept_gone hgone hp]
      · have hkept (wide : Bool) : GapKept letter g f wide (p :: ps) :=
          gapKept_left hgone (by simp [hp]) ps
        simp [rest, hp, rest_false_append _ hgp hgone, rest_true_append _ hgp, hdue, hkept]

theorem written_flatMap (hsep : letter sep = false) (ps : List β)
    (hf : ∀ p ∈ ps, letter (g p) = true → f p = [g p])
    (hg : ∀ p ∈ ps, letter (g p) = false → ∀ c ∈ f p, letter c = false) :
    written letter sep (ps.flatMap f) = written letter sep (ps.map g) ↔
      GapsKept letter g f ps := by
  induction ps with
  | nil => simp [written, GapsKept]
  | cons p ps ih =>
    obtain ⟨hfp, hf⟩ := List.forall_mem_cons.mp hf
    obtain ⟨hgp, hg⟩ := List.forall_mem_cons.mp hg
    rw [List.flatMap_cons, List.map_cons, gapsKept_cons]
    cases hp : letter (g p) with
    | true =>
      have hword := (rest_flatMap hsep ps hf hg).1 false
      rw [hfp hp]
      simp [written, hp, hword]
    | false =>
      have hword := ih hf hg
      rw [written_append _ (hgp hp)]
      simp [written, hp, hword]

/-- A text that keeps its letters has the same words if nothing else leaves a letter, and no two
letters come together. -/
theorem join_words_flatMap (hsep : letter sep = false) (ps : List β)
    (hf : ∀ p ∈ ps, letter (g p) = true → f p = [g p]) :
    join sep (words letter (ps.flatMap f)) = join sep (words letter (ps.map g)) ↔
      (∀ p ∈ ps, letter (g p) = false → ∀ c ∈ f p, letter c = false) ∧
        GapsKept letter g f ps := by
  rw [join_words_eq, join_words_eq]
  constructor
  · intro h
    have hcount := congrArg (List.countP letter) h
    rw [countP_written hsep, countP_written hsep] at hcount
    have hg := (countP_flatMap hf).2 hcount
    exact ⟨hg, (written_flatMap hsep ps hf hg).mp h⟩
  · rintro ⟨hg, hgaps⟩
    exact (written_flatMap hsep ps hf hg).mpr hgaps

end Kebab
