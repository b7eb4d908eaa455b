import Mathlib.Computability.Language
import Mathlib.Tactic.SplitIfs

/-! Words of letters with one separator between neighbours: as a regular expression, as an
automaton, and as what a scan makes of any text. -/

namespace Kebab

open Computability

variable {α : Type u} {letter : α → Bool} {sep : α}

/-- The strings of one symbol out of a class. -/
def symbol (p : α → Bool) : Language α := {w | ∃ c, p c = true ∧ w = [c]}

/-- `l+`. -/
def plus (l : Language α) : Language α := l * l∗

theorem nil_mem_symbol_mul (p : α → Bool) (l : Language α) : [] ∉ symbol p * l := by
  intro h
  obtain ⟨w, ⟨c, -, rfl⟩, v, -, heq⟩ := Language.mem_mul.mp h
  cases heq

theorem cons_mem_symbol_mul (p : α → Bool) (l : Language α) :
    c :: s ∈ symbol p * l ↔ p c = true ∧ s ∈ l := by
  rw [Language.mem_mul]
  constructor
  · rintro ⟨w, ⟨d, hd, rfl⟩, v, hv, heq⟩
    cases heq
    exact ⟨hd, hv⟩
  · rintro ⟨hc, hs⟩
    exact ⟨[c], ⟨c, hc, rfl⟩, s, hs, rfl⟩

theorem kstar_mul (l m : Language α) : l∗ * m = m + l * (l∗ * m) := by
  conv_lhs => rw [← Language.one_add_self_mul_kstar_eq_kstar l]
  rw [add_mul, one_mul, mul_assoc]

theorem mem_kstar_symbol {p : α → Bool} (hw : ∀ c ∈ w, p c = true) : w ∈ (symbol p)∗ := by
  induction w with
  | nil => exact Language.nil_mem_kstar _
  | cons c w ih =>
    obtain ⟨hc, hw⟩ := List.forall_mem_cons.mp hw
    rw [← Language.one_add_self_mul_kstar_eq_kstar]
    exact .inr ((cons_mem_symbol_mul p _).mpr ⟨hc, ih hw⟩)

theorem mem_plus_symbol {p : α → Bool} (hw : ∀ c ∈ w, p c = true) (hne : w ≠ []) :
    w ∈ plus (symbol p) := by
  cases w with
  | nil => exact absurd rfl hne
  | cons c w =>
    obtain ⟨hc, hw⟩ := List.forall_mem_cons.mp hw
    exact (cons_mem_symbol_mul p _).mpr ⟨hc, mem_kstar_symbol hw⟩

/-! The words of a text. -/

/-- The runs between the symbols that are no letters; neighbours of these have an empty run
between them. -/
def runs (letter : α → Bool) (s : List α) : List (List α) := s.splitOnP (fun c => !letter c)

def words (letter : α → Bool) (s : List α) : List (List α) :=
  (runs letter s).filter (fun w => !w.isEmpty)

def join (sep : α) (ws : List (List α)) : List α := [sep].intercalate ws

theorem runs_cons (c : α) (s : List α) : runs letter (c :: s) =
    if letter c then (runs letter s).modifyHead (c :: ·) else [] :: runs letter s := by
  rw [runs, List.splitOnP_cons_eq_if_modifyHead, runs]
  cases letter c <;> rfl

theorem exists_runs (letter : α → Bool) (s : List α) : ∃ w ws, runs letter s = w :: ws :=
  List.exists_cons_of_ne_nil (List.splitOnP_ne_nil _ _)

theorem letter_of_mem_runs (s : List α) : ∀ w ∈ runs letter s, ∀ c ∈ w, letter c = true := by
  induction s with
  | nil => simp [runs]
  | cons c s ih =>
    obtain ⟨v, vs, hruns⟩ := exists_runs letter s
    rw [hruns, List.forall_mem_cons] at ih
    rw [runs_cons, hruns]
    cases hc : letter c with
    | true => simpa [hc] using ih
    | false => simpa using ih

theorem letter_of_mem_words (hw : w ∈ words letter s) : ∀ c ∈ w, letter c = true :=
  letter_of_mem_runs s w (List.mem_of_mem_filter hw)

theorem ne_nil_of_mem_words (hw : w ∈ words letter s) : w ≠ [] := by
  have hne := (List.mem_filter.mp hw).2
  rintro rfl
  cases hne

theorem words_append (hc : letter c = false) (s t : List α) :
    words letter (s ++ c :: t) = words letter s ++ words letter t := by
  rw [words, runs, List.splitOnP_append_cons s t (by simp [hc]), List.filter_append]
  rfl

theorem words_letters (hw : ∀ c ∈ w, letter c = true) (hne : w ≠ []) : words letter w = [w] := by
  rw [words, runs, List.splitOnP_eq_singleton (fun c hc => by simp [hw c hc])]
  simp [hne]

theorem join_cons (w : List α) (ws : List (List α)) :
    join sep (w :: ws) = w ++ ws.flatMap (sep :: ·) := by
  induction ws generalizing w with
  | nil => simp [join]
  | cons v ws ih =>
    have hrest := ih v
    simp only [join] at hrest ⊢
    simp [hrest]

theorem join_cons_cons (w v : List α) (ws : List (List α)) :
    join sep (w :: v :: ws) = w ++ sep :: join sep (v :: ws) := by
  simp [join_cons]

theorem words_join (hsep : letter sep = false) (ws : List (List α))
    (h : ∀ w ∈ ws, (∀ c ∈ w, letter c = true) ∧ w ≠ []) : words letter (join sep ws) = ws := by
  induction ws with
  | nil => simp [join, words, runs]
  | cons w ws ih =>
    obtain ⟨⟨hw, hne⟩, hws⟩ := List.forall_mem_cons.mp h
    cases ws with
    | nil => simpa [join] using words_letters hw hne
    | cons v ws => rw [join_cons_cons, words_append hsep, words_letters hw hne, ih hws]; rfl

/-- Joining the words of a text once more changes nothing. -/
theorem words_join_words (hsep : letter sep = false) (s : List α) :
    words letter (join sep (words letter s)) = words letter s :=
  words_join hsep _ (fun _ hw => ⟨letter_of_mem_words hw, ne_nil_of_mem_words hw⟩)

/-- The joined words begin with a letter. -/
theorem head_join (h : join sep (words letter s) = c :: t) : letter c = true := by
  cases hws : words letter s with
  | nil =>
    rw [hws] at h
    cases h
  | cons w ws =>
    have hmem : w ∈ words letter s := hws ▸ .head _
    obtain ⟨d, v, rfl⟩ := List.exists_cons_of_ne_nil (ne_nil_of_mem_words hmem)
    rw [hws, join_cons] at h
    cases h
    exact letter_of_mem_words hmem _ (.head _)

/-! The words as they are found from left to right. -/

/-- What is written behind a letter; a separator is `due` as soon as the text goes on with
something else. -/
def rest (letter : α → Bool) (sep : α) : Bool → List α → List α
  | _, [] => []
  | due, c :: s =>
    if letter c then (if due then [sep] else []) ++ c :: rest letter sep false s
    else rest letter sep true s

def written (letter : α → Bool) (sep : α) : List α → List α
  | [] => []
  | c :: s => if letter c then c :: rest letter sep false s else written letter sep s

/-- The words behind a separator each. -/
def behind (sep : α) (ws : List (List α)) : List α :=
  (ws.filter (fun w => !w.isEmpty)).flatMap (sep :: ·)

theorem rest_eq (s : List α) :
    (∀ w ws, runs letter s = w :: ws → rest letter sep false s = w ++ behind sep ws) ∧
      rest letter sep true s = behind sep (runs letter s) := by
  induction s with
  | nil =>
    constructor
    · rintro w ws ⟨⟩
      rfl
    · rfl
  | cons c s ih =>
    obtain ⟨v, vs, hruns⟩ := exists_runs letter s
    have hword := ih.1 v vs hruns
    have hbehind := ih.2
    rw [hruns] at hbehind
    simp only [rest, runs_cons, hruns]
    cases hc : letter c with
    | true =>
      constructor
      · rintro w ws ⟨⟩
        simp [hword]
      · simp [hword, behind]
    | false =>
      constructor
      · rintro w ws ⟨⟩
        simpa using hbehind
      · simpa [behind] using hbehind

theorem join_words_eq (s : List α) : join sep (words letter s) = written letter sep s := by
  induction s with
  | nil => rfl
  | cons c s ih =>
    obtain ⟨v, vs, hruns⟩ := exists_runs letter s
    rw [words, runs_cons, hruns, written]
    cases hc : letter c with
    | true => simp [join_cons, (rest_eq s).1 v vs hruns, behind]
    | false =>
      rw [words, hruns] at ih
      simpa using ih

/-- A scan that writes the words.  What is written so far is reversed, and `pending` is set
behind a separator. -/
def scan (letter : α → Bool) (sep : α) : List α → Bool → List α → List α
  | out, _, [] => out
  | out, pending, c :: s =>
    if letter c then scan letter sep (c :: out) false s
    else if !pending && !out.isEmpty then scan letter sep (sep :: out) true s
    else scan letter sep out pending s

/-- More separators behind one change nothing. -/
theorem scan_seps (hc : letter c = false) (ds : List α) (hds : ∀ d ∈ ds, letter d = false)
    (out : List α) (pending : Bool) (s : List α) :
    scan letter sep out pending (c :: ds ++ s) = scan letter sep out pending (c :: s) := by
  induction ds generalizing c with
  | nil => rfl
  | cons d ds ih =>
    obtain ⟨hd, hds⟩ := List.forall_mem_cons.mp hds
    have hrest := ih hd hds
    have hskip : scan letter sep out pending (c :: (d :: ds ++ s)) =
        scan letter sep out pending (d :: ds ++ s) := by
      cases out <;> cases pending <;> simp [scan, hc, hd]
    rw [List.cons_append, hskip, hrest]
    simp [scan, hc, hd]

theorem scan_map {letter' : β → Bool} {sep' : β} {f : β → α}
    (hletter : ∀ c, letter (f c) = letter' c) (hsep : f sep' = sep)
    (out : List β) (pending : Bool) (s : List β) :
    scan letter sep (out.map f) pending (s.map f) = (scan letter' sep' out pending s).map f := by
  induction s generalizing out pending with
  | nil => rfl
  | cons c s ih =>
    have hword := ih (c :: out) false
    have hnext := ih (sep' :: out) true
    rw [List.map_cons] at hword hnext
    rw [hsep] at hnext
    rw [List.map_cons, scan, scan, hletter, List.isEmpty_map]
    split_ifs
    · exact hword
    · exact hnext
    · exact ih out pending

theorem join_words_inj (hsep : letter sep = false) (s t : List α) :
    join sep (words letter s) = join sep (words letter t) ↔ words letter s = words letter t := by
  constructor
  · intro h
    rw [← words_join_words hsep s, h, words_join_words hsep t]
  · exact congrArg (join sep)

section

variable [DecidableEq α]

/-- `(?:sep[letter]+)*`. -/
def tails (letter : α → Bool) (sep : α) : Language α :=
  (symbol (fun c => c = sep) * plus (symbol letter))∗

/-- `^[letter]+(?:sep[letter]+)*$`. -/
def kebab (letter : α → Bool) (sep : α) : Language α := plus (symbol letter) * tails letter sep

/-- The automaton of the expression: `inside` a word, or in front of one. -/
def accepts (letter : α → Bool) (sep : α) : Bool → List α → Bool
  | inside, [] => inside
  | inside, c :: s =>
    if letter c then accepts letter sep true s
    else if c = sep then inside && accepts letter sep false s
    else false

theorem cons_mem_kebab : c :: s ∈ kebab letter sep ↔
    letter c = true ∧ s ∈ (symbol letter)∗ * tails letter sep := by
  rw [kebab, plus, mul_assoc, cons_mem_symbol_mul]

theorem cons_mem_tails : c :: s ∈ tails letter sep ↔ c = sep ∧ s ∈ kebab letter sep := by
  rw [tails, ← Language.one_add_self_mul_kstar_eq_kstar, Language.mem_add, mul_assoc,
    cons_mem_symbol_mul, decide_eq_true_eq, Language.mem_one, ← tails, kebab]
  simp

theorem cons_mem_inside : c :: s ∈ (symbol letter)∗ * tails letter sep ↔
    (c = sep ∧ s ∈ kebab letter sep) ∨
      (letter c = true ∧ s ∈ (symbol letter)∗ * tails letter sep) := by
  conv_lhs => rw [kstar_mul, Language.mem_add, cons_mem_tails, cons_mem_symbol_mul]

theorem accepts_iff (hsep : letter sep = false) (s : List α) :
    (accepts letter sep false s = true ↔ s ∈ kebab letter sep) ∧
      (accepts letter sep true s = true ↔ s ∈ (symbol letter)∗ * tails letter sep) := by
  induction s with
  | nil =>
    constructor
    · rw [kebab, plus, mul_assoc]
      exact iff_of_false Bool.false_ne_true (nil_mem_symbol_mul _ _)
    · exact iff_of_true rfl
        (Language.append_mem_mul (Language.nil_mem_kstar _) (Language.nil_mem_kstar _))
  | cons c s ih =>
    rw [cons_mem_kebab, cons_mem_inside, ← ih.1, ← ih.2, accepts, accepts]
    cases hc : letter c with
    | true =>
      have hne : c ≠ sep := by
        rintro rfl
        rw [hsep] at hc
        cases hc
      simp [hne]
    | false => by_cases heq : c = sep <;> simp [heq]

theorem accepts_map [DecidableEq β] {letter' : β → Bool} {sep' : β} {f : β → α}
    (hletter : ∀ c ∈ s, letter (f c) = letter' c) (hsep : ∀ c ∈ s, f c = sep ↔ c = sep')
    (inside : Bool) : accepts letter sep inside (s.map f) = accepts letter' sep' inside s := by
  induction s generalizing inside with
  | nil => rfl
  | cons c s ih =>
    obtain ⟨hc, hletter⟩ := List.forall_mem_cons.mp hletter
    obtain ⟨hc', hsep⟩ := List.forall_mem_cons.mp hsep
    simp only [List.map_cons, accepts, hc, hc', ih hletter hsep]

theorem letter_or_sep_of_accepts (h : accepts letter sep inside s = true) :
    ∀ c ∈ s, letter c = true ∨ c = sep := by
  induction s generalizing inside with
  | nil => simp
  | cons c s ih =>
    rw [accepts] at h
    rw [List.forall_mem_cons]
    split_ifs at h with hc hsep
    · exact ⟨.inl hc, ih h⟩
    · exact ⟨.inr hsep, ih (Bool.and_eq_true_iff.mp h).2⟩

theorem join_mem_kebab (h : ∀ w ∈ ws, (∀ c ∈ w, letter c = true) ∧ w ≠ []) (hne : ws ≠ []) :
    join sep ws ∈ kebab letter sep := by
  cases ws with
  | nil => exact absurd rfl hne
  | cons w ws =>
    obtain ⟨⟨hw, hwne⟩, hws⟩ := List.forall_mem_cons.mp h
    rw [join_cons, List.flatMap_def]
    refine Language.append_mem_mul (mem_plus_symbol hw hwne) (Language.join_mem_kstar ?_)
    intro v hv
    obtain ⟨u, hu, rfl⟩ := List.mem_map.mp hv
    exact (cons_mem_symbol_mul _ _).mpr
      ⟨decide_eq_true rfl, mem_plus_symbol (hws u hu).1 (hws u hu).2⟩

/-- The joined words of a text match the expression, if there are any. -/
theorem join_words (letter : α → Bool) (sep : α) (s : List α) :
    join sep (words letter s) = [] ∨ join sep (words letter s) ∈ kebab letter sep := by
  by_cases hne : words letter s = []
  · exact .inl (by rw [hne]; rfl)
  · exact .inr (join_mem_kebab
      (fun _ hw => ⟨letter_of_mem_words hw, ne_nil_of_mem_words hw⟩) hne)

def trimmed (sep : α) (out : List α) : List α := (out.dropWhile (fun c => c = sep)).reverse

/-- The scan in the middle of a word, and behind the separator after one. -/
theorem trimmed_scan_cons (hsep : letter sep = false) (s : List α) (hc : c ≠ sep) (out : List α) :
    trimmed sep (scan letter sep (c :: out) false s) =
        (c :: out).reverse ++ rest letter sep false s ∧
      trimmed sep (scan letter sep (sep :: c :: out) true s) =
        (c :: out).reverse ++ rest letter sep true s := by
  induction s generalizing c out with
  | nil => simp [scan, rest, trimmed, hc]
  | cons d s ih =>
    simp only [scan, rest]
    cases hd : letter d with
    | true =>
      have hne : d ≠ sep := by
        rintro rfl
        rw [hsep] at hd
        cases hd
      have hword := (ih hne (c :: out)).1
      have hbehind := (ih hne (sep :: c :: out)).1
      constructor
      · simpa using hword
      · simpa using hbehind
    | false =>
      have hbehind := (ih hc out).2
      constructor
      · simpa using hbehind
      · simpa using hbehind

theorem trimmed_scan (hsep : letter sep = false) (s : List α) :
    trimmed sep (scan letter sep [] false s) = join sep (words letter s) := by
  rw [join_words_eq]
  induction s with
  | nil => rfl
  | cons c s ih =>
    rw [scan, written]
    cases hc : letter c with
    | true =>
      have hne : c ≠ sep := by
        rintro rfl
        rw [hsep] at hc
        cases hc
      simpa using (trimmed_scan_cons hsep s hne []).1
    | false => simpa using ih

theorem trimmed_map [DecidableEq β] {sep' : β} {f : β → α} (hsep : ∀ c, f c = sep ↔ c = sep')
    (out : List β) : trimmed sep (out.map f) = (trimmed sep' out).map f := by
  rw [trimmed, trimmed, List.dropWhile_map, List.map_reverse]
  simp only [Function.comp_def, hsep]

end

end Kebab
