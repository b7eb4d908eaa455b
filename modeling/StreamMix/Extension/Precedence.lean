import StreamMix.Extension.Prefs

/-! Which of the stored settings a track gets. -/

namespace StreamMix.Extension

open Wire

/-- An entry of an object, or a function that every object inherits. -/
inductive Found
  | entry (s : ChannelSetting)
  | builtin (name : String)
  deriving DecidableEq

def Found.setting : Found → ChannelSetting
  | .entry s => s
  | .builtin _ => inheritedSetting

/-- The object that `effectiveSetting` returns. -/
def effectiveFound (trackSlug category : String) (streamer global : Prefs) : Found :=
  match property streamer trackSlug with
  | .own fromStreamer => .entry fromStreamer
  | .inherited => .builtin trackSlug
  | .missing =>
    if category ≠ customCategory then
      match property global category with
      | .own fromGlobal => .entry fromGlobal
      | .inherited => .builtin category
      | .missing => .entry defaultSetting
    else .entry defaultSetting

theorem setting_effectiveFound (slug category : String) (streamer global : Prefs) :
    (effectiveFound slug category streamer global).setting =
      effectiveSetting slug category streamer global := by
  rw [effectiveFound, effectiveSetting]
  cases property streamer slug with
  | own s => rfl
  | inherited => rfl
  | missing =>
    dsimp only
    split_ifs
    · cases property global category <;> rfl
    · rfl

def saveGlobalCategory (all : Prefs) (category : String) (setting : ChannelSetting) : Prefs :=
  if category ∈ presetCategories then Function.update all category (some setting) else all

/-- Override, else the default of a preset category, else the default. -/
def preferred (t : TrackInfo) (streamer global : Prefs) : ChannelSetting :=
  match streamer t.slug with
  | some s => s
  | none =>
    if t.category ∈ presetCategories then (global t.category).getD defaultSetting
    else defaultSetting

/-- The gains are numbers and the flags are booleans. -/
def ChannelSetting.Typed (s : ChannelSetting) : Prop := s.gain ≠ none ∧ s.muted ≠ none

def Prefs.Typed (prefs : Prefs) : Prop := ∀ key s, prefs key = some s → s.Typed

structure Prefers (t : TrackInfo) (streamer global : Prefs) : Prop where
  found : effectiveFound t.slug t.category streamer global = .entry (preferred t streamer global)
  typed : streamer.Typed → global.Typed →
    (effectiveSetting t.slug t.category streamer global).Typed
  custom : t.category = customCategory → ∀ other,
    effectiveFound t.slug t.category streamer other =
      effectiveFound t.slug t.category streamer global

theorem TrackInfo.preset_iff (t : TrackInfo) :
    t.category ∈ presetCategories ↔ t.category ≠ customCategory := by
  have hcustom : customCategory ∉ presetCategories := by decide
  obtain h | h := t.validCategory
  · rw [h]
    simpa using hcustom
  · exact iff_of_true h (fun heq => hcustom (heq ▸ h))

theorem typed_preferred {streamer global : Prefs} (hs : streamer.Typed) (hg : global.Typed)
    (t : TrackInfo) : (preferred t streamer global).Typed := by
  have hdefault : defaultSetting.Typed := ⟨by simp [defaultSetting], by simp [defaultSetting]⟩
  rw [preferred]
  cases hown : streamer t.slug with
  | some s => exact hs _ _ hown
  | none =>
    dsimp only
    split_ifs
    · cases hentry : global t.category with
      | some s => exact hg _ _ hentry
      | none => exact hdefault
    · exact hdefault

theorem effectiveFound_own {streamer : Prefs} (h : streamer slug = some s) (category : String)
    (global : Prefs) : effectiveFound slug category streamer global = .entry s := by
  simp only [effectiveFound, property, h]

/-- The global store is not asked for a custom track. -/
theorem effectiveFound_custom (slug : String) (streamer global other : Prefs) :
    effectiveFound slug customCategory streamer global =
      effectiveFound slug customCategory streamer other := by
  simp only [effectiveFound, ne_eq, not_true_eq_false, if_false]

/-- A lookup that meets no inherited name. -/
theorem effectiveFound_eq (t : TrackInfo) (streamer global : Prefs)
    (h : t.slug = "constructor" → streamer t.slug ≠ none) :
    effectiveFound t.slug t.category streamer global = .entry (preferred t streamer global) := by
  cases hown : streamer t.slug with
  | some s => simp only [effectiveFound_own hown, preferred, hown]
  | none =>
    have hslug : t.slug ∉ objectPrototype := fun hmem => h (t.slug_eq_constructor hmem) hown
    simp only [effectiveFound, preferred, property, hown, if_neg hslug, t.preset_iff,
      if_neg t.category_not_inherited]
    split_ifs
    · cases global t.category <;> rfl
    · rfl

/-- For every track and whatever is stored: the documented precedence holds just if the slug is
not the name that objects inherit, or the streamer has an entry for it. -/
theorem prefers_iff (t : TrackInfo) (streamer global : Prefs) :
    Prefers t streamer global ↔ (t.slug = "constructor" → streamer t.slug ≠ none) := by
  constructor
  · intro h hslug hnone
    have hfound := h.found
    have hinherited : t.slug ∈ objectPrototype := by
      rw [hslug]
      decide
    simp only [effectiveFound, property, hnone, if_pos hinherited, reduceCtorEq] at hfound
  · intro h
    refine ⟨effectiveFound_eq t streamer global h, ?_, ?_⟩
    · intro hs hg
      rw [← setting_effectiveFound, effectiveFound_eq t streamer global h]
      exact typed_preferred hs hg t
    · intro hcustom other
      rw [hcustom]
      exact effectiveFound_custom t.slug streamer other global

/-- A custom track of this name gets the function `Object`, whose gain is undefined. -/
theorem constructor_not_prefers : ¬ ∀ (t : TrackInfo) (streamer global : Prefs),
    Prefers t streamer global := by
  intro h
  have hfound := (h ⟨1, "constructor", "custom", by decide, .inl rfl⟩ (fun _ => none)
    (fun _ => none)).found
  revert hfound
  decide

/-- What is saved for a preset category is the default of its tracks, and of no others. -/
theorem effectiveFound_saveGlobalCategory (t : TrackInfo) (streamer all : Prefs)
    (hslug : t.slug ≠ "constructor") (hown : streamer t.slug = none) (category : String)
    (setting : ChannelSetting) :
    effectiveFound t.slug t.category streamer (saveGlobalCategory all category setting) =
      if t.category = category ∧ category ∈ presetCategories then .entry setting
      else effectiveFound t.slug t.category streamer all := by
  have hname : t.slug = "constructor" → streamer t.slug ≠ none := fun h => absurd h hslug
  rw [effectiveFound_eq t streamer _ hname, effectiveFound_eq t streamer _ hname]
  by_cases hsaved : t.category = category ∧ category ∈ presetCategories
  · obtain ⟨rfl, hpreset⟩ := hsaved
    simp only [preferred, hown, saveGlobalCategory, hpreset, if_true, Function.update_self,
      Option.getD_some, and_self]
  · have hsame : saveGlobalCategory all category setting t.category = all t.category := by
      rw [saveGlobalCategory]
      split_ifs with hpreset
      · exact Function.update_of_ne (fun heq => hsaved ⟨heq, hpreset⟩) _ _
      · rfl
    rw [if_neg hsaved, preferred, preferred, hsame]

end StreamMix.Extension
