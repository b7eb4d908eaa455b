import StreamMix.Lib.JsNumber
import StreamMix.Wire.Messages

namespace StreamMix.Extension

open Wire

/-- The names that every object literal inherits. -/
def objectPrototype : List String :=
  ["constructor", "hasOwnProperty", "isPrototypeOf", "propertyIsEnumerable", "toLocaleString",
    "toString", "valueOf", "__proto__", "__defineGetter__", "__defineSetter__",
    "__lookupGetter__", "__lookupSetter__"]

/-- What `o[key]` finds in an object that is given by its own properties. -/
inductive Property (α : Type u)
  | own (v : α)
  | inherited
  | missing

def property (o : String → Option α) (key : String) : Property α :=
  match o key with
  | some v => .own v
  | none => if key ∈ objectPrototype then .inherited else .missing

/-- A field that is `none` reads as `undefined`. -/
structure ChannelSetting where
  gain : Option ℚ
  muted : Option Bool
  permanentlyOff : Option Bool
  deriving DecidableEq

def defaultSetting : ChannelSetting := ⟨some 0.5, some false, some false⟩

/-- The three fields of an inherited member: it is an object, but has none of them. -/
def inheritedSetting : ChannelSetting := ⟨none, none, none⟩

abbrev Prefs := String → Option ChannelSetting

def effectiveSetting (trackSlug category : String) (streamer global : Prefs) : ChannelSetting :=
  match property streamer trackSlug with
  | .own fromStreamer => fromStreamer
  | .inherited => inheritedSetting
  | .missing =>
    if category ≠ customCategory then
      match property global category with
      | .own fromGlobal => fromGlobal
      | .inherited => inheritedSetting
      | .missing => defaultSetting
    else defaultSetting

theorem effectiveSetting_own {streamer : Prefs} (h : streamer slug = some s) (category : String)
    (global : Prefs) : effectiveSetting slug category streamer global = s := by
  simp only [effectiveSetting, property, h]

structure ChannelSetting.Shaped (s : ChannelSetting) : Prop where
  gain : s.gain ≠ none
  muted : s.muted ≠ none
  permanentlyOff : s.permanentlyOff ≠ none

def Prefs.Shaped (prefs : Prefs) : Prop := ∀ key s, prefs key = some s → s.Shaped

/-- Nothing is stored yet. -/
theorem Prefs.shaped_none : Prefs.Shaped (fun _ => none) := by
  intro key s h
  cases h

structure TrackInfo where
  id : Nat
  slug : String
  category : String
  validSlug : Ts.isValidSlug (slug.toList.map Char.toNat) = true
  validCategory : category = customCategory ∨ category ∈ presetCategories

/-- The only name a slug can share with what objects inherit. -/
theorem TrackInfo.slug_eq_constructor (t : TrackInfo) (h : t.slug ∈ objectPrototype) :
    t.slug = "constructor" := by
  have hvalid := t.validSlug
  revert hvalid
  simp only [objectPrototype, List.mem_cons, List.not_mem_nil, or_false] at h
  rcases h with h | h | h | h | h | h | h | h | h | h | h | h <;> rw [h] <;> decide

theorem TrackInfo.category_not_inherited (t : TrackInfo) : t.category ∉ objectPrototype := by
  obtain h | h := t.validCategory
  · rw [h]
    decide
  · have hall : ∀ c ∈ presetCategories, c ∉ objectPrototype := by decide
    exact hall _ h

theorem shaped_defaultSetting : defaultSetting.Shaped := ⟨nofun, nofun, nofun⟩

/-- Out of well-shaped preferences comes a well-shaped setting, or the function `Object`. -/
theorem shaped_effectiveSetting {streamer global : Prefs} (hs : streamer.Shaped)
    (hg : global.Shaped) (t : TrackInfo)
    (h : t.slug = "constructor" → streamer t.slug ≠ none) :
    (effectiveSetting t.slug t.category streamer global).Shaped := by
  rw [effectiveSetting, property]
  cases hown : streamer t.slug with
  | some s => exact hs _ _ hown
  | none =>
    have hslug : t.slug ∉ objectPrototype := fun hmem => h (t.slug_eq_constructor hmem) hown
    simp only [if_neg hslug]
    split_ifs with hc
    · rw [property]
      cases hown : global t.category with
      | some s => exact hg _ _ hown
      | none =>
        simp only [if_neg t.category_not_inherited]
        exact shaped_defaultSetting
    · exact shaped_defaultSetting

end StreamMix.Extension
