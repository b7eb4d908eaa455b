import StreamMix.Lib.Kebab
import StreamMix.Publisher.Announce
import StreamMix.Session

/-! Slugs of labels, and when they tell the tracks of a command line apart. -/

namespace StreamMix.Publisher

open Wire
open Cpp (dash isSlugChar)

def lower (c : UInt8) : UInt8 := if 0x41 ≤ c ∧ c ≤ 0x5a then c + 0x20 else c

/-- The runs of letters and digits, between them those of anything else, in lower case.
Neighbouring separators have an empty run between them. -/
def runs (label : Bytes) : List Bytes := (label.map lower).splitOnP (fun c => !isSlugChar c)

/-- The words of a label, in lower case. -/
def words (label : Bytes) : List Bytes := (runs label).filter (fun w => !w.isEmpty)

theorem isSlugChar_lower (c : UInt8) :
    isSlugChar (lower c) = (isSlugChar c || decide (0x41 ≤ c ∧ c ≤ 0x5a)) := by
  rw [Bool.eq_iff_iff]
  simp only [isSlugChar, lower, Bool.or_eq_true, Bool.and_eq_true, decide_eq_true_eq]
  split_ifs with h
  · simp only [UInt8.le_iff_toNat_le, UInt8.toNat_add, UInt8.reduceToNat, decide_eq_true_eq] at h ⊢
    omega
  · simp [h]

theorem lower_of_isSlugChar (h : isSlugChar c = true) : lower c = c := by
  apply if_neg
  simp only [isSlugChar, Bool.or_eq_true, Bool.and_eq_true, decide_eq_true_eq,
    UInt8.le_iff_toNat_le, UInt8.reduceToNat] at h ⊢
  omega

/-- One turn of the loop. -/
theorem slugLoop_cons (slug : Bytes) (prevDash : Bool) (c : UInt8) (label : Bytes) :
    slugLoop slug prevDash (c :: label) =
      if isSlugChar (lower c) then slugLoop (lower c :: slug) false label
      else if !prevDash && !slug.isEmpty then slugLoop (dash :: slug) true label
      else slugLoop slug prevDash label := by
  rw [slugLoop, isSlugChar_lower]
  cases hc : isSlugChar c with
  | true => simp [lower_of_isSlugChar hc]
  | false =>
    simp only [Bool.false_eq_true, if_false, Bool.false_or, decide_eq_true_eq]
    split_ifs with hupper <;> simp [lower, hupper]

theorem slugLoop_eq (slug : Bytes) (prevDash : Bool) (label : Bytes) :
    slugLoop slug prevDash label = Kebab.scan isSlugChar dash slug prevDash (label.map lower) := by
  induction label generalizing slug prevDash with
  | nil => rfl
  | cons c label ih => simp only [slugLoop_cons, List.map_cons, Kebab.scan, ih]

/-- The slug of a label is its words with dashes between them. -/
theorem slugOf_eq (label : Bytes) : slugOf label = [dash].intercalate (words label) := by
  change Kebab.trimmed dash (slugLoop [] false label) = _
  rw [slugLoop_eq, Kebab.trimmed_scan (by decide)]
  rfl

theorem slugOf_inj (a b : Bytes) : slugOf a = slugOf b ↔ words a = words b := by
  rw [slugOf_eq, slugOf_eq]
  exact Kebab.join_words_inj (by decide) _ _

/-- The name that the slug of a track is made of: the label of a custom track, and else the
category. -/
def trackName (arg : Bytes) : Bytes :=
  match cut 0x3a arg with
  | none => []
  | some (category, rest) =>
    if category = ascii customCategory then ((cut 0x7c rest).map Prod.fst).getD [] else category

/-- The values of the `--track` flags. -/
def trackValues : List Bytes → List Bytes
  | flag :: v :: args =>
    if flag = ascii "--track" then v :: trackValues args else trackValues args
  | _ => []

theorem slugOf_preset (h : Cpp.isPresetCategory category = true) : slugOf category = category := by
  have hall : ∀ c ∈ presetCategories, slugOf (ascii c) = ascii c := by decide
  obtain ⟨c, hc, heq⟩ := List.any_eq_true.mp h
  rw [← eq_of_beq heq]
  exact hall c hc

theorem slug_parseTrackArg (h : parseTrackArg arg = some spec) (id : UInt8) :
    (spec id).slug = slugOf (trackName arg) := by
  simp only [parseTrackArg] at h
  split at h
  · cases h
  · next category rest hcut =>
    split_ifs at h with hrest hcat hcustom
    · split at h
      · cases h
      · next label process hpipe =>
        split_ifs at h with hempty hslug
        cases h
        have hname : trackName arg = label := by simp [trackName, hcut, hcustom, hpipe]
        rw [hname]
    · cases h
      have hpreset : Cpp.isPresetCategory category = true := by
        by_contra hp
        exact hcat ⟨hcustom, by simpa using hp⟩
      have hname : trackName arg = category := by simp [trackName, hcut, hcustom]
      rw [hname]
      exact (slugOf_preset hpreset).symm

theorem slugs_parseFlags {cfg : Config} (h : parseFlags cfg args = .ok cfg') :
    cfg'.tracks.map TrackSpec.slug =
      cfg.tracks.map TrackSpec.slug ++ (trackValues args).map (fun v => slugOf (trackName v)) := by
  fun_induction parseFlags cfg args with
  | case1 cfg =>
    cases h
    simp [trackValues]
  | case5 cfg v args ih =>
    rw [trackValues, if_neg (by decide)]
    exact ih h
  | case6 cfg v args _ ih =>
    rw [trackValues, if_neg (by decide)]
    exact ih h
  | case7 cfg v args _ _ ih =>
    rw [trackValues, if_neg (by decide)]
    exact ih h
  | case9 cfg v args _ _ _ _ ih =>
    rw [trackValues, if_neg (by decide)]
    exact ih h
  | case11 cfg v args spec hspec _ _ _ _ ih =>
    rw [trackValues, if_pos rfl, List.map_cons, ih h]
    simp [addTrack, slug_parseTrackArg hspec]
  | _ => cases h

theorem slugs_parseArgs (h : parseArgs args = .ok cfg) :
    cfg.tracks.map TrackSpec.slug = (trackValues args).map (fun v => slugOf (trackName v)) := by
  simp only [parseArgs] at h
  cases hflags : parseFlags .default args with
  | error e =>
    rw [hflags] at h
    cases h
  | ok cfg' =>
    rw [hflags] at h
    change (if _ then _ else _) = _ at h
    split_ifs at h
    cases h
    exact slugs_parseFlags hflags

theorem nodup_slugs_iff (h : parseArgs args = .ok cfg) :
    (cfg.tracks.map TrackSpec.slug).Nodup ↔
      ((trackValues args).map (fun v => words (trackName v))).Nodup := by
  rw [slugs_parseArgs h, List.Nodup, List.Nodup, List.pairwise_map, List.pairwise_map]
  apply List.Pairwise.iff
  intro v w
  exact not_congr (slugOf_inj _ _)

/-- A slug that a viewer has for an id is the one of the track with this id. -/
theorem mem_of_slugOf {ts : List TrackSpec} {id : Js.Number}
    (h : Session.slugOf (Session.indexTracks (ts.map TrackSpec.info)) id = some slug) :
    ∃ t ∈ ts, id = .fin t.id.toNat ∧ slug = t.slug.map UInt8.toNat := by
  obtain ⟨l₁, l₂, heq, -⟩ := List.lookup_eq_some_iff.mp h
  have hmem : (id, slug) ∈ Session.indexTracks (ts.map TrackSpec.info) := by
    rw [← List.mem_reverse, heq]
    exact List.mem_append_right _ List.mem_cons_self
  obtain ⟨i, hi, hpair⟩ := List.mem_map.mp hmem
  obtain ⟨t, ht, rfl⟩ := List.mem_map.mp hi
  cases hpair
  exact ⟨t, ht, rfl, rfl⟩

/-- Every track has a lane of its own: ids in order, distinct slugs, and in a viewer that
has got the list no two ids with the same slug. -/
structure Config.Apart (cfg : Config) : Prop where
  ids : cfg.tracks.map (fun t => t.id.toNat) = List.range' 1 cfg.tracks.length
  cap : cfg.tracks.length ≤ 8
  slugs : (cfg.tracks.map TrackSpec.slug).Nodup
  lanes : ∀ infos, List.Forall₂ Matches cfg.tracks infos → ∀ id id' slug,
    Session.slugOf (Session.indexTracks infos) id = some slug →
    Session.slugOf (Session.indexTracks infos) id' = some slug → id = id'

theorem apart_iff (h : parseArgs args = .ok cfg) :
    cfg.Apart ↔ ((trackValues args).map (fun v => words (trackName v))).Nodup := by
  rw [← nodup_slugs_iff h]
  constructor
  · exact Config.Apart.slugs
  · intro hslugs
    obtain ⟨hc, hpos, hlen⟩ := checked_parseArgs h
    refine ⟨id_of_checked hc hlen, hlen, hslugs, ?_⟩
    intro infos hmatch id id' slug hid hid'
    obtain ⟨rfl, -⟩ := eq_map_info hc.tracks hmatch
    obtain ⟨t, ht, rfl, rfl⟩ := mem_of_slugOf hid
    obtain ⟨t', ht', rfl, hslug⟩ := mem_of_slugOf hid'
    have hinj : Function.Injective UInt8.toNat := fun _ _ => UInt8.toNat_inj.mp
    rw [List.inj_on_of_nodup_map hslugs ht ht' (List.map_injective_iff.mpr hinj hslug)]

theorem apart_music_mic :
    parseArgs (required ++ [ascii "--track", ascii "music:Spotify.exe", ascii "--track",
      ascii "custom:My Mic|VirtualMic.exe"]) = .ok (configOf [music, customMic (ascii "My Mic")]) ∧
    (configOf [music, customMic (ascii "My Mic")]).Apart := by
  have h : parseArgs (required ++ [ascii "--track", ascii "music:Spotify.exe", ascii "--track",
      ascii "custom:My Mic|VirtualMic.exe"]) =
      .ok (configOf [music, customMic (ascii "My Mic")]) := by
    decide
  exact ⟨h, (apart_iff h).mpr (by decide)⟩

def twoMics : List TrackSpec :=
  [{ customMic (ascii "My Mic") with id := 1 }, customMic (ascii "my-mic")]

/-- Two labels with the same words, and one lane for both tracks. -/
theorem not_apart_two_mics :
    parseArgs (required ++ [ascii "--track", ascii "custom:My Mic|VirtualMic.exe", ascii "--track",
      ascii "custom:my-mic|VirtualMic.exe"]) = .ok (configOf twoMics) ∧
    ¬ (configOf twoMics).Apart ∧
    ∃ infos, Ts.decodeTrackList (buildTrackListPayload (configOf twoMics)) = .ok infos ∧
      Session.slugOf (Session.indexTracks infos) (1 : Nat) = some (Ts.units "my-mic") ∧
      Session.slugOf (Session.indexTracks infos) (2 : Nat) = some (Ts.units "my-mic") := by
  refine ⟨by decide, ?_, ?_⟩
  · intro h
    exact absurd h.slugs (by decide)
  · have hlist : (Ts.decodeTrackList (buildTrackListPayload (configOf twoMics))).toOption.any
        (fun infos =>
          Session.slugOf (Session.indexTracks infos) (1 : Nat) = some (Ts.units "my-mic") ∧
          Session.slugOf (Session.indexTracks infos) (2 : Nat) = some (Ts.units "my-mic")) = true := by
      decide +kernel
    obtain ⟨infos, hinfos, hlanes⟩ := (Option.any_eq_true _ _).mp hlist
    cases hdecode : Ts.decodeTrackList (buildTrackListPayload (configOf twoMics)) with
    | error e =>
      rw [hdecode] at hinfos
      cases hinfos
    | ok infos' =>
      rw [hdecode] at hinfos
      cases hinfos
      exact ⟨infos, rfl, of_decide_eq_true hlanes⟩

end StreamMix.Publisher
