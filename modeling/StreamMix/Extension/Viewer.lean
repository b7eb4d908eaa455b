import StreamMix.Extension.Playing
import StreamMix.Wire.SlugRule

/-! What the content script does with the messages of its socket. -/

namespace StreamMix.Extension

open Wire (Bytes MessageType)

/-- The string of code units that are all ASCII. -/
def text (s : List Nat) : String := String.ofList (s.map Char.ofNat)

theorem toNat_ofNat (h : c < 0x80) : (Char.ofNat c).toNat = c := by
  have hvalid : c.isValidChar := .inl (by omega)
  rw [Char.ofNat, dif_pos hvalid]
  rfl

theorem toList_text (h : ∀ c ∈ s, c < 0x80) : (text s).toList.map Char.toNat = s := by
  rw [text, String.toList_ofList, List.map_map]
  conv_rhs => rw [← List.map_id s]
  exact List.map_congr_left (fun c hc => toNat_ofNat (h c hc))

theorem lt_of_isValidSlug (h : Wire.Ts.isValidSlug s = true) : ∀ c ∈ s, c < 0x80 := by
  simp only [Wire.Ts.isValidSlug, Bool.and_eq_true, Wire.slugRe_eq] at h
  exact Wire.lt_of_accepts h.2

theorem text_category (h : Wire.Ts.IsCategory s) :
    text s = Wire.customCategory ∨ text s ∈ Wire.presetCategories := by
  obtain rfl | h := h
  · exact .inl (by decide)
  · obtain ⟨c, hc, heq⟩ := List.any_eq_true.mp h
    rw [← eq_of_beq heq]
    have hall : ∀ c ∈ Wire.presetCategories, text (Wire.Ts.units c) ∈ Wire.presetCategories := by
      decide
    exact .inr (hall c hc)

/-- A track as `decodeTrackList` returns it. -/
def TrackInfo.ofWire (t : Wire.Ts.TrackInfo) (h : t.Checked) : TrackInfo where
  id := t.id.toUint 32
  slug := text t.slug
  category := text t.category
  validSlug := by
    rw [toList_text (lt_of_isValidSlug h.slug)]
    exact h.slug
  validCategory := text_category h.category

theorem checked_of_decodeTrackList (h : Wire.Ts.decodeTrackList buf = .ok ts) :
    ∀ t ∈ ts, t.Checked := by
  obtain ⟨-, raws, -, -, hentries, -⟩ := Wire.Ts.decodeTrackList_eq_ok.mp h
  have hchecked : List.Forall₂ (fun t _ => t.Checked ∧ True) ts raws :=
    hentries.flip.imp (fun _ _ hentry => ⟨hentry.toChecked, trivial⟩)
  exact ((List.forall₂_and_left ts raws).mp hchecked).1

/-- The call that `handleMessage` makes, of the two that reach the lanes: `onError` writes to the
console, and the content script has no `onFingerprint` and no `onTrackMeta`. -/
def handleMessage (data : Bytes) : Option PlaybackAct :=
  match Wire.Ts.decodeFrame data with
  | .error _ => none
  | .ok frame =>
    if frame.type = (MessageType.trackList.code.toNat : Js.Number) then
      match h : Wire.Ts.decodeTrackList frame.payload with
      | .error _ => none
      | .ok tracks =>
        some (.trackList (tracks.pmap TrackInfo.ofWire (checked_of_decodeTrackList h)))
    else if frame.type = (MessageType.audioOpus.code.toNat : Js.Number) then
      some (.audio (frame.track.toUint 32) frame.payload (.ofNat (frame.seq.toUint 32)))
    else none

/-- A message of the socket, or what else happens on the page. -/
inductive ViewerAct
  | message (data : Bytes)
  | click (a : MixerAct)
  | output (slug : String) (now : ℚ≥0)
  | error (slug : String)
  | ended (slug : String) (idx : Nat)

def ViewerAct.act : ViewerAct → Option PlaybackAct
  | .message data => handleMessage data
  | .click a => some (.click a)
  | .output slug now => some (.output slug now)
  | .error slug => some (.error slug)
  | .ended slug idx => some (.ended slug idx)

def Playing.view (w : Playing) (a : ViewerAct) : Option Playing :=
  match a.act with
  | some a => w.step a
  | none => some w

def viewer (stored global : Prefs) : Machine Playing ViewerAct :=
  ⟨(playing stored global).init, Playing.view⟩

theorem playing_of_viewer (h : (viewer stored global).Reachable w) :
    (playing stored global).Reachable w := by
  refine h.invariant (.init _) ?_
  intro w a x hw he
  simp only [viewer, Playing.view] at he
  split at he
  · exact hw.next he
  · cases he
    exact hw

namespace Playing

variable {w x : Playing}

/-- Only a list changes what the ids of packets stand for. -/
theorem idToSlug_step (he : w.step a = some x) :
    (∃ incoming, a = .trackList incoming ∧
      x.playback.panel.idToSlug = (w.playback.panel.indexTracks incoming).idToSlug) ∨
      x.playback.panel.idToSlug = w.playback.panel.idToSlug := by
  obtain ⟨p, hp, rfl⟩ := Option.map_eq_some_iff.mp he
  have hcallback : ∀ slug f, w.playback.callback slug f = some p →
      p.panel.idToSlug = w.playback.panel.idToSlug := by
    intro slug f hf
    obtain ⟨-, lane, -, -, rfl⟩ := Playback.callback_eq_some hf
    rfl
  cases a with
  | trackList incoming =>
    cases hp
    refine .inl ⟨incoming, rfl, ?_⟩
    rw [Playback.panel_onTrackList]
    exact MixerState.idToSlug_onTrackList ..
  | audio trackID packet seq =>
    cases hp
    refine .inr ?_
    rw [Playback.panel_onAudio]
    exact (w.playback.panel.routed_onAudio trackID true).1
  | click a =>
    rw [Playback.step] at hp
    split_ifs at hp with ha
    cases hp
    have hrouting := (Prod.mk.inj (w.playback.panel.routing_click ha)).2
    exact .inr (Prod.mk.inj hrouting).1
  | output slug now => exact .inr (hcallback slug _ hp)
  | error slug => exact .inr (hcallback slug _ hp)
  | ended slug idx => exact .inr (hcallback slug _ hp)

theorem submitted_step (he : w.step a = some x) (slug : String) :
    x.submitted slug = w.submitted slug ++ w.playback.gives slug a := by
  obtain ⟨p, -, rfl⟩ := Option.map_eq_some_iff.mp he
  rfl

/-- A decoder is given what `onAudio` was called with. -/
theorem gives_eq (p : Playback) (slug : String) (a : PlaybackAct) :
    p.gives slug a = [] ∨ ∃ trackID packet seq chunk, a = .audio trackID packet seq ∧
      p.panel.idToSlug trackID = some slug ∧ p.gives slug a = [chunk] ∧ chunk.data = packet := by
  cases a with
  | audio trackID packet seq =>
    simp only [Playback.gives]
    split
    · next routed lane hroute _ =>
      split_ifs with hslug
      · subst hslug
        rw [AudioLane.chunks]
        split_ifs
        · refine .inr ⟨trackID, packet, seq, _, rfl, hroute, rfl, ?_⟩
          simp only [OpusDecoderLane.decode]
          split <;> rfl
        · exact .inl rfl
      · exact .inl rfl
    · exact .inl rfl
  | trackList | click | output | error | ended => exact .inl rfl

end Playing

end StreamMix.Extension
