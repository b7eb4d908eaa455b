import StreamMix.Extension.Playback

/-! What the lanes play: the chunks that their decoders were given and the sources that their
schedulers started, for as long as the page lives. -/

namespace StreamMix.Extension

open Wire (Bytes)

/-- A decoder delivers in the order in which it was given chunks, and the sources of a scheduler
do not overlap. -/
structure AudioLane.Paced (lane : AudioLane) (given : List EncodedAudioChunk)
    (begun : List (Source EncodedAudioChunk)) : Prop where
  order : (begun.map Source.buffer ++ lane.decoder.decoder.queue).Sublist given
  idle : lane.decoder.decoder.state ≠ .configured → lane.decoder.decoder.queue = []
  live : lane.scheduler.liveSources.Sublist begun
  apart : lane.scheduler.liveSources.Pairwise (fun s t => s.start + frameDuration ≤ t.start)
  cursor : ∀ s ∈ lane.scheduler.liveSources, s.start + frameDuration ≤ lane.scheduler.playCursor

namespace AudioLane

variable {lane : AudioLane} {given : List EncodedAudioChunk}
  {begun : List (Source EncodedAudioChunk)}

theorem Paced.buffers (h : lane.Paced given begun) : (begun.map Source.buffer).Sublist given :=
  (List.sublist_append_left ..).trans h.order

/-- A lane that plays nothing and holds nothing back. -/
theorem paced_of_empty (h : (begun.map Source.buffer).Sublist given)
    (hqueue : lane.decoder.decoder.queue = []) (hlive : lane.scheduler.liveSources = []) :
    lane.Paced given begun where
  order := by rwa [hqueue, List.append_nil]
  idle _ := hqueue
  live := by rw [hlive]; exact List.nil_sublist _
  apart := by rw [hlive]; exact .nil
  cursor := by rw [hlive]; exact fun _ => nofun

theorem Paced.close (h : lane.Paced given begun) : lane.close.Paced given begun := by
  refine paced_of_empty h.buffers ?_ rfl
  have hidle := h.idle
  simp only [AudioLane.close, OpusDecoderLane.close, AudioDecoder.close]
  split_ifs with hstate
  · exact hidle (by rw [hstate]; nofun)
  · rfl

/-- What a call of `decode` gives to the decoder. -/
def chunks (lane : AudioLane) (packet : Bytes) (seq : UInt32) : List EncodedAudioChunk :=
  let submission := (lane.decoder.decode packet seq).1
  if submission.taken then [submission.chunk] else []

theorem Paced.decode (h : lane.Paced given begun) (packet : Bytes) (seq : UInt32) :
    AudioLane.Paced { lane with decoder := (lane.decoder.decode packet seq).2 }
      (given ++ lane.chunks packet seq) begun := by
  have hkeep : (lane.decoder.stamp seq).2.decoder = lane.decoder.decoder := rfl
  obtain ⟨horder, hidle, hlive, hapart, hcursor⟩ := h
  by_cases hstate : lane.decoder.decoder.state = .configured
  · refine ⟨?_, ?_, hlive, hapart, hcursor⟩
    · simp only [chunks, OpusDecoderLane.decode, AudioDecoder.decode, hkeep, hstate, if_true]
      rw [← List.append_assoc]
      exact horder.append (List.Sublist.refl _)
    · simp [OpusDecoderLane.decode, AudioDecoder.decode, hkeep, hstate]
  · refine ⟨?_, ?_, hlive, hapart, hcursor⟩
    · simpa [chunks, OpusDecoderLane.decode, AudioDecoder.decode, hkeep, hstate] using horder
    · simpa [OpusDecoderLane.decode, AudioDecoder.decode, hkeep, hstate] using hidle

theorem Paced.error (h : lane.Paced given begun) (he : Playback.onError lane = some lane') :
    lane'.Paced given begun := by
  obtain ⟨decoder, herr, rfl⟩ := Option.map_eq_some_iff.mp he
  rw [AudioDecoder.error] at herr
  split at herr
  · cases herr
    refine ⟨?_, fun _ => rfl, h.live, h.apart, h.cursor⟩
    rw [List.append_nil]
    exact h.buffers
  · cases herr

theorem Paced.ended (h : lane.Paced given begun) (he : Playback.onEnded idx lane = some lane') :
    lane'.Paced given begun := by
  rw [Playback.onEnded] at he
  split_ifs at he
  cases he
  have hsub := List.eraseIdx_sublist lane.scheduler.liveSources idx
  exact ⟨h.order, h.idle, hsub.trans h.live, h.apart.sublist hsub,
    fun s hs => h.cursor s (hsub.subset hs)⟩

/-- The source that an output starts. -/
def source (lane : AudioLane) (now : ℚ≥0) : List (Source EncodedAudioChunk) :=
  (lane.decoder.decoder.output.map (fun (chunk, _) => (lane.scheduler.enqueue now chunk).1)).toList

theorem Paced.output (h : lane.Paced given begun)
    (he : Playback.onOutput now lane = some lane') :
    lane'.Paced given (begun ++ lane.source now) := by
  obtain ⟨⟨chunk, decoder⟩, hout, rfl⟩ := Option.map_eq_some_iff.mp he
  have hsource : lane.source now = [(lane.scheduler.enqueue now chunk).1] := by
    rw [source, hout]
    rfl
  rw [AudioDecoder.output] at hout
  split at hout
  · next hstate hqueue =>
    cases hout
    rw [hsource]
    have hstart := lane.scheduler.start_enqueue now chunk
    have hcursor : lane.scheduler.playCursor ≤ (lane.scheduler.enqueue now chunk).1.start :=
      hstart ▸ le_max_left ..
    have hlater : ∀ s ∈ lane.scheduler.liveSources,
        s.start + frameDuration ≤ (lane.scheduler.enqueue now chunk).1.start :=
      fun s hs => (h.cursor s hs).trans hcursor
    refine ⟨?_, fun hne => absurd hstate hne, h.live.append (List.Sublist.refl _), ?_, ?_⟩
    · have horder := h.order
      rw [hqueue] at horder
      rw [List.map_append, List.map_singleton, List.append_assoc]
      exact horder
    · refine List.pairwise_append.mpr ⟨h.apart, List.pairwise_singleton .., ?_⟩
      intro s hs t ht
      rw [List.mem_singleton.mp ht]
      exact hlater s hs
    · intro s hs
      obtain hs | hs := List.mem_append.mp hs
      · exact (hlater s hs).trans le_self_add
      · rw [List.mem_singleton.mp hs]
        exact le_refl _
  · cases hout

end AudioLane

namespace Playback

variable {p q : Playback} {given : String → List EncodedAudioChunk}
  {begun : String → List (Source EncodedAudioChunk)}

/-- Every lane is paced, and a slug without a lane is silent. -/
structure Steady (given : String → List EncodedAudioChunk)
    (begun : String → List (Source EncodedAudioChunk)) (p : Playback) : Prop where
  paced : ∀ slug, (p.lanes slug).Paced (given slug) (begun slug)
  silent : ∀ slug, p.panel.audioLanes slug = none → (p.lanes slug).scheduler.liveSources = []

/-- Another lane for a slug. -/
theorem Steady.put (h : Steady given begun p) {lane : AudioLane}
    (hlanes : q.lanes = Function.update p.lanes slug lane)
    (hother : ∀ other ≠ slug, q.panel.audioLanes other = p.panel.audioLanes other)
    (hpaced : lane.Paced given' begun')
    (hsilent : q.panel.audioLanes slug = none → lane.scheduler.liveSources = []) :
    Steady (Function.update given slug given') (Function.update begun slug begun') q := by
  refine ⟨fun other => ?_, fun other => ?_⟩
  · rw [hlanes]
    by_cases heq : other = slug
    · subst heq
      rw [Function.update_self, Function.update_self, Function.update_self]
      exact hpaced
    · rw [Function.update_of_ne heq, Function.update_of_ne heq, Function.update_of_ne heq]
      exact h.paced other
  · rw [hlanes]
    by_cases heq : other = slug
    · subst heq
      rw [Function.update_self]
      exact hsilent
    · rw [Function.update_of_ne heq, hother other heq]
      exact h.silent other

/-- Another lane for a slug, when nothing is decoded or started. -/
theorem Steady.keep (h : Steady given begun p) {lane : AudioLane}
    (hlanes : q.lanes = Function.update p.lanes slug lane)
    (hother : ∀ other ≠ slug, q.panel.audioLanes other = p.panel.audioLanes other)
    (hpaced : lane.Paced (given slug) (begun slug))
    (hsilent : q.panel.audioLanes slug = none → lane.scheduler.liveSources = []) :
    Steady given begun q := by
  have hput := h.put hlanes hother hpaced hsilent
  rwa [Function.update_eq_self, Function.update_eq_self] at hput

theorem Steady.same (h : Steady given begun p) (hlanes : q.lanes = p.lanes)
    (hpanel : q.panel.audioLanes = p.panel.audioLanes) : Steady given begun q :=
  ⟨fun slug => hlanes ▸ h.paced slug, fun slug => by rw [hlanes, hpanel]; exact h.silent slug⟩

theorem Steady.ensureLane (h : Steady given begun p) (slug : String) :
    Steady given begun (p.ensureLane slug).2 := by
  cases hget : p.get slug with
  | some lane => rwa [ensureLane_some hget]
  | none =>
    cases ht : p.panel.graph.tracks.lookup slug with
    | none => rwa [ensureLane_none hget ht]
    | some t =>
      rw [ensureLane_new hget ht]
      refine h.keep rfl ?_ (AudioLane.paced_of_empty (h.paced slug).buffers rfl rfl) (fun _ => rfl)
      intro other hne
      simp only [set, MixerState.ensureLane, get_eq_none.mp hget, ht, if_true]
      exact Function.update_of_ne hne ..

theorem Steady.drop (h : Steady given begun p) (slug : String) :
    Steady given begun (p.drop slug) := by
  have hother : ∀ other ≠ slug,
      (p.panel.drop slug).audioLanes other = p.panel.audioLanes other := fun other hne =>
    Function.update_of_ne hne ..
  rw [Playback.drop]
  cases hget : p.get slug with
  | some lane =>
    obtain ⟨-, rfl⟩ := get_eq_some.mp hget
    exact h.keep rfl hother (h.paced slug).close (fun _ => rfl)
  | none =>
    have hsame : p.lanes = Function.update p.lanes slug (p.lanes slug) :=
      (Function.update_eq_self ..).symm
    exact h.keep hsame hother (h.paced slug) (fun _ => h.silent slug (get_eq_none.mp hget))

theorem audioLanes_add (m : MixerState) (t : TrackInfo) :
    (m.add t false).audioLanes = m.audioLanes := by
  rw [MixerState.add_eq, MixerState.ensureLane_false]
  rfl

theorem Steady.onTrackList (h : Steady given begun p) (incoming : List TrackInfo) :
    Steady given begun (p.onTrackList incoming) := by
  have hindex : Steady given begun { p with panel := p.panel.indexTracks incoming } :=
    h.same rfl rfl
  have hdrops := p.panel.tracks.foldlRecOn (motive := Steady given begun) (dropTurn incoming)
    hindex (fun s hs t _ => by
      rw [dropTurn]
      split_ifs
      · exact hs
      · exact hs.drop t.slug)
  have hadds := incoming.foldlRecOn (motive := Steady given begun) addTurn hdrops
    (fun s hs t _ => by
      rw [addTurn]
      cases s.panel.settings t.slug with
      | some _ => exact hs
      | none =>
        have hadd : Steady given begun { s with panel := s.panel.add t false } :=
          hs.same rfl (audioLanes_add s.panel t)
        exact hadd.ensureLane t.slug)
  exact hadds.same rfl rfl

/-- The chunks that a step gives to the decoder of a slug. -/
def gives (p : Playback) (slug : String) : PlaybackAct → List EncodedAudioChunk
  | .audio trackID packet seq =>
    match p.panel.idToSlug trackID, (p.ensureLane slug).1 with
    | some routed, some lane => if routed = slug then lane.chunks packet seq else []
    | _, _ => []
  | _ => []

/-- The sources that a step starts for a slug. -/
def starts (p : Playback) (slug : String) : PlaybackAct → List (Source EncodedAudioChunk)
  | .output routed now =>
    match p.get slug with
    | some lane => if routed = slug then lane.source now else []
    | none => []
  | _ => []

end Playback

structure Playing where
  playback : Playback
  submitted : String → List EncodedAudioChunk
  started : String → List (Source EncodedAudioChunk)

def Playing.step (w : Playing) (a : PlaybackAct) : Option Playing :=
  (w.playback.step a).map (fun p =>
    { playback := p
      submitted := fun slug => w.submitted slug ++ w.playback.gives slug a
      started := fun slug => w.started slug ++ w.playback.starts slug a })

def playing (stored global : Prefs) : Machine Playing PlaybackAct :=
  ⟨⟨.mount stored global, fun _ => [], fun _ => []⟩, Playing.step⟩

namespace Playing

open Playback (Steady)

variable {w x : Playing} {p q : Playback}

/-- A log that one step extends under one slug only. -/
theorem update_append {β : Type} {f g : String → List β}
    (hg : ∀ other ≠ slug, g other = []) :
    (fun other => f other ++ g other) = Function.update f slug (f slug ++ g slug) := by
  funext other
  rw [Function.update_apply]
  split_ifs with heq
  · rw [heq]
  · rw [hg other heq, List.append_nil]

theorem update_nil {β : Type} (f : String → List β) :
    (fun other => f other ++ []) = f := funext fun _ => List.append_nil _

theorem steady_onAudio {given : String → List EncodedAudioChunk}
    {begun : String → List (Source EncodedAudioChunk)} (h : Steady given begun p)
    (trackID : Nat) (packet : Bytes) (seq : UInt32) :
    Steady (fun slug => given slug ++ p.gives slug (.audio trackID packet seq)) begun
      (p.onAudio trackID packet seq).2 := by
  cases hroute : p.panel.idToSlug trackID with
  | none =>
    have hnone : ∀ slug, p.gives slug (.audio trackID packet seq) = [] := fun slug => by
      simp only [Playback.gives, hroute]
    simp only [hnone, update_nil]
    rwa [Playback.onAudio_unrouted hroute]
  | some slug =>
    have hother : ∀ other ≠ slug, p.gives other (.audio trackID packet seq) = [] := by
      intro other hne
      simp only [Playback.gives, hroute]
      split
      · next heq _ =>
        cases heq
        exact if_neg hne.symm
      · rfl
    rw [update_append hother]
    have hensure := h.ensureLane slug
    have hget := p.get_ensureLane slug
    rcases hlane : p.ensureLane slug with ⟨_ | lane, q⟩ <;> rw [hlane] at hensure hget
    · have hnone : p.gives slug (.audio trackID packet seq) = [] := by
        simp only [Playback.gives, hroute, hlane]
      rw [Playback.onAudio_none hroute hlane, hnone, List.append_nil, Function.update_eq_self]
      exact hensure
    · have hsome : p.gives slug (.audio trackID packet seq) = lane.chunks packet seq := by
        simp only [Playback.gives, hroute, hlane, if_true]
      change Steady given begun q at hensure
      obtain ⟨hthere, rfl⟩ := Playback.get_eq_some.mp (show q.get slug = some lane from hget)
      rw [Playback.onAudio_some hroute hlane, hsome]
      have hput := hensure.put (q := q.set slug _) rfl (fun _ _ => rfl)
        ((hensure.paced slug).decode packet seq) (fun hno => absurd hno hthere)
      rwa [Function.update_eq_self] at hput

/-- A callback that starts nothing. -/
theorem steady_callback {given : String → List EncodedAudioChunk}
    {begun : String → List (Source EncodedAudioChunk)} (h : Steady given begun p)
    {f : AudioLane → Option AudioLane} (hq : p.callback slug f = some q)
    (hf : ∀ lane lane', lane.Paced (given slug) (begun slug) → f lane = some lane' →
      lane'.Paced (given slug) (begun slug)) : Steady given begun q := by
  obtain ⟨lane, lane', hget, hlane, rfl⟩ := Playback.callback_eq_some hq
  obtain ⟨hthere, rfl⟩ := Playback.get_eq_some.mp hget
  exact h.keep rfl (fun _ _ => rfl) (hf _ _ (h.paced slug) hlane) (fun hno => absurd hno hthere)

theorem steady_output {given : String → List EncodedAudioChunk}
    {begun : String → List (Source EncodedAudioChunk)} (h : Steady given begun p)
    (hq : p.callback slug (Playback.onOutput now) = some q) :
    Steady given (fun other => begun other ++ p.starts other (.output slug now)) q := by
  obtain ⟨lane, lane', hget, hlane, rfl⟩ := Playback.callback_eq_some hq
  have hother : ∀ other ≠ slug, p.starts other (.output slug now) = [] := by
    intro other hne
    simp only [Playback.starts]
    split
    · exact if_neg hne.symm
    · rfl
  have hsame : p.starts slug (.output slug now) = lane.source now := by
    simp only [Playback.starts, hget, if_true]
  obtain ⟨hthere, rfl⟩ := Playback.get_eq_some.mp hget
  rw [update_append hother, hsame]
  have hput := h.put (q := p.set slug lane') rfl (fun _ _ => rfl) ((h.paced slug).output hlane)
    (fun hno => absurd hno hthere)
  rwa [Function.update_eq_self] at hput

theorem steady_step (h : Steady w.submitted w.started w.playback) (he : w.step a = some x) :
    Steady x.submitted x.started x.playback := by
  obtain ⟨p, hp, rfl⟩ := Option.map_eq_some_iff.mp he
  cases a with
  | trackList incoming =>
    cases hp
    simp only [Playback.gives, Playback.starts, update_nil]
    exact h.onTrackList incoming
  | audio trackID packet seq =>
    cases hp
    simp only [Playback.starts, update_nil]
    exact steady_onAudio h trackID packet seq
  | click a =>
    rw [Playback.step] at hp
    split_ifs at hp with ha
    cases hp
    simp only [Playback.gives, Playback.starts, update_nil]
    refine h.same rfl ?_
    exact (Prod.mk.inj (w.playback.panel.routing_click ha)).1
  | output slug now =>
    simp only [Playback.gives, update_nil]
    exact steady_output h hp
  | error slug =>
    simp only [Playback.gives, Playback.starts, update_nil]
    exact steady_callback h hp (fun _ _ hpaced => hpaced.error)
  | ended slug idx =>
    simp only [Playback.gives, Playback.starts, update_nil]
    exact steady_callback h hp (fun _ _ hpaced => hpaced.ended)

/-- What holds of the lanes in every reachable state. -/
structure Sound (w : Playing) : Prop where
  steady : Steady w.submitted w.started w.playback
  follows : ∃ history, w.playback.Follows history

theorem sound_of_reachable (h : (playing stored global).Reachable w) : w.Sound := by
  refine h.invariant ⟨⟨fun _ => ?_, fun _ _ => rfl⟩, [], Playback.follows_mount stored global⟩ ?_
  · exact AudioLane.paced_of_empty (List.Sublist.refl _) rfl rfl
  · rintro w a x ⟨hsteady, history, hfollows⟩ he
    refine ⟨steady_step hsteady he, a :: history, ?_⟩
    obtain ⟨p, hp, rfl⟩ := Option.map_eq_some_iff.mp he
    exact hfollows.step hp

/-- In every reachable state and for every slug: what was started is what was submitted, in that
order and with nothing twice, the sources that still play do not overlap, and a slug that is not
on the list plays nothing. -/
theorem played_in_order (h : (playing stored global).Reachable w) (slug : String) :
    ((w.started slug).map Source.buffer).Sublist (w.submitted slug) ∧
      (w.playback.lanes slug).scheduler.liveSources.Sublist (w.started slug) ∧
      (w.playback.lanes slug).scheduler.liveSources.Pairwise
        (fun s t => s.start + frameDuration ≤ t.start) ∧
      (slug ∉ w.playback.panel.slugs → (w.playback.lanes slug).scheduler.liveSources = []) := by
  obtain ⟨hsteady, history, hfollows⟩ := sound_of_reachable h
  have hpaced := hsteady.paced slug
  refine ⟨hpaced.buffers, hpaced.live, hpaced.apart, fun hnot => hsteady.silent slug ?_⟩
  exact (hfollows.seated.unlisted slug hnot).lane

/-- Two packets of the microphone, of which the second waits for the first to be played. -/
def micRun : List PlaybackAct :=
  [.trackList [MixerState.micTrack], .audio 1 [1] 5, .audio 1 [2] 6, .output "mic" 0,
    .output "mic" 0]

theorem played_in_order_mic : ∃ w, (playing (fun _ => none) (fun _ => none)).Reachable w ∧
    (w.started "mic").length = 2 ∧
    ((w.started "mic").map Source.buffer).Sublist (w.submitted "mic") ∧
    (w.playback.lanes "mic").scheduler.liveSources.Pairwise
      (fun s t => s.start + frameDuration ≤ t.start) := by
  have hrun : ((playing (fun _ => none) (fun _ => none)).run
      (playing (fun _ => none) (fun _ => none)).init micRun).any
        (fun w => (w.started "mic").length = 2) = true := by
    decide +kernel
  obtain ⟨w, hw, hlength⟩ := (Option.any_eq_true _ _).mp hrun
  have hreach := (Machine.Reachable.init _).of_run _ hw
  obtain ⟨hsub, -, hapart, -⟩ := played_in_order hreach "mic"
  exact ⟨w, hreach, of_decide_eq_true hlength, hsub, hapart⟩

end Playing

end StreamMix.Extension
