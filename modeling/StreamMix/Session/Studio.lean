import StreamMix.Publisher.Pipeline
import StreamMix.Session.Viewing

universe u v

/-! The capture threads of a publisher in front of its session: each runs the callback of its
track, and the others may move between two turns of its loop. -/

namespace StreamMix.Session

open Wire Publisher Relay
open Extension (viewer)
open scoped List

variable {Sample : Type u} {σ : Type v}

/-- `log` is a ghost: what the session went through. -/
structure Studio (Sample : Type u) (σ : Type v) where
  lanes : Nat → TrackPipeline Sample σ
  session : State
  log : List Act

/-- The callback of a track begins with its samples and goes on with the turns of its loop. -/
inductive StudioAct (Sample : Type u)
  | deliver (i : Nat) (samples : List Sample)
  | turn (i : Nat) (now : UInt64)
  | session (a : Act)

def Act.isCapture : Act → Bool
  | .client (.capture ..) => true
  | _ => false

namespace Studio

def setLane (y : Studio Sample σ) (i : Nat) (lane : TrackPipeline Sample σ) : Studio Sample σ :=
  { y with lanes := Function.update y.lanes i lane }

def perform (cfg : Config) (y : Studio Sample σ) (a : Act) : Option (Studio Sample σ) :=
  (y.session.step cfg a).map (fun s => { y with session := s, log := y.log ++ [a] })

def step (opus : σ → List Sample → Int × Bytes × σ) (cfg : Config) (y : Studio Sample σ) :
    StudioAct Sample → Option (Studio Sample σ)
  | .deliver i samples =>
    -- the callback before has left its loop
    if i < cfg.tracks.length ∧ (y.lanes i).buffer.length < kNeed then
      some (y.setLane i { y.lanes i with buffer := (y.lanes i).buffer ++ samples })
    else none
  | .turn i now =>
    match cfg.tracks[i]? with
    | none => none
    | some t =>
      if kNeed ≤ (y.lanes i).buffer.length then
        let encoded := (encode opus (y.lanes i).encoder ((y.lanes i).buffer.take kNeed)).1
        let next := y.setLane i ((y.lanes i).turn opus t (fun _ => now))
        if encoded.isEmpty then some next
        else next.perform cfg (.client (.capture i now encoded))
      else none
  | .session a => if a.isCapture then none else y.perform cfg a

end Studio

def studio (opus : σ → List Sample → Int × Bytes × σ) (encs : Nat → σ) (cfg : Config)
    (name : String) (maxSubs sendBuf : Int) : Machine (Studio Sample σ) (StudioAct Sample) :=
  ⟨⟨fun i => .create (encs i), (session cfg name maxSubs sendBuf).init, []⟩,
    Studio.step opus cfg⟩

/-- What the capture of a track has delivered. -/
def delivered (i : Nat) (as : List (StudioAct Sample)) : List Sample :=
  as.flatMap (fun
    | .deliver j samples => if j = i then samples else []
    | _ => [])

/-- What the encoder of a track has put out. -/
def encodedOf (i : Nat) (as : List Act) : List Bytes :=
  as.filterMap (fun
    | .client (.capture j _ encoded) => if j = i then some encoded else none
    | _ => none)

theorem encodedOf_concat (i : Nat) (as : List Act) (a : Act) :
    encodedOf i (as ++ [a]) = encodedOf i as ++ encodedOf i [a] := List.filterMap_append ..

theorem encodedOf_other (i : Nat) {a : Act} (h : a.isCapture = false) : encodedOf i [a] = [] := by
  cases a with
  | relay b => rfl
  | client b =>
    cases b with
    | capture => cases h
    | tryConnect | connectionError | established | clear | hello | trackList | writeable | write
    | closed => rfl

theorem encodedOf_capture (i j : Nat) (now : UInt64) (encoded : Bytes) :
    encodedOf i [.client (.capture j now encoded)] = if j = i then [encoded] else [] := by
  simp only [encodedOf, List.filterMap_cons, List.filterMap_nil]
  split_ifs <;> rfl

theorem delivered_concat (i : Nat) (as : List (StudioAct Sample)) (a : StudioAct Sample) :
    delivered i (as ++ [a]) = delivered i as ++ delivered i [a] := List.flatMap_append ..

theorem delivered_deliver (i j : Nat) (samples : List Sample) :
    delivered i [.deliver j samples] = if j = i then samples else [] := List.append_nil _

theorem delivered_turn (i j : Nat) (now : UInt64) :
    delivered i [(.turn j now : StudioAct Sample)] = [] := rfl

theorem delivered_session (i : Nat) (a : Act) :
    delivered i [(.session a : StudioAct Sample)] = [] := rfl

section

variable {opus : σ → List Sample → Int × Bytes × σ} {encs : Nat → σ} {cfg : Config}
  {name : String} {maxSubs sendBuf : Int} {y z : Studio Sample σ} {as : List (StudioAct Sample)}

theorem blocks_turn (opus : σ → List Sample → Int × Bytes × σ) (t : TrackSpec)
    (clock : Nat → UInt64) (p : TrackPipeline Sample σ) :
    (p.turn opus t clock).blocks = p.blocks ++ [p.buffer.take kNeed] := by
  simp only [TrackPipeline.turn]
  split
  · rfl
  · split <;> rfl

/-- What the pipeline of a track has made of its stream, and what of it the session was given. -/
structure Recorded (opus : σ → List Sample → Int × Bytes × σ) (t : TrackSpec) (enc : σ)
    (stream : List Sample) (sent : List Bytes) (p : TrackPipeline Sample σ) : Prop where
  follows : TrackPipeline.Follows opus t enc stream p
  packets : sent = Publisher.packets opus enc p.blocks

theorem Recorded.grow {p : TrackPipeline Sample σ} (h : Recorded opus t enc stream sent p)
    (samples : List Sample) : Recorded opus t enc (stream ++ samples) sent
      { p with buffer := p.buffer ++ samples } := by
  refine ⟨⟨?_, h.follows.sized, h.follows.encoder, h.follows.seq, h.follows.queued⟩, h.packets⟩
  rw [← h.follows.whole, List.append_assoc]

theorem Recorded.turn {p : TrackPipeline Sample σ} (h : Recorded opus t enc stream sent p)
    (ht : t.id.toNat ≤ maxTrackSlot) (hopus : ∀ enc samples, (opus enc samples).1 ≤ 4000)
    (hfull : kNeed ≤ p.buffer.length) (clock : Nat → UInt64) :
    Recorded opus t enc stream
      (sent ++ if (encode opus p.encoder (p.buffer.take kNeed)).1.isEmpty then []
        else [(encode opus p.encoder (p.buffer.take kNeed)).1])
      (p.turn opus t clock) := by
  refine ⟨h.follows.turn ht hopus hfull, ?_⟩
  rw [blocks_turn, TrackPipeline.packets_concat, ← h.follows.encoder, h.packets]

structure Sampled (opus : σ → List Sample → Int × Bytes × σ) (encs : Nat → σ) (cfg : Config)
    (name : String) (maxSubs sendBuf : Int) (as : List (StudioAct Sample))
    (y : Studio Sample σ) : Prop where
  run : (session cfg name maxSubs sendBuf).run (session cfg name maxSubs sendBuf).init y.log =
    some y.session
  lanes : ∀ i t, cfg.tracks[i]? = some t →
    Recorded opus t (encs i) (delivered i as) (encodedOf i y.log) (y.lanes i)

/-- A step of one track. -/
theorem Sampled.update {bs : List (StudioAct Sample)} {i : Nat}
    (h : Sampled opus encs cfg name maxSubs sendBuf as y)
    (hrun : (session cfg name maxSubs sendBuf).run (session cfg name maxSubs sendBuf).init z.log =
      some z.session)
    (hother : ∀ j ≠ i, delivered j bs = delivered j as ∧ encodedOf j z.log = encodedOf j y.log ∧
      z.lanes j = y.lanes j)
    (hself : ∀ t, cfg.tracks[i]? = some t →
      Recorded opus t (encs i) (delivered i bs) (encodedOf i z.log) (z.lanes i)) :
    Sampled opus encs cfg name maxSubs sendBuf bs z := by
  refine ⟨hrun, ?_⟩
  intro j t ht
  by_cases hj : j = i
  · rw [hj] at ht ⊢
    exact hself t ht
  · obtain ⟨hstream, hsent, hlane⟩ := hother j hj
    rw [hstream, hsent, hlane]
    exact h.lanes j t ht

theorem run_perform {w : Studio Sample σ} {a : Act}
    (hrun : (session cfg name maxSubs sendBuf).run (session cfg name maxSubs sendBuf).init w.log =
      some w.session) (he : w.perform cfg a = some z) :
    z.lanes = w.lanes ∧ z.log = w.log ++ [a] ∧ (session cfg name maxSubs sendBuf).run
      (session cfg name maxSubs sendBuf).init z.log = some z.session := by
  obtain ⟨s, hs, rfl⟩ := Option.map_eq_some_iff.mp he
  refine ⟨rfl, rfl, ?_⟩
  dsimp only
  rw [Machine.run_concat, hrun]
  exact hs

theorem Sampled.step (hslot : ∀ t ∈ cfg.tracks, t.id.toNat ≤ maxTrackSlot)
    (hopus : ∀ enc samples, (opus enc samples).1 ≤ 4000)
    (h : Sampled opus encs cfg name maxSubs sendBuf as y) (he : y.step opus cfg a = some z) :
    Sampled opus encs cfg name maxSubs sendBuf (as ++ [a]) z := by
  cases a with
  | deliver i samples =>
    simp only [Studio.step] at he
    split_ifs at he
    cases he
    refine h.update (i := i) h.run ?_ ?_
    · intro j hj
      rw [delivered_concat, delivered_deliver, if_neg hj.symm, List.append_nil]
      exact ⟨rfl, rfl, Function.update_of_ne hj ..⟩
    · intro t ht
      rw [delivered_concat, delivered_deliver, if_pos rfl]
      simp only [Studio.setLane, Function.update_self]
      exact (h.lanes i t ht).grow samples
  | turn i now =>
    simp only [Studio.step] at he
    split at he
    · cases he
    · next t ht =>
      split_ifs at he with hfull hempty
      · cases he
        refine h.update (i := i) h.run ?_ ?_
        · intro j hj
          rw [delivered_concat, delivered_turn, List.append_nil]
          exact ⟨rfl, rfl, Function.update_of_ne hj ..⟩
        · intro u hu
          obtain rfl : t = u := Option.some.inj (ht.symm.trans hu)
          have hturn := (h.lanes i t ht).turn (hslot t (List.mem_of_getElem? ht)) hopus hfull
            (fun _ => now)
          rw [if_pos hempty, List.append_nil] at hturn
          rw [delivered_concat, delivered_turn, List.append_nil]
          simp only [Studio.setLane, Function.update_self]
          exact hturn
      · obtain ⟨hlanes, hlog, hrun⟩ := run_perform (w := y.setLane i _) h.run he
        refine h.update (i := i) hrun ?_ ?_
        · intro j hj
          rw [delivered_concat, delivered_turn, List.append_nil, hlog, hlanes, encodedOf_concat,
            encodedOf_capture, if_neg hj.symm, List.append_nil]
          exact ⟨rfl, rfl, Function.update_of_ne hj ..⟩
        · intro u hu
          obtain rfl : t = u := Option.some.inj (ht.symm.trans hu)
          have hturn := (h.lanes i t ht).turn (hslot t (List.mem_of_getElem? ht)) hopus hfull
            (fun _ => now)
          rw [if_neg hempty] at hturn
          rw [delivered_concat, delivered_turn, List.append_nil, hlog, hlanes, encodedOf_concat,
            encodedOf_capture, if_pos rfl]
          simp only [Studio.setLane, Function.update_self]
          exact hturn
  | session a =>
    simp only [Studio.step] at he
    split_ifs at he with hcapture
    obtain ⟨hlanes, hlog, hrun⟩ := run_perform h.run he
    refine ⟨hrun, ?_⟩
    intro i t ht
    rw [delivered_concat, delivered_session, List.append_nil, hlog, encodedOf_concat,
      encodedOf_other i (by simpa using hcapture), List.append_nil, hlanes]
    exact h.lanes i t ht

theorem sampled_of_run (hslot : ∀ t ∈ cfg.tracks, t.id.toNat ≤ maxTrackSlot)
    (hopus : ∀ enc samples, (opus enc samples).1 ≤ 4000)
    (hrun : (studio opus encs cfg name maxSubs sendBuf).run
      (studio opus encs cfg name maxSubs sendBuf).init as = some y) :
    Sampled opus encs cfg name maxSubs sendBuf as y := by
  have hall : Sampled opus encs cfg name maxSubs sendBuf as.reverse.reverse y := by
    refine Machine.run_invariant (P := fun as y =>
      Sampled opus encs cfg name maxSubs sendBuf as.reverse y) ?_ ?_ hrun
    · exact ⟨rfl, fun i _ _ => ⟨TrackPipeline.follows_create (encs i), rfl⟩⟩
    · intro as y a z h he
      rw [List.reverse_cons]
      exact h.step hslot hopus he
  rwa [List.reverse_reverse] at hall

/-- The blocks so far are the first ones of the stream. -/
theorem packets_sublist (h : TrackPipeline.Follows opus t enc stream p) :
    (packets opus enc p.blocks).Sublist (packets opus enc (Blocks.blocks kNeed stream)) := by
  have hblocks : Blocks.blocks kNeed stream = p.blocks ++ Blocks.blocks kNeed p.buffer := by
    rw [← h.whole]
    exact Blocks.blocks_append (by decide) h.sized p.buffer
  rw [hblocks]
  induction Blocks.blocks kNeed p.buffer using List.reverseRecOn with
  | nil => rw [List.append_nil]
  | append_singleton blocks block ih =>
    rw [← List.append_assoc, TrackPipeline.packets_concat]
    exact ih.trans (List.sublist_append_left ..)

/-- With a slug of its own, a track has the captures under the slug to itself. -/
theorem captured_eq {i : Nat} (ht : cfg.tracks[i]? = some t)
    (hown : ∀ j u, cfg.tracks[j]? = some u → slugText u = slugText t → j = i) (as : List Act) :
    captured cfg (slugText t) as = encodedOf i as := by
  refine List.filterMap_congr (fun a _ => ?_)
  cases a with
  | relay b => rfl
  | client b =>
    cases b with
    | capture j now encoded =>
      have hsame : cfg.tracks[j]?.any (fun u => slugText u == slugText t) = true ↔ j = i := by
        rw [Option.any_eq_true]
        constructor
        · rintro ⟨u, hu, hslug⟩
          exact hown j u hu (eq_of_beq hslug)
        · rintro rfl
          exact ⟨t, ht, beq_self_eq_true _⟩
      simp only [hsame]
    | tryConnect | connectionError | established | clear | hello | trackList | writeable | write
    | closed => rfl

/-- From the threads that capture the tracks to the page of a viewer: under the slug of a track
the page plays packets of the track's encoder, for consecutive blocks of the samples that its
capture delivered, in their order and none of them twice. -/
theorem played_as_sampled (hargs : parseArgs args = .ok cfg)
    (hl : ∀ t ∈ cfg.tracks, Verbatim t.label)
    (hopus : ∀ enc samples, (opus enc samples).1 ≤ 4000)
    (hrun : (studio opus encs cfg name maxSubs sendBuf).run
      (studio opus encs cfg name maxSubs sendBuf).init as = some y)
    (hview : (viewer stored global).run (viewer stored global).init vs = some w)
    (hms : (messages vs).Sublist (y.session.hub.history.map (fun m => m.packet.bytes)))
    {i : Nat} (ht : cfg.tracks[i]? = some t)
    (hown : ∀ j u, cfg.tracks[j]? = some u → slugText u = slugText t → j = i) :
    ((w.started (slugText t)).map (fun src => src.buffer.data)).Sublist
      (packets opus (encs i) (Blocks.blocks kNeed (delivered i as))) := by
  obtain ⟨hc, -, hlen⟩ := checked_parseArgs hargs
  have hsampled := sampled_of_run (fun u hu => (hc.each hlen u hu).2.2) hopus hrun
  have hlane := hsampled.lanes i t ht
  calc (w.started (slugText t)).map (fun src => src.buffer.data)
    _ <+ captured cfg (slugText t) y.log :=
      played_as_captured hargs hl hsampled.run hview hms (slugText t)
    _ = encodedOf i y.log := captured_eq ht hown y.log
    _ = packets opus (encs i) (y.lanes i).blocks := hlane.packets
    _ <+ packets opus (encs i) (Blocks.blocks kNeed (delivered i as)) :=
      packets_sublist hlane.follows

end

end StreamMix.Session
