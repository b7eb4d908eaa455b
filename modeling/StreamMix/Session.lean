import StreamMix.Publisher.Announce
import StreamMix.Publisher.WsClient
import StreamMix.Relay.Streams

/-! A publisher, the channel it publishes on and the viewers of that channel.  The request
that `TryConnect` number `n` makes is served by publisher handler `n` of the hub. -/

namespace StreamMix.Session

open Wire Publisher Relay
open Js (Number)
open Precedence (Preceded)

/-- A packet with the connection it was written on. -/
structure Sent where
  conn : Nat
  packet : Packet
  deriving DecidableEq

/-- The header check of `handlePublish`. -/
def sniff (m : Sent) : Bool := 4 ≤ m.packet.bytes.length && magicMatches m.packet.bytes

def Sent.isTrackList (m : Sent) : Bool :=
  match m.packet.origin with
  | .trackList _ => true
  | _ => false

/-- `read` counts the packets that the handler of each connection has read. -/
structure State where
  client : Client
  hub : Hub Sent
  read : Nat → Nat

inductive Act
  | client (a : ClientAct)
  | relay (a : HubAct Sent)

/-- Whether a handler has sent the response that the client takes for a handshake. -/
def answered : PublisherPc Sent → Bool
  | .idle | .refused | .accept => false
  | _ => true

namespace State

/-- Where the parts meet: a handshake needs an answer and a handler a request, and a read
returns the next packet written on the connection. -/
def admits (y : State) : Act → Bool
  | .client .established => answered (y.hub.publisher y.client.conn)
  | .relay (.publisher r .claim) => 0 < r && r ≤ y.client.conn
  | .relay (.publisher r (.read binary m)) =>
    binary && m.conn == r && (y.client.written r)[y.read r]? == some m.packet
  | _ => true

def advance (y : State) : HubAct Sent → Nat → Nat
  | .publisher r (.read _ _) => Function.update y.read r (y.read r + 1)
  | _ => y.read

def step (cfg : Config) (y : State) (a : Act) : Option State :=
  if y.admits a then
    match a with
    | .client a => (y.client.step cfg a).map (fun c => { y with client := c })
    | .relay a => (y.hub.step sniff a).map (fun h => { y with hub := h, read := y.advance a })
  else none

/-- The conditions on a run: the client is undisturbed, nobody subscribes while a connection
that has listed its tracks is being read, and no full queue of a viewer drops a list. -/
def Calm (y : State) : Act → Prop
  | .client a => y.client.Undisturbed a
  | .relay (.subscriber _ .subscribe) => ∀ m ∈ y.hub.history, m.isTrackList = true →
    (y.hub.publisher m.conn).onAir = false
  | .relay (.publisher r .deliver) =>
    match y.hub.publisher r with
    | .deliver _ s _ .second => ∀ m ∈ (y.hub.heap s).send.buf.head?, m.isTrackList = false
    | _ => True
  | _ => True

instance (y : State) : DecidablePred y.Calm
  | .client a => inferInstanceAs (Decidable (y.client.Undisturbed a))
  | .relay (.subscriber _ .subscribe) => inferInstanceAs (Decidable (∀ m ∈ y.hub.history, _))
  | .relay (.publisher r .deliver) =>
    have : Decidable (match y.hub.publisher r with
        | .deliver _ s _ .second => ∀ m ∈ (y.hub.heap s).send.buf.head?, m.isTrackList = false
        | _ => True) :=
      match y.hub.publisher r with
      | .deliver _ s _ .second =>
        inferInstanceAs (Decidable (∀ m ∈ (y.hub.heap s).send.buf.head?, _))
      | .deliver _ _ _ .first | .deliver _ _ _ .third | .idle | .refused | .accept | .subprotocol
      | .read | .broadcast _ | .range _ | .release | .returned | .crashed => .isTrue trivial
    this
  | .relay (.publisher _ .claim) | .relay (.publisher _ (.accept _))
  | .relay (.publisher _ (.subprotocol _)) | .relay (.publisher _ .readError)
  | .relay (.publisher _ (.read _ _)) | .relay (.publisher _ (.snapshot _))
  | .relay (.publisher _ .next) | .relay (.publisher _ .release)
  | .relay (.subscriber _ (.accept _)) | .relay (.subscriber _ (.subprotocol _))
  | .relay (.subscriber _ .receive) | .relay (.subscriber _ .park) | .relay (.subscriber _ .wake)
  | .relay (.subscriber _ .done) | .relay (.subscriber _ (.write _))
  | .relay (.subscriber _ .unsub) | .relay (.unsub _) | .relay .unlock => .isTrue trivial

end State

def session (cfg : Config) (name : String) (maxSubs sendBuf : Int) : Machine State Act :=
  ⟨⟨.start, .fresh (newChannel name maxSubs sendBuf), fun _ => 0⟩, State.step cfg⟩

/-- `indexTracks`: the map as the list of its calls of `set`. -/
def indexTracks (incoming : List Ts.TrackInfo) : List (Number × List Nat) :=
  incoming.map (fun t => (t.id, t.slug))

/-- What `handleMessage` and `onTrackList` do to `idToSlug`. -/
def handleMessage (idToSlug : List (Number × List Nat)) (data : Bytes) :
    List (Number × List Nat) :=
  match Ts.decodeFrame data with
  | .error _ => idToSlug
  | .ok frame =>
    if frame.type = (MessageType.trackList.code.toNat : Number) then
      match Ts.decodeTrackList frame.payload with
      | .ok tracks => indexTracks tracks
      | .error _ => idToSlug
    else idToSlug

def idToSlug (ms : List Sent) : List (Number × List Nat) :=
  ms.foldl (fun ix m => handleMessage ix m.packet.bytes) []

/-- `Map.get`: the last `set` of a key counts. -/
def slugOf (ix : List (Number × List Nat)) (id : Number) : Option (List Nat) :=
  ix.reverse.lookup id

/-- The frame is a TRACK_LIST that the viewer accepts and that lists `id`. -/
def Lists (data : Bytes) (id : Number) : Prop :=
  ∃ g tracks, Ts.decodeFrame data = .ok g ∧ g.type = (MessageType.trackList.code.toNat : Number) ∧
    Ts.decodeTrackList g.payload = .ok tracks ∧ ∃ t ∈ tracks, t.id = id

/-- Every audio frame of a viewer comes after a TRACK_LIST of its connection that lists its
track, and finds a slug in the viewer's map. -/
def Announced (ms : List Sent) : Prop :=
  ∀ past m rest f, ms = past ++ m :: rest → Ts.decodeFrame m.packet.bytes = .ok f →
    f.type = (MessageType.audioOpus.code.toNat : Number) →
    (∃ t ∈ past, t.conn = m.conn ∧ Lists t.packet.bytes f.track) ∧
      ∃ slug, slugOf (idToSlug past) f.track = some slug ∧ slug ≠ []

/-! How the packets of a hub are to be read here. -/

def traffic (cfg : Config) : Traffic Sent where
  conn := Sent.conn
  lists m := m.isTrackList = true
  audio m := m.packet.origin = .capture
  genuine m := Client.Known cfg m.packet

/-- What a handler has read but not yet put into the history. -/
def pending : PublisherPc Sent → List Sent
  | .broadcast m => [m]
  | _ => []

namespace State

def taken (y : State) (r : Nat) : List Sent :=
  ((y.client.written r).take (y.read r)).map (Sent.mk r)

def past (y : State) (r : Nat) : List Sent := y.hub.history.filter (fun m => m.conn == r)

/-- A handler broadcasts what was written on its connection, in order. -/
structure Linked (y : State) : Prop where
  read : ∀ r, y.read r ≤ (y.client.written r).length
  taken : ∀ r, (y.hub.publisher r).early = true ∨ (y.hub.publisher r).onAir = true →
    y.taken r = y.past r ++ pending (y.hub.publisher r)

variable {y z : State} {cfg : Config}

theorem pending_of_msg {pc : PublisherPc Sent} (h : pc.msg = none) : pending pc = [] := by
  cases pc <;> first | rfl | cases h

theorem pending_of_loop {pc : PublisherPc Sent} (h : pc.loop = some l) : pending pc = [] := by
  cases pc <;> first | rfl | cases h

theorem early_msg {pc : PublisherPc Sent} (h : pc.early = true) : pc.msg = none := by
  cases pc <;> first | rfl | cases h

theorem Linked.client (hl : Linked y) (he : y.client.step cfg a = some c) :
    Linked { y with client := c } := by
  have htake : ∀ r, (c.written r).take (y.read r) = (y.client.written r).take (y.read r) := by
    intro r
    obtain ⟨tail, hk⟩ := Client.written_step he r
    rw [← hk, List.take_append_of_le_length (hl.read r)]
  refine ⟨fun r => Nat.le_trans (hl.read r) (Client.written_step he r).length_le, ?_⟩
  intro r hr
  rw [State.taken, htake r]
  exact hl.taken r hr

/-- The effect of a read. -/
theorem read_step {h k : Hub Sent} (he : h.stepPublisher sniff r (.read b m) = some k) :
    h.publisher r = .read ∧ k.history = h.history ∧
      (k.publisher = Function.update h.publisher r (.broadcast m) ∨
        k.publisher = Function.update h.publisher r .release) := by
  simp only [Hub.stepPublisher] at he
  cases hpc : h.publisher r <;> simp only [hpc, reduceCtorEq, Option.some.injEq] at he
  subst he
  refine ⟨rfl, rfl, ?_⟩
  rw [Hub.setPublisher_publisher]
  split
  · exact .inl rfl
  · exact .inr rfl

theorem Linked.readPacket (hl : Linked y) (hm : m.conn = r)
    (hw : (y.client.written r)[y.read r]? = some m.packet)
    (he : y.hub.stepPublisher sniff r (.read b m) = some k) :
    Linked { y with hub := k, read := Function.update y.read r (y.read r + 1) } := by
  obtain ⟨hpc, hhist, hk⟩ := read_step he
  obtain ⟨hlt, hget⟩ := List.getElem?_eq_some_iff.mp hw
  refine ⟨?_, ?_⟩
  · intro q
    by_cases hq : q = r
    · subst hq
      simp only [Function.update_self]
      exact hlt
    · simp only [Function.update_of_ne hq]
      exact hl.read q
  · intro q hq
    by_cases hqr : q = r
    · subst hqr
      obtain hk | hk := hk
      · have hold := hl.taken q (.inr (by rw [hpc]; rfl))
        rw [hpc, pending_of_msg rfl, List.append_nil] at hold
        have hnew : State.taken { y with
            hub := k, read := Function.update y.read q (y.read q + 1) } q = y.taken q ++ [m] := by
          simp only [State.taken, Function.update_self, List.take_add_one, hw, List.map_append,
            Option.toList_some, List.map_cons, List.map_nil]
          rw [← hm]
        rw [hnew, hold, hk]
        simp only [State.past, hhist, Function.update_self, pending]
      · rw [hk, Function.update_self] at hq
        exact absurd hq (by decide)
    · have hsame : k.publisher q = y.hub.publisher q := by
        obtain hk | hk := hk <;> rw [hk, Function.update_of_ne hqr]
      rw [hsame] at hq ⊢
      simp only [State.taken, State.past, Function.update_of_ne hqr, hhist]
      exact hl.taken q hq

theorem past_append (y : State) (k : Hub Sent) (hk : k.history = y.hub.history ++ [m]) (r : Nat) :
    State.past { y with hub := k } r = y.past r ++ if m.conn = r then [m] else [] := by
  simp only [State.past, hk, List.filter_append, List.filter_singleton, Bool.cond_eq_ite, beq_iff_eq]

/-- Steps of the relay that read nothing. -/
theorem Linked.relay (hl : Linked y)
    (htag : ∀ r m, (y.hub.publisher r).msg = some m → m.conn = r)
    (ha : ∀ r b m, a ≠ .publisher r (.read b m)) (he : y.hub.step sniff a = some k) :
    Linked { y with hub := k } := by
  refine ⟨hl.read, ?_⟩
  intro r hr
  have hbefore : (y.hub.publisher r).early = true ∨ (y.hub.publisher r).onAir = true := by
    obtain hearly | hair := hr
    · exact .inl (Hub.early_step he r hearly)
    · exact (Hub.onAir_step he r hair).symm
  have hold : State.taken { y with hub := k } r = y.past r ++ pending (y.hub.publisher r) :=
    hl.taken r hbefore
  rw [hold]
  obtain ⟨hhist, hno⟩ | ⟨q, order, m, rfl, hpc, hhist⟩ := Hub.history_step he
  · have hpast : State.past { y with hub := k } r = y.past r := by
      simp only [State.past, hhist]
    rw [hpast]
    congr 1
    obtain hk | ⟨pa, rfl, hturn⟩ := Hub.turn_step he r
    · rw [hk]
    · simp only at hr ⊢
      generalize k.publisher r = pc at hturn hr
      cases hturn with
      | opening hearly hnone => rw [pending_of_msg hnone, pending_of_msg (early_msg hearly)]
      | reading _ hread => exact absurd (congrArg (HubAct.publisher r) hread) (ha r _ _)
      | broadcasting _ hsnap _ => exact absurd (congrArg (HubAct.publisher r) hsnap) (hno r _)
      | looping hloop hloop' _ _ => rw [pending_of_loop hloop, pending_of_loop hloop']
      | finished hloop => rw [pending_of_loop hloop, pending_of_msg rfl]
      | leaving _ hlate hoff =>
        rw [hlate, hoff] at hr
        exact absurd hr (by decide)
  · have hconn : m.conn = q := htag q m (by rw [hpc]; rfl)
    rw [past_append y k hhist r]
    simp only [Hub.step, Hub.stepPublisher, hpc] at he
    split at he <;> cases he
    by_cases hrq : r = q
    · subst hrq
      rw [hpc, if_pos hconn]
      simp only [Hub.snapshot, Hub.setPublisher_publisher, Function.update_self, pending,
        List.append_nil]
    · rw [if_neg (fun h => hrq (h.symm.trans hconn))]
      simp only [Hub.snapshot, Hub.setPublisher_publisher, Function.update_of_ne hrq,
        List.append_nil]

theorem Linked.step_relay (hl : Linked y)
    (htag : ∀ r m, (y.hub.publisher r).msg = some m → m.conn = r)
    (ha : y.admits (.relay a) = true) (he : y.hub.step sniff a = some k) :
    Linked { y with hub := k, read := y.advance a } := by
  by_cases hread : ∃ r b m, a = .publisher r (.read b m)
  · obtain ⟨r, b, m, rfl⟩ := hread
    simp only [admits, Bool.and_eq_true, beq_iff_eq] at ha
    exact hl.readPacket ha.1.2 ha.2 he
  · have hsame : y.advance a = y.read := by
      simp only [advance]
      split
      · exact absurd ⟨_, _, _, rfl⟩ hread
      · rfl
    rw [hsame]
    exact hl.relay htag (fun r b m h => hread ⟨r, b, m, h⟩) he

/-- Audio is broadcast after the list of its connection. -/
theorem Linked.listed (hl : Linked y) (hleads : Leads cfg r (y.client.written r))
    (hpc : y.hub.publisher r = .broadcast m) (ha : m.packet.origin = .capture) :
    ∃ t ∈ y.hub.history, t.isTrackList = true ∧ t.conn = r := by
  have htaken := hl.taken r (.inr (by rw [hpc]; rfl))
  rw [hpc, pending] at htaken
  have hpackets : (y.past r).map Sent.packet ++ [m.packet] <+: y.client.written r := by
    have := congrArg (List.map Sent.packet) htaken
    rw [State.taken, List.map_map, List.map_append] at this
    have hid : Sent.packet ∘ Sent.mk r = id := rfl
    rw [hid, List.map_id] at this
    rw [List.map_singleton] at this
    rw [← this]
    exact List.take_prefix ..
  obtain ⟨tail, hw⟩ := hpackets
  match hpast : y.past r with
  | [] =>
    rw [hpast] at hw
    have := (hleads.first m.packet (by rw [← hw]; rfl)).1
    rw [ha] at this
    cases this
  | [_] =>
    rw [hpast] at hw
    have := (hleads.second m.packet (by rw [← hw]; rfl)).1
    rw [ha] at this
    cases this
  | s :: t :: rest =>
    rw [hpast] at hw
    have hlist := (hleads.second t.packet (by rw [← hw]; rfl)).1
    have hmem : t ∈ y.past r := by
      rw [hpast]
      exact List.mem_cons_of_mem _ List.mem_cons_self
    obtain ⟨hhist, hconn⟩ := List.mem_filter.mp hmem
    refine ⟨t, hhist, ?_, eq_of_beq hconn⟩
    rw [Sent.isTrackList, hlist]

structure Invariant (cfg : Config) (name : String) (maxSubs sendBuf : Int) (y : State) : Prop where
  client : (Publisher.client cfg).Reaches Client.Undisturbed y.client
  hub : (Relay.hub sniff name maxSubs sendBuf).Reachable y.hub
  introduced : Hub.Introduced (traffic cfg) y.hub
  handled : Hub.Handled y.hub
  linked : Linked y

theorem invariant_init (cfg : Config) (name : String) (maxSubs sendBuf : Int) :
    Invariant cfg name maxSubs sendBuf (session cfg name maxSubs sendBuf).init where
  client := .init
  hub := .init _
  introduced := Hub.introduced_fresh _ _ rfl
  handled := Hub.handled_fresh _
  linked := ⟨fun _ => Nat.le_refl 0, fun _ _ => rfl⟩

/-- What the conditions on a run mean for the hub. -/
theorem Invariant.orderly (hcfg : (buildTrackListPayload cfg).length ≤ maxPayloadBytes)
    (hi : Invariant cfg name maxSubs sendBuf y) (ha : y.admits (.relay a) = true)
    (hc : y.Calm (.relay a)) : Hub.Orderly (traffic cfg) y.hub a := by
  match a with
  | .publisher r (.read b m) =>
    simp only [admits, Bool.and_eq_true, beq_iff_eq] at ha
    have hknown := (Client.allKnown_of_reachable hcfg hi.client.reachable).written r
    exact ⟨ha.1.2, hknown _ (List.mem_of_getElem? ha.2)⟩
  | .publisher r (.snapshot order) =>
    intro m hpc haudio
    exact hi.linked.listed ((Client.invariant_of_undisturbed hcfg hi.client).leads r) hpc haudio
  | .publisher r .deliver =>
    intro l s d hpc m hm hlist
    simp only [Calm, hpc] at hc
    have hno := hc m hm
    rw [show m.isTrackList = true from hlist] at hno
    cases hno
  | .subscriber r .subscribe => exact hc
  | .publisher _ .claim | .publisher _ (.accept _) | .publisher _ (.subprotocol _)
  | .publisher _ .readError | .publisher _ .next | .publisher _ .release
  | .subscriber _ (.accept _) | .subscriber _ (.subprotocol _) | .subscriber _ .receive
  | .subscriber _ .park | .subscriber _ .wake | .subscriber _ .done | .subscriber _ (.write _)
  | .subscriber _ .unsub | .unsub _ | .unlock => trivial

theorem Invariant.step (hcfg : (buildTrackListPayload cfg).length ≤ maxPayloadBytes)
    (hb : 0 < sendBuf) (hi : Invariant cfg name maxSubs sendBuf y) (hc : y.Calm a)
    (he : y.step cfg a = some z) : Invariant cfg name maxSubs sendBuf z := by
  simp only [State.step] at he
  split at he
  · next ha =>
    cases a with
    | client a =>
      obtain ⟨c, hstep, rfl⟩ := Option.map_eq_some_iff.mp he
      exact ⟨hi.client.step hc hstep, hi.hub, hi.introduced, hi.handled, hi.linked.client hstep⟩
    | relay a =>
      obtain ⟨k, hstep, rfl⟩ := Option.map_eq_some_iff.mp he
      obtain ⟨hslot, hm, hd⟩ := Hub.delivery_of_reachable hb hi.hub
      have horderly := hi.orderly hcfg ha hc
      exact ⟨hi.client, Hub.reachable_step hi.hub hstep,
        hi.introduced.step hslot hm hd horderly hstep, hi.handled.step hm hstep,
        hi.linked.step_relay (fun r m h => (hi.introduced.tagged r m h).1) ha hstep⟩
  · cases he

theorem invariant_of_calm (hcfg : (buildTrackListPayload cfg).length ≤ maxPayloadBytes)
    (hb : 0 < sendBuf) (h : (session cfg name maxSubs sendBuf).Reaches Calm y) :
    Invariant cfg name maxSubs sendBuf y :=
  h.invariant (invariant_init cfg name maxSubs sendBuf)
    (fun _ _ _ hi hc he => hi.step hcfg hb hc he)

end State

/-! What the viewer makes of the packets. -/

theorem code_inj {a b : MessageType} (h : (a.code.toNat : Number) = (b.code.toNat : Number)) :
    a = b := by
  have hnat : a.code.toNat = b.code.toNat :=
    Nat.cast_injective (R := ℚ) (Js.Number.fin_injective h)
  revert hnat
  cases a <;> cases b <;> decide

theorem capture_of_audio (hk : Client.Known cfg p) (hf : Ts.decodeFrame p.bytes = .ok f)
    (ht : f.type = (MessageType.audioOpus.code.toNat : Number)) :
    p.origin = .capture ∧ ∃ t ∈ cfg.tracks, f.track = (t.id.toNat : Number) := by
  simp only [Client.Known] at hk
  split at hk
  · next ho =>
    obtain ⟨t, hmem, n, now, encoded, henc⟩ := hk
    rw [Ts.decodeFrame_of_encode henc] at hf
    cases hf
    exact ⟨ho, t, hmem, rfl⟩
  · obtain ⟨now, henc⟩ := hk
    rw [Ts.decodeFrame_of_encode henc] at hf
    cases hf
    exact absurd (code_inj (a := .hello) ht) (by simp)
  · obtain ⟨now, henc⟩ := hk
    rw [Ts.decodeFrame_of_encode henc] at hf
    cases hf
    exact absurd (code_inj (a := .trackList) ht) (by simp)

/-- The map of a viewer that has had the list of a configuration. -/
def fullIndex (cfg : Config) : List (Number × List Nat) :=
  indexTracks (cfg.tracks.map TrackSpec.info)

theorem decodeTrackList_payload {cfg : Config} (hc : cfg.Checked) (hne : cfg.tracks ≠ [])
    (hlen : cfg.tracks.length ≤ 8) (hl : ∀ t ∈ cfg.tracks, Verbatim t.label) :
    Ts.decodeTrackList (buildTrackListPayload cfg) = .ok (cfg.tracks.map TrackSpec.info) := by
  obtain ⟨infos, hdecode, hmatch⟩ := announced_of_verbatim hc hne hlen hl
  rw [hdecode, (eq_map_info hc.tracks hmatch).1]

section Viewer

variable {cfg : Config}
  (hdecode : Ts.decodeTrackList (buildTrackListPayload cfg) = .ok (cfg.tracks.map TrackSpec.info))
include hdecode

theorem handleMessage_list (hk : Client.Known cfg m.packet) (hm : Sent.isTrackList m = true)
    (ix : List (Number × List Nat)) : handleMessage ix m.packet.bytes = fullIndex cfg := by
  simp only [Client.Known] at hk
  simp only [Sent.isTrackList] at hm
  split at hk
  · next ho =>
    rw [ho] at hm
    cases hm
  · next ho =>
    rw [ho] at hm
    cases hm
  · obtain ⟨now, henc⟩ := hk
    simp only [handleMessage, Ts.decodeFrame_of_encode henc]
    have htype : (trackListFrame cfg now).view.toTs.type =
        (MessageType.trackList.code.toNat : Number) := rfl
    rw [if_pos htype]
    simp only [Frame.view, View.toTs, trackListFrame, hdecode, fullIndex]

theorem handleMessage_full (hk : Client.Known cfg p) :
    handleMessage (fullIndex cfg) p.bytes = fullIndex cfg := by
  by_cases hm : Sent.isTrackList ⟨0, p⟩ = true
  · exact handleMessage_list hdecode (m := ⟨0, p⟩) hk hm _
  · simp only [Client.Known] at hk
    simp only [Sent.isTrackList] at hm
    split at hk
    · obtain ⟨t, -, n, now, encoded, henc⟩ := hk
      simp only [handleMessage, Ts.decodeFrame_of_encode henc]
      exact if_neg (fun h => absurd (code_inj (a := .audioOpus) (b := .trackList) h) (by simp))
    · obtain ⟨now, henc⟩ := hk
      simp only [handleMessage, Ts.decodeFrame_of_encode henc]
      exact if_neg (fun h => absurd (code_inj (a := .hello) (b := .trackList) h) (by simp))
    · next ho =>
      rw [ho] at hm
      exact absurd rfl hm

/-- One list fills the map, and nothing empties it. -/
theorem idToSlug_eq {ms : List Sent} (hk : ∀ m ∈ ms, Client.Known cfg m.packet)
    (ht : t ∈ ms) (hl : t.isTrackList = true) : idToSlug ms = fullIndex cfg := by
  obtain ⟨before, after, rfl⟩ := List.append_of_mem ht
  have hfull : ∀ l : List Sent, (∀ m ∈ l, Client.Known cfg m.packet) →
      l.foldl (fun ix m => handleMessage ix m.packet.bytes) (fullIndex cfg) = fullIndex cfg := by
    intro l hl
    induction l with
    | nil => rfl
    | cons m l ih =>
      rw [List.foldl_cons, handleMessage_full hdecode (hl m List.mem_cons_self)]
      exact ih (fun u hu => hl u (List.mem_cons_of_mem _ hu))
  rw [idToSlug, List.foldl_append, List.foldl_cons, handleMessage_list hdecode (hk t ht) hl]
  exact hfull after (fun m hm => hk m (List.mem_append_right _ (List.mem_cons_of_mem _ hm)))

theorem lists_packet (hk : Client.Known cfg m.packet) (hm : Sent.isTrackList m = true)
    (ht : t ∈ cfg.tracks) : Lists m.packet.bytes (t.id.toNat : Number) := by
  simp only [Client.Known] at hk
  simp only [Sent.isTrackList] at hm
  split at hk
  · next ho =>
    rw [ho] at hm
    cases hm
  · next ho =>
    rw [ho] at hm
    cases hm
  · obtain ⟨now, henc⟩ := hk
    exact ⟨_, _, Ts.decodeFrame_of_encode henc, rfl, hdecode, t.info, List.mem_map_of_mem ht, rfl⟩

end Viewer

theorem slugOf_full {cfg : Config} (hc : cfg.Checked) (ht : t ∈ cfg.tracks) :
    ∃ slug, slugOf (fullIndex cfg) (t.id.toNat : Number) = some slug ∧ slug ≠ [] := by
  cases hget : slugOf (fullIndex cfg) (t.id.toNat : Number) with
  | none =>
    have hmem : ((t.id.toNat : Number), t.slug.map UInt8.toNat) ∈ (fullIndex cfg).reverse := by
      rw [List.mem_reverse]
      exact List.mem_map.mpr ⟨t.info, List.mem_map_of_mem ht, rfl⟩
    have := List.lookup_eq_none_iff.mp hget _ hmem
    simp at this
  | some slug =>
    refine ⟨slug, rfl, ?_⟩
    obtain ⟨l₁, l₂, heq, -⟩ := List.lookup_eq_some_iff.mp hget
    have hmem : ((t.id.toNat : Number), slug) ∈ fullIndex cfg := by
      rw [← List.mem_reverse, heq]
      exact List.mem_append_right _ List.mem_cons_self
    obtain ⟨i, hi, hpair⟩ := List.mem_map.mp hmem
    obtain ⟨u, hu, rfl⟩ := List.mem_map.mp hi
    have hvalid := (hc.tracks u hu).slug
    intro hnil
    have hslug : u.slug.map UInt8.toNat = slug := (Prod.mk.inj hpair).2
    rw [hnil, List.map_eq_nil_iff] at hslug
    rw [hslug] at hvalid
    cases hvalid

/-- In every calm run of a publisher with verbatim labels, a relay with buffered queues and any
viewers, audio reaches a viewer after the list that its connection announced. -/
theorem announced_of_calm (hargs : parseArgs args = .ok cfg)
    (hl : ∀ t ∈ cfg.tracks, Verbatim t.label) (hb : 1 ≤ sendBuf)
    (h : (session cfg name maxSubs sendBuf).Reaches State.Calm y) (s : Nat) :
    Announced (y.hub.heap s).log.written := by
  obtain ⟨hc, hpos, hlen⟩ := checked_parseArgs hargs
  have hne : cfg.tracks ≠ [] := List.length_pos_iff.mp hpos
  have hdecode := decodeTrackList_payload hc hne hlen hl
  have hi := State.invariant_of_calm (length_payload_le hne (hc.each hlen) hlen hl) hb h
  have hstream : (y.hub.heap s).log.written <+: (y.hub.heap s).stream :=
    (hi.handled.wrote s).trans (List.prefix_append ..)
  intro past m rest f hw hf htype
  rw [hw] at hstream
  have hgenuine : ∀ u ∈ past ++ m :: rest, Client.Known cfg u.packet := fun u hu =>
    hi.introduced.genuine s u (hstream.subset hu)
  have hpast : ∀ u ∈ past, Client.Known cfg u.packet := fun u hu =>
    hgenuine u (List.mem_append_left _ hu)
  have hm := hgenuine m (List.mem_append_right _ List.mem_cons_self)
  obtain ⟨horigin, t, ht, htrack⟩ := capture_of_audio hm hf htype
  obtain ⟨u, hu, hlist, hconn⟩ :=
    ((hi.introduced.streams s).initial hstream) past m rest rfl horigin
  rw [htrack]
  refine ⟨⟨u, hu, hconn, lists_packet hdecode (hpast u hu) hlist ht⟩, ?_⟩
  rw [idToSlug_eq hdecode hpast hu hlist]
  exact slugOf_full hc ht

def helloPacket : Packet := ⟨.hello 1, encodeFrameOrLog (helloFrame 5)⟩

def listPacket (cfg : Config) : Packet := ⟨.trackList 1, encodeFrameOrLog (trackListFrame cfg 5)⟩

def audioPacket : Packet := ⟨.capture, encodeFrameOrLog (audioFrame music 1 6 [7])⟩

def soloConfig : Config := configOf [music]

/-- The publisher connects, announces its tracks and writes one frame of audio. -/
def onAir : List Act :=
  [.client (.tryConnect true), .relay (.publisher 1 .claim), .relay (.publisher 1 (.accept true)),
    .relay (.publisher 1 (.subprotocol true)), .client .established, .client .clear,
    .client (.hello 5), .client (.trackList 5), .client (.capture 0 6 [7]), .client .writeable,
    .client (.write true), .client .writeable, .client (.write true), .client .writeable,
    .client (.write true)]

def joins : List Act :=
  [.relay (.subscriber 0 .subscribe), .relay (.subscriber 0 (.accept true)),
    .relay (.subscriber 0 (.subprotocol true))]

def relays (p : Packet) (subs : List Nat) : List Act :=
  [.relay (.publisher 1 (.read true ⟨1, p⟩)), .relay (.publisher 1 (.snapshot subs))] ++
    subs.flatMap (fun _ => [.relay (.publisher 1 .next), .relay (.publisher 1 .deliver)]) ++
    [.relay (.publisher 1 .next)]

def plays : List Act := [.relay (.subscriber 0 .receive), .relay (.subscriber 0 (.write true))]

def early : List Act :=
  onAir ++ joins ++ relays helloPacket [0] ++ relays (listPacket soloConfig) [0] ++
    relays audioPacket [0] ++ plays ++ plays ++ plays

theorem announced_of_calm_early :
    ∃ y, (session soloConfig "twitch:dev" 10 4).run (session soloConfig "twitch:dev" 10 4).init
        early = some y ∧
      (y.hub.heap 0).log.written =
        [⟨1, helloPacket⟩, ⟨1, listPacket soloConfig⟩, ⟨1, audioPacket⟩] ∧
      Announced (y.hub.heap 0).log.written := by
  have hargs : parseArgs (required ++ [ascii "--track", ascii "music:Spotify.exe"]) =
      .ok soloConfig := by
    decide
  have hl : ∀ t ∈ soloConfig.tracks, Verbatim t.label :=
    List.forall_mem_singleton.mpr ⟨Ts.units "Music", by decide⟩
  have hrun : ((session soloConfig "twitch:dev" 10 4).run
      (session soloConfig "twitch:dev" 10 4).init early).any
        (fun y => (y.hub.heap 0).log.written =
          [⟨1, helloPacket⟩, ⟨1, listPacket soloConfig⟩, ⟨1, audioPacket⟩]) = true := by
    decide +kernel
  have hcalm : (session soloConfig "twitch:dev" 10 4).Allowed State.Calm
      (session soloConfig "twitch:dev" 10 4).init early := by
    decide +kernel
  obtain ⟨y, hy, hwritten⟩ := (Option.any_eq_true _ _).mp hrun
  refine ⟨y, hy, of_decide_eq_true hwritten, ?_⟩
  exact announced_of_calm hargs hl (by decide) (.of_run early .init hcalm hy) 0

/-- The relay keeps no list for those who come later. -/
def late : List Act :=
  onAir ++ relays helloPacket [] ++ relays (listPacket soloConfig) [] ++ joins ++
    relays audioPacket [0] ++ plays

theorem late_viewer_not_announced :
    ∃ y, (session soloConfig "twitch:dev" 10 4).run (session soloConfig "twitch:dev" 10 4).init
        late = some y ∧ ¬ Announced (y.hub.heap 0).log.written := by
  have hrun : ((session soloConfig "twitch:dev" 10 4).run
      (session soloConfig "twitch:dev" 10 4).init late).any
        (fun y => (y.hub.heap 0).log.written = [⟨1, audioPacket⟩]) = true := by
    decide +kernel
  obtain ⟨y, hy, hwritten⟩ := (Option.any_eq_true _ _).mp hrun
  refine ⟨y, hy, fun h => ?_⟩
  rw [of_decide_eq_true hwritten] at h
  have henc : Cpp.encodeFrame (audioFrame music 1 6 [7]) = .ok audioPacket.bytes := by
    decide
  obtain ⟨⟨t, ht, -⟩, -⟩ := h [] ⟨1, audioPacket⟩ [] _ rfl (Ts.decodeFrame_of_encode henc) rfl
  cases ht

end StreamMix.Session
