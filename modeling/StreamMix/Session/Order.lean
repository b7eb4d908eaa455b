import StreamMix.Extension.Decoder
import StreamMix.Lib.Classes
import StreamMix.Publisher.Order
import StreamMix.Relay.Echoes
import StreamMix.Session

/-! From the capture threads of a publisher to the viewers of its channel, over any number of
connections: frames get lost on the way, and nothing else happens to them. -/

namespace StreamMix.Session

open Wire Publisher Relay
open Extension (OpusDecoderLane frameDurationUs)
open Extension.OpusDecoderLane (runStart timestamp)
open Js (Number)

def frame (cfg : Config) (p : Pipelines) : Act → Pipelines
  | .client a => p.frame cfg a
  | .relay _ => p

/-- The pipelines after a run, with all the packets they have made. -/
def recorded (cfg : Config) (as : List Act) : Pipelines := as.foldl (frame cfg) .start

/-- The packets of the capture threads that a viewer was sent. -/
def heard (y : State) (s : Nat) : List Packet :=
  captures ((y.hub.heap s).log.written.map Sent.packet)

namespace State

variable {y z : State} {cfg : Config} {p : Pipelines}

/-- The connections follow one another: a handler that holds the slot with packets to read is
the latest of those that were read. -/
structure Ordered (y : State) : Prop where
  tagged : ∀ r m, (y.hub.publisher r).msg = some m → m.conn = r
  linked : Linked y
  past : ∀ r, (y.past r).map Sent.packet <+: y.client.written r
  begun : ∀ r, y.client.written r ≠ [] ∨ r = y.client.conn ∧ y.client.connected = true →
    y.hub.publisher r ≠ .idle
  sorted : Classes.Sorted Sent.conn y.hub.history
  latest : ∀ r, (y.hub.publisher r).holds = true → y.client.written r ≠ [] →
    ∀ m ∈ y.hub.history, m.conn ≤ r

theorem ordered_init (cfg : Config) (name : String) (maxSubs sendBuf : Int) :
    Ordered (session cfg name maxSubs sendBuf).init where
  tagged _ _ := nofun
  linked := ⟨fun _ => Nat.le_refl 0, fun _ _ => rfl⟩
  past _ := List.prefix_refl _
  begun := by
    rintro r (hw | ⟨-, hc⟩)
    · exact absurd rfl hw
    · cases hc
  sorted := .nil
  latest _ := nofun

/-- A packet of the history was written on its connection. -/
theorem Ordered.conn_le (ho : Ordered y) (hc : Client.Online y.client) (hm : m ∈ y.hub.history) :
    m.conn ≤ y.client.conn := by
  by_contra hlt
  have hnil := hc.unused m.conn (Nat.lt_of_not_le hlt)
  have hpast := ho.past m.conn
  rw [hnil, List.prefix_nil, List.map_eq_nil_iff] at hpast
  have hmem : m ∈ y.past m.conn := List.mem_filter.mpr ⟨hm, beq_self_eq_true _⟩
  rw [hpast] at hmem
  cases hmem

theorem Ordered.client (ho : Ordered y) (hc : Client.Online y.client)
    (ha : y.admits (.client a) = true) (he : y.client.step cfg a = some c) :
    Ordered { y with client := c } where
  tagged := ho.tagged
  linked := ho.linked.client he
  past r := (ho.past r).trans (Client.written_step he r)
  begun := by
    intro r hr
    obtain hold | ⟨rfl, rfl⟩ := hc.used_step he hr
    · exact ho.begun r hold
    · intro hidle
      simp only [admits] at ha
      rw [show y.hub.publisher y.client.conn = .idle from hidle] at ha
      cases ha
  sorted := ho.sorted
  latest := by
    intro r hr hw m hm
    by_cases hold : y.client.written r = []
    · obtain (hw | ⟨rfl, -⟩) | ⟨-, rfl⟩ := hc.used_step he (.inl hw)
      · exact absurd hold hw
      · exact ho.conn_le hc hm
      · exact ho.conn_le hc hm
    · exact ho.latest r hr hold m hm

/-- A packet is broadcast on the latest connection that was read. -/
theorem Ordered.last (ho : Ordered y) (hpc : y.hub.publisher r = .broadcast m) :
    m.conn = r ∧ ((y.past r).map Sent.packet ++ [m.packet]) <+: y.client.written r ∧
      ∀ u ∈ y.hub.history, u.conn ≤ r := by
  have htaken := ho.linked.taken r (.inr (by rw [hpc]; rfl))
  rw [hpc, pending] at htaken
  have hwritten : (y.past r).map Sent.packet ++ [m.packet] <+: y.client.written r := by
    have hpackets := congrArg (List.map Sent.packet) htaken
    rw [State.taken, List.map_map, List.map_append, List.map_singleton,
      show Sent.packet ∘ Sent.mk r = id from rfl, List.map_id] at hpackets
    rw [← hpackets]
    exact List.take_prefix ..
  refine ⟨ho.tagged r m (by rw [hpc]; rfl), hwritten, ?_⟩
  refine ho.latest r (by rw [hpc]; rfl) ?_
  intro hnil
  rw [hnil, List.prefix_nil] at hwritten
  simp at hwritten

theorem Ordered.tagged_step (ho : Ordered y) (ha : y.admits (.relay a) = true)
    (he : y.hub.step sniff a = some k) (r : Nat) (m : Sent)
    (hm : (k.publisher r).msg = some m) : m.conn = r := by
  obtain hsame | ⟨pa, rfl, hturn⟩ := Hub.turn_step he r
  · exact ho.tagged r m (hsame ▸ hm)
  · generalize k.publisher r = pc at hturn hm
    cases hturn with
    | opening _ hnone =>
      rw [hnone] at hm
      cases hm
    | reading _ hread =>
      cases hm
      subst hread
      simp only [admits, Bool.and_eq_true, beq_iff_eq] at ha
      exact ha.1.2
    | broadcasting hb =>
      cases hm
      exact ho.tagged r _ (by rw [hb]; rfl)
    | looping hold hnew hmsg _ =>
      rw [PublisherPc.msg_of_loop hnew, hmsg] at hm
      exact ho.tagged r m ((PublisherPc.msg_of_loop hold).trans hm)
    | finished => cases hm
    | leaving _ _ hoff =>
      rw [PublisherPc.msg_of_offAir hoff] at hm
      cases hm

theorem Ordered.relay (ho : Ordered y) (hs : Hub.Slot y.hub) (ha : y.admits (.relay a) = true)
    (he : y.hub.step sniff a = some k) :
    Ordered { y with hub := k, read := y.advance a } := by
  have hlatest : ∀ r, (k.publisher r).holds = true → y.client.written r ≠ [] →
      (y.hub.publisher r).holds = true ∧ ∀ m ∈ y.hub.history, m.conn ≤ r := by
    intro r hr hw
    have hheld : (y.hub.publisher r).holds = true :=
      (Hub.holds_step he hr).resolve_right (ho.begun r (.inl hw))
    exact ⟨hheld, ho.latest r hheld hw⟩
  refine ⟨ho.tagged_step ha he, ho.linked.step_relay ho.tagged ha he, ?_,
    fun r hr => Hub.begun_step he (ho.begun r hr), ?_, ?_⟩
  · intro r
    obtain ⟨hhist, -⟩ | ⟨q, order, m, rfl, hpc, hhist⟩ := Hub.history_step he
    · rw [show State.past { y with hub := k, read := y.advance a } r = y.past r from
        congrArg (List.filter _) hhist]
      exact ho.past r
    · obtain ⟨hconn, hwritten, -⟩ := ho.last hpc
      rw [show State.past { y with hub := k, read := y.advance _ } r =
        y.past r ++ if m.conn = r then [m] else [] from past_append y k hhist r]
      split_ifs with hr
      · rw [hconn] at hr
        subst hr
        rw [List.map_append]
        exact hwritten
      · rw [List.append_nil]
        exact ho.past r
  · obtain ⟨hhist, -⟩ | ⟨q, order, m, rfl, hpc, hhist⟩ := Hub.history_step he
    · rw [hhist]
      exact ho.sorted
    · obtain ⟨hconn, -, hle⟩ := ho.last hpc
      rw [hhist]
      exact ho.sorted.concat (fun u hu => hconn ▸ hle u hu)
  · intro r hr hw u hu
    obtain ⟨hheld, hle⟩ := hlatest r hr hw
    obtain ⟨hhist, -⟩ | ⟨q, order, m, rfl, hpc, hhist⟩ := Hub.history_step he
    · exact hle u (hhist ▸ hu)
    · have hu' : u ∈ y.hub.history ++ [m] := hhist ▸ hu
      obtain hu | hu := List.mem_append.mp hu'
      · exact hle u hu
      · obtain rfl := List.mem_singleton.mp hu
        obtain rfl : q = r := hs.unique q r (by rw [hpc]; rfl) hheld
        exact Nat.le_of_eq (ho.last hpc).1

/-- What the hub has broadcast, connection after connection. -/
theorem Ordered.history_sublist (ho : Ordered y) (hc : Client.Online y.client) :
    (y.hub.history.map Sent.packet).Sublist y.client.sentOn :=
  ho.sorted.sublist_flatMap (fun _ hm => Nat.lt_succ_of_le (ho.conn_le hc hm)) Sent.packet
    y.client.written (fun r => (ho.past r).sublist)

end State

/-- The parts of a state, together with the pipelines that have fed the client. -/
structure Tracks (cfg : Config) (name : String) (maxSubs sendBuf : Int) (p : Pipelines)
    (y : State) : Prop where
  client : (Publisher.client cfg).Reachable y.client
  hub : (Relay.hub sniff name maxSubs sendBuf).Reachable y.hub
  conveys : Client.Conveys p y.client
  ordered : y.Ordered

theorem tracks_of_run (hrun : (session cfg name maxSubs sendBuf).run
    (session cfg name maxSubs sendBuf).init as = some y) :
    Tracks cfg name maxSubs sendBuf (recorded cfg as) y := by
  have hall : Tracks cfg name maxSubs sendBuf (recorded cfg as.reverse.reverse) y := by
    refine Machine.run_invariant
      (P := fun as y => Tracks cfg name maxSubs sendBuf (recorded cfg as.reverse) y) ?_ ?_ hrun
    · exact ⟨.init _, .init _, Client.conveys_start, State.ordered_init cfg name maxSubs sendBuf⟩
    · intro as y a z hi he
      rw [List.reverse_cons, recorded, List.foldl_append]
      change State.step cfg y a = some z at he
      simp only [State.step] at he
      split at he
      · next ha =>
        cases a with
        | client a =>
          obtain ⟨c, hstep, rfl⟩ := Option.map_eq_some_iff.mp he
          exact ⟨hi.client.next hstep, hi.hub, hi.conveys.step hstep,
            hi.ordered.client hi.conveys.toOnline ha hstep⟩
        | relay a =>
          obtain ⟨k, hstep, rfl⟩ := Option.map_eq_some_iff.mp he
          exact ⟨hi.client, Hub.reachable_step hi.hub hstep, hi.conveys,
            hi.ordered.relay (Hub.slot_of_reachable hi.hub) ha hstep⟩
      · cases he
  rwa [List.reverse_reverse] at hall

theorem captures_sublist {ps qs : List Packet} (h : ps.Sublist qs) :
    (captures ps).Sublist (captures qs) := h.filter _

/-- What the hub broadcasts of the capture threads, they have made in that order. -/
theorem broadcast_sublist (hi : Tracks cfg name maxSubs sendBuf p y) :
    (captures (y.hub.history.map Sent.packet)).Sublist p.made := by
  have hsent := hi.ordered.history_sublist hi.conveys.toOnline
  have hcarried : y.client.sentOn.Sublist y.client.carried := by
    rw [Client.carried, List.append_assoc]
    exact List.sublist_append_left ..
  exact (captures_sublist (hsent.trans hcarried)).trans hi.conveys.order

theorem heard_sublist (hb : 1 ≤ sendBuf) (hrun : (session cfg name maxSubs sendBuf).run
    (session cfg name maxSubs sendBuf).init as = some y) (s : Nat) :
    (heard y s).Sublist (recorded cfg as).made := by
  have hi := tracks_of_run hrun
  exact (captures_sublist ((Hub.written_sublist hb hi.hub s).map Sent.packet)).trans
    (broadcast_sublist hi)

/-- In every run, over any number of connections: what a viewer hears is what the capture
threads recorded, in that order, with gaps and nothing twice, one connection after the other. -/
theorem heard_in_order (hb : 1 ≤ sendBuf) (hrun : (session cfg name maxSubs sendBuf).run
    (session cfg name maxSubs sendBuf).init as = some y) (s : Nat) :
    (heard y s).Sublist (recorded cfg as).made ∧
      (y.hub.heap s).log.written.Pairwise (fun m u => m.conn ≤ u.conn) := by
  have hi := tracks_of_run hrun
  exact ⟨heard_sublist hb hrun s, hi.ordered.sorted.sublist (Hub.written_sublist hb hi.hub s)⟩

/-- A frame is recorded, a connection comes up and clears the queue, two frames get through. -/
def restarted : List Act :=
  [.client (.capture 0 5 [6])] ++ onAir ++
    [.client (.capture 0 7 [8]), .client .writeable, .client (.write true)] ++
    relays helloPacket [] ++ relays (listPacket soloConfig) [] ++ joins ++
    relays ⟨.capture, encodeFrameOrLog (audioFrame music 2 6 [7])⟩ [0] ++
    relays ⟨.capture, encodeFrameOrLog (audioFrame music 3 7 [8])⟩ [0] ++ plays ++ plays

theorem heard_in_order_restarted :
    ∃ y, (session soloConfig "twitch:dev" 10 4).run (session soloConfig "twitch:dev" 10 4).init
        restarted = some y ∧ (heard y 0).length = 2 ∧
      (recorded soloConfig restarted).made.length = 3 ∧
      (heard y 0).Sublist (recorded soloConfig restarted).made ∧
      (y.hub.heap 0).log.written.Pairwise (fun m u => m.conn ≤ u.conn) := by
  have hrun : ((session soloConfig "twitch:dev" 10 4).run
      (session soloConfig "twitch:dev" 10 4).init restarted).any
        (fun y => (heard y 0).length = 2) = true := by
    decide +kernel
  obtain ⟨y, hy, hlength⟩ := (Option.any_eq_true _ _).mp hrun
  exact ⟨y, hy, of_decide_eq_true hlength, by decide +kernel, heard_in_order (by decide) hy 0⟩

/-- The frame of a packet, if it is of the track. -/
def frameOf (id : Number) (p : Packet) : Option Ts.Frame :=
  (Ts.decodeFrame p.bytes).toOption.filter (fun f => f.track = id)

def framesOf (id : Number) (ps : List Packet) : List Ts.Frame := ps.filterMap (frameOf id)

theorem frameOf_eq_some {id : Number} (h : frameOf id p = some f) :
    Ts.decodeFrame p.bytes = .ok f ∧ f.track = id := by
  obtain ⟨hf, htrack⟩ := Option.filter_eq_some_iff.mp h
  refine ⟨?_, of_decide_eq_true htrack⟩
  cases hd : Ts.decodeFrame p.bytes with
  | error e =>
    rw [hd] at hf
    cases hf
  | ok g =>
    rw [hd] at hf
    cases hf
    rfl

theorem pairwise_framesOf (id : Number) {ps : List Packet} (h : ps.Pairwise Numbered) :
    (framesOf id ps).Pairwise (fun f g => f.seq.lt g.seq = true) := by
  refine List.Pairwise.filterMap _ ?_ h
  intro p q hpq f hf g hg
  obtain ⟨hf, hid⟩ := frameOf_eq_some hf
  obtain ⟨hg, hid'⟩ := frameOf_eq_some hg
  exact hpq f g hf hg (hid.trans hid'.symm)

theorem counts_recorded (hc : cfg.Checked) (hlen : cfg.tracks.length ≤ 8) (as : List Act)
    (has : as.length < 2 ^ 32) : (recorded cfg as).Counts cfg as.length := by
  induction as using List.reverseRecOn with
  | nil => exact Pipelines.counts_start cfg
  | append_singleton as a ih =>
    rw [List.length_append, List.length_singleton] at has ⊢
    have hold := ih (Nat.lt_trans (Nat.lt_succ_self _) has)
    rw [recorded, List.foldl_append]
    cases a with
    | client a => exact hold.frame hc hlen has a
    | relay a => exact hold.mono (Nat.le_succ _)

/-- The frames of a track reach a viewer with increasing SEQ, whatever connections they came on,
in a run of less than `2 ^ 32` steps. -/
theorem seq_increasing (hargs : parseArgs args = .ok cfg) (hb : 1 ≤ sendBuf)
    (hrun : (session cfg name maxSubs sendBuf).run (session cfg name maxSubs sendBuf).init as =
      some y) (has : as.length < 2 ^ 32) (s : Nat) (id : Number) :
    (framesOf id (heard y s)).Pairwise (fun f g => f.seq.lt g.seq = true) := by
  obtain ⟨hc, -, hlen⟩ := checked_parseArgs hargs
  exact pairwise_framesOf id
    ((counts_recorded hc hlen as has).numbered.sublist (heard_sublist hb hrun s))

theorem seq_increasing_restarted :
    ∃ y, (session soloConfig "twitch:dev" 10 4).run (session soloConfig "twitch:dev" 10 4).init
        restarted = some y ∧
      (framesOf (1 : Nat) (heard y 0)).Pairwise (fun f g => f.seq.lt g.seq = true) := by
  have hargs : parseArgs (required ++ [ascii "--track", ascii "music:Spotify.exe"]) =
      .ok soloConfig := by
    decide
  have hrun : ((session soloConfig "twitch:dev" 10 4).run
      (session soloConfig "twitch:dev" 10 4).init restarted).isSome = true := by
    decide +kernel
  obtain ⟨y, hy⟩ := Option.isSome_iff_exists.mp hrun
  exact ⟨y, hy, seq_increasing hargs (by decide) hy (by decide) 0 (1 : Nat)⟩

/-- The SEQ that `onAudio` is called with for frame `k`. -/
def seqAt (fs : List Ts.Frame) (k : Nat) : UInt32 :=
  UInt32.ofNat ((fs[k]?.map (fun f => f.seq.toUint 32)).getD 0)

theorem seqAt_eq {fs : List Ts.Frame} (hn : ∀ f ∈ fs, ∃ n : UInt32, f.seq = (n.toNat : Number))
    (hk : fs[k]? = some f) : f.seq = ((seqAt fs k).toNat : Number) := by
  obtain ⟨n, hseq⟩ := hn f (List.mem_of_getElem? hk)
  have hn : n.toNat % 2 ^ 32 = n.toNat := Nat.mod_eq_of_lt n.toNat_lt
  rw [seqAt, hk, Option.map_some, Option.getD_some, hseq, Js.natCast_eq, Number.toUint_natCast,
    hn, UInt32.ofNat_toNat, Js.natCast_eq]

theorem seqAt_lt {fs : List Ts.Frame} (hn : ∀ f ∈ fs, ∃ n : UInt32, f.seq = (n.toNat : Number))
    (hinc : fs.Pairwise (fun f g => f.seq.lt g.seq = true)) (hjk : j < k) (hk : k < fs.length) :
    seqAt fs j < seqAt fs k := by
  have hj := Nat.lt_trans hjk hk
  have hlt := List.pairwise_iff_getElem.mp hinc j k hj hk hjk
  rw [seqAt_eq hn (List.getElem?_eq_getElem hj), seqAt_eq hn (List.getElem?_eq_getElem hk)] at hlt
  have hcast := of_decide_eq_true hlt
  rw [UInt32.lt_iff_toNat_lt]
  exact_mod_cast hcast

theorem runStart_of_increasing {seq : Nat → UInt32}
    (h : ∀ j k, j < k → k < n → seq j < seq k) (hk : k < n) : runStart seq k = 0 := by
  induction k with
  | zero => rfl
  | succ k ih =>
    rw [runStart, if_neg, ih (Nat.lt_of_succ_lt hk)]
    exact UInt32.lt_asymm (h k (k + 1) (Nat.lt_succ_self k) hk)

/-- The lane of a track restarts nothing: it stamps each frame with the distance of its SEQ from
the first one that was heard, 20 ms for each number, so that lost frames leave their time. -/
theorem stamps_of_heard (hargs : parseArgs args = .ok cfg) (hb : 1 ≤ sendBuf)
    (hrun : (session cfg name maxSubs sendBuf).run (session cfg name maxSubs sendBuf).init as =
      some y) (has : as.length < 2 ^ 32) (s : Nat) (id : Number)
    (found : Nat → Extension.AudioDecoder) (packet : Nat → Bytes) (k : Nat)
    (hk : k < (framesOf id (heard y s)).length) :
    timestamp found packet (seqAt (framesOf id (heard y s))) k =
        ((seqAt (framesOf id (heard y s)) k).toNat - (seqAt (framesOf id (heard y s)) 0).toNat) *
          frameDurationUs ∧
      ∀ j < k, timestamp found packet (seqAt (framesOf id (heard y s))) j + frameDurationUs ≤
        timestamp found packet (seqAt (framesOf id (heard y s))) k := by
  obtain ⟨hc, -, hlen⟩ := checked_parseArgs hargs
  have hcounts := counts_recorded hc hlen as has
  have hheard := heard_sublist hb hrun s
  have hinc := pairwise_framesOf id (hcounts.numbered.sublist hheard)
  have hn : ∀ f ∈ framesOf id (heard y s), ∃ n : UInt32, f.seq = (n.toNat : Number) := by
    intro f hf
    obtain ⟨q, hq, hf⟩ := List.mem_filterMap.mp hf
    obtain ⟨_, n, ⟨t, now, encoded, -, henc⟩, -⟩ := hcounts.made q (hheard.subset hq)
    have hdecode := (frameOf_eq_some hf).1
    rw [Ts.decodeFrame_of_encode henc] at hdecode
    cases hdecode
    exact ⟨n, rfl⟩
  have hlt : ∀ j k, j < k → k < (framesOf id (heard y s)).length →
      seqAt (framesOf id (heard y s)) j < seqAt (framesOf id (heard y s)) k :=
    fun _ _ => seqAt_lt hn hinc
  have hstamp : ∀ j < (framesOf id (heard y s)).length,
      timestamp found packet (seqAt (framesOf id (heard y s))) j =
        ((seqAt (framesOf id (heard y s)) j).toNat - (seqAt (framesOf id (heard y s)) 0).toNat) *
          frameDurationUs := by
    intro j hj
    have hreturns : OpusDecoderLane.Returns (seqAt (framesOf id (heard y s)))
        (framesOf id (heard y s)).length := fun k hk hreset =>
      absurd (hlt k (k + 1) (Nat.lt_succ_self k) hk) (UInt32.lt_asymm hreset)
    rw [(OpusDecoderLane.timeline_of_returns found packet _ _ hreturns).timestamp j hj,
      runStart_of_increasing hlt hj]
  refine ⟨hstamp k hk, ?_⟩
  intro j hjk
  have hnat := UInt32.lt_iff_toNat_lt.mp (hlt j k hjk hk)
  rw [hstamp k hk, hstamp j (Nat.lt_trans hjk hk), frameDurationUs]
  omega

theorem stamps_of_heard_restarted :
    ∃ y, (session soloConfig "twitch:dev" 10 4).run (session soloConfig "twitch:dev" 10 4).init
        restarted = some y ∧ (framesOf (1 : Nat) (heard y 0)).length = 2 ∧
      timestamp (fun _ => .create) (fun _ => []) (seqAt (framesOf (1 : Nat) (heard y 0))) 0 +
          frameDurationUs ≤
        timestamp (fun _ => .create) (fun _ => []) (seqAt (framesOf (1 : Nat) (heard y 0))) 1 := by
  have hargs : parseArgs (required ++ [ascii "--track", ascii "music:Spotify.exe"]) =
      .ok soloConfig := by
    decide
  have hrun : ((session soloConfig "twitch:dev" 10 4).run
      (session soloConfig "twitch:dev" 10 4).init restarted).any
        (fun y => (framesOf (1 : Nat) (heard y 0)).length = 2) = true := by
    decide +kernel
  obtain ⟨y, hy, hlength⟩ := (Option.any_eq_true _ _).mp hrun
  have htwo := of_decide_eq_true hlength
  refine ⟨y, hy, htwo, ?_⟩
  exact (stamps_of_heard hargs (by decide) hy (by decide) 0 (1 : Nat) (fun _ => .create)
    (fun _ => []) 1 (by rw [htwo]; decide)).2 0 (by decide)

end StreamMix.Session
