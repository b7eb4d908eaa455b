import StreamMix.Relay.Subscribers

namespace StreamMix.Relay

variable {Msg : Type u}

/-- The accounts of a subscriber: the queue is the end of what was delivered, and what
came before it was received or lost. -/
structure Subscriber.Flow (x : Subscriber Msg) : Prop where
  split : ∃ past, x.log.delivered = past ++ x.send.buf ∧ x.log.received.Sublist past ∧
    x.log.lost.length + x.log.received.length = past.length
  dropped : x.dropped = UInt64.ofNat x.log.lost.length

/-- What has not been lost: received, or waiting in the queue. -/
def Subscriber.stream (x : Subscriber Msg) : List Msg := x.log.received ++ x.send.buf

def Subscriber.losses (x : Subscriber Msg) : List Msg × UInt64 := (x.log.lost, x.dropped)

namespace Subscriber

variable {x y : Subscriber Msg} {msg : Msg}

theorem flow_new (send : Go.Chan Msg) (joined : Nat) (hb : send.buf = []) :
    (newSubscriber send joined).Flow :=
  ⟨⟨[], by rw [newSubscriber, hb]; rfl, List.Sublist.refl [], rfl⟩, rfl⟩

theorem dropped_succ (hx : x.dropped = UInt64.ofNat x.log.lost.length) :
    x.dropped + 1 = UInt64.ofNat (x.log.lost.length + 1) := by
  rw [hx, UInt64.ofNat_add]
  rfl

theorem Flow.offer (hf : x.Flow) (h : x.offer msg = .taken y) : y.Flow := by
  obtain ⟨⟨past, hdel, hrec, hlen⟩, hdrop⟩ := hf
  simp only [Subscriber.offer] at h
  split at h
  · cases h
  · next c hc =>
    cases h
    obtain ⟨-, hx, hb, -⟩ := Go.Chan.trySend_handed hc
    rw [hx, List.append_nil] at hdel
    refine ⟨⟨past ++ [msg], ?_, hrec.append (List.Sublist.refl _), ?_⟩, hdrop⟩
    · rw [hb, List.append_nil, hdel]
    · simp only [List.length_append, List.length_cons, List.length_nil]
      omega
  · next c hc =>
    cases h
    obtain ⟨-, -, hb, -⟩ := Go.Chan.trySend_queued hc
    refine ⟨⟨past, ?_, hrec, hlen⟩, hdrop⟩
    rw [hb, hdel, List.append_assoc]
  · cases h

theorem Flow.discard (hf : x.Flow) (ho : x.send.closed = false) : x.discard.Flow := by
  obtain ⟨⟨past, hdel, hrec, hlen⟩, hdrop⟩ := hf
  simp only [Subscriber.discard]
  split
  · next v c hc =>
    obtain ⟨hb, -⟩ := Go.Chan.tryRecv_item hc
    refine ⟨⟨past ++ [v], ?_, hrec.trans (List.sublist_append_left past [v]), ?_⟩, ?_⟩
    · rw [List.append_assoc, List.singleton_append, ← hb, hdel]
    · simp only [List.length_append, List.length_cons, List.length_nil]
      omega
    · rw [dropped_succ hdrop, List.length_append]
      rfl
  · next hz =>
    rw [(Go.Chan.tryRecv_zero hz).2] at ho
    cases ho
  · exact ⟨⟨past, hdel, hrec, hlen⟩, hdrop⟩

theorem Flow.take (hf : x.Flow) (hc : x.send.tryRecv = .item v c) : (x.take v c).Flow := by
  obtain ⟨⟨past, hdel, hrec, hlen⟩, hdrop⟩ := hf
  obtain ⟨hb, -⟩ := Go.Chan.tryRecv_item hc
  refine ⟨⟨past ++ [v], ?_, hrec.append (List.Sublist.refl _), ?_⟩, hdrop⟩
  · rw [List.append_assoc, List.singleton_append, Subscriber.take, ← hb, hdel]
  · simp only [Subscriber.take, List.length_append, List.length_cons, List.length_nil]
    omega

theorem discard_delivered (x : Subscriber Msg) : x.discard.log.delivered = x.log.delivered := by
  simp only [Subscriber.discard]
  split <;> rfl

theorem discard_length (hcap : 0 < x.send.cap) : x.discard.send.buf.length < x.send.cap := by
  simp only [Subscriber.discard]
  split
  · next v c hc =>
    obtain ⟨hb, -⟩ := Go.Chan.tryRecv_item hc
    have hfits := x.send.fits
    rw [hb, List.length_cons] at hfits
    exact hfits
  · next hz =>
    rw [show x.send.buf = [] from (Go.Chan.tryRecv_zero hz).1]
    exact hcap
  · next hz =>
    rw [(Go.Chan.tryRecv_empty hz).1]
    exact hcap

/-- The new packet is at the end of the queue, or with the handler already. -/
theorem offer_newest (h : x.offer msg = .taken y) :
    y.log.delivered = x.log.delivered ++ [msg] ∧
    (y.send.buf.getLast? = some msg ∨ y.send.buf = [] ∧ y.log.received.getLast? = some msg) := by
  simp only [Subscriber.offer] at h
  split at h
  · cases h
  · next c hc =>
    cases h
    obtain ⟨-, -, hb, -⟩ := Go.Chan.trySend_handed hc
    exact ⟨rfl, .inr ⟨hb, List.getLast?_concat⟩⟩
  · next c hc =>
    cases h
    obtain ⟨-, -, hb, -⟩ := Go.Chan.trySend_queued hc
    exact ⟨rfl, .inl (by rw [hb, List.getLast?_concat])⟩
  · cases h

theorem offer_open (h : x.offer msg = .taken y) : x.send.closed = false := by
  simp only [Subscriber.offer] at h
  split at h
  · cases h
  · next hc => exact (Go.Chan.trySend_handed hc).1
  · next hc => exact (Go.Chan.trySend_queued hc).1
  · cases h

theorem offer_panics (h : x.offer msg = .panics) : x.send.closed = true := by
  simp only [Subscriber.offer] at h
  split at h
  · next hp => exact Go.Chan.trySend_panics hp
  all_goals cases h

theorem offer_full (h : x.offer msg = .full) :
    x.send.closed = false ∧ x.send.buf.length = x.send.cap := by
  simp only [Subscriber.offer] at h
  split at h
  case h_4 hp => exact Go.Chan.trySend_full hp
  all_goals cases h

/-- What handlers and `unsub` may do to a subscriber. -/
structure Drains (x y : Subscriber Msg) : Prop where
  delivered : y.log.delivered = x.log.delivered
  joined : y.log.joined = x.log.joined
  cap : y.send.cap = x.send.cap
  shrinks : y.send.buf.length ≤ x.send.buf.length
  stays : y.send.closed = false → x.send.closed = false
  flow : x.Flow → y.Flow
  losses : y.losses = x.losses
  stream : y.stream = x.stream

theorem Drains.refl (x : Subscriber Msg) : Drains x x :=
  ⟨rfl, rfl, rfl, Nat.le_refl _, id, id, rfl, rfl⟩

theorem Drains.take (hc : x.send.tryRecv = .item v c) : Drains x (x.take v c) := by
  obtain ⟨hb, hcap, hcl, -⟩ := Go.Chan.tryRecv_item hc
  refine ⟨rfl, rfl, hcap, ?_, fun h => hcl ▸ h, fun hf => hf.take hc, rfl, ?_⟩
  · rw [hb, List.length_cons]
    exact Nat.le_succ _
  · simp only [Subscriber.stream, Subscriber.take, hb, List.append_assoc, List.singleton_append]

/-- Changes that leave the accounts and the buffer alone. -/
theorem Drains.of_buf (hlog : y.log.delivered = x.log.delivered ∧ y.log.joined = x.log.joined ∧
      y.log.received = x.log.received ∧ y.log.lost = x.log.lost ∧ y.dropped = x.dropped)
    (hb : y.send.buf = x.send.buf) (hcap : y.send.cap = x.send.cap)
    (hcl : y.send.closed = false → x.send.closed = false) : Drains x y := by
  obtain ⟨h1, h2, h3, h4, h5⟩ := hlog
  refine ⟨h1, h2, hcap, Nat.le_of_eq (congrArg _ hb), hcl, ?_, Prod.ext h4 h5,
    by simp only [Subscriber.stream, h3, hb]⟩
  rintro ⟨⟨past, hdel, hrec, hlen⟩, hdrop⟩
  exact ⟨⟨past, by rw [hb, h1, hdel], h3 ▸ hrec, by rw [h4, h3, hlen]⟩, by rw [h5, h4, hdrop]⟩

end Subscriber

def Loop.rest (l : Loop Msg) : List Nat := l.snapshot.drop l.pos

/-- The packets that a publisher in the middle of `Broadcast` has yet to deliver to `s`. -/
def PublisherPc.owes (pc : PublisherPc Msg) (s : Nat) : List Msg :=
  match pc.loop with
  | some l => if s ∈ l.rest then [l.msg] else []
  | none => []

theorem Loop.mem_rest {l : Loop Msg} (hs : l.snapshot[l.pos]? = some s) (t : Nat) :
    t ∈ l.rest ↔ t = s ∨ t ∈ l.succ.rest := by
  obtain ⟨hlt, he⟩ := List.getElem?_eq_some_iff.mp hs
  simp only [Loop.rest, Loop.succ, List.drop_eq_getElem_cons hlt, he, List.mem_cons]

theorem Loop.not_mem_succ {l : Loop Msg} (hs : l.snapshot[l.pos]? = some s)
    (hn : l.snapshot.Nodup) : s ∉ l.succ.rest := by
  obtain ⟨hlt, he⟩ := List.getElem?_eq_some_iff.mp hs
  have hd : (l.snapshot.drop l.pos).Nodup := hn.sublist (List.drop_sublist ..)
  rw [List.drop_eq_getElem_cons hlt, he, List.nodup_cons] at hd
  exact hd.1

theorem Loop.owes_range (l : Loop Msg) (s : Nat) :
    (PublisherPc.range l).owes s = if s ∈ l.rest then [l.msg] else [] := rfl

theorem Loop.owes_deliver (l : Loop Msg) (s d : Nat) (st : Stage) (t : Nat) :
    (PublisherPc.deliver l s d st).owes t = if t ∈ l.rest then [l.msg] else [] := rfl

/-- Moving past `s` settles what was owed to `s` and nothing else. -/
theorem Loop.owes_succ {l : Loop Msg} (hs : l.snapshot[l.pos]? = some s) (ht : t ≠ s) :
    (PublisherPc.range l.succ).owes t = if t ∈ l.rest then [l.msg] else [] := by
  have hmem : t ∈ l.succ.rest ↔ t ∈ l.rest := by
    rw [Loop.mem_rest hs]
    exact ⟨.inr, fun h => h.resolve_left ht⟩
  rw [Loop.owes_range]
  simp only [hmem]
  rfl

/-- What `deliver` may rely on before each select, while the channel is open. -/
def Stage.Ready (depth : Nat) (send : Go.Chan Msg) : Stage → Prop
  | .first => send.buf.length ≤ depth ∧ depth ≤ send.cap
  | .second => depth = send.cap
  | .third => depth = send.cap ∧ send.buf.length < send.cap

namespace Hub

variable {h k : Hub Msg} {sniff : Msg → Bool} {r s : Nat}

structure Delivery (h : Hub Msg) : Prop where
  flow : ∀ s, (h.heap s).send.closed = false → (h.heap s).Flow
  joined : ∀ s, (h.heap s).log.joined ≤ h.history.length
  loop : ∀ r l, (h.publisher r).loop = some l → l.snapshot.Nodup ∧ ∀ s ∈ l.snapshot, s < h.next
  target : ∀ r l s d st, h.publisher r = .deliver l s d st → l.snapshot[l.pos]? = some s ∧
    ((h.heap s).send.closed = false → st.Ready d (h.heap s).send)
  progress : ∀ r, ∀ s ∈ h.ch.subs, (∀ q, q ≠ r → (h.publisher q).owes s = []) →
    h.history.drop (h.heap s).log.joined = (h.heap s).log.delivered ++ (h.publisher r).owes s

theorem delivery_fresh (ch : Channel) (hc : ch.subs = ∅) : Delivery (fresh ch : Hub Msg) := by
  refine ⟨?_, ?_, nofun, nofun, ?_⟩
  · intro s _
    exact Subscriber.flow_new _ _ rfl
  · intro s
    exact Nat.le_refl 0
  · intro r s hs
    rw [show (fresh ch : Hub Msg).ch.subs = ch.subs from rfl, hc] at hs
    cases hs

/-- What a step of the subscribers' side does when it allocates nothing. -/
structure Drained (h k : Hub Msg) : Prop where
  same : SamePublishers h k
  next : k.next = h.next
  subs : k.ch.subs ⊆ h.ch.subs
  drains : ∀ s, (h.heap s).Drains (k.heap s)

theorem Delivery.drain (hd : Delivery h) (e : Drained h k) : Delivery k := by
  obtain ⟨⟨hp, -, -, hh⟩, hnext, hsubs, hdrain⟩ := e
  refine ⟨?_, ?_, ?_, ?_, ?_⟩
  · intro s ho
    exact (hdrain s).flow (hd.flow s ((hdrain s).stays ho))
  · intro s
    rw [(hdrain s).joined, hh]
    exact hd.joined s
  · intro r l hl
    rw [hp] at hl
    obtain ⟨hn, hlt⟩ := hd.loop r l hl
    rw [hnext]
    exact ⟨hn, hlt⟩
  · intro r l s d st hpc
    rw [hp] at hpc
    obtain ⟨ht, hready⟩ := hd.target r l s d st hpc
    refine ⟨ht, fun ho => ?_⟩
    have hold := hready ((hdrain s).stays ho)
    have hshrink := (hdrain s).shrinks
    cases st with
    | first => exact ⟨Nat.le_trans hshrink hold.1, (hdrain s).cap ▸ hold.2⟩
    | second => exact hold.trans (hdrain s).cap.symm
    | third =>
      refine ⟨hold.1.trans (hdrain s).cap.symm, ?_⟩
      rw [(hdrain s).cap]
      exact Nat.lt_of_le_of_lt hshrink hold.2
  · intro r s hs hq
    rw [hp] at hq ⊢
    rw [hh, (hdrain s).joined, (hdrain s).delivered]
    exact hd.progress r s (hsubs hs) hq

theorem Drains.setHeap (hx : (h.heap s).Drains x) (t : Nat) :
    (h.heap t).Drains ((h.setHeap s x).heap t) := by
  simp only [Hub.setHeap, Function.update_apply]
  split
  · next ht => exact ht ▸ hx
  · exact .refl _

theorem drained_callUnsub (h : Hub Msg) (s : Nat) (caller : Option Nat) :
    Drained h (h.callUnsub s caller) := by
  have hsame := samePublishers_callUnsub h s caller
  simp only [Hub.callUnsub] at hsame ⊢
  split
  · next hs =>
    rw [if_pos hs] at hsame
    exact ⟨hsame, rfl, Finset.erase_subset .., fun _ => .refl _⟩
  · next hs =>
    rw [if_neg hs] at hsame
    cases caller <;> exact ⟨hsame, rfl, Finset.Subset.refl _, fun _ => .refl _⟩

theorem drained_stepUnlock (he : h.stepUnlock = some k) : Drained h k := by
  have hsame := samePublishers_stepUnlock he
  simp only [Hub.stepUnlock] at he
  split at he
  · cases he
    refine ⟨hsame, rfl, Finset.Subset.refl _, Drains.setHeap (h := h) ?_⟩
    exact .of_buf ⟨rfl, rfl, rfl, rfl, rfl⟩ rfl rfl id
  · split at he <;> cases he
    · next caller _ _ _ =>
      cases caller <;> exact ⟨hsame, rfl, Finset.Subset.refl _, fun _ => .refl _⟩
    · next hc =>
      obtain ⟨ho, -, hb, hcap⟩ := Go.Chan.close_eq_some hc
      refine ⟨hsame, rfl, Finset.Subset.refl _, Drains.setHeap (h := h) ?_⟩
      exact .of_buf ⟨rfl, rfl, rfl, rfl, rfl⟩ hb hcap (fun _ => ho)
  · cases he
    next caller _ => cases caller <;> exact ⟨hsame, rfl, Finset.Subset.refl _, fun _ => .refl _⟩
  · cases he

theorem drained_stepSubscriber {a : SubscriberAct} (ha : a ≠ .subscribe)
    (he : h.stepSubscriber r a = some k) : Drained h k := by
  have hsame := samePublishers_stepSubscriber he
  have hkeep : ∀ pc, Drained h (h.setSubscriber r pc) := fun pc =>
    ⟨⟨rfl, rfl, rfl, rfl, rfl⟩, rfl, Finset.Subset.refl _, fun _ => .refl _⟩
  have hheap : ∀ s x, (h.heap s).Drains x → k.heap = (h.setHeap s x).heap → k.next = h.next →
      k.ch.subs = h.ch.subs → Drained h k := by
    intro s x hx hk hnext hsubs
    refine ⟨hsame, hnext, hsubs ▸ Finset.Subset.refl _, ?_⟩
    rw [hk]
    exact Drains.setHeap hx
  simp only [Hub.stepSubscriber] at he
  split at he
  · exact absurd rfl ha
  · cases he; exact hkeep _
  · cases he; exact hkeep _
  · next s _ =>
    split at he
    · simp only [Hub.receive] at he
      split at he
      · next hc =>
        cases he
        exact hheap s _ (.take hc) rfl rfl rfl
      · cases he; exact hkeep _
      · cases he
    · cases he
  · next s _ =>
    split at he
    · obtain ⟨c, hc, rfl⟩ := Option.map_eq_some_iff.mp he
      obtain ⟨-, -, hb, hcap, hcl, -⟩ := Go.Chan.park_eq_some hc
      exact hheap s { h.heap s with send := c }
        (.of_buf ⟨rfl, rfl, rfl, rfl, rfl⟩ hb hcap (fun ho => hcl ▸ ho)) rfl rfl rfl
    · cases he
  · next s _ =>
    split at he <;> cases he
    exact hheap s { h.heap s with send := (h.heap s).send.resume }
      (.of_buf ⟨rfl, rfl, rfl, rfl, rfl⟩ rfl rfl id) rfl rfl rfl
  · next s _ =>
    split at he <;> cases he
    exact hheap s { h.heap s with send := (h.heap s).send.resume }
      (.of_buf ⟨rfl, rfl, rfl, rfl, rfl⟩ rfl rfl id) rfl rfl rfl
  · next s msg _ _ =>
    split at he <;> cases he
    · exact hheap s ((h.heap s).wrote msg) (.of_buf ⟨rfl, rfl, rfl, rfl, rfl⟩ rfl rfl id) rfl rfl
        rfl
    · exact hkeep _
  · split at he <;> cases he
    exact drained_callUnsub h _ _
  · cases he

theorem subscribe_of_step (he : h.stepSubscriber r .subscribe = some k) : k = h.subscribe r := by
  simp only [Hub.stepSubscriber] at he
  cases hpc : h.subscriber r <;> simp only [hpc, reduceCtorEq] at he
  split at he <;> cases he
  rfl

theorem Delivery.subscribe (hd : Delivery h) (hm : Members h) : Delivery (h.subscribe r) := by
  simp only [Hub.subscribe]
  split
  · exact hd.drain ⟨⟨rfl, rfl, rfl, rfl, rfl⟩, rfl, Finset.Subset.refl _, fun _ => .refl _⟩
  · rw [make_eq hm]
    have hold : ∀ r l s d st, h.publisher r = .deliver l s d st → s ≠ h.next := by
      intro r l s d st hpc
      obtain ⟨ht, -⟩ := hd.target r l s d st hpc
      have := (hd.loop r l (by rw [hpc]; rfl)).2 s (List.mem_of_getElem? ht)
      omega
    refine ⟨?_, ?_, ?_, ?_, ?_⟩
    · intro s ho
      simp only [Hub.setSubscriber, Function.update_apply] at ho ⊢
      split
      · exact Subscriber.flow_new _ _ rfl
      · next hs =>
        rw [if_neg hs] at ho
        exact hd.flow s ho
    · intro s
      simp only [Hub.setSubscriber, Function.update_apply]
      split
      · exact Nat.le_refl _
      · exact hd.joined s
    · intro q l hl
      obtain ⟨hn, hlt⟩ := hd.loop q l hl
      exact ⟨hn, fun s hs => Nat.lt_succ_of_lt (hlt s hs)⟩
    · intro q l s d st hpc
      simp only [Hub.setSubscriber, Function.update_of_ne (hold q l s d st hpc)]
      exact hd.target q l s d st hpc
    · intro q s hs hq
      simp only [Hub.setSubscriber, Finset.mem_insert] at hs
      by_cases hsn : s = h.next
      · subst hsn
        have howes : (h.publisher q).owes h.next = [] := by
          simp only [PublisherPc.owes]
          split
          · next l hl =>
            refine if_neg (fun hmem => ?_)
            exact Nat.lt_irrefl _ ((hd.loop q l hl).2 _ (List.mem_of_mem_drop hmem))
          · rfl
        simp only [Hub.setSubscriber, Function.update_self, howes, newSubscriber, List.drop_length,
          List.append_nil]
      · simp only [Hub.setSubscriber, Function.update_of_ne hsn]
        exact hd.progress q s (hs.resolve_left hsn) hq

theorem Delivery.stepSubscriber (hd : Delivery h) (hm : Members h) {a : SubscriberAct}
    (he : h.stepSubscriber r a = some k) : Delivery k := by
  by_cases ha : a = .subscribe
  · subst ha
    rw [subscribe_of_step he]
    exact hd.subscribe hm
  · exact hd.drain (drained_stepSubscriber ha he)

theorem Delivery.setPublisher (hd : Delivery h) {pc : PublisherPc Msg}
    (howes : ∀ s ∈ h.ch.subs, pc.owes s = (h.publisher r).owes s)
    (hloop : ∀ l, pc.loop = some l → l.snapshot.Nodup ∧ ∀ s ∈ l.snapshot, s < h.next)
    (htarget : ∀ l s d st, pc = .deliver l s d st → l.snapshot[l.pos]? = some s ∧
      ((h.heap s).send.closed = false → st.Ready d (h.heap s).send)) :
    Delivery (h.setPublisher r pc) := by
  have hsame : ∀ q, ∀ s ∈ h.ch.subs,
      ((h.setPublisher r pc).publisher q).owes s = (h.publisher q).owes s := by
    intro q s hs
    rw [setPublisher_publisher]
    by_cases hqr : q = r
    · subst hqr
      rw [Function.update_self, howes s hs]
    · rw [Function.update_of_ne hqr]
  refine ⟨hd.flow, hd.joined, ?_, ?_, ?_⟩
  · intro q l hl
    rw [setPublisher_publisher] at hl
    by_cases hqr : q = r
    · subst hqr
      rw [Function.update_self] at hl
      exact hloop l hl
    · rw [Function.update_of_ne hqr] at hl
      exact hd.loop q l hl
  · intro q l s d st hpc
    rw [setPublisher_publisher] at hpc
    by_cases hqr : q = r
    · subst hqr
      rw [Function.update_self] at hpc
      exact htarget l s d st hpc
    · rw [Function.update_of_ne hqr] at hpc
      exact hd.target q l s d st hpc
  · intro q s hs hq
    rw [hsame q s hs]
    refine hd.progress q s hs (fun p hp => ?_)
    rw [← hsame p s hs]
    exact hq p hp

/-- A publisher outside of `Broadcast` before and after its step. -/
theorem Delivery.outside (hd : Delivery h) {pc : PublisherPc Msg} (hpc : pc.loop = none)
    (hr : (h.publisher r).loop = none) : Delivery (h.setPublisher r pc) := by
  refine hd.setPublisher ?_ ?_ ?_
  · intro s _
    simp only [PublisherPc.owes, hpc, hr]
  · intro l hl
    rw [hpc] at hl
    cases hl
  · rintro l s d st rfl
    cases hpc

theorem Slot.owes_other (hs : Slot h) (hr : (h.publisher r).holds = true) (hq : q ≠ r) (s : Nat) :
    (h.publisher q).owes s = [] := by
  simp only [PublisherPc.owes]
  split
  · next l hl => exact absurd (hs.unique q r (PublisherPc.holds_of_loop hl) hr) hq
  · rfl

theorem Delivery.snapshot (hd : Delivery h) (hs : Slot h) (hm : Members h)
    (hr : h.publisher r = .broadcast msg) (hn : order.Nodup) (ho : order.toFinset = h.ch.subs) :
    Delivery (h.snapshot r msg order) := by
  have hholds : (h.publisher r).holds = true := by
    rw [hr]
    rfl
  have hmem : ∀ s, s ∈ order ↔ s ∈ h.ch.subs := by
    intro s
    rw [← ho, List.mem_toFinset]
  refine ⟨hd.flow, ?_, ?_, ?_, ?_⟩
  · intro s
    refine Nat.le_trans (hd.joined s) ?_
    simp only [Hub.snapshot, Hub.setPublisher, List.length_append]
    exact Nat.le_add_right _ _
  · intro q l hl
    simp only [Hub.snapshot, setPublisher_publisher, Function.update_apply] at hl
    split at hl
    · cases hl
      exact ⟨hn, fun s hs => ((hm.mem s).mp ((hmem s).mp hs)).1⟩
    · exact hd.loop q l hl
  · intro q l s d st hpc
    simp only [Hub.snapshot, setPublisher_publisher, Function.update_apply] at hpc
    split at hpc
    · cases hpc
    · exact hd.target q l s d st hpc
  · intro q s hmems hq
    have hsub : s ∈ h.ch.subs := hmems
    have hold : h.history.drop (h.heap s).log.joined = (h.heap s).log.delivered := by
      have := hd.progress r s hsub (fun p hp => hs.owes_other hholds hp s)
      rwa [hr, show (PublisherPc.broadcast msg).owes s = [] from rfl, List.append_nil] at this
    have hnew : ((h.snapshot r msg order).publisher r).owes s = [msg] := by
      simp only [Hub.snapshot, setPublisher_publisher, Function.update_self, PublisherPc.owes,
        PublisherPc.loop, Loop.rest, List.drop_zero]
      exact if_pos ((hmem s).mpr hsub)
    have hqr : q = r := by
      by_contra hne
      have := hq r (Ne.symm hne)
      rw [hnew] at this
      cases this
    subst hqr
    rw [hnew]
    change (h.history ++ [msg]).drop (h.heap s).log.joined = _
    rw [List.drop_append_of_le_length (hd.joined s), hold]
    rfl

theorem Delivery.push (hd : Delivery h) (hs : Slot h) (hr : (h.publisher r).holds = true)
    {x : Subscriber Msg} {pc : PublisherPc Msg} (hflow : x.send.closed = false → x.Flow)
    (hjoin : x.log.joined = (h.heap s).log.joined)
    (hloop : ∀ l, pc.loop = some l → l.snapshot.Nodup ∧ ∀ s ∈ l.snapshot, s < h.next)
    (htarget : ∀ l t d st, pc = .deliver l t d st → t = s ∧ l.snapshot[l.pos]? = some s ∧
      (x.send.closed = false → st.Ready d x.send))
    (hself : s ∈ h.ch.subs → x.log.delivered ++ pc.owes s =
      (h.heap s).log.delivered ++ (h.publisher r).owes s)
    (hother : ∀ t ∈ h.ch.subs, t ≠ s → pc.owes t = (h.publisher r).owes t) :
    Delivery ((h.setHeap s x).setPublisher r pc) := by
  have hheap : ∀ t, t ≠ s → ((h.setHeap s x).setPublisher r pc).heap t = h.heap t := by
    intro t ht
    simp only [Hub.setPublisher, Hub.setHeap, Function.update_of_ne ht]
  have hheaps : ((h.setHeap s x).setPublisher r pc).heap s = x := by
    simp only [Hub.setPublisher, Hub.setHeap, Function.update_self]
  have hpub : ∀ q, q ≠ r → ((h.setHeap s x).setPublisher r pc).publisher q = h.publisher q := by
    intro q hq
    simp only [Hub.setPublisher, Hub.setHeap, Function.update_of_ne hq]
  have hpubr : ((h.setHeap s x).setPublisher r pc).publisher r = pc := by
    simp only [Hub.setPublisher, Hub.setHeap, Function.update_self]
  refine ⟨?_, ?_, ?_, ?_, ?_⟩
  · intro t ho
    by_cases ht : t = s
    · subst ht
      rw [hheaps] at ho ⊢
      exact hflow ho
    · rw [hheap t ht] at ho ⊢
      exact hd.flow t ho
  · intro t
    by_cases ht : t = s
    · subst ht
      rw [hheaps, hjoin]
      exact hd.joined t
    · rw [hheap t ht]
      exact hd.joined t
  · intro q l hl
    by_cases hq : q = r
    · subst hq
      rw [hpubr] at hl
      exact hloop l hl
    · rw [hpub q hq] at hl
      exact hd.loop q l hl
  · intro q l t d st hpc
    by_cases hq : q = r
    · subst hq
      rw [hpubr] at hpc
      obtain ⟨rfl, ht, hready⟩ := htarget l t d st hpc
      rw [hheaps]
      exact ⟨ht, hready⟩
    · rw [hpub q hq] at hpc
      exact absurd (hs.unique q r (by rw [hpc]; rfl) hr) hq
  · intro q t ht hq
    have hmem : t ∈ h.ch.subs := ht
    have hold := hd.progress r t hmem (fun p hp => hs.owes_other hr hp t)
    have hnew : h.history.drop (((h.setHeap s x).setPublisher r pc).heap t).log.joined =
        (((h.setHeap s x).setPublisher r pc).heap t).log.delivered ++ pc.owes t := by
      by_cases hts : t = s
      · subst hts
        rw [hheaps, hjoin, hold, hself hmem]
      · rw [hheap t hts, hold, hother t hmem hts]
    by_cases hqr : q = r
    · subst hqr
      rw [hpubr]
      exact hnew
    · have hdone := hq r (Ne.symm hqr)
      rw [hpubr] at hdone
      rw [hpub q hqr, hs.owes_other hr hqr t, ← hdone]
      exact hnew

theorem Members.not_mem_of_closed (hm : Members h) (hc : (h.heap s).send.closed = true) :
    s ∉ h.ch.subs := by
  rw [hm.chan s, Bool.and_eq_true, decide_eq_true_eq] at hc
  exact fun hs => ((hm.mem s).mp hs).2 hc.1

section Turn

variable {l : Loop Msg} {d : Nat} {st : Stage} (hd : Delivery h)
  (hr : h.publisher r = .deliver l s d st)
include hd hr

theorem Delivery.loop_succ : ∀ m, (PublisherPc.range l.succ).loop = some m →
    m.snapshot.Nodup ∧ ∀ s ∈ m.snapshot, s < h.next := by
  rintro m ⟨⟩
  exact hd.loop r l (by rw [hr]; rfl)

theorem Delivery.owes_other (ht : t ≠ s) :
    (PublisherPc.range l.succ).owes t = (h.publisher r).owes t := by
  rw [hr, Loop.owes_succ (hd.target r l s d st hr).1 ht, Loop.owes_deliver]

theorem Delivery.owes_self : (h.publisher r).owes s = [l.msg] := by
  rw [hr, Loop.owes_deliver, if_pos ((Loop.mem_rest (hd.target r l s d st hr).1 s).mpr (.inl rfl))]

/-- The turn of a subscriber that is closed already. -/
theorem Delivery.skip (hm : Members h) (hp : (h.heap s).offer l.msg = .panics) :
    Delivery (h.setPublisher r (.range l.succ)) := by
  refine hd.setPublisher ?_ (hd.loop_succ hr) nofun
  intro t hmem
  apply hd.owes_other hr
  rintro rfl
  exact hm.not_mem_of_closed (Subscriber.offer_panics hp) hmem

/-- The turn of a subscriber that takes the packet. -/
theorem Delivery.taken (hs : Slot h) (hx : (h.heap s).offer l.msg = .taken x) :
    Delivery ((h.setHeap s x).setPublisher r (.range l.succ)) := by
  have hholds : (h.publisher r).holds = true := by
    rw [hr]
    rfl
  obtain ⟨ht, -⟩ := hd.target r l s d st hr
  obtain ⟨hn, -⟩ := hd.loop r l (by rw [hr]; rfl)
  refine hd.push hs hholds ?_ ?_ (hd.loop_succ hr) nofun ?_ (fun t _ => hd.owes_other hr)
  · intro _
    exact (hd.flow s (Subscriber.offer_open hx)).offer hx
  · exact congrArg (fun t => t.2.1) (Subscriber.offer_status hx)
  · intro _
    rw [(Subscriber.offer_newest hx).1, hd.owes_self hr, Loop.owes_range,
      if_neg (Loop.not_mem_succ ht hn), List.append_nil]

end Turn

theorem Delivery.deliver (hd : Delivery h) (hs : Slot h) (hm : Members h)
    (hbuf : 0 < h.ch.sendBuf) (hr : h.publisher r = .deliver l s d st) :
    Delivery (h.deliver r l s d st) := by
  have hholds : (h.publisher r).holds = true := by
    rw [hr]
    rfl
  obtain ⟨ht, hready⟩ := hd.target r l s d st hr
  obtain ⟨hn, hlt⟩ := hd.loop r l (by rw [hr]; rfl)
  have hcap : 0 < (h.heap s).send.cap := by
    rw [hm.cap s (hlt s (List.mem_of_getElem? ht))]
    omega
  have howes : ∀ e t, (PublisherPc.deliver l s d e).owes t = (h.publisher r).owes t := by
    intro e t
    rw [hr]
    rfl
  cases st with
  | first =>
    simp only [Hub.deliver]
    split
    · next hp => exact hd.skip hr hm hp
    · next x hx => exact hd.taken hr hs hx
    · next hfull =>
      obtain ⟨ho, hlen⟩ := Subscriber.offer_full hfull
      refine hd.setPublisher (fun t _ => howes _ t) ?_ ?_
      · rintro m ⟨⟩
        exact ⟨hn, hlt⟩
      · rintro m t e st ⟨⟩
        refine ⟨ht, fun _ => ?_⟩
        obtain ⟨hle, hcap⟩ := hready ho
        exact Nat.le_antisymm hcap (hlen ▸ hle)
  | second =>
    have hst := Subscriber.discard_status (h.heap s)
    have hcl : (h.heap s).discard.send.closed = (h.heap s).send.closed :=
      congrArg (fun t => t.1.2.1) hst
    have hcaps : (h.heap s).discard.send.cap = (h.heap s).send.cap :=
      congrArg (fun t => t.1.2.2.1) hst
    refine hd.push hs hholds ?_ ?_ ?_ ?_ ?_ ?_
    · intro ho
      rw [hcl] at ho
      exact (hd.flow s ho).discard ho
    · exact congrArg (fun t => t.2.1) hst
    · rintro m ⟨⟩
      exact ⟨hn, hlt⟩
    · rintro m t e st ⟨⟩
      refine ⟨rfl, ht, fun ho => ?_⟩
      rw [hcl] at ho
      refine ⟨(hready ho).trans hcaps.symm, ?_⟩
      rw [hcaps]
      exact Subscriber.discard_length hcap
    · intro _
      rw [Subscriber.discard_delivered, howes]
    · intro t _ _
      exact howes _ t
  | third =>
    simp only [Hub.deliver]
    split
    · next hp => exact hd.skip hr hm hp
    · next x hx => exact hd.taken hr hs hx
    · next hfull =>
      obtain ⟨ho, hlen⟩ := Subscriber.offer_full hfull
      have := (hready ho).2
      omega

theorem Delivery.next (hd : Delivery h) (hs : Slot h) (hm : Members h)
    (hr : h.publisher r = .range l) : Delivery (h.setPublisher r (h.next? l)) := by
  obtain ⟨hn, hlt⟩ := hd.loop r l (by rw [hr]; rfl)
  obtain ⟨hlen, hback⟩ := hs.backed r l (by rw [hr]; rfl)
  simp only [next?]
  by_cases hpos : l.pos < l.len
  · rw [if_pos hpos]
    have hget : l.snapshot[l.pos]? = some (h.ch.broadcastScratch.getD l.pos 0) := by
      have hle : l.pos < h.ch.broadcastScratch.length := by
        have := congrArg List.length hback
        rw [List.length_take, ← hlen] at this
        omega
      rw [← hback, List.getElem?_take_of_lt hpos, List.getD_eq_getElem?_getD,
        List.getElem?_eq_getElem hle]
      rfl
    generalize h.ch.broadcastScratch.getD l.pos 0 = s at hget
    split
    · next hc =>
      have hmem : s ∉ h.ch.subs := by
        rw [hm.flag s, Bool.and_eq_true, decide_eq_true_eq] at hc
        exact fun hs => ((hm.mem s).mp hs).2 hc.1
      refine hd.setPublisher ?_ ?_ (by simp)
      · intro t ht
        rw [hr, Loop.owes_succ hget (fun he => hmem (he ▸ ht)), Loop.owes_range]
      · rintro m ⟨⟩
        exact ⟨hn, hlt⟩
    · refine hd.setPublisher ?_ ?_ ?_
      · intro t _
        rw [hr]
        rfl
      · rintro m ⟨⟩
        exact ⟨hn, hlt⟩
      · rintro m t e st ⟨⟩
        exact ⟨hget, fun _ => ⟨Nat.le_refl _, (h.heap s).send.fits⟩⟩
  · rw [if_neg hpos]
    refine hd.setPublisher ?_ (by rintro l ⟨⟩) (by simp)
    intro t _
    rw [hr, Loop.owes_range, Loop.rest, List.drop_eq_nil_of_le (by omega)]
    rfl

theorem Delivery.stepPublisher (hd : Delivery h) (hs : Slot h) (hm : Members h)
    (hbuf : 0 < h.ch.sendBuf) {a : PublisherAct Msg} (he : h.stepPublisher sniff r a = some k) :
    Delivery k := by
  simp only [Hub.stepPublisher] at he
  split at he
  · next hpc =>
    split at he <;> cases he
    have hclaim : Delivery { h with ch.hasPub := true } :=
      ⟨hd.flow, hd.joined, hd.loop, hd.target, hd.progress⟩
    simp only [claimPublisher]
    split
    · exact hd.outside rfl (by rw [hpc]; rfl)
    · exact hclaim.outside rfl (by rw [hpc]; rfl)
  · next ok hpc =>
    cases he
    cases ok <;> exact hd.outside rfl (by rw [hpc]; rfl)
  · next ok hpc =>
    cases he
    cases ok <;> exact hd.outside rfl (by rw [hpc]; rfl)
  · next hpc =>
    cases he
    exact hd.outside rfl (by rw [hpc]; rfl)
  · next hpc =>
    cases he
    split <;> exact hd.outside rfl (by rw [hpc]; rfl)
  · next hpc =>
    split at he <;> cases he
    next hg => exact hd.snapshot hs hm hpc hg.2.1 hg.2.2
  · next hpc =>
    cases he
    exact hd.next hs hm hpc
  · next hpc =>
    cases he
    exact hd.deliver hs hm hbuf hpc
  · next hpc =>
    split at he <;> cases he
    have hrel : Delivery { h with ch.hasPub := false } :=
      ⟨hd.flow, hd.joined, hd.loop, hd.target, hd.progress⟩
    exact hrel.outside rfl (by rw [hpc]; rfl)
  · cases he

theorem Delivery.step (hd : Delivery h) (hs : Slot h) (hm : Members h) (hbuf : 0 < h.ch.sendBuf)
    {a : HubAct Msg} (he : h.step sniff a = some k) : Delivery k := by
  cases a with
  | publisher r a => exact hd.stepPublisher hs hm hbuf he
  | subscriber r a => exact hd.stepSubscriber hm he
  | unsub s =>
    simp only [Hub.step] at he
    split at he <;> cases he
    exact hd.drain (drained_callUnsub h s none)
  | unlock => exact hd.drain (drained_stepUnlock he)

theorem delivery_of_reachable (hb : 0 < sendBuf)
    (hr : (hub sniff name maxSubs sendBuf).Reachable h) :
    Slot h ∧ Members h ∧ Delivery h := by
  have hall : h.ch.limits = (name, maxSubs, sendBuf) ∧ Slot h ∧ Members h ∧ Delivery h := by
    refine Machine.Reachable.invariant (P := fun h : Hub Msg =>
      h.ch.limits = (name, maxSubs, sendBuf) ∧ Slot h ∧ Members h ∧ Delivery h) hr ?_ ?_
    · exact ⟨rfl, slot_fresh _ rfl, members_fresh name maxSubs (Int.le_of_lt hb),
        delivery_fresh _ rfl⟩
    · rintro s a t ⟨hl, hs, hm, hd⟩ he
      have hbuf : 0 < s.ch.sendBuf := by
        rw [show s.ch.sendBuf = sendBuf from congrArg (fun p => p.2.2) hl]
        exact hb
      exact ⟨(limits_step he).trans hl, hs.step he, hm.step he, hd.step hs hm hbuf he⟩
  exact hall.2

/-- A step of `deliver` touches the subscriber it delivers to, and discards from its
queue in the second select only. -/
theorem losses_deliver (hd : Delivery h) (hr : h.publisher r = .deliver l t d st)
    (ho : (h.heap s).send.closed = false)
    (hlost : ((h.deliver r l t d st).heap s).losses ≠ (h.heap s).losses) :
    t = s ∧ st = .second ∧ d = (h.heap s).send.cap := by
  have hts : t = s := by
    by_contra hne
    have hsame : (h.deliver r l t d st).heap s = h.heap s := by
      simp only [Hub.deliver]
      split
      · split
        · rfl
        · exact Function.update_of_ne (Ne.symm hne) ..
        · rfl
      · exact Function.update_of_ne (Ne.symm hne) ..
      · split
        · rfl
        · exact Function.update_of_ne (Ne.symm hne) ..
        · exact Function.update_of_ne (Ne.symm hne) ..
    exact hlost (congrArg _ hsame)
  subst hts
  have htaken : ∀ x, (h.heap t).offer l.msg = .taken x →
      ((h.setHeap t x).heap t).losses = (h.heap t).losses := by
    intro x hx
    simp only [Hub.setHeap, Function.update_self, Subscriber.offer] at hx ⊢
    split at hx <;> cases hx <;> rfl
  have hready := (hd.target r l t d st hr).2 ho
  cases st with
  | first =>
    simp only [Hub.deliver] at hlost
    split at hlost
    · exact absurd rfl hlost
    · next x hx => exact absurd (htaken x hx) hlost
    · exact absurd rfl hlost
  | second => exact ⟨rfl, rfl, hready⟩
  | third =>
    simp only [Hub.deliver] at hlost
    split at hlost
    · exact absurd rfl hlost
    · next x hx => exact absurd (htaken x hx) hlost
    · next hfull =>
      have := hready.2
      have := (Subscriber.offer_full hfull).2
      omega

theorem losses_step (hd : Delivery h) (hs : s < h.next) (ho : (h.heap s).send.closed = false)
    {a : HubAct Msg} (he : h.step sniff a = some k)
    (hlost : (k.heap s).losses ≠ (h.heap s).losses) :
    ∃ r l d, a = .publisher r .deliver ∧ h.publisher r = .deliver l s d .second ∧
      d = (h.heap s).send.cap := by
  have hdrain : (h.heap s).Drains (k.heap s) → False := fun hx => hlost hx.losses
  cases a with
  | unsub t =>
    simp only [Hub.step] at he
    split at he <;> cases he
    exact (hdrain ((drained_callUnsub h t none).drains s)).elim
  | unlock => exact (hdrain ((drained_stepUnlock he).drains s)).elim
  | subscriber r a =>
    by_cases ha : a = .subscribe
    · subst ha
      refine (hdrain ?_).elim
      rw [subscribe_of_step he, Hub.subscribe]
      split
      · exact .refl _
      · split
        · exact .refl _
        · simp only [Hub.setSubscriber, Function.update_of_ne (Nat.ne_of_lt hs)]
          exact .refl _
    · exact (hdrain ((drained_stepSubscriber ha he).drains s)).elim
  | publisher r a =>
    simp only [Hub.step, Hub.stepPublisher] at he
    split at he
    case h_8 l t d st hpc =>
      cases he
      obtain ⟨rfl, rfl, hdepth⟩ := losses_deliver hd hpc ho hlost
      exact ⟨r, l, d, rfl, hpc, hdepth⟩
    case h_1 =>
      split at he <;> cases he
      simp only [claimPublisher] at hdrain
      split at hdrain <;> exact (hdrain (.refl _)).elim
    case h_6 =>
      split at he <;> cases he
      exact (hdrain (.refl _)).elim
    case h_9 =>
      split at he <;> cases he
      exact (hdrain (.refl _)).elim
    all_goals
      cases he
      try exact (hdrain (.refl _)).elim

/-- What a viewer's queue and its accounts say at any moment. -/
structure DeliveredTo (sniff : Msg → Bool) (h : Hub Msg) (s : Nat) : Prop where
  queue : (h.heap s).send.buf <:+ (h.heap s).log.delivered
  ordered : ((h.heap s).log.received ++ (h.heap s).send.buf).Sublist (h.heap s).log.delivered
  broadcasts : (h.heap s).log.delivered <+: h.history.drop (h.heap s).log.joined
  counted : (h.heap s).log.lost.length + (h.heap s).log.received.length +
    (h.heap s).send.buf.length = (h.heap s).log.delivered.length
  counter : (h.heap s).dropped = UInt64.ofNat (h.heap s).log.lost.length
  completed : ∀ r l d st k, h.publisher r = .deliver l s d st →
    h.step sniff (.publisher r .deliver) = some k → k.publisher r = .range l.succ →
      (k.heap s).log.delivered = k.history.drop (k.heap s).log.joined ∧
      (k.heap s).log.delivered = (h.heap s).log.delivered ++ [l.msg] ∧
      (k.heap s).send.buf <:+ k.history.drop (k.heap s).log.joined ∧
      ((k.heap s).send.buf.getLast? = some l.msg ∨
        (k.heap s).send.buf = [] ∧ (k.heap s).log.received.getLast? = some l.msg)
  started : ∀ r l d st k, h.step sniff (.publisher r .next) = some k →
    k.publisher r = .deliver l s d st → st = .first ∧ d = (h.heap s).send.buf.length
  full : ∀ a k, h.step sniff a = some k →
    (k.heap s).log.lost ≠ (h.heap s).log.lost ∨ (k.heap s).dropped ≠ (h.heap s).dropped →
      ∃ r l d, a = .publisher r .deliver ∧ h.publisher r = .deliver l s d .second ∧
        (d : Int) = h.ch.sendBuf
  pushed : ∀ r l d, h.publisher r = .deliver l s d .third → (h.heap s).offer l.msg ≠ .full

theorem completed_deliver (hd : Delivery h) (hm : Members h) (hmem : s ∈ h.ch.subs)
    (hr : h.publisher r = .deliver l s d st)
    (hk : (h.deliver r l s d st).publisher r = .range l.succ) :
    ∃ x, (h.heap s).offer l.msg = .taken x ∧ (h.deliver r l s d st).heap s = x := by
  have hopen : (h.heap s).offer l.msg ≠ .panics := fun hp =>
    hm.not_mem_of_closed (Subscriber.offer_panics hp) hmem
  have hready := (hd.target r l s d st hr).2
  cases st with
  | first =>
    simp only [Hub.deliver] at hk ⊢
    split
    · next hp => exact absurd hp hopen
    · next x hx => exact ⟨x, hx, Function.update_self ..⟩
    · next hfull =>
      rw [hfull] at hk
      simp only [setPublisher_publisher, Function.update_self, reduceCtorEq] at hk
  | second =>
    simp only [Hub.deliver, setPublisher_publisher, Function.update_self, reduceCtorEq] at hk
  | third =>
    simp only [Hub.deliver]
    split
    · next hp => exact absurd hp hopen
    · next x hx => exact ⟨x, hx, Function.update_self ..⟩
    · next hfull =>
      obtain ⟨ho, hlen⟩ := Subscriber.offer_full hfull
      have := (hready ho).2
      omega

/-- At any time one publisher at most has packets to deliver. -/
theorem Slot.owner (hs : Slot h) (s : Nat) : ∃ r, ∀ q, q ≠ r → (h.publisher q).owes s = [] := by
  by_cases hp : ∃ r, (h.publisher r).holds = true
  · obtain ⟨r, hr⟩ := hp
    exact ⟨r, fun q hq => hs.owes_other hr hq s⟩
  · refine ⟨0, fun q _ => ?_⟩
    simp only [PublisherPc.owes]
    split
    · next l hl => exact absurd ⟨q, PublisherPc.holds_of_loop hl⟩ hp
    · rfl

/-- One viewer of a hub with buffered queues, whatever the others do. -/
theorem deliveredTo_of_reachable (hb : 1 ≤ sendBuf)
    (hr : (hub sniff name maxSubs sendBuf).Reachable h) (hmem : s ∈ h.ch.subs) :
    DeliveredTo sniff h s := by
  obtain ⟨hslot, hm, hd⟩ := delivery_of_reachable hb hr
  have ho : (h.heap s).send.closed = false := by
    by_contra hc
    exact hm.not_mem_of_closed (by simpa using hc) hmem
  have hlt : s < h.next := ((hm.mem s).mp hmem).1
  obtain ⟨⟨past, hdel, hrec, hlen⟩, hdrop⟩ := hd.flow s ho
  refine ⟨⟨past, hdel.symm⟩, ?_, ?_, ?_, hdrop, ?_, ?_, ?_, ?_⟩
  · rw [hdel]
    exact hrec.append (List.Sublist.refl _)
  · obtain ⟨r, hq⟩ := hslot.owner s
    exact ⟨_, (hd.progress r s hmem hq).symm⟩
  · rw [hdel, List.length_append, hlen]
  · intro r l d st k hpc he hk
    obtain ⟨hslot', -, hd'⟩ := delivery_of_reachable hb (reachable_step hr he)
    have hmem' : s ∈ k.ch.subs := (sameSubscribers_stepPublisher he).subs ▸ hmem
    simp only [Hub.step, Hub.stepPublisher, hpc, Option.some.injEq] at he
    subst he
    obtain ⟨x, hx, hxk⟩ := completed_deliver hd hm hmem hpc hk
    obtain ⟨hnew, hlast⟩ := Subscriber.offer_newest hx
    have hdone : ((h.deliver r l s d st).heap s).log.delivered =
        (h.deliver r l s d st).history.drop ((h.deliver r l s d st).heap s).log.joined := by
      have hholds : ((h.deliver r l s d st).publisher r).holds = true := by
        rw [hk]
        rfl
      have hold := hd'.progress r s hmem' (fun q hq => hslot'.owes_other hholds hq s)
      rw [hk, Loop.owes_range, if_neg, List.append_nil] at hold
      · exact hold.symm
      · exact Loop.not_mem_succ (hd.target r l s d st hpc).1
          (hd.loop r l (by rw [hpc]; rfl)).1
    refine ⟨hdone, by rw [hxk, hnew], ?_, by rw [hxk]; exact hlast⟩
    rw [← hdone, hxk]
    obtain ⟨past, hx', -⟩ := ((hd.flow s ho).offer hx).split
    exact ⟨past, hx'.symm⟩
  · intro r l d st k he hk
    simp only [Hub.step, Hub.stepPublisher] at he
    cases hpc : h.publisher r <;> simp only [hpc, reduceCtorEq, Option.some.injEq] at he
    subst he
    rw [setPublisher_publisher, Function.update_self, next?] at hk
    dsimp only at hk
    split_ifs at hk
    cases hk
    exact ⟨rfl, rfl⟩
  · intro a k he hlost
    have hloses : (k.heap s).losses ≠ (h.heap s).losses := by
      intro heq
      exact hlost.elim (absurd (congrArg Prod.fst heq)) (absurd (congrArg Prod.snd heq))
    obtain ⟨r, l, d, ha, hpc, hdepth⟩ := losses_step hd hlt ho he hloses
    refine ⟨r, l, d, ha, hpc, ?_⟩
    rw [hdepth, hm.cap s hlt]
    exact Int.toNat_of_nonneg hm.buffer
  · intro r l d hpc hfull
    have := ((hd.target r l s d .third hpc).2 ho).2
    have := (Subscriber.offer_full hfull).2
    omega

/-- A viewer with a queue of one falls behind by two packets. -/
def overrun : List (HubAct Nat) :=
  contested ++ [.publisher 0 .next, .publisher 0 .deliver, .publisher 0 .next,
    .publisher 0 (.read true 8), .publisher 0 (.snapshot [0]), .publisher 0 .next,
    .publisher 0 .deliver, .publisher 0 .deliver, .publisher 0 .deliver]

theorem deliveredTo_overrun : ∃ h, (hub (fun _ => true) "twitch:a" 10 1).run
    (hub (fun _ => true) "twitch:a" 10 1).init overrun = some h ∧
    0 ∈ h.ch.subs ∧ (h.heap 0).send.buf = [8] ∧ (h.heap 0).log.lost = [7] ∧
    DeliveredTo (fun _ => true) h 0 :=
  ⟨_, rfl, Finset.mem_insert_self 0 ∅, rfl, rfl, deliveredTo_of_reachable (Int.le_refl 1)
    (.of_run overrun (.init (hub (fun _ => true) "twitch:a" 10 1)) rfl)
    (Finset.mem_insert_self 0 ∅)⟩

end Hub

end StreamMix.Relay
