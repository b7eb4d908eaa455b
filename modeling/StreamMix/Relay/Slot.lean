import StreamMix.Relay.Hub

namespace StreamMix.Relay

variable {Msg : Type u}

/-- What no step of a hub changes. -/
def Channel.limits (ch : Channel) : String × Int × Int := (ch.id, ch.maxSubs, ch.sendBuf)

/-- Between a successful `ClaimPublisher` and the deferred `ReleasePublisher`. -/
def PublisherPc.holds : PublisherPc Msg → Bool
  | .idle | .refused | .returned | .crashed => false
  | _ => true

/-- The call of `Broadcast` in progress past its critical section. -/
def PublisherPc.loop : PublisherPc Msg → Option (Loop Msg)
  | .range l | .deliver l _ _ _ => some l
  | _ => none

def PublisherPc.broadcasting : PublisherPc Msg → Bool
  | .broadcast _ | .range _ | .deliver _ _ _ _ => true
  | _ => false

theorem PublisherPc.holds_of_broadcasting {pc : PublisherPc Msg} (h : pc.broadcasting = true) :
    pc.holds = true := by
  cases pc <;> first | rfl | cases h

/-- What the loop reads from the scratch slice is what was written under the lock. -/
def Loop.Backed (l : Loop Msg) (scratch : List Nat) : Prop :=
  l.len = l.snapshot.length ∧ scratch.take l.len = l.snapshot

namespace Hub

variable {h k : Hub Msg} {sniff : Msg → Bool} {r : Nat}

@[simp] theorem setPublisher_publisher (h : Hub Msg) (r : Nat) (pc : PublisherPc Msg) :
    (h.setPublisher r pc).publisher = Function.update h.publisher r pc := rfl

structure Slot (h : Hub Msg) : Prop where
  claimed : ∀ r, (h.publisher r).holds = true → h.ch.hasPub = true
  unique : ∀ r q, (h.publisher r).holds = true → (h.publisher q).holds = true → r = q
  held : h.ch.hasPub = true → ∃ r, (h.publisher r).holds = true
  backed : ∀ r l, (h.publisher r).loop = some l → l.Backed h.ch.broadcastScratch

/-- The part of a hub that only publishers change. -/
structure SamePublishers (h k : Hub Msg) : Prop where
  publisher : k.publisher = h.publisher
  hasPub : k.ch.hasPub = h.ch.hasPub
  scratch : k.ch.broadcastScratch = h.ch.broadcastScratch
  history : k.history = h.history
  limits : k.ch.limits = h.ch.limits

theorem SamePublishers.slot (e : SamePublishers h k) (hs : Slot h) : Slot k := by
  obtain ⟨hp, hb, hc, -⟩ := e
  refine ⟨?_, ?_, ?_, ?_⟩
  · rw [hp, hb]; exact hs.claimed
  · rw [hp]; exact hs.unique
  · rw [hp, hb]; exact hs.held
  · rw [hp, hc]; exact hs.backed

theorem samePublishers_setCaller (e : SamePublishers h k) (caller : Option Nat)
    (pc : SubscriberPc Msg) : SamePublishers h (k.setCaller caller pc) := by
  cases caller with
  | none => exact e
  | some r => exact ⟨e.publisher, e.hasPub, e.scratch, e.history, e.limits⟩

theorem samePublishers_callUnsub (h : Hub Msg) (s : Nat) (caller : Option Nat) :
    SamePublishers h (h.callUnsub s caller) := by
  simp only [callUnsub]
  split
  · exact ⟨rfl, rfl, rfl, rfl, rfl⟩
  · refine samePublishers_setCaller ?_ caller _
    exact ⟨rfl, rfl, rfl, rfl, rfl⟩

theorem samePublishers_stepUnlock (he : h.stepUnlock = some k) : SamePublishers h k := by
  simp only [stepUnlock] at he
  split at he
  · cases he
    exact ⟨rfl, rfl, rfl, rfl, rfl⟩
  · split at he <;> cases he
    · refine samePublishers_setCaller ?_ _ _
      exact ⟨rfl, rfl, rfl, rfl, rfl⟩
    · exact ⟨rfl, rfl, rfl, rfl, rfl⟩
  · cases he
    refine samePublishers_setCaller ?_ _ _
    exact ⟨rfl, rfl, rfl, rfl, rfl⟩
  · cases he

theorem samePublishers_stepSubscriber {a : SubscriberAct} (he : h.stepSubscriber r a = some k) :
    SamePublishers h k := by
  simp only [stepSubscriber] at he
  split at he
  · split at he <;> cases he
    simp only [subscribe]
    split
    · exact ⟨rfl, rfl, rfl, rfl, rfl⟩
    · split <;> exact ⟨rfl, rfl, rfl, rfl, rfl⟩
  · cases he; exact ⟨rfl, rfl, rfl, rfl, rfl⟩
  · cases he; exact ⟨rfl, rfl, rfl, rfl, rfl⟩
  · split at he
    · simp only [receive] at he
      split at he <;> cases he <;> exact ⟨rfl, rfl, rfl, rfl, rfl⟩
    · cases he
  · split at he
    · obtain ⟨c, -, rfl⟩ := Option.map_eq_some_iff.mp he
      exact ⟨rfl, rfl, rfl, rfl, rfl⟩
    · cases he
  · split at he <;> cases he
    exact ⟨rfl, rfl, rfl, rfl, rfl⟩
  · split at he <;> cases he
    exact ⟨rfl, rfl, rfl, rfl, rfl⟩
  · split at he <;> cases he <;> exact ⟨rfl, rfl, rfl, rfl, rfl⟩
  · split at he <;> cases he
    exact samePublishers_callUnsub h _ _
  · cases he

theorem Slot.move (hs : Slot h) {pc : PublisherPc Msg}
    (hholds : pc.holds = (h.publisher r).holds)
    (hloop : ∀ l, pc.loop = some l → l.Backed h.ch.broadcastScratch) :
    Slot (h.setPublisher r pc) := by
  have hsame : ∀ q, ((h.setPublisher r pc).publisher q).holds = (h.publisher q).holds := by
    intro q
    by_cases hq : q = r
    · subst hq
      rw [setPublisher_publisher, Function.update_self, hholds]
    · rw [setPublisher_publisher, Function.update_of_ne hq]
  refine ⟨?_, ?_, ?_, ?_⟩
  · intro q hq
    exact hs.claimed q (hsame q ▸ hq)
  · intro q p hq hp
    exact hs.unique q p (hsame q ▸ hq) (hsame p ▸ hp)
  · intro hc
    obtain ⟨q, hq⟩ := hs.held hc
    exact ⟨q, (hsame q).trans hq⟩
  · intro q l hl
    by_cases hq : q = r
    · subst hq
      rw [setPublisher_publisher, Function.update_self] at hl
      exact hloop l hl
    · rw [setPublisher_publisher, Function.update_of_ne hq] at hl
      exact hs.backed q l hl

theorem slot_fresh (ch : Channel) (hc : ch.hasPub = false) : Slot (fresh ch : Hub Msg) := by
  refine ⟨?_, ?_, ?_, ?_⟩
  · intro r hr
    cases hr
  · intro r q hr
    cases hr
  · intro hp
    rw [show (fresh ch : Hub Msg).ch.hasPub = ch.hasPub from rfl, hc] at hp
    cases hp
  · intro r l hl
    cases hl

theorem PublisherPc.holds_of_loop {pc : PublisherPc Msg} (h : pc.loop = some l) :
    pc.holds = true := by
  cases pc <;> first | rfl | cases h

theorem Slot.claim (hs : Slot h) (hidle : h.publisher r = .idle) : Slot (h.claimPublisher r) := by
  simp only [claimPublisher]
  split
  · refine hs.move ?_ ?_
    · rw [hidle]
      rfl
    · intro l hl
      cases hl
  · next hfree =>
    have hnone : ∀ q, (h.publisher q).holds = true → False :=
      fun q hq => hfree (hs.claimed q hq)
    have honly : ∀ q, (Function.update h.publisher r .accept q).holds = true → q = r := by
      intro q hq
      by_contra hne
      rw [Function.update_of_ne hne] at hq
      exact hnone q hq
    refine ⟨fun _ _ => rfl, ?_, ?_, ?_⟩
    · intro q p hq hp
      exact (honly q hq).trans (honly p hp).symm
    · intro _
      refine ⟨r, ?_⟩
      rw [setPublisher_publisher, Function.update_self]
      rfl
    · intro q l hl
      obtain rfl := honly q (PublisherPc.holds_of_loop hl)
      rw [setPublisher_publisher, Function.update_self] at hl
      cases hl

theorem Slot.release (hs : Slot h) (hr : h.publisher r = .release) :
    Slot (h.releasePublisher r) := by
  have hnone : ∀ q, (Function.update h.publisher r .returned q).holds = true → False := by
    intro q hq
    by_cases hne : q = r
    · subst hne
      rw [Function.update_self] at hq
      cases hq
    · rw [Function.update_of_ne hne] at hq
      exact hne (hs.unique q r hq (by rw [hr]; rfl))
  refine ⟨?_, ?_, ?_, ?_⟩
  · intro q hq
    exact absurd hq (fun h => hnone q h)
  · intro q p hq
    exact absurd hq (fun h => hnone q h)
  · intro hp
    cases hp
  · intro q l hl
    exact absurd (PublisherPc.holds_of_loop hl) (fun h => hnone q h)

theorem Slot.snapshot (hs : Slot h) (hr : h.publisher r = .broadcast msg) (order : List Nat) :
    Slot (h.snapshot r msg order) := by
  have hholds : (h.publisher r).holds = true := by
    rw [hr]
    rfl
  -- the claim excludes a second loop over the cells that are overwritten here
  have hrest : Slot { h with
      ch.broadcastScratch := order ++ h.ch.broadcastScratch.drop order.length
      history := h.history ++ [msg] } := by
    refine ⟨hs.claimed, hs.unique, hs.held, ?_⟩
    intro q l hl
    obtain rfl := hs.unique q r (PublisherPc.holds_of_loop hl) hholds
    rw [hr] at hl
    cases hl
  refine hrest.move (hholds.symm) ?_
  intro l hl
  cases hl
  exact ⟨rfl, List.take_left⟩

theorem Slot.deliver (hs : Slot h) (hr : h.publisher r = .deliver l s depth stage) :
    Slot (h.deliver r l s depth stage) := by
  have hloop : l.Backed h.ch.broadcastScratch := hs.backed r l (by rw [hr]; rfl)
  have hheap : ∀ x pc, pc.holds = true → (∀ m, pc.loop = some m → m = l ∨ m = l.succ) →
      Slot ((h.setHeap s x).setPublisher r pc) := by
    intro x pc hpc hm
    have hx : Slot (h.setHeap s x) := SamePublishers.slot (h := h) ⟨rfl, rfl, rfl, rfl, rfl⟩ hs
    refine hx.move ?_ ?_
    · rw [hpc, show (h.setHeap s x).publisher r = h.publisher r from rfl, hr]
      rfl
    · intro m he
      obtain rfl | rfl := hm m he
      · exact hloop
      · exact hloop
  have hstay : ∀ pc : PublisherPc Msg, pc.holds = true →
      (∀ m, pc.loop = some m → m = l ∨ m = l.succ) → Slot (h.setPublisher r pc) := by
    intro pc hpc hm
    have := hheap (h.heap s) pc hpc hm
    rwa [setHeap, Function.update_eq_self] at this
  have hrange : ∀ m, (PublisherPc.range l.succ).loop = some m → m = l ∨ m = l.succ := by
    rintro m ⟨⟩
    exact .inr rfl
  have hdeliver : ∀ st m, (PublisherPc.deliver l s depth st).loop = some m →
      m = l ∨ m = l.succ := by
    rintro st m ⟨⟩
    exact .inl rfl
  cases stage with
  | first =>
    simp only [Hub.deliver]
    split
    · exact hstay _ rfl hrange
    · exact hheap _ _ rfl hrange
    · exact hstay _ rfl (hdeliver _)
  | second => exact hheap _ _ rfl (hdeliver _)
  | third =>
    simp only [Hub.deliver]
    split
    · exact hstay _ rfl hrange
    · exact hheap _ _ rfl hrange
    · exact hheap _ _ rfl hrange

theorem Slot.stepPublisher (hs : Slot h) {a : PublisherAct Msg}
    (he : h.stepPublisher sniff r a = some k) : Slot k := by
  simp only [Hub.stepPublisher] at he
  split at he
  · next hpc =>
    split at he <;> cases he
    exact hs.claim hpc
  · next ok hpc =>
    cases he
    cases ok <;> exact hs.move (by rw [hpc]; rfl) nofun
  · next ok hpc =>
    cases he
    cases ok <;> exact hs.move (by rw [hpc]; rfl) nofun
  · next hpc =>
    cases he
    exact hs.move (by rw [hpc]; rfl) nofun
  · next hpc =>
    cases he
    split <;> exact hs.move (by rw [hpc]; rfl) nofun
  · next hpc =>
    split at he <;> cases he
    exact hs.snapshot hpc _
  · next l hpc =>
    cases he
    have hl : l.Backed h.ch.broadcastScratch := hs.backed r l (by rw [hpc]; rfl)
    simp only [next?]
    split_ifs
    · refine hs.move (by rw [hpc]; rfl) ?_
      rintro m ⟨⟩
      exact hl
    · refine hs.move (by rw [hpc]; rfl) ?_
      rintro m ⟨⟩
      exact hl
    · exact hs.move (by rw [hpc]; rfl) nofun
  · next hpc =>
    cases he
    exact hs.deliver hpc
  · next hpc =>
    split at he <;> cases he
    exact hs.release hpc
  · cases he

theorem Slot.step (hs : Slot h) {a : HubAct Msg} (he : h.step sniff a = some k) : Slot k := by
  cases a with
  | publisher r a => exact hs.stepPublisher he
  | subscriber r a => exact (samePublishers_stepSubscriber he).slot hs
  | unsub s =>
    simp only [Hub.step] at he
    split at he <;> cases he
    exact (samePublishers_callUnsub h s none).slot hs
  | unlock => exact (samePublishers_stepUnlock he).slot hs

theorem reachable_step {a : HubAct Msg} (hr : (hub sniff name maxSubs sendBuf).Reachable h)
    (he : h.step sniff a = some k) : (hub sniff name maxSubs sendBuf).Reachable k :=
  Machine.Reaches.step hr trivial (show (hub sniff name maxSubs sendBuf).step h a = some k from he)

theorem slot_of_reachable (hr : (hub sniff name maxSubs sendBuf).Reachable h) : Slot h :=
  hr.invariant (slot_fresh _ rfl) (fun _ _ _ hs he => hs.step he)

/-- Only the holder's own deferred `ReleasePublisher` clears the flag. -/
theorem release_of_cleared {a : HubAct Msg} (he : h.step sniff a = some k)
    (hold : h.ch.hasPub = true) (hnew : k.ch.hasPub = false) :
    ∃ r, a = .publisher r .release ∧ h.publisher r = .release := by
  have hkeep : k.ch.hasPub = h.ch.hasPub → False := by
    intro hsame
    rw [hsame, hold] at hnew
    cases hnew
  cases a with
  | subscriber r a => exact (hkeep (samePublishers_stepSubscriber he).hasPub).elim
  | unsub s =>
    simp only [Hub.step] at he
    split at he <;> cases he
    exact (hkeep (samePublishers_callUnsub h s none).hasPub).elim
  | unlock => exact (hkeep (samePublishers_stepUnlock he).hasPub).elim
  | publisher r a =>
    simp only [Hub.step, Hub.stepPublisher] at he
    split at he
    · split at he <;> cases he
      rw [claimPublisher, if_pos hold] at hkeep
      exact (hkeep rfl).elim
    · cases he; exact (hkeep rfl).elim
    · cases he; exact (hkeep rfl).elim
    · cases he; exact (hkeep rfl).elim
    · cases he; exact (hkeep rfl).elim
    · split at he <;> cases he
      exact (hkeep rfl).elim
    · cases he; exact (hkeep rfl).elim
    · cases he
      simp only [Hub.deliver] at hkeep
      split at hkeep
      · split at hkeep <;> exact (hkeep rfl).elim
      · exact (hkeep rfl).elim
      · split at hkeep <;> exact (hkeep rfl).elim
    · next hpc => exact ⟨r, rfl, hpc⟩
    · cases he

/-- The publisher slot of a hub, as every handler may rely on it. -/
structure PublisherSlot (sniff : Msg → Bool) (h : Hub Msg) : Prop where
  held : h.ch.hasPub = true ↔ ∃! r, (h.publisher r).holds = true
  single : ∀ r q, (h.publisher r).holds = true → (h.publisher q).holds = true → r = q
  refused : ∀ r k, h.ch.hasPub = true → h.step sniff (.publisher r .claim) = some k →
    k = h.setPublisher r .refused
  silent : ∀ r a, h.publisher r = .refused → h.step sniff (.publisher r a) = none
  released : ∀ a k, h.step sniff a = some k → h.ch.hasPub = true → k.ch.hasPub = false →
    ∃ r, a = .publisher r .release ∧ (h.publisher r).holds = true
  exclusive : ∀ r q, (h.publisher r).broadcasting = true → (h.publisher q).broadcasting = true →
    r = q
  snapshot : ∀ r msg order k, h.publisher r = .broadcast msg →
    h.step sniff (.publisher r (.snapshot order)) = some k → h.ch.mu = .unlocked ∧
      order.Nodup ∧ order.toFinset = h.ch.subs ∧
      k.publisher r = .range ⟨msg, order.length, 0, order⟩
  iterated : ∀ r l, (h.publisher r).loop = some l →
    l.len = l.snapshot.length ∧ h.ch.broadcastScratch.take l.len = l.snapshot

theorem publisherSlot_of_reachable (hr : (hub sniff name maxSubs sendBuf).Reachable h) :
    PublisherSlot sniff h := by
  have hs := slot_of_reachable hr
  refine ⟨⟨?_, ?_⟩, hs.unique, ?_, ?_, ?_, ?_, ?_, hs.backed⟩
  · intro hp
    obtain ⟨r, hh⟩ := hs.held hp
    exact ⟨r, hh, fun q hq => hs.unique q r hq hh⟩
  · rintro ⟨r, hh, -⟩
    exact hs.claimed r hh
  · intro r k hp he
    simp only [Hub.step, Hub.stepPublisher] at he
    cases hpc : h.publisher r <;> simp only [hpc, reduceCtorEq] at he
    split at he <;> cases he
    rw [claimPublisher, if_pos hp]
  · intro r a hpc
    simp only [Hub.step, Hub.stepPublisher, hpc]
  · intro a k he hp hc
    obtain ⟨r, rfl, hpc⟩ := release_of_cleared he hp hc
    exact ⟨r, rfl, by rw [hpc]; rfl⟩
  · intro r q hb hc
    exact hs.unique r q (PublisherPc.holds_of_broadcasting hb) (PublisherPc.holds_of_broadcasting hc)
  · intro r msg order k hpc he
    simp only [Hub.step, Hub.stepPublisher, hpc] at he
    split at he <;> cases he
    next hg =>
    refine ⟨hg.1, hg.2.1, hg.2.2, ?_⟩
    rw [Hub.snapshot, setPublisher_publisher, Function.update_self]

/-- Two publishers and a viewer: the second claim is refused, the first goes on. -/
def contested : List (HubAct Nat) :=
  [.subscriber 2 .subscribe, .publisher 0 .claim, .publisher 1 .claim, .publisher 0 (.accept true),
    .publisher 0 (.subprotocol true), .publisher 0 (.read true 7), .publisher 0 (.snapshot [0])]

theorem publisherSlot_contested : ∃ h, (hub (fun _ => true) "twitch:a" 10 4).run
    (hub (fun _ => true) "twitch:a" 10 4).init contested = some h ∧
    h.ch.hasPub = true ∧ PublisherSlot (fun _ => true) h :=
  ⟨_, rfl, rfl, publisherSlot_of_reachable (.of_run contested
    (.init (hub (fun _ => true) "twitch:a" 10 4)) rfl)⟩

end Hub

end StreamMix.Relay
