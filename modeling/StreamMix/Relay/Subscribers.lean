import StreamMix.Relay.Slot

namespace StreamMix.Relay

variable {Msg : Type u}

/-- The part of a subscriber that only `unsub` changes. -/
def Subscriber.gate (x : Subscriber Msg) : Bool × Bool × Nat × Nat :=
  (x.closed, x.send.closed, x.send.cap, x.log.closes)

/-- The part of a subscriber that `Broadcast` leaves alone. -/
def Subscriber.status (x : Subscriber Msg) : (Bool × Bool × Nat × Nat) × Nat × List Msg :=
  (x.gate, x.log.joined, x.log.written)

theorem Subscriber.offer_status {x y : Subscriber Msg} (h : x.offer msg = .taken y) :
    y.status = x.status := by
  simp only [Subscriber.offer] at h
  split at h
  · cases h
  · next c hc =>
    cases h
    obtain ⟨hx, -, -, hcap, hd, -⟩ := Go.Chan.trySend_handed hc
    simp only [Subscriber.status, Subscriber.gate, hx, hcap, hd]
  · next c hc =>
    cases h
    obtain ⟨hx, -, -, hcap, hd, -⟩ := Go.Chan.trySend_queued hc
    simp only [Subscriber.status, Subscriber.gate, hx, hcap, hd]
  · cases h

theorem Subscriber.discard_status (x : Subscriber Msg) : x.discard.status = x.status := by
  simp only [Subscriber.discard]
  split
  · next v c hc =>
    obtain ⟨-, hcap, hd, -⟩ := Go.Chan.tryRecv_item hc
    simp only [Subscriber.status, Subscriber.gate, hcap, hd]
  · rfl
  · rfl

/-- The subscriber that a handler of `handleSubscribe` works for. -/
def SubscriberPc.sub : SubscriberPc Msg → Option Nat
  | .accept s | .subprotocol s | .select s | .write s _ | .unsub s => some s
  | _ => none

/-- Whether `unsub` of `s` has deleted it from the map and not yet set its flag. -/
def Mutex.unflagged (s : Nat) : Mutex → Bool
  | .unsub t .deleted _ => t == s
  | _ => false

/-- Whether `unsub` of `s` has deleted it from the map and not yet closed its channel. -/
def Mutex.unclosed (s : Nat) : Mutex → Bool
  | .unsub t .deleted _ | .unsub t .flagged _ => t == s
  | _ => false

namespace Hub

variable {h k : Hub Msg} {sniff : Msg → Bool} {r s : Nat}

@[simp] theorem setSubscriber_subscriber (h : Hub Msg) (r : Nat) (pc : SubscriberPc Msg) :
    (h.setSubscriber r pc).subscriber = Function.update h.subscriber r pc := rfl

structure SameSubscribers (h k : Hub Msg) : Prop where
  subs : k.ch.subs = h.ch.subs
  mu : k.ch.mu = h.ch.mu
  limits : k.ch.limits = h.ch.limits
  subscriber : k.subscriber = h.subscriber
  next : k.next = h.next
  unsubbed : k.unsubbed = h.unsubbed
  status : ∀ s, (k.heap s).status = (h.heap s).status

theorem SameSubscribers.of_heap (hx : x.status = (h.heap s).status) :
    SameSubscribers h ((h.setHeap s x).setPublisher r pc) := by
  refine ⟨rfl, rfl, rfl, rfl, rfl, rfl, ?_⟩
  intro t
  simp only [setPublisher, setHeap, Function.update_apply]
  split
  · next ht => rw [ht, hx]
  · rfl

theorem SameSubscribers.of_pc : SameSubscribers h (h.setPublisher r pc) :=
  ⟨rfl, rfl, rfl, rfl, rfl, rfl, fun _ => rfl⟩

theorem sameSubscribers_deliver (h : Hub Msg) (r : Nat) (l : Loop Msg) (s depth : Nat)
    (stage : Stage) : SameSubscribers h (h.deliver r l s depth stage) := by
  cases stage with
  | first =>
    simp only [Hub.deliver]
    split
    · exact .of_pc
    · next hx => exact .of_heap (Subscriber.offer_status hx)
    · exact .of_pc
  | second => exact .of_heap (Subscriber.discard_status _)
  | third =>
    simp only [Hub.deliver]
    split
    · exact .of_pc
    · next hx => exact .of_heap (Subscriber.offer_status hx)
    · exact .of_heap rfl

theorem sameSubscribers_stepPublisher {a : PublisherAct Msg}
    (he : h.stepPublisher sniff r a = some k) : SameSubscribers h k := by
  simp only [Hub.stepPublisher] at he
  split at he
  · split at he <;> cases he
    simp only [claimPublisher]
    split
    · exact .of_pc
    · exact ⟨rfl, rfl, rfl, rfl, rfl, rfl, fun _ => rfl⟩
  · cases he; exact .of_pc
  · cases he; exact .of_pc
  · cases he; exact .of_pc
  · cases he; exact .of_pc
  · split at he <;> cases he
    exact ⟨rfl, rfl, rfl, rfl, rfl, rfl, fun _ => rfl⟩
  · cases he; exact .of_pc
  · cases he; exact sameSubscribers_deliver ..
  · split at he <;> cases he
    exact ⟨rfl, rfl, rfl, rfl, rfl, rfl, fun _ => rfl⟩
  · cases he

/-- The subscribers of a hub whose buffer size is not negative. -/
structure Members (h : Hub Msg) : Prop where
  buffer : 0 ≤ h.ch.sendBuf
  mem : ∀ s, s ∈ h.ch.subs ↔ s < h.next ∧ s ∉ h.unsubbed
  card : (h.ch.subs.card : Int) ≤ max h.ch.maxSubs 0
  allocated : ∀ s, s ∈ h.unsubbed → s < h.next
  flag : ∀ s, (h.heap s).closed = (decide (s ∈ h.unsubbed) && !h.ch.mu.unflagged s)
  chan : ∀ s, (h.heap s).send.closed = (decide (s ∈ h.unsubbed) && !h.ch.mu.unclosed s)
  closes : ∀ s, (h.heap s).log.closes = if (h.heap s).send.closed then 1 else 0
  cap : ∀ s, s < h.next → (h.heap s).send.cap = h.ch.sendBuf.toNat
  mutex : h.ch.mu ≠ .abandoned
  leaving : ∀ s p c, h.ch.mu = .unsub s p c → s ∈ h.unsubbed
  caller : ∀ s p r, h.ch.mu = .unsub s p (some r) → h.subscriber r = .unsub s
  handler : ∀ r s, (h.subscriber r).sub = some s → s < h.next
  owner : ∀ r q s, (h.subscriber r).sub = some s → (h.subscriber q).sub = some s → r = q
  alive : ∀ r, (h.subscriber r) ≠ .crashed

theorem members_fresh (name : String) (maxSubs : Int) {sendBuf : Int} (hb : 0 ≤ sendBuf) :
    Members (fresh (newChannel name maxSubs sendBuf) : Hub Msg) where
  buffer := hb
  mem s := by simp [fresh, newChannel]
  card := by simp [fresh, newChannel]
  allocated s hs := absurd hs (Finset.notMem_empty s)
  flag s := by simp [fresh, newSubscriber]
  chan s := by simp [fresh, newSubscriber]
  closes s := rfl
  cap s hs := absurd hs (Nat.not_lt_zero s)
  mutex := nofun
  leaving := nofun
  caller := nofun
  handler := nofun
  owner := nofun
  alive := nofun

/-- The invariant depends on the heap through the gates only. -/
theorem Members.congr (hm : Members h) (hch : k.ch.subs = h.ch.subs ∧ k.ch.mu = h.ch.mu ∧
      k.ch.limits = h.ch.limits)
    (hsub : k.subscriber = h.subscriber) (hnext : k.next = h.next)
    (hun : k.unsubbed = h.unsubbed) (hgate : ∀ s, (k.heap s).gate = (h.heap s).gate) :
    Members k := by
  obtain ⟨e1, e2, e⟩ := hch
  have e3 : k.ch.maxSubs = h.ch.maxSubs := congrArg (fun p => p.2.1) e
  have e4 : k.ch.sendBuf = h.ch.sendBuf := congrArg (fun p => p.2.2) e
  simp only [Subscriber.gate, Prod.mk.injEq] at hgate
  constructor
  · rw [e4]; exact hm.buffer
  · rw [e1, hnext, hun]; exact hm.mem
  · rw [e1, e3]; exact hm.card
  · rw [hnext, hun]; exact hm.allocated
  · intro s; rw [(hgate s).1, e2, hun]; exact hm.flag s
  · intro s; rw [(hgate s).2.1, e2, hun]; exact hm.chan s
  · intro s; rw [(hgate s).2.2.2, (hgate s).2.1]; exact hm.closes s
  · intro s; rw [(hgate s).2.2.1, e4, hnext]; exact hm.cap s
  · rw [e2]; exact hm.mutex
  · rw [e2, hun]; exact hm.leaving
  · rw [e2, hsub]; exact hm.caller
  · rw [hsub, hnext]; exact hm.handler
  · rw [hsub]; exact hm.owner
  · rw [hsub]; exact hm.alive

theorem SameSubscribers.members (e : SameSubscribers h k) (hm : Members h) : Members k :=
  hm.congr ⟨e.subs, e.mu, e.limits⟩ e.subscriber e.next e.unsubbed
    (fun s => congrArg Prod.fst (e.status s))

/-- A handler that is not inside `unsub` moves on with its subscriber, or drops it. -/
theorem Members.setSubscriber (hm : Members h) {pc : SubscriberPc Msg}
    (hfree : ∀ s p, h.ch.mu ≠ .unsub s p (some r))
    (hsub : ∀ s, pc.sub = some s → (h.subscriber r).sub = some s) (hpc : pc ≠ .crashed) :
    Members (h.setSubscriber r pc) := by
  have hpast : ∀ q s, (Function.update h.subscriber r pc q).sub = some s →
      (h.subscriber q).sub = some s := by
    intro q s hq
    by_cases hqr : q = r
    · subst hqr
      rw [Function.update_self] at hq
      exact hsub s hq
    · rwa [Function.update_of_ne hqr] at hq
  refine ⟨hm.buffer, hm.mem, hm.card, hm.allocated, hm.flag, hm.chan, hm.closes,
    hm.cap, hm.mutex, hm.leaving, ?_, ?_, ?_, ?_⟩
  · intro s p q hmu
    have hqr : q ≠ r := by
      rintro rfl
      exact hfree s p hmu
    simp only [Hub.setSubscriber]
    rw [Function.update_of_ne hqr]
    exact hm.caller s p q hmu
  · intro q s hq
    exact hm.handler q s (hpast q s hq)
  · intro q t s hq ht
    exact hm.owner q t s (hpast q s hq) (hpast t s ht)
  · intro q
    simp only [Hub.setSubscriber]
    by_cases hqr : q = r
    · subst hqr
      rwa [Function.update_self]
    · rw [Function.update_of_ne hqr]
      exact hm.alive q

theorem Members.setHeap (hm : Members h) (hx : x.gate = (h.heap s).gate) :
    Members (h.setHeap s x) := by
  refine hm.congr ⟨rfl, rfl, rfl⟩ rfl rfl rfl ?_
  intro t
  simp only [Hub.setHeap, Function.update_apply]
  split
  · next ht => rw [ht, hx]
  · rfl

theorem Members.not_caller (hm : Members h) (hr : ∀ s, h.subscriber r ≠ .unsub s) (s : Nat)
    (p : Phase) : h.ch.mu ≠ .unsub s p (some r) :=
  fun hmu => hr s (hm.caller s p r hmu)

theorem make_eq (hm : Members h) : Go.Chan.make (α := Msg) h.ch.sendBuf =
    some ⟨h.ch.sendBuf.toNat, [], false, .running, Nat.zero_le _, nofun⟩ :=
  if_neg (Int.not_lt.mpr hm.buffer)

theorem Members.subscribe (hm : Members h) (hidle : h.subscriber r = .idle)
    (hmu : h.ch.mu = .unlocked) : Members (h.subscribe r) := by
  have hfree : ∀ s p, h.ch.mu ≠ .unsub s p (some r) := by
    intro s p
    rw [hmu]
    simp
  simp only [Hub.subscribe]
  split
  · exact hm.setSubscriber hfree (by rintro s ⟨⟩) (by simp)
  · next hlim =>
    rw [make_eq hm]
    have hnew : h.next ∉ h.ch.subs := fun hs => Nat.lt_irrefl _ ((hm.mem _).mp hs).1
    have hun : h.next ∉ h.unsubbed := fun hs => Nat.lt_irrefl _ (hm.allocated _ hs)
    have hsub : ∀ q t, (Function.update h.subscriber r (.accept h.next) q).sub = some t →
        (q = r ∧ t = h.next) ∨ (q ≠ r ∧ (h.subscriber q).sub = some t ∧ t < h.next) := by
      intro q t hq
      by_cases hqr : q = r
      · subst hqr
        rw [Function.update_self] at hq
        cases hq
        exact .inl ⟨rfl, rfl⟩
      · rw [Function.update_of_ne hqr] at hq
        exact .inr ⟨hqr, hq, hm.handler q t hq⟩
    constructor
    · exact hm.buffer
    · intro t
      simp only [Hub.setSubscriber, Finset.mem_insert, hm.mem]
      constructor
      · rintro (rfl | ⟨ht, hu⟩)
        · exact ⟨Nat.lt_succ_self _, hun⟩
        · exact ⟨Nat.lt_succ_of_lt ht, hu⟩
      · rintro ⟨ht, hu⟩
        obtain ht | ht := Nat.lt_succ_iff_lt_or_eq.mp ht
        · exact .inr ⟨ht, hu⟩
        · exact .inl ht
    · simp only [Hub.setSubscriber, Finset.card_insert_of_notMem hnew]
      omega
    · intro t ht
      exact Nat.lt_succ_of_lt (hm.allocated t ht)
    · intro t
      simp only [Hub.setSubscriber, Function.update_apply]
      split
      · next ht => simp [ht, hun, newSubscriber]
      · exact hm.flag t
    · intro t
      simp only [Hub.setSubscriber, Function.update_apply]
      split
      · next ht => simp [ht, hun, newSubscriber]
      · exact hm.chan t
    · intro t
      simp only [Hub.setSubscriber, Function.update_apply]
      split
      · rfl
      · exact hm.closes t
    · intro t ht
      simp only [Hub.setSubscriber, Function.update_apply] at ht ⊢
      split
      · rfl
      · exact hm.cap t (by omega)
    · exact hm.mutex
    · exact hm.leaving
    · intro t p q hq
      rw [show _ = h.ch.mu from rfl, hmu] at hq
      cases hq
    · intro q t hq
      obtain ⟨-, rfl⟩ | ⟨-, -, ht⟩ := hsub q t hq
      · exact Nat.lt_succ_self _
      · exact Nat.lt_succ_of_lt ht
    · intro q p t hq hp
      obtain ⟨rfl, rfl⟩ | ⟨-, hq, hqt⟩ := hsub q t hq
      · obtain ⟨rfl, -⟩ | ⟨-, -, hlt⟩ := hsub p _ hp
        · rfl
        · exact absurd hlt (Nat.lt_irrefl _)
      · obtain ⟨-, rfl⟩ | ⟨-, hp, -⟩ := hsub p t hp
        · exact absurd hqt (Nat.lt_irrefl _)
        · exact hm.owner q p t hq hp
    · intro q
      simp only [Hub.setSubscriber, Function.update_apply]
      split
      · simp
      · exact hm.alive q

theorem Members.insert_unsubbed (hm : Members h) (hs : s ∉ h.ch.subs) (ht : s < h.next) :
    insert s h.unsubbed = h.unsubbed := by
  refine Finset.insert_eq_of_mem ?_
  by_contra hu
  exact hs ((hm.mem s).mpr ⟨ht, hu⟩)

theorem Members.setCaller (hm : Members h) {caller : Option Nat}
    (hfree : ∀ r s p, caller = some r → h.ch.mu ≠ .unsub s p (some r)) :
    Members (h.setCaller caller .returned) := by
  cases caller with
  | none => exact hm
  | some r => exact hm.setSubscriber (fun s p => hfree r s p rfl) nofun nofun

theorem Members.callUnsub (hm : Members h) (hmu : h.ch.mu = .unlocked) (hs : s < h.next)
    {caller : Option Nat} (hcaller : ∀ r, caller = some r → h.subscriber r = .unsub s) :
    Members (h.callUnsub s caller) := by
  simp only [Hub.callUnsub]
  split
  · next hmem =>
    have hun : s ∉ h.unsubbed := ((hm.mem s).mp hmem).2
    refine ⟨hm.buffer, ?_, ?_, ?_, ?_, ?_, hm.closes, hm.cap, by simp, ?_, ?_,
      hm.handler, hm.owner, hm.alive⟩
    · intro t
      simp only [Finset.mem_erase, Finset.mem_insert, hm.mem]
      tauto
    · refine le_trans ?_ hm.card
      exact_mod_cast Finset.card_erase_le
    · intro t ht
      obtain rfl | ht := Finset.mem_insert.mp ht
      · exact hs
      · exact hm.allocated t ht
    · intro t
      rw [hm.flag t, hmu]
      by_cases hts : t = s
      · subst hts
        simp [hun, Mutex.unflagged]
      · simp [hts, Mutex.unflagged, Ne.symm hts]
    · intro t
      rw [hm.chan t, hmu]
      by_cases hts : t = s
      · subst hts
        simp [hun, Mutex.unclosed]
      · simp [hts, Mutex.unclosed, Ne.symm hts]
    · rintro t p c ⟨⟩
      exact Finset.mem_insert_self ..
    · rintro t p r ⟨⟩
      exact hcaller r rfl
  · next hmem =>
    rw [hm.insert_unsubbed hmem hs]
    refine hm.setCaller ?_
    intro r t p _
    rw [hmu]
    simp

theorem unflagged_of_ne {t : Nat} (h : t ≠ s) (p : Phase) (c : Option Nat) :
    Mutex.unflagged t (.unsub s p c) = false := by
  cases p with
  | deleted => exact beq_false_of_ne (Ne.symm h)
  | _ => rfl

theorem unclosed_of_ne {t : Nat} (h : t ≠ s) (p : Phase) (c : Option Nat) :
    Mutex.unclosed t (.unsub s p c) = false := by
  cases p with
  | closed => rfl
  | _ => exact beq_false_of_ne (Ne.symm h)

/-- `unsub` goes on to its phase `q` with what this makes of the subscriber that leaves. -/
theorem Members.advance (hm : Members h) {caller : Option Nat} (hmu : h.ch.mu = .unsub s p caller)
    {q : Phase} {x : Subscriber Msg} (hflag : x.closed = !Mutex.unflagged s (.unsub s q caller))
    (hchan : x.send.closed = !Mutex.unclosed s (.unsub s q caller))
    (hcloses : x.log.closes = if x.send.closed then 1 else 0)
    (hcap : x.send.cap = (h.heap s).send.cap) :
    Members ({ h with ch.mu := .unsub s q caller }.setHeap s x) := by
  have hun : s ∈ h.unsubbed := hm.leaving s _ _ hmu
  have hother : ∀ t, t ≠ s →
      ({ h with ch.mu := .unsub s q caller }.setHeap s x).heap t = h.heap t :=
    fun t ht => Function.update_of_ne ht _ _
  have hself : ({ h with ch.mu := .unsub s q caller }.setHeap s x).heap s = x :=
    Function.update_self ..
  refine ⟨hm.buffer, hm.mem, hm.card, hm.allocated, ?_, ?_, ?_, ?_, by rintro ⟨⟩, ?_, ?_,
    hm.handler, hm.owner, hm.alive⟩
  · intro t
    obtain rfl | ht := eq_or_ne t s
    · rw [hself, hflag]
      simp [Hub.setHeap, hun]
    · rw [hother t ht, hm.flag t, hmu, unflagged_of_ne ht]
      exact congrArg (decide (t ∈ h.unsubbed) && !·) (unflagged_of_ne ht q caller).symm
  · intro t
    obtain rfl | ht := eq_or_ne t s
    · rw [hself, hchan]
      simp [Hub.setHeap, hun]
    · rw [hother t ht, hm.chan t, hmu, unclosed_of_ne ht]
      exact congrArg (decide (t ∈ h.unsubbed) && !·) (unclosed_of_ne ht q caller).symm
  · intro t
    obtain rfl | ht := eq_or_ne t s
    · rw [hself, hcloses]
    · rw [hother t ht, hm.closes t]
  · intro t hlt
    obtain rfl | ht := eq_or_ne t s
    · rw [hself, hcap]
      exact hm.cap t hlt
    · rw [hother t ht]
      exact hm.cap t hlt
  · rintro t p c ⟨⟩
    exact hun
  · rintro t p r ⟨⟩
    exact hm.caller s _ r hmu

/-- The end of `unsub`. -/
theorem Members.unlock (hm : Members h) {caller : Option Nat}
    (hmu : h.ch.mu = .unsub s .closed caller) : Members { h with ch.mu := .unlocked } := by
  refine ⟨hm.buffer, hm.mem, hm.card, hm.allocated, ?_, ?_, hm.closes, hm.cap,
    by simp, by simp, by simp, hm.handler, hm.owner, hm.alive⟩
  · intro t
    rw [hm.flag t, hmu]
    rfl
  · intro t
    rw [hm.chan t, hmu]
    rfl

theorem Members.stepUnlock (hm : Members h) (he : h.stepUnlock = some k) : Members k := by
  simp only [Hub.stepUnlock] at he
  split at he
  · next s caller hmu =>
    cases he
    have hopen : (h.heap s).send.closed = false := by
      rw [hm.chan s, hmu]
      simp [Mutex.unclosed]
    refine hm.advance hmu rfl ?_ (hm.closes s) rfl
    rw [hopen]
    simp [Mutex.unclosed]
  · next s caller hmu =>
    have hflag : (h.heap s).closed = true := by
      rw [hm.flag s, hmu]
      simp [Mutex.unflagged, hm.leaving s _ _ hmu]
    have hopen : (h.heap s).send.closed = false := by
      rw [hm.chan s, hmu]
      simp [Mutex.unclosed]
    split at he
    · next hc =>
      rw [Go.Chan.close_eq_none.mp hc] at hopen
      cases hopen
    · next c hc =>
      cases he
      obtain ⟨-, hcl, -, hcap⟩ := Go.Chan.close_eq_some hc
      exact hm.advance hmu hflag hcl (by simp [hm.closes s, hopen, hcl]) hcap
  · next s caller hmu =>
    cases he
    exact (hm.unlock hmu).setCaller (by simp)
  · cases he

theorem Members.stepSubscriber (hm : Members h) {a : SubscriberAct}
    (he : h.stepSubscriber r a = some k) : Members k := by
  have hfree : ∀ pc, h.subscriber r = pc → (∀ s, pc ≠ .unsub s) →
      ∀ s p, h.ch.mu ≠ .unsub s p (some r) := by
    rintro pc rfl hpc s p
    exact hm.not_caller hpc s p
  have hresume : ∀ s (c : Go.Chan Msg), c.closed = (h.heap s).send.closed →
      c.cap = (h.heap s).send.cap → Members (h.setHeap s { h.heap s with send := c }) := by
    intro s c hcl hcap
    refine hm.setHeap ?_
    simp only [Subscriber.gate, hcl, hcap]
  simp only [Hub.stepSubscriber] at he
  split at he
  · next hpc =>
    split at he <;> cases he
    next hmu => exact hm.subscribe hpc hmu
  · next s ok hpc =>
    cases he
    refine hm.setSubscriber (hfree _ hpc (by simp)) ?_ ?_
    · rw [hpc]
      cases ok <;> exact fun _ hs => hs
    · cases ok <;> simp
  · next s ok hpc =>
    cases he
    refine hm.setSubscriber (hfree _ hpc (by simp)) ?_ ?_
    · rw [hpc]
      cases ok <;> exact fun _ hs => hs
    · cases ok <;> simp
  · next s hpc =>
    split at he
    · simp only [Hub.receive] at he
      split at he
      · next v c hc =>
        cases he
        obtain ⟨-, hcap, hcl, -⟩ := Go.Chan.tryRecv_item hc
        have hx : ((h.heap s).take v c).gate = (h.heap s).gate := by
          simp only [Subscriber.gate, Subscriber.take, hcap, hcl]
        refine (hm.setHeap hx).setSubscriber (hfree _ hpc (by simp)) ?_ (by simp)
        rw [show (h.setHeap s ((h.heap s).take v c)).subscriber r = h.subscriber r from rfl, hpc]
        exact fun _ hs => hs
      · cases he
        refine hm.setSubscriber (hfree _ hpc (by simp)) ?_ (by simp)
        rw [hpc]
        exact fun _ hs => hs
      · cases he
    · cases he
  · next s hpc =>
    split at he
    · obtain ⟨c, hc, rfl⟩ := Option.map_eq_some_iff.mp he
      obtain ⟨-, -, -, hcap, hcl, -⟩ := Go.Chan.park_eq_some hc
      exact hresume s c hcl hcap
    · cases he
  · next s hpc =>
    split at he <;> cases he
    next v _ =>
    refine (hresume s (h.heap s).send.resume rfl rfl).setSubscriber (hfree _ hpc (by simp)) ?_ ?_
    · rw [show (h.setHeap s _).subscriber r = h.subscriber r from rfl, hpc]
      cases v <;> exact fun _ hs => hs
    · cases v <;> simp
  · next s hpc =>
    split at he <;> cases he
    refine (hresume s (h.heap s).send.resume rfl rfl).setSubscriber (hfree _ hpc (by simp)) ?_
      (by simp)
    rw [show (h.setHeap s _).subscriber r = h.subscriber r from rfl, hpc]
    exact fun _ hs => hs
  · next s msg ok hpc =>
    split at he <;> cases he
    · have hx : ((h.heap s).wrote msg).gate = (h.heap s).gate := rfl
      refine (hm.setHeap hx).setSubscriber (hfree _ hpc (by simp)) ?_ (by simp)
      rw [show (h.setHeap s _).subscriber r = h.subscriber r from rfl, hpc]
      exact fun _ hs => hs
    · refine hm.setSubscriber (hfree _ hpc (by simp)) ?_ (by simp)
      rw [hpc]
      exact fun _ hs => hs
  · next s hpc =>
    split at he <;> cases he
    next hmu =>
    refine hm.callUnsub hmu (hm.handler r s (by rw [hpc]; rfl)) ?_
    rintro q ⟨⟩
    exact hpc
  · cases he

theorem limits_step {a : HubAct Msg} (he : h.step sniff a = some k) :
    k.ch.limits = h.ch.limits := by
  cases a with
  | publisher r a => exact (sameSubscribers_stepPublisher he).limits
  | subscriber r a => exact (samePublishers_stepSubscriber he).limits
  | unsub s =>
    simp only [Hub.step] at he
    split at he <;> cases he
    exact (samePublishers_callUnsub h s none).limits
  | unlock => exact (samePublishers_stepUnlock he).limits

theorem Members.step (hm : Members h) {a : HubAct Msg} (he : h.step sniff a = some k) :
    Members k := by
  cases a with
  | publisher r a => exact (sameSubscribers_stepPublisher he).members hm
  | subscriber r a => exact hm.stepSubscriber he
  | unsub s =>
    simp only [Hub.step] at he
    split at he <;> cases he
    next hg => exact hm.callUnsub hg.1 hg.2 (by simp)
  | unlock => exact hm.stepUnlock he

theorem members_of_reachable (hb : 0 ≤ sendBuf)
    (hr : (hub sniff name maxSubs sendBuf).Reachable h) : Members h :=
  hr.invariant (members_fresh name maxSubs hb) (fun _ _ _ hi he => hi.step he)

/-- A publisher moves its own program counter and never to a crash. -/
theorem publisher_stepPublisher {a : PublisherAct Msg} (he : h.stepPublisher sniff r a = some k) :
    ∃ pc, k.publisher = Function.update h.publisher r pc ∧ pc ≠ .crashed := by
  simp only [Hub.stepPublisher] at he
  split at he
  · split at he <;> cases he
    simp only [claimPublisher]
    split <;> exact ⟨_, rfl, by simp⟩
  · cases he
    exact ⟨_, rfl, by split <;> simp⟩
  · cases he
    exact ⟨_, rfl, by split <;> simp⟩
  · cases he
    exact ⟨_, rfl, by simp⟩
  · cases he
    exact ⟨_, rfl, by split <;> simp⟩
  · split at he <;> cases he
    exact ⟨_, rfl, by simp⟩
  · cases he
    exact ⟨_, rfl, by simp only [next?]; split_ifs <;> simp⟩
  · cases he
    simp only [Hub.deliver]
    split
    · split <;> exact ⟨_, rfl, by rintro ⟨⟩⟩
    · exact ⟨_, rfl, by simp⟩
    · split <;> exact ⟨_, rfl, by rintro ⟨⟩⟩
  · split at he <;> cases he
    exact ⟨_, rfl, by simp⟩
  · cases he

theorem publisher_alive (ha : ∀ r, h.publisher r ≠ .crashed) {a : HubAct Msg}
    (he : h.step sniff a = some k) (r : Nat) : k.publisher r ≠ .crashed := by
  cases a with
  | subscriber q a =>
    rw [(samePublishers_stepSubscriber he).publisher]
    exact ha r
  | unsub s =>
    simp only [Hub.step] at he
    split at he <;> cases he
    rw [(samePublishers_callUnsub h s none).publisher]
    exact ha r
  | unlock =>
    rw [(samePublishers_stepUnlock he).publisher]
    exact ha r
  | publisher q a =>
    obtain ⟨pc, hk, hpc⟩ := publisher_stepPublisher he
    rw [hk, Function.update_apply]
    split
    · exact hpc
    · exact ha r

theorem subs_callUnsub (h : Hub Msg) (s : Nat) (caller : Option Nat) (ht : t ∈ h.ch.subs)
    (hne : t ≠ s) : t ∈ (h.callUnsub s caller).ch.subs := by
  simp only [Hub.callUnsub]
  split
  · exact Finset.mem_erase.mpr ⟨hne, ht⟩
  · cases caller <;> exact ht

/-- A subscriber leaves the map in its own `unsub` only. -/
theorem unsub_of_left {a : HubAct Msg} (he : h.step sniff a = some k) (ht : t ∈ h.ch.subs)
    (hk : t ∉ k.ch.subs) :
    a = .unsub t ∨ ∃ r, a = .subscriber r .unsub ∧ h.subscriber r = .unsub t := by
  cases a with
  | publisher r a =>
    rw [(sameSubscribers_stepPublisher he).subs] at hk
    exact absurd ht hk
  | unsub s =>
    simp only [Hub.step] at he
    split at he <;> cases he
    by_cases hts : t = s
    · exact .inl (hts ▸ rfl)
    · exact absurd (subs_callUnsub h s none ht hts) hk
  | unlock =>
    simp only [Hub.step, Hub.stepUnlock] at he
    split at he
    · cases he
      exact absurd ht hk
    · split at he <;> cases he
      · next caller _ _ _ => cases caller <;> exact absurd ht hk
      · exact absurd ht hk
    · cases he
      next caller _ => cases caller <;> exact absurd ht hk
    · cases he
  | subscriber r a =>
    simp only [Hub.step, Hub.stepSubscriber] at he
    split at he
    · split at he <;> cases he
      simp only [Hub.subscribe] at hk
      split at hk
      · exact absurd ht hk
      · split at hk
        · exact absurd ht hk
        · exact absurd (Finset.mem_insert_of_mem ht) hk
    · cases he; exact absurd ht hk
    · cases he; exact absurd ht hk
    · split at he
      · simp only [Hub.receive] at he
        split at he <;> cases he <;> exact absurd ht hk
      · cases he
    · split at he
      · obtain ⟨c, -, rfl⟩ := Option.map_eq_some_iff.mp he
        exact absurd ht hk
      · cases he
    · split at he <;> cases he
      exact absurd ht hk
    · split at he <;> cases he
      exact absurd ht hk
    · split at he <;> cases he <;> exact absurd ht hk
    · next s hpc =>
      split at he <;> cases he
      by_cases hts : t = s
      · exact .inr ⟨r, rfl, hts ▸ hpc⟩
      · exact absurd (subs_callUnsub h s _ ht hts) hk
    · cases he

/-- The subscriber set of a hub, as its callers may rely on it. -/
structure SubscriberSet (sniff : Msg → Bool) (h : Hub Msg) : Prop where
  members : ∀ s, s ∈ h.ch.subs ↔ s < h.next ∧ s ∉ h.unsubbed
  limit : (h.ch.subs.card : Int) ≤ h.ch.maxSubs
  once : ∀ s, (h.heap s).log.closes ≤ 1 ∧
    ((h.heap s).log.closes = 1 ↔ (h.heap s).send.closed = true)
  opened : ∀ s ∈ h.ch.subs, (h.heap s).send.closed = false
  closed : h.ch.mu = .unlocked → ∀ s < h.next, s ∉ h.ch.subs → (h.heap s).send.closed = true
  removed : ∀ a k, h.step sniff a = some k → ∀ t ∈ h.ch.subs, t ∉ k.ch.subs →
    a = .unsub t ∨ ∃ r, a = .subscriber r .unsub ∧ h.subscriber r = .unsub t
  unlocks : h.ch.mu ≠ .abandoned
  recovers : ∀ r, h.publisher r ≠ .crashed ∧ h.subscriber r ≠ .crashed

theorem subscriberSet_of_members (hm : Members h) (hmax : 0 ≤ h.ch.maxSubs)
    (ha : ∀ r, h.publisher r ≠ .crashed) : SubscriberSet sniff h := by
  refine ⟨hm.mem, ?_, ?_, ?_, ?_, ?_, hm.mutex, fun r => ⟨ha r, hm.alive r⟩⟩
  · exact Int.max_eq_left hmax ▸ hm.card
  · intro s
    rw [hm.closes s]
    split <;> simp_all
  · intro s hs
    rw [hm.chan s, decide_eq_false ((hm.mem s).mp hs).2]
    rfl
  · intro hmu s hlt hs
    have hun : s ∈ h.unsubbed := by
      by_contra hu
      exact hs ((hm.mem s).mpr ⟨hlt, hu⟩)
    rw [hm.chan s, hmu, decide_eq_true hun]
    rfl
  · intro a k he t ht hk
    exact unsub_of_left he ht hk

end Hub

end StreamMix.Relay
