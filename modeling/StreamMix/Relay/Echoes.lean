import StreamMix.Relay.Streams

/-! What a viewer is sent comes from the broadcasts of its hub and in their order, whether the
viewer is still a member or has left in the middle of a broadcast. -/

namespace StreamMix.Relay

variable {Msg : Type u}

theorem Subscriber.stream_discard (x : Subscriber Msg) : x.discard.stream.Sublist x.stream := by
  simp only [Subscriber.discard]
  split
  · next v c hc =>
    obtain ⟨hb, -⟩ := Go.Chan.tryRecv_item hc
    rw [Subscriber.stream, Subscriber.stream, hb]
    exact List.Sublist.append (List.Sublist.refl _) (List.sublist_cons_self ..)
  · exact List.Sublist.refl _
  · exact List.Sublist.refl _

namespace Hub

variable {h k : Hub Msg} {sniff : Msg → Bool} {r s : Nat}

/-- A viewer that a broadcast has yet to reach does not hold its packet, and no viewer what was
broadcast before it joined. -/
structure Echoes (h : Hub Msg) : Prop where
  streams : ∀ s, (h.heap s).stream.Sublist (h.history.drop (h.heap s).log.joined)
  loops : ∀ r l, (h.publisher r).loop = some l → ∀ s ∈ l.rest,
    ((h.heap s).stream ++ [l.msg]).Sublist (h.history.drop (h.heap s).log.joined)

theorem echoes_fresh (ch : Channel) : Echoes (fresh ch : Hub Msg) where
  streams _ := List.Sublist.refl _
  loops _ _ := nofun

/-- What no step takes back.  The cell that a step allocates is empty. -/
structure Grows (h k : Hub Msg) : Prop where
  history : h.history <+: k.history
  next : h.next ≤ k.next
  joined : ∀ s, (k.heap s).log.joined = (h.heap s).log.joined ∨
    s = h.next ∧ (k.heap s).stream = []
  written : ∀ s < h.next, (h.heap s).log.written <+: (k.heap s).log.written
  begun : ∀ r, h.subscriber r ≠ .idle → k.subscriber r ≠ .idle

theorem Grows.refl (h : Hub Msg) : Grows h h where
  history := List.prefix_refl _
  next := Nat.le_refl _
  joined _ := .inl rfl
  written _ _ := List.prefix_refl _
  begun _ := id

theorem Grows.joined_eq (e : Grows h k) (hs : s < h.next) :
    (k.heap s).log.joined = (h.heap s).log.joined :=
  (e.joined s).resolve_right (fun hnew => Nat.ne_of_lt hs hnew.1)

theorem Grows.drop_history (e : Grows h k) (n : Nat) :
    (h.history.drop n).Sublist (k.history.drop n) := (e.history.drop n).sublist

theorem SameSubscribers.grows (e : SameSubscribers h k) (hh : h.history <+: k.history) :
    Grows h k where
  history := hh
  next := Nat.le_of_eq e.next.symm
  joined s := .inl (congrArg (fun x => x.2.1) (e.status s))
  written s _ := by
    rw [show (k.heap s).log.written = (h.heap s).log.written from
      congrArg (fun x => x.2.2) (e.status s)]
  begun r hr := by rwa [e.subscriber]

theorem Drained.grows (e : Drained h k)
    (hw : ∀ s, (h.heap s).log.written <+: (k.heap s).log.written)
    (hb : ∀ r, h.subscriber r ≠ .idle → k.subscriber r ≠ .idle) : Grows h k where
  history := by rw [e.same.history]
  next := Nat.le_of_eq e.next.symm
  joined s := .inl (e.drains s).joined
  written s _ := hw s
  begun := hb

theorem begun_setSubscriber {pc : SubscriberPc Msg} (hpc : pc ≠ .idle) (q : Nat)
    (hq : h.subscriber q ≠ .idle) : (h.setSubscriber r pc).subscriber q ≠ .idle := by
  simp only [Hub.setSubscriber, Function.update_apply]
  split_ifs
  · exact hpc
  · exact hq

theorem begun_setCaller {pc : SubscriberPc Msg} (hpc : pc ≠ .idle) (caller : Option Nat) (q : Nat)
    (hq : h.subscriber q ≠ .idle) : (h.setCaller caller pc).subscriber q ≠ .idle := by
  cases caller with
  | none => exact hq
  | some r => exact begun_setSubscriber hpc q hq

theorem written_setHeap {x : Subscriber Msg} (hx : (h.heap s).log.written <+: x.log.written)
    (t : Nat) : (h.heap t).log.written <+: ((h.setHeap s x).heap t).log.written := by
  simp only [Hub.setHeap, Function.update_apply]
  split_ifs with ht
  · rw [ht]
    exact hx
  · exact List.prefix_refl _

theorem grows_callUnsub (h : Hub Msg) (s : Nat) (caller : Option Nat) :
    Grows h (h.callUnsub s caller) := by
  refine (drained_callUnsub h s caller).grows ?_ ?_
  · intro t
    simp only [Hub.callUnsub]
    split_ifs
    · exact List.prefix_refl _
    · rw [heap_setCaller]
  · intro q hq
    simp only [Hub.callUnsub]
    split_ifs
    · exact hq
    · exact begun_setCaller (by simp) caller q hq

theorem grows_stepUnlock (he : h.stepUnlock = some k) : Grows h k := by
  have hdrained := drained_stepUnlock he
  simp only [Hub.stepUnlock] at he
  split at he
  · cases he
    exact hdrained.grows (written_setHeap (List.prefix_refl _)) (fun _ => id)
  · split at he
    · cases he
      refine hdrained.grows (fun t => ?_) (fun q hq => begun_setCaller (by simp) _ q hq)
      rw [heap_setCaller]
    · cases he
      exact hdrained.grows (written_setHeap (List.prefix_refl _)) (fun _ => id)
  · cases he
    refine hdrained.grows (fun t => ?_) (fun q hq => begun_setCaller (by simp) _ q hq)
    rw [heap_setCaller]
  · cases he

theorem grows_subscribe (hm : Members h) (r : Nat) : Grows h (h.subscribe r) := by
  simp only [Hub.subscribe]
  split
  · exact ⟨List.prefix_refl _, Nat.le_refl _, fun _ => .inl rfl, fun _ _ => List.prefix_refl _,
      begun_setSubscriber (by simp)⟩
  · rw [make_eq hm]
    refine ⟨List.prefix_refl _, Nat.le_succ _, ?_, ?_, begun_setSubscriber (by simp)⟩
    · intro s
      simp only [Hub.setSubscriber, Function.update_apply]
      split_ifs with hs
      · exact .inr ⟨hs, rfl⟩
      · exact .inl rfl
    · intro s hs
      simp only [Hub.setSubscriber, Function.update_of_ne (Nat.ne_of_lt hs)]
      exact List.prefix_refl _

theorem grows_stepSubscriber (hm : Members h) {a : SubscriberAct}
    (he : h.stepSubscriber r a = some k) : Grows h k := by
  by_cases ha : a = .subscribe
  · subst ha
    rw [subscribe_of_step he]
    exact grows_subscribe hm r
  have hdrained := drained_stepSubscriber ha he
  have hkeep : ∀ s x (pc : SubscriberPc Msg), (h.heap s).log.written <+: x.log.written →
      pc ≠ .idle → Drained h ((h.setHeap s x).setSubscriber r pc) →
        Grows h ((h.setHeap s x).setSubscriber r pc) :=
    fun s x pc hx hpc e => e.grows (written_setHeap hx) (begun_setSubscriber hpc)
  have hmove : ∀ pc : SubscriberPc Msg, pc ≠ .idle → Drained h (h.setSubscriber r pc) →
      Grows h (h.setSubscriber r pc) :=
    fun pc hpc e => e.grows (fun _ => List.prefix_refl _) (begun_setSubscriber hpc)
  simp only [Hub.stepSubscriber] at he
  split at he
  · exact absurd rfl ha
  · next ok _ =>
    cases he
    exact hmove _ (by cases ok <;> simp) hdrained
  · next ok _ =>
    cases he
    exact hmove _ (by cases ok <;> simp) hdrained
  · split at he
    · simp only [Hub.receive] at he
      split at he
      · cases he
        exact hkeep _ _ _ (List.prefix_refl _) (by simp) hdrained
      · cases he
        exact hmove _ (by simp) hdrained
      · cases he
    · cases he
  · split at he
    · obtain ⟨c, -, rfl⟩ := Option.map_eq_some_iff.mp he
      exact hdrained.grows (written_setHeap (List.prefix_refl _)) (fun _ => id)
    · cases he
  · split at he <;> cases he
    next v _ => exact hkeep _ _ _ (List.prefix_refl _) (by cases v <;> simp) hdrained
  · split at he <;> cases he
    exact hkeep _ _ _ (List.prefix_refl _) (by simp) hdrained
  · split at he <;> cases he
    · exact hkeep _ _ _ (List.prefix_append ..) (by simp) hdrained
    · exact hmove _ (by simp) hdrained
  · split at he <;> cases he
    exact grows_callUnsub h _ _
  · cases he

theorem history_grows {a : HubAct Msg} (he : h.step sniff a = some k) :
    h.history <+: k.history := by
  obtain ⟨hk, -⟩ | ⟨_, _, m, -, -, hk⟩ := history_step he
  · rw [hk]
  · rw [hk]
    exact List.prefix_append _ _

theorem grows_step (hm : Members h) {a : HubAct Msg} (he : h.step sniff a = some k) :
    Grows h k := by
  cases a with
  | publisher r a => exact (sameSubscribers_stepPublisher he).grows (history_grows he)
  | subscriber r a => exact grows_stepSubscriber hm he
  | unsub s =>
    simp only [Hub.step] at he
    split at he <;> cases he
    exact grows_callUnsub h s none
  | unlock => exact grows_stepUnlock he

/-- Only `deliver` hands out packets. -/
theorem stream_step (hm : Members h) (hd : Delivery h) {a : HubAct Msg}
    (ha : ∀ r, a ≠ .publisher r .deliver) (he : h.step sniff a = some k) (s : Nat) :
    (k.heap s).stream.Sublist (h.heap s).stream := by
  cases moves_step hm hd he s with
  | same hstream _ => rw [hstream]
  | pushed hq _ _ _ => exact absurd hq (ha _)
  | dropped hq _ _ _ _ => exact absurd hq (ha _)
  | joined _ _ hnil _ =>
    rw [hnil]
    exact List.nil_sublist _

theorem heap_deliver_of_ne (hst : s ≠ t) (l : Loop Msg) (d : Nat) (st : Stage) :
    (h.deliver r l t d st).heap s = h.heap s := by
  have hset : ∀ x : Subscriber Msg, (h.setHeap t x).heap s = h.heap s := fun _ =>
    Function.update_of_ne hst ..
  cases st with
  | first =>
    simp only [Hub.deliver]
    split
    · rfl
    · exact hset _
    · rfl
  | second => exact hset _
  | third =>
    simp only [Hub.deliver]
    split
    · rfl
    · exact hset _
    · exact hset _

/-- A `deliver` that goes on to another select has handed nothing out. -/
theorem deliver_stays (h : Hub Msg) (r : Nat) (l : Loop Msg) (t d : Nat) (st : Stage) (s : Nat) :
    (h.deliver r l t d st).publisher r = .range l.succ ∨
      ((h.deliver r l t d st).heap s).stream.Sublist (h.heap s).stream := by
  cases st with
  | first =>
    simp only [Hub.deliver]
    split
    · exact .inl (Function.update_self ..)
    · exact .inl (Function.update_self ..)
    · exact .inr (List.Sublist.refl _)
  | second =>
    refine .inr ?_
    by_cases hst : s = t
    · subst hst
      simp only [Hub.deliver, Hub.setPublisher, Hub.setHeap, Function.update_self]
      exact Subscriber.stream_discard _
    · rw [heap_deliver_of_ne hst]
  | third =>
    simp only [Hub.deliver]
    split <;> exact .inl (Function.update_self ..)

theorem Echoes.streams_step (hi : Echoes h) (hm : Members h) (hd : Delivery h) {a : HubAct Msg}
    (he : h.step sniff a = some k) (s : Nat) :
    (k.heap s).stream.Sublist (k.history.drop (k.heap s).log.joined) := by
  have hgrows := grows_step hm he
  obtain hjoin | ⟨-, hnil⟩ := hgrows.joined s
  · rw [hjoin]
    have hgrow := hgrows.drop_history (h.heap s).log.joined
    cases moves_step hm hd he s with
    | same hstream _ =>
      rw [hstream]
      exact (hi.streams s).trans hgrow
    | pushed _ hpc hstream _ =>
      rw [hstream]
      exact (hi.loops _ _ (by rw [hpc]; rfl) s
        ((Loop.mem_rest (hd.target _ _ _ _ _ hpc).1 s).mpr (.inl rfl))).trans hgrow
    | dropped _ _ hb hstream _ =>
      rw [hstream]
      refine List.Sublist.trans ?_ ((hi.streams s).trans hgrow)
      rw [Subscriber.stream, hb]
      exact List.Sublist.append (List.Sublist.refl _) (List.sublist_cons_self ..)
    | joined _ _ hnil _ =>
      rw [hnil]
      exact List.nil_sublist _
  · rw [hnil]
    exact List.nil_sublist _

/-- A viewer that the loop has reached is behind it. -/
theorem Echoes.loops_deliver (hi : Echoes h) (hd : Delivery h)
    (hr : h.publisher r = .deliver l t d st) (hl : pc.loop = some l')
    (hpc : (h.deliver r l t d st).publisher r = pc)
    (hturn : Turn h (.deliver : PublisherAct Msg) (.deliver l t d st) pc) (hs : s ∈ l'.rest) :
    (((h.deliver r l t d st).heap s).stream ++ [l'.msg]).Sublist
      (h.history.drop (h.heap s).log.joined) := by
  have hloop : (h.publisher r).loop = some l := by rw [hr]; rfl
  cases hturn with
  | looping hold hnew hmsg hrest =>
    cases hold
    rw [hl, Option.some.injEq] at hnew
    subst hnew
    rw [hmsg]
    have hbehind := hi.loops r l hloop s (hrest hs)
    obtain hrange | hstays := deliver_stays h r l t d st s
    · rw [hrange] at hpc
      subst hpc
      cases hl
      have hst : s ≠ t := by
        rintro rfl
        exact Loop.not_mem_succ (hd.target r l s d st hr).1 (hd.loop r l hloop).1 hs
      rw [heap_deliver_of_ne hst]
      exact hbehind
    · exact (hstays.append (List.Sublist.refl _)).trans hbehind
  | opening hearly => cases hearly
  | reading hread => cases hread
  | broadcasting hb => cases hb
  | finished => cases hl
  | leaving _ _ hoff =>
    rw [PublisherPc.onAir_of_loop hl] at hoff
    cases hoff

theorem Echoes.loops_step (hi : Echoes h) (hs : Slot h) (hm : Members h) (hd : Delivery h)
    {a : HubAct Msg} (he : h.step sniff a = some k) (hl : (k.publisher r).loop = some l)
    (hmem : s ∈ l.rest) :
    ((k.heap s).stream ++ [l.msg]).Sublist (k.history.drop (k.heap s).log.joined) := by
  have hgrows := grows_step hm he
  by_cases ha : ∃ q, a = .publisher q .deliver
  · obtain ⟨q, rfl⟩ := ha
    obtain ⟨pc, hk, hturn⟩ := turn_stepPublisher he
    have hjoin : (k.heap s).log.joined = (h.heap s).log.joined :=
      congrArg (fun x => x.2.1) ((sameSubscribers_stepPublisher he).status s)
    rw [hjoin]
    simp only [Hub.step, Hub.stepPublisher] at he
    cases hpc : h.publisher q <;> simp only [hpc, reduceCtorEq, Option.some.injEq] at he
    subst he
    have hrq : r = q := by
      by_contra hne
      rw [hk, Function.update_of_ne hne] at hl
      exact hne (hs.unique r q (PublisherPc.holds_of_loop hl) (by rw [hpc]; rfl))
    subst hrq
    rw [hk, Function.update_self] at hl
    rw [hpc] at hturn
    refine (hi.loops_deliver hd hpc hl ?_ hturn hmem).trans (hgrows.drop_history _)
    rw [hk, Function.update_self]
  · have hstays := stream_step hm hd (fun q hq => ha ⟨q, hq⟩) he s
    have hkeep : ∀ l₀, (h.publisher r).loop = some l₀ → s ∈ l₀.rest → l₀.msg = l.msg →
        ((k.heap s).stream ++ [l.msg]).Sublist (k.history.drop (k.heap s).log.joined) := by
      intro l₀ hl₀ hmem₀ hmsg
      have hold := hi.loops r l₀ hl₀ s hmem₀
      rw [hmsg] at hold
      rw [hgrows.joined_eq ((hd.loop r l₀ hl₀).2 s (List.mem_of_mem_drop hmem₀))]
      exact ((hstays.append (List.Sublist.refl _)).trans hold).trans (hgrows.drop_history _)
    obtain hsame | ⟨pa, rfl, hturn⟩ := turn_step he r
    · rw [hsame] at hl
      exact hkeep l hl hmem rfl
    · generalize hpc : k.publisher r = pc at hturn hl
      cases hturn with
      | opening _ hnone =>
        rw [PublisherPc.msg_of_loop hl] at hnone
        cases hnone
      | reading => cases hl
      | broadcasting hb ha' hsubs =>
        cases hl
        subst ha'
        obtain ⟨-, hno⟩ | ⟨q, order, m, hact, hpub, hhist⟩ := history_step he
        · exact absurd rfl (hno r _)
        · cases hact
          rw [hb] at hpub
          cases hpub
          rw [hgrows.joined_eq ((hm.mem s).mp (hsubs s hmem)).1, hhist,
            List.drop_append_of_le_length (hd.joined s)]
          exact (hstays.trans (hi.streams s)).append (List.Sublist.refl _)
      | looping hold hnew hmsg hrest =>
        rw [hl, Option.some.injEq] at hnew
        subst hnew
        exact hkeep _ hold (hrest hmem) hmsg.symm
      | finished => cases hl
      | leaving _ _ hoff =>
        rw [PublisherPc.onAir_of_loop hl] at hoff
        cases hoff

theorem Echoes.step (hi : Echoes h) (hs : Slot h) (hm : Members h) (hd : Delivery h)
    {a : HubAct Msg} (he : h.step sniff a = some k) : Echoes k where
  streams := hi.streams_step hm hd he
  loops _ _ hl _ hmem := hi.loops_step hs hm hd he hl hmem

theorem echoes_of_reachable (hb : 0 < sendBuf)
    (hr : (hub sniff name maxSubs sendBuf).Reachable h) : Echoes h ∧ Handled h := by
  refine hr.relative (P := fun h => Echoes h ∧ Handled h) ⟨echoes_fresh _, handled_fresh _⟩ ?_
  rintro h a k hr ⟨hi, hh⟩ he
  obtain ⟨hs, hm, hd⟩ := delivery_of_reachable hb hr
  exact ⟨hi.step hs hm hd he, hh.step hm he⟩

/-- What has been written to a viewer was broadcast after it joined, in that order. -/
theorem written_since (hb : 0 < sendBuf)
    (hr : (hub sniff name maxSubs sendBuf).Reachable h) (s : Nat) :
    (h.heap s).log.written.Sublist (h.history.drop (h.heap s).log.joined) := by
  obtain ⟨hi, hh⟩ := echoes_of_reachable hb hr
  have hreceived : (h.heap s).log.received <+: (h.heap s).stream := List.prefix_append ..
  exact ((hh.wrote s).trans hreceived).sublist.trans (hi.streams s)

theorem written_sublist (hb : 0 < sendBuf)
    (hr : (hub sniff name maxSubs sendBuf).Reachable h) (s : Nat) :
    (h.heap s).log.written.Sublist h.history :=
  (written_since hb hr s).trans (List.drop_sublist _ _)

/-- No handler goes back to the beginning. -/
theorem begun_stepPublisher {a : PublisherAct Msg} (he : h.stepPublisher sniff r a = some k) :
    k.publisher r ≠ .idle := by
  simp only [Hub.stepPublisher] at he
  split at he
  · split at he <;> cases he
    simp only [claimPublisher]
    split <;> simp
  · next ok _ =>
    cases he
    cases ok <;> simp
  · next ok _ =>
    cases he
    cases ok <;> simp
  · cases he
    simp
  · cases he
    rw [setPublisher_publisher, Function.update_self]
    split <;> simp
  · split at he <;> cases he
    simp [Hub.snapshot]
  · next l _ =>
    cases he
    rw [setPublisher_publisher, Function.update_self, next?]
    dsimp only
    split_ifs <;> simp
  · next l s d st hpc =>
    cases he
    obtain ⟨pc, hk, hturn⟩ := turn_deliver h r l s d st (.deliver : PublisherAct Msg)
    rw [hk, Function.update_self]
    cases hturn with
    | opening hearly => cases hearly
    | reading hread => cases hread
    | broadcasting hb => cases hb
    | looping _ hloop =>
      rintro rfl
      cases hloop
    | finished => simp
    | leaving _ hlate =>
      rintro rfl
      cases hlate
  · split at he <;> cases he
    simp [Hub.releasePublisher]
  · cases he

theorem begun_step {a : HubAct Msg} (he : h.step sniff a = some k) (hr : h.publisher r ≠ .idle) :
    k.publisher r ≠ .idle := by
  obtain hsame | ⟨pa, rfl, -⟩ := turn_step he r
  · rw [hsame]
    exact hr
  · exact begun_stepPublisher he

/-- A handler that moves holds the slot, or asks for it. -/
theorem holds_step {a : HubAct Msg} (he : h.step sniff a = some k)
    (hr : (k.publisher r).holds = true) :
    (h.publisher r).holds = true ∨ h.publisher r = .idle := by
  obtain hsame | ⟨pa, rfl, -⟩ := turn_step he r
  · rw [← hsame]
    exact .inl hr
  · simp only [Hub.step, Hub.stepPublisher] at he
    cases hpc : h.publisher r <;> first
      | exact .inl rfl
      | exact .inr rfl
      | simp only [hpc, reduceCtorEq] at he

end Hub

end StreamMix.Relay
