import StreamMix.Lib.Precedence
import StreamMix.Relay.Delivery

namespace StreamMix.Relay

open Precedence (Preceded)

variable {Msg : Type u}

/-- The packet a publisher is about to broadcast or is broadcasting. -/
def PublisherPc.msg : PublisherPc Msg → Option Msg
  | .broadcast m => some m
  | .range l | .deliver l _ _ _ => some l.msg
  | _ => none

/-- Before the first read of a handler. -/
def PublisherPc.early : PublisherPc Msg → Bool
  | .idle | .accept | .subprotocol => true
  | _ => false

/-- In the read loop of `handlePublish`. -/
def PublisherPc.onAir : PublisherPc Msg → Bool
  | .read | .broadcast _ | .range _ | .deliver _ _ _ _ => true
  | _ => false

namespace PublisherPc

variable {pc : PublisherPc Msg}

theorem onAir_of_loop (h : pc.loop = some l) : pc.onAir = true := by
  cases pc <;> first | rfl | cases h

theorem early_of_loop (h : pc.loop = some l) : pc.early = false := by
  cases pc <;> first | rfl | cases h

theorem msg_of_loop (h : pc.loop = some l) : pc.msg = some l.msg := by
  cases pc <;> cases h <;> rfl

theorem msg_of_offAir (h : pc.onAir = false) : pc.msg = none := by
  cases pc <;> first | rfl | cases h

end PublisherPc

theorem Subscriber.stream_offer {x y : Subscriber Msg} (h : x.offer msg = .taken y) :
    y.stream = x.stream ++ [msg] := by
  simp only [Subscriber.offer] at h
  split at h
  · cases h
  · next c hc =>
    cases h
    obtain ⟨-, hx, hb, -⟩ := Go.Chan.trySend_handed hc
    simp only [Subscriber.stream, hx, hb, List.append_nil]
  · next c hc =>
    cases h
    obtain ⟨-, -, hb, -⟩ := Go.Chan.trySend_queued hc
    simp only [Subscriber.stream, hb, List.append_assoc]
  · cases h

namespace Hub

variable {h k : Hub Msg} {sniff : Msg → Bool} {r s : Nat}

/-- The effect of a step on the packets of subscriber `s`. -/
inductive Moves (h k : Hub Msg) (a : HubAct Msg) (s : Nat) : Prop
  | same : (k.heap s).stream = (h.heap s).stream →
      (k.heap s).log.delivered = (h.heap s).log.delivered → Moves h k a s
  | pushed : a = .publisher q .deliver → h.publisher q = .deliver l s d st →
      (k.heap s).stream = (h.heap s).stream ++ [l.msg] →
      (k.heap s).log.delivered = (h.heap s).log.delivered ++ [l.msg] → Moves h k a s
  | dropped : a = .publisher q .deliver → h.publisher q = .deliver l s d .second →
      (h.heap s).send.buf = v :: rest → (k.heap s).stream = (h.heap s).log.received ++ rest →
      (k.heap s).log.delivered = (h.heap s).log.delivered → Moves h k a s
  | joined : a = .subscriber q .subscribe → s = h.next → (k.heap s).stream = [] →
      (k.heap s).log.delivered = [] → Moves h k a s

theorem Drained.moves (e : Drained h k) (a : HubAct Msg) (s : Nat) : Moves h k a s :=
  .same (e.drains s).stream (e.drains s).delivered

theorem heap_stepPublisher {a : PublisherAct Msg} (he : h.stepPublisher sniff r a = some k)
    (ha : a ≠ .deliver) : k.heap = h.heap := by
  simp only [Hub.stepPublisher] at he
  split at he
  · split at he <;> cases he
    simp only [claimPublisher]
    split <;> rfl
  · cases he; rfl
  · cases he; rfl
  · cases he; rfl
  · cases he; rfl
  · split at he <;> cases he
    rfl
  · cases he; rfl
  · exact absurd rfl ha
  · split at he <;> cases he
    rfl
  · cases he

theorem moves_deliver (hd : Delivery h) (hr : h.publisher r = .deliver l t d st) (s : Nat) :
    Moves h (h.deliver r l t d st) (.publisher r .deliver) s := by
  have hother : ∀ x, s ≠ t →
      ((h.setHeap t x).setPublisher r (.range l.succ)).heap s = h.heap s := fun x hst =>
    Function.update_of_ne hst ..
  have htaken : ∀ x, (h.heap t).offer l.msg = .taken x →
      Moves h ((h.setHeap t x).setPublisher r (.range l.succ)) (.publisher r .deliver) s := by
    intro x hx
    by_cases hst : s = t
    · subst hst
      refine .pushed rfl hr ?_ ?_
      · simp only [Hub.setPublisher, Hub.setHeap, Function.update_self]
        exact Subscriber.stream_offer hx
      · simp only [Hub.setPublisher, Hub.setHeap, Function.update_self]
        exact (Subscriber.offer_newest hx).1
    · refine .same ?_ ?_ <;> rw [hother x hst]
  cases st with
  | first =>
    simp only [Hub.deliver]
    split
    · exact .same rfl rfl
    · next x hx => exact htaken x hx
    · exact .same rfl rfl
  | second =>
    by_cases hst : s = t
    · subst hst
      cases hc : (h.heap s).send.tryRecv with
      | item v c =>
        obtain ⟨hb, -⟩ := Go.Chan.tryRecv_item hc
        refine .dropped rfl hr hb ?_ ?_ <;>
          simp only [Hub.deliver, Hub.setPublisher, Hub.setHeap, Function.update_self,
            Subscriber.discard, hc, Subscriber.stream]
      | zero =>
        refine .same ?_ ?_ <;>
          simp only [Hub.deliver, Hub.setPublisher, Hub.setHeap, Function.update_self,
            Subscriber.discard, hc, Subscriber.stream]
      | empty =>
        refine .same ?_ ?_ <;>
          simp only [Hub.deliver, Hub.setPublisher, Hub.setHeap, Function.update_self,
            Subscriber.discard, hc]
    · refine .same ?_ ?_ <;>
        simp only [Hub.deliver, Hub.setPublisher, Hub.setHeap, Function.update_of_ne hst]
  | third =>
    simp only [Hub.deliver]
    split
    · exact .same rfl rfl
    · next x hx => exact htaken x hx
    · next hfull =>
      obtain ⟨ho, hlen⟩ := Subscriber.offer_full hfull
      have := ((hd.target r l t d .third hr).2 ho).2
      omega

theorem moves_subscribe (hm : Members h) (q s : Nat) :
    Moves h (h.subscribe r) (.subscriber q .subscribe) s := by
  simp only [Hub.subscribe]
  split
  · exact .same rfl rfl
  · rw [make_eq hm]
    by_cases hs : s = h.next
    · subst hs
      refine .joined rfl rfl ?_ ?_ <;>
        simp only [Hub.setSubscriber, Function.update_self] <;> rfl
    · refine .same ?_ ?_ <;> simp only [Hub.setSubscriber, Function.update_of_ne hs]

theorem moves_step (hm : Members h) (hd : Delivery h) {a : HubAct Msg}
    (he : h.step sniff a = some k) (s : Nat) : Moves h k a s := by
  cases a with
  | publisher r a =>
    by_cases ha : a = .deliver
    · subst ha
      simp only [Hub.step, Hub.stepPublisher] at he
      cases hpc : h.publisher r <;> simp only [hpc, reduceCtorEq, Option.some.injEq] at he
      subst he
      exact moves_deliver hd hpc s
    · refine .same ?_ ?_ <;> rw [heap_stepPublisher he ha]
  | subscriber r a =>
    by_cases ha : a = .subscribe
    · subst ha
      rw [subscribe_of_step he]
      exact moves_subscribe hm r s
    · exact (drained_stepSubscriber ha he).moves _ s
  | unsub t =>
    simp only [Hub.step] at he
    split at he <;> cases he
    exact (drained_callUnsub h t none).moves _ s
  | unlock => exact (drained_stepUnlock he).moves _ s

/-- The moves of a publisher handler, by what they mean for its packets. -/
inductive Turn (h : Hub Msg) (a : PublisherAct Msg) (pc : PublisherPc Msg) :
    PublisherPc Msg → Prop
  | opening : pc.early = true → pc'.msg = none → Turn h a pc pc'
  | reading : pc = .read → a = .read true m → Turn h a pc (.broadcast m)
  | broadcasting : pc = .broadcast l.msg → a = .snapshot l.rest → (∀ s ∈ l.rest, s ∈ h.ch.subs) →
      Turn h a pc (.range l)
  | looping : pc.loop = some l → pc'.loop = some l' → l'.msg = l.msg → l'.rest ⊆ l.rest →
      Turn h a pc pc'
  | finished : pc.loop = some l → Turn h a pc .read
  | leaving : pc.early = false → pc'.early = false → pc'.onAir = false → Turn h a pc pc'

theorem Loop.rest_succ (l : Loop Msg) : l.succ.rest ⊆ l.rest :=
  (List.drop_sublist_drop_left l.snapshot (Nat.le_succ l.pos)).subset

theorem turn_deliver (h : Hub Msg) (r : Nat) (l : Loop Msg) (s d : Nat) (st : Stage)
    (a : PublisherAct Msg) :
    ∃ pc, (h.deliver r l s d st).publisher = Function.update h.publisher r pc ∧
      Turn h a (.deliver l s d st) pc := by
  have hnext : Turn h a (.deliver l s d st) (.range l.succ) :=
    .looping rfl rfl rfl (Loop.rest_succ l)
  have hstage : ∀ st', Turn h a (.deliver l s d st) (.deliver l s d st') := fun _ =>
    .looping rfl rfl rfl (List.Subset.refl _)
  cases st with
  | first =>
    simp only [Hub.deliver]
    split
    · exact ⟨_, rfl, hnext⟩
    · exact ⟨_, rfl, hnext⟩
    · exact ⟨_, rfl, hstage _⟩
  | second => exact ⟨_, rfl, hstage _⟩
  | third =>
    simp only [Hub.deliver]
    split <;> exact ⟨_, rfl, hnext⟩

theorem turn_stepPublisher {a : PublisherAct Msg} (he : h.stepPublisher sniff r a = some k) :
    ∃ pc, k.publisher = Function.update h.publisher r pc ∧ Turn h a (h.publisher r) pc := by
  simp only [Hub.stepPublisher] at he
  split at he
  · next hpc =>
    rw [hpc]
    split at he <;> cases he
    simp only [claimPublisher]
    split <;> exact ⟨_, rfl, .opening rfl rfl⟩
  · next ok hpc =>
    rw [hpc]
    cases he
    exact ⟨_, rfl, .opening rfl (by cases ok <;> rfl)⟩
  · next ok hpc =>
    rw [hpc]
    cases he
    exact ⟨_, rfl, .opening rfl (by cases ok <;> rfl)⟩
  · next hpc =>
    rw [hpc]
    cases he
    exact ⟨_, rfl, .leaving rfl rfl rfl⟩
  · next binary msg hpc =>
    rw [hpc]
    cases he
    split
    · next hb =>
      rw [(Bool.and_eq_true_iff.mp hb).1]
      exact ⟨_, rfl, .reading rfl rfl⟩
    · exact ⟨_, rfl, .leaving rfl rfl rfl⟩
  · next msg order hpc =>
    rw [hpc]
    split at he <;> cases he
    next hg =>
    refine ⟨_, rfl, .broadcasting rfl rfl ?_⟩
    intro s hs
    rw [← hg.2.2, List.mem_toFinset]
    exact hs
  · next l hpc =>
    rw [hpc]
    cases he
    refine ⟨_, rfl, ?_⟩
    simp only [next?]
    split_ifs
    · exact .looping rfl rfl rfl (Loop.rest_succ l)
    · exact .looping rfl rfl rfl (List.Subset.refl _)
    · exact .finished rfl
  · next hpc =>
    rw [hpc]
    cases he
    exact turn_deliver ..
  · next hpc =>
    rw [hpc]
    split at he <;> cases he
    exact ⟨_, rfl, .leaving rfl rfl rfl⟩
  · cases he

theorem turn_step {a : HubAct Msg} (he : h.step sniff a = some k) (r : Nat) :
    k.publisher r = h.publisher r ∨
      ∃ pa, a = .publisher r pa ∧ Turn h pa (h.publisher r) (k.publisher r) := by
  cases a with
  | publisher q pa =>
    obtain ⟨pc, hk, hturn⟩ := turn_stepPublisher he
    by_cases hr : r = q
    · subst hr
      rw [hk, Function.update_self]
      exact .inr ⟨pa, rfl, hturn⟩
    · rw [hk, Function.update_of_ne hr]
      exact .inl rfl
  | subscriber q a => exact .inl (congrFun (samePublishers_stepSubscriber he).publisher r)
  | unsub s =>
    simp only [Hub.step] at he
    split at he <;> cases he
    exact .inl (congrFun (samePublishers_callUnsub h s none).publisher r)
  | unlock => exact .inl (congrFun (samePublishers_stepUnlock he).publisher r)

theorem history_step {a : HubAct Msg} (he : h.step sniff a = some k) :
    (k.history = h.history ∧ ∀ r order, a ≠ .publisher r (.snapshot order)) ∨
      ∃ r order m, a = .publisher r (.snapshot order) ∧ h.publisher r = .broadcast m ∧
        k.history = h.history ++ [m] := by
  cases a with
  | publisher r pa =>
    simp only [Hub.step, Hub.stepPublisher] at he
    split at he
    · split at he <;> cases he
      simp only [claimPublisher]
      split <;> exact .inl ⟨rfl, by simp⟩
    · cases he; exact .inl ⟨rfl, by simp⟩
    · cases he; exact .inl ⟨rfl, by simp⟩
    · cases he; exact .inl ⟨rfl, by simp⟩
    · cases he; exact .inl ⟨rfl, by simp⟩
    · next m order hpc =>
      split at he <;> cases he
      exact .inr ⟨r, order, m, rfl, hpc, rfl⟩
    · cases he; exact .inl ⟨rfl, by simp⟩
    · cases he
      refine .inl ⟨?_, by simp⟩
      next stage _ =>
      cases stage <;> simp only [Hub.deliver] <;> first | rfl | split <;> rfl
    · split at he <;> cases he
      exact .inl ⟨rfl, by simp⟩
    · cases he
  | subscriber q a => exact .inl ⟨(samePublishers_stepSubscriber he).history, by simp⟩
  | unsub s =>
    simp only [Hub.step] at he
    split at he <;> cases he
    exact .inl ⟨(samePublishers_callUnsub h s none).history, by simp⟩
  | unlock => exact .inl ⟨(samePublishers_stepUnlock he).history, by simp⟩

theorem Drained.joined_step (e : Drained h k) (hs : s ∈ k.ch.subs) :
    s ∈ h.ch.subs ∧ (k.heap s).log.joined = (h.heap s).log.joined :=
  ⟨e.subs hs, (e.drains s).joined⟩

/-- A member of the map was there before the step or joins now. -/
theorem joined_step (hm : Members h) {a : HubAct Msg} (he : h.step sniff a = some k)
    (hs : s ∈ k.ch.subs) :
    (s ∈ h.ch.subs ∧ (k.heap s).log.joined = (h.heap s).log.joined) ∨
      ∃ q, a = .subscriber q .subscribe ∧ (k.heap s).log.joined = h.history.length := by
  cases a with
  | publisher r pa =>
    have e := sameSubscribers_stepPublisher he
    exact .inl ⟨e.subs ▸ hs, congrArg (fun x => x.2.1) (e.status s)⟩
  | subscriber r a =>
    by_cases ha : a = .subscribe
    · subst ha
      rw [subscribe_of_step he] at hs ⊢
      simp only [Hub.subscribe] at hs ⊢
      split
      · next hfull =>
        rw [if_pos hfull] at hs
        exact .inl ⟨hs, rfl⟩
      · next hfull =>
        rw [if_neg hfull, make_eq hm] at hs
        rw [make_eq hm]
        obtain rfl | hold := Finset.mem_insert.mp hs
        · refine .inr ⟨r, rfl, ?_⟩
          simp only [Hub.setSubscriber, Function.update_self]
          rfl
        · have hne : s ≠ h.next := Nat.ne_of_lt ((hm.mem s).mp hold).1
          refine .inl ⟨hold, ?_⟩
          simp only [Hub.setSubscriber, Function.update_of_ne hne]
    · exact .inl ((drained_stepSubscriber ha he).joined_step hs)
  | unsub t =>
    simp only [Hub.step] at he
    split at he <;> cases he
    exact .inl ((drained_callUnsub h t none).joined_step hs)
  | unlock => exact .inl ((drained_stepUnlock he).joined_step hs)

end Hub

/-- How to read the packets of a hub: the connection each came on, which of them introduce
the tracks of their connection, which need such an introduction, and which are authentic. -/
structure Traffic (Msg : Type u) where
  conn : Msg → Nat
  lists : Msg → Prop
  audio : Msg → Prop
  genuine : Msg → Prop

def Traffic.covers (T : Traffic Msg) (t m : Msg) : Prop := T.lists t ∧ T.conn t = T.conn m

namespace Hub

variable {h k : Hub Msg} {sniff : Msg → Bool} {T : Traffic Msg}

/-- What the steps of a hub have to respect: connections carry their own packets and list
their tracks before audio, nobody subscribes to a connection that has listed them, and full
queues do not drop lists. -/
def Orderly (T : Traffic Msg) (h : Hub Msg) : HubAct Msg → Prop
  | .publisher r (.read _ m) => T.conn m = r ∧ T.genuine m
  | .publisher r (.snapshot _) => ∀ m, h.publisher r = .broadcast m → T.audio m →
    ∃ t ∈ h.history, T.lists t ∧ T.conn t = r
  | .publisher r .deliver => ∀ l s d, h.publisher r = .deliver l s d .second →
    ∀ m ∈ (h.heap s).send.buf.head?, ¬ T.lists m
  | .subscriber _ .subscribe => ∀ m ∈ h.history, T.lists m →
    (h.publisher (T.conn m)).onAir = false
  | _ => True

structure Introduced (T : Traffic Msg) (h : Hub Msg) : Prop where
  streams : ∀ s, Preceded T.audio T.covers (h.heap s).stream
  genuine : ∀ s, ∀ m ∈ (h.heap s).stream, T.genuine m
  kept : ∀ s, ∀ m ∈ (h.heap s).log.delivered, T.lists m → m ∈ (h.heap s).stream
  joined : ∀ s ∈ h.ch.subs, ∀ m ∈ h.history.take (h.heap s).log.joined, T.lists m →
    (h.publisher (T.conn m)).onAir = false
  loops : ∀ r l, (h.publisher r).loop = some l → T.audio l.msg →
    ∀ s ∈ l.rest, ∃ m ∈ (h.heap s).stream, T.covers m l.msg
  early : ∀ r, (h.publisher r).early = true → ∀ m ∈ h.history, T.conn m ≠ r
  tagged : ∀ r m, (h.publisher r).msg = some m → T.conn m = r ∧ T.genuine m

theorem introduced_fresh (T : Traffic Msg) (ch : Channel) (hc : ch.subs = ∅) :
    Introduced T (fresh ch) where
  streams _ := Precedence.preceded_nil
  genuine _ := nofun
  kept _ := nofun
  joined s hs := by
    rw [show (fresh ch : Hub Msg).ch.subs = ch.subs from rfl, hc] at hs
    cases hs
  loops _ _ := nofun
  early _ _ := nofun
  tagged _ _ := nofun

/-- Lists stay where they are. -/
theorem Moves.mem {a : HubAct Msg} (hmov : Moves h k a s) (hg : Orderly T h a)
    (hs : s < h.next) (hm : m ∈ (h.heap s).stream) (hl : T.lists m) : m ∈ (k.heap s).stream := by
  cases hmov with
  | same hstream _ => rwa [hstream]
  | pushed _ _ hstream _ =>
    rw [hstream]
    exact List.mem_append_left _ hm
  | dropped ha hpc hbuf hstream _ =>
    subst ha
    rw [Subscriber.stream, hbuf] at hm
    rw [hstream]
    obtain hm | hm := List.mem_append.mp hm
    · exact List.mem_append_left _ hm
    · obtain rfl | hm := List.mem_cons.mp hm
      · exact absurd hl (hg _ _ _ hpc m (by rw [hbuf]; rfl))
      · exact List.mem_append_right _ hm
  | joined _ hnext _ _ => exact absurd hnext (Nat.ne_of_lt hs)

theorem onAir_step {a : HubAct Msg} (he : h.step sniff a = some k) (r : Nat)
    (hr : (k.publisher r).onAir = true) :
    (h.publisher r).onAir = true ∨ (h.publisher r).early = true := by
  obtain hk | ⟨pa, -, hturn⟩ := turn_step he r
  · exact .inl (hk ▸ hr)
  · generalize k.publisher r = pc at hturn hr
    cases hturn with
    | opening hpc _ => exact .inr hpc
    | reading hpc _ => exact .inl (hpc ▸ rfl)
    | broadcasting hpc _ _ => exact .inl (hpc ▸ rfl)
    | looping hl _ _ _ => exact .inl (PublisherPc.onAir_of_loop hl)
    | finished hl => exact .inl (PublisherPc.onAir_of_loop hl)
    | leaving _ _ hoff =>
      rw [hoff] at hr
      cases hr

theorem early_step {a : HubAct Msg} (he : h.step sniff a = some k) (r : Nat)
    (hr : (k.publisher r).early = true) : (h.publisher r).early = true := by
  obtain hk | ⟨pa, -, hturn⟩ := turn_step he r
  · exact hk ▸ hr
  · generalize k.publisher r = pc at hturn hr
    cases hturn with
    | opening hpc _ => exact hpc
    | reading _ _ => cases hr
    | broadcasting _ _ _ => cases hr
    | looping _ hl _ _ =>
      rw [PublisherPc.early_of_loop hl] at hr
      cases hr
    | finished _ => cases hr
    | leaving _ hlate _ =>
      rw [hlate] at hr
      cases hr

theorem Introduced.tagged_step (hi : Introduced T h) {a : HubAct Msg} (hg : Orderly T h a)
    (he : h.step sniff a = some k) (r : Nat) (m : Msg) (hmsg : (k.publisher r).msg = some m) :
    T.conn m = r ∧ T.genuine m := by
  obtain hk | ⟨pa, rfl, hturn⟩ := turn_step he r
  · exact hi.tagged r m (hk ▸ hmsg)
  · generalize k.publisher r = pc at hturn hmsg
    cases hturn with
    | opening _ hnone =>
      rw [hnone] at hmsg
      cases hmsg
    | reading _ ha =>
      subst ha
      cases hmsg
      exact hg
    | broadcasting hpc _ _ =>
      cases hmsg
      exact hi.tagged r _ (hpc ▸ rfl)
    | looping hl hl' hsame _ =>
      rw [PublisherPc.msg_of_loop hl'] at hmsg
      cases hmsg
      rw [hsame]
      exact hi.tagged r _ (PublisherPc.msg_of_loop hl)
    | finished _ => cases hmsg
    | leaving _ _ hoff =>
      rw [PublisherPc.msg_of_offAir hoff] at hmsg
      cases hmsg

theorem Introduced.joined_step (hi : Introduced T h) (hd : Delivery h) (hm : Members h)
    {a : HubAct Msg} (hg : Orderly T h a) (he : h.step sniff a = some k) (s : Nat)
    (hs : s ∈ k.ch.subs) (m : Msg) (hmem : m ∈ k.history.take (k.heap s).log.joined)
    (hl : T.lists m) : (k.publisher (T.conn m)).onAir = false := by
  have hprefix : h.history <+: k.history := by
    obtain ⟨hk, -⟩ | ⟨_, _, _, -, -, hk⟩ := history_step he <;> rw [hk]
    exact List.prefix_append ..
  have htake : ∀ j, j ≤ h.history.length → k.history.take j = h.history.take j := by
    intro j hj
    obtain ⟨tail, hk⟩ := hprefix
    rw [← hk, List.take_append_of_le_length hj]
  have hold : m ∈ h.history ∧ (h.publisher (T.conn m)).onAir = false := by
    obtain ⟨hs, hjoin⟩ | ⟨q, rfl, hjoin⟩ := Hub.joined_step hm he hs
    · rw [hjoin, htake _ (hd.joined s)] at hmem
      exact ⟨List.mem_of_mem_take hmem, hi.joined s hs m hmem hl⟩
    · rw [hjoin, htake _ (Nat.le_refl _), List.take_length] at hmem
      exact ⟨hmem, hg m hmem hl⟩
  by_contra hair
  obtain hon | hearly := onAir_step he (T.conn m) (by simpa using hair)
  · rw [hold.2] at hon
    cases hon
  · exact hi.early _ hearly m hold.1 rfl

theorem Introduced.early_step (hi : Introduced T h) {a : HubAct Msg}
    (he : h.step sniff a = some k) (r : Nat) (hr : (k.publisher r).early = true) (m : Msg)
    (hm : m ∈ k.history) : T.conn m ≠ r := by
  have hearly := Hub.early_step he r hr
  obtain ⟨hk, -⟩ | ⟨q, order, msg, -, hpc, hk⟩ := history_step he
  · rw [hk] at hm
    exact hi.early r hearly m hm
  · rw [hk] at hm
    obtain hm | hm := List.mem_append.mp hm
    · exact hi.early r hearly m hm
    · rw [List.mem_singleton.mp hm, (hi.tagged q msg (hpc ▸ rfl)).1]
      rintro rfl
      rw [hpc] at hearly
      cases hearly

/-- A list on the air has reached every member of the map. -/
theorem Introduced.listed (hi : Introduced T h) (hs : Slot h) (hd : Delivery h)
    (hr : h.publisher r = .broadcast msg) (ht : t ∈ h.history) (hl : T.lists t)
    (hc : T.conn t = r) (hmem : s ∈ h.ch.subs) : t ∈ (h.heap s).stream := by
  have hholds : (h.publisher r).holds = true := by
    rw [hr]
    rfl
  have hprogress := hd.progress r s hmem (fun q hq => hs.owes_other hholds hq s)
  rw [hr, show (PublisherPc.broadcast msg).owes s = [] from rfl, List.append_nil] at hprogress
  rw [← List.take_append_drop (h.heap s).log.joined h.history] at ht
  obtain ht | ht := List.mem_append.mp ht
  · have hoff := hi.joined s hmem t ht hl
    rw [hc, hr] at hoff
    cases hoff
  · rw [hprogress] at ht
    exact hi.kept s t ht hl

theorem Introduced.loops_step (hi : Introduced T h) (hs : Slot h) (hm : Members h)
    (hd : Delivery h) {a : HubAct Msg} (hg : Orderly T h a) (he : h.step sniff a = some k)
    (r : Nat) (l : Loop Msg) (hl : (k.publisher r).loop = some l) (ha : T.audio l.msg)
    (s : Nat) (hrest : s ∈ l.rest) : ∃ m ∈ (k.heap s).stream, T.covers m l.msg := by
  have hstay : ∀ m, s < h.next → m ∈ (h.heap s).stream → T.covers m l.msg →
      ∃ m ∈ (k.heap s).stream, T.covers m l.msg := by
    intro m hlt hmem hcov
    exact ⟨m, (moves_step hm hd he s).mem hg hlt hmem hcov.1, hcov⟩
  have hold : ∀ l', (h.publisher r).loop = some l' → l.msg = l'.msg → l.rest ⊆ l'.rest →
      ∃ m ∈ (k.heap s).stream, T.covers m l.msg := by
    intro l' hl' hmsg hsub
    obtain ⟨m, hmem, hcov⟩ := hi.loops r l' hl' (hmsg ▸ ha) s (hsub hrest)
    have hlt := (hd.loop r l' hl').2 s (List.mem_of_mem_drop (hsub hrest))
    exact hstay m hlt hmem (hmsg ▸ hcov)
  obtain hk | ⟨pa, rfl, hturn⟩ := turn_step he r
  · exact hold l (hk ▸ hl) rfl (List.Subset.refl _)
  · generalize k.publisher r = pc at hturn hl
    cases hturn with
    | opening _ hnone =>
      rw [PublisherPc.msg_of_loop hl] at hnone
      cases hnone
    | reading _ _ => cases hl
    | broadcasting hpc hsnap hsubs =>
      subst hsnap
      cases hl
      obtain ⟨t, ht, hlist, hconn⟩ := hg _ hpc ha
      have hmem := hsubs s hrest
      have hcov : T.covers t l.msg := by
        refine ⟨hlist, hconn.trans (hi.tagged r _ ?_).1.symm⟩
        rw [hpc]
        rfl
      exact hstay t ((hm.mem s).mp hmem).1 (hi.listed hs hd hpc ht hlist hconn hmem) hcov
    | looping hl' hl'' hmsg hsub =>
      rw [hl''] at hl
      cases hl
      exact hold _ hl' hmsg hsub
    | finished _ => cases hl
    | leaving _ _ hoff =>
      rw [PublisherPc.onAir_of_loop hl] at hoff
      cases hoff

theorem Introduced.streams_step (hi : Introduced T h) (hd : Delivery h) {a : HubAct Msg}
    (hg : Orderly T h a) (hmov : Moves h k a s) :
    Preceded T.audio T.covers (k.heap s).stream ∧ (∀ m ∈ (k.heap s).stream, T.genuine m) ∧
      ∀ m ∈ (k.heap s).log.delivered, T.lists m → m ∈ (k.heap s).stream := by
  cases hmov with
  | same hstream hdel =>
    rw [hstream, hdel]
    exact ⟨hi.streams s, hi.genuine s, hi.kept s⟩
  | @pushed q l d st _ hpc hstream hdel =>
    rw [hstream, hdel]
    have hloop : (h.publisher q).loop = some l := by
      rw [hpc]
      rfl
    have hrest : s ∈ l.rest := (Loop.mem_rest (hd.target q l s d st hpc).1 s).mpr (.inl rfl)
    refine ⟨(hi.streams s).concat (fun ha => hi.loops q l hloop ha s hrest), ?_, ?_⟩
    · intro m hm
      obtain hm | hm := List.mem_append.mp hm
      · exact hi.genuine s m hm
      · rw [List.mem_singleton.mp hm]
        exact (hi.tagged q _ (PublisherPc.msg_of_loop hloop)).2
    · intro m hm hl
      obtain hm | hm := List.mem_append.mp hm
      · exact List.mem_append_left _ (hi.kept s m hm hl)
      · exact List.mem_append_right _ hm
  | @dropped q l d v rest ha hpc hbuf hstream hdel =>
    subst ha
    have hv : ¬ T.lists v := hg l s d hpc v (by rw [hbuf]; rfl)
    have hprev := hi.streams s
    have hgen := hi.genuine s
    have hkept := hi.kept s
    rw [Subscriber.stream, hbuf] at hprev hgen hkept
    rw [hstream, hdel]
    refine ⟨hprev.remove (fun x hc => hv hc.1), ?_, ?_⟩
    · intro m hm
      refine hgen m ?_
      obtain hm | hm := List.mem_append.mp hm
      · exact List.mem_append_left _ hm
      · exact List.mem_append_right _ (List.mem_cons_of_mem _ hm)
    · intro m hm hl
      obtain hm | hm := List.mem_append.mp (hkept m hm hl)
      · exact List.mem_append_left _ hm
      · obtain rfl | hm := List.mem_cons.mp hm
        · exact absurd hl hv
        · exact List.mem_append_right _ hm
  | joined _ _ hstream hdel =>
    rw [hstream, hdel]
    exact ⟨Precedence.preceded_nil, by simp, by simp⟩

theorem Introduced.step (hi : Introduced T h) (hs : Slot h) (hm : Members h) (hd : Delivery h)
    {a : HubAct Msg} (hg : Orderly T h a) (he : h.step sniff a = some k) : Introduced T k where
  streams s := (hi.streams_step hd hg (moves_step hm hd he s)).1
  genuine s := (hi.streams_step hd hg (moves_step hm hd he s)).2.1
  kept s := (hi.streams_step hd hg (moves_step hm hd he s)).2.2
  joined := hi.joined_step hd hm hg he
  loops := hi.loops_step hs hm hd hg he
  early := hi.early_step he
  tagged := hi.tagged_step hg he

end Hub

/-! What goes out on a socket is what its handler took, up to the packet in its hands. -/

/-- A packet that a woken `select` has yet to return. -/
def Subscriber.inHand (x : Subscriber Msg) : List Msg :=
  match x.send.receiver with
  | .woken (some v) => [v]
  | _ => []

def SubscriberPc.Holding (heap : Nat → Subscriber Msg) : SubscriberPc Msg → Prop
  | .accept s | .subprotocol s => (heap s).log.received = (heap s).log.written ∧
    (heap s).send.receiver = .running
  | .select s => (heap s).log.received = (heap s).log.written ++ (heap s).inHand
  | .write s v => (heap s).log.received = (heap s).log.written ++ [v] ∧
    (heap s).send.receiver = .running
  | _ => True

theorem SubscriberPc.Holding.congr {pc : SubscriberPc Msg} {heap heap' : Nat → Subscriber Msg}
    (h : pc.Holding heap) (heq : ∀ s, pc.sub = some s → heap' s = heap s) : pc.Holding heap' := by
  cases pc with
  | accept s =>
    simp only [Holding, heq s rfl]
    exact h
  | subprotocol s =>
    simp only [Holding, heq s rfl]
    exact h
  | select s =>
    simp only [Holding, heq s rfl]
    exact h
  | write s v =>
    simp only [Holding, heq s rfl]
    exact h
  | _ => trivial

/-- What other goroutines do to the queue of a handler. -/
inductive Subscriber.Fed (x y : Subscriber Msg) : Prop
  | same : y.log.written = x.log.written → y.log.received = x.log.received →
      y.send.receiver = x.send.receiver → Fed x y
  | handed : y.log.written = x.log.written → x.send.receiver = .parked →
      y.log.received = x.log.received ++ [m] → y.send.receiver = .woken (some m) → Fed x y
  | closed : y.log.written = x.log.written → y.log.received = x.log.received →
      x.send.receiver = .parked → y.send.receiver = .woken none → Fed x y

theorem Subscriber.Fed.refl (x : Subscriber Msg) : Fed x x := .same rfl rfl rfl

theorem Subscriber.Fed.wrote {x y : Subscriber Msg} (hf : Fed x y)
    (h : x.log.written <+: x.log.received) : y.log.written <+: y.log.received := by
  cases hf with
  | same hw hr _ => rwa [hw, hr]
  | handed hw _ hr _ =>
    rw [hw, hr]
    exact h.trans (List.prefix_append ..)
  | closed hw hr _ _ => rwa [hw, hr]

theorem Subscriber.inHand_parked {x : Subscriber Msg} (h : x.send.receiver = .parked) :
    x.inHand = [] := by
  rw [inHand, h]

theorem SubscriberPc.Holding.fed {pc : SubscriberPc Msg} {heap heap' : Nat → Subscriber Msg}
    (h : pc.Holding heap) (hf : ∀ s, (heap s).Fed (heap' s)) : pc.Holding heap' := by
  cases pc with
  | accept s | subprotocol s =>
    simp only [Holding] at h ⊢
    cases hf s with
    | same hw hr hrun => rwa [hw, hr, hrun]
    | handed _ hpark _ _ =>
      rw [hpark] at h
      cases h.2
    | closed _ _ hpark _ =>
      rw [hpark] at h
      cases h.2
  | select s =>
    simp only [Holding] at h ⊢
    cases hf s with
    | same hw hr hrun =>
      rw [hw, hr, h]
      simp only [Subscriber.inHand, hrun]
    | handed hw hpark hr hrun =>
      rw [Subscriber.inHand_parked hpark, List.append_nil] at h
      rw [hw, hr, h]
      simp only [Subscriber.inHand, hrun]
    | closed hw hr hpark hrun =>
      rw [Subscriber.inHand_parked hpark] at h
      rw [hw, hr, h]
      simp only [Subscriber.inHand, hrun]
  | write s v =>
    simp only [Holding] at h ⊢
    cases hf s with
    | same hw hr hrun => rwa [hw, hr, hrun]
    | handed _ hpark _ _ =>
      rw [hpark] at h
      cases h.2
    | closed _ _ hpark _ =>
      rw [hpark] at h
      cases h.2
  | _ => trivial

theorem Subscriber.fed_offer {x y : Subscriber Msg} (h : x.offer msg = .taken y) : x.Fed y := by
  have hw : y.log.written = x.log.written := congrArg (fun t => t.2.2) (Subscriber.offer_status h)
  simp only [Subscriber.offer] at h
  split at h
  · cases h
  · next c hc =>
    cases h
    obtain ⟨-, -, -, -, -, hrun, hpark⟩ := Go.Chan.trySend_handed hc
    refine .handed hw ?_ rfl hrun
    cases hx : x.send.receiver <;> rw [hx] at hpark <;> first | rfl | cases hpark
  · next c hc =>
    cases h
    obtain ⟨-, -, -, -, -, hrun, -⟩ := Go.Chan.trySend_queued hc
    exact .same hw rfl hrun
  · cases h

theorem Subscriber.fed_discard (x : Subscriber Msg) : x.Fed x.discard := by
  simp only [Subscriber.discard]
  split
  · next hc => exact .same rfl rfl (Go.Chan.tryRecv_item hc).2.2.2
  · exact .same rfl rfl rfl
  · exact .refl x

namespace Hub

variable {h k : Hub Msg} {sniff : Msg → Bool}

theorem Fed.setHeap {x : Subscriber Msg} (hx : (h.heap s).Fed x) (t : Nat) :
    (h.heap t).Fed ((h.setHeap s x).heap t) := by
  simp only [Hub.setHeap, Function.update_apply]
  split
  · next ht => exact ht ▸ hx
  · exact .refl _

theorem fed_stepPublisher {a : PublisherAct Msg} (he : h.stepPublisher sniff r a = some k)
    (t : Nat) : (h.heap t).Fed (k.heap t) := by
  by_cases ha : a = .deliver
  · subst ha
    simp only [Hub.stepPublisher] at he
    cases hpc : h.publisher r <;> simp only [hpc, reduceCtorEq, Option.some.injEq] at he
    next l s d st =>
    subst he
    cases st with
    | first =>
      simp only [Hub.deliver]
      split
      · exact .refl _
      · next hx => exact Fed.setHeap (Subscriber.fed_offer hx) t
      · exact .refl _
    | second => exact Fed.setHeap (Subscriber.fed_discard _) t
    | third =>
      simp only [Hub.deliver]
      split
      · exact .refl _
      · next hx => exact Fed.setHeap (Subscriber.fed_offer hx) t
      · exact Fed.setHeap (x := (h.heap s).giveUp l.msg) (.same rfl rfl rfl) t
  · rw [heap_stepPublisher he ha]
    exact .refl _

structure Handled (h : Hub Msg) : Prop where
  wrote : ∀ s, (h.heap s).log.written <+: (h.heap s).log.received
  holding : ∀ r, (h.subscriber r).Holding h.heap

theorem handled_fresh (ch : Channel) : Handled (fresh ch : Hub Msg) :=
  ⟨fun _ => List.prefix_refl _, fun _ => trivial⟩

/-- A step after which every handler stands where it stood or is done. -/
theorem Handled.fed (hh : Handled h) (hf : ∀ s, (h.heap s).Fed (k.heap s))
    (hs : ∀ r, k.subscriber r = h.subscriber r ∨ (k.subscriber r).sub = none) : Handled k := by
  refine ⟨fun s => (hf s).wrote (hh.wrote s), ?_⟩
  intro r
  obtain hr | hr := hs r
  · rw [hr]
    exact (hh.holding r).fed hf
  · generalize k.subscriber r = pc at hr
    cases pc <;> trivial

/-- A handler works on its own subscriber. -/
theorem Handled.act (hh : Handled h) (hm : Members h) (hr : (h.subscriber r).sub = some s)
    (hheap : k.heap = (h.setHeap s x).heap)
    (hsub : k.subscriber = Function.update h.subscriber r pc)
    (hx : x.log.written <+: x.log.received) (hpc : pc.Holding (h.setHeap s x).heap) :
    Handled k := by
  refine ⟨?_, ?_⟩
  · intro t
    rw [hheap]
    simp only [Hub.setHeap, Function.update_apply]
    split
    · exact hx
    · exact hh.wrote t
  · intro q
    rw [hheap, hsub]
    by_cases hq : q = r
    · subst hq
      rw [Function.update_self]
      exact hpc
    · rw [Function.update_of_ne hq]
      refine (hh.holding q).congr (fun t ht => Function.update_of_ne ?_ ..)
      rintro rfl
      exact hq (hm.owner q r t ht hr)

theorem setHeap_self (h : Hub Msg) (s : Nat) : (h.setHeap s (h.heap s)).heap = h.heap :=
  Function.update_eq_self ..

theorem Handled.move (hh : Handled h) (hm : Members h) (hr : (h.subscriber r).sub = some s)
    (hpc : pc.Holding h.heap) : Handled (h.setSubscriber r pc) := by
  refine hh.act hm hr (setHeap_self h s).symm rfl (hh.wrote s) ?_
  rw [setHeap_self]
  exact hpc

theorem sub_setCaller (h : Hub Msg) (caller : Option Nat) (hpc : pc.sub = none) (r : Nat) :
    (h.setCaller caller pc).subscriber r = h.subscriber r ∨
      ((h.setCaller caller pc).subscriber r).sub = none := by
  cases caller with
  | none => exact .inl rfl
  | some q =>
    simp only [Hub.setCaller, setSubscriber_subscriber, Function.update_apply]
    split
    · exact .inr hpc
    · exact .inl rfl

theorem heap_setCaller (h : Hub Msg) (caller : Option Nat) (pc : SubscriberPc Msg) :
    (h.setCaller caller pc).heap = h.heap := by
  cases caller <;> rfl

theorem Handled.callUnsub (hh : Handled h) (s : Nat) (caller : Option Nat) :
    Handled (h.callUnsub s caller) := by
  simp only [Hub.callUnsub]
  split
  · exact hh.fed (fun _ => .refl _) (fun _ => .inl rfl)
  · refine hh.fed ?_ (sub_setCaller _ caller rfl)
    rw [heap_setCaller]
    exact fun _ => .refl _

theorem Handled.stepUnlock (hh : Handled h) (he : h.stepUnlock = some k) : Handled k := by
  simp only [Hub.stepUnlock] at he
  split at he
  · cases he
    exact hh.fed (Fed.setHeap (h := h) (.same rfl rfl rfl)) (fun _ => .inl rfl)
  · split at he <;> cases he
    · refine hh.fed ?_ (sub_setCaller _ _ rfl)
      rw [heap_setCaller]
      exact fun _ => .refl _
    · next s caller _ _ c hc =>
      refine hh.fed (Fed.setHeap (h := h) ?_) (fun _ => .inl rfl)
      simp only [Go.Chan.close] at hc
      split_ifs at hc with hcl hp <;> cases hc
      · refine .closed rfl rfl ?_ rfl
        cases hx : (h.heap s).send.receiver <;> rw [hx] at hp <;> first | rfl | cases hp
      · exact .same rfl rfl rfl
  · cases he
    refine hh.fed ?_ (sub_setCaller _ _ rfl)
    rw [heap_setCaller]
    exact fun _ => .refl _
  · cases he

theorem Handled.subscribe (hh : Handled h) (hm : Members h) (r : Nat) :
    Handled (h.subscribe r) := by
  simp only [Hub.subscribe]
  split
  · refine hh.fed (fun _ => .refl _) (fun q => ?_)
    simp only [setSubscriber_subscriber, Function.update_apply]
    split
    · exact .inr rfl
    · exact .inl rfl
  · rw [make_eq hm]
    refine ⟨?_, ?_⟩
    · intro s
      simp only [Hub.setSubscriber, Function.update_apply]
      split
      · exact List.prefix_refl _
      · exact hh.wrote s
    · intro q
      by_cases hq : q = r
      · subst hq
        simp only [Hub.setSubscriber, Function.update_self, SubscriberPc.Holding, newSubscriber,
          and_self]
      · simp only [Hub.setSubscriber, Function.update_of_ne hq]
        refine (hh.holding q).congr (fun t ht => Function.update_of_ne ?_ ..)
        exact Nat.ne_of_lt (hm.handler q t ht)

theorem Handled.stepSubscriber (hh : Handled h) (hm : Members h) {a : SubscriberAct}
    (he : h.stepSubscriber r a = some k) : Handled k := by
  have hold := hh.holding r
  simp only [Hub.stepSubscriber] at he
  split at he
  · split at he <;> cases he
    exact hh.subscribe hm r
  · next s ok hpc =>
    cases he
    rw [hpc] at hold
    refine hh.move hm (by rw [hpc]; rfl) ?_
    cases ok <;> first | exact hold | trivial
  · next s ok hpc =>
    cases he
    rw [hpc] at hold
    refine hh.move hm (by rw [hpc]; rfl) ?_
    cases ok with
    | false => trivial
    | true =>
      simp only [SubscriberPc.Holding, if_true, Subscriber.inHand] at hold ⊢
      rw [hold.1, hold.2, List.append_nil]
  · next s hpc =>
    have hsub : (h.subscriber r).sub = some s := by
      rw [hpc]
      rfl
    rw [hpc] at hold
    split at he
    · next hrun =>
      simp only [SubscriberPc.Holding, Subscriber.inHand, hrun, List.append_nil] at hold
      simp only [Hub.receive] at he
      split at he
      · next v c hc =>
        cases he
        have hc := (Go.Chan.tryRecv_item hc).2.2.2
        refine hh.act hm hsub rfl rfl ((hh.wrote s).trans (List.prefix_append ..)) ?_
        simp only [SubscriberPc.Holding, Hub.setHeap, Function.update_self, Subscriber.take, hold,
          hc, hrun, and_self]
      · cases he
        exact hh.move hm hsub trivial
      · cases he
    · cases he
  · next s hpc =>
    rw [hpc] at hold
    split at he
    · next hrun =>
      simp only [SubscriberPc.Holding, Subscriber.inHand, hrun, List.append_nil] at hold
      obtain ⟨c, hc, rfl⟩ := Option.map_eq_some_iff.mp he
      have hc := (Go.Chan.park_eq_some hc).2.2.2.2.2
      have hstays : h.subscriber = Function.update h.subscriber r (.select s) := by
        rw [← hpc, Function.update_eq_self]
      refine hh.act hm (by rw [hpc]; rfl) rfl hstays (hh.wrote s) ?_
      simp only [SubscriberPc.Holding, Hub.setHeap, Function.update_self, Subscriber.inHand, hold,
        hc, List.append_nil]
    · cases he
  · next s hpc =>
    rw [hpc] at hold
    split at he <;> cases he
    next v hrun =>
    refine hh.act hm (by rw [hpc]; rfl) rfl rfl (hh.wrote s) ?_
    cases v with
    | none => trivial
    | some m =>
      simp only [SubscriberPc.Holding, Subscriber.inHand, hrun] at hold
      simp only [SubscriberPc.Holding, Option.elim_some, Hub.setHeap, Function.update_self, hold,
        Go.Chan.resume, and_self]
  · next s hpc =>
    split at he <;> cases he
    exact hh.act hm (by rw [hpc]; rfl) rfl rfl (hh.wrote s) trivial
  · next s msg ok hpc =>
    have hsub : (h.subscriber r).sub = some s := by
      rw [hpc]
      rfl
    rw [hpc] at hold
    split at he <;> cases he
    · refine hh.act hm hsub rfl rfl ?_ ?_
      · rw [Subscriber.wrote, hold.1]
      · simp only [SubscriberPc.Holding, Hub.setHeap, Function.update_self, Subscriber.wrote,
          Subscriber.inHand, hold.1, hold.2, List.append_nil]
    · exact hh.move hm hsub trivial
  · split at he <;> cases he
    exact hh.callUnsub _ _
  · cases he

theorem Handled.step (hh : Handled h) (hm : Members h) {a : HubAct Msg}
    (he : h.step sniff a = some k) : Handled k := by
  cases a with
  | publisher r a =>
    have hsame := (sameSubscribers_stepPublisher he).subscriber
    exact hh.fed (fed_stepPublisher he) (fun q => .inl (congrFun hsame q))
  | subscriber r a => exact hh.stepSubscriber hm he
  | unsub s =>
    simp only [Hub.step] at he
    split at he <;> cases he
    exact hh.callUnsub s none
  | unlock => exact hh.stepUnlock he

end Hub

end StreamMix.Relay
