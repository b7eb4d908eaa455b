import StreamMix.Relay.Registry
import StreamMix.Relay.Subscribers

namespace StreamMix.Relay

variable {Msg : Type u}

def PublisherPc.finished : PublisherPc Msg → Bool
  | .refused | .returned | .crashed => true
  | _ => false

def SubscriberPc.finished : SubscriberPc Msg → Bool
  | .refused | .returned | .crashed => true
  | _ => false

theorem PublisherPc.finished_of_holds {pc : PublisherPc Msg} (h : pc.holds = true) :
    pc.finished = false := by
  cases pc <;> first | rfl | cases h

theorem SubscriberPc.finished_of_sub {pc : SubscriberPc Msg} (h : pc.sub = some s) :
    pc.finished = false := by
  cases pc <;> first | rfl | cases h

/-- Nobody but the handlers calls `unsub`. -/
def HubAct.ofHandler : HubAct Msg → Bool
  | .unsub _ => false
  | _ => true

namespace Hub

variable {h k : Hub Msg} {sniff : Msg → Bool} {r s : Nat}

theorem publisher_step {a : HubAct Msg} (he : h.step sniff a = some k) (r : Nat)
    (hr : (h.publisher r).finished = true) : k.publisher r = h.publisher r := by
  cases a with
  | subscriber q a => rw [(samePublishers_stepSubscriber he).publisher]
  | unsub s =>
    simp only [Hub.step] at he
    split at he <;> cases he
    rw [(samePublishers_callUnsub h s none).publisher]
  | unlock => rw [(samePublishers_stepUnlock he).publisher]
  | publisher q a =>
    obtain ⟨pc, hk, -⟩ := publisher_stepPublisher he
    have hne : r ≠ q := by
      rintro rfl
      simp only [Hub.step, Hub.stepPublisher] at he
      cases hpc : h.publisher r <;>
        simp only [hpc, PublisherPc.finished, reduceCtorEq, Bool.false_eq_true] at hr he
    rw [hk, Function.update_of_ne hne]

/-- A handler of `handleSubscribe` moves its own program counter only. -/
theorem subscriber_stepSubscriber {a : SubscriberAct} (he : h.stepSubscriber r a = some k) :
    ∃ pc, k.subscriber = Function.update h.subscriber r pc := by
  simp only [Hub.stepSubscriber] at he
  split at he
  · split at he <;> cases he
    simp only [Hub.subscribe]
    split
    · exact ⟨_, rfl⟩
    · split <;> exact ⟨_, rfl⟩
  · cases he; exact ⟨_, rfl⟩
  · cases he; exact ⟨_, rfl⟩
  · split at he
    · simp only [Hub.receive] at he
      split at he <;> cases he <;> exact ⟨_, rfl⟩
    · cases he
  · split at he
    · obtain ⟨c, -, rfl⟩ := Option.map_eq_some_iff.mp he
      exact ⟨_, (Function.update_eq_self r h.subscriber).symm⟩
    · cases he
  · split at he <;> cases he
    exact ⟨_, rfl⟩
  · split at he <;> cases he
    exact ⟨_, rfl⟩
  · split at he <;> cases he <;> exact ⟨_, rfl⟩
  · split at he <;> cases he
    simp only [Hub.callUnsub]
    split
    · exact ⟨_, (Function.update_eq_self r h.subscriber).symm⟩
    · exact ⟨_, rfl⟩
  · cases he

theorem finished_setCaller {g : Hub Msg} (caller : Option Nat) (pc : SubscriberPc Msg)
    (hpc : pc.finished = true) (hr : (g.subscriber r).finished = true) :
    ((g.setCaller caller pc).subscriber r).finished = true := by
  cases caller with
  | none => exact hr
  | some q =>
    simp only [Hub.setCaller, Hub.setSubscriber, Function.update_apply]
    split
    · exact hpc
    · exact hr

theorem subscriber_step {a : HubAct Msg} (he : h.step sniff a = some k) (r : Nat)
    (hr : (h.subscriber r).finished = true) : (k.subscriber r).finished = true := by
  cases a with
  | publisher q a =>
    rw [(sameSubscribers_stepPublisher he).subscriber]
    exact hr
  | subscriber q a =>
    obtain ⟨pc, hk⟩ := subscriber_stepSubscriber he
    have hne : r ≠ q := by
      rintro rfl
      simp only [Hub.step, Hub.stepSubscriber] at he
      cases hpc : h.subscriber r <;>
        simp only [hpc, SubscriberPc.finished, reduceCtorEq, Bool.false_eq_true] at hr he
    rw [hk, Function.update_of_ne hne]
    exact hr
  | unsub s =>
    simp only [Hub.step] at he
    split at he <;> cases he
    simp only [Hub.callUnsub]
    split
    · exact hr
    · exact hr
  | unlock =>
    simp only [Hub.step, Hub.stepUnlock] at he
    split at he
    · cases he
      exact hr
    · split at he <;> cases he
      · exact finished_setCaller _ _ rfl hr
      · exact hr
    · cases he
      exact finished_setCaller _ _ rfl hr
    · cases he

theorem publisher_idle {a : HubAct Msg} (he : h.step sniff a = some k) (r : Nat)
    (hr : k.publisher r ≠ .idle) : h.publisher r ≠ .idle ∨ ∃ b, a = .publisher r b := by
  cases a with
  | subscriber q a =>
    rw [(samePublishers_stepSubscriber he).publisher] at hr
    exact .inl hr
  | unsub s =>
    simp only [Hub.step] at he
    split at he <;> cases he
    rw [(samePublishers_callUnsub h s none).publisher] at hr
    exact .inl hr
  | unlock =>
    rw [(samePublishers_stepUnlock he).publisher] at hr
    exact .inl hr
  | publisher q a =>
    by_cases hrq : r = q
    · exact .inr ⟨a, hrq ▸ rfl⟩
    · obtain ⟨pc, hk, -⟩ := publisher_stepPublisher he
      rw [hk, Function.update_of_ne hrq] at hr
      exact .inl hr

theorem subscriber_idle (hm : Members h) {a : HubAct Msg} (he : h.step sniff a = some k) (r : Nat)
    (hr : k.subscriber r ≠ .idle) : h.subscriber r ≠ .idle ∨ ∃ b, a = .subscriber r b := by
  have hcaller : ∀ (g : Hub Msg) s p c pc, g.subscriber = h.subscriber →
      h.ch.mu = .unsub s p c → k = g.setCaller c pc → h.subscriber r ≠ .idle := by
    rintro g s p c pc hg hmu rfl
    cases c with
    | none =>
      rw [Hub.setCaller, hg] at hr
      exact hr
    | some q =>
      by_cases hrq : r = q
      · subst hrq
        rw [hm.caller s p r hmu]
        nofun
      · rw [Hub.setCaller, setSubscriber_subscriber, hg, Function.update_of_ne hrq] at hr
        exact hr
  cases a with
  | publisher q a =>
    rw [(sameSubscribers_stepPublisher he).subscriber] at hr
    exact .inl hr
  | subscriber q a =>
    by_cases hrq : r = q
    · exact .inr ⟨a, hrq ▸ rfl⟩
    · obtain ⟨pc, hk⟩ := subscriber_stepSubscriber he
      rw [hk, Function.update_of_ne hrq] at hr
      exact .inl hr
  | unsub s =>
    simp only [Hub.step] at he
    split at he <;> cases he
    simp only [Hub.callUnsub] at hr
    split at hr <;> exact .inl hr
  | unlock =>
    simp only [Hub.step, Hub.stepUnlock] at he
    split at he
    · cases he
      exact .inl hr
    · next hmu =>
      split at he <;> cases he
      · exact .inl (hcaller { h with ch.mu := .abandoned } _ _ _ _ rfl hmu rfl)
      · exact .inl hr
    · next hmu =>
      cases he
      exact .inl (hcaller { h with ch.mu := .unlocked } _ _ _ _ rfl hmu rfl)
    · cases he

/-- The subscribers of a hub whose `unsub` only the handlers call. -/
structure Attended (h : Hub Msg) : Prop where
  attended : ∀ s ∈ h.ch.subs, ∃ r, (h.subscriber r).sub = some s
  present : ∀ r s, (h.subscriber r).sub = some s →
    s ∈ h.ch.subs ∨ ∃ p, h.ch.mu = .unsub s p (some r)
  called : ∀ s p c, h.ch.mu = .unsub s p c → ∃ r, c = some r

theorem Attended.congr (ha : Attended h) (hsubs : k.ch.subs = h.ch.subs) (hmu : k.ch.mu = h.ch.mu)
    (hsub : ∀ r, (k.subscriber r).sub = (h.subscriber r).sub) : Attended k := by
  refine ⟨?_, ?_, ?_⟩
  · intro s hs
    rw [hsubs] at hs
    obtain ⟨r, hr⟩ := ha.attended s hs
    exact ⟨r, (hsub r).trans hr⟩
  · intro r s hr
    rw [hsubs, hmu]
    exact ha.present r s ((hsub r).symm.trans hr)
  · rw [hmu]
    exact ha.called

theorem sub_update (hpc : pc.sub = (h.subscriber r).sub) (q : Nat) :
    (Function.update h.subscriber r pc q).sub = (h.subscriber q).sub := by
  rw [Function.update_apply]
  split
  · next hq => rw [hq, hpc]
  · rfl

theorem Attended.subscribe (ha : Attended h) (hm : Members h) (hidle : h.subscriber r = .idle) :
    Attended (h.subscribe r) := by
  simp only [Hub.subscribe]
  split
  · exact ha.congr rfl rfl (sub_update (h := h) (by rw [hidle]; rfl))
  · rw [make_eq hm]
    refine ⟨?_, ?_, ?_⟩
    · intro s hs
      simp only [Hub.setSubscriber, Finset.mem_insert] at hs ⊢
      obtain rfl | hs := hs
      · exact ⟨r, by rw [Function.update_self]; rfl⟩
      · obtain ⟨q, hq⟩ := ha.attended s hs
        refine ⟨q, ?_⟩
        rw [Function.update_of_ne]
        · exact hq
        · rintro rfl
          rw [hidle] at hq
          cases hq
    · intro q s hq
      simp only [Hub.setSubscriber] at hq ⊢
      by_cases hqr : q = r
      · subst hqr
        rw [Function.update_self] at hq
        cases hq
        exact .inl (Finset.mem_insert_self ..)
      · rw [Function.update_of_ne hqr] at hq
        exact (ha.present q s hq).imp Finset.mem_insert_of_mem id
    · exact ha.called

theorem Attended.callUnsub (ha : Attended h) (hm : Members h) (hmu : h.ch.mu = .unlocked)
    (hr : h.subscriber r = .unsub s) : Attended (h.callUnsub s (some r)) := by
  have hsub : (h.subscriber r).sub = some s := by
    rw [hr]
    rfl
  have hs : s ∈ h.ch.subs := by
    obtain hs | ⟨p, hp⟩ := ha.present r s hsub
    · exact hs
    · rw [hmu] at hp
      cases hp
  rw [Hub.callUnsub, if_pos hs]
  refine ⟨?_, ?_, ?_⟩
  · intro t ht
    exact ha.attended t (Finset.mem_of_mem_erase ht)
  · intro q t hq
    by_cases hts : t = s
    · subst hts
      exact .inr ⟨.deleted, by rw [hm.owner r q t hsub hq]⟩
    · obtain ht | ⟨p, hp⟩ := ha.present q t hq
      · exact .inl (Finset.mem_erase.mpr ⟨hts, ht⟩)
      · rw [hmu] at hp
        cases hp
  · rintro t p c ⟨⟩
    exact ⟨r, rfl⟩

theorem Attended.stepUnlock (ha : Attended h) (hm : Members h) (he : h.stepUnlock = some k) :
    Attended k := by
  have hphase : ∀ s p q c, h.ch.mu = .unsub s p c → k.ch.mu = .unsub s q c →
      k.ch.subs = h.ch.subs → k.subscriber = h.subscriber → Attended k := by
    intro s p q c hmu hk hsubs hsub
    refine ⟨?_, ?_, ?_⟩
    · rw [hsubs, hsub]
      exact ha.attended
    · intro r t hr
      rw [hsub] at hr
      rw [hsubs, hk]
      refine (ha.present r t hr).imp id ?_
      rintro ⟨p', hp⟩
      rw [hmu] at hp
      cases hp
      exact ⟨q, rfl⟩
    · intro t p' c' hc
      rw [hk] at hc
      cases hc
      exact ha.called s p c hmu
  simp only [Hub.stepUnlock] at he
  split at he
  · next s c hmu =>
    cases he
    exact hphase s _ .flagged c hmu rfl rfl rfl
  · next s c hmu =>
    have hopen : (h.heap s).send.closed = false := by
      rw [hm.chan s, hmu]
      simp [Mutex.unclosed]
    split at he <;> cases he
    · next hc =>
      rw [Go.Chan.close_eq_none.mp hc] at hopen
      cases hopen
    · exact hphase s _ .closed c hmu rfl rfl rfl
  · next s c hmu =>
    cases he
    obtain ⟨r, rfl⟩ := ha.called s _ c hmu
    have hr : (h.subscriber r).sub = some s := by
      rw [hm.caller s _ r hmu]
      rfl
    have hs : s ∉ h.ch.subs := fun hs => ((hm.mem s).mp hs).2 (hm.leaving s _ _ hmu)
    simp only [Hub.setCaller, Hub.setSubscriber]
    refine ⟨?_, ?_, by simp⟩
    · intro t ht
      obtain ⟨q, hq⟩ := ha.attended t ht
      have hqr : q ≠ r := by
        rintro rfl
        rw [hr] at hq
        cases hq
        exact hs ht
      exact ⟨q, (congrArg _ (Function.update_of_ne hqr ..)).trans hq⟩
    · intro q t hq
      change (Function.update h.subscriber r .returned q).sub = some t at hq
      by_cases hqr : q = r
      · subst hqr
        rw [Function.update_self] at hq
        cases hq
      · rw [Function.update_of_ne hqr] at hq
        refine (ha.present q t hq).imp id ?_
        rintro ⟨p, hp⟩
        rw [hmu] at hp
        cases hp
        exact absurd rfl hqr
  · cases he

theorem Attended.stepSubscriber (ha : Attended h) (hm : Members h) {a : SubscriberAct}
    (he : h.stepSubscriber r a = some k) : Attended k := by
  simp only [Hub.stepSubscriber] at he
  split at he
  · next hpc =>
    split at he <;> cases he
    exact ha.subscribe hm hpc
  · next ok hpc =>
    cases he
    exact ha.congr rfl rfl (sub_update (h := h) (by rw [hpc]; cases ok <;> rfl))
  · next ok hpc =>
    cases he
    exact ha.congr rfl rfl (sub_update (h := h) (by rw [hpc]; cases ok <;> rfl))
  · next hpc =>
    split at he
    · simp only [Hub.receive] at he
      split at he <;> cases he <;> exact ha.congr rfl rfl (sub_update (h := h) (by rw [hpc]; rfl))
    · cases he
  · split at he
    · obtain ⟨c, -, rfl⟩ := Option.map_eq_some_iff.mp he
      exact ha.congr rfl rfl (fun _ => rfl)
    · cases he
  · next hpc =>
    split at he <;> cases he
    next v _ => exact ha.congr rfl rfl (sub_update (h := h) (by rw [hpc]; cases v <;> rfl))
  · next hpc =>
    split at he <;> cases he
    exact ha.congr rfl rfl (sub_update (h := h) (by rw [hpc]; rfl))
  · next hpc =>
    split at he <;> cases he <;> exact ha.congr rfl rfl (sub_update (h := h) (by rw [hpc]; rfl))
  · next hpc =>
    split at he <;> cases he
    next hmu => exact ha.callUnsub hm hmu hpc
  · cases he

theorem Attended.step (ha : Attended h) (hm : Members h) {a : HubAct Msg}
    (hg : a.ofHandler = true) (he : h.step sniff a = some k) : Attended k := by
  cases a with
  | publisher r a =>
    have e := sameSubscribers_stepPublisher he
    exact ha.congr e.subs e.mu (fun r => by rw [e.subscriber])
  | subscriber r a => exact ha.stepSubscriber hm he
  | unsub s => cases hg
  | unlock => exact ha.stepUnlock hm he

/-- With a negative buffer size every `Subscribe` that is not refused panics. -/
theorem no_sub_step (hb : h.ch.sendBuf < 0) (hn : ∀ r, (h.subscriber r).sub = none)
    {a : HubAct Msg} (he : h.step sniff a = some k) (r : Nat) : (k.subscriber r).sub = none := by
  have hset : ∀ q pc, pc.sub = none → (Function.update h.subscriber q pc r).sub = none := by
    intro q pc hpc
    rw [Function.update_apply]
    split
    · exact hpc
    · exact hn r
  have hcaller : ∀ (g : Hub Msg) c pc, g.subscriber = h.subscriber → pc.sub = none →
      ((g.setCaller c pc).subscriber r).sub = none := by
    intro g c pc hg hpc
    cases c with
    | none => rw [Hub.setCaller, hg]; exact hn r
    | some q => rw [Hub.setCaller, Hub.setSubscriber, hg]; exact hset q pc hpc
  cases a with
  | publisher q a =>
    rw [(sameSubscribers_stepPublisher he).subscriber]
    exact hn r
  | subscriber q a =>
    have hq := hn q
    simp only [Hub.step, Hub.stepSubscriber] at he
    cases hpc : h.subscriber q <;>
      simp only [hpc, SubscriberPc.sub, reduceCtorEq] at hq he
    cases a <;> simp only [reduceCtorEq] at he
    split at he <;> cases he
    simp only [Hub.subscribe, Go.Chan.make, if_pos hb]
    split <;> exact hset q _ rfl
  | unsub s =>
    simp only [Hub.step] at he
    split at he <;> cases he
    simp only [Hub.callUnsub]
    split <;> exact hn r
  | unlock =>
    simp only [Hub.step, Hub.stepUnlock] at he
    split at he
    · cases he
      exact hn r
    · split at he <;> cases he
      · exact hcaller _ _ _ rfl rfl
      · exact hn r
    · cases he
      exact hcaller _ _ _ rfl rfl
    · cases he

/-- The runs of a hub in the server. -/
def Serves (sniff : Msg → Bool) (name : String) (maxSubs sendBuf : Int) (h : Hub Msg) : Prop :=
  (hub sniff name maxSubs sendBuf).Reaches (fun _ a => a.ofHandler = true) h

theorem Serves.limits (hr : Serves sniff name maxSubs sendBuf h) :
    h.ch.limits = (name, maxSubs, sendBuf) :=
  hr.invariant (P := fun h : Hub Msg => h.ch.limits = (name, maxSubs, sendBuf)) rfl
    (fun _ _ _ hl _ he => (limits_step he).trans hl)

theorem Serves.attended (hb : 0 ≤ sendBuf) (hr : Serves sniff name maxSubs sendBuf h) :
    Members h ∧ Attended h := by
  refine hr.invariant (P := fun h : Hub Msg => Members h ∧ Attended h) ?_ ?_
  · exact ⟨members_fresh name maxSubs hb, ⟨nofun, nofun, nofun⟩⟩
  · rintro s a t ⟨hm, ha⟩ hg he
    exact ⟨hm.step he, ha.step hm hg he⟩

theorem Serves.no_sub (hb : sendBuf < 0) (hr : Serves sniff name maxSubs sendBuf h) (r : Nat) :
    (h.subscriber r).sub = none := by
  have hall : h.ch.limits = (name, maxSubs, sendBuf) ∧ ∀ r, (h.subscriber r).sub = none := by
    refine hr.invariant (P := fun h : Hub Msg =>
      h.ch.limits = (name, maxSubs, sendBuf) ∧ ∀ r, (h.subscriber r).sub = none) ?_ ?_
    · exact ⟨rfl, fun _ => rfl⟩
    · rintro s a t ⟨hl, hn⟩ - he
      have hbuf : s.ch.sendBuf < 0 := by
        rw [show s.ch.sendBuf = sendBuf from congrArg (fun p => p.2.2) hl]
        exact hb
      exact ⟨(limits_step he).trans hl, no_sub_step hbuf hn he⟩
  exact hall.2 r

end Hub

end StreamMix.Relay
