import StreamMix.Relay.Answers

/-! The relay blocks an address for tokens that requests of that address got wrong. -/

namespace StreamMix.Relay

open GoTime (Time)
open Wire (Bytes)

namespace AuthEntry

/-- At most `n` failures are counted, and a ban is for as many as the threshold asks for. -/
structure Earned (threshold : Int) (n : Nat) (e : AuthEntry) : Prop where
  positive : 1 ≤ e.count
  count : e.count ≤ n
  ban : e.bannedUntilMS ≠ 0 → max 2 threshold ≤ e.count

variable {threshold : Int} {x : Option AuthEntry}

theorem Earned.mono {e : AuthEntry} (h : Earned threshold n e) (hn : n ≤ m) :
    Earned threshold m e := ⟨h.positive, h.count.trans hn, h.ban⟩

theorem earned_fail (h : ∀ e, x = some e → Earned threshold n e) (windowMS cooldownMS nowMS : Int) :
    Earned threshold (n + 1) (fail threshold windowMS cooldownMS nowMS x) := by
  have hopened : Earned threshold (n + 1) (opened nowMS) :=
    ⟨Nat.le_refl 1, Nat.le_add_left 1 n, fun hban => absurd rfl hban⟩
  cases x with
  | none => exact hopened
  | some e =>
    obtain ⟨hpos, hcount, hban⟩ := h e rfl
    simp only [fail]
    split_ifs
    · exact hopened
    · refine ⟨Nat.le_add_left 1 e.count, Nat.add_le_add_right hcount 1, ?_⟩
      simp only [counted, ne_eq]
      intro hne
      split_ifs at hne with hfull
      · have : (2 : Int) ≤ e.count + 1 := by omega
        exact max_le (by omega) (by omega)
      · exact (hban hne).trans (by omega)

/-- Asking adds no entry, and refuses for a ban. -/
theorem ask_entry (h : (ask nowMS x).2 = some e) : x = some e := by
  cases x with
  | none => cases h
  | some e' =>
    simp only [ask] at h
    split_ifs at h
    · exact h
    · exact h

theorem ask_refuses (h : (ask nowMS x).1 = false) : ∃ e, x = some e ∧ e.bannedUntilMS ≠ 0 := by
  cases x with
  | none => cases h
  | some e =>
    simp only [ask] at h
    split_ifs at h with hban
    exact ⟨e, rfl, hban.1⟩

end AuthEntry

/-- The requests of an address whose refused token the limiter has recorded. -/
def failures (hmac : Bytes → Bytes → Bytes) (secret : Bytes) (as : List HandlerAct)
    (ip : List UInt8) : Set Nat :=
  {r | ∃ q now, Asked as r q ∧ q.ip = ip ∧ Refuses hmac secret as r q ∧
    .recordFailure r now ∈ as}

def HandlerAct.recorded : HandlerAct → Option Nat
  | .recordFailure r _ => some r
  | _ => none

def Publish.turnedAway : Publish → Bool
  | .blocked => true
  | .answered status => status == statusTooManyRequests
  | _ => false

theorem finite_failures (hmac : Bytes → Bytes → Bytes) (secret : Bytes) (as : List HandlerAct)
    (ip : List UInt8) : (failures hmac secret as ip).Finite := by
  refine (List.finite_toSet (as.filterMap HandlerAct.recorded)).subset ?_
  rintro r ⟨q, now, -, -, -, hmem⟩
  exact List.mem_filterMap.mpr ⟨_, hmem, rfl⟩

theorem failures_mono {as bs : List HandlerAct} (hsub : as ⊆ bs) (ip : List UInt8) :
    failures hmac secret as ip ⊆ failures hmac secret bs ip := by
  rintro r ⟨q, now, hasked, hip, hrefused, hmem⟩
  exact ⟨q, now, hasked.mono hsub, hip, hrefused.mono hsub, hsub hmem⟩

theorem card_failures_mono {as bs : List HandlerAct} (hsub : as ⊆ bs) (ip : List UInt8) :
    (failures hmac secret as ip).ncard ≤ (failures hmac secret bs ip).ncard :=
  Set.ncard_le_ncard (failures_mono hsub ip) (finite_failures ..)

namespace Gate

variable {s g : Gate}

/-- The limiter of a step that is no `RecordFailure`. -/
theorem limiter_step {b : GateAct} (hg : s.step hmac secret b = some g)
    (hnot : ∀ q now, b ≠ .recordFailure q now) :
    g.limiter.threshold = s.limiter.threshold ∧
      ∀ ip e, g.limiter.entries ip = some e → s.limiter.entries ip = some e := by
  have hset : ∀ (jp : List UInt8) x, (∀ e, x = some e → s.limiter.entries jp = some e) →
      ∀ ip e, (s.limiter.set jp x).entries ip = some e → s.limiter.entries ip = some e := by
    intro jp x hx ip e he
    rw [FailedAuthLimiter.entries_set, Function.update_apply] at he
    split_ifs at he with hip
    · exact hip ▸ hx e he
    · exact he
  cases b with
  | allowed q now =>
    simp only [step] at hg
    split_ifs at hg
    cases hg
    rw [limiter_allowed, FailedAuthLimiter.allowed_eq]
    exact ⟨rfl, hset _ _ (fun _ => AuthEntry.ask_entry)⟩
  | verify q now =>
    simp only [step] at hg
    split_ifs at hg
    cases hg
    rw [(s.verify_limiter q hmac secret now).1]
    exact ⟨rfl, fun _ _ => id⟩
  | recordFailure q now => exact absurd rfl (hnot q now)
  | recordSuccess q =>
    simp only [step] at hg
    split_ifs at hg
    cases hg
    exact ⟨rfl, hset _ none (by simp)⟩

theorem limiter_recordFailure (hg : s.step hmac secret (.recordFailure q now) = some g) :
    g.limiter = s.limiter.recordFailure q.ip now := by
  simp only [step] at hg
  split_ifs at hg
  cases hg
  rfl

end Gate

namespace RelayServer

variable {hmac : Bytes → Bytes → Bytes} {secret : Bytes} {lim : Limits} {y z : RelayServer}
  {as : List HandlerAct} {threshold : Int}

structure Suspected (hmac : Bytes → Bytes → Bytes) (secret : Bytes) (threshold : Int)
    (as : List HandlerAct) (y : RelayServer) : Prop where
  answered : Answered hmac secret as y
  limit : y.gate.limiter.threshold = threshold
  recorded : ∀ r now, .recordFailure r now ∈ as → y.publish r = .answered statusUnauthorized
  entries : ∀ ip e, y.gate.limiter.entries ip = some e →
    e.Earned threshold (failures hmac secret as ip).ncard
  earned : ∀ r, (y.publish r).turnedAway = true →
    ∃ q, Asked as r q ∧ max 2 threshold ≤ ((failures hmac secret as q.ip).ncard : Int)

/-- An answer is the last that a handler does. -/
theorem answered_stays (he : y.step hmac secret lim a = some z)
    (hr : y.publish r = .answered status) : z.publish r = .answered status := by
  have hset : ∀ (w : RelayServer) p s, w.publish = y.publish →
      (∀ status, y.publish s ≠ .answered status) →
      (w.setPublish s p).publish r = .answered status := by
    intro w p s hw hs
    have hne : r ≠ s := by
      rintro rfl
      exact hs status hr
    rw [setPublish, hw]
    exact (Function.update_of_ne hne ..).trans hr
  cases moves_of_step he with
  | allowed hp | countBlocked hp | bad hp | reject hp | accept hp | countFailure hp
  | recordFailure hp | recordSuccess hp | refuse hp =>
    exact hset _ _ _ rfl (by simp [hp])
  | relay =>
    rw [settle_publish]
    exact hr
  | countPacket | countBytes => exact hr

/-- A step that is no `RecordFailure`. -/
theorem Suspected.keep (h : Suspected hmac secret threshold as y)
    (he : y.step hmac secret lim a = some z) (hnot : ∀ r now, a ≠ .recordFailure r now)
    (hg : z.gate.limiter.threshold = y.gate.limiter.threshold ∧
      ∀ ip e, z.gate.limiter.entries ip = some e → y.gate.limiter.entries ip = some e)
    (haway : ∀ r, (z.publish r).turnedAway = true → (y.publish r).turnedAway = true ∨
      ∃ q, Asked (a :: as) r q ∧ max 2 threshold ≤ ((failures hmac secret as q.ip).ncard : Int)) :
    Suspected hmac secret threshold (a :: as) z where
  answered := h.answered.step he
  limit := hg.1.trans h.limit
  recorded := by
    intro r now hmem
    obtain heq | hmem := List.mem_cons.mp hmem
    · exact absurd heq.symm (hnot r now)
    · exact answered_stays he (h.recorded r now hmem)
  entries ip e hentry := (h.entries ip e (hg.2 ip e hentry)).mono
    (card_failures_mono (List.subset_cons_self ..) ip)
  earned := by
    intro r hr
    have hmono : ∀ ip, ((failures hmac secret as ip).ncard : Int) ≤
        (failures hmac secret (a :: as) ip).ncard := fun ip =>
      Int.ofNat_le.mpr (card_failures_mono (List.subset_cons_self ..) ip)
    obtain hold | ⟨q, hasked, hmany⟩ := haway r hr
    · obtain ⟨q, hasked, hmany⟩ := h.earned r hold
      exact ⟨q, hasked.mono (List.subset_cons_self ..), hmany.trans (hmono q.ip)⟩
    · exact ⟨q, hasked, hmany.trans (hmono q.ip)⟩

theorem Suspected.recordFailure (h : Suspected hmac secret threshold as y)
    (he : y.step hmac secret lim (.recordFailure r now) = some z) (hp : y.publish r = .failed q)
    (hg : z.gate.limiter = y.gate.limiter.recordFailure q.ip now)
    (hz : z.publish = Function.update y.publish r (.answered statusUnauthorized)) :
    Suspected hmac secret threshold (.recordFailure r now :: as) z := by
  have hsub : as ⊆ .recordFailure r now :: as := List.subset_cons_self ..
  have hfailed : Asked as r q ∧ Refuses hmac secret as r q := by
    have hbacked := h.answered.backed r
    rw [hp] at hbacked
    exact hbacked
  have hnew : r ∉ failures hmac secret as q.ip := by
    rintro ⟨_, _, -, -, -, hmem⟩
    have hdone := h.recorded r _ hmem
    rw [hp] at hdone
    cases hdone
  -- The request itself is the failure that its record counts.
  have hmore : (failures hmac secret as q.ip).ncard + 1 ≤
      (failures hmac secret (.recordFailure r now :: as) q.ip).ncard := by
    rw [← Set.ncard_insert_of_notMem hnew (finite_failures ..)]
    refine Set.ncard_le_ncard (Set.insert_subset ?_ (failures_mono hsub _)) (finite_failures ..)
    exact ⟨q, now, hfailed.1.mono hsub, rfl, hfailed.2.mono hsub, List.mem_cons_self⟩
  refine ⟨h.answered.step he, ?_, ?_, ?_, ?_⟩
  · rw [hg, FailedAuthLimiter.recordFailure_eq]
    exact h.limit
  · intro s t hmem
    obtain heq | hmem := List.mem_cons.mp hmem
    · obtain ⟨rfl, -⟩ := HandlerAct.recordFailure.inj heq
      rw [hz, Function.update_self]
    · exact answered_stays he (h.recorded s t hmem)
  · intro ip e hentry
    rw [hg, FailedAuthLimiter.recordFailure_eq, FailedAuthLimiter.entries_set,
      Function.update_apply] at hentry
    split_ifs at hentry with hip
    · cases hentry
      rw [hip, FailedAuthLimiter.failed, h.limit]
      exact (AuthEntry.earned_fail (h.entries q.ip) ..).mono hmore
    · exact (h.entries ip e hentry).mono (card_failures_mono hsub ip)
  · intro s hs
    have hold : (y.publish s).turnedAway = true := by
      rw [hz, Function.update_apply] at hs
      split_ifs at hs
      · cases hs
      · exact hs
    obtain ⟨p, hasked, hmany⟩ := h.earned s hold
    exact ⟨p, hasked.mono hsub, hmany.trans (Int.ofNat_le.mpr (card_failures_mono hsub p.ip))⟩

theorem Suspected.step (h : Suspected hmac secret threshold as y)
    (he : y.step hmac secret lim a = some z) : Suspected hmac secret threshold (a :: as) z := by
  have hquiet : ∀ (w : RelayServer) p r, w.publish = Function.update y.publish r p →
      p.turnedAway = false → ∀ x, (w.publish x).turnedAway = true →
        (y.publish x).turnedAway = true ∨ ∃ q, Asked (a :: as) x q ∧
          max 2 threshold ≤ ((failures hmac secret as q.ip).ncard : Int) := by
    intro w p r hw hp x hx
    rw [hw, Function.update_apply] at hx
    split_ifs at hx
    · rw [hp] at hx
      cases hx
    · exact .inl hx
  have hsame : y.gate.limiter.threshold = y.gate.limiter.threshold ∧
      ∀ ip e, y.gate.limiter.entries ip = some e → y.gate.limiter.entries ip = some e :=
    ⟨rfl, fun _ _ => id⟩
  cases moves_of_step he with
  | @allowed r q now g hp hw hg =>
    refine h.keep he nofun (Gate.limiter_step hg nofun) ?_
    intro x hx
    simp only [setPublish, Function.update_apply] at hx
    split_ifs at hx with hr hok
    · cases hx
    · have hask : (AuthEntry.ask (unixMilli now) (y.gate.limiter.entries q.ip)).1 = false := by
        simpa [FailedAuthLimiter.allowed_eq] using hok
      obtain ⟨e, hentry, hban⟩ := AuthEntry.ask_refuses hask
      have hearned := h.entries q.ip e hentry
      refine .inr ⟨q, ⟨now, hr ▸ List.mem_cons_self⟩, ?_⟩
      exact (hearned.ban hban).trans (Int.ofNat_le.mpr hearned.count)
    · exact .inl hx
  | @countBlocked r hp =>
    refine h.keep he nofun hsame ?_
    intro x hx
    simp only [setPublish, Function.update_apply] at hx
    split_ifs at hx with hr
    · rw [hr, hp]
      exact .inl rfl
    · exact .inl hx
  | bad _ hg | reject _ hg | accept _ hg =>
    exact h.keep he nofun (Gate.limiter_step hg nofun) (hquiet _ _ _ rfl rfl)
  | recordSuccess _ hg =>
    exact h.keep he nofun (Gate.limiter_step hg nofun) (hquiet _ _ _ rfl rfl)
  | countFailure => exact h.keep he nofun hsame (hquiet _ _ _ rfl rfl)
  | recordFailure hp hg => exact h.recordFailure he hp (Gate.limiter_recordFailure hg) rfl
  | refuse => exact h.keep he nofun hsame (hquiet _ _ _ rfl rfl)
  | @relay a R ha hR =>
    have hgate : (y.settle R a).gate = y.gate := settle_gate y R a
    refine h.keep he nofun (hgate ▸ hsame) ?_
    intro x hx
    rw [settle_publish] at hx
    exact .inl hx
  | countPacket | countBytes => exact h.keep he nofun hsame (fun _ hx => .inl hx)

/-- In every run: a request is blocked only when at least two requests of its address, and as many
as the threshold asks for, have had their token refused and recorded. -/
theorem blocked_for_failures
    (hrun : (relayServer hmac secret lim threshold window cooldown start).run
      (relayServer hmac secret lim threshold window cooldown start).init as = some y)
    (hr : y.publish r = .blocked ∨ y.publish r = .answered statusTooManyRequests) :
    ∃ q, Asked as r q ∧ (failures hmac secret as q.ip).Finite ∧
      max 2 threshold ≤ ((failures hmac secret as q.ip).ncard : Int) := by
  have h : Suspected hmac secret threshold as.reverse y := by
    refine Machine.run_invariant (P := Suspected hmac secret threshold) ?_ ?_ hrun
    · exact ⟨answered_init, rfl, nofun, nofun, nofun⟩
    · exact fun _ _ _ _ h he => h.step he
  have haway : (y.publish r).turnedAway = true := by
    obtain hr | hr := hr <;> rw [hr] <;> rfl
  have hsub : as.reverse ⊆ as := (List.reverse_perm as).subset
  obtain ⟨q, hasked, hmany⟩ := h.earned r haway
  exact ⟨q, hasked.mono hsub, finite_failures ..,
    hmany.trans (Int.ofNat_le.mpr (card_failures_mono hsub q.ip))⟩

theorem blocked_for_failures_denied : ∃ y,
    (relayServer minuteHmac [0x73] Server.fewLimits 2 60000000000 300000000000 0).run
      (relayServer minuteHmac [0x73] Server.fewLimits 2 60000000000 300000000000 0).init
        deniedRun = some y ∧
    ∃ q, Asked deniedRun 3 q ∧ (failures minuteHmac [0x73] deniedRun q.ip).Finite ∧
      max 2 2 ≤ ((failures minuteHmac [0x73] deniedRun q.ip).ncard : Int) := by
  have hrun : ((relayServer minuteHmac [0x73] Server.fewLimits 2 60000000000 300000000000 0).run
      (relayServer minuteHmac [0x73] Server.fewLimits 2 60000000000 300000000000 0).init
        deniedRun).any (fun y => y.publish 3 = .answered statusTooManyRequests) = true := by
    decide +kernel
  obtain ⟨y, hy, hblocked⟩ := (Option.any_eq_true _ _).mp hrun
  exact ⟨y, hy, blocked_for_failures hy (.inr (of_decide_eq_true hblocked))⟩

end RelayServer

end StreamMix.Relay
