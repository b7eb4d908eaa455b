import StreamMix.Relay.Gate

/-! Guesses in parallel.  A request that is past `Allowed` is verified whatever the others
record, so the limiter stands by its threshold up to the requests in flight. -/

namespace StreamMix.Relay

open GoTime (Time)
open Wire (Bytes)

/-- The account of one address: its entry, its requests before the verification and before the
record, the verifications since its window opened, and the most requests in flight. -/
structure Accounted (threshold : Int) (e : Option AuthEntry) (admitted failed verifications
    peak : Nat) : Prop where
  flight : admitted + failed ≤ peak
  counted : ∀ x ∈ e, verifications + 1 ≤ x.count + failed
  free : ∀ x ∈ e, x.bannedUntilMS = 0 → x.count < max threshold 2
  banned : ∀ x ∈ e, x.bannedUntilMS ≠ 0 →
    x.count + admitted + failed + 1 ≤ max threshold 2 + peak

namespace Accounted

variable {threshold : Int} {e : Option AuthEntry} {admitted failed verifications peak : Nat}

theorem bound (h : Accounted threshold (some x) admitted failed verifications peak) :
    verifications + 2 ≤ max threshold 2 + peak := by
  have hflight := h.flight
  have hcounted := h.counted x rfl
  by_cases h0 : x.bannedUntilMS = 0
  · have hfree := h.free x rfl h0
    omega
  · have hbanned := h.banned x rfl h0
    omega

/-- The verdict on a request, and the request in flight if it is good. -/
theorem ask (h : Accounted threshold e admitted failed verifications peak) (nowMS : Int) :
    if (AuthEntry.ask nowMS e).1 then
      Accounted threshold (AuthEntry.ask nowMS e).2 (admitted + 1) failed verifications
        (Nat.max peak (admitted + failed + 1))
    else Accounted threshold (AuthEntry.ask nowMS e).2 admitted failed verifications peak := by
  have hpeak : admitted + 1 + failed ≤ Nat.max peak (admitted + failed + 1) := by
    apply Nat.le_trans _ (Nat.le_max_right _ _)
    omega
  have hnone : Accounted threshold none (admitted + 1) failed verifications
      (Nat.max peak (admitted + failed + 1)) := ⟨hpeak, nofun, nofun, nofun⟩
  cases e with
  | none => exact hnone
  | some x =>
    rcases x.standing nowMS with hban | hfree | ⟨hne, hover⟩
    · rw [AuthEntry.ask_banned hban]
      exact h
    · rw [AuthEntry.ask_free hfree]
      refine ⟨hpeak, h.counted, h.free, ?_⟩
      rintro _ ⟨⟩ hne
      exact absurd hfree hne
    · rw [AuthEntry.ask_over hne hover]
      exact hnone

theorem refuse (h : Accounted threshold e (admitted + 1) failed verifications peak) :
    Accounted threshold e admitted failed verifications peak where
  flight := by
    have hflight := h.flight
    omega
  counted := h.counted
  free := h.free
  banned x hx hne := by
    have hbanned := h.banned x hx hne
    omega

theorem verify (h : Accounted threshold e (admitted + 1) failed verifications peak) :
    Accounted threshold e admitted (failed + 1) (verifications + 1) peak where
  flight := by
    have hflight := h.flight
    omega
  counted x hx := by
    have hcounted := h.counted x hx
    omega
  free := h.free
  banned x hx hne := by
    have hbanned := h.banned x hx hne
    omega

theorem opened (h : Accounted threshold e admitted (failed + 1) verifications peak) (nowMS : Int) :
    Accounted threshold (some (.opened nowMS)) admitted failed 0 peak where
  flight := by
    have hflight := h.flight
    omega
  counted := by
    rintro _ ⟨⟩
    simp [AuthEntry.opened]
  free := by
    rintro _ ⟨⟩ _
    simp [AuthEntry.opened]
  banned := by
    rintro _ ⟨⟩ hne
    exact absurd rfl hne

theorem record {x : AuthEntry}
    (h : Accounted threshold (some x) admitted (failed + 1) verifications peak)
    (hzero : x.count + 1 ≥ threshold → nowMS + cooldownMS ≠ 0) :
    Accounted threshold (some (x.counted threshold cooldownMS nowMS)) admitted failed
      verifications peak := by
  have hflight := h.flight
  have hcounted := h.counted x rfl
  have hfree := h.free x rfl
  have hbanned := h.banned x rfl
  refine ⟨by omega, ?_, ?_, ?_⟩
  · rintro _ ⟨⟩
    simp only [AuthEntry.counted]
    omega
  · rintro _ ⟨⟩
    simp only [AuthEntry.counted]
    split_ifs with hge
    · exact fun h0 => absurd h0 (hzero hge)
    · intro _
      push_cast
      omega
  · rintro _ ⟨⟩
    simp only [AuthEntry.counted]
    push_cast
    intro _
    by_cases h0 : x.bannedUntilMS = 0
    · have hfree := hfree h0
      omega
    · have hbanned := hbanned h0
      omega

end Accounted

namespace Gate

variable {s t : Gate} {q : PublishRequest}

theorem countIp_cons_self (q : PublishRequest) (qs : List PublishRequest) :
    countIp q.ip (q :: qs) = countIp q.ip qs + 1 :=
  List.countP_cons_of_pos (by simp)

theorem countIp_cons_ne (qs : List PublishRequest) (h : q.ip ≠ ip) :
    countIp ip (q :: qs) = countIp ip qs :=
  List.countP_cons_of_neg (by simpa using h)

theorem countIp_erase_self {qs : List PublishRequest} (h : q ∈ qs) :
    countIp q.ip (qs.erase q) + 1 = countIp q.ip qs := by
  rw [← countIp_cons_self]
  exact (List.perm_cons_erase h).symm.countP_eq _

theorem countIp_erase_ne (qs : List PublishRequest) (h : q.ip ≠ ip) :
    countIp ip (qs.erase q) = countIp ip qs := by
  by_cases hmem : q ∈ qs
  · rw [← countIp_cons_ne (qs.erase q) h]
    exact (List.perm_cons_erase hmem).symm.countP_eq _
  · rw [List.erase_of_not_mem hmem]

/-- Every token from the address is bad, and no ban ends at zero. -/
def Guessing (hmac : Bytes → Bytes → Bytes) (secret : Bytes) (ip : List UInt8) (s : Gate) :
    GateAct → Prop
  | .verify q now => q.ip = ip → verifyToken hmac secret q.channelID q.token now ≠ .ok ()
  | .recordFailure q now => q.ip = ip → 0 ∉ newBan s.limiter ip now
  | .allowed _ _ | .recordSuccess _ => True

instance (hmac : Bytes → Bytes → Bytes) (secret : Bytes) (ip : List UInt8) (s : Gate) :
    DecidablePred (Guessing hmac secret ip s)
  | .verify q now => inferInstanceAs (Decidable
      (q.ip = ip → verifyToken hmac secret q.channelID q.token now ≠ .ok ()))
  | .recordFailure q now => inferInstanceAs (Decidable (q.ip = ip → 0 ∉ newBan s.limiter ip now))
  | .allowed _ _ | .recordSuccess _ => .isTrue trivial

structure Sound (threshold : Int) (ip : List UInt8) (s : Gate) : Prop where
  limit : s.limiter.threshold = threshold
  clean : countIp ip s.verified = 0
  account : Accounted threshold (s.limiter.entries ip) (countIp ip s.admitted)
    (countIp ip s.failed) (s.sinceOpened ip) (s.peak ip)

theorem Sound.allowed (h : Sound threshold ip s) (q : PublishRequest) (now : Int) :
    Sound threshold ip (s.allowed q now) := by
  rcases eq_or_ne ip q.ip with rfl | hne
  · have hask := h.account.ask (unixMilli now)
    have hclean := h.clean
    simp only [Gate.allowed, FailedAuthLimiter.allowed_eq]
    split_ifs with hok
    · rw [if_pos hok] at hask
      refine ⟨h.limit, h.clean, ?_⟩
      simpa [enter, inFlight, countIp_cons_self, hclean] using hask
    · rw [if_neg hok] at hask
      refine ⟨h.limit, h.clean, ?_⟩
      simpa using hask
  · have haccount := h.account
    simp only [Gate.allowed, FailedAuthLimiter.allowed_eq]
    split_ifs
    · refine ⟨h.limit, h.clean, ?_⟩
      simpa [enter, countIp_cons_ne _ hne.symm, Function.update_of_ne hne] using haccount
    · refine ⟨h.limit, h.clean, ?_⟩
      simpa [Function.update_of_ne hne] using haccount

theorem Sound.verify (h : Sound threshold ip s) (hq : q ∈ s.admitted)
    (hbad : q.ip = ip → verifyToken hmac secret q.channelID q.token now ≠ .ok ()) :
    Sound threshold ip (s.verify hmac secret q now) := by
  have haccount := h.account
  rcases eq_or_ne ip q.ip with rfl | hne
  · rw [← countIp_erase_self hq] at haccount
    simp only [Gate.verify]
    split_ifs
    · exact ⟨h.limit, h.clean, haccount.refuse⟩
    · cases hok : verifyToken hmac secret q.channelID q.token now with
      | error _ =>
        refine ⟨h.limit, h.clean, ?_⟩
        simpa [Gate.count, countIp_cons_self] using haccount.verify
      | ok _ => exact absurd hok (hbad rfl)
  · rw [← countIp_erase_ne s.admitted hne.symm] at haccount
    simp only [Gate.verify]
    split_ifs
    · exact ⟨h.limit, h.clean, haccount⟩
    · cases verifyToken hmac secret q.channelID q.token now with
      | error _ =>
        refine ⟨h.limit, h.clean, ?_⟩
        simpa [Gate.count, countIp_cons_ne _ hne.symm, Function.update_of_ne hne] using haccount
      | ok _ =>
        refine ⟨h.limit, (countIp_cons_ne _ hne.symm).trans h.clean, ?_⟩
        simpa [Gate.count, Function.update_of_ne hne] using haccount

theorem limit_recordFailure (q : PublishRequest) (now : Int) :
    (s.recordFailure q now).limiter.threshold = s.limiter.threshold :=
  Limited.threshold_recordFailure ..

theorem Sound.recordFailure (h : Sound threshold ip s) (hq : q ∈ s.failed)
    (hzero : q.ip = ip → 0 ∉ newBan s.limiter ip now) :
    Sound threshold ip (s.recordFailure q now) := by
  have haccount := h.account
  refine ⟨(limit_recordFailure q now).trans h.limit, h.clean, ?_⟩
  rcases eq_or_ne ip q.ip with rfl | hne
  · rw [← countIp_erase_self hq] at haccount
    have hzero := hzero rfl
    simp only [Gate.recordFailure, FailedAuthLimiter.recordFailure_eq,
      FailedAuthLimiter.set_entries_self]
    by_cases hc : s.limiter.Counts q.ip now
    · obtain ⟨e, he, -⟩ := id hc
      obtain ⟨hfailed, hnew⟩ := newBan_counted he hc
      rw [he] at haccount
      rw [he, hfailed, if_pos hc, h.limit]
      apply haccount.record
      intro hge h0
      rw [hnew, h.limit, if_pos hge, h0] at hzero
      exact hzero (.head _)
    · rw [(newBan_opened hc).1, if_neg hc, Function.update_self]
      exact haccount.opened _
  · rw [← countIp_erase_ne s.failed hne.symm] at haccount
    rw [(recordFailure_of_ne q now hne).1]
    simp only [Gate.recordFailure]
    split_ifs
    · exact haccount
    · rw [Function.update_of_ne hne]
      exact haccount

theorem Sound.recordSuccess (h : Sound threshold ip s) (hq : q ∈ s.verified) :
    Sound threshold ip (s.recordSuccess q) := by
  have hne : q.ip ≠ ip := by
    rintro rfl
    have hclean := h.clean
    rw [← countIp_erase_self hq] at hclean
    cases hclean
  have haccount := h.account
  refine ⟨h.limit, (countIp_erase_ne _ hne).trans h.clean, ?_⟩
  simpa [Gate.recordSuccess, FailedAuthLimiter.recordSuccess, Function.update_of_ne hne.symm]
    using haccount

theorem Sound.step (h : Sound threshold ip s) (hguess : Guessing hmac secret ip s a)
    (hstep : Gate.step hmac secret s a = some t) : Sound threshold ip t := by
  cases a with
  | allowed q now =>
    simp only [Gate.step, Option.ite_none_right_eq_some, Option.some.injEq] at hstep
    obtain ⟨-, rfl⟩ := hstep
    exact h.allowed q now
  | verify q now =>
    simp only [Gate.step, Option.ite_none_right_eq_some, Option.some.injEq] at hstep
    obtain ⟨hq, rfl⟩ := hstep
    exact h.verify hq hguess
  | recordFailure q now =>
    simp only [Gate.step, Option.ite_none_right_eq_some, Option.some.injEq] at hstep
    obtain ⟨⟨hq, -⟩, rfl⟩ := hstep
    exact h.recordFailure hq hguess
  | recordSuccess q =>
    simp only [Gate.step, Option.ite_none_right_eq_some, Option.some.injEq] at hstep
    obtain ⟨hq, rfl⟩ := hstep
    exact h.recordSuccess hq

theorem sound_empty (threshold window cooldown start : Int) (ip : List UInt8) :
    Sound threshold ip (empty threshold window cooldown start) :=
  ⟨rfl, rfl, ⟨Nat.le_refl 0, nofun, nofun, nofun⟩⟩

/-- From the opening of an entry's window to the end of its ban. -/
theorem verifications_bounded
    (h : (gate hmac secret threshold window cooldown start).Reaches (Guessing hmac secret ip) s)
    (he : s.limiter.entries ip = some e) :
    s.sinceOpened ip + 2 ≤ max threshold 2 + s.peak ip := by
  have hsound : Sound threshold ip s := by
    refine h.invariant (sound_empty ..) ?_
    intro s a t hs hguess hstep
    exact hs.step hguess hstep
  have haccount := hsound.account
  rw [he] at haccount
  exact haccount.bound

section Examples

open FailedAuthLimiter (second)

/-- Requests one after the other. -/
def guesses (times : List Int) : List GateAct :=
  times.flatMap (fun t => [.allowed guess (t * second), .verify guess epoch,
    .recordFailure guess (t * second)])

/-- Seven requests at once, the first of which fails before the others are verified. -/
def crowd : List GateAct :=
  List.replicate 7 (.allowed guess 0) ++ [.verify guess epoch, .recordFailure guess 0] ++
    List.replicate 6 (.verify guess epoch) ++ List.replicate 4 (.recordFailure guess 0)

theorem crowd_guessing : defaultGate.Allowed (Guessing noMac [] Limited.localhost)
    defaultGate.init crowd := by
  decide

def slow : List GateAct := guesses [0, 61, 122, 123, 124, 125, 126]

theorem slow_guessing : defaultGate.Allowed (Guessing noMac [] Limited.localhost)
    defaultGate.init slow := by
  decide

/-- Six verifications between the creation of an entry and its ban: in parallel, and by one
request after the other where the window expires in between. -/
theorem verifications_over_threshold :
    (∃ s, defaultGate.Reaches (Guessing noMac [] Limited.localhost) s ∧
      s.sinceCreated Limited.localhost = 6 ∧
      (s.limiter.allowed Limited.localhost s.clock).1 = false) ∧
    (∃ s, defaultGate.Reaches (Guessing noMac [] Limited.localhost) s ∧
      s.sinceCreated Limited.localhost = 6 ∧ s.peak Limited.localhost = 1 ∧
      (s.limiter.allowed Limited.localhost s.clock).1 = false) := by
  refine ⟨⟨_, .of_run crowd .init crowd_guessing rfl, ?_⟩,
    ⟨_, .of_run slow .init slow_guessing rfl, ?_⟩⟩ <;> decide

def full : List GateAct := guesses [0, 1, 2, 3] ++ burst 7 (4 * second)

theorem full_guessing : defaultGate.Allowed (Guessing noMac [] Limited.localhost)
    defaultGate.init full := by
  decide

/-- Seven requests in flight at the fourth failure take the bound. -/
theorem verifications_bounded_full : ∃ s,
    defaultGate.Reaches (Guessing noMac [] Limited.localhost) s ∧
      s.sinceOpened Limited.localhost = 10 ∧ s.peak Limited.localhost = 7 ∧
      s.sinceOpened Limited.localhost + 2 ≤ max (5 : Int) 2 + s.peak Limited.localhost := by
  refine ⟨_, .of_run full .init full_guessing rfl, ?_, ?_,
    verifications_bounded (.of_run full .init full_guessing rfl) rfl⟩ <;> decide

end Examples

end Gate

end StreamMix.Relay
