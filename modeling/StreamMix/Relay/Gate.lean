import Mathlib.Data.List.Count
import StreamMix.Relay.Auth
import StreamMix.Relay.Entries

/-! The gate of `handlePublish`.  Requests come in at any time, and each of them may be delayed
between the check of its address, that of its token and the record of the outcome. -/

namespace StreamMix.Relay

open GoTime (Time)
open Wire (Bytes)

structure PublishRequest where
  ip : List UInt8
  channelID : Bytes
  token : Bytes
  deriving DecidableEq

/-- The requests past `Allowed`: before the checks of channel and token, before `RecordFailure`
and before `RecordSuccess`.  The rest is for the statements: the times that bans were set to
last to, the verifications since the entry of an address was created and since its window
opened, and how many of its requests were past `Allowed` at once. -/
structure Gate where
  limiter : FailedAuthLimiter
  clock : Int
  admitted : List PublishRequest
  failed : List PublishRequest
  verified : List PublishRequest
  bans : List UInt8 → List Int
  sinceCreated : List UInt8 → Nat
  sinceOpened : List UInt8 → Nat
  peak : List UInt8 → Nat

inductive GateAct
  | allowed (q : PublishRequest) (now : Int)
  | verify (q : PublishRequest) (now : Time)
  | recordFailure (q : PublishRequest) (now : Int)
  | recordSuccess (q : PublishRequest)

namespace Gate

def countIp (ip : List UInt8) (qs : List PublishRequest) : Nat := qs.countP (fun q => q.ip = ip)

/-- The requests of an address past `Allowed`. -/
def inFlight (s : Gate) (ip : List UInt8) : Nat :=
  countIp ip s.admitted + countIp ip s.failed + countIp ip s.verified

def enter (s : Gate) (q : PublishRequest) : Gate :=
  { s with
    admitted := q :: s.admitted
    peak := Function.update s.peak q.ip (Nat.max (s.peak q.ip) (s.inFlight q.ip + 1)) }

def allowed (s : Gate) (q : PublishRequest) (now : Int) : Gate :=
  let r := s.limiter.allowed q.ip now
  let s := { s with limiter := r.2, clock := now }
  if r.1 then s.enter q else s

/-- `VerifyToken` is called. -/
def count (s : Gate) (ip : List UInt8) : Gate :=
  { s with
    sinceCreated := Function.update s.sinceCreated ip (s.sinceCreated ip + 1)
    sinceOpened := Function.update s.sinceOpened ip (s.sinceOpened ip + 1) }

section

variable (hmac : Bytes → Bytes → Bytes) (secret : Bytes)

def verify (s : Gate) (q : PublishRequest) (now : Time) : Gate :=
  let s := { s with admitted := s.admitted.erase q }
  if !validateChannelID (channelString q.channelID) then s
  else
    let s := s.count q.ip
    match verifyToken hmac secret q.channelID q.token now with
    | .error _ => { s with failed := q :: s.failed }
    | .ok () => { s with verified := q :: s.verified }

end

/-- The ban that a failure sets. -/
def newBan (l : FailedAuthLimiter) (ip : List UInt8) (now : Int) : List Int :=
  match l.entries ip with
  | none => []
  | some e =>
    if unixMilli now - e.firstFailMS > milliseconds l.window then []
    else if e.count + 1 ≥ l.threshold then [unixMilli now + milliseconds l.cooldown]
    else []

def recordFailure (s : Gate) (q : PublishRequest) (now : Int) : Gate :=
  { s with
    limiter := s.limiter.recordFailure q.ip now
    clock := now
    failed := s.failed.erase q
    bans := Function.update s.bans q.ip (newBan s.limiter q.ip now ++ s.bans q.ip)
    sinceCreated :=
      if s.limiter.entries q.ip = none then Function.update s.sinceCreated q.ip 0
      else s.sinceCreated
    sinceOpened :=
      if s.limiter.Counts q.ip now then s.sinceOpened
      else Function.update s.sinceOpened q.ip 0 }

def recordSuccess (s : Gate) (q : PublishRequest) : Gate :=
  { s with limiter := s.limiter.recordSuccess q.ip, verified := s.verified.erase q }

def step (hmac : Bytes → Bytes → Bytes) (secret : Bytes) (s : Gate) : GateAct → Option Gate
  | .allowed q now => if s.clock ≤ now then some (s.allowed q now) else none
  | .verify q now => if q ∈ s.admitted then some (s.verify hmac secret q now) else none
  | .recordFailure q now =>
    if q ∈ s.failed ∧ s.clock ≤ now then some (s.recordFailure q now) else none
  | .recordSuccess q => if q ∈ s.verified then some (s.recordSuccess q) else none

def empty (threshold window cooldown start : Int) : Gate :=
  ⟨⟨threshold, window, cooldown, fun _ => none⟩, start, [], [], [], fun _ => [], fun _ => 0,
    fun _ => 0, fun _ => 0⟩

end Gate

def gate (hmac : Bytes → Bytes → Bytes) (secret : Bytes) (threshold window cooldown start : Int) :
    Machine Gate GateAct :=
  ⟨Gate.empty threshold window cooldown start, Gate.step hmac secret⟩

namespace Gate

variable {s t : Gate}

section Fields

variable (s : Gate) (q : PublishRequest)

@[simp] theorem limiter_allowed (now : Int) :
    (s.allowed q now).limiter = (s.limiter.allowed q.ip now).2 := by
  simp only [allowed]
  split_ifs <;> rfl

@[simp] theorem clock_allowed (now : Int) : (s.allowed q now).clock = now := by
  simp only [allowed]
  split_ifs <;> rfl

@[simp] theorem bans_allowed (now : Int) : (s.allowed q now).bans = s.bans := by
  simp only [allowed]
  split_ifs <;> rfl

/-- The checks of channel and token leave the limiter alone. -/
theorem verify_limiter (hmac : Bytes → Bytes → Bytes) (secret : Bytes) (now : Time) :
    (s.verify hmac secret q now).limiter = s.limiter ∧
      (s.verify hmac secret q now).clock = s.clock ∧ (s.verify hmac secret q now).bans = s.bans := by
  simp only [verify]
  split_ifs
  · exact ⟨rfl, rfl, rfl⟩
  · cases verifyToken hmac secret q.channelID q.token now <;> exact ⟨rfl, rfl, rfl⟩

end Fields

/-! A ban and the failures that come late. -/

/-- A failure that is recorded during a ban finds its window open, and no ban ends at zero,
which stands for none. -/
def Keeps (ip : List UInt8) (s : Gate) : GateAct → Prop
  | .recordFailure q now => q.ip = ip →
    (∀ e ∈ s.limiter.entries ip, e.Banned (unixMilli now) → s.limiter.Counts ip now) ∧
      (0 < milliseconds s.limiter.cooldown → 0 ∉ newBan s.limiter ip now)
  | .recordSuccess q => q.ip ≠ ip
  | .allowed _ _ | .verify _ _ => True

instance (ip : List UInt8) (s : Gate) : DecidablePred (Keeps ip s)
  | .recordFailure q now => inferInstanceAs (Decidable
      (q.ip = ip → (∀ e ∈ s.limiter.entries ip, e.Banned (unixMilli now) → s.limiter.Counts ip now) ∧
        (0 < milliseconds s.limiter.cooldown → 0 ∉ newBan s.limiter ip now)))
  | .recordSuccess q => inferInstanceAs (Decidable (q.ip ≠ ip))
  | .allowed _ _ | .verify _ _ => .isTrue trivial

/-- A ban that is not over is in the entry. -/
structure Lasting (ip : List UInt8) (s : Gate) : Prop where
  within : ∀ T ∈ s.bans ip, T ≤ unixMilli s.clock + milliseconds s.limiter.cooldown
  kept : ∀ T ∈ s.bans ip, unixMilli s.clock < T →
    ∃ e ∈ s.limiter.entries ip, e.bannedUntilMS ≠ 0 ∧ T ≤ e.bannedUntilMS

theorem unixMilli_mono (h : a ≤ b) : unixMilli a ≤ unixMilli b := by
  unfold unixMilli
  omega

/-- Steps that set no ban for the address. -/
theorem Lasting.congr (h : Lasting ip s) (hclock : s.clock ≤ t.clock)
    (hcooldown : t.limiter.cooldown = s.limiter.cooldown) (hbans : t.bans ip = s.bans ip)
    (hentry : ∀ e ∈ s.limiter.entries ip, e.Banned (unixMilli t.clock) →
      t.limiter.entries ip = some e) : Lasting ip t := by
  have hmono := unixMilli_mono hclock
  constructor
  · intro T hT
    rw [hcooldown]
    exact Int.le_trans (h.within T (hbans ▸ hT)) (Int.add_le_add_right hmono _)
  · intro T hT hlt
    obtain ⟨e, he, hne, hle⟩ := h.kept T (hbans ▸ hT) (Int.lt_of_le_of_lt hmono hlt)
    exact ⟨e, hentry e he ⟨hne, Int.lt_of_lt_of_le hlt hle⟩, hne, hle⟩

theorem Lasting.allowed (h : Lasting ip s) (q : PublishRequest) (hnow : s.clock ≤ now) :
    Lasting ip (s.allowed q now) := by
  apply h.congr
  · simpa using hnow
  · rw [limiter_allowed, FailedAuthLimiter.allowed_eq]
    rfl
  · rw [bans_allowed]
  · intro e he hban
    rw [clock_allowed] at hban
    rw [limiter_allowed, FailedAuthLimiter.allowed_eq, FailedAuthLimiter.entries_set]
    rcases eq_or_ne ip q.ip with rfl | hne
    · rw [Function.update_self, Option.mem_def.mp he, AuthEntry.ask_banned hban]
    · rw [Function.update_of_ne hne]
      exact he

/-- The entry of an address after a failure of its window, and the ban it is under then. -/
theorem newBan_counted {l : FailedAuthLimiter} (he : l.entries ip = some e)
    (hc : l.Counts ip now) :
    l.failed now (some e) = e.counted l.threshold (milliseconds l.cooldown) (unixMilli now) ∧
      newBan l ip now = if e.count + 1 ≥ l.threshold then [unixMilli now + milliseconds l.cooldown]
        else [] := by
  obtain ⟨e', he', hle⟩ := hc
  cases he.symm.trans he'
  have hlate : ¬ unixMilli now - e.firstFailMS > milliseconds l.window := Int.not_lt.mpr hle
  simp only [FailedAuthLimiter.failed, AuthEntry.fail, newBan, he, if_neg hlate, true_and]

theorem newBan_opened {l : FailedAuthLimiter} (hc : ¬ l.Counts ip now) :
    l.failed now (l.entries ip) = .opened (unixMilli now) ∧ newBan l ip now = [] := by
  cases he : l.entries ip with
  | none => simp [FailedAuthLimiter.failed, AuthEntry.fail, newBan, he]
  | some e =>
    have hlate : unixMilli now - e.firstFailMS > milliseconds l.window := by
      apply Int.not_le.mp
      exact fun hle => hc ⟨e, he, hle⟩
    simp [FailedAuthLimiter.failed, AuthEntry.fail, newBan, he, hlate]

/-- The failures of other addresses. -/
theorem recordFailure_of_ne (q : PublishRequest) (now : Int) (h : ip ≠ q.ip) :
    (s.recordFailure q now).limiter.entries ip = s.limiter.entries ip ∧
      (s.recordFailure q now).bans ip = s.bans ip := by
  rw [recordFailure, FailedAuthLimiter.recordFailure_eq]
  exact ⟨Function.update_of_ne h .., Function.update_of_ne h ..⟩

theorem cooldown_recordFailure (q : PublishRequest) (now : Int) :
    (s.recordFailure q now).limiter.cooldown = s.limiter.cooldown := by
  rw [recordFailure, FailedAuthLimiter.recordFailure_eq]
  rfl

theorem Lasting.recordFailure (h : Lasting q.ip s) (hnow : s.clock ≤ now)
    (hkeeps : Keeps q.ip s (.recordFailure q now)) : Lasting q.ip (s.recordFailure q now) := by
  have hmono := unixMilli_mono hnow
  have hentry : (s.recordFailure q now).limiter.entries q.ip =
      some (s.limiter.failed now (s.limiter.entries q.ip)) := by
    rw [Gate.recordFailure, FailedAuthLimiter.recordFailure_eq, FailedAuthLimiter.set_entries_self]
  have hbans : (s.recordFailure q now).bans q.ip = newBan s.limiter q.ip now ++ s.bans q.ip :=
    Function.update_self ..
  obtain ⟨hopen, hzero⟩ := hkeeps rfl
  by_cases hc : s.limiter.Counts q.ip now
  · obtain ⟨e, he, -⟩ := id hc
    obtain ⟨hfailed, hnew⟩ := newBan_counted he hc
    rw [he, hfailed] at hentry
    have hwithin : ∀ T ∈ (s.recordFailure q now).bans q.ip,
        T ≤ unixMilli now + milliseconds s.limiter.cooldown := by
      intro T hT
      rw [hbans, hnew] at hT
      rcases List.mem_append.mp hT with hT | hT
      · split_ifs at hT with hge
        · exact le_of_eq (List.mem_singleton.mp hT)
        · cases hT
      · exact Int.le_trans (h.within T hT) (Int.add_le_add_right hmono _)
    refine ⟨by rwa [cooldown_recordFailure], ?_⟩
    intro T hT hlt
    refine ⟨_, hentry, ?_⟩
    have hle := hwithin T hT
    simp only [AuthEntry.counted]
    rw [hbans, hnew] at hT
    rw [hnew] at hzero
    have hlt : unixMilli now < T := hlt
    split_ifs with hge
    · refine ⟨?_, hle⟩
      intro h0
      rw [if_pos hge, h0] at hzero
      exact hzero (by omega) (.head _)
    · rw [if_neg hge] at hT
      obtain ⟨e', he', hne, hle⟩ := h.kept T hT (Int.lt_of_le_of_lt hmono hlt)
      cases he.symm.trans he'
      exact ⟨hne, hle⟩
  · -- a window that opens now finds no ban
    obtain ⟨hfailed, hnew⟩ := newBan_opened hc
    rw [hnew, List.nil_append] at hbans
    constructor
    · intro T hT
      rw [cooldown_recordFailure]
      exact Int.le_trans (h.within T (hbans ▸ hT)) (Int.add_le_add_right hmono _)
    · intro T hT hlt
      obtain ⟨e, he, hne, hle⟩ := h.kept T (hbans ▸ hT) (Int.lt_of_le_of_lt hmono hlt)
      exact absurd (hopen e he ⟨hne, Int.lt_of_lt_of_le hlt hle⟩) hc

theorem Lasting.step (h : Lasting ip s) (hkeeps : Keeps ip s a)
    (hstep : Gate.step hmac secret s a = some t) : Lasting ip t := by
  cases a with
  | allowed q now =>
    simp only [Gate.step, Option.ite_none_right_eq_some, Option.some.injEq] at hstep
    obtain ⟨hnow, rfl⟩ := hstep
    exact h.allowed q hnow
  | verify q now =>
    simp only [Gate.step, Option.ite_none_right_eq_some, Option.some.injEq] at hstep
    obtain ⟨-, rfl⟩ := hstep
    obtain ⟨hl, hclock, hbans⟩ := verify_limiter s q hmac secret now
    apply h.congr
    · rw [hclock]
    · rw [hl]
    · rw [hbans]
    · intro e he _
      rwa [hl]
  | recordFailure q now =>
    simp only [Gate.step, Option.ite_none_right_eq_some, Option.some.injEq] at hstep
    obtain ⟨⟨-, hnow⟩, rfl⟩ := hstep
    rcases eq_or_ne ip q.ip with rfl | hne
    · exact h.recordFailure hnow hkeeps
    · obtain ⟨hentry, hbans⟩ := recordFailure_of_ne (s := s) q now hne
      apply h.congr hnow (cooldown_recordFailure q now) hbans
      intro e he _
      rwa [hentry]
  | recordSuccess q =>
    simp only [Gate.step, Option.ite_none_right_eq_some, Option.some.injEq] at hstep
    obtain ⟨-, rfl⟩ := hstep
    apply h.congr
    · exact Int.le_refl _
    · rfl
    · rfl
    · intro e he _
      exact (Function.update_of_ne (Ne.symm hkeeps) ..).trans he

theorem ban_lasts (h : (gate hmac secret threshold window cooldown start).Reaches (Keeps ip) s)
    (hban : T ∈ s.bans ip) (hclock : s.clock ≤ now) (hlt : unixMilli now < T) :
    (s.limiter.allowed ip now).1 = false := by
  have hlasting : Lasting ip s := by
    refine h.invariant ⟨nofun, nofun⟩ ?_
    intro s a t hs hkeeps hstep
    exact hs.step hkeeps hstep
  obtain ⟨e, he, hne, hle⟩ :=
    hlasting.kept T hban (Int.lt_of_le_of_lt (unixMilli_mono hclock) hlt)
  rw [FailedAuthLimiter.allowed_eq, Option.mem_def.mp he,
    AuthEntry.ask_banned ⟨hne, Int.lt_of_lt_of_le hlt hle⟩]

/-- A failure that comes when the window of a banned address is over frees the address. -/
theorem freed_of_late (q : PublishRequest) (h : ¬ s.limiter.Counts q.ip now) :
    ((s.recordFailure q now).limiter.allowed q.ip later).1 = true := by
  rw [recordFailure, FailedAuthLimiter.recordFailure_eq, (newBan_opened h).1,
    FailedAuthLimiter.allowed_eq, FailedAuthLimiter.set_entries_self, AuthEntry.ask_free rfl]

section Examples

open FailedAuthLimiter (second)

/-- No key matters to a request without a token. -/
def noMac (_ _ : Bytes) : Bytes := []

def guess : PublishRequest :=
  ⟨Limited.localhost, [0x6b, 0x69, 0x63, 0x6b, 0x3a, 0x61], []⟩

def epoch : Time := ⟨62135596800, 0, Relay.epoch.nonneg, Relay.epoch.lt⟩

/-- `n` guesses pass `Allowed` and are verified. -/
def burst (n : Nat) (now : Int) : List GateAct :=
  List.replicate n (.allowed guess now) ++ List.replicate n (.verify guess epoch)

def records (n : Nat) (now : Int) : List GateAct := List.replicate n (.recordFailure guess now)

abbrev defaultGate : Machine Gate GateAct :=
  gate noMac [] FailedAuthLimiter.new.threshold FailedAuthLimiter.new.window
    FailedAuthLimiter.new.cooldown 0

/-- The sixth of six guesses at once is recorded after a minute, four minutes before the end
of the ban. -/
theorem ban_ends_early : ∃ s, defaultGate.Reachable s ∧ 300000 ∈ s.bans Limited.localhost ∧
    s.clock ≤ 61 * second ∧ unixMilli (61 * second) < 300000 ∧
    (s.limiter.allowed Limited.localhost (61 * second)).1 = true := by
  refine ⟨_, .of_run (burst 6 0 ++ records 5 0 ++ records 1 (61 * second)) (.init _) rfl, ?_⟩
  decide

/-- After five guesses at once the ban lasts. -/
theorem ban_lasts_default : ∃ s, defaultGate.Reachable s ∧ 300000 ∈ s.bans Limited.localhost ∧
    (s.limiter.allowed Limited.localhost (299 * second)).1 = false := by
  have hallowed : defaultGate.Allowed (Keeps Limited.localhost) defaultGate.init
      (burst 5 0 ++ records 5 0) := by
    decide
  refine ⟨_, .of_run (burst 5 0 ++ records 5 0) (.init _) rfl, ?_,
    ban_lasts (.of_run _ .init hallowed rfl) (T := 300000) ?_ ?_ ?_⟩ <;> decide

end Examples

end Gate

end StreamMix.Relay
