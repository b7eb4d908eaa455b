import StreamMix.Lib.KeyedStore
import StreamMix.Relay.RateLimit

/-! The limiter as a store of entries: each of its operations reads and writes the entry of
one address, and everything is counted in milliseconds. -/

namespace StreamMix.Relay

namespace AuthEntry

/-- Zero in `bannedUntilMS` stands for no ban. -/
def Banned (e : AuthEntry) (nowMS : Int) : Prop := e.bannedUntilMS ≠ 0 ∧ nowMS < e.bannedUntilMS

instance (e : AuthEntry) (nowMS : Int) : Decidable (e.Banned nowMS) :=
  inferInstanceAs (Decidable (_ ∧ _))

/-- The entry of a first failure, or of one after the window. -/
def opened (nowMS : Int) : AuthEntry := ⟨1, nowMS, 0⟩

def ask (nowMS : Int) : Option AuthEntry → Bool × Option AuthEntry
  | none => (true, none)
  | some e =>
    if e.Banned nowMS then (false, some e)
    else if e.bannedUntilMS = 0 then (true, some e)
    else (true, none)

theorem ask_banned {e : AuthEntry} (h : e.Banned nowMS) :
    ask nowMS (some e) = (false, some e) := if_pos h

theorem ask_free {e : AuthEntry} (h : e.bannedUntilMS = 0) :
    ask nowMS (some e) = (true, some e) := by
  rw [ask, if_neg (fun hb => hb.1 h), if_pos h]

/-- A ban that is over. -/
theorem ask_over {e : AuthEntry} (h0 : e.bannedUntilMS ≠ 0) (h : e.bannedUntilMS ≤ nowMS) :
    ask nowMS (some e) = (true, none) := by
  rw [ask, if_neg (fun hb => Int.not_lt.mpr h hb.2), if_neg h0]

/-- How an entry stands at a time. -/
theorem standing (e : AuthEntry) (nowMS : Int) :
    e.Banned nowMS ∨ e.bannedUntilMS = 0 ∨ e.bannedUntilMS ≠ 0 ∧ e.bannedUntilMS ≤ nowMS := by
  unfold Banned
  omega

def counted (threshold cooldownMS nowMS : Int) (e : AuthEntry) : AuthEntry where
  count := e.count + 1
  firstFailMS := e.firstFailMS
  bannedUntilMS :=
    if e.count + 1 ≥ threshold then nowMS + cooldownMS else e.bannedUntilMS

def fail (threshold windowMS cooldownMS nowMS : Int) : Option AuthEntry → AuthEntry
  | none => opened nowMS
  | some e =>
    if nowMS - e.firstFailMS > windowMS then opened nowMS
    else e.counted threshold cooldownMS nowMS

end AuthEntry

namespace FailedAuthLimiter

open AuthEntry (ask)

theorem set_self (l : FailedAuthLimiter) (ip : List UInt8) : l.set ip (l.entries ip) = l := by
  rw [set, Function.update_eq_self]

theorem allowed_eq (l : FailedAuthLimiter) (ip : List UInt8) (now : Int) :
    l.allowed ip now = ((ask (unixMilli now) (l.entries ip)).1,
      l.set ip (ask (unixMilli now) (l.entries ip)).2) := by
  have hself := l.set_self ip
  cases he : l.entries ip with
  | none =>
    rw [he] at hself
    simp [allowed, ask, he, hself]
  | some e =>
    rw [he] at hself
    simp only [allowed, ask, he, AuthEntry.Banned]
    by_cases h0 : e.bannedUntilMS = 0
    · simp [h0, hself]
    · by_cases hlt : unixMilli now < e.bannedUntilMS
      · simp [h0, hlt, hself]
      · simp [h0, hlt, Int.not_lt.mp hlt]

def failed (l : FailedAuthLimiter) (now : Int) : Option AuthEntry → AuthEntry :=
  AuthEntry.fail l.threshold (milliseconds l.window) (milliseconds l.cooldown) (unixMilli now)

theorem recordFailure_eq (l : FailedAuthLimiter) (ip : List UInt8) (now : Int) :
    l.recordFailure ip now = l.set ip (some (l.failed now (l.entries ip))) := by
  cases he : l.entries ip with
  | none => simp only [recordFailure, he, failed, AuthEntry.fail, AuthEntry.opened]
  | some e =>
    simp only [recordFailure, he, failed, AuthEntry.fail, AuthEntry.opened, AuthEntry.counted]
    by_cases hlate : unixMilli now - e.firstFailMS > milliseconds l.window
    · rw [if_pos hlate, if_pos hlate]
    · rw [if_neg hlate, if_neg hlate]

@[simp] theorem entries_set (l : FailedAuthLimiter) (ip : List UInt8) (e : Option AuthEntry) :
    (l.set ip e).entries = Function.update l.entries ip e := rfl

@[simp] theorem failed_set (l : FailedAuthLimiter) (ip : List UInt8) (e : Option AuthEntry) :
    (l.set ip e).failed = l.failed := rfl

end FailedAuthLimiter

/-! What an address is told depends on its own calls. -/

namespace LimiterAct

def ip : LimiterAct → List UInt8
  | .allowed ip _ | .recordFailure ip _ | .recordSuccess ip => ip

/-- What an operation of a limiter like `l` leaves in place of the entry of its address. -/
def leaves (l : FailedAuthLimiter) : LimiterAct → Option AuthEntry → Option AuthEntry
  | .allowed _ now, e => (AuthEntry.ask (unixMilli now) e).2
  | .recordFailure _ now, e => some (l.failed now e)
  | .recordSuccess _, _ => none

def tells : LimiterAct → Option AuthEntry → List Bool
  | .allowed _ now, e => [(AuthEntry.ask (unixMilli now) e).1]
  | .recordFailure _ _, _ | .recordSuccess _, _ => []

end LimiterAct

namespace FailedAuthLimiter

def call (l : FailedAuthLimiter) : LimiterAct → FailedAuthLimiter
  | .allowed ip now => (l.allowed ip now).2
  | .recordFailure ip now => l.recordFailure ip now
  | .recordSuccess ip => l.recordSuccess ip

/-- The answers of `Allowed` in a run, each with its address. -/
def answers (l : FailedAuthLimiter) : List LimiterAct → List (List UInt8 × Bool)
  | [] => []
  | .allowed ip now :: acts => (ip, (l.allowed ip now).1) :: (l.allowed ip now).2.answers acts
  | .recordFailure ip now :: acts => (l.recordFailure ip now).answers acts
  | .recordSuccess ip :: acts => (l.recordSuccess ip).answers acts

theorem call_eq (l : FailedAuthLimiter) (a : LimiterAct) :
    l.call a = l.set a.ip (a.leaves l (l.entries a.ip)) := by
  cases a with
  | allowed ip now =>
    rw [call, allowed_eq]
    rfl
  | recordFailure ip now =>
    rw [call, recordFailure_eq]
    rfl
  | recordSuccess ip => rfl

theorem entries_call (l : FailedAuthLimiter) (a : LimiterAct) :
    (l.call a).entries = KeyedStore.step LimiterAct.ip (LimiterAct.leaves l) l.entries a := by
  rw [call_eq]
  rfl

theorem leaves_call (l : FailedAuthLimiter) (a : LimiterAct) :
    LimiterAct.leaves (l.call a) = LimiterAct.leaves l := by
  rw [call_eq]
  funext b e
  cases b <;> rfl

theorem entries_foldl_call (l : FailedAuthLimiter) (acts : List LimiterAct) :
    (acts.foldl call l).entries =
      acts.foldl (KeyedStore.step LimiterAct.ip (LimiterAct.leaves l)) l.entries := by
  induction acts generalizing l with
  | nil => rfl
  | cons a acts ih => rw [List.foldl_cons, ih, leaves_call, entries_call, List.foldl_cons]

theorem answers_eq (l : FailedAuthLimiter) (acts : List LimiterAct) :
    l.answers acts =
      KeyedStore.answers LimiterAct.ip (LimiterAct.leaves l) LimiterAct.tells l.entries acts := by
  induction acts generalizing l with
  | nil => rfl
  | cons a acts ih =>
    have hrest := ih (l.call a)
    rw [leaves_call, entries_call] at hrest
    rw [KeyedStore.answers, ← hrest]
    cases a with
    | allowed ip now =>
      have htells : (l.allowed ip now).1 = (AuthEntry.ask (unixMilli now) (l.entries ip)).1 := by
        rw [allowed_eq]
      rw [answers, htells]
      rfl
    | recordFailure ip now => rfl
    | recordSuccess ip => rfl

/-- The answers to an address are those of its own calls, and the calls of the others
neither ban nor free it. -/
theorem answers_isolated (l : FailedAuthLimiter) (ip : List UInt8) (acts : List LimiterAct) :
    (l.answers acts).filter (fun a => a.1 = ip) =
        l.answers (acts.filter (fun a => a.ip = ip)) ∧
      ∀ now, (((acts.filter (fun a => a.ip ≠ ip)).foldl call l).allowed ip now).1 =
        (l.allowed ip now).1 := by
  constructor
  · rw [answers_eq, answers_eq]
    exact KeyedStore.answers_filter _ _ _ rfl acts
  · intro now
    rw [allowed_eq, allowed_eq, entries_foldl_call, KeyedStore.foldl_step_of_ne]
    intro a ha
    simpa using (List.mem_filter.mp ha).2

end FailedAuthLimiter

end StreamMix.Relay
