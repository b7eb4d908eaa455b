import Mathlib.Algebra.Order.Ring.Int
import Mathlib.Tactic.SplitIfs
import StreamMix.Lib.Machine

/-! `Start` and the service loop of the `WebSocketClient`, with the connections of
libwebsockets.  A connection is named by the call of `TryConnect` that it comes from; the clock
is in nanoseconds. -/

namespace StreamMix.Publisher

def kBackoffMs : List Nat := [500, 1000, 2000, 5000, 15000]

def kBackoffCount : Nat := kBackoffMs.length

/-- The pause after a call of `TryConnect`. -/
def backoff (attempt : Nat) : Int :=
  kBackoffMs.get ⟨Nat.min attempt (kBackoffCount - 1),
    Nat.lt_of_le_of_lt (Nat.min_le_right ..) (by decide)⟩ * 1000000

/-- What the loop did: its calls of `TryConnect` with their times, and that it saw
`connected_`. -/
inductive LoopEvent
  | tryConnect (time : Int)
  | connected
  deriving DecidableEq

def LoopEvent.isTryConnect : LoopEvent → Bool
  | .tryConnect _ => true
  | .connected => false

/-- What `lws_client_connect_via_info` returns: a connection, or null after some reports of an
error. -/
inductive Dial
  | wsi
  | null (reports : Nat)

/-- `handshake` and `live` are the connections of libwebsockets.  The ghosts are `busyCalls`,
the calls of `TryConnect` during one of them, `lost`, the established connections that were
closed, and `log`, the latest event first. -/
structure ServiceLoop where
  running : Bool
  connected : Bool
  connecting : Bool
  wsi : Option Nat
  reconnects : UInt64
  attempt : Nat
  nextAttempt : Int
  dials : Nat
  handshake : Option Nat
  live : Option Nat
  busyCalls : Nat
  lost : Nat
  log : List LoopEvent

/-- The callbacks run inside `lws_service`, and a turn is the rest of the loop's body. -/
inductive LoopAct
  | start (dial : Dial) (now : Int)
  | established
  | connectionError
  | closed
  | turn (now : Int) (dial : Dial)

namespace ServiceLoop

def onEstablished (s : ServiceLoop) : ServiceLoop :=
  { s with connected := true, connecting := false }

def markDisconnected (s : ServiceLoop) : ServiceLoop :=
  { s with
    wsi := none
    connecting := false
    connected := false
    reconnects := if s.connected then s.reconnects + 1 else s.reconnects }

def tryConnect (s : ServiceLoop) (dial : Dial) : ServiceLoop :=
  let s := { s with
    connecting := true
    dials := s.dials + 1
    busyCalls := if s.live = none ∧ s.handshake = none then s.busyCalls else s.busyCalls + 1 }
  match dial with
  | .wsi => { s with wsi := some s.dials, handshake := some s.dials }
  | .null reports =>
    { reports.repeat markDisconnected s with wsi := none, connecting := false }

def step (s : ServiceLoop) : LoopAct → Option ServiceLoop
  | .start dial now =>
    if s.running then none
    else some { s.tryConnect dial with running := true, attempt := 0, nextAttempt := now }
  | .established =>
    if s.running then
      s.handshake.map (fun n => { s.onEstablished with handshake := none, live := some n })
    else none
  | .connectionError =>
    if s.running then s.handshake.map (fun _ => { s.markDisconnected with handshake := none })
    else none
  | .closed =>
    if s.running then
      s.live.map (fun _ => { s.markDisconnected with live := none, lost := s.lost + 1 })
    else none
  | .turn now dial =>
    if !s.running then none
    else if s.connected then some { s with attempt := 0, log := .connected :: s.log }
    else if s.connecting then some s
    else if now < s.nextAttempt then some s
    else
      some { s.tryConnect dial with
        nextAttempt := now + backoff s.attempt
        attempt := s.attempt + 1
        log := .tryConnect now :: s.log }

end ServiceLoop

def serviceLoop : Machine ServiceLoop LoopAct where
  init := ⟨false, false, false, none, 0, 0, 0, 0, none, none, 0, 0, []⟩
  step := ServiceLoop.step

/-- The calls of the loop since it last saw `connected_`. -/
def sinceConnected (log : List LoopEvent) : Nat := (log.takeWhile LoopEvent.isTryConnect).length

/-- The time of the latest call and what came before it. -/
def lastCall : List LoopEvent → Option (Int × List LoopEvent)
  | [] => none
  | .tryConnect time :: older => some (time, older)
  | .connected :: older => lastCall older

/-- Consecutive calls keep the pause that is due after the earlier one. -/
def Spaced : List LoopEvent → Prop
  | [] => True
  | .connected :: older => Spaced older
  | .tryConnect time :: older => Spaced older ∧
    ∀ earlier before, lastCall older = some (earlier, before) →
      backoff (sinceConnected before) ≤ time - earlier

namespace ServiceLoop

variable {s t : ServiceLoop}

structure Disciplined (s : ServiceLoop) : Prop where
  connected : s.connected = s.live.isSome
  connecting : s.connecting = s.handshake.isSome
  single : s.live = none ∨ s.handshake = none
  wsi : s.wsi = s.live.or s.handshake
  reconnects : s.reconnects = UInt64.ofNat s.lost
  attempt : s.attempt = sinceConnected s.log
  calm : s.busyCalls = 0
  idle : s.running = false → s.live = none ∧ s.handshake = none ∧ s.log = []
  spaced : Spaced s.log
  due : ∀ earlier before, lastCall s.log = some (earlier, before) →
    earlier + backoff (sinceConnected before) ≤ s.nextAttempt

theorem disciplined_init : Disciplined serviceLoop.init where
  connected := rfl
  connecting := rfl
  single := .inl rfl
  wsi := rfl
  reconnects := rfl
  attempt := rfl
  calm := rfl
  idle _ := ⟨rfl, rfl, rfl⟩
  spaced := trivial
  due := nofun

/-- Reports of an error while nothing is connected. -/
theorem repeat_markDisconnected (n : Nat) (s : ServiceLoop) (h : s.connected = false) :
    ∃ wsi connecting, n.repeat markDisconnected s =
      { s with wsi := wsi, connecting := connecting } := by
  induction n with
  | zero => exact ⟨s.wsi, s.connecting, rfl⟩
  | succ n ih =>
    obtain ⟨wsi, connecting, heq⟩ := ih
    refine ⟨none, false, ?_⟩
    rw [Nat.repeat, heq, markDisconnected]
    simp [h]

/-- A call of `TryConnect` with nothing live and no handshake under way. -/
theorem tryConnect_eq (s : ServiceLoop) (hconnected : s.connected = false) (hlive : s.live = none)
    (hshake : s.handshake = none) (dial : Dial) :
    s.tryConnect dial = { s with
      connecting := match dial with | .wsi => true | .null _ => false
      dials := s.dials + 1
      wsi := match dial with | .wsi => some (s.dials + 1) | .null _ => none
      handshake := match dial with | .wsi => some (s.dials + 1) | .null _ => none } := by
  have hbusy : (if s.live = none ∧ s.handshake = none then s.busyCalls else s.busyCalls + 1) =
      s.busyCalls := if_pos ⟨hlive, hshake⟩
  cases dial with
  | wsi => simp only [tryConnect, hbusy]
  | null reports =>
    obtain ⟨wsi, connecting, heq⟩ := repeat_markDisconnected reports
      { s with connecting := true, dials := s.dials + 1 } hconnected
    simp only [tryConnect, hbusy, heq]
    simp only [hshake]

theorem Disciplined.down (h : Disciplined s) (hconnected : s.connected = false)
    (hconnecting : s.connecting = false) : s.live = none ∧ s.handshake = none := by
  have hlive := h.connected
  have hshake := h.connecting
  rw [hconnected] at hlive
  rw [hconnecting] at hshake
  exact ⟨Option.isNone_iff_eq_none.mp (by simpa using hlive.symm),
    Option.isNone_iff_eq_none.mp (by simpa using hshake.symm)⟩

/-- A call of `TryConnect` by a loop that goes on with these counters. -/
theorem Disciplined.dialled (h : Disciplined s) (hconnected : s.connected = false)
    (hconnecting : s.connecting = false) (dial : Dial) {run : Bool} {k : Nat} (hrun : run = true)
    (hattempt : k = sinceConnected events) (hspaced : Spaced events)
    (hdue : ∀ earlier before, lastCall events = some (earlier, before) →
      earlier + backoff (sinceConnected before) ≤ next) :
    Disciplined { s.tryConnect dial with
      running := run, attempt := k, nextAttempt := next, log := events } := by
  obtain ⟨hlive, hshake⟩ := h.down hconnected hconnecting
  rw [tryConnect_eq s hconnected hlive hshake dial]
  refine ⟨h.connected, ?_, .inl hlive, ?_, h.reconnects, hattempt, h.calm,
    fun hidle => Bool.noConfusion (hrun.symm.trans hidle), hspaced, hdue⟩
  · cases dial <;> rfl
  · simp only [hlive]
    cases dial <;> rfl

theorem Disciplined.start (h : Disciplined s) (hrun : s.running = false) (dial : Dial) (now : Int) :
    Disciplined { s.tryConnect dial with running := true, attempt := 0, nextAttempt := now } := by
  obtain ⟨hlive, hshake, hlog⟩ := h.idle hrun
  have hconnected : s.connected = false := by rw [h.connected, hlive]; rfl
  have hconnecting : s.connecting = false := by rw [h.connecting, hshake]; rfl
  have hnew : (s.tryConnect dial).log = [] := by
    rw [tryConnect_eq s hconnected hlive hshake dial]
    exact hlog
  apply h.dialled hconnected hconnecting dial rfl <;> rw [hnew]
  · rfl
  · trivial
  · exact nofun

theorem Disciplined.established (h : Disciplined s) (hrun : s.running = true)
    (hn : s.handshake = some n) :
    Disciplined { s.onEstablished with handshake := none, live := some n } := by
  have hlive : s.live = none := by
    rcases h.single with hlive | hshake
    · exact hlive
    · cases hn.symm.trans hshake
  have hwsi := h.wsi
  rw [hlive, hn] at hwsi
  exact ⟨rfl, rfl, .inr rfl, hwsi, h.reconnects, h.attempt, h.calm,
    fun hidle => Bool.noConfusion (hrun.symm.trans hidle), h.spaced, h.due⟩

theorem Disciplined.connectionError (h : Disciplined s) (hrun : s.running = true)
    (hn : s.handshake = some n) : Disciplined { s.markDisconnected with handshake := none } := by
  have hlive : s.live = none := by
    rcases h.single with hlive | hshake
    · exact hlive
    · cases hn.symm.trans hshake
  have hconnected : s.connected = false := by rw [h.connected, hlive]; rfl
  refine ⟨?_, rfl, .inr rfl, ?_, ?_, h.attempt, h.calm,
    fun hidle => Bool.noConfusion (hrun.symm.trans hidle), h.spaced, h.due⟩
  · simp only [markDisconnected, hlive]
    rfl
  · simp only [markDisconnected, hlive]
    rfl
  · simp only [markDisconnected, hconnected]
    exact h.reconnects

/-- The only callback that counts a reconnect. -/
theorem Disciplined.closed (h : Disciplined s) (hrun : s.running = true)
    (hn : s.live = some n) :
    Disciplined { s.markDisconnected with live := none, lost := s.lost + 1 } := by
  have hshake : s.handshake = none := by
    rcases h.single with hlive | hshake
    · cases hn.symm.trans hlive
    · exact hshake
  have hconnected : s.connected = true := by rw [h.connected, hn]; rfl
  refine ⟨rfl, ?_, .inl rfl, ?_, ?_, h.attempt, h.calm,
    fun hidle => Bool.noConfusion (hrun.symm.trans hidle), h.spaced, h.due⟩
  · simp only [markDisconnected, hshake]
    rfl
  · simp only [markDisconnected, hshake]
    rfl
  · simp only [markDisconnected, hconnected, if_true, h.reconnects, UInt64.ofNat_add]
    rfl

/-- A turn that finds nothing connected or under way and the pause over. -/
theorem Disciplined.retry (h : Disciplined s) (hrun : s.running = true)
    (hconnected : s.connected = false) (hconnecting : s.connecting = false)
    (hdue : s.nextAttempt ≤ now) (dial : Dial) :
    Disciplined { s.tryConnect dial with
      nextAttempt := now + backoff s.attempt
      attempt := s.attempt + 1
      log := .tryConnect now :: s.log } := by
  obtain ⟨hlive, hshake⟩ := h.down hconnected hconnecting
  have hstill : (s.tryConnect dial).running = true := by
    rw [tryConnect_eq s hconnected hlive hshake dial]
    exact hrun
  apply h.dialled hconnected hconnecting dial hstill
  · rw [h.attempt]
    rfl
  · refine ⟨h.spaced, ?_⟩
    intro earlier before hlast
    have hle := h.due earlier before hlast
    omega
  · rintro _ _ ⟨⟩
    rw [h.attempt]

theorem Disciplined.turn (h : Disciplined s) (hrun : s.running = true)
    (hstep : s.step (.turn now dial) = some t) : Disciplined t := by
  simp only [ServiceLoop.step, hrun, Bool.not_true, Bool.false_eq_true, if_false] at hstep
  split_ifs at hstep with hconnected hconnecting hearly
  · cases hstep
    exact ⟨h.connected, h.connecting, h.single, h.wsi, h.reconnects, rfl, h.calm, nofun,
      h.spaced, h.due⟩
  · cases hstep
    exact h
  · cases hstep
    exact h
  · cases hstep
    exact h.retry hrun (by simpa using hconnected) (by simpa using hconnecting)
      (Int.not_lt.mp hearly) dial

theorem Disciplined.step (h : Disciplined s) (hstep : s.step a = some t) : Disciplined t := by
  cases a with
  | start dial now =>
    simp only [ServiceLoop.step] at hstep
    split_ifs at hstep with hrun
    cases hstep
    exact h.start (by simpa using hrun) dial now
  | established =>
    simp only [ServiceLoop.step] at hstep
    split_ifs at hstep with hrun
    obtain ⟨n, hn, rfl⟩ := Option.map_eq_some_iff.mp hstep
    exact h.established hrun hn
  | connectionError =>
    simp only [ServiceLoop.step] at hstep
    split_ifs at hstep with hrun
    obtain ⟨n, hn, rfl⟩ := Option.map_eq_some_iff.mp hstep
    exact h.connectionError hrun hn
  | closed =>
    simp only [ServiceLoop.step] at hstep
    split_ifs at hstep with hrun
    obtain ⟨n, hn, rfl⟩ := Option.map_eq_some_iff.mp hstep
    exact h.closed hrun hn
  | turn now dial =>
    refine h.turn ?_ hstep
    by_contra hrun
    simp [ServiceLoop.step, hrun] at hstep

/-- In every run: no call of `TryConnect` meets a connection or a handshake, the stored pointer
is that of one of them, the flags exclude each other, the reconnects are the connections lost,
and the loop keeps its pauses. -/
theorem loop_disciplined (h : serviceLoop.Reachable s) :
    s.busyCalls = 0 ∧ (∀ n, s.wsi = some n → s.live = some n ∨ s.handshake = some n) ∧
      ¬ (s.connected = true ∧ s.connecting = true) ∧ s.reconnects = UInt64.ofNat s.lost ∧
      Spaced s.log := by
  have hd : Disciplined s := h.invariant disciplined_init (fun _ _ _ hd hstep => hd.step hstep)
  refine ⟨hd.calm, ?_, ?_, hd.reconnects, hd.spaced⟩
  · intro n hn
    have hwsi := hd.wsi
    rw [hn] at hwsi
    rcases hd.single with hlive | hshake
    · rw [hlive] at hwsi
      exact .inr hwsi.symm
    · rw [hshake, Option.or_none] at hwsi
      exact .inl hwsi.symm
  · rw [hd.connected, hd.connecting]
    rcases hd.single with hlive | hshake
    · simp [hlive]
    · simp [hshake]

/-- The relay is down at first, and drops the connection later. -/
def drop : List LoopAct :=
  [.start (.null 1) 0, .turn 0 .wsi, .connectionError, .turn 400000000 .wsi, .turn 500000000 .wsi,
    .established, .turn 600000000 .wsi, .closed, .turn 700000000 .wsi, .turn 1500000000 .wsi]

theorem loop_disciplined_drop : ∃ s, serviceLoop.run serviceLoop.init drop = some s ∧
    s.log = [.tryConnect 1500000000, .connected, .tryConnect 500000000, .tryConnect 0] ∧
    s.reconnects = 1 ∧ Spaced s.log := by
  have hspaced {s : ServiceLoop} (hrun : serviceLoop.run serviceLoop.init drop = some s) :=
    (loop_disciplined (.of_run drop (.init _) hrun)).2.2.2.2
  exact ⟨_, rfl, rfl, rfl, hspaced rfl⟩

end ServiceLoop

end StreamMix.Publisher
