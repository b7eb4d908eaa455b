import Mathlib.Data.List.Infix
import StreamMix.Lib.Machine

/-! `connect`: the subscriber's socket and its reconnect timer.  A socket is named by the order
of its construction. -/

namespace StreamMix.Extension

def reconnectBackoffMs : List Nat := [500, 1000, 2000, 5000, 15000]

/-- The pause that `scheduleReconnect` takes from the table. -/
def reconnectWait (attempt : Nat) : Nat :=
  reconnectBackoffMs.get ⟨min attempt (reconnectBackoffMs.length - 1),
    Nat.lt_of_le_of_lt (Nat.min_le_right ..) (by decide)⟩

/-- A socket was constructed (after the pause of a timer, unless by `connect` itself), opened or
closed, or `close` was called. -/
inductive ClientEvent
  | constructed (wait : Option Nat)
  | opened
  | socketClosed
  | hangUp
  deriving DecidableEq

/-- `live` holds the sockets that have not fired `onclose`, `timers` the pauses of the timers
that have not fired, and `log` what happened, the latest event first. -/
structure RelayClient where
  closed : Bool
  attempt : Nat
  ws : Option Nat
  constructed : Nat
  live : List Nat
  timers : List Nat
  log : List ClientEvent

/-- An event of a socket, the firing of a timer, or a call of `close`. -/
inductive ClientStep
  | onopen (socket : Nat)
  | onmessage (socket : Nat)
  | onerror (socket : Nat)
  | onclose (socket : Nat)
  | fire (timer : Nat)
  | close
  deriving DecidableEq

namespace RelayClient

/-- The function `open`. -/
def openSocket (c : RelayClient) (wait : Option Nat) : RelayClient :=
  if c.closed then c
  else { c with
    ws := some c.constructed
    constructed := c.constructed + 1
    live := c.constructed :: c.live
    log := .constructed wait :: c.log }

def scheduleReconnect (c : RelayClient) : RelayClient :=
  if c.closed then c
  else { c with
    timers := reconnectWait c.attempt :: c.timers
    attempt := c.attempt + 1 }

def onclose (c : RelayClient) (socket : Nat) : RelayClient :=
  let c := { c with ws := none, live := c.live.erase socket, log := .socketClosed :: c.log }
  if !c.closed then c.scheduleReconnect else c

/-- A socket fires nothing after `onclose`. -/
def step (c : RelayClient) : ClientStep → Option RelayClient
  | .onopen socket =>
    if socket ∈ c.live then some { c with attempt := 0, log := .opened :: c.log } else none
  | .onmessage socket | .onerror socket => if socket ∈ c.live then some c else none
  | .onclose socket => if socket ∈ c.live then some (c.onclose socket) else none
  | .fire timer =>
    c.timers[timer]?.map (fun wait =>
      { c with timers := c.timers.eraseIdx timer }.openSocket (some wait))
  -- the socket that `close` is called on fires `onclose` later
  | .close => some { c with closed := true, log := .hangUp :: c.log }

end RelayClient

def connect : RelayClient := RelayClient.openSocket ⟨false, 0, none, 0, [], [], []⟩ none

def relayClient : Machine RelayClient ClientStep := ⟨connect, RelayClient.step⟩

/-- The closes since the last successful open, or since the start. -/
def closesSinceOpen : List ClientEvent → Nat
  | [] => 0
  | .opened :: _ => 0
  | .socketClosed :: older => closesSinceOpen older + 1
  | .constructed _ :: older | .hangUp :: older => closesSinceOpen older

/-- A pause behind the latest close, by the closes before that one. -/
def Due (wait : Nat) (log : List ClientEvent) : Prop :=
  ∃ k, closesSinceOpen log = k + 1 ∧ wait = reconnectWait k

namespace RelayClient

variable {c d : RelayClient}

structure Sound (c : RelayClient) : Prop where
  single : (∃ n, c.live = [n] ∧ c.timers = []) ∨ (c.live = [] ∧ c.timers.length ≤ 1)
  ws : c.ws = c.live.head?
  busy : c.closed = false → c.live ≠ [] ∨ c.timers ≠ []
  attempt : c.closed = false → c.attempt = closesSinceOpen c.log
  due : ∀ wait ∈ c.timers, Due wait c.log
  hangUp : c.closed = true ↔ .hangUp ∈ c.log
  log : ∀ wait older, .constructed wait :: older <:+ c.log →
    .hangUp ∉ older ∧ ((wait = none ∧ older = []) ∨ ∃ w, wait = some w ∧ Due w older)

theorem Sound.of_live (h : c.Sound) (hn : n ∈ c.live) : c.live = [n] ∧ c.timers = [] := by
  obtain ⟨m, hlive, htimers⟩ | ⟨hlive, -⟩ := h.single
  · rw [hlive, List.mem_singleton] at hn
    rw [hn]
    exact ⟨hlive, htimers⟩
  · rw [hlive] at hn
    cases hn

theorem Sound.of_timer (h : c.Sound) (hw : c.timers[i]? = some wait) :
    c.live = [] ∧ c.timers = [wait] ∧ c.timers.eraseIdx i = [] := by
  obtain ⟨m, -, htimers⟩ | ⟨hlive, hlen⟩ := h.single
  · rw [htimers] at hw
    cases hw
  · obtain ⟨hi, hget⟩ := List.getElem?_eq_some_iff.mp hw
    obtain ⟨w, htimers⟩ := List.length_eq_one_iff.mp (show c.timers.length = 1 by omega)
    obtain rfl : i = 0 := by omega
    simp only [htimers, List.getElem_cons_zero] at hget
    subst hget
    exact ⟨hlive, htimers, by rw [htimers]; rfl⟩

/-- An event that is no construction. -/
theorem Sound.snoc (h : c.Sound) (e : ClientEvent) (he : ∀ wait, e ≠ .constructed wait) :
    ∀ wait older, .constructed wait :: older <:+ e :: c.log →
      .hangUp ∉ older ∧ ((wait = none ∧ older = []) ∨ ∃ w, wait = some w ∧ Due w older) := by
  intro wait older hsuffix
  obtain heq | hsuffix := List.suffix_cons_iff.mp hsuffix
  · exact absurd (List.cons.inj heq).1.symm (he wait)
  · exact h.log wait older hsuffix

theorem sound_connect : connect.Sound where
  single := .inl ⟨0, rfl, rfl⟩
  ws := rfl
  busy _ := .inl (List.cons_ne_nil _ _)
  attempt _ := rfl
  due := by simp [connect, openSocket]
  hangUp := by simp [connect, openSocket]
  log := by
    intro wait older hsuffix
    obtain heq | hsuffix := List.suffix_cons_iff.mp hsuffix
    · obtain ⟨hwait, rfl⟩ := List.cons.inj heq
      cases hwait
      exact ⟨List.not_mem_nil, .inl ⟨rfl, rfl⟩⟩
    · cases List.suffix_nil.mp hsuffix

theorem Sound.onopen (h : c.Sound) (hn : n ∈ c.live) :
    Sound { c with attempt := 0, log := .opened :: c.log } where
  single := h.single
  ws := h.ws
  busy := h.busy
  attempt _ := rfl
  due := by simp [(h.of_live hn).2]
  hangUp := h.hangUp.trans (by simp)
  log := h.snoc .opened (by simp)

theorem onclose_closed (hclosed : c.closed = true) : c.onclose n =
    { c with ws := none, live := c.live.erase n, log := .socketClosed :: c.log } := by
  simp [RelayClient.onclose, hclosed]

theorem onclose_open (hclosed : c.closed = false) : c.onclose n =
    { c with
      ws := none
      live := c.live.erase n
      timers := reconnectWait c.attempt :: c.timers
      attempt := c.attempt + 1
      log := .socketClosed :: c.log } := by
  simp [RelayClient.onclose, scheduleReconnect, hclosed]

theorem Sound.onclose (h : c.Sound) (hn : n ∈ c.live) : (c.onclose n).Sound := by
  obtain ⟨hlive, htimers⟩ := h.of_live hn
  have herase : c.live.erase n = [] := by rw [hlive, List.erase_cons_head]
  have hlog := h.snoc .socketClosed (by simp)
  have hhangUp : c.closed = true ↔ .hangUp ∈ ClientEvent.socketClosed :: c.log :=
    h.hangUp.trans (by simp)
  by_cases hclosed : c.closed = true
  · rw [onclose_closed hclosed, herase, htimers]
    exact ⟨.inr ⟨rfl, Nat.zero_le 1⟩, rfl, by simp [hclosed], by simp [hclosed], by simp,
      hhangUp, hlog⟩
  · have hopen : c.closed = false := by simpa using hclosed
    have hattempt := h.attempt hopen
    rw [onclose_open hopen, herase, htimers]
    refine ⟨.inr ⟨rfl, Nat.le_refl 1⟩, rfl, fun _ => .inr (List.cons_ne_nil _ _),
      fun _ => congrArg Nat.succ hattempt, ?_, hhangUp, hlog⟩
    intro wait hwait
    rw [List.mem_singleton.mp hwait]
    exact ⟨c.attempt, congrArg Nat.succ hattempt.symm, rfl⟩

theorem Sound.fire (h : c.Sound) (hw : c.timers[i]? = some wait) :
    (openSocket { c with timers := c.timers.eraseIdx i } (some wait)).Sound := by
  obtain ⟨hlive, htimers, herase⟩ := h.of_timer hw
  have hdue : Due wait c.log := h.due wait (by rw [htimers]; exact List.mem_singleton_self wait)
  by_cases hclosed : c.closed = true
  · rw [openSocket, if_pos hclosed, herase]
    exact ⟨.inr ⟨hlive, Nat.zero_le 1⟩, h.ws, by simp [hclosed], h.attempt, by simp, h.hangUp,
      h.log⟩
  · have hquiet : .hangUp ∉ c.log := by rwa [h.hangUp] at hclosed
    rw [openSocket, if_neg hclosed, herase, hlive]
    refine ⟨.inl ⟨_, rfl, rfl⟩, rfl, fun _ => .inl (List.cons_ne_nil _ _), h.attempt, by simp,
      h.hangUp.trans (by simp), ?_⟩
    intro wait' older hsuffix
    obtain heq | hsuffix := List.suffix_cons_iff.mp hsuffix
    · obtain ⟨hwait, rfl⟩ := List.cons.inj heq
      cases hwait
      exact ⟨hquiet, .inr ⟨wait, rfl, hdue⟩⟩
    · exact h.log wait' older hsuffix

theorem Sound.close (h : c.Sound) : Sound { c with closed := true, log := .hangUp :: c.log } where
  single := h.single
  ws := h.ws
  busy := by simp
  attempt := by simp
  due := h.due
  hangUp := by simp
  log := h.snoc .hangUp (by simp)

theorem Sound.step (h : c.Sound) (hstep : c.step a = some d) : d.Sound := by
  cases a with
  | onopen n =>
    simp only [RelayClient.step, Option.ite_none_right_eq_some, Option.some.injEq] at hstep
    obtain ⟨hn, rfl⟩ := hstep
    exact h.onopen hn
  | onmessage n | onerror n =>
    simp only [RelayClient.step, Option.ite_none_right_eq_some, Option.some.injEq] at hstep
    obtain ⟨-, rfl⟩ := hstep
    exact h
  | onclose n =>
    simp only [RelayClient.step, Option.ite_none_right_eq_some, Option.some.injEq] at hstep
    obtain ⟨hn, rfl⟩ := hstep
    exact h.onclose hn
  | fire i =>
    obtain ⟨wait, hw, rfl⟩ := Option.map_eq_some_iff.mp hstep
    exact h.fire hw
  | close =>
    cases hstep
    exact h.close

/-- In every run: at most one live socket or pending timer, and one of them until `close` is
called; no socket is constructed after that; and each socket but the first comes after a pause
that was due, as is the pause of a pending timer. -/
theorem client_sound (h : relayClient.Reachable c) :
    c.live.length + c.timers.length ≤ 1 ∧
      (.hangUp ∉ c.log → c.live.length + c.timers.length = 1) ∧
      (∀ wait older, .constructed wait :: older <:+ c.log →
        .hangUp ∉ older ∧ ((wait = none ∧ older = []) ∨ ∃ w, wait = some w ∧ Due w older)) ∧
      ∀ wait ∈ c.timers, Due wait c.log := by
  have hs : c.Sound := h.invariant sound_connect (fun _ _ _ hs hstep => hs.step hstep)
  refine ⟨?_, fun hquiet => ?_, hs.log, hs.due⟩
  · obtain ⟨n, hlive, htimers⟩ | ⟨hlive, hlen⟩ := hs.single
    · simp [hlive, htimers]
    · simpa [hlive] using hlen
  · have hopen : c.closed = false := by
      rw [← hs.hangUp] at hquiet
      simpa using hquiet
    obtain ⟨n, hlive, htimers⟩ | ⟨hlive, hlen⟩ := hs.single
    · simp [hlive, htimers]
    · have htimers : c.timers ≠ [] := (hs.busy hopen).resolve_left (fun h => h hlive)
      have hpos := List.length_pos_iff.mpr htimers
      rw [hlive]
      simp only [List.length_nil]
      omega

/-- The relay refuses twice, takes the third socket and loses it, and the panel is left while the
timer for the fourth runs. -/
def refused : List ClientStep :=
  [.onclose 0, .fire 0, .onclose 1, .fire 0, .onopen 2, .onmessage 2, .onclose 2, .close, .fire 0]

theorem client_sound_refused : ∃ c, relayClient.run connect refused = some c ∧
    c.log = [.hangUp, .socketClosed, .opened, .constructed (some 1000), .socketClosed,
      .constructed (some 500), .socketClosed, .constructed none] ∧
    c.live.length + c.timers.length ≤ 1 := by
  have hsingle {c : RelayClient} (hrun : relayClient.run connect refused = some c) :=
    (client_sound (.of_run refused (.init relayClient) hrun)).1
  exact ⟨_, rfl, rfl, hsingle rfl⟩

end RelayClient

end StreamMix.Extension
