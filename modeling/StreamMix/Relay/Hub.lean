import StreamMix.Lib.GoChan
import StreamMix.Lib.Machine
import Mathlib.Data.Finset.Card

/-! One `Channel` with every request handler that works on it.  Subscribers are named by
the order of their allocation, handlers by the number of their request. -/

namespace StreamMix.Relay

/-- What happened to a subscriber: the length of the channel's history when it joined,
the packets whose `deliver` returned, those taken from its queue by the handler, those
discarded from the queue, those written to the socket, and the calls of `close`. -/
structure Log (Msg : Type u) where
  joined : Nat
  delivered : List Msg
  received : List Msg
  lost : List Msg
  written : List Msg
  closes : Nat

structure Subscriber (Msg : Type u) where
  send : Go.Chan Msg
  closed : Bool
  dropped : UInt64
  log : Log Msg

def newSubscriber (send : Go.Chan Msg) (joined : Nat) : Subscriber Msg :=
  ⟨send, false, 0, ⟨joined, [], [], [], [], 0⟩⟩

/-- The outcomes of `select { case s.send <- msg: default: }`. -/
inductive Offer (Msg : Type u)
  | panics
  | taken (s : Subscriber Msg)
  | full

namespace Subscriber

variable {Msg : Type u}

def offer (s : Subscriber Msg) (msg : Msg) : Offer Msg :=
  match s.send.trySend msg with
  | .panics => .panics
  | .handed c => .taken { s with
      send := c
      log.delivered := s.log.delivered ++ [msg]
      log.received := s.log.received ++ [msg] }
  | .queued c => .taken { s with send := c, log.delivered := s.log.delivered ++ [msg] }
  | .full => .full

/-- The effect of `select { case <-s.send: s.dropped++ default: }`. -/
def discard (s : Subscriber Msg) : Subscriber Msg :=
  match s.send.tryRecv with
  | .item v c => { s with
      send := c
      dropped := s.dropped + 1
      log.lost := s.log.lost ++ [v] }
  | .zero => { s with dropped := s.dropped + 1 }
  | .empty => s

/-- The default branch of the last select. -/
def giveUp (s : Subscriber Msg) (msg : Msg) : Subscriber Msg :=
  { s with
    dropped := s.dropped + 1
    log.delivered := s.log.delivered ++ [msg]
    log.lost := s.log.lost ++ [msg] }

def take (s : Subscriber Msg) (msg : Msg) (send : Go.Chan Msg) : Subscriber Msg :=
  { s with send := send, log.received := s.log.received ++ [msg] }

def wrote (s : Subscriber Msg) (msg : Msg) : Subscriber Msg :=
  { s with log.written := s.log.written ++ [msg] }

end Subscriber

inductive Phase
  | deleted | flagged | closed
  deriving DecidableEq

/-- Who holds `mu` across more than one step: a call of `unsub`, made by a handler or by
somebody else, or nobody any more after a panic. -/
inductive Mutex
  | unlocked
  | unsub (s : Nat) (phase : Phase) (caller : Option Nat)
  | abandoned
  deriving DecidableEq

structure Channel where
  id : String
  mu : Mutex
  hasPub : Bool
  subs : Finset Nat
  maxSubs : Int
  sendBuf : Int
  broadcastScratch : List Nat

def newChannel (id : String) (maxSubs sendBuf : Int) : Channel :=
  ⟨id, .unlocked, false, ∅, maxSubs, sendBuf, []⟩

/-- A call of `Broadcast` past its critical section.  `subs` is a slice of the first `len`
cells of `broadcastScratch`; `snapshot` remembers what they held under the lock. -/
structure Loop (Msg : Type u) where
  msg : Msg
  len : Nat
  pos : Nat
  snapshot : List Nat

def Loop.succ (l : Loop Msg) : Loop Msg := { l with pos := l.pos + 1 }

/-- The three selects of `deliver`. -/
inductive Stage
  | first | second | third
  deriving DecidableEq

/-- Where a `handlePublish` stands.  In `deliver`, `depth` is the length of the queue when
the call began. -/
inductive PublisherPc (Msg : Type u)
  | idle
  | refused
  | accept
  | subprotocol
  | read
  | broadcast (msg : Msg)
  | range (l : Loop Msg)
  | deliver (l : Loop Msg) (s : Nat) (depth : Nat) (stage : Stage)
  | release
  | returned
  | crashed

/-- Where a panic leads: `deliver` recovers, nothing else does. -/
def PublisherPc.unwind : PublisherPc Msg → PublisherPc Msg
  | .deliver l _ _ _ => .range l.succ
  | _ => .crashed

inductive SubscriberPc (Msg : Type u)
  | idle
  | refused
  | accept (s : Nat)
  | subprotocol (s : Nat)
  | select (s : Nat)
  | write (s : Nat) (msg : Msg)
  | unsub (s : Nat)
  | returned
  | crashed

/-- `heap` is used up to `next`.  `history` holds the packets of every `Broadcast`, and
`unsubbed` the subscribers whose `unsub` has run. -/
structure Hub (Msg : Type u) where
  ch : Channel
  heap : Nat → Subscriber Msg
  next : Nat
  publisher : Nat → PublisherPc Msg
  subscriber : Nat → SubscriberPc Msg
  history : List Msg
  unsubbed : Finset Nat

inductive PublisherAct (Msg : Type u)
  | claim
  | accept (ok : Bool)
  | subprotocol (ok : Bool)
  | readError
  | read (binary : Bool) (msg : Msg)
  | snapshot (order : List Nat)
  | next
  | deliver
  | release

inductive SubscriberAct
  | subscribe
  | accept (ok : Bool)
  | subprotocol (ok : Bool)
  | receive
  | park
  | wake
  | done
  | write (ok : Bool)
  | unsub
  deriving DecidableEq

/-- An `unsub` is a call from outside the handlers, `unlock` the next step of the call that
holds the mutex. -/
inductive HubAct (Msg : Type u)
  | publisher (r : Nat) (a : PublisherAct Msg)
  | subscriber (r : Nat) (a : SubscriberAct)
  | unsub (s : Nat)
  | unlock

namespace Hub

variable {Msg : Type u}

def setPublisher (h : Hub Msg) (r : Nat) (pc : PublisherPc Msg) : Hub Msg :=
  { h with publisher := Function.update h.publisher r pc }

def setSubscriber (h : Hub Msg) (r : Nat) (pc : SubscriberPc Msg) : Hub Msg :=
  { h with subscriber := Function.update h.subscriber r pc }

def setHeap (h : Hub Msg) (s : Nat) (x : Subscriber Msg) : Hub Msg :=
  { h with heap := Function.update h.heap s x }

def setCaller (h : Hub Msg) (caller : Option Nat) (pc : SubscriberPc Msg) : Hub Msg :=
  match caller with
  | some r => h.setSubscriber r pc
  | none => h

def claimPublisher (h : Hub Msg) (r : Nat) : Hub Msg :=
  if h.ch.hasPub then h.setPublisher r .refused
  else { h with ch.hasPub := true }.setPublisher r .accept

def releasePublisher (h : Hub Msg) (r : Nat) : Hub Msg :=
  { h with ch.hasPub := false }.setPublisher r .returned

/-- The critical section of `Broadcast`.  `append` refills the scratch slice from its
start, so the cells past the new length keep what they held. -/
def snapshot (h : Hub Msg) (r : Nat) (msg : Msg) (order : List Nat) : Hub Msg :=
  { h with
    ch.broadcastScratch := order ++ h.ch.broadcastScratch.drop order.length
    history := h.history ++ [msg] }.setPublisher r (.range ⟨msg, order.length, 0, order⟩)

def next? (h : Hub Msg) (l : Loop Msg) : PublisherPc Msg :=
  if l.pos < l.len then
    let s := h.ch.broadcastScratch.getD l.pos 0
    if (h.heap s).closed then .range l.succ
    else .deliver l s (h.heap s).send.buf.length .first
  else .read

def deliver (h : Hub Msg) (r : Nat) (l : Loop Msg) (s depth : Nat) (stage : Stage) : Hub Msg :=
  match stage with
  | .first =>
    match (h.heap s).offer l.msg with
    | .panics => h.setPublisher r (PublisherPc.deliver l s depth .first).unwind
    | .taken x => (h.setHeap s x).setPublisher r (.range l.succ)
    | .full => h.setPublisher r (.deliver l s depth .second)
  | .second => (h.setHeap s (h.heap s).discard).setPublisher r (.deliver l s depth .third)
  | .third =>
    match (h.heap s).offer l.msg with
    | .panics => h.setPublisher r (PublisherPc.deliver l s depth .third).unwind
    | .taken x => (h.setHeap s x).setPublisher r (.range l.succ)
    | .full => (h.setHeap s ((h.heap s).giveUp l.msg)).setPublisher r (.range l.succ)

def stepPublisher (sniff : Msg → Bool) (h : Hub Msg) (r : Nat) (a : PublisherAct Msg) :
    Option (Hub Msg) :=
  match h.publisher r, a with
  | .idle, .claim => if h.ch.mu = .unlocked then some (h.claimPublisher r) else none
  | .accept, .accept ok => some (h.setPublisher r (if ok then .subprotocol else .release))
  | .subprotocol, .subprotocol ok => some (h.setPublisher r (if ok then .read else .release))
  | .read, .readError => some (h.setPublisher r .release)
  | .read, .read binary msg =>
    some (h.setPublisher r (if binary && sniff msg then .broadcast msg else .release))
  | .broadcast msg, .snapshot order =>
    if h.ch.mu = .unlocked ∧ order.Nodup ∧ order.toFinset = h.ch.subs then
      some (h.snapshot r msg order)
    else none
  | .range l, .next => some (h.setPublisher r (h.next? l))
  | .deliver l s depth stage, .deliver => some (h.deliver r l s depth stage)
  | .release, .release => if h.ch.mu = .unlocked then some (h.releasePublisher r) else none
  | _, _ => none

def subscribe (h : Hub Msg) (r : Nat) : Hub Msg :=
  if h.ch.maxSubs ≤ h.ch.subs.card then h.setSubscriber r .refused
  else
    match Go.Chan.make h.ch.sendBuf with
    | none => { h with ch.mu := .abandoned }.setSubscriber r .crashed
    | some send =>
      { h with
        ch.subs := insert h.next h.ch.subs
        heap := Function.update h.heap h.next (newSubscriber send h.history.length)
        next := h.next + 1 }.setSubscriber r (.accept h.next)

/-- The start of `unsub`, up to the deletion from the map. -/
def callUnsub (h : Hub Msg) (s : Nat) (caller : Option Nat) : Hub Msg :=
  if s ∈ h.ch.subs then
    { h with
      ch.subs := h.ch.subs.erase s
      ch.mu := .unsub s .deleted caller
      unsubbed := insert s h.unsubbed }
  else { h with unsubbed := insert s h.unsubbed }.setCaller caller .returned

def receive (h : Hub Msg) (r s : Nat) : Option (Hub Msg) :=
  match (h.heap s).send.tryRecv with
  | .item v c => some ((h.setHeap s ((h.heap s).take v c)).setSubscriber r (.write s v))
  | .zero => some (h.setSubscriber r (.unsub s))
  | .empty => none

def stepSubscriber (h : Hub Msg) (r : Nat) (a : SubscriberAct) : Option (Hub Msg) :=
  match h.subscriber r, a with
  | .idle, .subscribe => if h.ch.mu = .unlocked then some (h.subscribe r) else none
  | .accept s, .accept ok => some (h.setSubscriber r (if ok then .subprotocol s else .unsub s))
  | .subprotocol s, .subprotocol ok =>
    some (h.setSubscriber r (if ok then .select s else .unsub s))
  | .select s, .receive =>
    match (h.heap s).send.receiver with
    | .running => h.receive r s
    | _ => none
  | .select s, .park =>
    match (h.heap s).send.receiver with
    | .running => (h.heap s).send.park.map (fun c => h.setHeap s { h.heap s with send := c })
    | _ => none
  | .select s, .wake =>
    match (h.heap s).send.receiver with
    | .woken v =>
      let woken := h.setHeap s { h.heap s with send := (h.heap s).send.resume }
      some (woken.setSubscriber r (v.elim (.unsub s) (.write s)))
    | _ => none
  | .select s, .done =>
    match (h.heap s).send.receiver with
    | .woken _ => none
    | _ =>
      let woken := h.setHeap s { h.heap s with send := (h.heap s).send.resume }
      some (woken.setSubscriber r (.unsub s))
  | .write s msg, .write ok =>
    if ok then some ((h.setHeap s ((h.heap s).wrote msg)).setSubscriber r (.select s))
    else some (h.setSubscriber r (.unsub s))
  | .unsub s, .unsub => if h.ch.mu = .unlocked then some (h.callUnsub s (some r)) else none
  | _, _ => none

/-- The rest of `unsub`: the flag, the close, the unlock. -/
def stepUnlock (h : Hub Msg) : Option (Hub Msg) :=
  match h.ch.mu with
  | .unsub s .deleted caller =>
    some ({ h with ch.mu := .unsub s .flagged caller }.setHeap s { h.heap s with closed := true })
  | .unsub s .flagged caller =>
    match (h.heap s).send.close with
    | none => some ({ h with ch.mu := .abandoned }.setCaller caller .crashed)
    | some c =>
      some ({ h with ch.mu := .unsub s .closed caller }.setHeap s
        { h.heap s with send := c, log.closes := (h.heap s).log.closes + 1 })
  | .unsub _ .closed caller => some ({ h with ch.mu := .unlocked }.setCaller caller .returned)
  | _ => none

def step (sniff : Msg → Bool) (h : Hub Msg) : HubAct Msg → Option (Hub Msg)
  | .publisher r a => h.stepPublisher sniff r a
  | .subscriber r a => h.stepSubscriber r a
  | .unsub s => if h.ch.mu = .unlocked ∧ s < h.next then some (h.callUnsub s none) else none
  | .unlock => h.stepUnlock

theorem nil_fits : ([] : List Msg).length ≤ 0 := Nat.le_refl 0

theorem running_waits (h : (Go.Receiver.running : Go.Receiver Msg).isParked = true) :
    ([] : List Msg) = [] ∧ false = false := by
  cases h

def fresh (ch : Channel) : Hub Msg :=
  ⟨ch, fun _ => newSubscriber ⟨0, [], false, .running, nil_fits, running_waits⟩ 0, 0,
    fun _ => .idle, fun _ => .idle, [], ∅⟩

end Hub

def hub (sniff : Msg → Bool) (id : String) (maxSubs sendBuf : Int) :
    Machine (Hub Msg) (HubAct Msg) :=
  ⟨Hub.fresh (newChannel id maxSubs sendBuf), Hub.step sniff⟩

end StreamMix.Relay
