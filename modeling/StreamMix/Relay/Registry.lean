import StreamMix.Relay.Hub

/-! The registry of hubs, its reaper, and the requests of the relay.  Hubs are named by
the order of their creation: a `*Channel` keeps its name when the registry forgets it. -/

namespace StreamMix.Relay

def isChannelName (name : List Char) : Bool :=
  1 ≤ name.length && name.length ≤ 64 &&
    name.all (fun c => ('a' ≤ c && c ≤ 'z') || ('0' ≤ c && c ≤ '9') || c == '_')

/-- The expression `^(twitch|kick):[a-z0-9_]{1,64}$`. -/
def validateChannelID (id : String) : Bool :=
  match id.toList with
  | 't' :: 'w' :: 'i' :: 't' :: 'c' :: 'h' :: ':' :: name => isChannelName name
  | 'k' :: 'i' :: 'c' :: 'k' :: ':' :: name => isChannelName name
  | _ => false

structure Stats where
  hasPublisher : Bool
  subscribers : Nat

def Channel.stats (ch : Channel) : Stats := ⟨ch.hasPub, ch.subs.card⟩

inductive Role
  | publish | subscribe
  deriving DecidableEq

/-- A request before its `GetOrCreate`, refused by it, or with the hub it returned. -/
inductive Request
  | waiting
  | rejected
  | bound (role : Role) (id : String) (n : Nat)
  deriving DecidableEq

/-- `Reap` holds the registry's mutex from its first step to its last. -/
inductive Reaper
  | idle
  | visiting (todo : List (String × Nat))
  | read (id : String) (n : Nat) (stats : Stats) (todo : List (String × Nat))

structure Limits where
  maxChannels : Int
  maxSubs : Int
  sendBuf : Int

structure Server (Msg : Type u) where
  channels : List (String × Nat)
  hubs : Nat → Hub Msg
  created : Nat
  request : Nat → Request
  reaper : Reaper

inductive ServerAct (Msg : Type u)
  | get (r : Nat) (role : Role) (id : String)
  | hub (n : Nat) (a : HubAct Msg)
  | reap (order : List (String × Nat))
  | stats
  | delete
  | unlock

namespace Server

variable {Msg : Type u}

def setRequest (R : Server Msg) (r : Nat) (q : Request) : Server Msg :=
  { R with request := Function.update R.request r q }

def create (lim : Limits) (R : Server Msg) (id : String) : Server Msg :=
  { R with
    channels := (id, R.created) :: R.channels
    hubs := Function.update R.hubs R.created (.fresh (newChannel id lim.maxSubs lim.sendBuf))
    created := R.created + 1 }

def getOrCreate (lim : Limits) (R : Server Msg) (r : Nat) (role : Role) (id : String) : Server Msg :=
  if !validateChannelID id then R.setRequest r .rejected
  else
    match R.channels.lookup id with
    | some n => R.setRequest r (.bound role id n)
    | none =>
      if lim.maxChannels ≤ R.channels.length then R.setRequest r .rejected
      else (R.create lim id).setRequest r (.bound role id R.created)

/-- The steps on hub `n` that the handlers of the relay take. -/
def mayAct (R : Server Msg) (n : Nat) : HubAct Msg → Bool
  | .publisher r _ =>
    match R.request r with
    | .bound .publish _ m => m == n
    | _ => false
  | .subscriber r _ =>
    match R.request r with
    | .bound .subscribe _ m => m == n
    | _ => false
  | .unsub _ => false
  | .unlock => true

def isIdle (s : Stats) : Bool := !s.hasPublisher && s.subscribers == 0

def step (sniff : Msg → Bool) (lim : Limits) (R : Server Msg) : ServerAct Msg → Option (Server Msg)
  | .get r role id =>
    match R.request r, R.reaper with
    | .waiting, .idle => some (R.getOrCreate lim r role id)
    | _, _ => none
  | .hub n a =>
    if R.mayAct n a then
      ((R.hubs n).step sniff a).map (fun h => { R with hubs := Function.update R.hubs n h })
    else none
  | .reap order =>
    match R.reaper with
    | .idle => if order.isPerm R.channels then some { R with reaper := .visiting order } else none
    | _ => none
  | .stats =>
    match R.reaper with
    | .visiting ((id, n) :: todo) =>
      if (R.hubs n).ch.mu = .unlocked then
        some { R with reaper := .read id n (R.hubs n).ch.stats todo }
      else none
    | _ => none
  | .delete =>
    match R.reaper with
    | .read id _ stats todo =>
      some { R with
        channels := if isIdle stats then R.channels.filter (fun e => e.1 ≠ id) else R.channels
        reaper := .visiting todo }
    | _ => none
  | .unlock =>
    match R.reaper with
    | .visiting [] => some { R with reaper := .idle }
    | _ => none

/-- What each step finds and what it leaves. -/
inductive Moves (sniff : Msg → Bool) (lim : Limits) (R : Server Msg) :
    ServerAct Msg → Server Msg → Prop
  | get (hr : R.request r = .waiting) (role : Role) (id : String) :
    Moves sniff lim R (.get r role id) (R.getOrCreate lim r role id)
  | hub (hact : R.mayAct n a = true) (hh : (R.hubs n).step sniff a = some h) :
    Moves sniff lim R (.hub n a) { R with hubs := Function.update R.hubs n h }
  | reap (hperm : order.isPerm R.channels = true) :
    Moves sniff lim R (.reap order) { R with reaper := .visiting order }
  | stats {id : String} (hr : R.reaper = .visiting ((id, n) :: todo)) :
    Moves sniff lim R .stats { R with reaper := .read id n (R.hubs n).ch.stats todo }
  | delete {id : String} (hr : R.reaper = .read id n stats todo) :
    Moves sniff lim R .delete { R with
      channels := if isIdle stats then R.channels.filter (fun e => e.1 ≠ id) else R.channels
      reaper := .visiting todo }
  | unlock : Moves sniff lim R .unlock { R with reaper := .idle }

theorem moves_of_step {sniff : Msg → Bool} {lim : Limits} {R T : Server Msg} {a : ServerAct Msg}
    (he : R.step sniff lim a = some T) :
    Moves sniff lim R a T := by
  cases a with
  | get r role id =>
    simp only [Server.step] at he
    split at he <;> cases he
    next hr _ => exact .get hr role id
  | hub n a =>
    simp only [Server.step] at he
    split at he
    · next hact =>
      obtain ⟨h, hh, rfl⟩ := Option.map_eq_some_iff.mp he
      exact .hub hact hh
    · cases he
  | reap order =>
    simp only [Server.step] at he
    split at he
    · split at he <;> cases he
      next hperm => exact .reap hperm
    · cases he
  | stats =>
    simp only [Server.step] at he
    split at he
    · next hr =>
      split at he <;> cases he
      exact .stats hr
    · cases he
  | delete =>
    simp only [Server.step] at he
    split at he
    · next hr =>
      cases he
      exact .delete hr
    · cases he
  | unlock =>
    simp only [Server.step] at he
    split at he <;> cases he
    exact .unlock

end Server

def server (sniff : Msg → Bool) (lim : Limits) : Machine (Server Msg) (ServerAct Msg) :=
  ⟨⟨[], fun _ => .fresh (newChannel "" lim.maxSubs lim.sendBuf), 0, fun _ => .waiting, .idle⟩,
    Server.step sniff lim⟩

end StreamMix.Relay
