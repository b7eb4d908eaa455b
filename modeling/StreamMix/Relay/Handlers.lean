import StreamMix.Relay.Echoes
import StreamMix.Relay.Gate
import StreamMix.Relay.OneHub

/-! The HTTP handlers of the relay over its parts: the limiter and the token check before the
registry, the hubs behind it, and the counters of both. -/

namespace StreamMix.Relay

open GoTime (Time)
open Wire (Bytes magicMatches)

/-- Where `handlePublish` stands before its `GetOrCreate`. -/
inductive Publish
  | arrived
  | blocked
  | admitted (q : PublishRequest)
  | rejected (q : PublishRequest)
  | failed (q : PublishRequest)
  | verified (q : PublishRequest)
  | authorised (q : PublishRequest)
  | answered (status : Nat)
  deriving DecidableEq

/-- The calls of `Add` that are left of a turn of the read loop. -/
inductive Tally
  | done
  | packets (msg : Bytes)
  | bytes (msg : Bytes)
  deriving DecidableEq

structure RelayServer where
  gate : Gate
  relay : Server Bytes
  publish : Nat → Publish
  tally : Nat → Tally
  packetsRelayed : UInt64
  bytesRelayed : UInt64
  authFailures : UInt64
  authBlocked : UInt64

/-- `refuse` is a subscribe request with a bad channel id. -/
inductive HandlerAct
  | allowed (r : Nat) (q : PublishRequest) (now : Int)
  | countBlocked (r : Nat)
  | verify (r : Nat) (now : Time)
  | countFailure (r : Nat)
  | recordFailure (r : Nat) (now : Int)
  | recordSuccess (r : Nat)
  | refuse (r : Nat) (id : String)
  | relay (a : ServerAct Bytes)
  | countPacket (r : Nat)
  | countBytes (r : Nat)

def hasMagic (data : Bytes) : Bool := 4 ≤ data.length && magicMatches data

def statusTooManyRequests : Nat := 429
def statusBadRequest : Nat := 400
def statusUnauthorized : Nat := 401

namespace RelayServer

def setPublish (y : RelayServer) (r : Nat) (p : Publish) : RelayServer :=
  { y with publish := Function.update y.publish r p }

def setTally (y : RelayServer) (r : Nat) (t : Tally) : RelayServer :=
  { y with tally := Function.update y.tally r t }

/-- A request is for one of the two paths, and the read loop makes one call after the other. -/
def admits (y : RelayServer) : ServerAct Bytes → Bool
  | .get r .publish id =>
    match y.publish r with
    | .authorised q => channelString q.channelID == id
    | _ => false
  | .get r .subscribe id => validateChannelID id && y.publish r == .arrived
  | .hub _ (.publisher r _) => y.tally r == .done
  | _ => true

/-- The `Broadcast` of a handler has returned. -/
def returned (before after : PublisherPc Bytes) : Option Bytes :=
  match before, after with
  | .range l, .read => some l.msg
  | _, _ => none

def settle (y : RelayServer) (R : Server Bytes) : ServerAct Bytes → RelayServer
  | .hub n (.publisher r _) =>
    match returned ((y.relay.hubs n).publisher r) ((R.hubs n).publisher r) with
    | some msg => { y with relay := R }.setTally r (.packets msg)
    | none => { y with relay := R }
  | _ => { y with relay := R }

section

variable (hmac : Bytes → Bytes → Bytes) (secret : Bytes) (lim : Limits)

def step (y : RelayServer) : HandlerAct → Option RelayServer
  | .allowed r q now =>
    match y.publish r, y.relay.request r with
    | .arrived, .waiting => (y.gate.step hmac secret (.allowed q now)).map (fun g =>
        { y with gate := g }.setPublish r
          (if (y.gate.limiter.allowed q.ip now).1 then .admitted q else .blocked))
    | _, _ => none
  | .countBlocked r =>
    match y.publish r with
    | .blocked => some ({ y with authBlocked := y.authBlocked + 1 }.setPublish r
        (.answered statusTooManyRequests))
    | _ => none
  | .verify r now =>
    match y.publish r with
    | .admitted q => (y.gate.step hmac secret (.verify q now)).map (fun g =>
        { y with gate := g }.setPublish r
          (if !validateChannelID (channelString q.channelID) then .answered statusBadRequest
          else
            match verifyToken hmac secret q.channelID q.token now with
            | .error _ => .rejected q
            | .ok () => .verified q))
    | _ => none
  | .countFailure r =>
    match y.publish r with
    | .rejected q => some ({ y with authFailures := y.authFailures + 1 }.setPublish r (.failed q))
    | _ => none
  | .recordFailure r now =>
    match y.publish r with
    | .failed q => (y.gate.step hmac secret (.recordFailure q now)).map (fun g =>
        { y with gate := g }.setPublish r (.answered statusUnauthorized))
    | _ => none
  | .recordSuccess r =>
    match y.publish r with
    | .verified q => (y.gate.step hmac secret (.recordSuccess q)).map (fun g =>
        { y with gate := g }.setPublish r (.authorised q))
    | _ => none
  | .refuse r id =>
    match y.publish r, y.relay.request r with
    | .arrived, .waiting =>
      if validateChannelID id then none
      else some (y.setPublish r (.answered statusBadRequest))
    | _, _ => none
  | .relay a =>
    if y.admits a then (y.relay.step hasMagic lim a).map (fun R => y.settle R a) else none
  | .countPacket r =>
    match y.tally r with
    | .packets msg =>
      some ({ y with packetsRelayed := y.packetsRelayed + 1 }.setTally r (.bytes msg))
    | _ => none
  | .countBytes r =>
    match y.tally r with
    | .bytes msg => some ({ y with
        bytesRelayed := y.bytesRelayed + UInt64.ofNat msg.length }.setTally r .done)
    | _ => none

end

end RelayServer

def relayServer (hmac : Bytes → Bytes → Bytes) (secret : Bytes) (lim : Limits)
    (threshold window cooldown start : Int) : Machine RelayServer HandlerAct :=
  ⟨⟨.empty threshold window cooldown start, (server hasMagic lim).init, fun _ => .arrived,
      fun _ => .done, 0, 0, 0, 0⟩,
    RelayServer.step hmac secret lim⟩

/-- The request, once its token has been accepted. -/
def Publish.accepted : Publish → Option PublishRequest
  | .verified q | .authorised q => some q
  | _ => none

/-! A hub serves the channel that its requests asked for. -/

namespace Server

variable {Msg : Type u} {R T : Server Msg} {sniff : Msg → Bool} {lim : Limits}

structure Labelled (R : Server Msg) : Prop where
  bound : ∀ r role id n, R.request r = .bound role id n → (R.hubs n).ch.id = id
  entry : ∀ e ∈ R.channels, (R.hubs e.2).ch.id = e.1

theorem labelled_init : Labelled (server sniff lim).init := ⟨nofun, nofun⟩

theorem Labelled.setRequest (hl : Labelled R) {q : Request}
    (hq : ∀ role id n, q = .bound role id n → (R.hubs n).ch.id = id) :
    Labelled (R.setRequest r q) := by
  refine ⟨?_, hl.entry⟩
  intro p role id n hp
  simp only [Server.setRequest, Function.update_apply] at hp
  split at hp
  · exact hq role id n hp
  · exact hl.bound p role id n hp

theorem Labelled.create (hl : Labelled R) (hi : Registered sniff lim R) (id : String) :
    Labelled (R.create lim id) := by
  have hold : ∀ n, n < R.created → (R.create lim id).hubs n = R.hubs n := fun n hn =>
    Function.update_of_ne (Nat.ne_of_lt hn) ..
  refine ⟨?_, ?_⟩
  · intro r role id' n hr
    rw [hold n (hi.bound r role id' n hr)]
    exact hl.bound r role id' n hr
  · intro e he
    obtain rfl | he := List.mem_cons.mp he
    · simp only [Server.create, Function.update_self]
      rfl
    · rw [hold e.2 (hi.entry e he)]
      exact hl.entry e he

theorem Labelled.getOrCreate (hl : Labelled R) (hi : Registered sniff lim R) (r : Nat)
    (role : Role) (id : String) : Labelled (R.getOrCreate lim r role id) := by
  simp only [Server.getOrCreate]
  split
  · exact hl.setRequest (by simp)
  · split
    · next n hn =>
      refine hl.setRequest ?_
      rintro _ _ _ ⟨⟩
      exact hl.entry _ (mem_of_lookup_eq hn)
    · split
      · exact hl.setRequest (by simp)
      · have hnew := hl.create hi id
        refine hnew.setRequest ?_
        rintro _ _ _ ⟨⟩
        exact hnew.entry _ List.mem_cons_self

theorem id_update {h : Hub Msg} (hh : (R.hubs n).step sniff a = some h) (m : Nat) :
    (Function.update R.hubs n h m).ch.id = (R.hubs m).ch.id := by
  rw [Function.update_apply]
  split_ifs with hm
  · rw [hm]
    exact congrArg Prod.fst (Hub.limits_step hh)
  · rfl

theorem Labelled.step (hl : Labelled R) (hi : Registered sniff lim R) {a : ServerAct Msg}
    (he : R.step sniff lim a = some T) : Labelled T := by
  cases moves_of_step he with
  | get _ role id => exact hl.getOrCreate hi _ role id
  | hub _ hh =>
    refine ⟨?_, ?_⟩
    · intro r role id m hr
      exact (id_update hh m).trans (hl.bound r role id m hr)
    · intro e hmem
      exact (id_update hh e.2).trans (hl.entry e hmem)
  | reap | stats | unlock => exact ⟨hl.bound, hl.entry⟩
  | delete =>
    refine ⟨hl.bound, ?_⟩
    intro e hmem
    dsimp only at hmem
    split at hmem
    · exact hl.entry e (List.mem_of_mem_filter hmem)
    · exact hl.entry e hmem

end Server

namespace RelayServer

variable {hmac : Bytes → Bytes → Bytes} {secret : Bytes} {lim : Limits} {y z : RelayServer}

section Fields

variable (y : RelayServer) (R : Server Bytes) (a : ServerAct Bytes)

@[simp] theorem settle_relay : (y.settle R a).relay = R := by
  simp only [settle]
  split
  · split <;> rfl
  · rfl

@[simp] theorem settle_publish : (y.settle R a).publish = y.publish := by
  simp only [settle]
  split
  · split <;> rfl
  · rfl

theorem settle_gate : (y.settle R a).gate = y.gate := by
  simp only [settle]
  split
  · split <;> rfl
  · rfl

theorem settle_counters : (y.settle R a).packetsRelayed = y.packetsRelayed ∧
    (y.settle R a).bytesRelayed = y.bytesRelayed ∧
    (y.settle R a).authFailures = y.authFailures ∧ (y.settle R a).authBlocked = y.authBlocked := by
  simp only [settle]
  split
  · split <;> exact ⟨rfl, rfl, rfl, rfl⟩
  · exact ⟨rfl, rfl, rfl, rfl⟩

end Fields

/-- What each step finds and what it leaves. -/
inductive Moves (hmac : Bytes → Bytes → Bytes) (secret : Bytes) (lim : Limits) (y : RelayServer) :
    HandlerAct → RelayServer → Prop
  | allowed (hp : y.publish r = .arrived) (hw : y.relay.request r = .waiting)
      (hg : y.gate.step hmac secret (.allowed q now) = some g) :
    Moves hmac secret lim y (.allowed r q now) ({ y with gate := g }.setPublish r
      (if (y.gate.limiter.allowed q.ip now).1 then .admitted q else .blocked))
  | countBlocked (hp : y.publish r = .blocked) :
    Moves hmac secret lim y (.countBlocked r)
      ({ y with authBlocked := y.authBlocked + 1 }.setPublish r (.answered statusTooManyRequests))
  | bad (hp : y.publish r = .admitted q)
      (hg : y.gate.step hmac secret (.verify q now) = some g)
      (hv : validateChannelID (channelString q.channelID) = false) :
    Moves hmac secret lim y (.verify r now)
      ({ y with gate := g }.setPublish r (.answered statusBadRequest))
  | reject (hp : y.publish r = .admitted q)
      (hg : y.gate.step hmac secret (.verify q now) = some g)
      (hv : validateChannelID (channelString q.channelID) = true)
      (ht : verifyToken hmac secret q.channelID q.token now = .error e) :
    Moves hmac secret lim y (.verify r now) ({ y with gate := g }.setPublish r (.rejected q))
  | accept (hp : y.publish r = .admitted q)
      (hg : y.gate.step hmac secret (.verify q now) = some g)
      (hv : validateChannelID (channelString q.channelID) = true)
      (ht : verifyToken hmac secret q.channelID q.token now = .ok ()) :
    Moves hmac secret lim y (.verify r now) ({ y with gate := g }.setPublish r (.verified q))
  | countFailure (hp : y.publish r = .rejected q) :
    Moves hmac secret lim y (.countFailure r)
      ({ y with authFailures := y.authFailures + 1 }.setPublish r (.failed q))
  | recordFailure (hp : y.publish r = .failed q)
      (hg : y.gate.step hmac secret (.recordFailure q now) = some g) :
    Moves hmac secret lim y (.recordFailure r now)
      ({ y with gate := g }.setPublish r (.answered statusUnauthorized))
  | recordSuccess (hp : y.publish r = .verified q)
      (hg : y.gate.step hmac secret (.recordSuccess q) = some g) :
    Moves hmac secret lim y (.recordSuccess r) ({ y with gate := g }.setPublish r (.authorised q))
  | refuse {id : String} (hp : y.publish r = .arrived) (hw : y.relay.request r = .waiting)
      (hv : validateChannelID id = false) :
    Moves hmac secret lim y (.refuse r id) (y.setPublish r (.answered statusBadRequest))
  | relay (ha : y.admits a = true) (he : y.relay.step hasMagic lim a = some R) :
    Moves hmac secret lim y (.relay a) (y.settle R a)
  | countPacket (ht : y.tally r = .packets msg) :
    Moves hmac secret lim y (.countPacket r)
      ({ y with packetsRelayed := y.packetsRelayed + 1 }.setTally r (.bytes msg))
  | countBytes (ht : y.tally r = .bytes msg) :
    Moves hmac secret lim y (.countBytes r) ({ y with
      bytesRelayed := y.bytesRelayed + UInt64.ofNat msg.length }.setTally r .done)

theorem moves_of_step (he : y.step hmac secret lim a = some z) : Moves hmac secret lim y a z := by
  cases a with
  | allowed r q now =>
    simp only [RelayServer.step] at he
    split at he
    · next hp hw =>
      obtain ⟨g, hg, rfl⟩ := Option.map_eq_some_iff.mp he
      exact .allowed hp hw hg
    · cases he
  | countBlocked r =>
    simp only [RelayServer.step] at he
    split at he <;> cases he
    exact .countBlocked (by assumption)
  | verify r now =>
    simp only [RelayServer.step] at he
    split at he
    · next q hp =>
      obtain ⟨g, hg, rfl⟩ := Option.map_eq_some_iff.mp he
      split
      · next hv => exact .bad hp hg (by simpa using hv)
      · next hv =>
        have hv : validateChannelID (channelString q.channelID) = true := by simpa using hv
        split
        · next ht => exact .reject hp hg hv ht
        · next ht => exact .accept hp hg hv ht
    · cases he
  | countFailure r =>
    simp only [RelayServer.step] at he
    split at he <;> cases he
    exact .countFailure (by assumption)
  | recordFailure r now =>
    simp only [RelayServer.step] at he
    split at he
    · next hp =>
      obtain ⟨g, hg, rfl⟩ := Option.map_eq_some_iff.mp he
      exact .recordFailure hp hg
    · cases he
  | recordSuccess r =>
    simp only [RelayServer.step] at he
    split at he
    · next hp =>
      obtain ⟨g, hg, rfl⟩ := Option.map_eq_some_iff.mp he
      exact .recordSuccess hp hg
    · cases he
  | refuse r id =>
    simp only [RelayServer.step] at he
    split at he
    · next hp hw =>
      split at he <;> cases he
      next hv => exact .refuse hp hw (by simpa using hv)
    · cases he
  | relay a =>
    simp only [RelayServer.step] at he
    split at he
    · next ha =>
      obtain ⟨R, hR, rfl⟩ := Option.map_eq_some_iff.mp he
      exact .relay ha hR
    · cases he
  | countPacket r =>
    simp only [RelayServer.step] at he
    split at he <;> cases he
    exact .countPacket (by assumption)
  | countBytes r =>
    simp only [RelayServer.step] at he
    split at he <;> cases he
    exact .countBytes (by assumption)

/-- What the registry and the hubs say about themselves holds behind the handlers as well. -/
theorem relay_step (he : y.step hmac secret lim a = some z) :
    z.relay = y.relay ∨ ∃ b, a = .relay b ∧ y.relay.step hasMagic lim b = some z.relay := by
  cases moves_of_step he with
  | relay _ hR => exact .inr ⟨_, rfl, by rw [settle_relay, hR]⟩
  | allowed | countBlocked | bad | reject | accept | countFailure | recordFailure | recordSuccess
  | refuse | countPacket | countBytes => exact .inl rfl

end RelayServer

end StreamMix.Relay
