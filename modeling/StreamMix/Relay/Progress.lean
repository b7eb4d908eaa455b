import StreamMix.Lib.Progress
import StreamMix.Relay.OneHub

/-! No request of the relay is ever stuck: it waits for nothing but the mutexes, and whoever
holds one of them lets go of it. -/

namespace StreamMix.Relay

variable {Msg : Type u}

/-- The steps that the holder of the mutex has left. -/
def Mutex.rank : Mutex → Nat
  | .unlocked | .abandoned => 0
  | .unsub _ .closed _ => 1
  | .unsub _ .flagged _ => 2
  | .unsub _ .deleted _ => 3

def Mutex.heldBy (r : Nat) : Mutex → Bool
  | .unsub _ _ (some q) => q == r
  | _ => false

/-- A bound on the steps of a `handlePublish` whose connection fails at the next read. -/
def PublisherPc.rank (subs : Nat) : PublisherPc Msg → Nat
  | .returned | .refused | .crashed => 0
  | .release => 1
  | .accept | .subprotocol | .read => 2
  | .idle => 3
  | .range l => 4 * (l.len - l.pos) + 3
  | .deliver l _ _ .first => 4 * (l.len - (l.pos + 1)) + 6
  | .deliver l _ _ .second => 4 * (l.len - (l.pos + 1)) + 5
  | .deliver l _ _ .third => 4 * (l.len - (l.pos + 1)) + 4
  | .broadcast _ => 4 * subs + 4

def SubscriberPc.rank : SubscriberPc Msg → Nat
  | .returned | .refused | .crashed => 0
  | .unsub _ => 4
  | .write _ _ => 5
  | .select _ => 6
  | .subprotocol _ => 7
  | .accept _ => 8
  | .idle => 9

namespace Hub

variable {h k : Hub Msg} {sniff : Msg → Bool} {r : Nat}

def publisherRank (h : Hub Msg) (r : Nat) : Nat :=
  (h.publisher r).rank h.ch.subs.card + h.ch.mu.rank

/-- A handler in its own `unsub` has only the steps of the mutex left. -/
def subscriberRank (h : Hub Msg) (r : Nat) : Nat :=
  (if h.ch.mu.heldBy r then 0 else (h.subscriber r).rank) + h.ch.mu.rank

def ended (h : Hub Msg) (r : Nat) : Role → Bool
  | .publish => (h.publisher r).finished
  | .subscribe => (h.subscriber r).finished

def rank (r : Nat) (h : Hub Msg) : Role → Nat
  | .publish => h.publisherRank r
  | .subscribe => h.subscriberRank r

theorem Serves.alive (hs : Serves sniff name maxSubs sendBuf h) (r : Nat) :
    h.publisher r ≠ .crashed :=
  hs.invariant (P := fun h : Hub Msg => ∀ r, h.publisher r ≠ .crashed) (fun _ => nofun)
    (fun _ _ _ ha _ he => publisher_alive ha he) r

end Hub

namespace Server

variable {R T : Server Msg} {sniff : Msg → Bool} {lim : Limits} {r : Nat}

theorem members_of_reachable (hb : 0 ≤ lim.sendBuf) (hr : (server sniff lim).Reachable R)
    (n : Nat) : (R.hubs n).Members := by
  obtain ⟨name, hs⟩ := (registered_of_reachable hr).served n
  exact (hs.attended hb).1

end Server

end StreamMix.Relay
