import StreamMix.Lib.Accounts
import StreamMix.Relay.Handlers

/-! The counters of the relay against what its hubs have broadcast. -/

namespace StreamMix.Relay

open Function (support)
open Wire (Bytes)

/-- What the hubs have broadcast, in some unit. -/
def broadcasts (w : Bytes → Nat) (R : Server Bytes) : Nat :=
  ∑ n ∈ Finset.range R.created, ((R.hubs n).history.map w).sum

/-- The message of a `Broadcast` that has begun and not returned. -/
def inBroadcast (R : Server Bytes) (r : Nat) : List Bytes :=
  match R.request r with
  | .bound .publish _ n => (((R.hubs n).publisher r).loop.map Loop.msg).toList
  | _ => []

/-- What the first of the two calls of `Add` has yet to count, and what the second has. -/
def Tally.uncountedPackets : Tally → List Bytes
  | .packets m => [m]
  | _ => []

def Tally.uncountedBytes : Tally → List Bytes
  | .packets m | .bytes m => [m]
  | .done => []

namespace Hub

variable {h k : Hub Bytes} {r : Nat}

/-- What a step of a publisher means for the accounts: nothing, a broadcast that begins, or one
that returns. -/
inductive Accounts (h k : Hub Bytes) (r : Nat) : Prop
  | same : k.history = h.history →
      (k.publisher r).loop.map Loop.msg = (h.publisher r).loop.map Loop.msg →
      RelayServer.returned (h.publisher r) (k.publisher r) = none → Accounts h k r
  | begun : k.history = h.history ++ [m] → (h.publisher r).loop = none →
      (k.publisher r).loop.map Loop.msg = some m →
      RelayServer.returned (h.publisher r) (k.publisher r) = none → Accounts h k r
  | returned : k.history = h.history → (h.publisher r).loop.map Loop.msg = some m →
      (k.publisher r).loop = none →
      RelayServer.returned (h.publisher r) (k.publisher r) = some m → Accounts h k r

theorem returned_of_loop {before after : PublisherPc Bytes} (h : after ≠ .read) :
    RelayServer.returned before after = none := by
  cases before <;> cases after <;> first | rfl | exact absurd rfl h

theorem returned_of_ne {before after : PublisherPc Bytes} (h : before.loop = none) :
    RelayServer.returned before after = none := by
  cases before <;> first | rfl | cases h

theorem accounts_deliver (hr : h.publisher r = .deliver l s d st) :
    Accounts h (h.deliver r l s d st) r := by
  have hsame : ∀ (g : Hub Bytes) pc, g.history = h.history → pc ≠ .read →
      pc.loop.map Loop.msg = some l.msg → Accounts h (g.setPublisher r pc) r := by
    intro g pc hg hne hpc
    refine .same hg ?_ ?_
    · rw [setPublisher_publisher, Function.update_self, hpc, hr]
      rfl
    · rw [setPublisher_publisher, Function.update_self]
      exact returned_of_loop hne
  cases st with
  | first =>
    simp only [Hub.deliver]
    split <;> exact hsame _ _ rfl (by simp [PublisherPc.unwind]) rfl
  | second => exact hsame _ _ rfl (by simp) rfl
  | third =>
    simp only [Hub.deliver]
    split <;> exact hsame _ _ rfl (by simp [PublisherPc.unwind]) rfl

theorem accounts_step {a : PublisherAct Bytes} (he : h.stepPublisher hasMagic r a = some k) :
    Accounts h k r := by
  have hout : ∀ (g : Hub Bytes) pc, g.history = h.history → (h.publisher r).loop = none →
      pc.loop = none → Accounts h (g.setPublisher r pc) r := by
    intro g pc hg hold hnew
    refine .same hg ?_ (returned_of_ne hold)
    rw [setPublisher_publisher, Function.update_self, hold, hnew]
  simp only [Hub.stepPublisher] at he
  split at he
  · next hpc =>
    split at he <;> cases he
    simp only [claimPublisher]
    split <;> exact hout _ _ rfl (by rw [hpc]; rfl) rfl
  · next ok hpc =>
    cases he
    exact hout _ _ rfl (by rw [hpc]; rfl) (by cases ok <;> rfl)
  · next ok hpc =>
    cases he
    exact hout _ _ rfl (by rw [hpc]; rfl) (by cases ok <;> rfl)
  · next hpc =>
    cases he
    exact hout _ _ rfl (by rw [hpc]; rfl) rfl
  · next hpc =>
    cases he
    exact hout _ _ rfl (by rw [hpc]; rfl) (by split <;> rfl)
  · next m order hpc =>
    split at he <;> cases he
    refine .begun rfl (by rw [hpc]; rfl) ?_ (returned_of_ne (by rw [hpc]; rfl))
    simp only [Hub.snapshot, setPublisher_publisher, Function.update_self]
    rfl
  · next l hpc =>
    cases he
    have hold : (h.publisher r).loop = some l := by rw [hpc]; rfl
    by_cases hend : h.next? l = .read
    · refine .returned (m := l.msg) rfl (by rw [hold]; rfl) ?_ ?_
      · rw [setPublisher_publisher, Function.update_self, hend]
        rfl
      · rw [setPublisher_publisher, Function.update_self, hend, hpc]
        rfl
    · refine .same rfl ?_ ?_
      · rw [setPublisher_publisher, Function.update_self, hold]
        simp only [next?] at hend ⊢
        split_ifs at hend ⊢
        · rfl
        · rfl
        · exact absurd rfl hend
      · rw [setPublisher_publisher, Function.update_self]
        exact returned_of_loop hend
  · next l s d st hpc =>
    cases he
    exact accounts_deliver hpc
  · next hpc =>
    split at he <;> cases he
    exact hout _ _ rfl (by rw [hpc]; rfl) rfl
  · cases he

end Hub

namespace RelayServer

variable {hmac : Bytes → Bytes → Bytes} {secret : Bytes} {lim : Limits} {y z : RelayServer}
  {w : Bytes → Nat} {part : Tally → List Bytes}

/-- What a handler has broadcast, or is about to, that one of the counters lacks. -/
def uncounted (part : Tally → List Bytes) (y : RelayServer) (r : Nat) : List Bytes :=
  inBroadcast y.relay r ++ part (y.tally r)

def owed (w : Bytes → Nat) (part : Tally → List Bytes) (y : RelayServer) (r : Nat) : Nat :=
  ((y.uncounted part r).map w).sum

/-- The counter is short of what its handlers have yet to count. -/
structure Counted (w : Bytes → Nat) (part : Tally → List Bytes) (counter : UInt64)
    (y : RelayServer) : Prop where
  finite : (support (y.owed w part)).Finite
  balance : ∃ count, counter = UInt64.ofNat count ∧
    broadcasts w y.relay = count + ∑ᶠ r, y.owed w part r

theorem Counted.same (h : Counted w part c y) (ho : ∀ r, z.owed w part r = y.owed w part r)
    (hb : broadcasts w z.relay = broadcasts w y.relay) : Counted w part c z := by
  obtain ⟨count, hc, hbal⟩ := h.balance
  have howed : z.owed w part = y.owed w part := funext ho
  exact ⟨howed ▸ h.finite, count, hc, by rw [hb, hbal, howed]⟩

/-- A broadcast begins. -/
theorem Counted.begun (h : Counted w part c y)
    (ho : ∀ x, x ≠ r → z.owed w part x = y.owed w part x)
    (hr : z.owed w part r = y.owed w part r + n)
    (hb : broadcasts w z.relay = broadcasts w y.relay + n) : Counted w part c z := by
  obtain ⟨count, hc, hbal⟩ := h.balance
  have htotal := Accounts.total_of_move h.finite ho
  exact ⟨Accounts.finite_of_move h.finite ho, count, hc, by omega⟩

/-- A handler counts. -/
theorem Counted.add (h : Counted w part c y)
    (ho : ∀ x, x ≠ r → z.owed w part x = y.owed w part x)
    (hr : y.owed w part r = z.owed w part r + n)
    (hb : broadcasts w z.relay = broadcasts w y.relay) :
    Counted w part (c + UInt64.ofNat n) z := by
  obtain ⟨count, hc, hbal⟩ := h.balance
  have htotal := Accounts.total_of_move h.finite ho
  refine ⟨Accounts.finite_of_move h.finite ho, count + n, ?_, by omega⟩
  rw [hc, UInt64.ofNat_add]

theorem owed_congr (hr : z.relay = y.relay) (ht : z.tally x = y.tally x) :
    z.owed w part x = y.owed w part x := by
  simp only [owed, uncounted, hr, ht]

/-- A request that has no hub, or whose handler has not started, broadcasts nothing. -/
theorem inBroadcast_of_idle {R : Server Bytes}
    (h : ∀ id n, R.request r = .bound .publish id n → (R.hubs n).publisher r = .idle) :
    inBroadcast R r = [] := by
  simp only [inBroadcast]
  split
  · next id n hr =>
    rw [h id n hr]
    rfl
  · rfl

/-- `GetOrCreate` changes no account. -/
theorem get_accounts {R : Server Bytes} (hi : Server.Registered hasMagic lim R)
    (hw : R.request r = .waiting) (role : Role) (id : String) :
    broadcasts w (R.getOrCreate lim r role id) = broadcasts w R ∧
      ∀ x, inBroadcast (R.getOrCreate lim r role id) x = inBroadcast R x := by
  have hidle : ∀ n, (R.hubs n).publisher r = .idle := by
    intro n
    by_contra hne
    obtain ⟨_, hbound⟩ := hi.publishers n r hne
    rw [hw] at hbound
    cases hbound
  have hnone : inBroadcast R r = [] := inBroadcast_of_idle (fun _ n _ => hidle n)
  have hset : ∀ q x, inBroadcast (R.setRequest r q) x = inBroadcast R x := by
    intro q x
    by_cases hx : x = r
    · rw [hx, hnone]
      exact inBroadcast_of_idle (fun _ n _ => hidle n)
    · simp only [inBroadcast, Server.setRequest, Function.update_of_ne hx]
  simp only [Server.getOrCreate]
  split
  · exact ⟨rfl, hset _⟩
  · split
    · exact ⟨rfl, hset _⟩
    · split
      · exact ⟨rfl, hset _⟩
      · have hold : ∀ n, n < R.created → (R.create lim id).hubs n = R.hubs n := fun n hn =>
          Function.update_of_ne (Nat.ne_of_lt hn) ..
        refine ⟨?_, ?_⟩
        · change ∑ n ∈ Finset.range (R.created + 1), _ = _
          rw [Finset.sum_range_succ]
          have hnew : ((R.create lim id).hubs R.created).history = [] := by
            simp only [Server.create, Function.update_self]
            rfl
          have hsum : ∑ n ∈ Finset.range R.created,
              (((R.create lim id).hubs n).history.map w).sum = broadcasts w R :=
            Finset.sum_congr rfl (fun n hn => by rw [hold n (Finset.mem_range.mp hn)])
          change ∑ n ∈ Finset.range R.created, (((R.create lim id).hubs n).history.map w).sum +
            (((R.create lim id).hubs R.created).history.map w).sum = _
          rw [hsum, hnew]
          rfl
        · intro x
          by_cases hx : x = r
          · rw [hx, hnone]
            refine inBroadcast_of_idle (fun _ n _ => ?_)
            change ((R.create lim id).hubs n).publisher r = .idle
            simp only [Server.create, Function.update_apply]
            split_ifs
            · rfl
            · exact hidle n
          · simp only [inBroadcast, Server.setRequest, Function.update_of_ne hx]
            change (match R.request x with
              | .bound .publish _ n => ((((R.create lim id).hubs n).publisher x).loop.map
                  Loop.msg).toList
              | _ => []) = _
            split
            · next id' n hr => rw [hold n (hi.bound x _ id' n hr)]
            · rfl

/-- The server with another hub under the name `n`. -/
def putHub (R : Server Bytes) (n : Nat) (k : Hub Bytes) : Server Bytes :=
  { R with hubs := Function.update R.hubs n k }

theorem hubs_putHub (R : Server Bytes) (n : Nat) (k : Hub Bytes) (m : Nat) :
    (putHub R n k).hubs m = if m = n then k else R.hubs m := Function.update_apply ..

theorem broadcasts_putHub {R : Server Bytes} {k : Hub Bytes} (hn : n < R.created)
    (hk : (k.history.map w).sum = ((R.hubs n).history.map w).sum + d) :
    broadcasts w (putHub R n k) = broadcasts w R + d := by
  have hmem : n ∈ Finset.range R.created := Finset.mem_range.mpr hn
  change ∑ m ∈ Finset.range R.created, (((putHub R n k).hubs m).history.map w).sum =
    ∑ m ∈ Finset.range R.created, ((R.hubs m).history.map w).sum + d
  rw [← Finset.add_sum_erase _ _ hmem, ← Finset.add_sum_erase _ _ hmem, hubs_putHub, if_pos rfl, hk]
  have hrest : ∑ m ∈ (Finset.range R.created).erase n,
      (((putHub R n k).hubs m).history.map w).sum =
        ∑ m ∈ (Finset.range R.created).erase n, ((R.hubs m).history.map w).sum :=
    Finset.sum_congr rfl (fun m hm => by rw [hubs_putHub, if_neg (Finset.ne_of_mem_erase hm)])
  rw [hrest]
  omega

theorem broadcasts_same {R : Server Bytes} {k : Hub Bytes}
    (hk : k.history = (R.hubs n).history) : broadcasts w (putHub R n k) = broadcasts w R := by
  refine Finset.sum_congr rfl (fun m _ => ?_)
  rw [hubs_putHub]
  split_ifs with hm
  · rw [hk, hm]
  · rfl

theorem inBroadcast_putHub {R : Server Bytes} {k : Hub Bytes}
    (hk : k.publisher r = (R.hubs n).publisher r) :
    inBroadcast (putHub R n k) r = inBroadcast R r := by
  have hpc : ∀ m, ((putHub R n k).hubs m).publisher r = (R.hubs m).publisher r := by
    intro m
    rw [hubs_putHub]
    split_ifs with hm
    · rw [hk, hm]
    · rfl
  simp only [inBroadcast, hpc]
  rfl

theorem inBroadcast_bound {R : Server Bytes} {id : String}
    (hr : R.request r = .bound .publish id n) :
    inBroadcast R r = (((R.hubs n).publisher r).loop.map Loop.msg).toList := by
  simp only [inBroadcast, hr]

theorem settle_returned {R : Server Bytes} (a : PublisherAct Bytes)
    (h : returned ((y.relay.hubs n).publisher r) ((R.hubs n).publisher r) = some m) :
    (y.settle R (.hub n (.publisher r a))).tally = Function.update y.tally r (.packets m) := by
  simp only [settle, h]
  rfl

theorem settle_stays {R : Server Bytes} (a : PublisherAct Bytes)
    (h : returned ((y.relay.hubs n).publisher r) ((R.hubs n).publisher r) = none) :
    (y.settle R (.hub n (.publisher r a))).tally = y.tally := by
  simp only [settle, h]

/-- A step of a publisher: what a broadcast adds is owed until it is counted. -/
theorem Counted.publisher (hpart : part .done = [] ∧ ∀ m, part (.packets m) = [m])
    (h : Counted w part c y) (hi : Server.Registered hasMagic lim y.relay)
    {a : PublisherAct Bytes} (hact : y.relay.mayAct n (.publisher r a) = true)
    (hdone : y.tally r = .done) {k : Hub Bytes}
    (hh : (y.relay.hubs n).stepPublisher hasMagic r a = some k) :
    Counted w part c (y.settle (putHub y.relay n k) (.hub n (.publisher r a))) := by
  obtain ⟨id, hid⟩ := Server.bound_of_mayAct_publisher hact
  have hn := hi.bound r _ id n hid
  have hpub : ((putHub y.relay n k).hubs n).publisher r = k.publisher r := by
    rw [hubs_putHub, if_pos rfl]
  have hbefore : y.uncounted part r =
      (((y.relay.hubs n).publisher r).loop.map Loop.msg).toList := by
    rw [uncounted, inBroadcast_bound hid, hdone, hpart.1, List.append_nil]
  have hafter : inBroadcast (putHub y.relay n k) r =
      ((k.publisher r).loop.map Loop.msg).toList := by
    rw [inBroadcast_bound (n := n) (R := putHub y.relay n k) hid, hpub]
  have hother : ∀ z : RelayServer, z.relay = putHub y.relay n k →
      (∀ x, x ≠ r → z.tally x = y.tally x) → ∀ x, x ≠ r → z.owed w part x = y.owed w part x := by
    intro z hz ht x hx
    obtain ⟨pc, hk, -⟩ := Hub.publisher_stepPublisher hh
    have hpc : k.publisher x = (y.relay.hubs n).publisher x := by
      rw [hk, Function.update_of_ne hx]
    rw [owed, owed, uncounted, uncounted, hz, inBroadcast_putHub hpc, ht x hx]
  cases Hub.accounts_step hh with
  | same hhist hloop hret =>
    have htally := settle_stays (R := putHub y.relay n k) a (hpub ▸ hret)
    refine h.same ?_ (by rw [settle_relay, broadcasts_same hhist])
    intro x
    by_cases hx : x = r
    · rw [hx, owed, owed, hbefore, uncounted, settle_relay, hafter, htally, hdone, hpart.1,
        List.append_nil, hloop]
    · exact hother _ (settle_relay ..) (fun x _ => congrFun htally x) x hx
  | @begun m hhist hnone hloop hret =>
    have htally := settle_stays (R := putHub y.relay n k) a (hpub ▸ hret)
    refine h.begun (n := w m) (hother _ (settle_relay ..) (fun x _ => congrFun htally x)) ?_ ?_
    · rw [owed, owed, hbefore, uncounted, settle_relay, hafter, htally, hdone, hpart.1, hnone,
        hloop]
      simp
    · rw [settle_relay]
      refine broadcasts_putHub hn ?_
      rw [hhist, List.map_append, List.sum_append, List.map_singleton, List.sum_singleton]
  | returned hhist hloop hnone hret =>
    have htally := settle_returned (R := putHub y.relay n k) a (hpub ▸ hret)
    refine h.same ?_ (by rw [settle_relay, broadcasts_same hhist])
    intro x
    by_cases hx : x = r
    · rw [hx, owed, owed, hbefore, uncounted, settle_relay, hafter, htally, Function.update_self,
        hpart.2, hloop, hnone]
      rfl
    · refine hother _ (settle_relay ..) ?_ x hx
      intro x hx
      rw [htally, Function.update_of_ne hx]

/-- A step of the registry, the reaper, a viewer or a mutex. -/
theorem Counted.relay (hpart : part .done = [] ∧ ∀ m, part (.packets m) = [m])
    (h : Counted w part c y) (hi : Server.Registered hasMagic lim y.relay)
    (ha : y.admits a = true) (hR : y.relay.step hasMagic lim a = some R) :
    Counted w part c (y.settle R a) := by
  have hstay : ∀ (R : Server Bytes) (a : ServerAct Bytes),
      (∀ n r pa, a ≠ .hub n (.publisher r pa)) → broadcasts w R = broadcasts w y.relay →
      (∀ x, inBroadcast R x = inBroadcast y.relay x) → Counted w part c (y.settle R a) := by
    intro R a hno hb hin
    have hsettle : y.settle R a = { y with relay := R } := by
      rcases a with _ | ⟨n, b⟩ | _ | _ | _ | _
      case hub => cases b <;> first | rfl | exact absurd rfl (hno _ _ _)
      all_goals rfl
    rw [hsettle]
    refine h.same (fun x => ?_) hb
    simp only [owed, uncounted, hin x]
  cases Server.moves_of_step hR with
  | get hw role id =>
    obtain ⟨hb, hin⟩ := get_accounts (w := w) hi hw role id
    exact hstay _ _ (fun _ _ _ => nofun) hb hin
  | hub hact hh =>
    next n b k =>
    cases b with
    | publisher r pa =>
      simp only [admits, beq_iff_eq] at ha
      exact h.publisher hpart hi hact ha hh
    | subscriber r sa =>
      have hsame := Hub.samePublishers_stepSubscriber hh
      exact hstay _ _ (by simp) (broadcasts_same hsame.history)
        (fun x => inBroadcast_putHub (congrFun hsame.publisher x))
    | unsub s => cases hact
    | unlock =>
      have hsame := Hub.samePublishers_stepUnlock hh
      exact hstay _ _ (by simp) (broadcasts_same hsame.history)
        (fun x => inBroadcast_putHub (congrFun hsame.publisher x))
  | reap | stats | delete | unlock => exact hstay _ _ (fun _ _ _ => nofun) rfl (fun _ => rfl)

structure Metered (y : RelayServer) : Prop where
  packets : Counted (fun _ => 1) Tally.uncountedPackets y.packetsRelayed y
  bytes : Counted List.length Tally.uncountedBytes y.bytesRelayed y

theorem metered_init :
    (relayServer hmac secret lim threshold window cooldown start).init.Metered := by
  have hzero : ∀ (w : Bytes → Nat) (part : Tally → List Bytes), part .done = [] →
      Counted w part 0 (relayServer hmac secret lim threshold window cooldown start).init := by
    intro w part hpart
    have howed : ∀ r, (relayServer hmac secret lim threshold window cooldown start).init.owed
        w part r = 0 := by
      intro r
      rw [owed, uncounted, inBroadcast_of_idle (fun _ _ _ => rfl)]
      change ((([] : List Bytes) ++ part .done).map w).sum = 0
      rw [hpart]
      rfl
    refine ⟨?_, 0, rfl, ?_⟩
    · rw [Function.support_eq_empty_iff.mpr (funext howed)]
      exact Set.finite_empty
    · rw [Accounts.total_eq_zero howed]
      rfl
  exact ⟨hzero _ _ rfl, hzero _ _ rfl⟩

theorem Metered.keep (h : Metered y) (hr : z.relay = y.relay) (ht : z.tally = y.tally)
    (hp : z.packetsRelayed = y.packetsRelayed) (hb : z.bytesRelayed = y.bytesRelayed) :
    Metered z where
  packets := hp ▸ h.packets.same (fun _ => owed_congr hr (congrFun ht _)) (by rw [hr])
  bytes := hb ▸ h.bytes.same (fun _ => owed_congr hr (congrFun ht _)) (by rw [hr])

theorem Metered.step (h : Metered y) (hi : Server.Registered hasMagic lim y.relay)
    (he : y.step hmac secret lim a = some z) : Metered z := by
  cases moves_of_step he with
  | allowed | countBlocked | bad | reject | accept | countFailure | recordFailure | recordSuccess
  | refuse => refine h.keep ?_ ?_ ?_ ?_ <;> rfl
  | relay ha hR =>
    refine ⟨?_, ?_⟩
    · rw [(settle_counters ..).1]
      exact h.packets.relay ⟨rfl, fun _ => rfl⟩ hi ha hR
    · rw [(settle_counters ..).2.1]
      exact h.bytes.relay ⟨rfl, fun _ => rfl⟩ hi ha hR
  | @countPacket r msg ht =>
    have hother : ∀ x, x ≠ r → Function.update y.tally r (.bytes msg) x = y.tally x := fun x hx =>
      Function.update_of_ne hx ..
    refine ⟨?_, ?_⟩
    · refine h.packets.add (r := r) (n := 1) (fun x hx => owed_congr rfl (hother x hx)) ?_ rfl
      simp [owed, uncounted, setTally, ht, Tally.uncountedPackets]
    · refine h.bytes.same (fun x => ?_) rfl
      by_cases hx : x = r
      · simp [hx, owed, uncounted, setTally, ht, Tally.uncountedBytes]
      · exact owed_congr rfl (hother x hx)
  | @countBytes r msg ht =>
    have hother : ∀ x, x ≠ r → Function.update y.tally r .done x = y.tally x := fun x hx =>
      Function.update_of_ne hx ..
    refine ⟨?_, ?_⟩
    · refine h.packets.same (fun x => ?_) rfl
      by_cases hx : x = r
      · simp [hx, owed, uncounted, setTally, ht, Tally.uncountedPackets]
      · exact owed_congr rfl (hother x hx)
    · refine h.bytes.add (r := r) (n := msg.length) (fun x hx => owed_congr rfl (hother x hx)) ?_
        rfl
      simp [owed, uncounted, setTally, ht, Tally.uncountedBytes]

theorem metered_of_reachable
    (hr : (relayServer hmac secret lim threshold window cooldown start).Reachable y) :
    Server.Registered hasMagic lim y.relay ∧ Metered y := by
  refine hr.invariant (P := fun y => Server.Registered hasMagic lim y.relay ∧ Metered y)
    ⟨Server.registered_init, metered_init⟩ ?_
  rintro y a z ⟨hi, h⟩ he
  refine ⟨?_, h.step hi he⟩
  obtain hrelay | ⟨b, -, hR⟩ := relay_step he
  · exact hrelay ▸ hi
  · exact hi.step hR

theorem Counted.settled (h : Counted w part c y) (hnone : ∀ r, y.uncounted part r = []) :
    c = UInt64.ofNat (broadcasts w y.relay) := by
  obtain ⟨count, hc, hbal⟩ := h.balance
  have hzero : ∀ r, y.owed w part r = 0 := by
    intro r
    rw [owed, hnone r]
    rfl
  rw [hc, hbal, Accounts.total_eq_zero hzero, Nat.add_zero]

/-- In every reachable state: the counters are short of the broadcasts of all hubs, those that
the registry has forgotten included, by what handlers have yet to count, and by nothing once
every handler is at the start of a turn. -/
theorem counters_balance
    (hr : (relayServer hmac secret lim threshold window cooldown start).Reachable y) :
    y.Metered ∧ ((∀ r, inBroadcast y.relay r = [] ∧ y.tally r = .done) →
      y.packetsRelayed = UInt64.ofNat (broadcasts (fun _ => 1) y.relay) ∧
        y.bytesRelayed = UInt64.ofNat (broadcasts List.length y.relay)) := by
  obtain ⟨-, h⟩ := metered_of_reachable hr
  refine ⟨h, fun hquiet => ⟨h.packets.settled (fun r => ?_), h.bytes.settled (fun r => ?_)⟩⟩
  · rw [uncounted, (hquiet r).1, (hquiet r).2]
    rfl
  · rw [uncounted, (hquiet r).1, (hquiet r).2]
    rfl

/-- A publisher with a good token sends a packet. -/
def meteredRun : List HandlerAct :=
  [.allowed 1 ⟨Limited.localhost, kickA, minuteToken⟩ 0, .verify 1 epoch, .recordSuccess 1,
    .relay (.get 1 .publish "kick:a")] ++
  [.publisher 1 .claim, .publisher 1 (.accept true), .publisher 1 (.subprotocol true),
    .publisher 1 (.read true Wire.magic), .publisher 1 (.snapshot []),
    .publisher 1 .next].map (fun a => .relay (.hub 0 a)) ++
  [.countPacket 1, .countBytes 1]

theorem counters_balance_metered : ∃ y,
    (relayServer minuteHmac [0x73] Server.fewLimits 5 60 300 0).Reachable y ∧
      y.packetsRelayed = 1 ∧ y.bytesRelayed = 4 ∧ y.Metered := by
  have hrun : ((relayServer minuteHmac [0x73] Server.fewLimits 5 60 300 0).run
      (relayServer minuteHmac [0x73] Server.fewLimits 5 60 300 0).init meteredRun).any
        (fun y => y.packetsRelayed = 1 ∧ y.bytesRelayed = 4) = true := by
    decide +kernel
  obtain ⟨y, hy, hcounts⟩ := (Option.any_eq_true _ _).mp hrun
  obtain ⟨hpackets, hbytes⟩ := of_decide_eq_true hcounts
  have hreach := (Machine.Reachable.init _).of_run _ hy
  exact ⟨y, hreach, hpackets, hbytes, (counters_balance hreach).1⟩

end RelayServer

end StreamMix.Relay
