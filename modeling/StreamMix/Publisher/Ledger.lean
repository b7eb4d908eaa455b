import Mathlib.Algebra.BigOperators.Group.Finset.Basic
import StreamMix.Publisher.WsClient

/-! What became of every packet that went through `Enqueue`. -/

namespace StreamMix.Publisher

open Wire

/-- The client with its books: the calls of `Enqueue`, the packets that failed writes took,
those that `OnEstablished` cleared, the connection that it cleared the queue for last, and what
was enqueued from the clear of a connection to the next one. -/
structure Ledger where
  client : Client
  enqueued : Nat
  failed : Nat
  cleared : Nat
  owner : Option Nat
  since : Nat → List Packet

/-- The packet that the service thread has taken off the queue. -/
def Client.hand (c : Client) : List Packet :=
  match c.service with
  | .write p => [p]
  | _ => []

namespace Ledger

def put (l : Ledger) (p : Packet) : Ledger :=
  { l with
    client := l.client.enqueue p
    enqueued := l.enqueued + 1
    since := fun n => if l.owner = some n then l.since n ++ [p] else l.since n }

/-- The entries of a step, which has left the client `c`. -/
def note (cfg : Config) (l : Ledger) (c : Client) : ClientAct → Ledger
  | .hello now => { l.put ⟨.hello l.client.conn, encodeFrameOrLog (helloFrame now)⟩ with client := c }
  | .trackList now =>
    { l.put ⟨.trackList l.client.conn, encodeFrameOrLog (trackListFrame cfg now)⟩ with client := c }
  | .capture i now encoded =>
    match cfg.tracks[i]? with
    | some t =>
      let bytes := encodeFrameOrLog (audioFrame t (l.client.seq i + 1) now encoded)
      if bytes.isEmpty then { l with client := c } else { l.put ⟨.capture, bytes⟩ with client := c }
    | none => { l with client := c }
  | .clear =>
    { l with
      client := c
      cleared := l.cleared + l.client.queue.length
      owner := some c.conn
      since := Function.update l.since c.conn [] }
  | .write false => { l with client := c, failed := l.failed + 1 }
  | .tryConnect _ | .connectionError | .established | .writeable | .write true | .closed =>
    { l with client := c }

def step (cfg : Config) (l : Ledger) (a : ClientAct) : Option Ledger :=
  (l.client.step cfg a).map (fun c => l.note cfg c a)

end Ledger

def ledger (cfg : Config) : Machine Ledger ClientAct :=
  ⟨⟨Client.start, 0, 0, 0, none, fun _ => []⟩, Ledger.step cfg⟩

namespace Ledger

/-- How many packets were written on all connections. -/
def wrote (c : Client) : Nat := ∑ n ∈ Finset.range (c.conn + 1), (c.written n).length

/-- The packets of the connection that the queue was cleared for: written, in hand and queued
in the order of their `Enqueue`. -/
structure Balanced (l : Ledger) : Prop where
  bounded : l.client.queue.length ≤ kMaxQueue
  kept : ∀ n, (l.client.written n).Sublist (l.since n)
  held : ∀ n ∈ l.owner,
    (l.client.written n ++ l.client.hand ++ l.client.queue).Sublist (l.since n)
  unused : ∀ n, l.client.conn < n → l.client.written n = []
  dialing : l.client.connecting = true →
    l.client.written l.client.conn = [] ∧ l.client.connected = false
  clearing : l.client.service = .clear → l.client.written l.client.conn = []
  serving : l.client.connected = true → l.client.service ≠ .clear → l.owner = some l.client.conn
  writing : l.client.hand ≠ [] → l.client.connected = true
  dropped : l.client.dropped = UInt64.ofNat l.client.evicted.length
  total : l.enqueued = wrote l.client + l.failed + l.client.evicted.length + l.cleared +
    l.client.hand.length + l.client.queue.length

theorem balanced_init (cfg : Config) : Balanced (ledger cfg).init where
  bounded := Nat.zero_le _
  kept _ := .slnil
  held := nofun
  unused _ _ := rfl
  dialing := nofun
  clearing := nofun
  serving := nofun
  writing := nofun
  dropped := rfl
  total := rfl

variable {l : Ledger} {cfg : Config}

theorem sublist_put (l : Ledger) (p : Packet) (n : Nat) :
    (l.since n).Sublist ((l.put p).since n) := by
  simp only [put]
  split_ifs
  · exact List.sublist_append_left _ _
  · exact .refl _

/-- `Enqueue` touches the queue and the count of what it dropped. -/
theorem frame_enqueue (c : Client) (p : Packet) :
    (c.enqueue p).written = c.written ∧ (c.enqueue p).conn = c.conn ∧
      (c.enqueue p).connected = c.connected ∧ (c.enqueue p).connecting = c.connecting ∧
      (c.enqueue p).service = c.service := by
  obtain ⟨-, he⟩ | ⟨q, qs, -, -, he⟩ := c.enqueue_cases p <;> rw [he] <;>
    exact ⟨rfl, rfl, rfl, rfl, rfl⟩

theorem queue_enqueue (c : Client) (p : Packet) :
    (c.enqueue p).queue.Sublist (c.queue ++ [p]) ∧
      (c.queue.length ≤ kMaxQueue → (c.enqueue p).queue.length ≤ kMaxQueue) ∧
      (c.enqueue p).evicted.length + (c.enqueue p).queue.length =
        c.evicted.length + c.queue.length + 1 ∧
      (c.dropped = UInt64.ofNat c.evicted.length →
        (c.enqueue p).dropped = UInt64.ofNat (c.enqueue p).evicted.length) := by
  obtain ⟨hlen, he⟩ | ⟨q, qs, hlen, hq, he⟩ := c.enqueue_cases p
  · rw [he]
    refine ⟨.refl _, ?_, ?_, id⟩
    · intro _
      rw [List.length_append]
      exact hlen
    · rw [List.length_append]
      rfl
  · rw [he, hq]
    refine ⟨List.sublist_cons_self q (qs ++ [p]), ?_, ?_, ?_⟩
    · intro hle
      rwa [List.length_append]
    · simp only [List.length_append, List.length_cons, List.length_nil]
      omega
    · intro hdropped
      rw [List.length_append, List.length_singleton, UInt64.ofNat_add, hdropped]
      rfl

theorem Balanced.put (h : Balanced l) (p : Packet) : Balanced (l.put p) := by
  obtain ⟨hwritten, hconn, hconnected, hconnecting, hservice⟩ := frame_enqueue l.client p
  obtain ⟨hqueue, hbounded, hcount, hdropped⟩ := queue_enqueue l.client p
  have hhand : (l.client.enqueue p).hand = l.client.hand := by
    simp only [Client.hand, hservice]
  have hwrote : wrote (l.client.enqueue p) = wrote l.client := by
    simp only [wrote, hwritten, hconn]
  have htotal := h.total
  refine ⟨hbounded h.bounded, ?_, ?_, ?_, ?_, ?_, ?_, ?_, hdropped h.dropped, ?_⟩ <;>
    simp only [Ledger.put, hwritten, hconn, hconnected, hconnecting, hservice, hhand, hwrote]
  · exact fun n => (h.kept n).trans (sublist_put l p n)
  · intro n hn
    rw [if_pos (Option.mem_def.mp hn)]
    apply (hqueue.append_left _).trans
    rw [← List.append_assoc]
    exact (h.held n hn).append (.refl [p])
  · exact h.unused
  · exact h.dialing
  · exact h.clearing
  · exact h.serving
  · exact h.writing
  · omega

/-- The service thread goes on to a state that holds no packet. -/
theorem Balanced.serve (h : Balanced l) (pc : Service) (hhand : l.client.hand = [])
    (hpc : Client.hand { l.client with service := pc } = []) (hclear : pc ≠ .clear)
    (hfrom : l.client.service ≠ .clear) :
    Balanced { l with client := { l.client with service := pc } } where
  bounded := h.bounded
  kept := h.kept
  held n hn := by
    have hheld := h.held n hn
    rw [hhand] at hheld
    rwa [hpc]
  unused := h.unused
  dialing := h.dialing
  clearing heq := absurd heq hclear
  serving hconnected _ := h.serving hconnected hfrom
  writing hne := absurd hpc hne
  dropped := h.dropped
  total := by
    have htotal := h.total
    rw [hhand] at htotal
    rw [hpc]
    exact htotal

theorem Balanced.announce (h : Balanced l) (p : Packet) (pc : Service)
    (hhand : l.client.hand = []) (hpc : Client.hand { l.client with service := pc } = [])
    (hclear : pc ≠ .clear) (hfrom : l.client.service ≠ .clear) :
    Balanced { l.put p with client := { (l.put p).client with service := pc } } := by
  have hservice : (l.put p).client.service = l.client.service :=
    (frame_enqueue l.client p).2.2.2.2
  apply (h.put p).serve pc ?_ hpc hclear (hservice ▸ hfrom)
  simpa only [Client.hand, hservice] using hhand

theorem Balanced.tryConnect (h : Balanced l) (ok : Bool) (hdown : l.client.connected = false)
    (hloop : l.client.service = .loop) :
    Balanced { l with
      client := { l.client with connecting := ok, conn := l.client.conn + 1 } } where
  bounded := h.bounded
  kept := h.kept
  held := h.held
  unused n hn := h.unused n (Nat.lt_of_succ_lt hn)
  dialing _ := ⟨h.unused _ (Nat.lt_succ_self _), hdown⟩
  clearing heq := by
    rw [hloop] at heq
    cases heq
  serving hup := by
    rw [hdown] at hup
    cases hup
  writing hne := by
    simp [Client.hand, hloop] at hne
  dropped := h.dropped
  total := by
    have hnew := h.unused (l.client.conn + 1) (Nat.lt_succ_self _)
    have hwrote : wrote { l.client with connecting := ok, conn := l.client.conn + 1 } =
        wrote l.client := by
      simp only [wrote]
      rw [Finset.sum_range_succ, hnew]
      rfl
    rw [hwrote]
    exact h.total

theorem Balanced.disconnected (h : Balanced l) (hhand : l.client.hand = []) :
    Balanced { l with client := l.client.markDisconnected } where
  bounded := h.bounded
  kept := h.kept
  held n hn := by
    have hheld := h.held n hn
    rwa [hhand] at hheld
  unused := h.unused
  dialing := nofun
  clearing := nofun
  serving := nofun
  writing := nofun
  dropped := h.dropped
  total := by
    have htotal := h.total
    rwa [hhand] at htotal

theorem Balanced.established (h : Balanced l) (hdial : l.client.connecting = true)
    (hloop : l.client.service = .loop) :
    Balanced { l with
      client := { l.client with connected := true, connecting := false, service := .clear } } := by
  have hhand : l.client.hand = [] := by rw [Client.hand, hloop]
  have hheld := h.held
  have htotal := h.total
  rw [hhand] at hheld htotal
  exact ⟨h.bounded, h.kept, hheld, h.unused, nofun, fun _ => (h.dialing hdial).1,
    fun _ hne => absurd rfl hne, nofun, h.dropped, htotal⟩

/-- Nothing was written on the connection that the queue is cleared for. -/
theorem Balanced.clear (h : Balanced l) (hclear : l.client.service = .clear) :
    Balanced { l with
      client := { l.client with queue := [], service := .hello }
      cleared := l.cleared + l.client.queue.length
      owner := some l.client.conn
      since := Function.update l.since l.client.conn [] } := by
  have hwritten := h.clearing hclear
  have htotal := h.total
  have hhand : l.client.hand = [] := by rw [Client.hand, hclear]
  rw [hhand] at htotal
  have hkept (n : Nat) :
      (l.client.written n).Sublist (Function.update l.since l.client.conn [] n) := by
    rcases eq_or_ne n l.client.conn with rfl | hne
    · rw [hwritten]
      exact List.nil_sublist _
    · rw [Function.update_of_ne hne]
      exact h.kept n
  refine ⟨Nat.zero_le _, hkept, ?_, h.unused, h.dialing, nofun, fun _ _ => rfl, nofun, h.dropped,
    ?_⟩
  · rintro n ⟨⟩
    simp [hwritten, Client.hand]
  · show l.enqueued = wrote l.client + l.failed + l.client.evicted.length +
      (l.cleared + l.client.queue.length) + 0 + 0
    simp only [List.length_nil] at htotal
    omega

theorem Balanced.pop (h : Balanced l) (hup : l.client.connected = true)
    (hloop : l.client.service = .loop) (hq : l.client.queue = p :: ps) :
    Balanced { l with client := { l.client with queue := ps, service := .write p } } := by
  have hhand : l.client.hand = [] := by rw [Client.hand, hloop]
  have howner := h.serving hup (by rw [hloop]; exact nofun)
  have hbounded := h.bounded
  have htotal := h.total
  rw [hq] at hbounded htotal
  rw [hhand] at htotal
  refine ⟨Nat.le_of_succ_le hbounded, h.kept, ?_, h.unused, h.dialing, nofun, fun _ _ => howner,
    fun _ => hup, h.dropped, ?_⟩
  · intro n hn
    have hheld := h.held n hn
    rw [hhand, hq] at hheld
    simpa [Client.hand] using hheld
  · show l.enqueued = wrote l.client + l.failed + l.client.evicted.length + l.cleared + 1 + ps.length
    simp only [List.length_nil, List.length_cons] at htotal
    omega

theorem wrote_write (c : Client) (p : Packet) :
    wrote { c with
      sent := c.sent + 1
      written := Function.update c.written c.conn (c.written c.conn ++ [p])
      service := .loop } = wrote c + 1 := by
  simp only [wrote]
  rw [Finset.sum_range_succ, Finset.sum_range_succ, Function.update_self, List.length_append,
    List.length_singleton, Nat.add_assoc]
  congr 1
  apply Finset.sum_congr rfl
  intro n hn
  rw [Function.update_of_ne (Nat.ne_of_lt (Finset.mem_range.mp hn))]

/-- The connection that a packet in hand is for. -/
theorem Balanced.owner_of_write (h : Balanced l) (hwrite : l.client.service = .write p) :
    l.client.hand = [p] ∧ l.client.connected = true ∧ l.owner = some l.client.conn := by
  have hhand : l.client.hand = [p] := by rw [Client.hand, hwrite]
  have hup := h.writing (by rw [hhand]; exact List.cons_ne_nil p [])
  exact ⟨hhand, hup, h.serving hup (by rw [hwrite]; exact nofun)⟩

theorem Balanced.written (h : Balanced l) (hwrite : l.client.service = .write p) :
    Balanced { l with
      client := { l.client with
        sent := l.client.sent + 1
        written := Function.update l.client.written l.client.conn
          (l.client.written l.client.conn ++ [p])
        service := .loop } } := by
  obtain ⟨hhand, hup, howner⟩ := h.owner_of_write hwrite
  have hheld := h.held _ howner
  have htotal := h.total
  rw [hhand] at hheld htotal
  have hkept : (l.client.written l.client.conn ++ [p]).Sublist (l.since l.client.conn) :=
    (List.sublist_append_left _ _).trans hheld
  refine ⟨h.bounded, ?_, ?_, ?_, ?_, nofun, fun _ _ => howner, nofun, h.dropped, ?_⟩
  · intro n
    rcases eq_or_ne n l.client.conn with rfl | hne
    · simpa using hkept
    · simpa [Function.update_of_ne hne] using h.kept n
  · intro n hn
    cases howner.symm.trans hn
    simpa [Client.hand] using hheld
  · intro n hn
    simpa [Function.update_of_ne (Nat.ne_of_gt hn)] using h.unused n hn
  · intro hdial
    rw [(h.dialing hdial).2] at hup
    cases hup
  · rw [wrote_write]
    show l.enqueued = wrote l.client + 1 + l.failed + l.client.evicted.length + l.cleared + 0 +
      l.client.queue.length
    simp only [List.length_singleton] at htotal
    omega

theorem Balanced.unwritten (h : Balanced l) (hwrite : l.client.service = .write p) :
    Balanced { l with
      client := { l.client with service := .closing }
      failed := l.failed + 1 } := by
  obtain ⟨hhand, -, howner⟩ := h.owner_of_write hwrite
  have htotal := h.total
  rw [hhand] at htotal
  refine ⟨h.bounded, h.kept, ?_, h.unused, h.dialing, nofun, fun _ _ => howner, nofun, h.dropped,
    ?_⟩
  · intro n hn
    have hheld := h.held n hn
    apply List.Sublist.trans _ hheld
    rw [hhand]
    simp [Client.hand]
  · show l.enqueued = wrote l.client + (l.failed + 1) + l.client.evicted.length + l.cleared + 0 +
      l.client.queue.length
    simp only [List.length_singleton] at htotal
    omega

theorem Balanced.step (h : Balanced l) (hstep : l.step cfg a = some m) : Balanced m := by
  obtain ⟨c, he, rfl⟩ := Option.map_eq_some_iff.mp hstep
  cases a with
  | tryConnect ok =>
    simp only [Client.step] at he
    split at he <;> cases he
    next hs => exact h.tryConnect ok hs.2.1 hs.1
  | connectionError =>
    simp only [Client.step] at he
    split at he <;> cases he
    next hs => exact h.disconnected (by rw [Client.hand, hs.1])
  | established =>
    simp only [Client.step] at he
    split at he <;> cases he
    next hs => exact h.established hs.2 hs.1
  | clear =>
    simp only [Client.step] at he
    split at he <;> cases he
    next hs => exact h.clear hs
  | hello now =>
    simp only [Client.step] at he
    split at he <;> cases he
    next hs =>
    exact h.announce _ .trackList (by rw [Client.hand, hs]) rfl (by simp) (hs ▸ (by simp))
  | trackList now =>
    simp only [Client.step] at he
    split at he <;> cases he
    next hs =>
    exact h.announce _ .loop (by rw [Client.hand, hs]) rfl (by simp) (hs ▸ (by simp))
  | capture i now encoded =>
    have hseq (seq : Nat → UInt32) : Balanced { l with client := { l.client with seq := seq } } :=
      ⟨h.bounded, h.kept, h.held, h.unused, h.dialing, h.clearing, h.serving, h.writing, h.dropped,
        h.total⟩
    simp only [Client.step] at he
    cases ht : cfg.tracks[i]? with
    | none =>
      rw [ht] at he
      cases he
    | some t =>
      simp only [ht] at he
      split at he <;> cases he
      simp only [note, ht, Client.capture]
      split
      · exact hseq _
      · exact (hseq _).put _
  | writeable =>
    simp only [Client.step] at he
    split at he
    · next hs =>
      cases hq : l.client.queue with
      | nil =>
        simp only [hq] at he
        cases he
        exact h
      | cons p ps =>
        simp only [hq] at he
        cases he
        exact h.pop hs.2 hs.1 hq
    · cases he
  | write ok =>
    simp only [Client.step] at he
    cases hs : l.client.service <;> simp only [hs, reduceCtorEq] at he
    next p =>
    cases ok with
    | true =>
      simp only [if_true] at he
      cases he
      exact h.written hs
    | false =>
      simp only [Bool.false_eq_true, if_false] at he
      cases he
      exact h.unwritten hs
  | closed =>
    simp only [Client.step] at he
    split at he <;> cases he
    next hs =>
    apply h.disconnected
    rcases hs.2 with hloop | hclosing
    · rw [Client.hand, hloop]
    · rw [Client.hand, hclosing]

/-- In every run: the queue is bounded, a connection carries a subsequence of what was enqueued
for it, the drops are the evictions, and every packet is accounted for.  A packet is in hand
between its removal from the queue and the verdict on its write. -/
theorem ledger_balanced (h : (ledger cfg).Reachable l) :
    l.client.queue.length ≤ kMaxQueue ∧
      (∀ n, (l.client.written n).Sublist (l.since n)) ∧
      l.client.dropped = UInt64.ofNat l.client.evicted.length ∧
      l.enqueued = wrote l.client + l.failed + l.client.evicted.length + l.cleared +
        l.client.hand.length + l.client.queue.length := by
  have hbalanced : Balanced l :=
    h.invariant (balanced_init cfg) (fun _ _ _ hb hstep => hb.step hstep)
  exact ⟨hbalanced.bounded, hbalanced.kept, hbalanced.dropped, hbalanced.total⟩

open Client (micOnly handshake flush)

/-- A connection whose second write fails, and the next one. -/
def outage : List ClientAct :=
  [.capture 0 1 [7]] ++ handshake ++ [.hello 2, .trackList 2, .capture 0 3 [7]] ++ flush ++
    [.writeable, .write false, .closed, .capture 0 4 [7]] ++ handshake ++ [.hello 5, .trackList 5] ++
    flush

theorem ledger_balanced_outage : ∃ l, (ledger micOnly).run (ledger micOnly).init outage = some l ∧
    l.enqueued = 7 ∧ l.failed = 1 ∧ l.cleared = 3 ∧ (l.client.written 2).Sublist (l.since 2) ∧
    l.enqueued = wrote l.client + l.failed + l.client.evicted.length + l.cleared +
      l.client.hand.length + l.client.queue.length := by
  have hbalanced {l : Ledger} (hrun : (ledger micOnly).run (ledger micOnly).init outage = some l) :=
    ledger_balanced (.of_run outage (.init _) hrun)
  exact ⟨_, rfl, rfl, rfl, rfl, (hbalanced rfl).2.1 2, (hbalanced rfl).2.2.2⟩

end Ledger

end StreamMix.Publisher
