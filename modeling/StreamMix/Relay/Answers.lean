import StreamMix.Relay.Authorised
import StreamMix.Relay.Counters

/-! How the relay turns requests away, and how it counts them. -/

namespace StreamMix.Relay

open GoTime (Time)
open Wire (Bytes)

/-- The limiter was asked about the request. -/
def Asked (as : List HandlerAct) (r : Nat) (q : PublishRequest) : Prop :=
  ∃ now, .allowed r q now ∈ as

/-- Some call of `VerifyToken` for request `r` has refused the token. -/
def Refuses (hmac : Bytes → Bytes → Bytes) (secret : Bytes) (as : List HandlerAct) (r : Nat)
    (q : PublishRequest) : Prop :=
  validateChannelID (channelString q.channelID) = true ∧
    ∃ now e, .verify r now ∈ as ∧ verifyToken hmac secret q.channelID q.token now = .error e

def BadChannel (as : List HandlerAct) (r : Nat) : Prop :=
  (∃ id, .refuse r id ∈ as ∧ validateChannelID id = false) ∨
    ∃ q, Asked as r q ∧ validateChannelID (channelString q.channelID) = false

/-- What must have happened before a handler stands where it stands. -/
def Publish.Backed (hmac : Bytes → Bytes → Bytes) (secret : Bytes) (as : List HandlerAct)
    (r : Nat) : Publish → Prop
  | .arrived | .blocked => True
  | .admitted q => Asked as r q
  | .rejected q | .failed q => Asked as r q ∧ Refuses hmac secret as r q
  | .verified q | .authorised q => Asked as r q ∧ Accepts hmac secret as r q
  | .answered status => status = statusTooManyRequests ∨
      status = statusBadRequest ∧ BadChannel as r ∨
      status = statusUnauthorized ∧ ∃ q, Asked as r q ∧ Refuses hmac secret as r q

/-- The requests that `authFailures` counts. -/
def Publish.isDenied : Publish → Bool
  | .failed _ => true
  | .answered status => status == statusUnauthorized
  | _ => false

/-- The requests that `authBlocked` counts. -/
def Publish.isBlocked : Publish → Bool
  | .answered status => status == statusTooManyRequests
  | _ => false

section

variable {as bs : List HandlerAct}

theorem Asked.mono (h : Asked as r q) (hsub : as ⊆ bs) : Asked bs r q := by
  obtain ⟨now, hmem⟩ := h
  exact ⟨now, hsub hmem⟩

theorem Refuses.mono (h : Refuses hmac secret as r q) (hsub : as ⊆ bs) :
    Refuses hmac secret bs r q := by
  obtain ⟨hv, now, e, hmem, htoken⟩ := h
  exact ⟨hv, now, e, hsub hmem, htoken⟩

theorem BadChannel.mono (h : BadChannel as r) (hsub : as ⊆ bs) : BadChannel bs r := by
  obtain ⟨id, hmem, hv⟩ | ⟨q, hasked, hv⟩ := h
  · exact .inl ⟨id, hsub hmem, hv⟩
  · exact .inr ⟨q, hasked.mono hsub, hv⟩

/-- A longer run backs what a shorter one does. -/
theorem Publish.Backed.mono {p : Publish} (h : p.Backed hmac secret as r) (hsub : as ⊆ bs) :
    p.Backed hmac secret bs r := by
  cases p with
  | arrived | blocked => trivial
  | admitted q => exact Asked.mono h hsub
  | rejected q | failed q => exact ⟨h.1.mono hsub, h.2.mono hsub⟩
  | verified q | authorised q => exact ⟨h.1.mono hsub, h.2.mono hsub⟩
  | answered status =>
    obtain hs | ⟨hs, hbad⟩ | ⟨hs, q, hasked, hrefused⟩ := h
    · exact .inl hs
    · exact .inr (.inl ⟨hs, hbad.mono hsub⟩)
    · exact .inr (.inr ⟨hs, q, hasked.mono hsub, hrefused.mono hsub⟩)

theorem Publish.Backed.cons {p : Publish} (h : p.Backed hmac secret as r) (a : HandlerAct) :
    p.Backed hmac secret (a :: as) r := h.mono (List.subset_cons_self a as)

end

namespace RelayServer

variable {hmac : Bytes → Bytes → Bytes} {secret : Bytes} {lim : Limits} {y z : RelayServer}
  {as : List HandlerAct}

/-- The requests that stand where `P` says. -/
def standing (P : Publish → Bool) (y : RelayServer) : Set Nat := {r | P (y.publish r) = true}

/-- The number of requests that stand where `P` says, modulo `2 ^ 64`. -/
structure Tells (P : Publish → Bool) (counter : UInt64) (y : RelayServer) : Prop where
  finite : (y.standing P).Finite
  count : counter = UInt64.ofNat (y.standing P).ncard

theorem Tells.same {P : Publish → Bool} (h : Tells P c y)
    (hp : z.publish = Function.update y.publish r p) (hr : P p = P (y.publish r)) :
    Tells P c z := by
  have heq : z.standing P = y.standing P := by
    ext x
    rw [standing, standing, Set.mem_ofPred_eq, Set.mem_ofPred_eq, hp, Function.update_apply]
    split_ifs with hx
    · rw [hr, hx]
    · rfl
  exact ⟨heq ▸ h.finite, heq ▸ h.count⟩

theorem Tells.add {P : Publish → Bool} (h : Tells P c y)
    (hp : z.publish = Function.update y.publish r p) (hold : P (y.publish r) = false)
    (hnew : P p = true) : Tells P (c + 1) z := by
  have hnot : r ∉ y.standing P := by
    rw [standing, Set.mem_ofPred_eq, hold]
    exact Bool.false_ne_true
  obtain ⟨hfinite, hcard⟩ := Accounts.count_insert (t := z.standing P) h.finite hnot (fun x => by
    rw [standing, standing, Set.mem_ofPred_eq, Set.mem_ofPred_eq, hp, Function.update_apply]
    split_ifs with hx
    · simp [hx, hnew]
    · simp [hx])
  refine ⟨hfinite, ?_⟩
  rw [hcard, UInt64.ofNat_add, ← h.count]
  rfl

structure Answered (hmac : Bytes → Bytes → Bytes) (secret : Bytes) (as : List HandlerAct)
    (y : RelayServer) : Prop where
  backed : ∀ r, (y.publish r).Backed hmac secret as r
  waiting : ∀ r, y.publish r ≠ .arrived → (∀ q, y.publish r ≠ .authorised q) →
    y.relay.request r = .waiting
  failures : Tells Publish.isDenied y.authFailures y
  blocked : Tells Publish.isBlocked y.authBlocked y

theorem backed_update (h : ∀ x, (y.publish x).Backed hmac secret as x)
    (hp : z.publish = Function.update y.publish r p) (hnew : p.Backed hmac secret (a :: as) r) :
    ∀ x, (z.publish x).Backed hmac secret (a :: as) x := by
  intro x
  rw [hp, Function.update_apply]
  split_ifs with hx
  · exact hx ▸ hnew
  · exact (h x).cons a

theorem waiting_update (h : ∀ x, y.publish x ≠ .arrived → (∀ q, y.publish x ≠ .authorised q) →
      y.relay.request x = .waiting) (hr : z.relay = y.relay)
    (hp : z.publish = Function.update y.publish r p) (hw : y.relay.request r = .waiting) :
    ∀ x, z.publish x ≠ .arrived → (∀ q, z.publish x ≠ .authorised q) →
      z.relay.request x = .waiting := by
  intro x
  rw [hr, hp, Function.update_apply]
  split_ifs with hx
  · intro _ _
    rw [hx]
    exact hw
  · exact h x

theorem Answered.move (h : Answered hmac secret as y) (hr : z.relay = y.relay)
    (hp : z.publish = Function.update y.publish r p) (hw : y.relay.request r = .waiting)
    (hnew : p.Backed hmac secret (a :: as) r)
    (hf : Tells Publish.isDenied z.authFailures z) (hb : Tells Publish.isBlocked z.authBlocked z) :
    Answered hmac secret (a :: as) z :=
  ⟨backed_update h.backed hp hnew, waiting_update h.waiting hr hp hw, hf, hb⟩

/-- A request that the registry knows stands at the beginning or is authorised. -/
theorem Answered.relay (h : Answered hmac secret as y) {a : ServerAct Bytes}
    (ha : y.admits a = true) (hR : y.relay.step hasMagic lim a = some R) (b : HandlerAct) :
    Answered hmac secret (b :: as) (y.settle R a) := by
  obtain ⟨-, -, hfail, hblock⟩ := settle_counters y R a
  have hsame : ∀ P : Publish → Bool, (y.settle R a).standing P = y.standing P := fun P => by
    rw [standing, standing, settle_publish]
  refine ⟨?_, ?_, ?_, ?_⟩
  · rw [settle_publish]
    exact fun r => (h.backed r).cons b
  · rw [settle_publish, settle_relay]
    intro x hx hno
    have hold := h.waiting x hx hno
    cases Server.moves_of_step hR with
    | @get r hw role id =>
      have hne : x ≠ r := by
        rintro rfl
        cases role with
        | publish =>
          rw [admits] at ha
          split at ha
          · next q hq => exact hno q hq
          · cases ha
        | subscribe =>
          simp only [admits, Bool.and_eq_true, beq_iff_eq] at ha
          exact hx ha.2
      have hkeep : ∀ (S : Server Bytes) q, S.request = y.relay.request →
          (S.setRequest r q).request x = .waiting := by
        intro S q hS
        rw [Server.setRequest]
        exact (Function.update_of_ne hne ..).trans (hS ▸ hold)
      simp only [Server.getOrCreate]
      split
      · exact hkeep _ _ rfl
      · split
        · exact hkeep _ _ rfl
        · split
          · exact hkeep _ _ rfl
          · exact hkeep _ _ rfl
    | hub | reap | stats | delete | unlock => exact hold
  · rw [hfail]
    exact ⟨hsame _ ▸ h.failures.finite, by rw [hsame]; exact h.failures.count⟩
  · rw [hblock]
    exact ⟨hsame _ ▸ h.blocked.finite, by rw [hsame]; exact h.blocked.count⟩

theorem Answered.step (h : Answered hmac secret as y) (he : y.step hmac secret lim a = some z) :
    Answered hmac secret (a :: as) z := by
  have hasked : ∀ r, (y.publish r).Backed hmac secret as r := h.backed
  cases moves_of_step he with
  | @allowed r q now g hp hw hg =>
    refine h.move rfl rfl hw ?_ (h.failures.same rfl ?_) (h.blocked.same rfl ?_)
    · split
      · exact ⟨now, List.mem_cons_self⟩
      · trivial
    · rw [hp]
      split <;> rfl
    · rw [hp]
      split <;> rfl
  | @countBlocked r hp =>
    have hw := h.waiting r (by simp [hp]) (by simp [hp])
    exact h.move rfl rfl hw (.inl rfl) (h.failures.same rfl (by rw [hp]; rfl))
      (h.blocked.add rfl (by rw [hp]; rfl) rfl)
  | @bad r q now g hp hg hv =>
    have hw := h.waiting r (by simp [hp]) (by simp [hp])
    have hq := hasked r
    rw [hp] at hq
    exact h.move rfl rfl hw
      (.inr (.inl ⟨rfl, .inr ⟨q, Asked.mono hq (List.subset_cons_self ..), hv⟩⟩))
      (h.failures.same rfl (by rw [hp]; rfl)) (h.blocked.same rfl (by rw [hp]; rfl))
  | @reject r q now g e hp hg hv ht =>
    have hw := h.waiting r (by simp [hp]) (by simp [hp])
    have hq := hasked r
    rw [hp] at hq
    exact h.move rfl rfl hw
      ⟨Asked.mono hq (List.subset_cons_self ..), hv, now, e, List.mem_cons_self, ht⟩
      (h.failures.same rfl (by rw [hp]; rfl)) (h.blocked.same rfl (by rw [hp]; rfl))
  | @accept r q now g hp hg hv ht =>
    have hw := h.waiting r (by simp [hp]) (by simp [hp])
    have hq := hasked r
    rw [hp] at hq
    exact h.move rfl rfl hw ⟨Asked.mono hq (List.subset_cons_self ..), now, List.mem_cons_self, ht⟩
      (h.failures.same rfl (by rw [hp]; rfl)) (h.blocked.same rfl (by rw [hp]; rfl))
  | @countFailure r q hp =>
    have hw := h.waiting r (by simp [hp]) (by simp [hp])
    have hq := (hasked r).cons (.countFailure r)
    rw [hp] at hq
    exact h.move rfl rfl hw hq (h.failures.add rfl (by rw [hp]; rfl) rfl)
      (h.blocked.same rfl (by rw [hp]; rfl))
  | @recordFailure r q now g hp hg =>
    have hw := h.waiting r (by simp [hp]) (by simp [hp])
    have hq := (hasked r).cons (.recordFailure r now)
    rw [hp] at hq
    exact h.move rfl rfl hw (.inr (.inr ⟨rfl, q, hq⟩)) (h.failures.same rfl (by rw [hp]; rfl))
      (h.blocked.same rfl (by rw [hp]; rfl))
  | @recordSuccess r q g hp hg =>
    have hw := h.waiting r (by simp [hp]) (by simp [hp])
    have hq := (hasked r).cons (.recordSuccess r)
    rw [hp] at hq
    exact h.move rfl rfl hw hq (h.failures.same rfl (by rw [hp]; rfl))
      (h.blocked.same rfl (by rw [hp]; rfl))
  | @refuse r id hp hw hv =>
    exact h.move rfl rfl hw (.inr (.inl ⟨rfl, .inl ⟨id, List.mem_cons_self, hv⟩⟩))
      (h.failures.same rfl (by rw [hp]; rfl)) (h.blocked.same rfl (by rw [hp]; rfl))
  | relay ha hR => exact h.relay ha hR _
  | countPacket | countBytes =>
    exact ⟨fun r => (h.backed r).cons _, h.waiting, ⟨h.failures.finite, h.failures.count⟩,
      ⟨h.blocked.finite, h.blocked.count⟩⟩

theorem answered_init : Answered hmac secret []
    (relayServer hmac secret lim threshold window cooldown start).init := by
  have hnone : ∀ P : Publish → Bool, P .arrived = false →
      Tells P 0 (relayServer hmac secret lim threshold window cooldown start).init := by
    intro P hP
    have hempty : (relayServer hmac secret lim threshold window cooldown start).init.standing P =
        ∅ := by
      ext r
      change P .arrived = true ↔ False
      simp [hP]
    refine ⟨hempty ▸ Set.finite_empty, ?_⟩
    rw [hempty, Set.ncard_empty]
    rfl
  exact ⟨fun _ => trivial, fun _ => absurd rfl, hnone _ rfl, hnone _ rfl⟩

theorem answered_of_run (hrun : (relayServer hmac secret lim threshold window cooldown start).run
    (relayServer hmac secret lim threshold window cooldown start).init as = some y) :
    Answered hmac secret as.reverse y :=
  Machine.run_invariant (P := Answered hmac secret) answered_init
    (fun _ _ _ _ h he => h.step he) hrun

def wrongRequest : PublishRequest := ⟨Limited.localhost, kickA, []⟩

def denial (r : Nat) : List HandlerAct :=
  [.allowed r wrongRequest 0, .verify r epoch, .countFailure r, .recordFailure r 0]

/-- Two wrong tokens, the ban, and a viewer of no channel. -/
def deniedRun : List HandlerAct :=
  denial 1 ++ denial 2 ++ [.allowed 3 wrongRequest 0, .countBlocked 3, .refuse 4 "kick"]

end RelayServer

end StreamMix.Relay
