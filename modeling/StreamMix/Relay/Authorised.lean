import StreamMix.Relay.Handlers

/-! Whatever a viewer is sent was read from a publisher whose token was good for the channel. -/

namespace StreamMix.Relay

open GoTime (Time)
open Wire (Bytes)

/-- The connection of request `r` has delivered a message to its handler in hub `n`. -/
def Reads (as : List HandlerAct) (n r : Nat) (m : Bytes) : Prop :=
  .relay (.hub n (.publisher r (.read true m))) ∈ as

/-- Some call of `VerifyToken` for request `r` has accepted the token. -/
def Accepts (hmac : Bytes → Bytes → Bytes) (secret : Bytes) (as : List HandlerAct) (r : Nat)
    (q : PublishRequest) : Prop :=
  ∃ now, .verify r now ∈ as ∧ verifyToken hmac secret q.channelID q.token now = .ok ()

theorem Accepts.mono {as bs : List HandlerAct} (h : Accepts hmac secret as r q)
    (hsub : as ⊆ bs) : Accepts hmac secret bs r q := by
  obtain ⟨now, hmem, htoken⟩ := h
  exact ⟨now, hsub hmem, htoken⟩

theorem Accepts.cons {as : List HandlerAct} (h : Accepts hmac secret as r q) (a : HandlerAct) :
    Accepts hmac secret (a :: as) r q := h.mono (List.subset_cons_self a as)

namespace RelayServer

variable {hmac : Bytes → Bytes → Bytes} {secret : Bytes} {lim : Limits} {y z : RelayServer}
  {as : List HandlerAct}

structure Authorised (hmac : Bytes → Bytes → Bytes) (secret : Bytes) (as : List HandlerAct)
    (y : RelayServer) : Prop where
  accepted : ∀ r q, (y.publish r).accepted = some q → Accepts hmac secret as r q
  bound : ∀ r id n, y.relay.request r = .bound .publish id n →
    ∃ q, y.publish r = .authorised q ∧ channelString q.channelID = id
  messages : ∀ n r m, ((y.relay.hubs n).publisher r).msg = some m → Reads as n r m
  history : ∀ n, ∀ m ∈ (y.relay.hubs n).history,
    ∃ r id, y.relay.request r = .bound .publish id n ∧ Reads as n r m

/-- A step of a handler before its `GetOrCreate`. -/
theorem Authorised.setPublish (h : Authorised hmac secret as y) (hr : z.relay = y.relay)
    (hp : z.publish = Function.update y.publish r p) (hnot : ∀ q, y.publish r ≠ .authorised q)
    (hnew : ∀ q, p.accepted = some q → Accepts hmac secret (a :: as) r q) :
    Authorised hmac secret (a :: as) z where
  accepted := by
    intro x q hq
    rw [hp, Function.update_apply] at hq
    split_ifs at hq with hx
    · rw [hx]
      exact hnew q hq
    · exact (h.accepted x q hq).cons a
  bound := by
    intro x id n hx
    rw [hr] at hx
    obtain ⟨q, hq, hid⟩ := h.bound x id n hx
    refine ⟨q, ?_, hid⟩
    rw [hp, Function.update_of_ne, hq]
    rintro rfl
    exact hnot q hq
  messages n x m hm := List.mem_cons_of_mem a (h.messages n x m (hr ▸ hm))
  history := by
    rw [hr]
    intro n m hm
    obtain ⟨x, id, hx, hread⟩ := h.history n m hm
    exact ⟨x, id, hx, List.mem_cons_of_mem a hread⟩

/-- A step that leaves requests, handlers and histories alone. -/
theorem Authorised.keep (h : Authorised hmac secret as y) (hp : z.publish = y.publish)
    (hq : z.relay.request = y.relay.request) (hh : z.relay.hubs = y.relay.hubs) (a : HandlerAct) :
    Authorised hmac secret (a :: as) z where
  accepted r q hr := (h.accepted r q (hp ▸ hr)).cons a
  bound := by
    rw [hp, hq]
    exact h.bound
  messages n r m hm := List.mem_cons_of_mem a (h.messages n r m (hh ▸ hm))
  history := by
    rw [hh, hq]
    intro n m hm
    obtain ⟨r, id, hr, hread⟩ := h.history n m hm
    exact ⟨r, id, hr, List.mem_cons_of_mem a hread⟩

/-- `GetOrCreate` for a request: a hub that is new has read nothing. -/
theorem Authorised.get {id : String} (h : Authorised hmac secret as y)
    (hw : y.relay.request r = .waiting)
    (hadm : y.admits (.get r role id) = true) (hp : z.publish = y.publish)
    (hz : z.relay = y.relay.getOrCreate lim r role id) (a : HandlerAct) :
    Authorised hmac secret (a :: as) z := by
  have hnew : role = .publish → ∃ q, y.publish r = .authorised q ∧
      channelString q.channelID = id := by
    rintro rfl
    simp only [admits] at hadm
    split at hadm
    · next q hq => exact ⟨q, hq, eq_of_beq hadm⟩
    · cases hadm
  -- the outcome: the request, and hubs that are old or fresh
  have hget : ∃ b, z.relay.request = Function.update y.relay.request r b ∧
      (∀ role' id' n, b = .bound role' id' n → role' = role ∧ id' = id) ∧
      ∀ n, z.relay.hubs n = y.relay.hubs n ∨ ∃ ch, z.relay.hubs n = .fresh ch := by
    rw [hz]
    simp only [Server.getOrCreate]
    split
    · exact ⟨_, rfl, by simp, fun _ => .inl rfl⟩
    · split
      · refine ⟨_, rfl, ?_, fun _ => .inl rfl⟩
        rintro _ _ _ ⟨⟩
        exact ⟨rfl, rfl⟩
      · split
        · exact ⟨_, rfl, by simp, fun _ => .inl rfl⟩
        · refine ⟨_, rfl, ?_, ?_⟩
          · rintro _ _ _ ⟨⟩
            exact ⟨rfl, rfl⟩
          · intro n
            simp only [Server.setRequest, Server.create, Function.update_apply]
            split_ifs
            · exact .inr ⟨_, rfl⟩
            · exact .inl rfl
  obtain ⟨b, hreq, hb, hhubs⟩ := hget
  refine ⟨fun x q hq => (h.accepted x q (hp ▸ hq)).cons a, ?_, ?_, ?_⟩
  · intro x id' n hx
    rw [hreq, Function.update_apply] at hx
    rw [hp]
    split_ifs at hx with hxr
    · obtain ⟨hrole, rfl⟩ := hb _ _ _ hx
      rw [hxr]
      exact hnew hrole.symm
    · exact h.bound x id' n hx
  · intro n x m hm
    obtain hn | ⟨ch, hn⟩ := hhubs n
    · exact List.mem_cons_of_mem a (h.messages n x m (hn ▸ hm))
    · rw [hn] at hm
      cases hm
  · intro n m hm
    obtain hn | ⟨ch, hn⟩ := hhubs n
    · obtain ⟨x, id', hx, hread⟩ := h.history n m (hn ▸ hm)
      refine ⟨x, id', ?_, List.mem_cons_of_mem a hread⟩
      rw [hreq, Function.update_of_ne, hx]
      rintro rfl
      rw [hw] at hx
      cases hx
    · rw [hn] at hm
      cases hm

/-- A step in a hub: what a handler holds it has read. -/
theorem Authorised.hub (h : Authorised hmac secret as y)
    (hact : y.relay.mayAct n a = true) {k : Hub Bytes}
    (hh : (y.relay.hubs n).step hasMagic a = some k) (hp : z.publish = y.publish)
    (hz : z.relay = { y.relay with hubs := Function.update y.relay.hubs n k }) :
    Authorised hmac secret (.relay (.hub n a) :: as) z := by
  have hmsg : ∀ r m, (k.publisher r).msg = some m →
      Reads (.relay (.hub n a) :: as) n r m := by
    intro r m hm
    obtain hsame | ⟨pa, rfl, hturn⟩ := Hub.turn_step hh r
    · exact List.mem_cons_of_mem _ (h.messages n r m (hsame ▸ hm))
    · generalize k.publisher r = pc at hturn hm
      cases hturn with
      | opening _ hnone =>
        rw [hnone] at hm
        cases hm
      | reading _ hread =>
        cases hm
        subst hread
        exact List.mem_cons_self
      | broadcasting hb =>
        cases hm
        exact List.mem_cons_of_mem _ (h.messages n r _ (by rw [hb]; rfl))
      | looping hold hnew hsame _ =>
        rw [PublisherPc.msg_of_loop hnew, hsame] at hm
        exact List.mem_cons_of_mem _ (h.messages n r m ((PublisherPc.msg_of_loop hold).trans hm))
      | finished => cases hm
      | leaving _ _ hoff =>
        rw [PublisherPc.msg_of_offAir hoff] at hm
        cases hm
  refine ⟨fun r q hq => (h.accepted r q (hp ▸ hq)).cons _, ?_, ?_, ?_⟩
  · rw [hp, hz]
    exact h.bound
  · intro m r msg hm
    rw [hz] at hm
    simp only [Function.update_apply] at hm
    split_ifs at hm with hmn
    · exact hmn ▸ hmsg r msg hm
    · exact List.mem_cons_of_mem _ (h.messages m r msg hm)
  · intro m msg hm
    rw [hz] at hm ⊢
    simp only [Function.update_apply] at hm ⊢
    split_ifs at hm with hmn
    · subst hmn
      obtain ⟨hhist, -⟩ | ⟨r, order, u, rfl, hpc, hhist⟩ := Hub.history_step hh
      · obtain ⟨r, id, hr, hread⟩ := h.history m msg (hhist ▸ hm)
        exact ⟨r, id, hr, List.mem_cons_of_mem _ hread⟩
      · rw [hhist] at hm
        obtain hm | hm := List.mem_append.mp hm
        · obtain ⟨r, id, hr, hread⟩ := h.history m msg hm
          exact ⟨r, id, hr, List.mem_cons_of_mem _ hread⟩
        · obtain rfl := List.mem_singleton.mp hm
          obtain ⟨id, hid⟩ := Server.bound_of_mayAct_publisher hact
          exact ⟨r, id, hid, List.mem_cons_of_mem _ (h.messages m r msg (by rw [hpc]; rfl))⟩
    · obtain ⟨r, id, hr, hread⟩ := h.history m msg hm
      exact ⟨r, id, hr, List.mem_cons_of_mem _ hread⟩

theorem Authorised.step (h : Authorised hmac secret as y)
    (he : y.step hmac secret lim a = some z) :
    Authorised hmac secret (a :: as) z := by
  cases moves_of_step he with
  | allowed hp hw _ =>
    refine h.setPublish rfl rfl (by simp [hp]) ?_
    intro q hq
    split_ifs at hq <;> cases hq
  | countBlocked hp => exact h.setPublish rfl rfl (by simp [hp]) nofun
  | bad hp _ _ => exact h.setPublish rfl rfl (by simp [hp]) nofun
  | reject hp _ _ _ => exact h.setPublish rfl rfl (by simp [hp]) nofun
  | accept hp _ _ ht =>
    refine h.setPublish rfl rfl (by simp [hp]) ?_
    rintro _ ⟨⟩
    exact ⟨_, List.mem_cons_self, ht⟩
  | countFailure hp => exact h.setPublish rfl rfl (by simp [hp]) nofun
  | recordFailure hp _ => exact h.setPublish rfl rfl (by simp [hp]) nofun
  | recordSuccess hp _ =>
    refine h.setPublish rfl rfl (by simp [hp]) ?_
    rintro _ ⟨⟩
    exact (h.accepted _ _ (by rw [hp]; rfl)).cons _
  | refuse hp _ _ => exact h.setPublish rfl rfl (by simp [hp]) nofun
  | relay ha hR =>
    cases Server.moves_of_step hR with
    | get hw role id => exact h.get hw ha (settle_publish ..) (settle_relay ..) _
    | hub hact hh => exact h.hub hact hh (settle_publish ..) (settle_relay ..)
    | reap | stats | delete | unlock =>
      exact h.keep (settle_publish ..) (by rw [settle_relay]) (by rw [settle_relay]) _
  | countPacket | countBytes => refine h.keep ?_ ?_ ?_ _ <;> rfl

structure Sound (hmac : Bytes → Bytes → Bytes) (secret : Bytes) (lim : Limits)
    (as : List HandlerAct) (y : RelayServer) : Prop where
  registered : Server.Registered hasMagic lim y.relay
  labelled : Server.Labelled y.relay
  authorised : Authorised hmac secret as y

theorem sound_of_run (hrun : (relayServer hmac secret lim threshold window cooldown start).run
    (relayServer hmac secret lim threshold window cooldown start).init as = some y) :
    Sound hmac secret lim as.reverse y := by
  refine Machine.run_invariant (P := Sound hmac secret lim) ?_ ?_ hrun
  · have hlabelled : Server.Labelled (server hasMagic lim).init := Server.labelled_init
    exact ⟨Server.registered_init, hlabelled, nofun, nofun, fun _ _ _ => nofun, fun _ _ => nofun⟩
  · rintro as y a z ⟨hi, hl, h⟩ he
    have hauth := h.step he
    obtain hrelay | ⟨b, -, hR⟩ := relay_step he
    · exact ⟨hrelay ▸ hi, hrelay ▸ hl, hauth⟩
    · exact ⟨hi.step hR, hl.step hi hR, hauth⟩

/-- In every run: a message that a viewer of a channel was sent came in on a publisher connection
of that channel, and the token of the connection's request was accepted for that channel. -/
theorem delivered_authorised (hb : 1 ≤ lim.sendBuf)
    (hrun : (relayServer hmac secret lim threshold window cooldown start).run
      (relayServer hmac secret lim threshold window cooldown start).init as = some y)
    {v n : Nat} {id : String} (hv : y.relay.request v = .bound .subscribe id n) (s : Nat)
    {m : Bytes} (hm : m ∈ ((y.relay.hubs n).heap s).log.written) :
    ∃ (r : Nat) (q : PublishRequest) (now : Time), y.relay.request r = .bound .publish id n ∧
      channelString q.channelID = id ∧ .verify r now ∈ as ∧
      verifyToken hmac secret q.channelID q.token now = .ok () ∧
      .relay (.hub n (.publisher r (.read true m))) ∈ as := by
  obtain ⟨hi, hl, h⟩ := sound_of_run hrun
  obtain ⟨name, hserves⟩ := hi.served n
  have hhist := (Hub.written_sublist hb hserves.reachable s).subset hm
  obtain ⟨r, id', hr, hread⟩ := h.history n m hhist
  obtain ⟨q, hq, hid⟩ := h.bound r id' n hr
  obtain ⟨now, hverify, htoken⟩ := h.accepted r q (by rw [hq]; rfl)
  have hsame : id' = id := (hl.bound r _ id' n hr).symm.trans (hl.bound v _ id n hv)
  subst hsame
  exact ⟨r, q, now, hr, hid, List.mem_reverse.mp hverify, htoken, List.mem_reverse.mp hread⟩

def kickRequest : PublishRequest := ⟨Limited.localhost, kickA, minuteToken⟩

/-- A publisher with a good token, and a viewer of the same channel. -/
def broadcastRun : List HandlerAct :=
  [.allowed 1 kickRequest 0, .verify 1 epoch, .recordSuccess 1,
    .relay (.get 1 .publish "kick:a"), .relay (.get 2 .subscribe "kick:a")] ++
  [.subscriber 2 .subscribe, .subscriber 2 (.accept true), .subscriber 2 (.subprotocol true),
    .publisher 1 .claim, .publisher 1 (.accept true), .publisher 1 (.subprotocol true),
    .publisher 1 (.read true Wire.magic), .publisher 1 (.snapshot [0]), .publisher 1 .next,
    .publisher 1 .deliver, .publisher 1 .next, .subscriber 2 .receive,
    .subscriber 2 (.write true)].map (fun a => .relay (.hub 0 a)) ++
  [.countPacket 1, .countBytes 1]

theorem delivered_authorised_broadcast : ∃ y,
    (relayServer minuteHmac [0x73] Server.fewLimits 5 60 300 0).run
      (relayServer minuteHmac [0x73] Server.fewLimits 5 60 300 0).init broadcastRun = some y ∧
    ∃ (r : Nat) (q : PublishRequest) (now : Time),
      y.relay.request r = .bound .publish "kick:a" 0 ∧ channelString q.channelID = "kick:a" ∧
      .verify r now ∈ broadcastRun ∧
      verifyToken minuteHmac [0x73] q.channelID q.token now = .ok () ∧
      .relay (.hub 0 (.publisher r (.read true Wire.magic))) ∈ broadcastRun := by
  have hrun : ((relayServer minuteHmac [0x73] Server.fewLimits 5 60 300 0).run
      (relayServer minuteHmac [0x73] Server.fewLimits 5 60 300 0).init broadcastRun).any
        (fun y => y.relay.request 2 = .bound .subscribe "kick:a" 0 ∧
          Wire.magic ∈ ((y.relay.hubs 0).heap 0).log.written) = true := by
    decide +kernel
  obtain ⟨y, hy, hviewer⟩ := (Option.any_eq_true _ _).mp hrun
  obtain ⟨hv, hm⟩ := of_decide_eq_true hviewer
  exact ⟨y, hy, delivered_authorised (by decide) hy hv 0 hm⟩

end RelayServer

end StreamMix.Relay
