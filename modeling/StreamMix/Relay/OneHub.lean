import StreamMix.Relay.Sessions

namespace StreamMix.Relay

variable {Msg : Type u}

def Reaper.todo : Reaper → List (String × Nat)
  | .idle => []
  | .visiting todo => todo
  | .read id n _ todo => (id, n) :: todo

namespace Server

variable {R T : Server Msg} {sniff : Msg → Bool} {lim : Limits} {id : String} {n r : Nat}

/-- Whether the handler of request `r` has returned. -/
def finished (R : Server Msg) (r : Nat) : Bool :=
  match R.request r with
  | .waiting => false
  | .rejected => true
  | .bound .publish _ n => ((R.hubs n).publisher r).finished
  | .bound .subscribe _ n => ((R.hubs n).subscriber r).finished

structure LivePublisher (R : Server Msg) (r : Nat) (id : String) (n : Nat) : Prop where
  request : R.request r = .bound .publish id n
  claim : ((R.hubs n).publisher r).holds = true

/-- Between `Subscribe` and the start of the deferred `unsub`. -/
structure LiveSubscriber (R : Server Msg) (r : Nat) (id : String) (n s : Nat) : Prop where
  request : R.request r = .bound .subscribe id n
  sub : ((R.hubs n).subscriber r).sub = some s
  kept : ∀ p, (R.hubs n).ch.mu ≠ .unsub s p (some r)

def Live (R : Server Msg) (r : Nat) (id : String) (n : Nat) : Prop :=
  R.LivePublisher r id n ∨ ∃ s, R.LiveSubscriber r id n s

/-- `Reap` deletes no hub that a request got from `GetOrCreate` and still works with. -/
def Undisturbed (R : Server Msg) : ServerAct Msg → Prop
  | .delete => ∀ id n stats todo, R.reaper = .read id n stats todo → isIdle stats = true →
    ∀ r role, R.request r = .bound role id n → R.finished r = true
  | _ => True

structure Registered (sniff : Msg → Bool) (lim : Limits) (R : Server Msg) : Prop where
  served : ∀ n, ∃ name, (R.hubs n).Serves sniff name lim.maxSubs lim.sendBuf
  bound : ∀ r role id n, R.request r = .bound role id n → n < R.created
  publishers : ∀ n r, (R.hubs n).publisher r ≠ .idle → ∃ id, R.request r = .bound .publish id n
  subscribers : 0 ≤ lim.sendBuf → ∀ n r, (R.hubs n).subscriber r ≠ .idle →
    ∃ id, R.request r = .bound .subscribe id n
  entry : ∀ e ∈ R.channels, e.2 < R.created
  keys : (R.channels.map Prod.fst).Nodup
  reaping : (R.reaper.todo.map Prod.fst).Nodup
  pending : ∀ e ∈ R.reaper.todo, e ∈ R.channels

def Known (R : Server Msg) : Prop :=
  ∀ r role id n, R.request r = .bound role id n → R.finished r = false → (id, n) ∈ R.channels

theorem registered_init : Registered sniff lim (server sniff lim).init := by
  refine ⟨?_, nofun, ?_, ?_, nofun, List.nodup_nil, List.nodup_nil, nofun⟩
  · intro n
    exact ⟨"", .init⟩
  · intro n r hr
    exact absurd rfl hr
  · intro _ n r hr
    exact absurd rfl hr

theorem mem_of_lookup_eq {l : List (String × Nat)} (h : l.lookup id = some n) : (id, n) ∈ l := by
  obtain ⟨l₁, l₂, rfl, -⟩ := List.lookup_eq_some_iff.mp h
  simp

theorem Registered.setRequest (hi : Registered sniff lim R) {q : Request}
    (hr : R.request r = .waiting) (hq : ∀ role id n, q = .bound role id n → n < R.created) :
    Registered sniff lim (R.setRequest r q) := by
  have hkeep : ∀ p, (∃ role id n, R.request p = .bound role id n) →
      (R.setRequest r q).request p = R.request p := by
    rintro p ⟨role, id, n, hp⟩
    refine Function.update_of_ne ?_ ..
    rintro rfl
    rw [hr] at hp
    cases hp
  refine ⟨hi.served, ?_, ?_, ?_, hi.entry, hi.keys, hi.reaping, hi.pending⟩
  · intro p role id n hp
    simp only [Server.setRequest, Function.update_apply] at hp
    split at hp
    · exact hq role id n hp
    · exact hi.bound p role id n hp
  · intro n p hp
    obtain ⟨id, hid⟩ := hi.publishers n p hp
    exact ⟨id, (hkeep p ⟨_, _, _, hid⟩).trans hid⟩
  · intro hb n p hp
    obtain ⟨id, hid⟩ := hi.subscribers hb n p hp
    exact ⟨id, (hkeep p ⟨_, _, _, hid⟩).trans hid⟩

theorem Registered.create (hi : Registered sniff lim R) (hl : R.channels.lookup id = none) :
    Registered sniff lim (R.create lim id) := by
  refine ⟨?_, ?_, ?_, ?_, ?_, ?_, hi.reaping, ?_⟩
  · intro n
    simp only [Server.create, Function.update_apply]
    split
    · exact ⟨id, .init⟩
    · exact hi.served n
  · intro r role id n hr
    exact Nat.lt_succ_of_lt (hi.bound r role id n hr)
  · intro n r hr
    simp only [Server.create, Function.update_apply] at hr
    split at hr
    · exact absurd rfl hr
    · exact hi.publishers n r hr
  · intro hb n r hr
    simp only [Server.create, Function.update_apply] at hr
    split at hr
    · exact absurd rfl hr
    · exact hi.subscribers hb n r hr
  · intro e he
    obtain rfl | he := List.mem_cons.mp he
    · exact Nat.lt_succ_self _
    · exact Nat.lt_succ_of_lt (hi.entry e he)
  · refine List.nodup_cons.mpr ⟨?_, hi.keys⟩
    intro hmem
    obtain ⟨e, he, heq⟩ := List.mem_map.mp hmem
    have := List.lookup_eq_none_iff.mp hl e he
    simp [heq] at this
  · intro e he
    exact List.mem_cons_of_mem _ (hi.pending e he)

theorem Registered.getOrCreate (hi : Registered sniff lim R) (hr : R.request r = .waiting)
    (role : Role) (id : String) : Registered sniff lim (R.getOrCreate lim r role id) := by
  simp only [Server.getOrCreate]
  split
  · exact hi.setRequest hr nofun
  · split
    · next n hl =>
      refine hi.setRequest hr ?_
      rintro role id m ⟨⟩
      exact hi.entry _ (mem_of_lookup_eq hl)
    · next hl =>
      split
      · exact hi.setRequest hr nofun
      · refine (hi.create hl).setRequest hr ?_
        rintro role id m ⟨⟩
        exact Nat.lt_succ_self _

theorem bound_of_mayAct_publisher (h : R.mayAct n (.publisher r a) = true) :
    ∃ id, R.request r = .bound .publish id n := by
  simp only [Server.mayAct] at h
  split at h
  · next id m hr => exact ⟨id, beq_iff_eq.mp h ▸ hr⟩
  · cases h

theorem bound_of_mayAct_subscriber (h : R.mayAct n (.subscriber r a) = true) :
    ∃ id, R.request r = .bound .subscribe id n := by
  simp only [Server.mayAct] at h
  split at h
  · next id m hr => exact ⟨id, beq_iff_eq.mp h ▸ hr⟩
  · cases h

/-- A step inside a hub, by a handler that has it. -/
theorem Registered.hub (hi : Registered sniff lim R) {h : Hub Msg} (hact : R.mayAct n a = true)
    (hh : (R.hubs n).step sniff a = some h) :
    Registered sniff lim { R with hubs := Function.update R.hubs n h } := by
  refine ⟨?_, hi.bound, ?_, ?_, hi.entry, hi.keys, hi.reaping, hi.pending⟩
  · intro m
    simp only [Function.update_apply]
    split
    · obtain ⟨name, hs⟩ := hi.served n
      refine ⟨name, Machine.Reaches.step hs (a := a) ?_ hh⟩
      cases a <;> first | rfl | cases hact
    · exact hi.served m
  · intro m p hp
    simp only [Function.update_apply] at hp
    split at hp
    · next hmn =>
      subst hmn
      obtain hold | ⟨b, rfl⟩ := Hub.publisher_idle hh p hp
      · exact hi.publishers m p hold
      · exact bound_of_mayAct_publisher (R := R) hact
    · exact hi.publishers m p hp
  · intro hb m p hp
    simp only [Function.update_apply] at hp
    split at hp
    · next hmn =>
      subst hmn
      obtain ⟨name, hs⟩ := hi.served m
      obtain hold | ⟨b, rfl⟩ := Hub.subscriber_idle (hs.attended hb).1 hh p hp
      · exact hi.subscribers hb m p hold
      · exact bound_of_mayAct_subscriber (R := R) hact
    · exact hi.subscribers hb m p hp

/-- The channels that the reaper has read stay in the registry until it deletes them. -/
theorem Registered.delete (hi : Registered sniff lim R) (hr : R.reaper = .read id n stats todo) :
    Registered sniff lim { R with
      channels := if isIdle stats then R.channels.filter (fun e => e.1 ≠ id) else R.channels
      reaper := .visiting todo } := by
  have hreap := hi.reaping
  have hpend := hi.pending
  rw [hr] at hreap hpend
  obtain ⟨hnew, hrest⟩ := List.nodup_cons.mp hreap
  split
  · refine ⟨hi.served, hi.bound, hi.publishers, hi.subscribers, ?_, ?_, hrest, ?_⟩
    · intro e he
      exact hi.entry e (List.mem_of_mem_filter he)
    · exact hi.keys.sublist (List.filter_sublist.map Prod.fst)
    · intro e he
      refine List.mem_filter.mpr ⟨hpend e (List.mem_cons_of_mem _ he), ?_⟩
      rw [decide_eq_true_eq]
      rintro rfl
      exact hnew (List.mem_map.mpr ⟨e, he, rfl⟩)
  · exact ⟨hi.served, hi.bound, hi.publishers, hi.subscribers, hi.entry, hi.keys, hrest,
      fun e he => hpend e (List.mem_cons_of_mem _ he)⟩

theorem Registered.step (hi : Registered sniff lim R) {a : ServerAct Msg}
    (he : R.step sniff lim a = some T) : Registered sniff lim T := by
  cases moves_of_step he with
  | get hr role id => exact hi.getOrCreate hr role id
  | hub hact hh => exact hi.hub hact hh
  | reap hperm =>
    have hp := List.isPerm_iff.mp hperm
    refine ⟨hi.served, hi.bound, hi.publishers, hi.subscribers, hi.entry, hi.keys, ?_,
      fun e he => hp.mem_iff.mp he⟩
    exact (hp.map Prod.fst).nodup_iff.mpr hi.keys
  | stats hr =>
    have hreap := hi.reaping
    have hpend := hi.pending
    rw [hr] at hreap hpend
    exact ⟨hi.served, hi.bound, hi.publishers, hi.subscribers, hi.entry, hi.keys, hreap, hpend⟩
  | delete hr => exact hi.delete hr
  | unlock =>
    exact ⟨hi.served, hi.bound, hi.publishers, hi.subscribers, hi.entry, hi.keys, List.nodup_nil,
      nofun⟩

theorem finished_setRequest (hq : p ≠ r) : (R.setRequest r q).finished p = R.finished p := by
  simp only [Server.finished, Server.setRequest, Function.update_of_ne hq]

theorem Known.setRequest (hk : Known R) {q : Request}
    (hq : ∀ role id n, q = .bound role id n → (id, n) ∈ R.channels) :
    Known (R.setRequest r q) := by
  intro p role id n hp hf
  by_cases hpr : p = r
  · subst hpr
    simp only [Server.setRequest, Function.update_self] at hp
    exact hq role id n hp
  · rw [finished_setRequest hpr] at hf
    simp only [Server.setRequest, Function.update_of_ne hpr] at hp
    exact hk p role id n hp hf

theorem finished_create (hi : Registered sniff lim R) (r : Nat) :
    (R.create lim id).finished r = R.finished r := by
  simp only [Server.finished]
  cases hr : R.request r with
  | waiting => simp only [Server.create, hr]
  | rejected => simp only [Server.create, hr]
  | bound role id n =>
    have := hi.bound r role id n hr
    cases role <;>
      simp only [Server.create, hr, Function.update_of_ne (Nat.ne_of_lt this)]

theorem Known.create (hk : Known R) (hi : Registered sniff lim R) : Known (R.create lim id) := by
  intro r role id n hr hf
  rw [finished_create hi] at hf
  exact List.mem_cons_of_mem _ (hk r role id n hr hf)

theorem Known.getOrCreate (hk : Known R) (hi : Registered sniff lim R) (r : Nat) (role : Role)
    (id : String) : Known (R.getOrCreate lim r role id) := by
  simp only [Server.getOrCreate]
  split
  · exact hk.setRequest nofun
  · split
    · next n hl =>
      refine hk.setRequest ?_
      rintro role id m ⟨⟩
      exact mem_of_lookup_eq hl
    · split
      · exact hk.setRequest nofun
      · refine (hk.create hi).setRequest ?_
        rintro role id m ⟨⟩
        exact List.mem_cons_self

theorem finished_hub {a : HubAct Msg} (he : (R.hubs n).step sniff a = some h)
    (hr : R.finished r = true) :
    ({ R with hubs := Function.update R.hubs n h } : Server Msg).finished r = true := by
  simp only [Server.finished] at hr ⊢
  cases hreq : R.request r with
  | waiting => simp only [hreq, Bool.false_eq_true] at hr
  | rejected => rfl
  | bound role id m =>
    simp only [hreq] at hr
    by_cases hmn : m = n
    · subst hmn
      cases role with
      | publish =>
        simp only [Function.update_self]
        rw [Hub.publisher_step he r hr]
        exact hr
      | subscribe =>
        simp only [Function.update_self]
        exact Hub.subscriber_step he r hr
    · cases role <;> simpa only [Function.update_of_ne hmn] using hr

/-- A channel that `Reap` deletes has no handler that still works with it. -/
theorem Known.delete (hk : Known R) (hi : Registered sniff lim R) (hg : R.Undisturbed .delete)
    (hr : R.reaper = .read id n stats todo) : Known { R with
      channels := if isIdle stats then R.channels.filter (fun e => e.1 ≠ id) else R.channels
      reaper := .visiting todo } := by
  intro r role i m hreq hf
  have hold : (i, m) ∈ R.channels := hk r role i m hreq hf
  split
  · next hidle =>
    refine List.mem_filter.mpr ⟨hold, ?_⟩
    rw [decide_eq_true_eq]
    rintro rfl
    have hread : (i, n) ∈ R.channels := hi.pending _ (by rw [hr]; exact List.mem_cons_self)
    have hmn : m = n := by
      have := List.inj_on_of_nodup_map hi.keys hold hread rfl
      exact congrArg Prod.snd this
    subst hmn
    have hdone := hg i m stats todo hr hidle r role hreq
    rw [show R.finished r = false from hf] at hdone
    cases hdone
  · exact hold

theorem Known.step (hk : Known R) (hi : Registered sniff lim R) {a : ServerAct Msg}
    (hg : R.Undisturbed a) (he : R.step sniff lim a = some T) : Known T := by
  cases moves_of_step he with
  | get _ role id => exact hk.getOrCreate hi _ role id
  | hub _ hh =>
    intro r role id m hr hf
    refine hk r role id m hr ?_
    by_contra hdone
    rw [finished_hub hh (by simpa using hdone)] at hf
    cases hf
  | delete hr => exact hk.delete hi hg hr
  | reap | stats | unlock => exact hk

theorem LivePublisher.finished (h : R.LivePublisher r id n) : R.finished r = false := by
  simp only [Server.finished, h.request]
  exact PublisherPc.finished_of_holds h.claim

theorem LiveSubscriber.finished (h : R.LiveSubscriber r id n s) : R.finished r = false := by
  simp only [Server.finished, h.request]
  exact SubscriberPc.finished_of_sub h.sub

theorem Known.mem (hk : Known R) (h : R.Live r id n) : (id, n) ∈ R.channels := by
  obtain h | ⟨s, h⟩ := h
  · exact hk r _ id n h.request h.finished
  · exact hk r _ id n h.request h.finished

theorem LiveSubscriber.mem (hi : Registered sniff lim R) (h : R.LiveSubscriber r id n s) :
    Hub.Members (R.hubs n) ∧ s ∈ (R.hubs n).ch.subs := by
  obtain ⟨name, hs⟩ := hi.served n
  by_cases hb : 0 ≤ lim.sendBuf
  · obtain ⟨hm, ha⟩ := hs.attended hb
    refine ⟨hm, (ha.present r s h.sub).resolve_right ?_⟩
    rintro ⟨p, hp⟩
    exact h.kept p hp
  · have := hs.no_sub (Int.not_le.mp hb) r
    rw [h.sub] at this
    cases this

/-- All sessions of a channel id meet in one hub. -/
structure OneHub (sniff : Msg → Bool) (lim : Limits) (R : Server Msg) : Prop where
  shared : ∀ r q id m n, R.Live r id m → R.Live q id n → m = n
  publisher : ∀ r q id m n, R.LivePublisher r id m → R.LivePublisher q id n → r = q
  offered : ∀ r id n order T, R.LivePublisher r id n →
    R.step sniff lim (.hub n (.publisher r (.snapshot order))) = some T →
      (∃ msg, (T.hubs n).publisher r = .range ⟨msg, order.length, 0, order⟩) ∧
      ∀ q m s, R.LiveSubscriber q id m s → m = n ∧ s ∈ order
  limit : ∀ id (Q : Finset Nat), (∀ q ∈ Q, ∃ n s, R.LiveSubscriber q id n s) →
    (Q.card : Int) ≤ max lim.maxSubs 0

theorem Known.shared (hk : Known R) (hi : Registered sniff lim R) (hr : R.Live r id m)
    (hq : R.Live q id n) : m = n :=
  congrArg Prod.snd (List.inj_on_of_nodup_map hi.keys (hk.mem hr) (hk.mem hq) rfl)

theorem limit_of_known (hk : Known R) (hi : Registered sniff lim R) (Q : Finset Nat)
    (hQ : ∀ q ∈ Q, ∃ n s, R.LiveSubscriber q id n s) : (Q.card : Int) ≤ max lim.maxSubs 0 := by
  obtain rfl | ⟨p, hp⟩ := Q.eq_empty_or_nonempty
  · simp
  obtain ⟨n, t, ht⟩ := hQ p hp
  obtain ⟨hm, -⟩ := ht.mem hi
  have hall : ∀ q ∈ Q, ∃ s, R.LiveSubscriber q id n s := by
    intro q hq
    obtain ⟨m, s, hs⟩ := hQ q hq
    obtain rfl := hk.shared hi (.inr ⟨s, hs⟩) (.inr ⟨t, ht⟩)
    exact ⟨s, hs⟩
  have hcard : Q.card ≤ (R.hubs n).ch.subs.card := by
    refine Finset.card_le_card_of_injOn (fun q => (((R.hubs n).subscriber q).sub).getD 0) ?_ ?_
    · intro q hq
      obtain ⟨s, hs⟩ := hall q hq
      simp only [hs.sub, Option.getD_some]
      exact (hs.mem hi).2
    · intro q hq q' hq' heq
      obtain ⟨s, hs⟩ := hall q hq
      obtain ⟨s', hs'⟩ := hall q' hq'
      simp only [hs.sub, hs'.sub, Option.getD_some] at heq
      subst heq
      exact hm.owner q q' s hs.sub hs'.sub
  obtain ⟨name, hserves⟩ := hi.served n
  have hmax : (R.hubs n).ch.maxSubs = lim.maxSubs := congrArg (fun p => p.2.1) hserves.limits
  rw [← hmax]
  exact le_trans (by exact_mod_cast hcard) hm.card

theorem oneHub_of_undisturbed (hr : (server sniff lim).Reaches Undisturbed R) :
    OneHub sniff lim R := by
  obtain ⟨hi, hk⟩ : Registered sniff lim R ∧ Known R := by
    refine hr.invariant (P := fun R => Registered sniff lim R ∧ Known R) ?_ ?_
    · exact ⟨registered_init, nofun⟩
    · rintro S a T ⟨hi, hk⟩ hg he
      exact ⟨hi.step he, hk.step hi hg he⟩
  refine ⟨?_, ?_, ?_, fun id Q hQ => limit_of_known hk hi Q hQ⟩
  · intro r q id m n hr hq
    exact hk.shared hi hr hq
  · intro r q id m n hr hq
    obtain rfl := hk.shared hi (.inl hr) (.inl hq)
    obtain ⟨name, hs⟩ := hi.served m
    exact (Hub.slot_of_reachable hs.reachable).unique r q hr.claim hq.claim
  · intro r id n order T hr he
    simp only [Server.step] at he
    split at he
    · obtain ⟨h, hh, rfl⟩ := Option.map_eq_some_iff.mp he
      simp only [Hub.step, Hub.stepPublisher] at hh
      cases hpc : (R.hubs n).publisher r <;> simp only [hpc, reduceCtorEq] at hh
      split at hh <;> cases hh
      next msg hg =>
      refine ⟨⟨msg, ?_⟩, ?_⟩
      · simp only [Function.update_self, Hub.snapshot, Hub.setPublisher]
      · intro q m s hq
        obtain rfl := hk.shared hi (.inr ⟨s, hq⟩) (.inl hr)
        refine ⟨rfl, ?_⟩
        rw [← List.mem_toFinset, hg.2.2]
        exact (hq.mem hi).2
    · cases he

def fewLimits : Limits := ⟨10, 2, 4⟩

/-- A publisher comes and goes, its hub is reaped, and a new session gathers. -/
def gathering : List (ServerAct Nat) :=
  [.get 0 .publish "twitch:a", .hub 0 (.publisher 0 .claim), .hub 0 (.publisher 0 (.accept false)),
    .hub 0 (.publisher 0 .release), .reap [("twitch:a", 0)], .stats, .delete, .unlock,
    .get 1 .publish "twitch:a", .get 2 .subscribe "twitch:a", .hub 1 (.publisher 1 .claim),
    .hub 1 (.subscriber 2 .subscribe)]

theorem oneHub_gathering : ∃ R, (server (fun _ => true) fewLimits).run
    (server (fun _ => true) fewLimits).init gathering = some R ∧
    R.LivePublisher 1 "twitch:a" 1 ∧ R.LiveSubscriber 2 "twitch:a" 1 0 ∧
    OneHub (fun _ => true) fewLimits R := by
  refine ⟨_, rfl, ⟨rfl, rfl⟩, ⟨rfl, rfl, nofun⟩, ?_⟩
  refine oneHub_of_undisturbed (.of_run gathering .init ?_ rfl)
  refine ⟨trivial, trivial, trivial, trivial, trivial, trivial, ?_, trivial, trivial, trivial,
    trivial, trivial, trivial⟩
  rintro id n stats todo ⟨⟩ - (_ | r) role hr
  · rfl
  · cases hr

/-- A request that has its hub but no claim on it yet when the reaper looks. -/
def split : List (ServerAct Nat) :=
  [.get 0 .publish "twitch:a", .reap [("twitch:a", 0)], .stats, .delete, .unlock,
    .hub 0 (.publisher 0 .claim), .get 1 .publish "twitch:a", .hub 1 (.publisher 1 .claim)]

theorem two_publishers_after_reap : ∃ R, (server (fun _ => true) fewLimits).run
    (server (fun _ => true) fewLimits).init split = some R ∧
    R.LivePublisher 0 "twitch:a" 0 ∧ R.LivePublisher 1 "twitch:a" 1 ∧
    ¬ OneHub (fun _ => true) fewLimits R := by
  refine ⟨_, rfl, ⟨rfl, rfl⟩, ⟨rfl, rfl⟩, ?_⟩
  intro h
  exact absurd (h.shared 0 1 "twitch:a" 0 1 (.inl ⟨rfl, rfl⟩) (.inl ⟨rfl, rfl⟩)) (by decide)

/-- Every handler that was started has returned. -/
def Quiet (R : Server Msg) : Prop := ∀ r, R.request r = .waiting ∨ R.finished r = true

theorem hub_of_quiet (hi : Registered sniff lim R) (hb : 0 ≤ lim.sendBuf) (hq : R.Quiet) (n : Nat) :
    (R.hubs n).ch.mu = .unlocked ∧ isIdle (R.hubs n).ch.stats = true := by
  obtain ⟨name, hs⟩ := hi.served n
  obtain ⟨hm, ha⟩ := hs.attended hb
  have hsub : ∀ r s, ((R.hubs n).subscriber r).sub ≠ some s := by
    intro r s hr
    obtain ⟨id, hid⟩ := hi.subscribers hb n r (by intro hpc; rw [hpc] at hr; cases hr)
    have hf := (hq r).resolve_left (by rw [hid]; nofun)
    simp only [Server.finished, hid, SubscriberPc.finished_of_sub hr, Bool.false_eq_true] at hf
  have hpub : ∀ r, ((R.hubs n).publisher r).holds ≠ true := by
    intro r hr
    obtain ⟨id, hid⟩ := hi.publishers n r (by intro hpc; rw [hpc] at hr; cases hr)
    have hf := (hq r).resolve_left (by rw [hid]; nofun)
    simp only [Server.finished, hid, PublisherPc.finished_of_holds hr, Bool.false_eq_true] at hf
  refine ⟨?_, ?_⟩
  · cases hmu : (R.hubs n).ch.mu with
    | unlocked => rfl
    | abandoned => exact absurd hmu hm.mutex
    | unsub s p c =>
      obtain ⟨r, rfl⟩ := ha.called s p c hmu
      exact absurd (by rw [hm.caller s p r hmu]; rfl) (hsub r s)
  · have hfree : (R.hubs n).ch.hasPub = false := by
      by_contra hp
      obtain ⟨r, hr⟩ := (Hub.slot_of_reachable hs.reachable).held (by simpa using hp)
      exact hpub r hr
    have hempty : (R.hubs n).ch.subs = ∅ := by
      refine Finset.eq_empty_of_forall_notMem (fun s hmem => ?_)
      obtain ⟨r, hr⟩ := ha.attended s hmem
      exact hsub r s hr
    simp only [isIdle, Channel.stats, hfree, hempty]
    rfl

/-- The labels of one call of `Reap` that visits the entries in `order`. -/
def reapPass (order : List (String × Nat)) : List (ServerAct Msg) :=
  .reap order :: (order.flatMap (fun _ => [.stats, .delete]) ++ [.unlock])

theorem run_visits (todo : List (String × Nat)) (R : Server Msg) (hr : R.reaper = .visiting todo)
    (hidle : ∀ n, (R.hubs n).ch.mu = .unlocked ∧ isIdle (R.hubs n).ch.stats = true) :
    (server sniff lim).run R (todo.flatMap (fun _ => [.stats, .delete]) ++ [.unlock]) =
      some { R with
        channels := R.channels.filter (fun e => e.1 ∉ todo.map Prod.fst)
        reaper := .idle } := by
  induction todo generalizing R with
  | nil =>
    simp [Machine.run, server, Server.step, hr]
  | cons e todo ih =>
    obtain ⟨id, n⟩ := e
    have hstats : (server sniff lim).step R .stats =
        some { R with reaper := .read id n (R.hubs n).ch.stats todo } := by
      simp only [server, Server.step, hr, (hidle n).1, if_true]
    have hdelete : (server sniff lim).step { R with reaper := .read id n (R.hubs n).ch.stats todo }
        .delete = some { R with
          channels := R.channels.filter (fun e => e.1 ≠ id)
          reaper := .visiting todo } := by
      simp only [server, Server.step, (hidle n).2, if_true]
    rw [List.flatMap_cons, List.append_assoc]
    simp only [List.cons_append, List.nil_append, Machine.run]
    rw [hstats, Option.bind_some, hdelete, Option.bind_some]
    refine (ih { R with
      channels := R.channels.filter (fun e => e.1 ≠ id)
      reaper := .visiting todo } rfl hidle).trans ?_
    simp only [List.filter_filter, List.map_cons, List.mem_cons, not_or]
    congr 2
    refine List.filter_congr ?_
    intro e _
    simp [Bool.and_comm]

theorem run_reapPass (hi : Registered sniff lim R) (hb : 0 ≤ lim.sendBuf) (hq : R.Quiet)
    (hr : R.reaper = .idle) (hp : order.Perm R.channels) :
    ∃ T, (server sniff lim).run R (reapPass order) = some T ∧ T.channels = [] := by
  have hbegin : (server sniff lim).step R (.reap order) =
      some { R with reaper := .visiting order } := by
    simp only [server, Server.step, hr, List.isPerm_iff.mpr hp, if_true]
  have hvisits := @run_visits Msg sniff lim order { R with reaper := .visiting order } rfl
    (hub_of_quiet (R := R) hi hb hq)
  have hrun : (server sniff lim).run R (reapPass order) =
      (server sniff lim).run { R with reaper := .visiting order }
        (order.flatMap (fun _ => [.stats, .delete]) ++ [.unlock]) := by
    rw [reapPass, Machine.run, hbegin, Option.bind_some]
  refine ⟨_, hrun.trans hvisits, ?_⟩
  refine List.filter_eq_nil_iff.mpr ?_
  intro e he
  simpa using ⟨e.2, hp.mem_iff.mpr he⟩

theorem registered_of_reachable (hr : (server sniff lim).Reachable R) : Registered sniff lim R :=
  hr.invariant registered_init (fun _ _ _ hi he => hi.step he)

end Server

/-- Every hub keeps its set of subscribers, and when all handlers have returned one pass
of `Reap` over the registry, in whatever order, leaves it empty. -/
theorem subscribers_of_limits (sniff : Msg → Bool) (name : String) (maxChannels : Int)
    (hm : 0 ≤ maxSubs) (hb : 0 ≤ sendBuf) :
    (∀ h, (hub sniff name maxSubs sendBuf).Reachable h → h.SubscriberSet sniff) ∧
    ∀ R, (server sniff ⟨maxChannels, maxSubs, sendBuf⟩).Reachable R → R.Quiet →
      R.reaper = .idle → ∀ order, order.Perm R.channels →
        ∃ T, (server sniff ⟨maxChannels, maxSubs, sendBuf⟩).run R (Server.reapPass order) =
          some T ∧ T.channels = [] := by
  refine ⟨?_, ?_⟩
  · intro h hr
    have hl : h.ch.limits = (name, maxSubs, sendBuf) :=
      hr.invariant (P := fun h : Hub Msg => h.ch.limits = (name, maxSubs, sendBuf)) rfl
        (fun _ _ _ hl he => (Hub.limits_step he).trans hl)
    have ha : ∀ r, h.publisher r ≠ .crashed :=
      hr.invariant (P := fun h : Hub Msg => ∀ r, h.publisher r ≠ .crashed) nofun
        (fun _ _ _ ha he => Hub.publisher_alive ha he)
    refine Hub.subscriberSet_of_members (Hub.members_of_reachable hb hr) ?_ ha
    rw [show h.ch.maxSubs = maxSubs from congrArg (fun p => p.2.1) hl]
    exact hm
  · intro R hr hq hidle order hp
    exact Server.run_reapPass (Server.registered_of_reachable hr) hb hq hidle hp

/-- Two viewers, the first of them unsubscribed twice. -/
def leaver : List (HubAct Nat) :=
  [.subscriber 0 .subscribe, .subscriber 1 .subscribe, .unsub 0, .unlock, .unlock, .unlock,
    .unsub 0]

/-- A publisher whose handshake fails. -/
def visitor : List (ServerAct Nat) :=
  [.get 0 .publish "twitch:a", .hub 0 (.publisher 0 .claim), .hub 0 (.publisher 0 (.accept false)),
    .hub 0 (.publisher 0 .release)]

theorem subscribers_leaver_visitor :
    (∃ h, (hub (fun _ => true) "twitch:a" 2 4).run (hub (fun _ => true) "twitch:a" 2 4).init
      leaver = some h ∧ h.next = 2 ∧ h.SubscriberSet (fun _ => true)) ∧
    ∃ R T, (server (fun _ => true) ⟨10, 2, 4⟩).run (server (fun _ => true) ⟨10, 2, 4⟩).init
      visitor = some R ∧ R.channels = [("twitch:a", 0)] ∧
      (server (fun _ => true) ⟨10, 2, 4⟩).run R (Server.reapPass R.channels) = some T ∧
      T.channels = [] := by
  obtain ⟨hset, hreap⟩ := subscribers_of_limits (fun _ : Nat => true) "twitch:a" 10
    (show (0 : Int) ≤ 2 by decide) (show (0 : Int) ≤ 4 by decide)
  refine ⟨⟨_, rfl, rfl, hset _ (.of_run leaver (.init _) rfl)⟩, ?_⟩
  obtain ⟨T, hT, hempty⟩ := hreap _ (.of_run visitor (.init _) rfl)
    (by rintro (_ | r) <;> first | exact .inr rfl | exact .inl rfl) rfl _ (.refl _)
  exact ⟨_, T, rfl, rfl, hT, hempty⟩

end StreamMix.Relay
