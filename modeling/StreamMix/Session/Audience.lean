import StreamMix.Extension.RelayClient
import StreamMix.Session.Studio

universe u v

/-! A page that listens to a studio over one socket after another: between two of them its client
waits for a timer, and what the relay broadcasts in the meantime never reaches it. -/

namespace StreamMix.Session

open Wire Publisher Relay
open Extension (Playing Prefs RelayClient ClientStep ViewerAct viewer)
open scoped List

variable {Sample : Type u} {σ : Type v}

/-- `source` is the subscriber that the request of a socket has become, `taken` counts the messages
that a socket has fired, and `events` is a ghost: what happened on the page. -/
structure Audience (Sample : Type u) (σ : Type v) where
  studio : Studio Sample σ
  client : RelayClient
  source : Nat → Option Nat
  taken : Nat → Nat
  page : Playing
  events : List ViewerAct

inductive AudienceAct (Sample : Type u)
  | studio (a : StudioAct Sample)
  | client (a : ClientStep)
  | message (socket : Nat)
  | page (v : ViewerAct)

/-- The request whose handler subscribes. -/
def StudioAct.subscribes : StudioAct Sample → Option Nat
  | .session (.relay (.subscriber r .subscribe)) => some r
  | _ => none

namespace Audience

def hub (y : Audience Sample σ) : Hub Sent := y.studio.session.hub

def view (y : Audience Sample σ) (v : ViewerAct) : Option (Audience Sample σ) :=
  (y.page.view v).map (fun page => { y with page := page, events := y.events ++ [v] })

/-- The request of a socket has become a subscriber, unless it was refused. -/
def join (y : Audience Sample σ) (n : Nat) (studio : Studio Sample σ) (sub : Option Nat) :
    Audience Sample σ :=
  { y with studio := studio, source := Function.update y.source n sub }

/-- A socket fires the messages in the order in which its handler has written them. -/
def fire (y : Audience Sample σ) (n : Nat) (m : Sent) : Option (Audience Sample σ) :=
  (y.client.step (.onmessage n)).bind (fun client =>
    { y with client := client, taken := Function.update y.taken n (y.taken n + 1) }.view
      (.message m.packet.bytes))

/-- `sockets` knows the requests of the page among those of all viewers.  There is no request
before its socket is constructed. -/
def step (opus : σ → List Sample → Int × Bytes × σ) (cfg : Config) (sockets : Nat → Option Nat)
    (y : Audience Sample σ) : AudienceAct Sample → Option (Audience Sample σ)
  | .studio a =>
    (y.studio.step opus cfg a).bind (fun z =>
      match a.subscribes with
      | none => some { y with studio := z }
      | some r =>
        match sockets r with
        | none => some { y with studio := z }
        | some n =>
          if n < y.client.constructed then some (y.join n z (z.session.hub.subscriber r).sub)
          else none)
  | .client (.onmessage _) => none
  | .client a => (y.client.step a).map (fun client => { y with client := client })
  | .message n =>
    (y.source n).bind (fun s => (y.hub.heap s).log.written[y.taken n]?.bind (y.fire n))
  | .page (.message _) => none
  | .page v => y.view v

end Audience

def audience (opus : σ → List Sample → Int × Bytes × σ) (encs : Nat → σ) (cfg : Config)
    (name : String) (maxSubs sendBuf : Int) (sockets : Nat → Option Nat) (stored global : Prefs) :
    Machine (Audience Sample σ) (AudienceAct Sample) :=
  ⟨⟨(studio opus encs cfg name maxSubs sendBuf).init, Extension.connect, fun _ => none, fun _ => 0,
    (viewer stored global).init, []⟩, Audience.step opus cfg sockets⟩

/-- The part of the studio in a run. -/
def studioActs (as : List (AudienceAct Sample)) : List (StudioAct Sample) :=
  as.filterMap (fun
    | .studio a => some a
    | _ => none)

section

variable {opus : σ → List Sample → Int × Bytes × σ} {encs : Nat → σ} {cfg : Config}
  {name : String} {maxSubs sendBuf : Int} {sockets : Nat → Option Nat} {stored global : Prefs}

theorem studioActs_concat (as : List (AudienceAct Sample)) (a : AudienceAct Sample) :
    studioActs (as ++ [a]) = studioActs as ++ studioActs [a] := List.filterMap_append ..

/-- A step of the studio is a step of its hub, or leaves the hub alone. -/
theorem hub_step {y z : Studio Sample σ} (he : y.step opus cfg a = some z) :
    (z.session.hub = y.session.hub ∧ a.subscribes = none) ∨
      ∃ b, a = .session (.relay b) ∧ y.session.hub.step sniff b = some z.session.hub := by
  have hclient : ∀ (w : Studio Sample σ) c, w.perform cfg (.client c) = some z →
      z.session.hub = w.session.hub := by
    intro w c hc
    obtain ⟨s, hs, rfl⟩ := Option.map_eq_some_iff.mp hc
    simp only [State.step] at hs
    split_ifs at hs
    obtain ⟨d, -, rfl⟩ := Option.map_eq_some_iff.mp hs
    rfl
  cases a with
  | deliver i samples =>
    simp only [Studio.step] at he
    split_ifs at he
    cases he
    exact .inl ⟨rfl, rfl⟩
  | turn i now =>
    simp only [Studio.step] at he
    split at he
    · cases he
    · split_ifs at he
      · cases he
        exact .inl ⟨rfl, rfl⟩
      · exact .inl ⟨hclient (y.setLane i _) _ he, rfl⟩
  | session a =>
    simp only [Studio.step] at he
    split_ifs at he
    cases a with
    | client c => exact .inl ⟨hclient _ _ he, rfl⟩
    | relay b =>
      obtain ⟨s, hs, rfl⟩ := Option.map_eq_some_iff.mp he
      simp only [State.step] at hs
      split_ifs at hs
      obtain ⟨k, hk, rfl⟩ := Option.map_eq_some_iff.mp hs
      exact .inr ⟨b, rfl, hk⟩

/-- A handler that subscribes begins, and its subscriber has missed all that was broadcast. -/
theorem joins_of_step {h k : Hub Sent} {r : Nat} (hm : Hub.Members h)
    (he : h.step sniff (.subscriber r .subscribe) = some k) :
    h.subscriber r = .idle ∧ ∀ s, (k.subscriber r).sub = some s →
      s < k.next ∧ (k.heap s).log.joined = k.history.length := by
  refine ⟨?_, ?_⟩
  · simp only [Hub.step, Hub.stepSubscriber] at he
    cases hpc : h.subscriber r <;> simp only [hpc, reduceCtorEq] at he
    rfl
  · rw [Hub.subscribe_of_step he]
    intro s hs
    simp only [Hub.subscribe, Hub.make_eq hm] at hs ⊢
    split_ifs at hs ⊢ with hfull
    · simp only [Hub.setSubscriber, Function.update_self] at hs
      cases hs
    · simp only [Hub.setSubscriber, Function.update_self] at hs ⊢
      cases hs
      rw [Function.update_self]
      exact ⟨Nat.lt_succ_self _, rfl⟩

/-- The sockets of a client are numbered in order. -/
theorem live_step {c d : RelayClient} {a : ClientStep} (he : c.step a = some d) :
    c.constructed ≤ d.constructed ∧ ∀ n ∈ d.live, n ∈ c.live ∨ c.constructed ≤ n := by
  cases a with
  | onopen n | onmessage n | onerror n =>
    simp only [RelayClient.step, Option.ite_none_right_eq_some, Option.some.injEq] at he
    obtain ⟨-, rfl⟩ := he
    exact ⟨Nat.le_refl _, fun _ => .inl⟩
  | onclose n =>
    simp only [RelayClient.step, Option.ite_none_right_eq_some, Option.some.injEq] at he
    obtain ⟨-, rfl⟩ := he
    have hlive : (c.onclose n).live = c.live.erase n ∧
        (c.onclose n).constructed = c.constructed := by
      simp only [RelayClient.onclose, RelayClient.scheduleReconnect]
      split_ifs <;> exact ⟨rfl, rfl⟩
    rw [hlive.1, hlive.2]
    exact ⟨Nat.le_refl _, fun m hm => .inl (List.mem_of_mem_erase hm)⟩
  | fire i =>
    obtain ⟨wait, -, rfl⟩ := Option.map_eq_some_iff.mp he
    simp only [RelayClient.openSocket]
    split_ifs
    · exact ⟨Nat.le_refl _, fun _ => .inl⟩
    · refine ⟨Nat.le_succ _, fun m hm => ?_⟩
      obtain rfl | hm := List.mem_cons.mp hm
      · exact .inr (Nat.le_refl _)
      · exact .inl hm
  | close =>
    cases he
    exact ⟨Nat.le_refl _, fun _ => .inl⟩

def bytesOf (ms : List Sent) : List Bytes := ms.map (fun m => m.packet.bytes)

/-- What the page has read of a live socket, behind what it read of the sockets before. -/
def Audience.Reads (y : Audience Sample σ) (n s : Nat) : Prop :=
  ∃ old cur, messages y.events = old ++ bytesOf cur ∧
    old <+ bytesOf (y.hub.history.take (y.hub.heap s).log.joined) ∧
    cur <+: (y.hub.heap s).log.written ∧ cur.length = y.taken n

structure Listens (sockets : Nat → Option Nat) (y : Audience Sample σ) : Prop where
  client : y.client.Sound
  unborn : ∀ n, y.client.constructed ≤ n → y.source n = none
  unread : ∀ n, y.source n = none → y.taken n = 0
  begun : ∀ r n, sockets r = some n → y.source n ≠ none → y.hub.subscriber r ≠ .idle
  known : ∀ n s, y.source n = some s → s < y.hub.next
  order : messages y.events <+ bytesOf y.hub.history
  reads : ∀ n ∈ y.client.live, ∀ s, y.source n = some s → y.Reads n s

theorem bytesOf_sublist {ms us : List Sent} (h : ms <+ us) : bytesOf ms <+ bytesOf us := h.map _

section

variable {y z : Audience Sample σ}

theorem Audience.Reads.grows (h : y.Reads n s) (he : Hub.Grows y.hub z.hub) (hs : s < y.hub.next)
    (hevents : z.events = y.events) (htaken : z.taken n = y.taken n) : z.Reads n s := by
  obtain ⟨old, cur, hread, hold, hcur, hlen⟩ := h
  refine ⟨old, cur, by rw [hevents, hread], ?_, hcur.trans (he.written s hs), by rw [htaken, hlen]⟩
  rw [he.joined_eq hs]
  exact hold.trans (bytesOf_sublist (he.history.take _).sublist)

/-- What the others do. -/
theorem Listens.others (h : Listens sockets y) (hstudio : z = { y with studio := x })
    (he : Hub.Grows y.hub z.hub) : Listens sockets z := by
  subst hstudio
  exact ⟨h.client, h.unborn, h.unread, fun r n hr hn => he.begun r (h.begun r n hr hn),
    fun n s hs => Nat.lt_of_lt_of_le (h.known n s hs) he.next,
    h.order.trans (bytesOf_sublist he.history.sublist),
    fun n hn s hs => (h.reads n hn s hs).grows he (h.known n s hs) rfl rfl⟩

theorem Audience.source_join (y : Audience Sample σ) (n : Nat) (x : Studio Sample σ)
    (sub : Option Nat) (m : Nat) :
    (y.join n x sub).source m = if m = n then sub else y.source m := Function.update_apply ..

/-- The request of a socket subscribes: what the page has read was broadcast before. -/
theorem Listens.joins (hsockets : ∀ r q n, sockets r = some n → sockets q = some n → r = q)
    (h : Listens sockets y) (hm : Hub.Members y.hub) (hr : sockets r = some n)
    (hn : n < y.client.constructed)
    (he : y.hub.step sniff (.subscriber r .subscribe) = some x.session.hub) :
    Listens sockets (y.join n x (x.session.hub.subscriber r).sub) := by
  have hgrows : Hub.Grows y.hub (y.join n x (x.session.hub.subscriber r).sub).hub :=
    Hub.grows_step hm he
  obtain ⟨hidle, hjoins⟩ := joins_of_step hm he
  have hnone : y.source n = none := by
    by_contra hsource
    exact h.begun r n hr hsource hidle
  have horder := h.order.trans (bytesOf_sublist hgrows.history.sublist)
  refine ⟨h.client, ?_, ?_, ?_, ?_, horder, ?_⟩
  · intro m hmem
    rw [y.source_join, if_neg (Nat.ne_of_gt (Nat.lt_of_lt_of_le hn hmem))]
    exact h.unborn m hmem
  · intro m hsource
    rw [y.source_join] at hsource
    split_ifs at hsource with hmn
    · rw [hmn]
      exact h.unread n hnone
    · exact h.unread m hsource
  · intro q m hq hsource
    rw [y.source_join] at hsource
    split_ifs at hsource with hmn
    · obtain rfl := hsockets q r m hq (hmn ▸ hr)
      intro hfresh
      rw [show x.session.hub.subscriber q = .idle from hfresh] at hsource
      exact hsource rfl
    · exact hgrows.begun q (h.begun q m hq hsource)
  · intro m s hsource
    rw [y.source_join] at hsource
    split_ifs at hsource
    · exact (hjoins s hsource).1
    · exact Nat.lt_of_lt_of_le (h.known m s hsource) hgrows.next
  · intro m hlive s hsource
    rw [y.source_join] at hsource
    split_ifs at hsource with hmn
    · refine ⟨messages y.events, [], (List.append_nil _).symm, ?_, List.nil_prefix, ?_⟩
      · have hlength := (hjoins s hsource).2
        change _ <+ bytesOf (x.session.hub.history.take (x.session.hub.heap s).log.joined)
        rw [hlength, List.take_length]
        exact horder
      · rw [hmn]
        exact (h.unread n hnone).symm
    · exact (h.reads m hlive s hsource).grows hgrows (h.known m s hsource) rfl rfl

theorem eq_of_subscribes {a : StudioAct Sample} (h : a.subscribes = some r) :
    a = .session (.relay (.subscriber r .subscribe)) := by
  simp only [StudioAct.subscribes] at h
  split at h
  · cases h
    rfl
  · cases h

theorem Listens.studio (hsockets : ∀ r q n, sockets r = some n → sockets q = some n → r = q)
    (h : Listens sockets y) (hm : Hub.Members y.hub)
    (he : y.step opus cfg sockets (.studio a) = some z) : Listens sockets z := by
  obtain ⟨x, hx, he⟩ := Option.bind_eq_some_iff.mp he
  have hgrows : Hub.Grows y.hub x.session.hub := by
    obtain ⟨hsame, -⟩ | ⟨b, -, hb⟩ := hub_step hx
    · rw [hsame]
      exact .refl _
    · exact Hub.grows_step hm hb
  split at he
  · cases he
    exact h.others rfl hgrows
  · next r hr =>
    split at he
    · cases he
      exact h.others rfl hgrows
    · next n hn =>
      split_ifs at he with hconstructed
      cases he
      obtain rfl := eq_of_subscribes hr
      obtain ⟨-, hnone⟩ | ⟨b, hb, hstep⟩ := hub_step hx
      · cases hnone
      · cases hb
        exact h.joins hsockets hm hn hconstructed hstep

theorem Listens.clientStep (h : Listens sockets y) (he : y.client.step a = some c) :
    Listens sockets { y with client := c } := by
  obtain ⟨hconstructed, hlive⟩ := live_step he
  refine ⟨h.client.step he, fun n hn => h.unborn n (Nat.le_trans hconstructed hn), h.unread,
    h.begun, h.known, h.order, ?_⟩
  intro n hn s hs
  obtain hn | hn := hlive n hn
  · exact h.reads n hn s hs
  · rw [h.unborn n hn] at hs
    cases hs

theorem messages_concat (vs : List ViewerAct) (v : ViewerAct) :
    messages (vs ++ [v]) = messages vs ++ messages [v] := List.filterMap_append ..

/-- The page hears nothing. -/
theorem Listens.view (h : Listens sockets y) (hv : messages [v] = []) (he : y.view v = some z) :
    Listens sockets z := by
  obtain ⟨page, -, rfl⟩ := Option.map_eq_some_iff.mp he
  have hsame : messages (y.events ++ [v]) = messages y.events := by
    rw [messages_concat, hv, List.append_nil]
  refine ⟨h.client, h.unborn, h.unread, h.begun, h.known, hsame ▸ h.order, ?_⟩
  intro n hn s hs
  obtain ⟨old, cur, hread, hcur⟩ := h.reads n hn s hs
  exact ⟨old, cur, hsame.trans hread, hcur⟩

/-- The only live socket fires its next message. -/
theorem Listens.fire (h : Listens sockets y)
    (hsince : (y.hub.heap s).log.written <+ y.hub.history.drop (y.hub.heap s).log.joined)
    (hs : y.source n = some s) (hm : (y.hub.heap s).log.written[y.taken n]? = some m)
    (he : y.fire n m = some z) : Listens sockets z := by
  obtain ⟨c, hc, he⟩ := Option.bind_eq_some_iff.mp he
  simp only [RelayClient.step, Option.ite_none_right_eq_some, Option.some.injEq] at hc
  obtain ⟨hn, rfl⟩ := hc
  obtain ⟨page, -, rfl⟩ := Option.map_eq_some_iff.mp he
  obtain ⟨old, cur, hread, hold, hcur, hlen⟩ := h.reads n hn s hs
  obtain ⟨hlt, rfl⟩ := List.getElem?_eq_some_iff.mp hm
  have hnext := List.concat_get_prefix hcur (hlen ▸ hlt)
  simp only [List.get_eq_getElem, hlen] at hnext
  have hmessages : ∀ u : Sent, messages (y.events ++ [.message u.packet.bytes]) =
      old ++ bytesOf (cur ++ [u]) := by
    intro u
    rw [messages_concat, hread, bytesOf, bytesOf, List.map_append, ← List.append_assoc]
    rfl
  refine ⟨h.client, h.unborn, ?_, h.begun, h.known, ?_, ?_⟩
  · intro k hk
    have hkn : k ≠ n := by
      rintro rfl
      rw [show y.source k = none from hk] at hs
      cases hs
    exact (Function.update_of_ne hkn ..).trans (h.unread k hk)
  · rw [hmessages]
    have happend := hold.append (bytesOf_sublist (hnext.sublist.trans hsince))
    have hwhole : bytesOf (y.hub.history.take (y.hub.heap s).log.joined) ++
        bytesOf (y.hub.history.drop (y.hub.heap s).log.joined) = bytesOf y.hub.history := by
      rw [bytesOf, bytesOf, ← List.map_append, List.take_append_drop, bytesOf]
    exact hwhole ▸ happend
  · intro k hk u hu
    have hkn : k = n := by
      have hlive := (h.client.of_live hn).1
      rw [show k ∈ y.client.live ↔ k ∈ [n] by rw [hlive]] at hk
      exact List.mem_singleton.mp hk
    subst hkn
    obtain rfl : s = u := Option.some.inj (hs.symm.trans hu)
    refine ⟨old, cur ++ [_], hmessages _, hold, hnext, ?_⟩
    rw [List.length_append, List.length_singleton, hlen]
    exact (Function.update_self k (y.taken k + 1) y.taken).symm

end

/-- The parts of a state, each with its own run. -/
structure Attends (opus : σ → List Sample → Int × Bytes × σ) (encs : Nat → σ) (cfg : Config)
    (name : String) (maxSubs sendBuf : Int) (sockets : Nat → Option Nat) (stored global : Prefs)
    (as : List (AudienceAct Sample)) (y : Audience Sample σ) : Prop where
  studioRun : (studio opus encs cfg name maxSubs sendBuf).run
    (studio opus encs cfg name maxSubs sendBuf).init (studioActs as) = some y.studio
  pageRun : (viewer stored global).run (viewer stored global).init y.events = some y.page
  listens : Listens sockets y

theorem page_view {y z : Audience Sample σ} (he : y.view v = some z)
    (h : (viewer stored global).run (viewer stored global).init y.events = some y.page) :
    z.studio = y.studio ∧
      (viewer stored global).run (viewer stored global).init z.events = some z.page := by
  obtain ⟨page, hpage, rfl⟩ := Option.map_eq_some_iff.mp he
  refine ⟨rfl, ?_⟩
  dsimp only
  rw [Machine.run_concat, h]
  exact hpage

theorem Attends.step {y z : Audience Sample σ}
    (hsockets : ∀ r q n, sockets r = some n → sockets q = some n → r = q)
    (hhub : (Relay.hub sniff name maxSubs sendBuf).Reachable y.hub) (hb : 1 ≤ sendBuf)
    (h : Attends opus encs cfg name maxSubs sendBuf sockets stored global as y)
    (he : y.step opus cfg sockets a = some z) :
    Attends opus encs cfg name maxSubs sendBuf sockets stored global (as ++ [a]) z := by
  have hm := Hub.members_of_reachable (Int.le_trans (by decide) hb) hhub
  have hquiet : ∀ x : Audience Sample σ, studioActs [a] = [] → x.studio = y.studio →
      (studio opus encs cfg name maxSubs sendBuf).run
        (studio opus encs cfg name maxSubs sendBuf).init (studioActs (as ++ [a])) =
          some x.studio := by
    intro x ha hx
    rw [studioActs_concat, ha, List.append_nil, hx]
    exact h.studioRun
  cases a with
  | studio a =>
    have hlistens := h.listens.studio hsockets hm he
    obtain ⟨x, hx, he⟩ := Option.bind_eq_some_iff.mp he
    have hstudio : z.studio = x ∧ z.page = y.page ∧ z.events = y.events := by
      split at he
      · cases he
        exact ⟨rfl, rfl, rfl⟩
      · split at he
        · cases he
          exact ⟨rfl, rfl, rfl⟩
        · split_ifs at he
          cases he
          exact ⟨rfl, rfl, rfl⟩
    obtain ⟨rfl, hpage, hevents⟩ := hstudio
    refine ⟨?_, hpage ▸ hevents ▸ h.pageRun, hlistens⟩
    rw [studioActs_concat, show studioActs [AudienceAct.studio a] = [a] from rfl,
      Machine.run_concat, h.studioRun]
    exact hx
  | client a =>
    cases a with
    | onmessage n => cases he
    | close =>
      cases he
      exact ⟨hquiet _ rfl rfl, h.pageRun, h.listens.clientStep (a := .close) rfl⟩
    | onopen | onerror | onclose | fire =>
      obtain ⟨c, hc, rfl⟩ := Option.map_eq_some_iff.mp he
      exact ⟨hquiet _ rfl rfl, h.pageRun, h.listens.clientStep hc⟩
  | message n =>
    obtain ⟨s, hs, he⟩ := Option.bind_eq_some_iff.mp he
    obtain ⟨m, hmessage, he⟩ := Option.bind_eq_some_iff.mp he
    have hlistens := h.listens.fire (Hub.written_since hb hhub s) hs hmessage he
    obtain ⟨c, -, hview⟩ := Option.bind_eq_some_iff.mp he
    obtain ⟨hstudio, hpage⟩ := page_view hview h.pageRun
    exact ⟨hquiet z rfl hstudio, hpage, hlistens⟩
  | page v =>
    cases v with
    | message data => cases he
    | click | output | error | ended =>
      obtain ⟨hstudio, hpage⟩ := page_view he h.pageRun
      exact ⟨hquiet z rfl hstudio, hpage, h.listens.view rfl he⟩

theorem attends_of_run (hslot : ∀ t ∈ cfg.tracks, t.id.toNat ≤ maxTrackSlot)
    (hopus : ∀ enc samples, (opus enc samples).1 ≤ 4000) (hb : 1 ≤ sendBuf)
    (hsockets : ∀ r q n, sockets r = some n → sockets q = some n → r = q)
    (hrun : (audience opus encs cfg name maxSubs sendBuf sockets stored global).run
      (audience opus encs cfg name maxSubs sendBuf sockets stored global).init as = some y) :
    Attends opus encs cfg name maxSubs sendBuf sockets stored global as y := by
  have hall : Attends opus encs cfg name maxSubs sendBuf sockets stored global
      as.reverse.reverse y := by
    refine Machine.run_invariant (P := fun as y =>
      Attends opus encs cfg name maxSubs sendBuf sockets stored global as.reverse y) ?_ ?_ hrun
    · exact ⟨rfl, rfl, RelayClient.sound_connect, fun _ _ => rfl, fun _ _ => rfl,
        fun _ _ _ h => absurd rfl h, by simp [audience], List.Sublist.refl _, by simp [audience]⟩
    · intro as y a z h he
      rw [List.reverse_cons]
      exact h.step hsockets
        (tracks_of_run (sampled_of_run hslot hopus h.studioRun).run).hub hb he
  rwa [List.reverse_reverse] at hall

/-- In every run of the whole system, from the threads that capture the tracks to a page that loses
its connection any number of times: over all its sockets the page reads broadcasts in their order
and none of them twice, and under the slug of a track it plays packets of the track's encoder, for
consecutive blocks of the samples that its capture delivered. -/
theorem played_across_reconnects (hargs : parseArgs args = .ok cfg)
    (hl : ∀ t ∈ cfg.tracks, Verbatim t.label)
    (hopus : ∀ enc samples, (opus enc samples).1 ≤ 4000) (hb : 1 ≤ sendBuf)
    (hsockets : ∀ r q n, sockets r = some n → sockets q = some n → r = q)
    (hrun : (audience opus encs cfg name maxSubs sendBuf sockets stored global).run
      (audience opus encs cfg name maxSubs sendBuf sockets stored global).init as = some y) :
    messages y.events <+ y.hub.history.map (fun m => m.packet.bytes) ∧
      ∀ i t, cfg.tracks[i]? = some t →
        (∀ j u, cfg.tracks[j]? = some u → slugText u = slugText t → j = i) →
          (y.page.started (slugText t)).map (fun src => src.buffer.data) <+
            packets opus (encs i) (Blocks.blocks kNeed (delivered i (studioActs as))) := by
  obtain ⟨hc, -, hlen⟩ := checked_parseArgs hargs
  have h := attends_of_run (fun u hu => (hc.each hlen u hu).2.2) hopus hb hsockets hrun
  exact ⟨h.listens.order, fun i t ht hown =>
    played_as_sampled hargs hl hopus h.studioRun h.pageRun h.listens.order ht hown⟩

end

/-! A page that hears the announcement, loses its socket and hears the audio on the next one. -/

def tone (enc : Unit) (_ : List Unit) : Int × Bytes × Unit := (1, [7], enc)

def broadcasts (as : List Act) : List (AudienceAct Unit) :=
  as.map (fun
    | .client (.capture i now _) => .studio (.turn i now)
    | a => .studio (.session a))

def rejoins : List (AudienceAct Unit) :=
  .studio (.deliver 0 (List.replicate 2000 ())) ::
    broadcasts (onAir ++ joins ++ relays helloPacket [0] ++ relays (listPacket soloConfig) [0] ++
      plays ++ plays) ++
    [.client (.onopen 0), .message 0, .message 0, .client (.onclose 0), .client (.fire 0)] ++
    broadcasts ([.relay (.subscriber 1 .subscribe), .relay (.subscriber 1 (.accept true)),
      .relay (.subscriber 1 (.subprotocol true))] ++ relays audioPacket [0, 1] ++
      [.relay (.subscriber 1 .receive), .relay (.subscriber 1 (.write true))]) ++
    [.client (.onopen 1), .message 1, .page (.output "music" 0)]

theorem played_across_reconnects_rejoins :
    ∃ y, (audience tone (fun _ => ()) soloConfig "twitch:dev" 10 4 some (fun _ => none)
        (fun _ => none)).run (audience tone (fun _ => ()) soloConfig "twitch:dev" 10 4 some
          (fun _ => none) (fun _ => none)).init rejoins = some y ∧
      (messages y.events).length = 3 ∧ (y.page.started (slugText music)).length = 1 ∧
      messages y.events <+ y.hub.history.map (fun m => m.packet.bytes) ∧
      (y.page.started (slugText music)).map (fun src => src.buffer.data) <+
        packets tone () (Blocks.blocks kNeed (delivered 0 (studioActs rejoins))) := by
  have hargs : parseArgs (required ++ [ascii "--track", ascii "music:Spotify.exe"]) =
      .ok soloConfig := by
    decide
  have hl : ∀ t ∈ soloConfig.tracks, Verbatim t.label :=
    List.forall_mem_singleton.mpr ⟨Ts.units "Music", by decide⟩
  have hrun : ((audience tone (fun _ => ()) soloConfig "twitch:dev" 10 4 some (fun _ => none)
      (fun _ => none)).run (audience tone (fun _ => ()) soloConfig "twitch:dev" 10 4 some
        (fun _ => none) (fun _ => none)).init rejoins).any (fun y =>
          (messages y.events).length = 3 ∧ (y.page.started (slugText music)).length = 1) =
            true := by
    decide +kernel
  obtain ⟨y, hy, hheard⟩ := (Option.any_eq_true _ _).mp hrun
  obtain ⟨hmessages, hstarted⟩ := of_decide_eq_true hheard
  obtain ⟨horder, hplayed⟩ := played_across_reconnects hargs hl
    (fun _ _ => show (1 : Int) ≤ 4000 by decide) (by decide)
    (fun _ _ _ hr hq => Option.some.inj (hr.trans hq.symm)) hy
  refine ⟨y, hy, hmessages, hstarted, horder, hplayed 0 music rfl ?_⟩
  intro j u hu _
  exact Nat.lt_one_iff.mp (List.getElem?_eq_some_iff.mp hu).1

end StreamMix.Session
