import StreamMix.Relay.OneHub

/-! The configuration file, and the hubs of a registry with its limits. -/

namespace StreamMix.Relay

structure ConfigTLS where
  cert : String
  key : String

structure ConfigLimits where
  maxChannels : Int
  maxSubscribersPerChannel : Int
  maxFrameBytes : Int
  subscriberSendBuffer : Int

structure ConfigAuth where
  tokenSecret : String

structure ConfigMetrics where
  enabled : Bool
  listen : String

structure RelayConfig where
  listen : String
  tls : ConfigTLS
  limits : ConfigLimits
  auth : ConfigAuth
  metrics : ConfigMetrics

/-- A default for the zero value of a type. -/
def orDefault [DecidableEq α] (zero v default : α) : α := if v = zero then default else v

namespace RelayConfig

def defaults (c : RelayConfig) : RelayConfig :=
  { c with
    listen := orDefault "" c.listen ":8080"
    limits.maxChannels := orDefault 0 c.limits.maxChannels 1000
    limits.maxSubscribersPerChannel := orDefault 0 c.limits.maxSubscribersPerChannel 5000
    -- header, payload of 4 KiB and slack
    limits.maxFrameBytes := orDefault 0 c.limits.maxFrameBytes (5 * 1024)
    limits.subscriberSendBuffer := orDefault 0 c.limits.subscriberSendBuffer 64
    metrics.listen := orDefault "" c.metrics.listen ":9090" }

/-- The error, if there is one. -/
def validate (c : RelayConfig) : Option String :=
  if c.auth.tokenSecret = "" then some "auth.token_secret is required"
  else if decide (c.tls.cert = "") != decide (c.tls.key = "") then
    some "tls.cert and tls.key must both be set or both empty"
  else none

/-- No default stands for a field that is checked. -/
theorem validate_defaults (c : RelayConfig) : c.defaults.validate = c.validate := rfl

/-- The registry that `runServe` constructs. -/
def registryLimits (c : RelayConfig) : Limits :=
  ⟨c.limits.maxChannels, c.limits.maxSubscribersPerChannel, c.limits.subscriberSendBuffer⟩

end RelayConfig

section Load

variable (readFile : String → Except String (List UInt8))
  (unmarshal : List UInt8 → Except String RelayConfig)

def loadConfig (path : String) : Except String RelayConfig :=
  match readFile path with
  | .error err => .error ("read config: " ++ err)
  | .ok data =>
    match unmarshal data with
    | .error err => .error ("parse config: " ++ err)
    | .ok c =>
      match c.defaults.validate with
      | some err => .error err
      | none => .ok c.defaults

variable {readFile unmarshal}

/-- What is accepted is what the file says, with its defaults, and is valid as it stands. -/
theorem loadConfig_eq_ok : loadConfig readFile unmarshal path = .ok c ↔
    ∃ data raw, readFile path = .ok data ∧ unmarshal data = .ok raw ∧
      raw.validate = none ∧ raw.defaults = c := by
  rw [loadConfig]
  cases hread : readFile path with
  | error err => simp
  | ok data =>
    cases hparse : unmarshal data with
    | error err => simp [hparse]
    | ok raw =>
      simp only [RelayConfig.validate_defaults]
      cases hraw : raw.validate with
      | some err => simp [hparse, hraw]
      | none => simp [hparse, hraw]

end Load

theorem orDefault_self [DecidableEq α] (zero v default : α) :
    orDefault zero (orDefault zero v default) default = orDefault zero v default := by
  simp only [orDefault]
  split_ifs <;> simp_all

/-- A second pass finds nothing to set. -/
theorem RelayConfig.defaults_defaults (c : RelayConfig) : c.defaults.defaults = c.defaults := by
  simp only [defaults, orDefault_self]

theorem orDefault_nonneg {default v : Int} (hd : 0 < default) :
    0 ≤ orDefault 0 v default ↔ 0 ≤ v := by
  rw [orDefault]
  split_ifs <;> omega

theorem orDefault_nonpos {default v : Int} (hd : 0 < default) :
    orDefault 0 v default ≤ 0 ↔ v < 0 := by
  rw [orDefault]
  split_ifs <;> omega

namespace Hub

variable {Msg : Type u} {h k : Hub Msg} {sniff : Msg → Bool}

/-- `Subscribe` returns a channel or the error, and the mutex is free after it. -/
def Returns (h : Hub Msg) (r : Nat) : Prop :=
  (h.subscribe r).ch.mu = .unlocked ∧
    ((h.subscribe r).subscriber r = .refused ∨ ∃ s, (h.subscribe r).subscriber r = .accept s)

theorem returns_iff (hmu : h.ch.mu = .unlocked) (r : Nat) :
    h.Returns r ↔ h.ch.maxSubs ≤ h.ch.subs.card ∨ 0 ≤ h.ch.sendBuf := by
  by_cases hfull : h.ch.maxSubs ≤ h.ch.subs.card
  · refine iff_of_true ?_ (.inl hfull)
    rw [Returns, subscribe, if_pos hfull]
    exact ⟨hmu, .inl (Function.update_self ..)⟩
  · by_cases hbuf : h.ch.sendBuf < 0
    · refine iff_of_false ?_ (by omega)
      rw [Returns, subscribe, if_neg hfull, Go.Chan.make, if_pos hbuf]
      rintro ⟨⟨⟩, -⟩
    · refine iff_of_true ?_ (.inr (by omega))
      rw [Returns, subscribe, if_neg hfull, Go.Chan.make, if_neg hbuf]
      exact ⟨hmu, .inr ⟨h.next, Function.update_self ..⟩⟩

/-- A hub that takes no subscriber. -/
structure Refusing (h : Hub Msg) : Prop where
  full : h.ch.maxSubs ≤ 0
  mutex : h.ch.mu = .unlocked
  handlers : ∀ r, (h.subscriber r).sub = none

theorem Refusing.subscribe (hr : h.Refusing) (r : Nat) : (h.subscribe r).Refusing := by
  rw [Hub.subscribe, if_pos (hr.full.trans (Int.natCast_nonneg _))]
  refine ⟨hr.full, hr.mutex, fun q => ?_⟩
  rw [setSubscriber_subscriber, Function.update_apply]
  split_ifs
  · rfl
  · exact hr.handlers q

theorem Refusing.step (hr : h.Refusing) {a : HubAct Msg} (ha : a.ofHandler = true)
    (he : h.step sniff a = some k) : k.Refusing := by
  cases a with
  | publisher r a =>
    have hsame := sameSubscribers_stepPublisher he
    refine ⟨?_, hsame.mu.trans hr.mutex, fun r => by rw [hsame.subscriber]; exact hr.handlers r⟩
    rw [show k.ch.maxSubs = h.ch.maxSubs from congrArg (fun p => p.2.1) hsame.limits]
    exact hr.full
  | subscriber r a =>
    have hidle := hr.handlers r
    simp only [Hub.step, Hub.stepSubscriber] at he
    cases hpc : h.subscriber r <;> simp only [hpc, SubscriberPc.sub, reduceCtorEq] at hidle he
    cases a <;> simp only [reduceCtorEq] at he
    split_ifs at he
    cases he
    exact hr.subscribe r
  | unsub s => cases ha
  | unlock => simp only [Hub.step, Hub.stepUnlock, hr.mutex, reduceCtorEq] at he

theorem Serves.refusing (hm : maxSubs ≤ 0) (hs : Serves sniff name maxSubs sendBuf h) :
    h.Refusing :=
  hs.invariant (P := Refusing) ⟨hm, rfl, fun _ => rfl⟩ (fun _ _ _ hr ha he => hr.step ha he)

end Hub

namespace Server

variable {Msg : Type u} {R T : Server Msg} {sniff : Msg → Bool} {lim : Limits}

/-- In every state that a registry reaches: the mutex of a channel is free, or held by somebody
who goes on, and `Subscribe` returns. -/
structure Usable (sniff : Msg → Bool) (lim : Limits) : Prop where
  freed : ∀ R, (server sniff lim).Reachable R → ∀ n < R.created, (R.hubs n).ch.mu ≠ .abandoned
  returns : ∀ R, (server sniff lim).Reachable R → ∀ n < R.created,
    (R.hubs n).ch.mu = .unlocked → ∀ r, (R.hubs n).Returns r

/-- A registry that creates no channel. -/
structure Bare (R : Server Msg) : Prop where
  created : R.created = 0
  channels : R.channels = []

theorem Bare.getOrCreate (hb : R.Bare) (hm : lim.maxChannels ≤ 0) (r : Nat) (role : Role)
    (id : String) : (R.getOrCreate lim r role id).Bare := by
  have hfull : lim.maxChannels ≤ R.channels.length := hm.trans (Int.natCast_nonneg _)
  have hnone : R.channels.lookup id = none := by rw [hb.channels]; rfl
  rw [Server.getOrCreate]
  split_ifs
  · exact ⟨hb.created, hb.channels⟩
  · rw [hnone]
    exact ⟨hb.created, hb.channels⟩

theorem Bare.step (hb : R.Bare) (hm : lim.maxChannels ≤ 0) {a : ServerAct Msg}
    (he : R.step sniff lim a = some T) : T.Bare := by
  cases moves_of_step he with
  | get _ role id => exact hb.getOrCreate hm _ role id
  | delete hr => exact ⟨hb.created, by simp only [hb.channels, List.filter_nil, ite_self]⟩
  | hub | reap | stats | unlock => exact ⟨hb.created, hb.channels⟩

theorem bare_of_reachable (hm : lim.maxChannels ≤ 0) (h : (server sniff lim).Reachable R) :
    R.Bare :=
  h.invariant ⟨rfl, rfl⟩ (fun _ _ _ hb he => hb.step hm he)

/-- The first viewer of a channel. -/
def firstViewer (sniff : Msg → Bool) (lim : Limits) : Server Msg :=
  (server sniff lim).init.getOrCreate lim 0 .subscribe "twitch:streamer"

theorem reachable_firstViewer (sniff : Msg → Bool) (lim : Limits) :
    (server sniff lim).Reachable (firstViewer sniff lim) :=
  .next (a := .get 0 .subscribe "twitch:streamer") (.init _) rfl

theorem firstViewer_eq (sniff : Msg → Bool) (hm : 0 < lim.maxChannels) :
    firstViewer sniff lim =
      ((server sniff lim).init.create lim "twitch:streamer").setRequest 0
        (.bound .subscribe "twitch:streamer" 0) := by
  have hvalid : validateChannelID "twitch:streamer" = true := by decide
  have hroom : ¬ lim.maxChannels ≤ ((server sniff lim).init.channels.length : Int) :=
    Int.not_le.mpr hm
  rw [firstViewer, getOrCreate, hvalid, if_neg (by simp)]
  exact if_neg hroom

theorem usable_of_sendBuf (hb : 0 ≤ lim.sendBuf) : Usable sniff lim := by
  refine ⟨fun R hR n _ => ?_, fun R hR n _ hmu r => (Hub.returns_iff hmu r).mpr (.inr ?_)⟩ <;>
    obtain ⟨name, hs⟩ := (registered_of_reachable hR).served n
  · exact (hs.attended hb).1.mutex
  · exact (hs.attended hb).1.buffer

theorem usable_of_maxSubs (hm : lim.maxSubs ≤ 0) : Usable sniff lim := by
  refine ⟨fun R hR n _ => ?_, fun R hR n _ hmu r => (Hub.returns_iff hmu r).mpr (.inl ?_)⟩ <;>
    obtain ⟨name, hs⟩ := (registered_of_reachable hR).served n
  · rw [(hs.refusing hm).mutex]
    nofun
  · exact (hs.refusing hm).full.trans (Int.natCast_nonneg _)

theorem usable_of_maxChannels (hm : lim.maxChannels ≤ 0) : Usable sniff lim := by
  constructor <;>
  · intro R hR n hn
    rw [(bare_of_reachable hm hR).created] at hn
    exact absurd hn (Nat.not_lt_zero n)

/-- The first `Subscribe` decides. -/
theorem usable_limits_iff (sniff : Msg → Bool) (lim : Limits) :
    Usable sniff lim ↔ 0 ≤ lim.sendBuf ∨ lim.maxSubs ≤ 0 ∨ lim.maxChannels ≤ 0 := by
  constructor
  · intro h
    by_contra hnot
    obtain ⟨hbuf, hsubs, hchannels⟩ : lim.sendBuf < 0 ∧ 0 < lim.maxSubs ∧ 0 < lim.maxChannels := by
      omega
    have hview := firstViewer_eq sniff hchannels
    have hhub : (firstViewer sniff lim).hubs 0 =
        .fresh (newChannel "twitch:streamer" lim.maxSubs lim.sendBuf) := by
      rw [hview]
      rfl
    have hcreated : 0 < (firstViewer sniff lim).created := by
      rw [hview]
      exact Nat.one_pos
    have hret := h.returns _ (reachable_firstViewer sniff lim) 0 hcreated (by rw [hhub]; rfl) 0
    rw [hhub, Hub.returns_iff rfl] at hret
    obtain hfull | hmade := hret
    · exact absurd hfull (Int.not_le.mpr hsubs)
    · exact absurd hmade (Int.not_le.mpr hbuf)
  · rintro (hb | hm | hm)
    · exact usable_of_sendBuf hb
    · exact usable_of_maxSubs hm
    · exact usable_of_maxChannels hm

end Server

/-- For every configuration that is loaded: the registry is usable just if the buffer size that
the file gives is not negative, or a negative cap keeps everybody out. -/
theorem usable_iff {Msg : Type u} (sniff : Msg → Bool) (hread : readFile path = .ok data)
    (hparse : unmarshal data = .ok raw) (hload : loadConfig readFile unmarshal path = .ok c) :
    Server.Usable sniff c.registryLimits ↔ 0 ≤ raw.limits.subscriberSendBuffer ∨
      raw.limits.maxSubscribersPerChannel < 0 ∨ raw.limits.maxChannels < 0 := by
  obtain ⟨data', raw', hread', hparse', -, rfl⟩ := loadConfig_eq_ok.mp hload
  obtain rfl : data = data' := Except.ok.inj (hread.symm.trans hread')
  obtain rfl : raw = raw' := Except.ok.inj (hparse.symm.trans hparse')
  rw [Server.usable_limits_iff]
  exact or_congr (orDefault_nonneg (by decide))
    (or_congr (orDefault_nonpos (by decide)) (orDefault_nonpos (by decide)))

/-! A file with a secret and the size of the buffer. -/

def bufferFile (subscriberSendBuffer : Int) : List UInt8 :=
  ("auth:\n  token_secret: c3RyZWFtbWl4LXNlY3JldA\nlimits:\n  subscriber_send_buffer: " ++
    toString subscriberSendBuffer ++ "\n").toUTF8.toList

def bufferConfig (subscriberSendBuffer : Int) : RelayConfig :=
  ⟨"", ⟨"", ""⟩, ⟨0, 0, 0, subscriberSendBuffer⟩, ⟨"c3RyZWFtbWl4LXNlY3JldA"⟩, ⟨false, ""⟩⟩

theorem loadConfig_buffer (n : Int) :
    loadConfig (fun _ => .ok (bufferFile n)) (fun _ => .ok (bufferConfig n)) "config.yaml" =
      .ok (bufferConfig n).defaults :=
  loadConfig_eq_ok.mpr ⟨_, _, rfl, rfl, by simp [bufferConfig, RelayConfig.validate], rfl⟩

theorem usable_iff_default :
    Server.Usable (fun _ : Unit => true) (bufferConfig 0).defaults.registryLimits :=
  (usable_iff (fun _ => true) rfl rfl (loadConfig_buffer 0)).mpr (.inl (by decide))

/-- The first viewer of a channel stops in `make`, with the mutex locked. -/
theorem not_usable_negative : ¬ ∀ (readFile : String → Except String (List UInt8))
    (unmarshal : List UInt8 → Except String RelayConfig) (path : String) (c : RelayConfig),
    loadConfig readFile unmarshal path = .ok c →
      Server.Usable (fun _ : Unit => true) c.registryLimits := by
  intro h
  have hfreed := (h _ _ _ _ (loadConfig_buffer (-1))).freed _
    (.of_run [.get 0 .subscribe "twitch:streamer", .hub 0 (.subscriber 0 .subscribe)]
      (.init _) rfl) 0 (by decide)
  exact hfreed rfl

end StreamMix.Relay
