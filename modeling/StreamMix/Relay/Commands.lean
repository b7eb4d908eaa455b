import StreamMix.Relay.Answers
import StreamMix.Relay.Config
import StreamMix.Relay.Requests

/-! The commands of the relay, `relay secret`, `relay token` and the server itself, over one
configuration file. -/

namespace StreamMix.Relay

open GoTime (Time)
open Publisher (publishPath)
open Wire (Bytes)

/-- What ends a command. -/
inductive CommandError
  | random
  | channelRequired
  | config (err : String)
  | secretDecode
  | mint (err : AuthError)
  | tokenSecret
  deriving DecidableEq

def CommandError.status : CommandError → Nat
  | .channelRequired => 2
  | _ => 1

/-- `fmt.Println`. -/
def println (s : Bytes) : Bytes := s ++ [0x0a]

def RelayConfig.tokenSecret (c : RelayConfig) : Bytes := Unicode.utf8 c.auth.tokenSecret

/-- `random` is what `rand.Read` filled in. -/
def runSecret (random : Option (List.Vector UInt8 32)) : Except CommandError Bytes :=
  match random with
  | none => .error .random
  | some b => .ok (println (Base64.encode b.toList))

structure TokenFlags where
  channel : Bytes := []
  ttl : Int64 := 365 * 24 * 3600 * 1000000000
  config : String := "config.yaml"

section

variable (hmac : Bytes → Bytes → Bytes) (readFile : String → Except String (List UInt8))
  (unmarshal : List UInt8 → Except String RelayConfig)

/-- From the flags on. -/
def runToken (flags : TokenFlags) (now : Time) : Except CommandError Bytes :=
  if flags.channel = [] then .error .channelRequired
  else
    match loadConfig readFile unmarshal flags.config with
    | .error err => .error (.config err)
    | .ok cfg =>
      match Base64.decode cfg.tokenSecret with
      | none => .error .secretDecode
      | some secret =>
        match mintToken hmac secret flags.channel flags.ttl now with
        | .error err => .error (.mint err)
        | .ok token => .ok (println token)

/-- Up to the listeners: what `internal.New` is given. -/
def runServe (configPath : String) : Except CommandError (RelayConfig × Bytes) :=
  match loadConfig readFile unmarshal configPath with
  | .error err => .error (.config err)
  | .ok cfg =>
    match Base64.decode cfg.tokenSecret with
    | none => .error .tokenSecret
    | some secret => if secret.length < 16 then .error .tokenSecret else .ok (cfg, secret)

/-- The handlers of that server. -/
def serve (cfg : RelayConfig) (secret : Bytes) (start : Int) : Machine RelayServer HandlerAct :=
  relayServer hmac secret cfg.registryLimits FailedAuthLimiter.new.threshold
    FailedAuthLimiter.new.window FailedAuthLimiter.new.cooldown start

end

section

variable {hmac : Bytes → Bytes → Bytes} {readFile : String → Except String (List UInt8)}
  {unmarshal : List UInt8 → Except String RelayConfig}

theorem runServe_eq_ok {path : String} : runServe readFile unmarshal path = .ok (cfg, secret) ↔
    loadConfig readFile unmarshal path = .ok cfg ∧ Base64.decode cfg.tokenSecret = some secret ∧
      16 ≤ secret.length := by
  rw [runServe]
  cases loadConfig readFile unmarshal path with
  | error err => simp
  | ok c =>
    simp only [Except.ok.injEq]
    cases hdecode : Base64.decode c.tokenSecret with
    | none =>
      refine iff_of_false (by simp) ?_
      rintro ⟨rfl, hsome, -⟩
      rw [hdecode] at hsome
      cases hsome
    | some s =>
      dsimp only
      constructor
      · intro h
        split_ifs at h with hlen
        cases h
        exact ⟨rfl, hdecode, Nat.not_lt.mp hlen⟩
      · rintro ⟨rfl, hsome, hlen⟩
        obtain rfl : s = secret := Option.some.inj (hdecode.symm.trans hsome)
        rw [if_neg (Nat.not_lt.mpr hlen)]

/-- The server takes every secret that `relay secret` prints. -/
theorem runServe_of_runSecret (hsecret : runSecret (some b) = .ok out)
    (hload : loadConfig readFile unmarshal path = .ok cfg)
    (hpaste : println cfg.tokenSecret = out) :
    runServe readFile unmarshal path = .ok (cfg, b.toList) := by
  cases hsecret
  have hsame : cfg.tokenSecret = Base64.encode b.toList := List.append_cancel_right hpaste
  refine runServe_eq_ok.mpr ⟨hload, ?_, ?_⟩
  · rw [hsame, Base64.decode_encode]
  · rw [List.Vector.toList_length]
    decide

theorem mintToken_eq_ok (h : mintToken hmac secret ch ttl now = .ok token) :
    validateChannelID (channelString ch) = true ∧
      token = [tokenSep].intercalate (tokenParts hmac secret ch (now.add ttl).unix) := by
  rw [mintToken] at h
  split_ifs at h with hvalid
  cases h
  exact ⟨by simpa using hvalid, rfl⟩

theorem runToken_eq (hserve : runServe readFile unmarshal flags.config = .ok (cfg, secret)) :
    runToken hmac readFile unmarshal flags now =
      if flags.channel = [] then .error .channelRequired
      else
        match mintToken hmac secret flags.channel flags.ttl now with
        | .error err => .error (.mint err)
        | .ok token => .ok (println token) := by
  obtain ⟨hload, hdecode, -⟩ := runServe_eq_ok.mp hserve
  rw [runToken, hload]
  simp only [hdecode]

/-- A token of the file that the server runs with. -/
theorem runToken_eq_ok (hserve : runServe readFile unmarshal flags.config = .ok (cfg, secret)) :
    runToken hmac readFile unmarshal flags now = .ok out ↔ flags.channel ≠ [] ∧
      ∃ token, mintToken hmac secret flags.channel flags.ttl now = .ok token ∧
        println token = out := by
  rw [runToken_eq hserve]
  split_ifs with hempty
  · simp [hempty]
  · cases mintToken hmac secret flags.channel flags.ttl now <;> simp [hempty]

end

/-- `VerifyToken` has refused the token of the request. -/
def Publish.isRefused : Publish → Bool
  | .rejected _ => true
  | p => p.isDenied

/-! A request leaves `arrived` once. -/

/-- The steps that begin with request `r`. -/
def HandlerAct.opens (r : Nat) : HandlerAct → Bool
  | .allowed q _ _ | .refuse q _ => q == r
  | _ => false

namespace RelayServer

variable {hmac : Bytes → Bytes → Bytes} {secret : Bytes} {lim : Limits} {y z : RelayServer}
  {as : List HandlerAct}

structure Opened (as : List HandlerAct) (y : RelayServer) : Prop where
  left : ∀ r, ∀ a ∈ as, a.opens r = true → y.publish r ≠ .arrived
  once : ∀ r, ∀ a ∈ as, ∀ b ∈ as, a.opens r = true → b.opens r = true → a = b

theorem publish_left (he : y.step hmac secret lim a = some z) (hr : y.publish r ≠ .arrived) :
    z.publish r ≠ .arrived := by
  have hset : ∀ (w : RelayServer) s p, w.publish = y.publish → p ≠ .arrived →
      (w.setPublish s p).publish r ≠ .arrived := by
    intro w s p hw hp
    rw [setPublish, hw]
    dsimp only
    rw [Function.update_apply]
    split_ifs
    · exact hp
    · exact hr
  cases moves_of_step he with
  | allowed => exact hset _ _ _ rfl (by split_ifs <;> simp)
  | countBlocked | bad | reject | accept | countFailure | recordFailure | recordSuccess | refuse =>
    exact hset _ _ _ rfl (by simp)
  | relay =>
    rw [settle_publish]
    exact hr
  | countPacket | countBytes => exact hr

theorem opens_step (he : y.step hmac secret lim a = some z) (ha : a.opens r = true) :
    y.publish r = .arrived ∧ z.publish r ≠ .arrived := by
  cases moves_of_step he with
  | @allowed s q now g hp =>
    obtain rfl : s = r := by simpa [HandlerAct.opens] using ha
    rw [setPublish]
    dsimp only
    rw [Function.update_self]
    exact ⟨hp, by split_ifs <;> simp⟩
  | @refuse s id hp =>
    obtain rfl : s = r := by simpa [HandlerAct.opens] using ha
    rw [setPublish]
    dsimp only
    rw [Function.update_self]
    exact ⟨hp, by simp⟩
  | countBlocked | bad | reject | accept | countFailure | recordFailure | recordSuccess | relay
  | countPacket | countBytes => cases ha

theorem Opened.step (h : Opened as y) (he : y.step hmac secret lim a = some z) :
    Opened (a :: as) z := by
  -- a second opening would find its request gone
  have hfirst : ∀ r, ∀ b ∈ as, b.opens r = true → a.opens r = true → False :=
    fun r b hb hopen ha => h.left r b hb hopen (opens_step he ha).1
  refine ⟨?_, ?_⟩
  · intro r b hb hopen
    obtain rfl | hb := List.mem_cons.mp hb
    · exact (opens_step he hopen).2
    · exact publish_left he (h.left r b hb hopen)
  · intro r b hb c hc hopen hopen'
    obtain rfl | hold := List.mem_cons.mp hb <;> obtain rfl | hold' := List.mem_cons.mp hc
    · rfl
    · exact (hfirst r c hold' hopen' hopen).elim
    · exact (hfirst r b hold hopen hopen').elim
    · exact h.once r b hold c hold' hopen hopen'

theorem opened_of_run (hrun : (relayServer hmac secret lim threshold window cooldown start).run
    (relayServer hmac secret lim threshold window cooldown start).init as = some y) :
    Opened as.reverse y :=
  Machine.run_invariant (P := Opened) ⟨fun _ => by simp, fun _ => by simp⟩
    (fun _ _ _ _ h he => h.step he) hrun

/-- The request that the limiter was asked about is the one that the gate goes on with. -/
theorem asked_once (hopened : Opened as y) (hasked : Asked as r p) (hq : .allowed r q now ∈ as) :
    p = q := by
  obtain ⟨t, hp⟩ := hasked
  have hsame := hopened.once r _ hp _ hq (by simp [HandlerAct.opens]) (by simp [HandlerAct.opens])
  cases hsame
  rfl

/-- In every run of the server: a request on the path that the publisher builds from a channel
and from a token of `relay token`, under the same file, is let in only for the channel of the
token and before its expiry, is refused only for another channel or after it, and is no bad
request unless the channel is none. -/
theorem minted_token_admits (hsize : ∀ secret msg, (hmac secret msg).length = 32)
    (hserve : runServe readFile unmarshal flags.config = .ok (cfg, secret))
    (htoken : runToken hmac readFile unmarshal flags t0 = .ok out)
    (hrun : (serve hmac cfg secret start).run (serve hmac cfg secret start).init as = some y) :
    ∃ token, out = println token ∧ ∀ r req now, .allowed r (publishRequest req) now ∈ as →
      ∀ ch, req.target = publishPath ch token →
        ((y.publish r).accepted.isSome = true → ch = flags.channel ∧
          ∃ t1, .verify r t1 ∈ as ∧ t1.unix < (t0.add flags.ttl).unix) ∧
        ((y.publish r).isRefused = true → ch ≠ flags.channel ∨
          ∃ t1, .verify r t1 ∈ as ∧ (t0.add flags.ttl).unix ≤ t1.unix) ∧
        (y.publish r = .answered statusBadRequest →
          validateChannelID (channelString ch) = false) := by
  obtain ⟨-, token, hmint, hout⟩ := (runToken_eq_ok hserve).mp htoken
  refine ⟨token, hout.symm, ?_⟩
  intro r req now hallowed ch htarget
  have hverify : ∀ t1, verifyToken hmac secret ch token t1 = .ok () ↔
      ch = flags.channel ∧ t1.unix < (t0.add flags.ttl).unix := by
    intro t1
    obtain ⟨hvalid, rfl⟩ := mintToken_eq_ok hmint
    exact verifyToken_tokenParts hmac hsize (length_of_validateChannelID hvalid)
  rw [publishRequest_publishPath htarget] at hallowed
  have hopened := opened_of_run hrun
  have hbacked := ((answered_of_run hrun).backed r)
  have hmem : .allowed r ⟨clientIP req, ch, token⟩ now ∈ as.reverse := List.mem_reverse.mpr hallowed
  have hself : ∀ p, Asked as.reverse r p → p = ⟨clientIP req, ch, token⟩ :=
    fun p hp => asked_once hopened hp hmem
  refine ⟨?_, ?_, ?_⟩
  · intro haccepted
    have hin : Accepts hmac secret as.reverse r ⟨clientIP req, ch, token⟩ := by
      cases hp : y.publish r with
      | verified p | authorised p =>
        rw [hp] at hbacked
        exact hself p hbacked.1 ▸ hbacked.2
      | arrived | blocked | admitted | rejected | failed | answered =>
        rw [hp] at haccepted
        cases haccepted
    obtain ⟨t1, hverified, hok⟩ := hin
    obtain ⟨hch, hlt⟩ := (hverify t1).mp hok
    exact ⟨hch, t1, List.mem_reverse.mp hverified, hlt⟩
  · intro hdenied
    have hout : Refuses hmac secret as.reverse r ⟨clientIP req, ch, token⟩ := by
      cases hp : y.publish r with
      | rejected p | failed p =>
        rw [hp] at hbacked
        exact hself p hbacked.1 ▸ hbacked.2
      | answered status =>
        rw [hp] at hbacked hdenied
        obtain rfl : status = statusUnauthorized := by
          simpa [Publish.isRefused, Publish.isDenied] using hdenied
        obtain hs | ⟨hs, -⟩ | ⟨-, p, hasked, hrefused⟩ := hbacked
        · cases hs
        · cases hs
        · exact hself p hasked ▸ hrefused
      | arrived | blocked | admitted | verified | authorised =>
        rw [hp] at hdenied
        cases hdenied
    obtain ⟨-, t1, e, hverified, herror⟩ := hout
    by_cases hch : ch = flags.channel
    · refine .inr ⟨t1, List.mem_reverse.mp hverified, Int64.not_lt.mp fun hlt => ?_⟩
      have hok := (hverify t1).mpr ⟨hch, hlt⟩
      rw [herror] at hok
      cases hok
    · exact .inl hch
  · intro hbad
    rw [hbad] at hbacked
    obtain hs | ⟨-, hwhy⟩ | ⟨hs, -⟩ := hbacked
    · cases hs
    · obtain ⟨id, hrefuse, -⟩ | ⟨p, hasked, hinvalid⟩ := hwhy
      · have hsame := hopened.once r _ hrefuse _ hmem (by simp [HandlerAct.opens])
          (by simp [HandlerAct.opens])
        cases hsame
      · rw [hself p hasked] at hinvalid
        exact hinvalid
    · cases hs

/-! A publisher without a proxy, and a token of one minute. -/

def minuteFlags : TokenFlags := { channel := kickA, ttl := 60000000000 }

/-- The secret in `bufferConfig`. -/
def minuteSecret : Bytes := Wire.ascii "streammix-secret"

def minuteText : Bytes :=
  [tokenSep].intercalate (tokenParts (fun _ _ => minuteMac) minuteSecret kickA 60)

def minuteRequest : HttpRequest :=
  ⟨publishPath kickA minuteText, [], Wire.ascii "[::1]:50000"⟩

def minuteRun : List HandlerAct :=
  [.allowed 0 (publishRequest minuteRequest) 0, .verify 0 epoch, .recordSuccess 0]

theorem minted_token_admits_minute : ∃ y,
    (serve (fun _ _ => minuteMac) (bufferConfig 0).defaults minuteSecret 0).run
      (serve (fun _ _ => minuteMac) (bufferConfig 0).defaults minuteSecret 0).init minuteRun =
        some y ∧
    (y.publish 0).accepted.isSome = true ∧ ∃ t1, .verify 0 t1 ∈ minuteRun ∧ t1.unix < 60 := by
  have hserve : runServe (fun _ => .ok (bufferFile 0)) (fun _ => .ok (bufferConfig 0))
      minuteFlags.config = .ok ((bufferConfig 0).defaults, minuteSecret) :=
    runServe_eq_ok.mpr ⟨loadConfig_buffer 0, by decide +kernel, by decide⟩
  have htoken : runToken (fun _ _ => minuteMac) (fun _ => .ok (bufferFile 0))
      (fun _ => .ok (bufferConfig 0)) minuteFlags epoch = .ok (println minuteText) := by
    have hmint : mintToken (fun _ _ => minuteMac) minuteSecret kickA 60000000000 epoch =
        .ok minuteText := by
      decide +kernel
    exact (runToken_eq_ok hserve).mpr ⟨by decide, minuteText, hmint, rfl⟩
  have hrequest : publishRequest minuteRequest = ⟨clientIP minuteRequest, kickA, minuteText⟩ :=
    publishRequest_publishPath rfl
  have hrun : ((serve (fun _ _ => minuteMac) (bufferConfig 0).defaults minuteSecret 0).run
      (serve (fun _ _ => minuteMac) (bufferConfig 0).defaults minuteSecret 0).init
        minuteRun).any (fun y => (y.publish 0).accepted.isSome) = true := by
    rw [minuteRun, hrequest]
    decide +kernel
  obtain ⟨y, hy, hin⟩ := (Option.any_eq_true _ _).mp hrun
  obtain ⟨token, hsame, hall⟩ := minted_token_admits (fun _ _ => rfl) hserve htoken hy
  obtain rfl : minuteText = token := List.append_cancel_right hsame
  obtain ⟨hadmits, -⟩ := hall 0 minuteRequest 0 List.mem_cons_self kickA rfl
  exact ⟨y, hy, hin, (hadmits hin).2⟩

end RelayServer

end StreamMix.Relay
