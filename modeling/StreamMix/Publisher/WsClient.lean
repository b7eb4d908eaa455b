import StreamMix.Lib.Machine
import StreamMix.Publisher.Cli
import StreamMix.Wire.Layout

/-! The `WebSocketClient` of the publisher with its service thread, the callback of `main`
and the capture threads.  Connections are named by the call of `TryConnect` they come from. -/

namespace StreamMix.Publisher

open Wire

def kMaxQueue : Nat := 256

def encodeFrameOrLog (f : Frame) : Bytes :=
  match Cpp.encodeFrame f with
  | .ok bytes => bytes
  | .error _ => []

def buildHelloPayload : Bytes :=
  ascii ("\x7b\"version\":1,\"client\":\"publisher/0.0.1\",\"audio\":\x7b\"codec\":\"opus\"," ++
    "\"sample_rate\":48000,\"channels\":2,\"frame_ms\":20\x7d\x7d")

def helloFrame (now : UInt64) : Frame :=
  ⟨MessageType.hello.code, controlTrack, 0, 0, now, buildHelloPayload⟩

def trackListFrame (cfg : Config) (now : UInt64) : Frame :=
  ⟨MessageType.trackList.code, controlTrack, 0, 1, now, buildTrackListPayload cfg⟩

def audioFrame (t : TrackSpec) (seq : UInt32) (now : UInt64) (encoded : Bytes) : Frame :=
  ⟨MessageType.audioOpus.code, t.id, 0, seq, now, encoded⟩

/-- Which call of `Enqueue` a packet comes from. -/
inductive Origin
  | capture
  | hello (conn : Nat)
  | trackList (conn : Nat)
  deriving DecidableEq

structure Packet where
  origin : Origin
  bytes : Bytes
  deriving DecidableEq

/-- Where the service thread stands: between two callbacks, in `OnEstablished` before its
critical section, before the two calls of `Enqueue` in the callback, before `lws_write`,
or after a callback asked for the connection to be closed. -/
inductive Service
  | loop
  | clear
  | hello
  | trackList
  | write (p : Packet)
  | closing
  deriving DecidableEq

/-- `seq` belongs to the pipelines.  `conn` counts the calls of `TryConnect`, `written` holds
what `lws_write` took on each connection, and `evicted` what full queues dropped. -/
structure Client where
  queue : List Packet
  dropped : UInt64
  sent : UInt64
  reconnects : UInt64
  connected : Bool
  connecting : Bool
  service : Service
  seq : Nat → UInt32
  conn : Nat
  written : Nat → List Packet
  evicted : List Packet

/-- `write` answers `lws_write`; a failed one closes the connection. -/
inductive ClientAct
  | tryConnect (ok : Bool)
  | connectionError
  | established
  | clear
  | hello (now : UInt64)
  | trackList (now : UInt64)
  | capture (i : Nat) (now : UInt64) (encoded : Bytes)
  | writeable
  | write (ok : Bool)
  | closed
  deriving DecidableEq

namespace Client

def start : Client := ⟨[], 0, 0, 0, false, false, .loop, fun _ => 0, 0, fun _ => [], []⟩

def enqueue (c : Client) (p : Packet) : Client :=
  if kMaxQueue ≤ c.queue.length then
    { c with
      queue := c.queue.drop 1 ++ [p]
      dropped := c.dropped + 1
      evicted := c.evicted ++ c.queue.take 1 }
  else { c with queue := c.queue ++ [p] }

def markDisconnected (c : Client) : Client :=
  { c with
    connecting := false
    connected := false
    reconnects := if c.connected then c.reconnects + 1 else c.reconnects
    service := .loop }

/-- One frame of the pipeline of a track. -/
def capture (c : Client) (i : Nat) (t : TrackSpec) (now : UInt64) (encoded : Bytes) : Client :=
  let seq := c.seq i + 1
  let bytes := encodeFrameOrLog (audioFrame t seq now encoded)
  let c := { c with seq := Function.update c.seq i seq }
  if bytes.isEmpty then c else c.enqueue ⟨.capture, bytes⟩

def step (cfg : Config) (c : Client) : ClientAct → Option Client
  | .tryConnect ok =>
    if c.service = .loop ∧ c.connected = false ∧ c.connecting = false then
      some { c with connecting := ok, conn := c.conn + 1 }
    else none
  | .connectionError =>
    if c.service = .loop ∧ c.connecting = true then some c.markDisconnected else none
  | .established =>
    if c.service = .loop ∧ c.connecting = true then
      some { c with connected := true, connecting := false, service := .clear }
    else none
  | .clear => if c.service = .clear then some { c with queue := [], service := .hello } else none
  | .hello now =>
    if c.service = .hello then
      some { c.enqueue ⟨.hello c.conn, encodeFrameOrLog (helloFrame now)⟩ with
        service := .trackList }
    else none
  | .trackList now =>
    if c.service = .trackList then
      some { c.enqueue ⟨.trackList c.conn, encodeFrameOrLog (trackListFrame cfg now)⟩ with
        service := .loop }
    else none
  | .capture i now encoded =>
    match cfg.tracks[i]? with
    | some t => if encoded.isEmpty then none else some (c.capture i t now encoded)
    | none => none
  | .writeable =>
    if c.service = .loop ∧ c.connected = true then
      match c.queue with
      | [] => some c
      | p :: queue => some { c with queue := queue, service := .write p }
    else none
  | .write ok =>
    match c.service with
    | .write p =>
      if ok then
        some { c with
          sent := c.sent + 1
          written := Function.update c.written c.conn (c.written c.conn ++ [p])
          service := .loop }
      else some { c with service := .closing }
    | _ => none
  | .closed =>
    if c.connected = true ∧ (c.service = .loop ∨ c.service = .closing) then
      some c.markDisconnected
    else none

end Client

def client (cfg : Config) : Machine Client ClientAct := ⟨Client.start, Client.step cfg⟩

/-! HELLO and TRACK_LIST lead a connection unless a capture thread gets in their way. -/

def IsHello (n : Nat) (p : Packet) : Prop :=
  p.origin = .hello n ∧ ∃ now, Cpp.encodeFrame (helloFrame now) = .ok p.bytes

def IsTrackList (cfg : Config) (n : Nat) (p : Packet) : Prop :=
  p.origin = .trackList n ∧ ∃ now, Cpp.encodeFrame (trackListFrame cfg now) = .ok p.bytes

/-- The packets written on connection `n` so far: HELLO first and TRACK_LIST second. -/
structure Leads (cfg : Config) (n : Nat) (ps : List Packet) : Prop where
  first : ∀ p, ps[0]? = some p → IsHello n p
  second : ∀ p, ps[1]? = some p → IsTrackList cfg n p

structure Client.Announces (cfg : Config) (c : Client) : Prop where
  leads : ∀ n, Leads cfg n (c.written n)
  kept : ∀ p ∈ c.evicted, p.origin = .capture

/-- No capture thread calls `Enqueue` between the critical section of `OnEstablished` and the
second `Enqueue` of the callback, or while the queue is full with an announcement in front. -/
def Client.Undisturbed (c : Client) : ClientAct → Prop
  | .capture _ _ _ => c.service ≠ .hello ∧ c.service ≠ .trackList ∧
    (kMaxQueue ≤ c.queue.length → ∀ p ∈ c.queue.head?, p.origin = .capture)
  | _ => True

instance (c : Client) : DecidablePred c.Undisturbed
  | .capture _ _ _ => inferInstanceAs (Decidable (_ ∧ _ ∧ (_ → ∀ p ∈ c.queue.head?, _)))
  | .tryConnect _ | .connectionError | .established | .clear | .hello _ | .trackList _
  | .writeable | .write _ | .closed => .isTrue trivial

/-- Both announcements of connection `n` are there, in front. -/
def Led (cfg : Config) (n : Nat) (ps : List Packet) : Prop :=
  ∃ p q rest, ps = p :: q :: rest ∧ IsHello n p ∧ IsTrackList cfg n q

theorem Led.append (h : Led cfg n ps) (qs : List Packet) : Led cfg n (ps ++ qs) := by
  obtain ⟨p, q, rest, rfl, hp, hq⟩ := h
  exact ⟨p, q, rest ++ qs, rfl, hp, hq⟩

theorem Led.leads (h : Led cfg n (ps ++ qs)) : Leads cfg n ps := by
  obtain ⟨p, q, rest, heq, hp, hq⟩ := h
  match ps with
  | [] => exact ⟨nofun, nofun⟩
  | [a] =>
    cases heq
    refine ⟨?_, nofun⟩
    rintro _ ⟨⟩
    exact hp
  | a :: b :: ps =>
    cases heq
    refine ⟨?_, ?_⟩
    · rintro _ ⟨⟩
      exact hp
    · rintro _ ⟨⟩
      exact hq

/-- A packet of a capture thread stands behind the announcements. -/
theorem Led.drop (h : Led cfg n (ps ++ q :: qs)) (hq : q.origin = .capture) :
    Led cfg n (ps ++ qs) := by
  obtain ⟨a, b, rest, heq, ha, hb⟩ := h
  match ps with
  | [] =>
    cases heq
    rw [ha.1] at hq
    cases hq
  | [_] =>
    cases heq
    rw [hb.1] at hq
    cases hq
  | _ :: _ :: ps =>
    cases heq
    exact ⟨a, b, ps ++ qs, rfl, ha, hb⟩

namespace Client

variable {c d : Client} {cfg : Config}

/-- What `Enqueue` does to the queue. -/
theorem enqueue_cases (c : Client) (p : Packet) :
    (c.queue.length < kMaxQueue ∧ c.enqueue p = { c with queue := c.queue ++ [p] }) ∨
    (∃ q qs, kMaxQueue ≤ c.queue.length ∧ c.queue = q :: qs ∧
      c.enqueue p = { c with
        queue := qs ++ [p]
        dropped := c.dropped + 1
        evicted := c.evicted ++ [q] }) := by
  by_cases h : kMaxQueue ≤ c.queue.length
  · cases hq : c.queue with
    | nil =>
      rw [hq] at h
      cases h
    | cons q qs =>
      refine .inr ⟨q, qs, hq ▸ h, rfl, ?_⟩
      rw [enqueue, if_pos h, hq]
      rfl
  · exact .inl ⟨Nat.lt_of_not_le h, if_neg h⟩

/-- What the service thread knows of the connection it works on. -/
def Serving (cfg : Config) (c : Client) : Prop :=
  match c.service with
  | .loop => c.connected = true → Led cfg c.conn (c.written c.conn ++ c.queue)
  | .clear => c.written c.conn = []
  | .hello => c.written c.conn = [] ∧ c.queue = []
  | .trackList => c.written c.conn = [] ∧ ∃ p, c.queue = [p] ∧ IsHello c.conn p
  | .write p => c.connected = true ∧ Led cfg c.conn (c.written c.conn ++ p :: c.queue)
  | .closing => c.connected = true

structure Invariant (cfg : Config) (c : Client) : Prop extends Announces cfg c where
  unused : ∀ n, c.conn < n → c.written n = []
  dialing : c.connecting = true → c.written c.conn = [] ∧ c.connected = false
  serving : c.Serving cfg

theorem invariant_start (cfg : Config) : Invariant cfg start where
  leads _ := ⟨nofun, nofun⟩
  kept := nofun
  unused _ _ := rfl
  dialing := nofun
  serving := nofun

/-- Steps that write and evict nothing. -/
theorem Invariant.congr (hi : Invariant cfg c) (hw : d.written = c.written)
    (he : d.evicted = c.evicted) (hu : c.conn ≤ d.conn)
    (hd : d.connecting = true → d.written d.conn = [] ∧ d.connected = false) (hs : d.Serving cfg) :
    Invariant cfg d where
  leads n := hw ▸ hi.leads n
  kept := he ▸ hi.kept
  unused n hn := hw ▸ hi.unused n (Nat.lt_of_le_of_lt hu hn)
  dialing := hd
  serving := hs

theorem encodeFrame_of_valid {f : Frame} (h : f.Valid) (o : Origin) :
    Cpp.encodeFrame f = .ok (Packet.mk o (encodeFrameOrLog f)).bytes := by
  have hok := (Cpp.encodeFrame_ok_iff f f.layout).mpr ⟨h, rfl⟩
  rw [encodeFrameOrLog, hok]

theorem valid_hello (now : UInt64) : (helloFrame now).Valid where
  payload := show buildHelloPayload.length ≤ maxPayloadBytes by decide
  track := show controlTrack.toNat ≤ maxTrackSlot by decide
  type := MessageType.isKnownType_code .hello

theorem valid_trackList (h : (buildTrackListPayload cfg).length ≤ maxPayloadBytes)
    (now : UInt64) : (trackListFrame cfg now).Valid where
  payload := h
  track := show controlTrack.toNat ≤ maxTrackSlot by decide
  type := MessageType.isKnownType_code .trackList

theorem isHello (n : Nat) (now : UInt64) :
    IsHello n ⟨.hello n, encodeFrameOrLog (helloFrame now)⟩ :=
  ⟨rfl, now, encodeFrame_of_valid (valid_hello now) _⟩

theorem isTrackList (h : (buildTrackListPayload cfg).length ≤ maxPayloadBytes) (n : Nat)
    (now : UInt64) :
    IsTrackList cfg n ⟨.trackList n, encodeFrameOrLog (trackListFrame cfg now)⟩ :=
  ⟨rfl, now, encodeFrame_of_valid (valid_trackList h now) _⟩

theorem Serving.setQueue (hc : c.Serving cfg)
    (hs : c.service ≠ .hello ∧ c.service ≠ .trackList)
    (hq : ∀ ps, Led cfg c.conn (ps ++ c.queue) → Led cfg c.conn (ps ++ qs)) :
    Serving cfg { c with queue := qs } := by
  simp only [Serving] at hc ⊢
  cases hpc : c.service with
  | loop =>
    rw [hpc] at hc
    exact fun hconn => hq _ (hc hconn)
  | write p =>
    rw [hpc] at hc
    have hled := hc.2
    rw [← List.singleton_append, ← List.append_assoc] at hled
    have hled := hq _ hled
    rw [List.append_assoc] at hled
    exact ⟨hc.1, hled⟩
  | hello => exact absurd hpc hs.1
  | trackList => exact absurd hpc hs.2
  | clear =>
    rw [hpc] at hc
    exact hc
  | closing =>
    rw [hpc] at hc
    exact hc

/-- An `Enqueue` of a capture thread that gets in nobody's way. -/
theorem Invariant.enqueue (hi : Invariant cfg c)
    (hs : c.service ≠ .hello ∧ c.service ≠ .trackList)
    (hfull : kMaxQueue ≤ c.queue.length → ∀ q ∈ c.queue.head?, q.origin = .capture)
    (p : Packet) : Invariant cfg (c.enqueue p) := by
  obtain ⟨-, he⟩ | ⟨q, qs, hlen, hq, he⟩ := c.enqueue_cases p
  · rw [he]
    refine hi.congr rfl rfl (Nat.le_refl _) hi.dialing (hi.serving.setQueue hs ?_)
    intro ps hled
    rw [← List.append_assoc]
    exact hled.append [p]
  · have hcapture : q.origin = .capture := hfull hlen q (by rw [hq]; rfl)
    have hserving : Serving cfg { c with queue := qs ++ [p] } := by
      refine hi.serving.setQueue hs ?_
      intro ps hled
      rw [hq] at hled
      rw [← List.append_assoc]
      exact (hled.drop hcapture).append [p]
    rw [he]
    refine ⟨⟨hi.leads, ?_⟩, hi.unused, hi.dialing, hserving⟩
    intro w hw
    obtain hw | hw := List.mem_append.mp hw
    · exact hi.kept w hw
    · rw [List.mem_singleton.mp hw]
      exact hcapture

/-- On an empty or nearly empty queue an announcement just queues. -/
theorem enqueue_of_short (h : c.queue.length < kMaxQueue) (p : Packet) :
    c.enqueue p = { c with queue := c.queue ++ [p] } := if_neg (Nat.not_le.mpr h)

theorem Invariant.capture (hi : Invariant cfg c) (hu : c.Undisturbed (.capture i now encoded))
    (t : TrackSpec) : Invariant cfg (c.capture i t now encoded) := by
  obtain ⟨hhello, htrackList, hfull⟩ := hu
  have hseq : Invariant cfg { c with seq := Function.update c.seq i (c.seq i + 1) } :=
    hi.congr rfl rfl (Nat.le_refl _) hi.dialing hi.serving
  simp only [Client.capture]
  split
  · exact hseq
  · exact hseq.enqueue ⟨hhello, htrackList⟩ hfull _

theorem Invariant.wrote (hi : Invariant cfg c)
    (hp : c.connected = true ∧ Led cfg c.conn (c.written c.conn ++ p :: c.queue)) :
    Invariant cfg { c with
      sent := c.sent + 1
      written := Function.update c.written c.conn (c.written c.conn ++ [p])
      service := .loop } := by
  obtain ⟨hconn, hled⟩ := hp
  rw [← List.singleton_append, ← List.append_assoc] at hled
  refine ⟨⟨?_, hi.kept⟩, ?_, ?_, ?_⟩
  · intro n
    obtain rfl | hn := eq_or_ne n c.conn
    · simp only [Function.update_self]
      exact hled.leads
    · simp only [Function.update_of_ne hn]
      exact hi.leads n
  · intro n hn
    simp only [Function.update_of_ne (Nat.ne_of_gt hn)]
    exact hi.unused n hn
  · intro hdial
    rw [(hi.dialing hdial).2] at hconn
    cases hconn
  · intro _
    simp only [Function.update_self]
    exact hled

theorem Invariant.step (hcfg : (buildTrackListPayload cfg).length ≤ maxPayloadBytes)
    (hi : Invariant cfg c) (hu : c.Undisturbed a) (he : c.step cfg a = some d) :
    Invariant cfg d := by
  have hserving := hi.serving
  cases a with
  | tryConnect ok =>
    simp only [Client.step] at he
    split at he <;> cases he
    next h =>
    refine hi.congr rfl rfl (Nat.le_succ _) (fun _ => ⟨hi.unused _ (Nat.lt_succ_self _), h.2.1⟩) ?_
    simp only [Serving, h.1, h.2.1]
    exact nofun
  | connectionError =>
    simp only [Client.step] at he
    split at he <;> cases he
    exact hi.congr rfl rfl (Nat.le_refl _) nofun nofun
  | established =>
    simp only [Client.step] at he
    split at he <;> cases he
    next h => exact hi.congr rfl rfl (Nat.le_refl _) nofun (hi.dialing h.2).1
  | clear =>
    simp only [Client.step] at he
    split at he <;> cases he
    next h =>
    simp only [Serving, h] at hserving
    exact hi.congr rfl rfl (Nat.le_refl _) hi.dialing ⟨hserving, rfl⟩
  | hello now =>
    simp only [Client.step] at he
    split at he <;> cases he
    next h =>
    simp only [Serving, h] at hserving
    rw [enqueue_of_short (by rw [hserving.2]; decide), hserving.2]
    exact hi.congr rfl rfl (Nat.le_refl _) hi.dialing ⟨hserving.1, _, rfl, isHello c.conn now⟩
  | trackList now =>
    simp only [Client.step] at he
    split at he <;> cases he
    next h =>
    simp only [Serving, h] at hserving
    obtain ⟨hw, p, hq, hp⟩ := hserving
    rw [enqueue_of_short (by rw [hq]; exact Nat.le_of_ble_eq_true rfl), hq]
    refine hi.congr rfl rfl (Nat.le_refl _) hi.dialing (fun _ => ?_)
    dsimp only
    rw [hw]
    exact ⟨p, _, [], rfl, hp, isTrackList hcfg c.conn now⟩
  | capture i now encoded =>
    simp only [Client.step] at he
    split at he
    · split at he <;> cases he
      exact hi.capture hu _
    · cases he
  | writeable =>
    simp only [Client.step] at he
    split at he
    · next h =>
      simp only [Serving, h.1] at hserving
      split at he <;> cases he
      · exact hi
      · next p queue hq =>
        refine hi.congr rfl rfl (Nat.le_refl _) hi.dialing ⟨h.2, ?_⟩
        rw [← hq]
        exact hserving h.2
    · cases he
  | write ok =>
    simp only [Client.step] at he
    split at he
    · next p h =>
      simp only [Serving, h] at hserving
      split at he <;> cases he
      · exact hi.wrote hserving
      · exact hi.congr rfl rfl (Nat.le_refl _) hi.dialing hserving.1
    · cases he
  | closed =>
    simp only [Client.step] at he
    split at he <;> cases he
    exact hi.congr rfl rfl (Nat.le_refl _) nofun nofun

/-! Every packet is the encoding of a frame that its origin makes. -/

def Known (cfg : Config) (p : Packet) : Prop :=
  match p.origin with
  | .capture => ∃ t ∈ cfg.tracks, ∃ seq now encoded,
    Cpp.encodeFrame (audioFrame t seq now encoded) = .ok p.bytes
  | .hello _ => ∃ now, Cpp.encodeFrame (helloFrame now) = .ok p.bytes
  | .trackList _ => ∃ now, Cpp.encodeFrame (trackListFrame cfg now) = .ok p.bytes

structure AllKnown (cfg : Config) (c : Client) : Prop where
  queue : ∀ p ∈ c.queue, Known cfg p
  writing : ∀ p, c.service = .write p → Known cfg p
  written : ∀ n, ∀ p ∈ c.written n, Known cfg p

theorem known_hello (h : IsHello n p) : Known cfg p := by
  rw [Known, h.1]
  exact h.2

theorem known_trackList (h : IsTrackList cfg n p) : Known cfg p := by
  rw [Known, h.1]
  exact h.2

theorem AllKnown.enqueue (hk : AllKnown cfg c) (hp : Known cfg p) : AllKnown cfg (c.enqueue p) := by
  obtain ⟨-, he⟩ | ⟨q, qs, -, hq, he⟩ := c.enqueue_cases p
  · rw [he]
    refine ⟨?_, hk.writing, hk.written⟩
    intro w hw
    obtain hw | hw := List.mem_append.mp hw
    · exact hk.queue w hw
    · rw [List.mem_singleton.mp hw]
      exact hp
  · rw [he]
    refine ⟨?_, hk.writing, hk.written⟩
    intro w hw
    obtain hw | hw := List.mem_append.mp hw
    · exact hk.queue w (hq ▸ List.mem_cons_of_mem _ hw)
    · rw [List.mem_singleton.mp hw]
      exact hp

theorem known_capture (ht : t ∈ cfg.tracks)
    (hb : ¬ (encodeFrameOrLog (audioFrame t n now encoded)).isEmpty) :
    Known cfg ⟨.capture, encodeFrameOrLog (audioFrame t n now encoded)⟩ := by
  refine ⟨t, ht, n, now, encoded, ?_⟩
  simp only [encodeFrameOrLog] at hb ⊢
  split
  · assumption
  · next heq =>
    rw [heq] at hb
    exact absurd rfl hb

theorem AllKnown.step (hcfg : (buildTrackListPayload cfg).length ≤ maxPayloadBytes)
    (hk : AllKnown cfg c) (he : c.step cfg a = some d) : AllKnown cfg d := by
  cases a with
  | tryConnect ok =>
    simp only [Client.step] at he
    split at he <;> cases he
    exact ⟨hk.queue, hk.writing, hk.written⟩
  | connectionError =>
    simp only [Client.step] at he
    split at he <;> cases he
    exact ⟨hk.queue, nofun, hk.written⟩
  | established =>
    simp only [Client.step] at he
    split at he <;> cases he
    exact ⟨hk.queue, nofun, hk.written⟩
  | clear =>
    simp only [Client.step] at he
    split at he <;> cases he
    exact ⟨nofun, nofun, hk.written⟩
  | hello now =>
    simp only [Client.step] at he
    split at he <;> cases he
    have hnew := hk.enqueue (known_hello (isHello c.conn now))
    exact ⟨hnew.queue, nofun, hnew.written⟩
  | trackList now =>
    simp only [Client.step] at he
    split at he <;> cases he
    have hnew := hk.enqueue (known_trackList (isTrackList hcfg c.conn now))
    exact ⟨hnew.queue, nofun, hnew.written⟩
  | capture i now encoded =>
    simp only [Client.step] at he
    split at he
    · next t ht =>
      split at he <;> cases he
      have hseq : AllKnown cfg { c with seq := Function.update c.seq i (c.seq i + 1) } :=
        ⟨hk.queue, hk.writing, hk.written⟩
      simp only [Client.capture]
      split
      · exact hseq
      · next hb => exact hseq.enqueue (known_capture (List.mem_of_getElem? ht) hb)
    · cases he
  | writeable =>
    simp only [Client.step] at he
    split at he
    · split at he <;> cases he
      · exact hk
      · next p queue hq =>
        have hp : ∀ w ∈ p :: queue, Known cfg w := hq ▸ hk.queue
        refine ⟨fun w hw => hp w (List.mem_cons_of_mem _ hw), ?_, hk.written⟩
        rintro _ ⟨⟩
        exact hp p List.mem_cons_self
    · cases he
  | write ok =>
    simp only [Client.step] at he
    split at he
    · next p hpc =>
      split at he <;> cases he
      · refine ⟨hk.queue, nofun, ?_⟩
        intro n
        simp only [Function.update_apply]
        split
        · intro w hw
          obtain hw | hw := List.mem_append.mp hw
          · exact hk.written _ w hw
          · rw [List.mem_singleton.mp hw]
            exact hk.writing p hpc
        · exact hk.written n
      · exact ⟨hk.queue, nofun, hk.written⟩
    · cases he
  | closed =>
    simp only [Client.step] at he
    split at he <;> cases he
    exact ⟨hk.queue, nofun, hk.written⟩

theorem allKnown_of_reachable (hcfg : (buildTrackListPayload cfg).length ≤ maxPayloadBytes)
    (h : (client cfg).Reachable c) : AllKnown cfg c :=
  h.invariant ⟨nofun, nofun, fun _ => nofun⟩ (fun _ _ _ hk he => hk.step hcfg he)

theorem written_enqueue (c : Client) (p : Packet) : (c.enqueue p).written = c.written := by
  simp only [enqueue]
  split <;> rfl

/-- Nothing is unwritten. -/
theorem written_step (he : c.step cfg a = some d) (n : Nat) : c.written n <+: d.written n := by
  cases a with
  | write ok =>
    simp only [Client.step] at he
    split at he
    · split at he <;> cases he
      · simp only [Function.update_apply]
        split
        · next hn =>
          rw [hn]
          exact List.prefix_append ..
        · exact List.prefix_refl _
      · exact List.prefix_refl _
    · cases he
  | hello | trackList =>
    simp only [Client.step] at he
    split at he <;> cases he
    simp only [written_enqueue]
    exact List.prefix_refl _
  | capture i now encoded =>
    simp only [Client.step] at he
    split at he
    · split at he <;> cases he
      simp only [Client.capture]
      split
      · exact List.prefix_refl _
      · simp only [written_enqueue]
        exact List.prefix_refl _
    · cases he
  | writeable =>
    simp only [Client.step] at he
    split at he
    · split at he <;> cases he <;> exact List.prefix_refl _
    · cases he
  | tryConnect | connectionError | established | clear | closed =>
    simp only [Client.step] at he
    split at he <;> cases he
    exact List.prefix_refl _

theorem invariant_of_undisturbed (hcfg : (buildTrackListPayload cfg).length ≤ maxPayloadBytes)
    (h : (client cfg).Reaches Undisturbed c) : Invariant cfg c :=
  h.invariant (invariant_start cfg) (fun _ _ _ hi hu he => hi.step hcfg hu he)

/-- In every run in which no capture thread disturbs the announcements they lead. -/
theorem announces_of_undisturbed (hcfg : (buildTrackListPayload cfg).length ≤ maxPayloadBytes)
    (h : (client cfg).Reaches Undisturbed c) : c.Announces cfg :=
  (invariant_of_undisturbed hcfg h).toAnnounces

def micOnly : Config :=
  { Config.default with
    tracks := [⟨1, ascii "mic", ascii "mic", ascii "Mic", ascii "system"⟩] }

def handshake : List ClientAct := [.tryConnect true, .established, .clear]

def flush : List ClientAct := [.writeable, .write true]

theorem announces_of_undisturbed_mic :
    (buildTrackListPayload micOnly).length ≤ maxPayloadBytes ∧
    ∃ c, (client micOnly).run start (handshake ++ [.hello 5, .trackList 5, .capture 0 6 [7]] ++
        flush ++ flush ++ flush) = some c ∧ (c.written 1).length = 3 ∧ c.Announces micOnly := by
  have hcfg : (buildTrackListPayload micOnly).length ≤ maxPayloadBytes := by decide
  refine ⟨hcfg, _, rfl, rfl, announces_of_undisturbed hcfg (.of_run (handshake ++
    [.hello 5, .trackList 5, .capture 0 6 [7]] ++ flush ++ flush ++ flush) .init ?_ rfl)⟩
  refine ⟨trivial, trivial, trivial, trivial, trivial, ⟨nofun, nofun, ?_⟩, trivial, trivial,
    trivial, trivial, trivial, trivial, trivial⟩
  intro hfull
  exact absurd hfull (by decide)

/-- The lock is free between the clear and the announcements. -/
theorem audio_leads_connection :
    ∃ c, (client micOnly).run start (handshake ++ [.capture 0 6 [7], .hello 5, .trackList 5] ++
        flush) = some c ∧ ¬ c.Announces micOnly := by
  refine ⟨_, rfl, fun h => ?_⟩
  have := ((h.leads 1).first _ rfl).1
  cases this

end Client

end StreamMix.Publisher
