import StreamMix.Lib.GoJson
import StreamMix.Wire.Messages

namespace StreamMix.Wire

def errorCodes : List String :=
  ["AUTH_FAILED", "CHANNEL_TAKEN", "VERSION_MISMATCH", "RATE_LIMIT", "TRACK_LIMIT", "MALFORMED"]

namespace Ts

open Js (Number)
open Json (Value)

/-! What `JSON.stringify` writes, as code points: none of them is a surrogate. -/

def escape (p : Nat) : List Nat :=
  if p = 0x08 then [Json.backslash, 0x62]
  else if p = 0x09 then [Json.backslash, 0x74]
  else if p = 0x0a then [Json.backslash, 0x6e]
  else if p = 0x0c then [Json.backslash, 0x66]
  else if p = 0x0d then [Json.backslash, 0x72]
  else if p = Json.quote ∨ p = Json.backslash then [Json.backslash, p]
  else if p < 0x20 ∨ Unicode.isSurrogate p then Json.unicodeEscape p
  else [p]

def stringText (s : List Nat) : List Nat := Json.quoted escape (Unicode.codePoints s)

def numberText (n : Number) : List Nat :=
  match n with
  | .fin _ => units n.text
  | _ => units "null"

def encodeJson (text : List Nat) : Except ProtocolError Bytes :=
  let out := Unicode.encode text
  if out.length > maxJsonBytes then
    .error ⟨.tooLarge, "json payload too large: " ++ toString out.length⟩
  else .ok out

/-- `v !== n` for a number `n`. -/
def isNumber (v : Option Value) (n : ℚ) : Bool :=
  match v with
  | some (.num x) => x = .fin n
  | _ => false

def isString (v : Option Value) (s : String) : Bool :=
  match v with
  | some (.str t) => t = units s
  | _ => false

def numField (v : Value) (key : String) : Except ProtocolError Number :=
  match get v key with
  | some (.num (.fin q)) =>
    if q < 0 then .error (bad ("field " ++ key ++ " must be non-negative finite number"))
    else .ok (.fin q)
  | _ => .error (bad ("field " ++ key ++ " must be non-negative finite number"))

/-! HELLO -/

structure AudioParams where
  codec : List Nat
  sampleRate : Number
  channels : Number
  frameMs : Number
  deriving DecidableEq

structure HelloPayload where
  version : Number
  client : List Nat
  audio : AudioParams
  deriving DecidableEq

def encodeHello (p : HelloPayload) : Except ProtocolError Bytes :=
  encodeJson (Json.object [
    (units "version", numberText p.version),
    (units "client", stringText p.client),
    (units "audio", Json.object [
      (units "codec", stringText p.audio.codec),
      (units "sample_rate", numberText p.audio.sampleRate),
      (units "channels", numberText p.audio.channels),
      (units "frame_ms", numberText p.audio.frameMs)])])

def decodeHello (buf : Bytes) : Except ProtocolError HelloPayload := do
  let obj ← decodeJson buf
  if !isNumber (get obj "version") 1 then .error (bad "hello.version")
  else do
    let client ← strField obj "client" 128
    match get obj "audio" with
    | none => .error (bad "hello.audio")
    | some audio =>
      if !isObject audio then .error (bad "hello.audio")
      else if !isString (get audio "codec") "opus" then .error (bad "hello.audio.codec")
      else if !isNumber (get audio "sample_rate") 48000 then .error (bad "hello.audio.sample_rate")
      else
        match get audio "channels" with
        | some (.num channels) =>
          if channels ≠ .fin 1 ∧ channels ≠ .fin 2 then .error (bad "hello.audio.channels")
          else if !isNumber (get audio "frame_ms") 20 then .error (bad "hello.audio.frame_ms")
          else .ok ⟨.fin 1, client, ⟨units "opus", .fin 48000, channels, .fin 20⟩⟩
        | _ => .error (bad "hello.audio.channels")

/-! TRACK_LIST -/

def trackText (t : TrackInfo) : List Nat :=
  Json.object [
    (units "id", numberText t.id),
    (units "slug", stringText t.slug),
    (units "category", stringText t.category),
    (units "label", stringText t.label)]

def encodeTrackList (tracks : List TrackInfo) : Except ProtocolError Bytes :=
  encodeJson (Json.object [(units "tracks", Json.array (tracks.map trackText))])

/-! TRACK_META -/

structure TrackMetaPayload where
  title : Option (List Nat)
  artist : Option (List Nat)
  albumArtUrl : Option (List Nat)
  deriving DecidableEq

/-- A property that is set only if there is a value. -/
def optional (key : String) : Option (List Nat) → List (List Nat × List Nat)
  | some s => [(units key, stringText s)]
  | none => []

def encodeTrackMeta (p : TrackMetaPayload) : Except ProtocolError Bytes :=
  encodeJson (Json.object (optional "title" p.title ++ optional "artist" p.artist ++
    optional "album_art_url" p.albumArtUrl))

def optionalField (v : Value) (key : String) (maxLen : Nat) :
    Except ProtocolError (Option (List Nat)) :=
  match get v key with
  | none => .ok none
  | some _ => (strField v key maxLen).map some

def decodeTrackMeta (buf : Bytes) : Except ProtocolError TrackMetaPayload := do
  let obj ← decodeJson buf
  let title ← optionalField obj "title" 256
  let artist ← optionalField obj "artist" 256
  let albumArtUrl ← optionalField obj "album_art_url" 1024
  if albumArtUrl.any (fun u => !(units "https://").isPrefixOf u) then
    .error (bad "album_art_url must be https")
  else .ok ⟨title, artist, albumArtUrl⟩

/-! STATS -/

structure StatsPayload where
  uptimeS : Number
  packetsSent : Number
  subscribers : Number
  tracksActive : Number
  deriving DecidableEq

def encodeStats (p : StatsPayload) : Except ProtocolError Bytes :=
  encodeJson (Json.object [
    (units "uptime_s", numberText p.uptimeS),
    (units "packets_sent", numberText p.packetsSent),
    (units "subscribers", numberText p.subscribers),
    (units "tracks_active", numberText p.tracksActive)])

def decodeStats (buf : Bytes) : Except ProtocolError StatsPayload := do
  let obj ← decodeJson buf
  let uptimeS ← numField obj "uptime_s"
  let packetsSent ← numField obj "packets_sent"
  let subscribers ← numField obj "subscribers"
  let tracksActive ← numField obj "tracks_active"
  return ⟨uptimeS, packetsSent, subscribers, tracksActive⟩

/-! ERROR -/

structure ErrorPayload where
  code : List Nat
  message : List Nat
  deriving DecidableEq

def isErrorCode (s : List Nat) : Bool := errorCodes.any (fun c => units c == s)

def encodeError (p : ErrorPayload) : Except ProtocolError Bytes :=
  encodeJson (Json.object [
    (units "code", stringText p.code),
    (units "message", stringText p.message)])

def decodeError (buf : Bytes) : Except ProtocolError ErrorPayload := do
  let obj ← decodeJson buf
  let code ← strField obj "code" 32
  if !isErrorCode code then .error (bad "error.code")
  else do
    let message ← strField obj "message" 512
    return ⟨code, message⟩

end Ts

namespace Go

open GoJson (Decoder struct)

def maxJSONBytes : Nat := 4096

def bad (detail : String) : ProtocolError := protoErr .badPayload detail

def encJSON (text : List Nat) : Except ProtocolError Bytes :=
  let out := Unicode.encode text
  if out.length > maxJSONBytes then
    .error (protoErr .tooLarge ("json payload too large: " ++ toString out.length))
  else .ok out

/-- The text of an error of `encoding/json` itself is left out. -/
def decJSON (buf : Bytes) (decode : Decoder α) (zero : α) : Except ProtocolError α :=
  if buf.length > maxJSONBytes then
    .error (protoErr .tooLarge ("json payload too large: " ++ toString buf.length))
  else
    match jsString buf with
    | none => .error (protoErr .badPayload "invalid utf-8")
    | some text =>
      match (Json.readFirst text).bind (fun r => (decode r.1 zero).map (fun v => (v, r.2))) with
      | none => .error (protoErr .badPayload "json")
      | some (v, rest) =>
        -- `dec.More` takes a closing bracket for the end
        match Json.skip rest with
        | [] => .ok v
        | c :: _ =>
          if c = 0x7d ∨ c = 0x5d then .ok v
          else .error (protoErr .badPayload "trailing json data")

def checkStr (field : String) (v : Bytes) (maxLen : Nat) : Except ProtocolError Unit :=
  if v.length > maxLen then
    .error (protoErr .badPayload ("field " ++ field ++ " too long"))
  else .ok ()

def isPresetCategory (s : Bytes) : Bool := presetCategories.any (fun c => ascii c == s)

def isErrorCode (s : Bytes) : Bool := errorCodes.any (fun c => ascii c == s)

/-- The regular expression is that of the other language. -/
def isValidSlug (s : Bytes) : Bool :=
  if s.length < 1 || s.length > 64 then false else Ts.slugRe false (s.map UInt8.toNat)

/-! HELLO -/

structure Audio where
  codec : Bytes
  sampleRate : ℤ
  channels : ℤ
  frameMS : ℤ
  deriving DecidableEq

structure Hello where
  version : ℤ
  client : Bytes
  audio : Audio
  deriving DecidableEq

def Hello.zero : Hello := ⟨0, [], ⟨[], 0, 0, 0⟩⟩

def audioFields : List (List Nat × Decoder Audio) :=
  [(Ts.units "codec", GoJson.string (fun s a => { a with codec := s })),
    (Ts.units "sample_rate", GoJson.int64 (fun i a => { a with sampleRate := i })),
    (Ts.units "channels", GoJson.int64 (fun i a => { a with channels := i })),
    (Ts.units "frame_ms", GoJson.int64 (fun i a => { a with frameMS := i }))]

def helloFields : List (List Nat × Decoder Hello) :=
  [(Ts.units "version", GoJson.int64 (fun i h => { h with version := i })),
    (Ts.units "client", GoJson.string (fun s h => { h with client := s })),
    (Ts.units "audio", fun v h =>
      (struct audioFields v h.audio).map (fun audio => { h with audio }))]

def encodeHello (h : Hello) : Except ProtocolError Bytes :=
  encJSON (Json.object [
    (Ts.units "version", GoJson.intText h.version),
    (Ts.units "client", GoJson.stringText h.client),
    (Ts.units "audio", Json.object [
      (Ts.units "codec", GoJson.stringText h.audio.codec),
      (Ts.units "sample_rate", GoJson.intText h.audio.sampleRate),
      (Ts.units "channels", GoJson.intText h.audio.channels),
      (Ts.units "frame_ms", GoJson.intText h.audio.frameMS)])])

def decodeHello (buf : Bytes) : Except ProtocolError Hello := do
  let h ← decJSON buf (struct helloFields) .zero
  if h.version ≠ 1 then .error (bad "hello.version")
  else do
    checkStr "client" h.client 128
    if h.audio.codec ≠ ascii "opus" then .error (bad "hello.audio.codec")
    else if h.audio.sampleRate ≠ 48000 then .error (bad "hello.audio.sample_rate")
    else if h.audio.channels ≠ 1 ∧ h.audio.channels ≠ 2 then .error (bad "hello.audio.channels")
    else if h.audio.frameMS ≠ 20 then .error (bad "hello.audio.frame_ms")
    else .ok h

/-! TRACK_LIST -/

structure TrackInfo where
  id : Nat
  slug : Bytes
  category : Bytes
  label : Bytes
  deriving DecidableEq

def TrackInfo.zero : TrackInfo := ⟨0, [], [], []⟩

/-- `none` is the nil slice. -/
structure TrackList where
  tracks : Option (List TrackInfo)
  deriving DecidableEq

def trackFields : List (List Nat × Decoder TrackInfo) :=
  [(Ts.units "id", GoJson.uint8 (fun i t => { t with id := i })),
    (Ts.units "slug", GoJson.string (fun s t => { t with slug := s })),
    (Ts.units "category", GoJson.string (fun s t => { t with category := s })),
    (Ts.units "label", GoJson.string (fun s t => { t with label := s }))]

def trackListFields : List (List Nat × Decoder TrackList) :=
  [(Ts.units "tracks", GoJson.slice .zero (struct trackFields) (fun ts _ => ⟨ts⟩))]

def trackText (t : TrackInfo) : List Nat :=
  Json.object [
    (Ts.units "id", GoJson.intText t.id),
    (Ts.units "slug", GoJson.stringText t.slug),
    (Ts.units "category", GoJson.stringText t.category),
    (Ts.units "label", GoJson.stringText t.label)]

def encodeTrackList (t : TrackList) : Except ProtocolError Bytes :=
  encJSON (Json.object [(Ts.units "tracks", GoJson.sliceText trackText t.tracks)])

/-- The loop over the tracks, with `seen`. -/
def checkTracks (seen : List Nat) : List TrackInfo → Except ProtocolError Unit
  | [] => .ok ()
  | tr :: tracks =>
    if tr.id < 1 ∨ tr.id > maxTrackSlot then .error (bad "track.id")
    else if seen.contains tr.id then .error (bad "track.id duplicate")
    else do
      checkStr "track.slug" tr.slug 64
      if !isValidSlug tr.slug then .error (bad "track.slug format")
      else if tr.category ≠ ascii customCategory && !isPresetCategory tr.category then
        .error (bad "track.category")
      else do
        checkStr "track.label" tr.label 64
        checkTracks (tr.id :: seen) tracks

def decodeTrackList (buf : Bytes) : Except ProtocolError TrackList := do
  let t ← decJSON buf (struct trackListFields) ⟨none⟩
  if (t.tracks.getD []).length > maxTrackSlot then .error (bad "track_list too many tracks")
  else do
    checkTracks [] (t.tracks.getD [])
    return t

/-! TRACK_META -/

structure TrackMeta where
  title : Bytes
  artist : Bytes
  albumArtURL : Bytes
  deriving DecidableEq

def trackMetaFields : List (List Nat × Decoder TrackMeta) :=
  [(Ts.units "title", GoJson.string (fun s m => { m with title := s })),
    (Ts.units "artist", GoJson.string (fun s m => { m with artist := s })),
    (Ts.units "album_art_url", GoJson.string (fun s m => { m with albumArtURL := s }))]

/-- A field with the option `omitempty`. -/
def omitEmpty (key : String) (s : Bytes) : List (List Nat × List Nat) :=
  if s.isEmpty then [] else [(Ts.units key, GoJson.stringText s)]

def encodeTrackMeta (m : TrackMeta) : Except ProtocolError Bytes :=
  encJSON (Json.object (omitEmpty "title" m.title ++ omitEmpty "artist" m.artist ++
    omitEmpty "album_art_url" m.albumArtURL))

def decodeTrackMeta (buf : Bytes) : Except ProtocolError TrackMeta := do
  let m ← decJSON buf (struct trackMetaFields) ⟨[], [], []⟩
  checkStr "title" m.title 256
  checkStr "artist" m.artist 256
  checkStr "album_art_url" m.albumArtURL 1024
  if m.albumArtURL ≠ [] && !(ascii "https://").isPrefixOf m.albumArtURL then
    .error (bad "album_art_url must be https")
  else .ok m

/-! STATS -/

structure Stats where
  uptimeS : ℤ
  packetsSent : ℤ
  subscribers : ℤ
  tracksActive : ℤ
  deriving DecidableEq

def statsFields : List (List Nat × Decoder Stats) :=
  [(Ts.units "uptime_s", GoJson.int64 (fun i s => { s with uptimeS := i })),
    (Ts.units "packets_sent", GoJson.int64 (fun i s => { s with packetsSent := i })),
    (Ts.units "subscribers", GoJson.int64 (fun i s => { s with subscribers := i })),
    (Ts.units "tracks_active", GoJson.int64 (fun i s => { s with tracksActive := i }))]

def encodeStats (s : Stats) : Except ProtocolError Bytes :=
  encJSON (Json.object [
    (Ts.units "uptime_s", GoJson.intText s.uptimeS),
    (Ts.units "packets_sent", GoJson.intText s.packetsSent),
    (Ts.units "subscribers", GoJson.intText s.subscribers),
    (Ts.units "tracks_active", GoJson.intText s.tracksActive)])

def decodeStats (buf : Bytes) : Except ProtocolError Stats := do
  let s ← decJSON buf (struct statsFields) ⟨0, 0, 0, 0⟩
  if s.uptimeS < 0 ∨ s.packetsSent < 0 ∨ s.subscribers < 0 ∨ s.tracksActive < 0 then
    .error (bad "stats: non-negative required")
  else .ok s

/-! ERROR -/

structure ErrorPayload where
  code : Bytes
  message : Bytes
  deriving DecidableEq

def errorFields : List (List Nat × Decoder ErrorPayload) :=
  [(Ts.units "code", GoJson.string (fun s e => { e with code := s })),
    (Ts.units "message", GoJson.string (fun s e => { e with message := s }))]

def encodeError (e : ErrorPayload) : Except ProtocolError Bytes :=
  encJSON (Json.object [
    (Ts.units "code", GoJson.stringText e.code),
    (Ts.units "message", GoJson.stringText e.message)])

def decodeError (buf : Bytes) : Except ProtocolError ErrorPayload := do
  let e ← decJSON buf (struct errorFields) ⟨[], []⟩
  if !isErrorCode e.code then .error (bad "error.code")
  else do
    checkStr "error.message" e.message 512
    return e

end Go

end StreamMix.Wire
