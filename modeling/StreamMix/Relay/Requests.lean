import StreamMix.Lib.CodePoints
import StreamMix.Publisher.PublishUrl
import StreamMix.Relay.Gate

/-! What the handlers read from a request: the address of the client, and the query. -/

namespace StreamMix.Relay

open UrlQuery
open Wire (Bytes ascii)

/-- `xForwardedFor` is the first header of that name, and empty where there is none. -/
structure HttpRequest where
  target : Bytes
  xForwardedFor : Bytes
  remoteAddr : Bytes

/-- The runes of `unicode.IsSpace`. -/
def whiteSpace : List Nat :=
  [0x09, 0x0a, 0x0b, 0x0c, 0x0d, 0x20, 0x85, 0xa0, 0x1680, 0x2000, 0x2001, 0x2002, 0x2003, 0x2004,
    0x2005, 0x2006, 0x2007, 0x2008, 0x2009, 0x200a, 0x2028, 0x2029, 0x202f, 0x205f, 0x3000]

def spaces : List Bytes := whiteSpace.map Unicode.encodePoint

/-- Without the prefixes `ps`, at most `n` of them. -/
def trimPrefixes (ps : List Bytes) : Nat → Bytes → Bytes
  | 0, s => s
  | n + 1, s =>
    match ps.find? (fun p => p.isPrefixOf s) with
    | some p => trimPrefixes ps n (s.drop p.length)
    | none => s

/-- `strings.TrimSpace`. -/
def trimSpace (s : Bytes) : Bytes :=
  let t := trimPrefixes spaces s.length s
  (trimPrefixes (spaces.map List.reverse) t.length t.reverse).reverse

def comma : UInt8 := 0x2c

def colon : UInt8 := 0x3a

def lastIndexByte (s : Bytes) (c : UInt8) : Option Nat :=
  (s.reverse.idxOf? c).map (fun n => s.length - 1 - n)

def clientIP (r : HttpRequest) : List UInt8 :=
  if r.xForwardedFor ≠ [] then
    match r.xForwardedFor.idxOf? comma with
    | some (n + 1) => trimSpace (r.xForwardedFor.take (n + 1))
    | _ => trimSpace r.xForwardedFor
  else
    match lastIndexByte r.remoteAddr colon with
    | some (n + 1) => r.remoteAddr.take (n + 1)
    | _ => r.remoteAddr

/-- `r.URL.Query()`, which drops the error. -/
def urlQuery (r : HttpRequest) : List (Bytes × Bytes) := (Publisher.requestQuery r.target).1

/-- What `handlePublish` reads. -/
def publishRequest (r : HttpRequest) : PublishRequest :=
  ⟨clientIP r, get (urlQuery r) (ascii "channel"), get (urlQuery r) (ascii "token")⟩

/-- What `handleSubscribe` reads. -/
def subscribeChannel (r : HttpRequest) : String :=
  channelString (get (urlQuery r) (ascii "channel"))

theorem idxOf?_append {c : UInt8} (h : c ∉ s) (t : Bytes) :
    (s ++ c :: t).idxOf? c = some s.length := by
  induction s with
  | nil => simp [List.idxOf?_cons]
  | cons b s ih =>
    obtain ⟨hb, hs⟩ := not_or.mp (mt List.mem_cons.mpr h)
    simp [List.idxOf?_cons, Ne.symm hb, ih hs]

/-- Without a proxy: the address up to the port. -/
theorem clientIP_direct {r : HttpRequest} {port : Bytes} (hx : r.xForwardedFor = [])
    (hr : r.remoteAddr = host ++ colon :: port) (hhost : host ≠ []) (hport : colon ∉ port) :
    clientIP r = host := by
  have hlast : lastIndexByte r.remoteAddr colon = some host.length := by
    rw [lastIndexByte, hr, List.reverse_append, List.reverse_cons, List.append_assoc,
      List.singleton_append, idxOf?_append (by simpa using hport)]
    simp
  obtain ⟨n, hn⟩ := Nat.exists_eq_succ_of_ne_zero (mt List.length_eq_zero_iff.mp hhost)
  simp only [clientIP, hx, hlast, hn, ne_eq, not_true, if_false]
  rw [hr, List.take_left' hn]

/-- Behind proxies: the first address of the header, whatever the others are. -/
theorem clientIP_forwarded {r : HttpRequest} (hr : r.xForwardedFor = first ++ comma :: rest)
    (hfirst : first ≠ []) (hcomma : comma ∉ first) : clientIP r = trimSpace first := by
  have hindex : r.xForwardedFor.idxOf? comma = some first.length := by
    rw [hr, idxOf?_append hcomma]
  obtain ⟨n, hn⟩ := Nat.exists_eq_succ_of_ne_zero (mt List.length_eq_zero_iff.mp hfirst)
  have hsome : r.xForwardedFor ≠ [] := by simp [hr]
  simp only [clientIP, if_pos hsome, hindex, hn]
  rw [hr, List.take_left' hn]

theorem publishRequest_publishPath {r : HttpRequest} {ch token : Bytes}
    (hr : r.target = Publisher.publishPath ch token) :
    publishRequest r = ⟨clientIP r, ch, token⟩ := by
  rw [publishRequest, urlQuery, hr, Publisher.requestQuery_publishPath]
  rfl

end StreamMix.Relay
