import Mathlib.Data.List.TakeWhile
import StreamMix.Publisher.Cli

/-! The URL of the relay that `WebSocketClient::Start` takes apart. -/

namespace StreamMix.Publisher

open Wire

inductive StoiError
  | invalidArgument | outOfRange
  deriving DecidableEq

/-- The number that decimal digits stand for. -/
def number (digits : Bytes) : Nat := digits.foldl (fun n d => n * 10 + (d.toNat - 0x30)) 0

/-- The digits that `std::strtol` reads, after spaces and a sign. -/
def signed (s : Bytes) : Bool × Bytes :=
  match s.dropWhile isSpace with
  | [] => (false, [])
  | c :: t =>
    if c = 0x2d then (true, t.takeWhile isDigit)
    else if c = 0x2b then (false, t.takeWhile isDigit)
    else (false, (c :: t).takeWhile isDigit)

def stoi (s : Bytes) : Except StoiError Int :=
  let (negative, digits) := signed s
  if digits = [] then .error .invalidArgument
  else
    let n : Int := if negative then -number digits else number digits
    if n < -2 ^ 31 ∨ 2 ^ 31 ≤ n then .error .outOfRange else .ok n

/-- What `Start` leaves: an error string, an exception, or the members `tls`, `host` and `port`
of the connection that is under way. -/
inductive Started
  | error (message : Bytes)
  | throws (e : StoiError)
  | connecting (tls : Bool) (host : Bytes) (port : Int)
  deriving DecidableEq

def defaultPort (tls : Bool) : Int := if tls then 443 else 80

/-- The branch for one scheme: `rest.find(':')` and what stands on its sides. -/
def hostPort (tls : Bool) (rest : Bytes) : Except StoiError (Bytes × Int) :=
  match cut 0x3a rest with
  | none => .ok (rest, defaultPort tls)
  | some (host, port) => (stoi port).map (fun n => (host, n))

def scheme (tls : Bool) : Bytes := if tls then ascii "wss://" else ascii "ws://"

/-- `context` is whether `lws_create_context` makes one. -/
def startBranch (tls : Bool) (rest : Bytes) (context : Bool) : Started :=
  match hostPort tls rest with
  | .error e => .throws e
  | .ok (host, port) =>
    if context then .connecting tls host port else .error (ascii "lws_create_context failed")

def start (url : Bytes) (context : Bool) : Started :=
  if (scheme true).isPrefixOf url then startBranch true (url.drop 6) context
  else if (scheme false).isPrefixOf url then startBranch false (url.drop 5) context
  else .error (ascii "url must start with ws:// or wss://")

/-! The URLs `ws[s]://host[:port]`. -/

/-- The characters of a registered name or an IPv4 address. -/
def isNameChar (c : UInt8) : Bool :=
  (0x61 ≤ c && c ≤ 0x7a) || (0x41 ≤ c && c ≤ 0x5a) || isDigit c ||
    (ascii "-._~!$&'()*+,;=%").contains c

def isAddressChar (c : UInt8) : Bool :=
  isDigit c || (0x61 ≤ c && c ≤ 0x66) || (0x41 ≤ c && c ≤ 0x46) || c == 0x3a || c == 0x2e

def IsName (host : Bytes) : Prop := host ≠ [] ∧ host.all isNameChar = true

instance : DecidablePred IsName := fun _ => inferInstanceAs (Decidable (_ ∧ _))

/-- The text of a host: a name stands for itself, an IPv6 address stands in brackets. -/
inductive HostText : Bytes → Bytes → Prop
  | name : IsName host → HostText host host
  | address : 2 ≤ addr.count 0x3a → addr.all isAddressChar = true →
    HostText (0x5b :: addr ++ [0x5d]) addr

def IsPort (digits : Bytes) : Prop :=
  digits ≠ [] ∧ digits.all isDigit = true ∧ 1 ≤ number digits ∧ number digits ≤ 65535

instance : DecidablePred IsPort := fun _ => inferInstanceAs (Decidable (_ ∧ _ ∧ _ ∧ _))

/-- The flag, host and port that a URL denotes. -/
inductive Denotes : Bytes → Bool → Bytes → Int → Prop
  | noPort : HostText text host → Denotes (scheme tls ++ text) tls host (defaultPort tls)
  | withPort : HostText text host → IsPort digits →
    Denotes (scheme tls ++ text ++ 0x3a :: digits) tls host (number digits)

/-- What `Start` promises. -/
def Reports (url : Bytes) : Started → Prop
  | .error message => message ≠ []
  | .throws _ => False
  | .connecting tls host port =>
    Denotes url tls host port ∧ host ≠ [] ∧ 1 ≤ port ∧ port ≤ 65535

theorem HostText.ne_nil (h : HostText text host) : host ≠ [] := by
  cases h with
  | name h => exact h.1
  | address colons _ =>
    rintro rfl
    simp at colons

theorem Denotes.bounds (h : Denotes url tls host port) :
    host ≠ [] ∧ 1 ≤ port ∧ port ≤ 65535 := by
  cases h with
  | noPort h => exact ⟨h.ne_nil, by cases tls <;> decide, by cases tls <;> decide⟩
  | withPort h digits =>
    have low := digits.2.2.1
    have high := digits.2.2.2
    exact ⟨h.ne_nil, by omega, by omega⟩

/-- Only a name is its own text, and only a name has no colon. -/
theorem HostText.name_of_not_mem (h : HostText text host) (hcolon : 0x3a ∉ host) :
    text = host ∧ IsName host := by
  cases h with
  | name h => exact ⟨rfl, h⟩
  | address colons _ =>
    rw [List.count_eq_zero_of_not_mem hcolon] at colons
    cases colons

/-! What `std::stoi` reads. -/

theorem isSpace_of_isDigit (h : isDigit c = true) : isSpace c = false := by
  simp only [isDigit, isSpace, Bool.and_eq_true, decide_eq_true_eq, Bool.or_eq_false_iff,
    beq_eq_false_iff_ne, Bool.and_eq_false_iff, decide_eq_false_iff_not, ne_eq,
    UInt8.le_iff_toNat_le, ← UInt8.toNat_inj] at h ⊢
  simp only [UInt8.reduceToNat] at h ⊢
  omega

theorem signed_digits (h : digits.all isDigit = true) : signed digits = (false, digits) := by
  cases digits with
  | nil => rfl
  | cons d ds =>
    have hd : isDigit d = true := (Bool.and_eq_true _ _ ▸ h).1
    have hminus : d ≠ 0x2d := by rintro rfl; cases hd
    have hplus : d ≠ 0x2b := by rintro rfl; cases hd
    have hrun : (d :: ds).takeWhile isDigit = d :: ds :=
      List.takeWhile_eq_self_iff.mpr (List.all_eq_true.mp h)
    rw [signed, List.dropWhile_cons_of_neg (by simp [isSpace_of_isDigit hd])]
    simp only [hminus, hplus, if_false, hrun]

/-- The texts that `std::stoi` reads without throwing: digits after spaces and a sign, whose
number fits an `int`. -/
def Fits (s : Bytes) : Prop :=
  (signed s).2 ≠ [] ∧ number (signed s).2 < 2 ^ 31 + (if (signed s).1 then 1 else 0)

instance : DecidablePred Fits := fun _ => inferInstanceAs (Decidable (_ ∧ _))

theorem stoi_of_fits (h : Fits s) :
    stoi s = .ok (if (signed s).1 then -number (signed s).2 else number (signed s).2) := by
  have hrange := h.2
  rw [stoi]
  simp only [h.1, if_false]
  cases hneg : (signed s).1 with
  | false =>
    simp only [hneg, Bool.false_eq_true, if_false] at hrange ⊢
    rw [if_neg (by omega)]
  | true =>
    simp only [hneg, if_true] at hrange ⊢
    rw [if_neg (by omega)]

theorem stoi_of_not_fits (h : ¬ Fits s) : ∃ e, stoi s = .error e := by
  rw [stoi]
  by_cases hne : (signed s).2 = []
  · exact ⟨.invalidArgument, by simp [hne]⟩
  · have hrange := mt (And.intro hne) h
    simp only [hne, if_false]
    cases hneg : (signed s).1 with
    | false =>
      simp only [hneg, Bool.false_eq_true, if_false] at hrange ⊢
      exact ⟨.outOfRange, if_pos (by omega)⟩
    | true =>
      simp only [hneg, if_true] at hrange ⊢
      exact ⟨.outOfRange, if_pos (by omega)⟩

theorem IsPort.fits (h : IsPort digits) : Fits digits := by
  rw [Fits, signed_digits h.2.1]
  have high := h.2.2.2
  exact ⟨h.1, by simp only [Bool.false_eq_true, if_false]; omega⟩

theorem stoi_of_isPort (h : IsPort digits) : stoi digits = .ok (number digits) := by
  rw [stoi_of_fits h.fits, signed_digits h.2.1]
  rfl

/-! The two schemes. -/

theorem scheme_inj (h : scheme tls ++ rest = scheme tls' ++ rest') : tls = tls' ∧ rest = rest' := by
  cases tls <;> cases tls' <;> simp_all [scheme, ascii]

theorem start_scheme (tls : Bool) (rest : Bytes) (context : Bool) :
    start (scheme tls ++ rest) context = startBranch tls rest context := by
  cases tls with
  | true => simp [start, scheme, ascii]
  | false => simp [start, scheme, ascii]

theorem start_other (h : ∀ tls rest, url ≠ scheme tls ++ rest) (context : Bool) :
    start url context = .error (ascii "url must start with ws:// or wss://") := by
  have hnone (tls : Bool) : ¬ (scheme tls).isPrefixOf url = true := by
    intro hp
    obtain ⟨rest, hrest⟩ := List.isPrefixOf_iff_prefix.mp hp
    exact h tls rest hrest.symm
  rw [start, if_neg (hnone true), if_neg (hnone false)]

/-- What follows the scheme is read off the URL. -/
theorem denotes_iff : Denotes (scheme tls ++ rest) tls host port ↔
    HostText rest host ∧ port = defaultPort tls ∨
      ∃ text digits, rest = text ++ 0x3a :: digits ∧ HostText text host ∧ IsPort digits ∧
        port = number digits := by
  constructor
  · intro h
    generalize hurl : scheme tls ++ rest = url at h
    cases h with
    | noPort h =>
      cases (scheme_inj hurl).2
      exact .inl ⟨h, rfl⟩
    | withPort h digits =>
      rw [List.append_assoc] at hurl
      exact .inr ⟨_, _, (scheme_inj hurl).2, h, digits, rfl⟩
  · rintro (⟨h, rfl⟩ | ⟨text, digits, rfl, h, hport, rfl⟩)
    · exact .noPort h
    · rw [← List.append_assoc]
      exact .withPort h hport

/-- `name[:port]`: a name and, after the first colon, a port. -/
def Plain (rest : Bytes) : Prop :=
  match cut 0x3a rest with
  | none => IsName rest
  | some (host, port) => IsName host ∧ IsPort port

/-- Nothing after the first colon, or a text that fits an `int`. -/
def PortFits (rest : Bytes) : Prop :=
  match cut 0x3a rest with
  | none => True
  | some (_, port) => Fits port

/-- The code splits at the first colon, so no host of its has one. -/
theorem denotes_first_iff (hcolon : 0x3a ∉ host) :
    Denotes (scheme tls ++ (host ++ 0x3a :: text)) tls host port ↔
      IsName host ∧ IsPort text ∧ port = number text := by
  rw [denotes_iff]
  constructor
  · rintro (⟨h, rfl⟩ | ⟨text', digits, hrest, h, hport, rfl⟩)
    · have hlong := congrArg List.length (h.name_of_not_mem hcolon).1
      simp at hlong
    · obtain ⟨rfl, hname⟩ := h.name_of_not_mem hcolon
      cases List.append_cancel_left hrest
      exact ⟨hname, hport, rfl⟩
  · rintro ⟨hname, hport, rfl⟩
    exact .inr ⟨host, text, rfl, .name hname, hport, rfl⟩

theorem denotes_whole_iff (hcolon : 0x3a ∉ host) :
    Denotes (scheme tls ++ host) tls host port ↔ IsName host ∧ port = defaultPort tls := by
  rw [denotes_iff]
  constructor
  · rintro (⟨h, rfl⟩ | ⟨text, digits, rfl, _⟩)
    · exact ⟨(h.name_of_not_mem hcolon).2, rfl⟩
    · simp at hcolon
  · rintro ⟨hname, rfl⟩
    exact .inl ⟨.name hname, rfl⟩

theorem reports_connecting_iff :
    Reports url (.connecting tls host port) ↔ Denotes url tls host port :=
  ⟨fun h => h.1, fun h => ⟨h, h.bounds⟩⟩

theorem reports_context :
    Reports url (startBranch tls rest true) ↔
      ∃ host port, hostPort tls rest = .ok (host, port) ∧ Denotes url tls host port := by
  rw [startBranch]
  cases h : hostPort tls rest with
  | error e => simp [Reports]
  | ok p =>
    obtain ⟨host, port⟩ := p
    simp [reports_connecting_iff]

theorem reports_no_context :
    Reports url (startBranch tls rest false) ↔ PortFits rest := by
  rw [startBranch, hostPort, PortFits]
  cases h : cut 0x3a rest with
  | none => simp [Reports, ascii]
  | some p =>
    by_cases hfits : Fits p.2
    · simp [stoi_of_fits hfits, hfits, Except.map, Reports, ascii]
    · obtain ⟨e, he⟩ := stoi_of_not_fits hfits
      simp [he, hfits, Except.map, Reports]

theorem reports_branch_iff :
    Reports (scheme tls ++ rest) (startBranch tls rest true) ↔ Plain rest := by
  rw [reports_context, hostPort, Plain]
  cases h : cut 0x3a rest with
  | none =>
    have hcolon := cut_eq_none.mp h
    simp [denotes_whole_iff hcolon]
  | some p =>
    obtain ⟨rfl, hcolon⟩ := cut_eq_some.mp h
    constructor
    · rintro ⟨host, port, hread, hdenotes⟩
      have hhost : host = p.1 := by
        cases hs : stoi p.2 <;> simp_all [Except.map]
      subst hhost
      have hfirst := (denotes_first_iff hcolon).mp hdenotes
      exact ⟨hfirst.1, hfirst.2.1⟩
    · rintro ⟨hname, hport⟩
      refine ⟨p.1, number p.2, by simp [stoi_of_isPort hport, Except.map], ?_⟩
      exact (denotes_first_iff hcolon).mpr ⟨hname, hport, rfl⟩

/-- When `Start` keeps its promise. -/
def Usable (url : Bytes) (context : Bool) : Prop :=
  ∀ tls rest, url = scheme tls ++ rest → if context then Plain rest else PortFits rest

theorem start_reports_iff (url : Bytes) (context : Bool) :
    Reports url (start url context) ↔ Usable url context := by
  by_cases h : ∃ tls rest, url = scheme tls ++ rest
  · obtain ⟨tls, rest, rfl⟩ := h
    have husable : Usable (scheme tls ++ rest) context ↔
        if context then Plain rest else PortFits rest := by
      constructor
      · exact fun h => h tls rest rfl
      · intro h tls' rest' heq
        cases (scheme_inj heq).2
        exact h
    rw [husable, start_scheme]
    cases context with
    | true => exact reports_branch_iff
    | false => exact reports_no_context
  · have hother : ∀ tls rest, url ≠ scheme tls ++ rest := fun tls rest heq => h ⟨tls, rest, heq⟩
    rw [start_other hother]
    constructor
    · exact fun _ tls rest heq => absurd heq (hother tls rest)
    · intro _
      simp [Reports, ascii]

/-- An empty port, a number past `int`, a port past 65535, no host, an IPv6 host. -/
theorem start_unreported :
    start (ascii "ws://relay:") true = .throws .invalidArgument ∧
      ¬ Reports (ascii "ws://relay:") (start (ascii "ws://relay:") true) ∧
      start (ascii "ws://relay:99999999999") true = .throws .outOfRange ∧
      start (ascii "ws://relay:70000") true = .connecting false (ascii "relay") 70000 ∧
      start (ascii "ws://:80") true = .connecting false [] 80 ∧
      Denotes (ascii "wss://[::1]:8443") true (ascii "::1") 8443 ∧
      start (ascii "wss://[::1]:8443") true = .throws .invalidArgument := by
  have hempty : start (ascii "ws://relay:") true = .throws .invalidArgument := by decide
  have hipv6 : Denotes (ascii "wss://[::1]:8443") true (ascii "::1") 8443 := by
    have haddr : HostText (0x5b :: ascii "::1" ++ [0x5d]) (ascii "::1") :=
      .address (by decide) (by decide)
    have hport : IsPort (ascii "8443") := by decide
    have hnumber : number (ascii "8443") = 8443 := by decide
    have htext : scheme true ++ (0x5b :: ascii "::1" ++ [0x5d]) ++ 0x3a :: ascii "8443" =
        ascii "wss://[::1]:8443" := by decide
    rw [← htext, show (8443 : Int) = number (ascii "8443") by rw [hnumber]; rfl]
    exact .withPort haddr hport
  refine ⟨hempty, ?_, ?_, ?_, ?_, hipv6, ?_⟩
  · rw [hempty]
    exact id
  all_goals decide

end StreamMix.Publisher
