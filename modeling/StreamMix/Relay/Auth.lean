import Mathlib.Logic.Equiv.Basic
import StreamMix.Lib.Base64
import StreamMix.Lib.GoTime
import StreamMix.Relay.Registry
import StreamMix.Wire.Codec

/-! Publisher tokens.  Strings are the byte strings of Go. -/

namespace StreamMix.Relay

open GoTime (Time)
open Wire (Bytes)

inductive AuthError
  | badToken | badChannelID
  deriving DecidableEq

def tokenSep : UInt8 := 0x7c

/-- A byte beyond ASCII is in none of the classes of the expression for channel ids, whatever
character it belongs to. -/
def channelString (channelID : Bytes) : String :=
  String.ofList (channelID.map (fun b => Char.ofNat b.toNat))

/-- The bytes under the signature. -/
def signedBytes (channelID : Bytes) (exp : Int64) : Bytes :=
  channelID ++ [0] ++ Wire.Go.putUint64 exp.toUInt64

section

-- HMAC-SHA256 of a key and a message
variable (hmac : Bytes → Bytes → Bytes)

def sign (secret channelID : Bytes) (exp : Int64) : Bytes := hmac secret (signedBytes channelID exp)

def mintToken (secret channelID : Bytes) (ttl : Int64) (now : Time) : Except AuthError Bytes :=
  if !validateChannelID (channelString channelID) then .error .badChannelID
  else
    let exp := (now.add ttl).unix
    let mac := sign hmac secret channelID exp
    .ok ([tokenSep].intercalate [Base64.encode channelID,
      Base64.encode (Wire.Go.putUint64 exp.toUInt64), Base64.encode mac])

def verifyToken (secret channelID token : Bytes) (now : Time) : Except AuthError Unit :=
  if token.length = 0 ∨ token.length > 512 then .error .badToken
  else
    match token.splitOn tokenSep with
    | [chanPart, expPart, macPart] =>
      match Base64.decode chanPart, Base64.decode expPart, Base64.decode macPart with
      | some tokChan, some expBytes, some mac =>
        if expBytes.length ≠ 8 then .error .badToken
        else if mac.length ≠ 32 then .error .badToken
        else if tokChan ≠ channelID then .error .badToken
        else
          let exp := (Wire.Go.uint64 expBytes).toInt64
          if exp ≤ now.unix then .error .badToken
          else if mac ≠ sign hmac secret channelID exp then .error .badToken
          else .ok ()
      | _, _, _ => .error .badToken
    | _ => .error .badToken

end

theorem putUint64_uint64 (bs : Bytes) (h : bs.length = 8) :
    Wire.Go.putUint64 (Wire.Go.uint64 bs) = bs := by
  rw [Wire.Go.putUint64_eq, Wire.Cpp.writeU64BE_eq, Wire.Go.toNat_uint64 bs h, ← h]
  exact BigEndian.bytes_value bs

theorem uint64_putUint64 (v : UInt64) : Wire.Go.uint64 (Wire.Go.putUint64 v) = v := by
  apply UInt64.toNat_inj.mp
  rw [Wire.Go.toNat_uint64 _ (by rfl), Wire.Go.putUint64_eq, Wire.Cpp.writeU64BE_eq]
  exact BigEndian.value_bytes_of_lt v.toNat_lt

/-- The expiry has a fixed width at the end, so the signed bytes determine both fields. -/
theorem signedBytes_injective (h : signedBytes ch exp = signedBytes ch' exp') :
    ch = ch' ∧ exp = exp' := by
  have hfields := List.append_inj' h
    ((Wire.Go.length_putUint64 _).trans (Wire.Go.length_putUint64 _).symm)
  have hch := List.append_inj' hfields.1 rfl
  have hexp := congrArg (fun bs => (Wire.Go.uint64 bs).toInt64) hfields.2
  simp only [uint64_putUint64, Int64.toInt64_toUInt64] at hexp
  exact ⟨hch.1, hexp⟩

/-- The part of a token that the checks before the comparisons leave. -/
theorem verifyToken_ok (h : verifyToken hmac secret ch token now = .ok ()) :
    ∃ chanPart expPart macPart, token.splitOn tokenSep = [chanPart, expPart, macPart] ∧
      ∃ exp, Base64.decode chanPart = some ch ∧
        Base64.decode expPart = some (Wire.Go.putUint64 exp.toUInt64) ∧
        Base64.decode macPart = some (sign hmac secret ch exp) ∧ now.unix < exp := by
  simp only [verifyToken] at h
  split_ifs at h with hlen
  split at h
  · next chanPart expPart macPart hsplit =>
    split at h
    · next tokChan expBytes mac hchan hexp hmac =>
      split_ifs at h with h8 h32 hch hnow hmacEq
      refine ⟨_, _, _, hsplit, (Wire.Go.uint64 expBytes).toInt64, ?_, ?_, ?_, ?_⟩
      · rw [hchan, not_not.mp hch]
      · rw [hexp, UInt64.toUInt64_toInt64, putUint64_uint64 _ (not_not.mp h8)]
      · rw [hmac, not_not.mp hmacEq]
      · exact Int64.not_le.mp hnow
    · cases h
  · cases h

/-- Whoever holds an accepted token holds the MAC of its channel and of its expiry, which is
still to come; and a MAC is good for one channel and one expiry. -/
theorem token_authentic (hinj : ∀ secret, Function.Injective (hmac secret)) :
    (∀ secret ch token now, verifyToken hmac secret ch token now = .ok () →
      ∃ chanPart expPart macPart exp, token.splitOn tokenSep = [chanPart, expPart, macPart] ∧
        Base64.decode expPart = some (Wire.Go.putUint64 exp.toUInt64) ∧
        Base64.decode macPart =
          some (hmac secret (ch ++ [0] ++ Wire.Go.putUint64 exp.toUInt64)) ∧
        now.unix < exp) ∧
      (∀ ch exp ch' exp', signedBytes ch exp = signedBytes ch' exp' → ch = ch' ∧ exp = exp') ∧
      (∀ secret ch exp chanPart expPart macPart token ch' now,
        token.splitOn tokenSep = [chanPart, expPart, macPart] →
        Base64.decode macPart = some (sign hmac secret ch exp) →
        verifyToken hmac secret ch' token now = .ok () → ch' = ch ∧ now.unix < exp) := by
  refine ⟨?_, fun _ _ _ _ h => signedBytes_injective h, ?_⟩
  · intro secret ch token now h
    obtain ⟨chanPart, expPart, macPart, hsplit, exp, _, hexp, hmac, hnow⟩ := verifyToken_ok h
    exact ⟨chanPart, expPart, macPart, exp, hsplit, hexp, hmac, hnow⟩
  · intro secret ch exp chanPart expPart macPart token ch' now hsplit hissued h
    obtain ⟨_, _, _, hsplit', exp', _, _, hmac', hnow⟩ := verifyToken_ok h
    rw [hsplit] at hsplit'
    cases hsplit'
    have hmac := Option.some.inj (hissued.symm.trans hmac')
    obtain ⟨hch, hexp⟩ := signedBytes_injective (hinj secret hmac)
    exact ⟨hch.symm, hexp ▸ hnow⟩

theorem length_of_validateChannelID (h : validateChannelID (channelString ch) = true) :
    ch.length ≤ 71 := by
  have hname (name : List Char) (h : isChannelName name = true) : name.length ≤ 64 := by
    simp only [isChannelName, Bool.and_eq_true, decide_eq_true_eq] at h
    exact h.1.2
  have hlen : (channelString ch).toList.length = ch.length := by
    rw [channelString, String.toList_ofList, List.length_map]
  simp only [validateChannelID] at h
  rw [← hlen]
  split at h
  · next name heq =>
    have := hname name h
    rw [heq]
    simp only [List.length_cons]
    omega
  · next name heq =>
    have := hname name h
    rw [heq]
    simp only [List.length_cons]
    omega
  · cases h

section

variable (hmac : Bytes → Bytes → Bytes)

/-- What `MintToken` joins. -/
def tokenParts (secret ch : Bytes) (exp : Int64) : List Bytes :=
  [Base64.encode ch, Base64.encode (Wire.Go.putUint64 exp.toUInt64),
    Base64.encode (sign hmac secret ch exp)]

theorem splitOn_tokenParts (secret ch : Bytes) (exp : Int64) :
    ([tokenSep].intercalate (tokenParts hmac secret ch exp)).splitOn tokenSep =
      tokenParts hmac secret ch exp := by
  have hsep (bs : Bytes) : tokenSep ∉ Base64.encode bs := Base64.not_mem_encode bs rfl
  apply List.splitOn_intercalate
  · simp [tokenParts, hsep]
  · simp [tokenParts]

/-- Channel ids have at most 71 bytes, so the three parts stay well below the limit. -/
theorem length_tokenParts (hsize : ∀ secret msg, (hmac secret msg).length = 32)
    (secret : Bytes) (exp : Int64) (hch : ch.length ≤ 71) :
    0 < ([tokenSep].intercalate (tokenParts hmac secret ch exp)).length ∧
      ([tokenSep].intercalate (tokenParts hmac secret ch exp)).length ≤ 512 := by
  have hexp := Wire.Go.length_putUint64 exp.toUInt64
  have hmac : (sign hmac secret ch exp).length = 32 := hsize _ _
  simp only [tokenParts, List.intercalate_cons_cons, List.intercalate_singleton, List.length_append,
    Base64.length_encode, hexp, hmac, List.length_singleton]
  omega

/-- What `VerifyToken` makes of the parts. -/
theorem verifyToken_tokenParts (hsize : ∀ secret msg, (hmac secret msg).length = 32)
    (hch : ch.length ≤ 71) :
    verifyToken hmac secret ch' ([tokenSep].intercalate (tokenParts hmac secret ch exp)) now =
      .ok () ↔ ch' = ch ∧ now.unix < exp := by
  have hlen := length_tokenParts hmac hsize secret exp hch
  have hexp := Wire.Go.length_putUint64 exp.toUInt64
  have hmac : (sign hmac secret ch exp).length = 32 := hsize _ _
  rw [verifyToken, if_neg (by omega), splitOn_tokenParts]
  simp only [tokenParts, Base64.decode_encode, hexp, hmac, uint64_putUint64,
    Int64.toInt64_toUInt64, not_true, ne_eq, if_false]
  split_ifs with heq hle hmac
  · simp [Int64.not_lt.mpr hle]
  · simp [heq, Int64.not_le.mp hle]
  · rw [heq] at hmac
    exact absurd rfl hmac
  · simp [Ne.symm heq]

end

/-- A token opens its own channel until its expiry, the Unix second that the minting time and
the time to live add up to. -/
theorem verifyToken_mintToken_iff (hmac : Bytes → Bytes → Bytes)
    (hsize : ∀ secret msg, (hmac secret msg).length = 32)
    (secret ch : Bytes) (hch : validateChannelID (channelString ch) = true) (ttl : Int64)
    (t0 : Time) :
    ∃ token, mintToken hmac secret ch ttl t0 = .ok token ∧
      (token.splitOn tokenSep).length = 3 ∧ token.length ≤ 512 ∧
      (∀ ch' t1, verifyToken hmac secret ch' token t1 = .ok () ↔
        ch' = ch ∧ t1.unix < (t0.add ttl).unix) ∧
      (t0.Ordinary → (t0.add ttl).unix.toInt = (t0.instant + ttl.toInt) / GoTime.nanos) := by
  have hshort := length_of_validateChannelID hch
  refine ⟨[tokenSep].intercalate (tokenParts hmac secret ch (t0.add ttl).unix), ?_, ?_, ?_, ?_,
    t0.unix_add ttl⟩
  · simp only [mintToken, hch]
    rfl
  · rw [splitOn_tokenParts]
    rfl
  · exact (length_tokenParts hmac hsize secret _ hshort).2
  · intro ch' t1
    exact verifyToken_tokenParts hmac hsize hshort

/-- HMAC-SHA256 of the bytes signed for `kick:a` and one minute of 1970 under the key `s`. -/
def minuteMac : Bytes :=
  [0xce, 0x8d, 0x4e, 0x77, 0xb8, 0x02, 0x72, 0xcd, 0xe8, 0x7d, 0xf1, 0x3e, 0x3f, 0x93, 0xb7, 0x32,
    0xb6, 0x81, 0x33, 0x8f, 0xa1, 0x58, 0xb7, 0xd1, 0xf7, 0x0e, 0x65, 0xe5, 0x9e, 0x43, 0x0a, 0x62]

def kickA : Bytes := [0x6b, 0x69, 0x63, 0x6b, 0x3a, 0x61]

def epoch : Time := ⟨62135596800, 0, by decide, by decide⟩

/-- The minted string is `a2ljazph|AAAAAAAAADw|zo1Od7gCcs3offE-P5O3MraBM4-hWLfR9w5l5Z5DCmI`. -/
theorem verifyToken_minute : ∃ token,
    mintToken (fun _ _ => minuteMac) [0x73] kickA 60000000000 epoch = .ok token ∧
      token.length = 64 ∧
      verifyToken (fun _ _ => minuteMac) [0x73] kickA token epoch = .ok () := by
  obtain ⟨token, hmint, _, _, hverify, _⟩ := verifyToken_mintToken_iff (fun _ _ => minuteMac)
    (fun _ _ => rfl) [0x73] kickA (by decide) 60000000000 epoch
  refine ⟨token, hmint, ?_, (hverify kickA epoch).mpr ⟨rfl, by decide⟩⟩
  cases hmint
  decide

/-- An injective function that agrees with HMAC-SHA256 on the bytes of that token. -/
def minuteHmac (_ msg : Bytes) : Bytes := Equiv.swap (signedBytes kickA 60) minuteMac msg

def minuteToken : Bytes := [tokenSep].intercalate (tokenParts minuteHmac [0x73] kickA 60)

theorem minuteToken_authentic :
    (∃ chanPart expPart macPart exp, minuteToken.splitOn tokenSep = [chanPart, expPart, macPart] ∧
      Base64.decode expPart = some (Wire.Go.putUint64 exp.toUInt64) ∧
      Base64.decode macPart =
        some (minuteHmac [0x73] (kickA ++ [0] ++ Wire.Go.putUint64 exp.toUInt64)) ∧
      epoch.unix < exp) ∧ epoch.unix < 60 := by
  have hinj : ∀ secret, Function.Injective (minuteHmac secret) :=
    fun _ => (Equiv.swap (signedBytes kickA 60) minuteMac).injective
  have haccept : verifyToken minuteHmac [0x73] kickA minuteToken epoch = .ok () := by
    decide
  have hsplit : minuteToken.splitOn tokenSep = tokenParts minuteHmac [0x73] kickA 60 :=
    splitOn_tokenParts minuteHmac [0x73] kickA 60
  obtain ⟨hmac, _, hedited⟩ := token_authentic hinj
  exact ⟨hmac [0x73] kickA minuteToken epoch haccept,
    (hedited _ _ _ _ _ _ _ _ _ hsplit (Base64.decode_encode _) haccept).2⟩

end StreamMix.Relay
