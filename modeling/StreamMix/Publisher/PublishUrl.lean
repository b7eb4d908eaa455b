import StreamMix.Lib.UrlQuery
import StreamMix.Publisher.Cli

/-! The path that the publisher connects to and the query that `handlePublish` reads. -/

namespace StreamMix.Publisher

open UrlQuery
open Wire

def hex : Bytes := ascii "0123456789ABCDEF"

/-- Channel ids contain `:`. -/
def unreserved (c : UInt8) : Bool :=
  (0x61 ≤ c && c ≤ 0x7a) || (0x41 ≤ c && c ≤ 0x5a) || (0x30 ≤ c && c ≤ 0x39) ||
    c == 0x2d || c == 0x5f || c == 0x2e || c == 0x7e || c == 0x3a

def urlEncodeByte (c : UInt8) : Bytes :=
  if unreserved c then [c]
  else [0x25, hex.getD (c >>> 4).toNat 0, hex.getD (c &&& 0xf).toNat 0]

def urlEncode (s : Bytes) : Bytes := s.flatMap urlEncodeByte

def publishPath (channel token : Bytes) : Bytes :=
  ascii "/publish?channel=" ++ urlEncode channel ++ ascii "&token=" ++ urlEncode token

/-- `r.URL.Query()` for the request target of a publisher. -/
def requestQuery (target : Bytes) : List (Bytes × Bytes) × Bool := parseQuery (UrlQuery.cut 0x3f target).2

/-- The characters without a meaning of their own, `:`, and the escape. -/
def urlSafe (c : UInt8) : Bool := unreserved c || c == 0x25

theorem forall_byte (p : UInt8 → Bool) (h : (List.range 256).all (fun n => p (UInt8.ofNat n)) = true)
    (c : UInt8) : p c = true := by
  have hc := List.all_eq_true.mp h c.toNat (List.mem_range.mpr c.toNat_lt)
  rwa [UInt8.ofNat_toNat] at hc

/-- Every byte stands for itself or is escaped. -/
theorem urlEncodeByte_cases (c : UInt8) :
    urlEncodeByte c = [c] ∧ unreserved c = true ∨
      ∃ a b, urlEncodeByte c = [0x25, a, b] ∧ ishex a = true ∧ ishex b = true ∧
        (unhex a <<< 4 ||| unhex b) = c := by
  cases hc : unreserved c with
  | true => exact .inl ⟨if_pos hc, rfl⟩
  | false =>
    refine .inr ⟨_, _, if_neg (by simp [hc]), ?_⟩
    have hall := forall_byte (fun c => ishex (hex.getD (c >>> 4).toNat 0) &&
      ishex (hex.getD (c &&& 0xf).toNat 0) &&
      (unhex (hex.getD (c >>> 4).toNat 0) <<< 4 ||| unhex (hex.getD (c &&& 0xf).toNat 0)) == c)
      (by decide +kernel) c
    simpa [and_assoc] using hall

theorem unreserved_of_ishex (h : ishex c = true) : unreserved c = true := by
  have hall := forall_byte (fun c => !ishex c || unreserved c) (by decide +kernel) c
  rwa [h, Bool.not_true, Bool.false_or] at hall

theorem urlSafe_urlEncode (s : Bytes) : ∀ c ∈ urlEncode s, urlSafe c = true := by
  intro c hc
  obtain ⟨b, -, hc⟩ := List.mem_flatMap.mp hc
  have hhex (d : UInt8) (hd : ishex d = true) : urlSafe d = true := by
    rw [urlSafe, unreserved_of_ishex hd, Bool.true_or]
  rcases urlEncodeByte_cases b with ⟨heq, hb⟩ | ⟨x, y, heq, hx, hy, -⟩ <;> rw [heq] at hc
  · rw [List.mem_singleton.mp hc, urlSafe, hb, Bool.true_or]
  · simp only [List.mem_cons, List.not_mem_nil, or_false] at hc
    rcases hc with rfl | rfl | rfl
    · rfl
    · exact hhex _ hx
    · exact hhex _ hy

/-- None of the characters that a query gives a meaning to. -/
theorem not_mem_urlEncode (s : Bytes) (h : urlSafe c = false) : c ∉ urlEncode s := by
  intro hc
  rw [urlSafe_urlEncode s c hc] at h
  cases h

theorem ne_of_unreserved (hc : unreserved c = true) : c ≠ 0x25 ∧ c ≠ 0x2b := by
  have hall := forall_byte (fun c => !unreserved c || (c != 0x25 && c != 0x2b))
    (by decide +kernel) c
  simpa [hc] using hall

theorem queryUnescape_urlEncode (s : Bytes) : queryUnescape (urlEncode s) = some s := by
  induction s with
  | nil => rfl
  | cons c s ih =>
    have hcons : urlEncode (c :: s) = urlEncodeByte c ++ urlEncode s := List.flatMap_cons ..
    rw [hcons]
    rcases urlEncodeByte_cases c with ⟨heq, hc⟩ | ⟨a, b, heq, ha, hb, hc⟩ <;> rw [heq]
    · obtain ⟨hpercent, hplus⟩ := ne_of_unreserved hc
      rw [List.singleton_append, queryUnescape_cons hpercent hplus, ih]
      rfl
    · show queryUnescape (0x25 :: a :: b :: urlEncode s) = some (c :: s)
      rw [queryUnescape_escape ha hb, ih, hc]
      rfl

theorem field_urlEncode (h : 0x26 ∉ name ∧ 0x3b ∉ name ∧ 0x3d ∉ name) (s : Bytes) :
    Field name (urlEncode s) :=
  ⟨h, not_mem_urlEncode s (by decide), not_mem_urlEncode s (by decide)⟩

theorem publishPath_eq (channel token : Bytes) :
    publishPath channel token = ascii "/publish" ++ 0x3f ::
      (ascii "channel" ++ 0x3d :: urlEncode channel ++
        0x26 :: (ascii "token" ++ 0x3d :: urlEncode token)) := by
  have hchannel : ascii "/publish?channel=" =
    ascii "/publish" ++ 0x3f :: (ascii "channel" ++ [0x3d]) := by decide
  have htoken : ascii "&token=" = 0x26 :: (ascii "token" ++ [0x3d]) := by decide
  rw [publishPath, hchannel, htoken]
  simp

theorem requestQuery_publishPath (channel token : Bytes) :
    requestQuery (publishPath channel token) =
      ([(ascii "channel", channel), (ascii "token", token)], false) := by
  rw [requestQuery, publishPath_eq, cut_append (by decide),
    parseQuery_cons (field_urlEncode (by decide) channel) _ (n := ascii "channel")
      (by decide +kernel) (queryUnescape_urlEncode channel),
    parseQuery_last (field_urlEncode (by decide +kernel) token) (n := ascii "token")
      (by decide) (queryUnescape_urlEncode token)]

/-- The relay reads the channel and the token that the publisher was given, and nothing else. -/
theorem publishPath_query (channel token : Bytes) :
    requestQuery (publishPath channel token) =
        ([(ascii "channel", channel), (ascii "token", token)], false) ∧
      get (requestQuery (publishPath channel token)).1 (ascii "channel") = channel ∧
      get (requestQuery (publishPath channel token)).1 (ascii "token") = token ∧
      ∀ s, (urlEncode s).all urlSafe = true := by
  have hquery := requestQuery_publishPath channel token
  refine ⟨hquery, ?_, ?_, fun s => List.all_eq_true.mpr (urlSafe_urlEncode s)⟩ <;> rw [hquery] <;>
    rfl

end StreamMix.Publisher
