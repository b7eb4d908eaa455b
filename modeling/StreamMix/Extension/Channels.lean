import StreamMix.Extension.Mount
import StreamMix.Relay.Requests

/-! The channels that a page can be tuned to, and the request that the relay gets for one. -/

namespace StreamMix.Extension

open Relay (validateChannelID channelString publishRequest subscribeChannel HttpRequest)
open UrlQuery
open Wire (Bytes ascii)

/-- What `encodeURIComponent` leaves as it is. -/
def uriUnreserved (c : UInt8) : Bool :=
  (0x61 ≤ c && c ≤ 0x7a) || (0x41 ≤ c && c ≤ 0x5a) || (0x30 ≤ c && c ≤ 0x39) ||
    (ascii "-_.!~*'()").contains c

def encodeURIComponent (s : String) : Bytes := percentEncode uriUnreserved (Unicode.utf8 s)

/-- Behind the host of the relay's URL. -/
def subscribeTarget (channelID : String) : Bytes :=
  ascii "/subscribe?channel=" ++ encodeURIComponent channelID

/-- A channel of the relay without a reserved name. -/
structure Viewable (id : String) : Prop where
  valid : validateChannelID id = true
  twitch : ∀ name ∈ twitchReserved, id ≠ "twitch:" ++ name
  kick : ∀ name ∈ kickReserved, id ≠ "kick:" ++ name

theorem toList_twitch (name : String) : ("twitch:" ++ name).toList =
    't' :: 'w' :: 'i' :: 't' :: 'c' :: 'h' :: ':' :: name.toList := by
  rw [String.toList_append]
  rfl

theorem toList_kick (name : String) :
    ("kick:" ++ name).toList = 'k' :: 'i' :: 'c' :: 'k' :: ':' :: name.toList := by
  rw [String.toList_append]
  rfl

theorem twitch_inj {a b : String} : "twitch:" ++ a = "twitch:" ++ b ↔ a = b := by
  simp only [← String.toList_inj, toList_twitch, List.cons.injEq, true_and]

theorem kick_inj {a b : String} : "kick:" ++ a = "kick:" ++ b ↔ a = b := by
  simp only [← String.toList_inj, toList_kick, List.cons.injEq, true_and]

theorem twitch_ne_kick (a b : String) : "twitch:" ++ a ≠ "kick:" ++ b := by
  rw [ne_eq, ← String.toList_inj, toList_twitch, toList_kick]
  simp

theorem validateChannelID_twitch (name : String) :
    validateChannelID ("twitch:" ++ name) = isChannelName name.toList := by
  rw [validateChannelID, toList_twitch]
  rfl

theorem validateChannelID_kick (name : String) :
    validateChannelID ("kick:" ++ name) = isChannelName name.toList := by
  rw [validateChannelID, toList_kick]
  rfl

theorem validateChannelID_cases {id : String} (h : validateChannelID id = true) : ∃ name : String,
    (id = "twitch:" ++ name ∨ id = "kick:" ++ name) ∧ isChannelName name.toList = true := by
  rw [validateChannelID] at h
  split at h
  · next name heq =>
    refine ⟨String.ofList name, .inl (String.toList_inj.mp ?_), by rwa [String.toList_ofList]⟩
    rw [heq, toList_twitch, String.toList_ofList]
  · next name heq =>
    refine ⟨String.ofList name, .inr (String.toList_inj.mp ?_), by rwa [String.toList_ofList]⟩
    rw [heq, toList_kick, String.toList_ofList]
  · cases h

theorem viewable_of_detect (h : detectChannel url = some loc) : Viewable loc.channelID := by
  cases url with
  | none => cases h
  | some url =>
    simp only [detectChannel] at h
    split at h
    · cases h
    · next segment rest _ =>
      split_ifs at h with _ hfree hname _ hfree hname <;> cases h
      · refine ⟨?_, ?_, fun name _ => twitch_ne_kick _ name⟩
        · rw [validateChannelID_twitch, String.toList_ofList]
          simpa using hname
        · rintro name hmem heq
          rw [twitch_inj.mp heq] at hfree
          simp [hmem] at hfree
      · refine ⟨?_, fun name _ => (twitch_ne_kick name _).symm, ?_⟩
        · rw [validateChannelID_kick, String.toList_ofList]
          simpa using hname
        · rintro name hmem heq
          rw [kick_inj.mp heq] at hfree
          simp [hmem] at hfree

/-- The characters of a channel's name. -/
theorem plain_of_isChannelName {name : List Char} (h : isChannelName name = true) :
    ∀ c ∈ name, c.toLower = c ∧ c ≠ '/' ∧ c.toNat < 0x80 := by
  intro c hc
  simp only [isChannelName, Bool.and_eq_true, List.all_eq_true] at h
  have hclass := h.2 c hc
  have hlt : c.toNat < 0x80 := by
    simp only [Bool.or_eq_true, Bool.and_eq_true, decide_eq_true_eq, beq_iff_eq, Char.le_def,
      UInt32.le_iff_toNat_le] at hclass
    obtain (⟨-, hz⟩ | ⟨-, hz⟩) | rfl := hclass
    · exact Nat.lt_of_le_of_lt hz (by decide)
    · exact Nat.lt_of_le_of_lt hz (by decide)
    · decide
  have hall : ∀ n : Fin 0x80, (('a' ≤ Char.ofNat n && Char.ofNat n ≤ 'z') ||
      ('0' ≤ Char.ofNat n && Char.ofNat n ≤ '9') || Char.ofNat n == '_') = true →
      (Char.ofNat n).toLower = Char.ofNat n ∧ Char.ofNat n ≠ '/' := by
    decide +kernel
  have hself := hall ⟨c.toNat, hlt⟩
  simp only [Char.ofNat_toNat] at hself
  exact ⟨(hself hclass).1, (hself hclass).2, hlt⟩

theorem map_toLower_of_isChannelName {name : List Char} (h : isChannelName name = true) :
    name.map Char.toLower = name :=
  (List.map_congr_left (fun c hc => (plain_of_isChannelName h c hc).1)).trans (List.map_id name)

theorem segments_of_isChannelName {name : List Char} (h : isChannelName name = true) :
    (('/' :: name).splitOn '/').filter (fun s => s ≠ []) = [name] := by
  have hslash : '/' ∉ name := fun hmem => (plain_of_isChannelName h '/' hmem).2.1 rfl
  have hne : name ≠ [] := by
    rintro rfl
    cases h
  have hsplit := List.splitOn_append_cons_self (a := '/') [] name
  rw [List.nil_append, List.splitOn_nil, List.splitOn_eq_singleton hslash] at hsplit
  simp [hsplit, hne]

theorem detectChannel_page {host name : String} (h : isChannelName name.toList = true) :
    detectChannel (some ⟨host, "/" ++ name⟩) =
      if String.ofList (stripWww host.toList) = "twitch.tv" then
        if twitchReserved.contains name then none
        else some ⟨.twitch, name, "twitch:" ++ name⟩
      else if String.ofList (stripWww host.toList) = "kick.com" then
        if kickReserved.contains name then none
        else some ⟨.kick, name, "kick:" ++ name⟩
      else none := by
  have hpath : ("/" ++ name).toList = '/' :: name.toList := by
    rw [String.toList_append]
    rfl
  simp only [detectChannel, hpath, segments_of_isChannelName h, map_toLower_of_isChannelName h,
    String.ofList_toList, h]
  rfl

theorem detect_of_viewable {id : String} (h : Viewable id) :
    ∃ url loc, detectChannel (some url) = some loc ∧ loc.channelID = id := by
  obtain ⟨name, rfl | rfl, hname⟩ := validateChannelID_cases h.valid
  · have hfree : name ∉ twitchReserved := fun hmem => h.twitch name hmem rfl
    refine ⟨⟨"twitch.tv", "/" ++ name⟩, ⟨.twitch, name, "twitch:" ++ name⟩, ?_, rfl⟩
    rw [detectChannel_page hname, if_pos (by decide)]
    simp [hfree]
  · have hfree : name ∉ kickReserved := fun hmem => h.kick name hmem rfl
    refine ⟨⟨"kick.com", "/" ++ name⟩, ⟨.kick, name, "kick:" ++ name⟩, ?_, rfl⟩
    rw [detectChannel_page hname, if_neg (by decide), if_pos (by decide)]
    simp [hfree]

/-! The relay's side of the request. -/

theorem ascii_of_validateChannelID {id : String} (h : validateChannelID id = true) :
    ∀ c ∈ id.toList, c.toNat < 0x80 := by
  obtain ⟨name, hid, hname⟩ := validateChannelID_cases h
  have hplain : ∀ c ∈ name.toList, c.toNat < 0x80 := fun c hc =>
    (plain_of_isChannelName hname c hc).2.2
  obtain rfl | rfl := hid
  · rw [toList_twitch]
    simpa using hplain
  · rw [toList_kick]
    simpa using hplain

theorem channelString_utf8 {id : String} (h : ∀ c ∈ id.toList, c.toNat < 0x80) :
    channelString (Unicode.utf8 id) = id := by
  have hencode : Unicode.utf8 id = (id.toList.map Char.toNat).map UInt8.ofNat :=
    Unicode.encode_of_ascii (List.forall_mem_map.mpr h)
  rw [channelString, hencode, ← String.toList_inj, String.toList_ofList, List.map_map, List.map_map]
  refine (List.map_congr_left (fun c hc => ?_)).trans (List.map_id id.toList)
  have hc := h c hc
  simp only [Function.comp_apply, UInt8.toNat_ofNat', id_eq]
  rw [Nat.mod_eq_of_lt (by omega), Char.ofNat_toNat]

theorem channelString_injective : Function.Injective channelString := by
  intro s t hst
  refine List.map_injective_iff.mpr ?_ (String.ofList_injective hst)
  intro b d h
  have hall : ∀ n : Fin 256, (Char.ofNat n).toNat = n := by
    decide +kernel
  have hbyte := fun x : UInt8 => hall ⟨x.toNat, x.toNat_lt⟩
  have hnat := congrArg Char.toNat h
  exact UInt8.toNat_inj.mp ((hbyte b).symm.trans (hnat.trans (hbyte d)))

theorem subscribeTarget_eq (id : String) : subscribeTarget id =
    ascii "/subscribe" ++ 0x3f :: (ascii "channel" ++ 0x3d :: encodeURIComponent id) := by
  have hpath : ascii "/subscribe?channel=" =
      ascii "/subscribe" ++ 0x3f :: (ascii "channel" ++ [0x3d]) := by
    decide
  rw [subscribeTarget, hpath]
  simp

theorem query_subscribeTarget (id : String) : Publisher.requestQuery (subscribeTarget id) =
    ([(ascii "channel", Unicode.utf8 id)], false) := by
  have hfield : Field (ascii "channel") (encodeURIComponent id) := by
    refine ⟨by decide, ?_, ?_⟩ <;>
    exact not_mem_percentEncode (by decide) (by decide) (by decide) _
  have hname : queryUnescape (ascii "channel") = some (ascii "channel") := by
    decide +kernel
  have hvalue : queryUnescape (encodeURIComponent id) = some (Unicode.utf8 id) :=
    queryUnescape_percentEncode (by decide) (by decide) _
  rw [Publisher.requestQuery, subscribeTarget_eq, cut_append (by decide)]
  exact parseQuery_last hfield hname hvalue

/-- The relay reads the channel of the page. -/
theorem subscribeChannel_target {id : String} {r : HttpRequest} (h : validateChannelID id = true)
    (hr : r.target = subscribeTarget id) : subscribeChannel r = id := by
  rw [subscribeChannel, Relay.urlQuery, hr, query_subscribeTarget]
  exact channelString_utf8 (ascii_of_validateChannelID h)

namespace Page

variable {Href : Type u} {url : Href → Option Url} {p q : Page Href}

/-- What the calls and the states of a page were made for. -/
structure Tuned (url : Href → Option Url) (p : Page Href) : Prop where
  pending : ∀ i c, p.pending i = some c → Viewable c.loc.channelID
  states : ∀ i m, p.states i = some m → Viewable m.channelID

theorem Tuned.leave (h : Tuned url p) (i : Nat) : Tuned url (p.leave i) := by
  refine ⟨?_, h.states⟩
  intro j c hc
  simp only [Page.leave, Function.update_apply] at hc
  split_ifs at hc
  exact h.pending j c hc

theorem Tuned.finish (h : Tuned url p) (hc : p.pending i = some c) :
    Tuned url (p.finish i c.loc) := by
  refine ⟨(h.leave i).pending, ?_⟩
  intro j m hm
  simp only [Page.finish, Function.update_apply] at hm
  split_ifs at hm
  · cases hm
    exact h.pending i c hc
  · exact h.states j m hm

theorem Tuned.unmount (h : Tuned url p) : Tuned url p.unmount := by
  refine ⟨h.pending, ?_⟩
  intro j m hm
  simp only [Page.unmount] at hm
  cases hactive : p.active with
  | none =>
    rw [hactive] at hm
    exact h.states j m hm
  | some i =>
    rw [hactive] at hm
    simp only [Function.update_apply] at hm
    split_ifs at hm
    · obtain ⟨n, hn, rfl⟩ := Option.map_eq_some_iff.mp hm
      exact h.states i n hn
    · exact h.states j m hm

theorem Tuned.mount (h : Tuned url p) : Tuned url (p.mount url) := by
  refine ⟨?_, h.states⟩
  intro i c hc
  simp only [Page.mount, Function.update_apply] at hc
  split_ifs at hc
  · obtain ⟨loc, hloc, rfl⟩ := Option.map_eq_some_iff.mp hc
    exact viewable_of_detect hloc
  · exact h.pending i c hc

theorem Tuned.step [DecidableEq Href] (h : Tuned url p) (a : PageAct Href)
    (hs : p.step url a = some q) : Tuned url q := by
  cases a with
  | navigate href =>
    simp only [Page.step] at hs
    split_ifs at hs
    cases hs
    have hmoved : Tuned url { p with lastHref := href } := ⟨h.pending, h.states⟩
    exact hmoved.unmount.mount
  | player i outcome =>
    simp only [Page.step] at hs
    split at hs
    · next loc hc =>
      cases outcome with
      | timeout | graphThrows =>
        cases hs
        exact h.leave i
      | built =>
        cases hs
        refine ⟨?_, h.states⟩
        intro j c hj
        simp only [Function.update_apply] at hj
        split_ifs at hj
        · have hview := h.pending i _ hc
          cases hj
          exact hview
        · exact h.pending j c hj
    · cases hs
  | prefs i loaded =>
    simp only [Page.step] at hs
    split at hs
    · next loc hc =>
      cases loaded with
      | false =>
        cases hs
        exact h.leave i
      | true =>
        cases hs
        exact h.finish hc
    · cases hs

theorem tuned_of_reachable [DecidableEq Href] {href : Href}
    (hr : (page url href).Reachable p) : Tuned url p := by
  refine hr.invariant ?_ (fun _ a _ h hs => h.step a hs)
  have hfresh : Tuned url (fresh href) := ⟨fun _ _ => by simp [fresh], fun _ _ => by simp [fresh]⟩
  exact hfresh.mount

end Page

/-- Some page gets as far as its mixer. -/
theorem mounts_of_viewable {id : String} (h : Viewable id) :
    ∃ (url : String → Option Url) (href : String) (p : Page String) (m : Mounted),
      (page url href).Reachable p ∧ p.states 0 = some m ∧ m.channelID = id := by
  obtain ⟨url, loc, hloc, rfl⟩ := detect_of_viewable h
  let M := page (fun _ : String => some url) ""
  have hcall : M.init.pending 0 = some ⟨loc, .player⟩ := by
    simp [M, page, Page.mount, Page.fresh, hloc]
  let built : Page String :=
    { M.init with pending := Function.update M.init.pending 0 (some ⟨loc, .prefs⟩) }
  have hbuilt : M.step M.init (.player 0 .built) = some built := by
    simp only [M, page, Page.step] at hcall ⊢
    rw [hcall]
    rfl
  have hmounted : M.step built (.prefs 0 true) = some (built.finish 0 loc) := by
    have hwait : built.pending 0 = some ⟨loc, .prefs⟩ := by
      simp only [built, Function.update_self]
    simp only [M, page, Page.step]
    rw [hwait]
    rfl
  refine ⟨fun _ => some url, "", built.finish 0 loc, ⟨loc.channelID, false, true, false⟩,
    ((Machine.Reachable.init M).next hbuilt).next hmounted, ?_, rfl⟩
  simp only [Page.finish, Function.update_self]

/-- The channels that a page is tuned to, in all its runs, are those that the relay knows but
for the reserved names, and the relay reads them as they are. -/
theorem subscribed_channels (id : String) :
    ((∃ (url : String → Option Url) (href : String) (p : Page String) (i : Nat) (m : Mounted),
      (page url href).Reachable p ∧ p.states i = some m ∧ m.channelID = id) ↔ Viewable id) ∧
    (Viewable id → ∀ r : HttpRequest, r.target = subscribeTarget id → subscribeChannel r = id ∧
      ∀ (s : HttpRequest) (ch token : Bytes), s.target = Publisher.publishPath ch token →
        (channelString (publishRequest s).channelID = subscribeChannel r ↔
          ch = Unicode.utf8 id)) := by
  refine ⟨⟨?_, ?_⟩, ?_⟩
  · rintro ⟨url, href, p, i, m, hr, hm, rfl⟩
    exact (Page.tuned_of_reachable hr).states i m hm
  · intro h
    obtain ⟨url, href, p, m, hr, hm, hid⟩ := mounts_of_viewable h
    exact ⟨url, href, p, 0, m, hr, hm, hid⟩
  · intro h r hr
    have hread := subscribeChannel_target h.valid hr
    refine ⟨hread, fun s ch token hs => ?_⟩
    have hutf8 := channelString_utf8 (ascii_of_validateChannelID h.valid)
    rw [hread, Relay.publishRequest_publishPath hs]
    exact ⟨fun heq => channelString_injective (heq.trans hutf8.symm), fun heq => heq ▸ hutf8⟩

theorem subscribed_channels_streamer : Viewable "twitch:streamer" ∧
    subscribeChannel ⟨subscribeTarget "twitch:streamer", [], []⟩ = "twitch:streamer" := by
  have hview : Viewable "twitch:streamer" :=
    ⟨by decide +kernel, by decide +kernel, by decide +kernel⟩
  exact ⟨hview, ((subscribed_channels "twitch:streamer").2 hview _ rfl).1⟩

end StreamMix.Extension
