import StreamMix.Lib.Machine

namespace StreamMix.Extension

/-- What `new URL(href)` reports of an href it can parse. -/
structure Url where
  hostname : String
  pathname : String

inductive Platform
  | twitch | kick
  deriving DecidableEq

structure ChannelLocation where
  platform : Platform
  channelName : String
  channelID : String
  deriving DecidableEq

def twitchReserved : List String :=
  ["directory", "settings", "videos", "subscriptions", "drops", "wallet", "search", "p",
    "downloads", "store", "broadcast", "turbo", "friends", "inventory"]

def kickReserved : List String :=
  ["browse", "categories", "search", "dashboard", "settings", "subscriptions", "following",
    "messages", "vods"]

def isChannelName (name : List Char) : Bool :=
  1 ≤ name.length && name.length ≤ 64 &&
    name.all (fun c => ('a' ≤ c && c ≤ 'z') || ('0' ≤ c && c ≤ '9') || c == '_')

def stripWww : List Char → List Char
  | 'w' :: 'w' :: 'w' :: '.' :: host => host
  | host => host

def detectChannel : Option Url → Option ChannelLocation
  | none => none
  | some url =>
    let host := String.ofList (stripWww url.hostname.toList)
    match (url.pathname.toList.splitOn '/').filter (fun s => s ≠ []) with
    | [] => none
    | segment :: _ =>
      let first := segment.map Char.toLower
      let name := String.ofList first
      if host = "twitch.tv" then
        if twitchReserved.contains name then none
        else if !isChannelName first then none
        else some ⟨.twitch, name, "twitch:" ++ name⟩
      else if host = "kick.com" then
        if kickReserved.contains name then none
        else if !isChannelName first then none
        else some ⟨.kick, name, "kick:" ++ name⟩
      else none

/-- The two points where a call of `mount` is suspended. -/
inductive Await
  | player
  | prefs
  deriving DecidableEq

structure Call where
  loc : ChannelLocation
  suspended : Await

/-- A `State` object, with what its `destroy` undoes. -/
structure Mounted where
  channelID : String
  relayClosed : Bool
  panelInDocument : Bool
  graphDestroyed : Bool

def Mounted.live (m : Mounted) : Bool :=
  !m.relayClosed && m.panelInDocument && !m.graphDestroyed

def Mounted.destroy (m : Mounted) : Mounted :=
  { m with relayClosed := true, panelInDocument := false, graphDestroyed := true }

/-- The content script of one page.  Calls of `mount` and the `State` objects they
build are named by the number of the call. -/
structure Page (Href : Type u) where
  lastHref : Href
  started : Nat
  pending : Nat → Option Call
  states : Nat → Option Mounted
  active : Option Nat

/-- How `waitForPlayer` and `buildGraph` end. -/
inductive PlayerOutcome
  | timeout
  | graphThrows
  | built
  deriving DecidableEq

inductive PageAct (Href : Type u)
  | navigate (href : Href)
  | player (call : Nat) (outcome : PlayerOutcome)
  | prefs (call : Nat) (loaded : Bool)

namespace Page

variable {Href : Type u}

/-- `mount` up to its first suspension. -/
def mount (url : Href → Option Url) (p : Page Href) : Page Href :=
  { p with
    started := p.started + 1
    pending := Function.update p.pending p.started
      ((detectChannel (url p.lastHref)).map (fun loc => ⟨loc, .player⟩)) }

def unmount (p : Page Href) : Page Href :=
  { p with
    states := match p.active with
      | some i => Function.update p.states i ((p.states i).map Mounted.destroy)
      | none => p.states
    active := none }

/-- The tail of `mount`, which runs to its end without suspending. -/
def finish (p : Page Href) (i : Nat) (loc : ChannelLocation) : Page Href :=
  { p with
    pending := Function.update p.pending i none
    states := Function.update p.states i (some ⟨loc.channelID, false, true, false⟩)
    active := some i }

def leave (p : Page Href) (i : Nat) : Page Href :=
  { p with pending := Function.update p.pending i none }

def step [DecidableEq Href] (url : Href → Option Url) (p : Page Href) :
    PageAct Href → Option (Page Href)
  | .navigate href =>
    if href = p.lastHref then none
    else some ({ p with lastHref := href }.unmount.mount url)
  | .player i outcome =>
    match p.pending i with
    | some ⟨loc, .player⟩ =>
      match outcome with
      | .built => some { p with pending := Function.update p.pending i (some ⟨loc, .prefs⟩) }
      | _ => some (p.leave i)
    | _ => none
  | .prefs i loaded =>
    match p.pending i with
    | some ⟨loc, .prefs⟩ => some (if loaded then p.finish i loc else p.leave i)
    | _ => none

def fresh (href : Href) : Page Href := ⟨href, 0, fun _ => none, fun _ => none, none⟩

end Page

/-- The script mounts once when it loads, and then on every change of the href. -/
def page [DecidableEq Href] (url : Href → Option Url) (href : Href) :
    Machine (Page Href) (PageAct Href) :=
  ⟨(Page.fresh href).mount url, Page.step url⟩

namespace Page

variable {Href : Type u} {p : Page Href}

def Live (p : Page Href) (i : Nat) (m : Mounted) : Prop := p.states i = some m ∧ m.live = true

def Settled (p : Page Href) : Prop := ∀ i, p.pending i = none

/-- One mixer at most, and it is the one of the page being viewed. -/
structure Single (url : Href → Option Url) (p : Page Href) : Prop where
  unique : ∀ i j m n, p.Live i m → p.Live j n → i = j
  active : ∀ i m, p.Live i m → p.active = some i
  channel : ∀ i m, p.Live i m →
    (detectChannel (url p.lastHref)).map ChannelLocation.channelID = some m.channelID

/-- A call of `mount` runs its tail only when no navigation came after its start. -/
def Current (p : Page Href) : PageAct Href → Prop
  | .prefs i true => i + 1 = p.started
  | _ => True

/-- What the newest call and the states look like when no older call runs its tail. -/
structure Tracked (url : Href → Option Url) (p : Page Href) : Prop where
  dead : ∀ i m, p.Live i m → p.active = some i
  channel : ∀ i m, p.Live i m →
    (detectChannel (url p.lastHref)).map ChannelLocation.channelID = some m.channelID
  newest : ∀ i c, p.pending i = some c → i < p.started ∧
    (i + 1 = p.started → p.active = none ∧ detectChannel (url p.lastHref) = some c.loc)

theorem tracked_mount (url : Href → Option Url) (hdead : ∀ i m, ¬ p.Live i m)
    (hactive : p.active = none) (hold : ∀ i c, p.pending i = some c → i < p.started) :
    Tracked url (p.mount url) := by
  refine ⟨fun i m h => absurd h (hdead i m), fun i m h => absurd h (hdead i m), ?_⟩
  intro i c hc
  simp only [mount, Function.update_apply] at hc ⊢
  split at hc
  · next hi =>
    obtain ⟨loc, hloc, rfl⟩ := Option.map_eq_some_iff.mp hc
    exact ⟨by omega, fun _ => ⟨hactive, hloc⟩⟩
  · have := hold i c hc
    exact ⟨by omega, by omega⟩

theorem tracked_init (url : Href → Option Url) (href : Href) :
    Tracked url ((fresh href).mount url) := by
  refine tracked_mount url ?_ rfl ?_
  · rintro i m ⟨h, -⟩
    cases h
  · intro i c h
    cases h

theorem not_live_unmount (h : ∀ i m, p.Live i m → p.active = some i) (i : Nat) (m : Mounted) :
    ¬ p.unmount.Live i m := by
  rintro ⟨hs, hl⟩
  simp only [unmount] at hs
  cases ha : p.active with
  | none =>
    rw [ha] at hs
    have := h i m ⟨hs, hl⟩
    rw [ha] at this
    cases this
  | some j =>
    rw [ha] at hs
    simp only [Function.update_apply] at hs
    split at hs
    · obtain ⟨n, -, rfl⟩ := Option.map_eq_some_iff.mp hs
      simp [Mounted.destroy, Mounted.live] at hl
    · next hij =>
      have := h i m ⟨hs, hl⟩
      rw [ha] at this
      exact hij (Option.some.inj this).symm

theorem tracked_leave (url : Href → Option Url) (h : Tracked url p) (i : Nat) :
    Tracked url (p.leave i) where
  dead := h.dead
  channel := h.channel
  newest := by
    intro j c hc
    simp only [leave, Function.update_apply] at hc
    split at hc
    · cases hc
    · exact h.newest j c hc

theorem tracked_finish (url : Href → Option Url) (h : Tracked url p)
    (hc : p.pending i = some c) (hi : i + 1 = p.started) : Tracked url (p.finish i c.loc) := by
  obtain ⟨-, hnew⟩ := h.newest i c hc
  obtain ⟨hnone, hloc⟩ := hnew hi
  have hother : ∀ j m, (p.finish i c.loc).Live j m → j = i ∧ m.channelID = c.loc.channelID := by
    rintro j m ⟨hs, hl⟩
    simp only [finish, Function.update_apply] at hs
    split at hs
    · next hj =>
      cases hs
      exact ⟨hj, rfl⟩
    · have := h.dead j m ⟨hs, hl⟩
      rw [hnone] at this
      cases this
  refine ⟨?_, ?_, ?_⟩
  · intro j m hj
    obtain ⟨rfl, -⟩ := hother j m hj
    rfl
  · intro j m hj
    obtain ⟨-, hm⟩ := hother j m hj
    simp [finish, hloc, hm]
  · intro j d hd
    simp only [finish, Function.update_apply] at hd ⊢
    split at hd
    · cases hd
    · next hj =>
      have := (h.newest j d hd).1
      exact ⟨this, by omega⟩

theorem tracked_step [DecidableEq Href] (url : Href → Option Url) (h : Tracked url p)
    (a : PageAct Href) (hg : p.Current a) (hs : p.step url a = some q) : Tracked url q := by
  cases a with
  | navigate href =>
    simp only [step] at hs
    split at hs
    · cases hs
    · cases hs
      refine tracked_mount url (not_live_unmount h.dead) rfl ?_
      intro i c hc
      exact (h.newest i c hc).1
  | player i outcome =>
    simp only [step] at hs
    split at hs
    · next loc hc =>
      cases outcome with
      | timeout => cases hs; exact tracked_leave url h i
      | graphThrows => cases hs; exact tracked_leave url h i
      | built =>
        cases hs
        refine ⟨h.dead, h.channel, ?_⟩
        intro j c hj
        simp only [Function.update_apply] at hj
        split at hj
        · next hji =>
          cases hj
          exact hji ▸ h.newest i _ hc
        · exact h.newest j c hj
    · cases hs
  | prefs i loaded =>
    simp only [step] at hs
    split at hs
    · next loc hc =>
      cases loaded with
      | false => cases hs; exact tracked_leave url h i
      | true => cases hs; exact tracked_finish url h hc hg
    · cases hs

/-- When no overtaken call of `mount` runs its tail, every state the page reaches has
one live mixer at most, held in `active` and tuned to the page's channel. -/
theorem single_of_current [DecidableEq Href] (url : Href → Option Url) (href : Href)
    (h : (page url href).Reaches Page.Current p) : p.Settled → p.Single url := by
  have ht : Tracked url p :=
    h.invariant (tracked_init url href) (fun _ a _ ht hg hs => tracked_step url ht a hg hs)
  intro _
  refine ⟨?_, ht.dead, ht.channel⟩
  intro i j m n hi hj
  have hij := (ht.dead i m hi).symm.trans (ht.dead j n hj)
  exact Option.some.inj hij

/-- `new URL` on the hrefs of the two channel pages below. -/
def sampleUrl (href : String) : Option Url :=
  if href = "https://www.twitch.tv/alice" then some ⟨"www.twitch.tv", "/alice"⟩
  else if href = "https://www.twitch.tv/bob" then some ⟨"www.twitch.tv", "/bob"⟩
  else none

theorem single_of_current_alice : ∃ q, (page sampleUrl "https://www.twitch.tv/alice").run
    (page sampleUrl "https://www.twitch.tv/alice").init [.player 0 .built, .prefs 0 true] =
      some q ∧ q.active = some 0 ∧ q.Single sampleUrl := by
  refine ⟨_, rfl, rfl, ?_⟩
  refine single_of_current sampleUrl "https://www.twitch.tv/alice" ?_ ?_
  · exact .of_run [.player 0 .built, .prefs 0 true] .init ⟨trivial, rfl, trivial⟩ rfl
  · rintro (_ | i) <;> rfl

/-- A navigation while the first `mount` waits: both calls run to their end, both
mixers stay, and `active` holds the one of the page that was left. -/
theorem two_mixers_after_navigation : ∃ q, (page sampleUrl "https://www.twitch.tv/alice").run
    (page sampleUrl "https://www.twitch.tv/alice").init
      [.navigate "https://www.twitch.tv/bob", .player 0 .built, .player 1 .built,
        .prefs 1 true, .prefs 0 true] = some q ∧ q.Settled ∧
    (∃ m, q.Live 1 m) ∧ q.active = some 0 ∧ ¬ q.Single sampleUrl := by
  refine ⟨_, rfl, ?_, ?_, rfl, ?_⟩
  · rintro (_ | _ | i) <;> rfl
  · exact ⟨_, rfl, rfl⟩
  · intro h
    exact absurd (h.unique 0 1 _ _ ⟨rfl, rfl⟩ ⟨rfl, rfl⟩) (by decide)

end Page

end StreamMix.Extension
