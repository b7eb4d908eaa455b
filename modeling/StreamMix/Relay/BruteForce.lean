import StreamMix.Relay.Entries

/-! One address that keeps guessing tokens, one request after the other. -/

namespace StreamMix.Relay

namespace FailedAuthLimiter

/-- The gate of `handlePublish` for a request whose token fails at once. -/
def guess (l : FailedAuthLimiter) (ip : List UInt8) (now : Int) : Bool × FailedAuthLimiter :=
  match l.allowed ip now with
  | (true, l) => (true, l.recordFailure ip now)
  | (false, l) => (false, l)

/-- The times of the requests that pass `Allowed`. -/
def admitted (l : FailedAuthLimiter) (ip : List UInt8) : List Int → List Int
  | [] => []
  | now :: times =>
    if (l.guess ip now).1 then now :: (l.guess ip now).2.admitted ip times
    else (l.guess ip now).2.admitted ip times

/-- How many of them fall in a closed interval. -/
def admittedWithin (l : FailedAuthLimiter) (ip : List UInt8) (times : List Int) (a b : Int) : Nat :=
  (l.admitted ip times).countP (fun t => a ≤ t ∧ t ≤ b)

end FailedAuthLimiter

namespace AuthEntry

/-- What a failing request leaves. -/
def guessed (threshold windowMS cooldownMS nowMS : Int) (e : Option AuthEntry) : Option AuthEntry :=
  if (ask nowMS e).1 then some (fail threshold windowMS cooldownMS nowMS (ask nowMS e).2)
  else (ask nowMS e).2

/-- Only a ban takes an entry to the threshold. -/
def Bounded (threshold : Int) (e : Option AuthEntry) : Prop :=
  ∀ x ∈ e, x.bannedUntilMS = 0 → 1 ≤ x.count ∧ x.count < threshold

/-- How many requests can still pass from `a` to `a + windowMS`.  A window that opened before
`a` can lead to one more in the interval, one that opened later cannot, and neither can a ban
that outlasts it. -/
def quota (threshold windowMS a : Int) : Option AuthEntry → Int
  | none => threshold
  | some e =>
    if e.bannedUntilMS ≠ 0 then if a + windowMS < e.bannedUntilMS then 0 else threshold
    else if a ≤ e.firstFailMS then threshold - e.count
    else 2 * threshold - 1 - e.count

section

variable {threshold windowMS cooldownMS nowMS a : Int}

theorem quota_opened (h : a ≤ nowMS) :
    quota threshold windowMS a (some (opened nowMS)) = threshold - 1 := by
  simp [quota, opened, h]

theorem quota_nonneg (ht : 2 ≤ threshold) (e : Option AuthEntry) (h : Bounded threshold e) :
    0 ≤ quota threshold windowMS a e := by
  cases e with
  | none =>
    simp only [quota]
    omega
  | some e =>
    have h := h e rfl
    simp only [quota]
    split_ifs <;> omega

theorem quota_le (ht : 2 ≤ threshold) (e : Option AuthEntry) (h : Bounded threshold e) :
    quota threshold windowMS a e ≤ 2 * threshold - 2 := by
  cases e with
  | none =>
    simp only [quota]
    omega
  | some e =>
    have h := h e rfl
    simp only [quota]
    split_ifs <;> omega

theorem bounded_opened (ht : 2 ≤ threshold) : Bounded threshold (some (opened nowMS)) := by
  rintro _ ⟨⟩ _
  simp only [opened]
  omega

theorem bounded_counted (hzero : nowMS + cooldownMS ≠ 0) (e : AuthEntry)
    (h : Bounded threshold (some e)) :
    Bounded threshold (some (e.counted threshold cooldownMS nowMS)) := by
  have h := h e rfl
  rintro _ ⟨⟩
  simp only [counted]
  split_ifs with hge <;> omega

theorem bounded_fail (ht : 2 ≤ threshold) (hzero : nowMS + cooldownMS ≠ 0) (e : Option AuthEntry)
    (h : Bounded threshold e) :
    Bounded threshold (some (fail threshold windowMS cooldownMS nowMS e)) := by
  cases e with
  | none => exact bounded_opened ht
  | some e =>
    simp only [fail]
    split_ifs
    · exact bounded_opened ht
    · exact bounded_counted hzero e h

theorem bounded_guessed (ht : 2 ≤ threshold) (hzero : nowMS + cooldownMS ≠ 0)
    (e : Option AuthEntry) (h : Bounded threshold e) :
    Bounded threshold (guessed threshold windowMS cooldownMS nowMS e) := by
  cases e with
  | none => exact bounded_opened ht
  | some e =>
    rcases e.standing nowMS with hban | hfree | ⟨hne, hover⟩
    · simpa [guessed, ask_banned hban] using h
    · simpa [guessed, ask_free hfree] using bounded_fail ht hzero _ h
    · simpa [guessed, ask_over hne hover, fail] using bounded_opened ht

/-- A request inside the interval uses up what it takes. -/
theorem quota_guessed (ht : 2 ≤ threshold) (hlong : windowMS < cooldownMS)
    (hzero : nowMS + cooldownMS ≠ 0) (hlow : a ≤ nowMS) (hhigh : nowMS ≤ a + windowMS)
    (e : Option AuthEntry) (h : Bounded threshold e) :
    (if (ask nowMS e).1 then 1 else 0) +
        quota threshold windowMS a (guessed threshold windowMS cooldownMS nowMS e) ≤
      quota threshold windowMS a e := by
  cases e with
  | none =>
    simp only [guessed, ask, fail, if_true, quota_opened hlow]
    simp only [quota]
    omega
  | some e =>
    have hcount := h e rfl
    rcases e.standing nowMS with hban | hfree | ⟨hne, hover⟩
    · simp [guessed, ask_banned hban]
    · have hcount := hcount hfree
      simp only [guessed, ask_free hfree, if_true, fail]
      split_ifs with hlate
      · -- the window of the entry opened before the interval
        simp only [quota_opened hlow]
        simp only [quota, hfree, ne_eq, not_true_eq_false, if_false]
        split_ifs <;> omega
      · simp only [quota, counted, hfree, ne_eq, not_true_eq_false, if_false]
        split_ifs <;> omega
    · simp only [guessed, ask_over hne hover, if_true, fail, quota_opened hlow]
      simp only [quota, ne_eq, hne, not_false_eq_true, if_true]
      split_ifs <;> omega

end

end AuthEntry

namespace FailedAuthLimiter

variable {l : FailedAuthLimiter}

theorem guess_eq (l : FailedAuthLimiter) (ip : List UInt8) (now : Int) :
    l.guess ip now = ((AuthEntry.ask (unixMilli now) (l.entries ip)).1,
      l.set ip (AuthEntry.guessed l.threshold (milliseconds l.window) (milliseconds l.cooldown)
        (unixMilli now) (l.entries ip))) := by
  rw [guess, allowed_eq]
  cases hask : AuthEntry.ask (unixMilli now) (l.entries ip) with
  | mk b e =>
    cases b with
    | false => simp [AuthEntry.guessed, hask]
    | true =>
      simp only [AuthEntry.guessed, hask, if_true, recordFailure_eq, set_entries_self, failed]
      simp [set]

theorem admitted_sublist (l : FailedAuthLimiter) (ip : List UInt8) (times : List Int) :
    (l.admitted ip times).Sublist times := by
  induction times generalizing l with
  | nil => exact .slnil
  | cons now times ih =>
    rw [admitted]
    split_ifs
    · exact (ih _).cons_cons now
    · exact (ih _).cons now

theorem admittedWithin_cons (l : FailedAuthLimiter) (ip : List UInt8) (now : Int)
    (times : List Int) (a b : Int) (hlow : a ≤ now) (hhigh : now ≤ b) :
    (l.admittedWithin ip (now :: times) a b : Int) =
      (if (l.guess ip now).1 then 1 else 0) + (l.guess ip now).2.admittedWithin ip times a b := by
  rw [admittedWithin, admitted]
  split_ifs
  · rw [List.countP_cons_of_pos (by simp [hlow, hhigh]), admittedWithin]
    omega
  · rw [admittedWithin]
    omega

/-- Nothing after the interval counts. -/
theorem admittedWithin_late (l : FailedAuthLimiter) (ip : List UInt8) (times : List Int)
    (h : ∀ t ∈ times, b < t) : l.admittedWithin ip times a b = 0 := by
  apply List.countP_eq_zero.mpr
  intro t ht
  have hlate := h t ((l.admitted_sublist ip times).mem ht)
  simp only [decide_eq_true_eq, not_and, Int.not_le]
  exact fun _ => hlate

/-- From the start of the interval on. -/
theorem admittedWithin_le_quota (l : FailedAuthLimiter) (ip : List UInt8) (times : List Int)
    (ht : 2 ≤ l.threshold) (hlong : milliseconds l.window < milliseconds l.cooldown)
    (hsorted : times.Pairwise (· ≤ ·)) (hlow : ∀ t ∈ times, a ≤ t)
    (hzero : ∀ t ∈ times, unixMilli t + milliseconds l.cooldown ≠ 0)
    (h : AuthEntry.Bounded l.threshold (l.entries ip)) :
    (l.admittedWithin ip times a (a + milliseconds l.window * 1000000) : Int) ≤
      AuthEntry.quota l.threshold (milliseconds l.window) (unixMilli a) (l.entries ip) := by
  induction times generalizing l with
  | nil => exact AuthEntry.quota_nonneg ht _ h
  | cons now times ih =>
    obtain ⟨hfirst, hsorted⟩ := List.pairwise_cons.mp hsorted
    have hzero' := hzero now (.head _)
    have hlow' := hlow now (.head _)
    rcases Int.lt_or_le (a + milliseconds l.window * 1000000) now with hlate | hhigh
    · rw [admittedWithin_late]
      · exact AuthEntry.quota_nonneg ht _ h
      · intro t hmem
        rcases List.mem_cons.mp hmem with rfl | hmem
        · exact hlate
        · exact Int.lt_of_lt_of_le hlate (hfirst t hmem)
    · rw [admittedWithin_cons l ip now times _ _ hlow' hhigh, guess_eq]
      have hstep := AuthEntry.quota_guessed ht hlong hzero' (a := unixMilli a)
        (by unfold unixMilli; omega) (by unfold unixMilli; omega) _ h
      have hrest := ih (l.set ip (AuthEntry.guessed l.threshold (milliseconds l.window)
          (milliseconds l.cooldown) (unixMilli now) (l.entries ip))) ht hlong hsorted
        (fun t hmem => hlow t (.tail _ hmem)) (fun t hmem => hzero t (.tail _ hmem))
        (by
          rw [set_entries_self]
          exact AuthEntry.bounded_guessed ht hzero' _ h)
      rw [set_entries_self] at hrest
      exact Int.le_trans (Int.add_le_add_left hrest _) hstep

theorem admittedWithin_skip (l : FailedAuthLimiter) (ip : List UInt8) (now : Int)
    (times : List Int) (a b : Int) (h : now < a) :
    l.admittedWithin ip (now :: times) a b = (l.guess ip now).2.admittedWithin ip times a b := by
  rw [admittedWithin, admitted]
  split_ifs
  · rw [List.countP_cons_of_neg (by simp [Int.not_le.mpr h]), admittedWithin]
  · rw [admittedWithin]

theorem admittedWithin_le (l : FailedAuthLimiter) (ip : List UInt8) (times : List Int)
    (ht : 2 ≤ l.threshold) (hlong : milliseconds l.window < milliseconds l.cooldown)
    (hsorted : times.Pairwise (· ≤ ·))
    (hzero : ∀ t ∈ times, unixMilli t + milliseconds l.cooldown ≠ 0)
    (h : AuthEntry.Bounded l.threshold (l.entries ip)) (a : Int) :
    (l.admittedWithin ip times a (a + milliseconds l.window * 1000000) : Int) ≤
      2 * l.threshold - 2 := by
  induction times generalizing l with
  | nil =>
    show (0 : Int) ≤ 2 * l.threshold - 2
    omega
  | cons now times ih =>
    obtain ⟨hfirst, hrest⟩ := List.pairwise_cons.mp hsorted
    rcases Int.lt_or_le now a with hearly | hlow
    · rw [admittedWithin_skip l ip now times _ _ hearly, guess_eq]
      apply ih (l.set ip _) ht hlong hrest (fun t hmem => hzero t (.tail _ hmem))
      rw [set_entries_self]
      exact AuthEntry.bounded_guessed ht (hzero now (.head _)) _ h
    · apply Int.le_trans (admittedWithin_le_quota l ip _ ht hlong hsorted ?_ hzero h)
        (AuthEntry.quota_le ht _ h)
      intro t hmem
      rcases List.mem_cons.mp hmem with rfl | hmem
      · exact hlow
      · exact Int.le_trans hlow (hfirst t hmem)

/-- In milliseconds: an address that was not known before passes at most `2 * threshold - 2`
times in an interval of the length of the window. -/
theorem guesses_bounded (l : FailedAuthLimiter) (ip : List UInt8) (times : List Int) (a : Int)
    (hnew : l.entries ip = none) (ht : 2 ≤ l.threshold)
    (hlong : milliseconds l.window < milliseconds l.cooldown)
    (hsorted : times.Pairwise (· ≤ ·))
    (hzero : ∀ t ∈ times, unixMilli t + milliseconds l.cooldown ≠ 0) :
    (l.admittedWithin ip times a (a + milliseconds l.window * 1000000) : Int) ≤
      2 * l.threshold - 2 := by
  apply admittedWithin_le l ip times ht hlong hsorted hzero
  rintro e he
  rw [hnew] at he
  cases he

/-- Six guesses in a minute reach the fifth failure; the sixth one is refused. -/
theorem guesses_bounded_default :
    (new.admittedWithin Limited.localhost
      ([0, 1, 2, 3, 4, 5].map (fun t => t * second)) 0 (60 * second) : Int) ≤ 2 * 5 - 2 :=
  guesses_bounded new Limited.localhost _ 0 rfl (by decide) (by decide) (by decide) (by decide)

/-- A limiter that bans from the second failure on. -/
def strict (window cooldown : Int) : FailedAuthLimiter := ⟨2, window, cooldown, fun _ => none⟩

/-- Three guesses within one and a half milliseconds, four where the cooldown exceeds the
window by less than a millisecond, and three where a ban ends at the epoch. -/
theorem guesses_over_bound :
    2 * (2 : Int) - 2 < (strict 1500000 10000000).admittedWithin Limited.localhost
        [999999, 2000000, 2000000] 999999 (999999 + 1500000) ∧
      2 * (2 : Int) - 2 < (strict 1000000 1500000).admittedWithin Limited.localhost
        [0, 0, 1000000, 1000000] 0 (0 + 1000000) ∧
      2 * (2 : Int) - 2 < (strict 1000000 10000000).admittedWithin Limited.localhost
        [-10000000, -10000000, -10000000] (-10000000) (-10000000 + 1000000) := by
  decide

end FailedAuthLimiter

end StreamMix.Relay
