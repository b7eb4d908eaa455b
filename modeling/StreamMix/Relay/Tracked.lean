import Mathlib.Data.Set.Card
import StreamMix.Relay.Entries

/-! Which addresses the limiter keeps.  It forgets an address in calls of that address only. -/

namespace StreamMix.Relay

namespace FailedAuthLimiter

def known (l : FailedAuthLimiter) : Set (List UInt8) := {ip | l.entries ip ≠ none}

def note (ips : Finset (List UInt8)) : LimiterAct → Finset (List UInt8)
  | .allowed _ _ => ips
  | .recordFailure ip _ => insert ip ips
  | .recordSuccess ip => ips.erase ip

/-- The addresses with a failure since their last success. -/
def failing (acts : List LimiterAct) : Finset (List UInt8) := acts.foldl note ∅

def unused (threshold window cooldown : Int) : FailedAuthLimiter :=
  ⟨threshold, window, cooldown, fun _ => none⟩

/-- Since the last failure of an address came nothing but calls of `Allowed` that its ban, if
it has one, outlasts. -/
def Recorded (acts : List LimiterAct) (ip : List UInt8) (e : AuthEntry) : Prop :=
  ∃ before now after, acts = before ++ .recordFailure ip now :: after ∧
    ∀ a ∈ after, a.ip = ip →
      ∃ t, a = .allowed ip t ∧ (e.bannedUntilMS = 0 ∨ unixMilli t < e.bannedUntilMS)

theorem Recorded.snoc (h : Recorded acts ip e)
    (ha : a.ip = ip → ∃ t, a = .allowed ip t ∧
      (e.bannedUntilMS = 0 ∨ unixMilli t < e.bannedUntilMS)) :
    Recorded (acts ++ [a]) ip e := by
  obtain ⟨before, now, after, rfl, hafter⟩ := h
  refine ⟨before, now, after ++ [a], by simp, ?_⟩
  intro b hb
  rcases List.mem_append.mp hb with hb | hb
  · exact hafter b hb
  · rw [List.mem_singleton.mp hb]
    exact ha

theorem recorded_call {l : FailedAuthLimiter}
    (h : ∀ ip e, l.entries ip = some e → Recorded acts ip e) (a : LimiterAct) (ip : List UInt8)
    (e : AuthEntry) (he : (l.call a).entries ip = some e) : Recorded (acts ++ [a]) ip e := by
  rw [call_eq, entries_set] at he
  rcases eq_or_ne ip a.ip with rfl | hne
  · rw [Function.update_self] at he
    cases a with
    | allowed ip now =>
      cases hl : l.entries ip with
      | none =>
        simp only [LimiterAct.leaves, LimiterAct.ip, hl, AuthEntry.ask, reduceCtorEq] at he
      | some x =>
        simp only [LimiterAct.leaves, LimiterAct.ip, hl] at he
        rcases x.standing (unixMilli now) with hban | hfree | ⟨hne, hover⟩
        · rw [AuthEntry.ask_banned hban] at he
          cases he
          exact (h ip e hl).snoc (fun _ => ⟨now, rfl, .inr hban.2⟩)
        · rw [AuthEntry.ask_free hfree] at he
          cases he
          exact (h ip e hl).snoc (fun _ => ⟨now, rfl, .inl hfree⟩)
        · rw [AuthEntry.ask_over hne hover] at he
          cases he
    | recordFailure ip now => exact ⟨acts, now, [], rfl, by simp⟩
    | recordSuccess ip => cases he
  · rw [Function.update_of_ne hne] at he
    exact (h ip e he).snoc (fun heq => absurd heq.symm hne)

theorem recorded_of_run (threshold window cooldown : Int) (acts : List LimiterAct)
    (ip : List UInt8) (e : AuthEntry)
    (he : (acts.foldl call (unused threshold window cooldown)).entries ip = some e) :
    Recorded acts ip e := by
  induction acts using List.reverseRecOn generalizing ip e with
  | nil => cases he
  | append_singleton acts a ih =>
    rw [List.foldl_append] at he
    exact recorded_call ih a ip e he

theorem failing_of_recorded (h : Recorded acts ip e) : ip ∈ failing acts := by
  obtain ⟨before, now, after, rfl, hafter⟩ := h
  have hkeep (ips : Finset (List UInt8)) (hmem : ip ∈ ips) : ip ∈ after.foldl note ips := by
    induction after generalizing ips with
    | nil => exact hmem
    | cons a after ih =>
      apply ih (fun b hb => hafter b (.tail _ hb))
      cases a with
      | allowed jp now => exact hmem
      | recordFailure jp now => exact Finset.mem_insert_of_mem hmem
      | recordSuccess jp =>
        refine Finset.mem_erase.mpr ⟨?_, hmem⟩
        rintro rfl
        obtain ⟨t, heq, -⟩ := hafter _ (.head _) rfl
        cases heq
  rw [failing, List.foldl_append]
  exact hkeep _ (Finset.mem_insert_self ..)

/-- An entry belongs to an address that has failed since its last success and has not asked
since its ban was over, so there are no more entries than such addresses. -/
theorem known_recorded (threshold window cooldown : Int) (acts : List LimiterAct) :
    (∀ ip e, (acts.foldl call (unused threshold window cooldown)).entries ip = some e →
      Recorded acts ip e) ∧
    (acts.foldl call (unused threshold window cooldown)).known.Finite ∧
    (acts.foldl call (unused threshold window cooldown)).known.ncard ≤ (failing acts).card := by
  have hsub : (acts.foldl call (unused threshold window cooldown)).known ⊆ failing acts := by
    intro ip hip
    obtain ⟨e, he⟩ := Option.ne_none_iff_exists'.mp hip
    exact failing_of_recorded (recorded_of_run threshold window cooldown acts ip e he)
  refine ⟨recorded_of_run threshold window cooldown acts, (failing acts).finite_toSet.subset hsub,
    ?_⟩
  rw [← Set.ncard_coe_finset]
  exact Set.ncard_le_ncard hsub (failing acts).finite_toSet

/-- An address that failed once is still there long after its window, unbanned, when another
one asks. -/
theorem known_forever : ∃ s,
    (Limited.machine new.threshold new.window new.cooldown 0).Reachable s ∧
      Limited.localhost ∈ s.limiter.known ∧
      (∀ f ∈ s.failures Limited.localhost, f.time + new.window < s.clock) ∧
      ∀ e ∈ s.limiter.entries Limited.localhost, ¬ e.Banned (unixMilli s.clock) := by
  refine ⟨_, .of_run [.recordFailure Limited.localhost 0, .allowed [] (86400 * second)] (.init _)
    rfl, ?_, ?_, ?_⟩
  · exact Option.some_ne_none (AuthEntry.opened 0)
  · decide
  · decide

end FailedAuthLimiter

end StreamMix.Relay
