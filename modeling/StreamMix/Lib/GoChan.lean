import Mathlib.Data.List.Basic

/-! Channels on which nobody blocks to send and one goroutine at most blocks to receive. -/

namespace Go

/-- The receiving goroutine: not in a `select`, parked in one, or woken from one with
what it received (`none` when the channel was closed). -/
inductive Receiver (α : Type u)
  | running
  | parked
  | woken (v : Option α)

def Receiver.isParked : Receiver α → Bool
  | .parked => true
  | _ => false

structure Chan (α : Type u) where
  cap : Nat
  buf : List α
  closed : Bool
  receiver : Receiver α
  fits : buf.length ≤ cap
  waits : receiver.isParked = true → buf = [] ∧ closed = false

/-- A non-blocking send: `panics` on a closed channel, `handed` to a parked receiver. -/
inductive Sent (α : Type u)
  | panics
  | handed (c : Chan α)
  | queued (c : Chan α)
  | full

/-- A non-blocking receive: `zero` on a closed and drained channel. -/
inductive Received (α : Type u)
  | item (v : α) (c : Chan α)
  | zero
  | empty

namespace Chan

variable {α : Type u}

def make (n : Int) : Option (Chan α) :=
  if n < 0 then none else some ⟨n.toNat, [], false, .running, Nat.zero_le _, nofun⟩

def trySend (c : Chan α) (v : α) : Sent α :=
  if c.closed then .panics
  else if hp : c.receiver.isParked then
    .handed { c with receiver := .woken (some v), waits := nofun }
  else if hc : c.buf.length < c.cap then
    .queued { c with
      buf := c.buf ++ [v]
      fits := by rw [List.length_append]; exact hc
      waits := fun h => absurd h hp }
  else .full

def tryRecv (c : Chan α) : Received α :=
  match hb : c.buf with
  | v :: rest => .item v { c with
      buf := rest
      fits := by
        have := c.fits
        rw [hb, List.length_cons] at this
        omega
      waits := fun h => by
        have := (c.waits h).1
        rw [hb] at this
        cases this }
  | [] => if c.closed then .zero else .empty

/-- Closing a closed channel panics. -/
def close (c : Chan α) : Option (Chan α) :=
  if c.closed then none
  else if hp : c.receiver.isParked then
    some { c with closed := true, receiver := .woken none, waits := nofun }
  else some { c with closed := true, waits := fun h => absurd h hp }

/-- A `select` with no ready case parks. -/
def park (c : Chan α) : Option (Chan α) :=
  if h : c.buf = [] ∧ c.closed = false then
    some { c with receiver := .parked, waits := fun _ => h }
  else none

def resume (c : Chan α) : Chan α := { c with receiver := .running, waits := nofun }

variable {c d : Chan α} {v : α}

theorem trySend_panics (h : c.trySend v = .panics) : c.closed = true := by
  simp only [trySend] at h
  split_ifs at h
  assumption

theorem trySend_handed (h : c.trySend v = .handed d) :
    c.closed = false ∧ c.buf = [] ∧ d.buf = [] ∧ d.cap = c.cap ∧ d.closed = false ∧
      d.receiver = .woken (some v) ∧ c.receiver.isParked = true := by
  simp only [trySend] at h
  split_ifs at h with hc hp
  cases h
  obtain ⟨hb, hc⟩ := c.waits hp
  exact ⟨hc, hb, hb, rfl, hc, rfl, hp⟩

theorem trySend_queued (h : c.trySend v = .queued d) :
    c.closed = false ∧ c.buf.length < c.cap ∧ d.buf = c.buf ++ [v] ∧ d.cap = c.cap ∧
      d.closed = false ∧ d.receiver = c.receiver ∧ c.receiver.isParked = false := by
  simp only [trySend] at h
  split_ifs at h with hc hp hl
  cases h
  simp only [Bool.not_eq_true] at hc hp
  exact ⟨hc, hl, rfl, rfl, hc, rfl, hp⟩

theorem trySend_full (h : c.trySend v = .full) :
    c.closed = false ∧ c.buf.length = c.cap := by
  simp only [trySend] at h
  split_ifs at h with hc hp hl
  exact ⟨by simpa using hc, Nat.le_antisymm c.fits (Nat.le_of_not_lt hl)⟩

theorem tryRecv_item (h : c.tryRecv = .item v d) :
    c.buf = v :: d.buf ∧ d.cap = c.cap ∧ d.closed = c.closed ∧ d.receiver = c.receiver := by
  simp only [tryRecv] at h
  split at h
  · next hb =>
    cases h
    exact ⟨hb, rfl, rfl, rfl⟩
  · split_ifs at h

theorem tryRecv_zero (h : c.tryRecv = .zero) : c.buf = [] ∧ c.closed = true := by
  simp only [tryRecv] at h
  split at h
  · cases h
  · next hb =>
    split_ifs at h with hc
    exact ⟨hb, hc⟩

theorem tryRecv_empty (h : c.tryRecv = .empty) : c.buf = [] ∧ c.closed = false := by
  simp only [tryRecv] at h
  split at h
  · cases h
  · next hb =>
    split_ifs at h with hc
    exact ⟨hb, by simpa using hc⟩

theorem close_eq_none : c.close = none ↔ c.closed = true := by
  simp only [close]
  split_ifs <;> simp_all

theorem close_eq_some (h : c.close = some d) :
    c.closed = false ∧ d.closed = true ∧ d.buf = c.buf ∧ d.cap = c.cap := by
  simp only [close] at h
  split_ifs at h with hc hp <;> cases h <;> exact ⟨by simpa using hc, rfl, rfl, rfl⟩

theorem park_eq_some (h : c.park = some d) :
    c.buf = [] ∧ c.closed = false ∧ d.buf = c.buf ∧ d.cap = c.cap ∧ d.closed = c.closed ∧
      d.receiver = .parked := by
  simp only [park] at h
  split_ifs at h with hb
  cases h
  exact ⟨hb.1, hb.2, rfl, rfl, rfl, rfl⟩

end Chan

end Go
