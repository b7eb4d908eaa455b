import Mathlib.Algebra.BigOperators.Group.Finset.Basic
import Mathlib.Data.Finset.Image
import Mathlib.Data.Real.Basic
import Mathlib.Logic.Relation

/-! Signal-flow graphs: nodes that scale or delay the sum of what is connected to
them, on exact signals.  A graph under construction is a context that hands out node
ids, connects and disconnects them. -/

namespace SignalGraph

abbrev Signal := ℝ → ℝ

inductive Kind
  | wire
  | gain (value : ℚ)
  | delay (maxTime time : ℚ)
  deriving DecidableEq

def Kind.value : Kind → ℚ
  | .wire => 1
  | .gain v => v
  | .delay _ t => t

def Kind.apply : Kind → Signal → Signal
  | .wire, x => x
  | .gain v, x => fun t => v * x t
  | .delay _ d, x => fun t => x (t - d)

structure Context where
  next : Nat
  kind : Nat → Kind
  edges : Finset (Nat × Nat)

namespace Context

/-- A context has one node from the start, the destination. -/
def destination : Nat := 0

def empty : Context := ⟨1, fun _ => .wire, ∅⟩

def set (c : Context) (n : Nat) (k : Kind) : Context :=
  { c with kind := Function.update c.kind n k }

def create (c : Context) (k : Kind) : Nat × Context :=
  (c.next, { c.set c.next k with next := c.next + 1 })

/-- Connecting a pair twice is connecting it once. -/
def connect (c : Context) (a b : Nat) : Context :=
  { c with edges := insert (a, b) c.edges }

/-- Takes away every connection that leaves `a`. -/
def disconnect (c : Context) (a : Nat) : Context :=
  { c with edges := c.edges.filter (fun e => e.1 ≠ a) }

def sources (c : Context) (n : Nat) : Finset Nat :=
  (c.edges.filter (fun e => e.2 = n)).image Prod.fst

@[simp] theorem mem_sources (c : Context) : m ∈ c.sources n ↔ (m, n) ∈ c.edges := by
  simp [sources]

/-- What node `n` puts out when the outside feeds `feed` into the nodes, looking at
most `k` connections back. -/
noncomputable def signal (c : Context) (feed : Nat → Signal) : Nat → Nat → Signal
  | 0, _ => 0
  | k + 1, n => (c.kind n).apply (fun t => feed n t + ∑ m ∈ c.sources n, c.signal feed k m t)

/-- What reaches the destination: no path of an acyclic graph visits more nodes than
there are. -/
noncomputable def output (c : Context) (feed : Nat → Signal) : Signal :=
  c.signal feed c.next destination

theorem signal_wire {c : Context} (feed : Nat → Signal) (h : c.kind n = .wire) (t : ℝ) :
    c.signal feed (k + 1) n t = feed n t + ∑ m ∈ c.sources n, c.signal feed k m t := by
  rw [signal, h]
  rfl

theorem signal_gain {c : Context} (feed : Nat → Signal) (h : c.kind n = .gain v) (t : ℝ) :
    c.signal feed (k + 1) n t =
      v * (feed n t + ∑ m ∈ c.sources n, c.signal feed k m t) := by
  rw [signal, h]
  rfl

theorem signal_delay {c : Context} (feed : Nat → Signal) (h : c.kind n = .delay w d) (t : ℝ) :
    c.signal feed (k + 1) n t =
      feed n (t - d) + ∑ m ∈ c.sources n, c.signal feed k m (t - d) := by
  rw [signal, h]
  rfl

/-- A path along the connections. -/
def Reaches (c : Context) : Nat → Nat → Prop := Relation.ReflTransGen (fun m n => (m, n) ∈ c.edges)

theorem not_reaches {c : Context} (h : ∀ k, (m, k) ∉ c.edges) (hne : m ≠ n) : ¬ c.Reaches m n := by
  intro hpath
  cases hpath.cases_head with
  | inl heq => exact hne heq
  | inr hnext =>
    obtain ⟨k, hk, -⟩ := hnext
    exact h k hk

end Context

end SignalGraph
