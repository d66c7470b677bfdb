import Mathlib.Tactic.Common

/-!
# A ledger of resources

Resources are numbered in the order in which they are acquired, and the ledger has for each of them
how often it was released. A resource that is acquired and released once leaves a 1 at the end; what
was there before does not change.
-/
namespace Lib

/-- How often each resource was released. -/
structure Ledger where
  /-- One count for each resource, in the order of acquisition. -/
  released : List Nat
deriving DecidableEq

namespace Ledger

/-- Nothing was acquired. -/
def empty : Ledger := ⟨[]⟩

/-- The number of the next resource. -/
def next (l : Ledger) : Nat := l.released.length

/-- A resource is acquired. -/
def acquire (l : Ledger) : Ledger := ⟨l.released ++ [0]⟩

/-- A resource is released. -/
def release (l : Ledger) (r : Nat) : Ledger := ⟨l.released.modify r (· + 1)⟩

/-- Every resource was released exactly once. -/
def Settled (l : Ledger) : Prop := ∀ count ∈ l.released, count = 1

/-- A resource was released exactly once. -/
def ReleasedOnce (l : Ledger) (r : Nat) : Prop := l.released[r]? = some 1

/-- Another ledger continues this one with some counts. -/
def Extends (l l' : Ledger) (counts : List Nat) : Prop := l'.released = l.released ++ counts

/-- Nothing is added. -/
theorem Extends.refl (l : Ledger) : l.Extends l [] := (List.append_nil _).symm

/-- One extension after another. -/
theorem Extends.trans {l l' l'' : Ledger} {counts counts' : List Nat} (first : l.Extends l' counts)
    (second : l'.Extends l'' counts') : l.Extends l'' (counts ++ counts') := by
  rw [Extends, second, first, List.append_assoc]

/-- Acquiring a resource. -/
theorem Extends.acquire (l : Ledger) : l.Extends l.acquire [0] := rfl

/-- Releasing one of the resources that were added. -/
theorem Extends.release {l l' : Ledger} {counts : List Nat} (added : l.Extends l' counts)
    (i : Nat) : l.Extends (l'.release (l.next + i)) (counts.modify i (· + 1)) := by
  rw [Extends, Ledger.release, added, next]
  apply List.ext_getElem?
  intro j
  rw [List.getElem?_modify]
  by_cases early : j < l.released.length
  · have other : l.released.length + i ≠ j := by omega
    rw [List.getElem?_append_left early, List.getElem?_append_left early]
    simp only [if_neg other]
    exact Option.map_id'
  · have place : l.released.length + i = j ↔ i = j - l.released.length := by omega
    rw [List.getElem?_append_right (by omega), List.getElem?_append_right (by omega),
      List.getElem?_modify]
    simp only [place]

/-- An extension is settled when both parts are. -/
theorem Extends.settled_iff {l l' : Ledger} {counts : List Nat} (added : l.Extends l' counts) :
    l'.Settled ↔ l.Settled ∧ ∀ count ∈ counts, count = 1 := by
  rw [Settled, added]
  exact List.forall_mem_append

/-- Among the resources that were added. -/
theorem Extends.releasedOnce_iff {l l' : Ledger} {counts : List Nat} (added : l.Extends l' counts)
    (i : Nat) : l'.ReleasedOnce (l.next + i) ↔ counts[i]? = some 1 := by
  rw [ReleasedOnce, added, next, List.getElem?_append_right (Nat.le_add_right _ _),
    Nat.add_sub_cancel_left]

end Ledger

end Lib
