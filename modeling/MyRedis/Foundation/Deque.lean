import Mathlib.Data.Multiset.AddSub
import Mathlib.Tactic

/-!
# Histories of double-ended queues

A double-ended queue is a list; several values can be pushed at once, each behind the one before it
from the end at which they enter, and values are popped one by one.  A `Ledger` keeps beside the
contents what has been pushed and what has been popped, in order.

Nothing gets lost and nothing is duplicated (`Ledger.balanced_record`, for one operation, and
`Ledger.balanced_of`, for a history), and if values enter at one end only and leave at the other
only, they leave in the order in which they entered (`Ledger.forward_of`, `Ledger.backward_of`).
-/

namespace Foundation

variable {α : Type}

/-- The operations. -/
inductive DequeOp (α : Type) where
  /-- Push values to the front, one by one. -/
  | pushFront (values : List α)
  /-- Push values to the back, one by one. -/
  | pushBack (values : List α)
  /-- Remove the first value, if there is one. -/
  | popFront
  /-- Remove the last value, if there is one. -/
  | popBack

namespace DequeOp

/-- The contents after an operation. -/
def run (l : List α) : DequeOp α → List α
  | pushFront values => values.reverse ++ l
  | pushBack values => l ++ values
  | popFront => l.tail
  | popBack => l.dropLast

/-- What an operation pushes. -/
def pushed : DequeOp α → List α
  | pushFront values | pushBack values => values
  | popFront | popBack => []

/-- What an operation pops. -/
def popped (l : List α) : DequeOp α → List α
  | pushFront _ | pushBack _ => []
  | popFront => l.head?.toList
  | popBack => l.getLast?.toList

/-- Values enter at the back and leave at the front. -/
def Forward : DequeOp α → Prop
  | pushBack _ | popFront => True
  | pushFront _ | popBack => False

/-- Values enter at the front and leave at the back. -/
def Backward : DequeOp α → Prop
  | pushFront _ | popBack => True
  | pushBack _ | popFront => False

end DequeOp

/-- A queue with its history. -/
structure Ledger (α : Type) where
  /-- What has been pushed. -/
  pushed : List α
  /-- What has been popped. -/
  popped : List α
  /-- What is in the queue. -/
  contents : List α

namespace Ledger

/-- The history goes on. -/
def record (t : Ledger α) (op : DequeOp α) : Ledger α where
  pushed := t.pushed ++ op.pushed
  popped := t.popped ++ op.popped t.contents
  contents := op.run t.contents

/-- The ledger of a history that starts with an empty queue. -/
def of (ops : List (DequeOp α)) : Ledger α :=
  ops.foldl record ⟨[], [], []⟩

/-- One more operation. -/
theorem of_snoc (ops : List (DequeOp α)) (op : DequeOp α) :
    of (ops ++ [op]) = (of ops).record op := by
  rw [of, List.foldl_append, List.foldl_cons, List.foldl_nil, of]

/-- A property that holds at the start and is kept by the operations of a history holds at its
end. -/
theorem of_induction {P : Ledger α → Prop} {ops : List (DequeOp α)} (hstart : P ⟨[], [], []⟩)
    (hrecord : ∀ t, ∀ op ∈ ops, P t → P (t.record op)) : P (of ops) :=
  List.foldlRecOn (motive := P) ops record hstart fun t ht op hop => hrecord t op hop ht

/-! ### Nothing is lost -/

/-- What has been pushed has been popped or is still there. -/
def Balanced (t : Ledger α) : Prop :=
  (t.pushed : Multiset α) = t.popped + t.contents

/-- An operation neither loses nor duplicates values. -/
theorem balanced_record {t : Ledger α} (h : t.Balanced) (op : DequeOp α) :
    (t.record op).Balanced := by
  obtain ⟨pushed, popped, l⟩ := t
  have hold : (pushed : Multiset α) = popped + l := h
  unfold Balanced record
  cases op with
  | pushFront values =>
    simp only [DequeOp.pushed, DequeOp.popped, DequeOp.run, List.append_nil, ← Multiset.coe_add,
      hold, Multiset.coe_reverse]
    abel
  | pushBack values =>
    simp only [DequeOp.pushed, DequeOp.popped, DequeOp.run, List.append_nil, ← Multiset.coe_add,
      hold]
    abel
  | popFront =>
    simp only [DequeOp.pushed, DequeOp.popped, DequeOp.run, List.append_nil, hold]
    rcases l with _ | ⟨a, l⟩
    · rw [List.head?_nil, Option.toList_none, List.append_nil, List.tail_nil]
    · have hcons : ((a :: l : List α) : Multiset α) = ([a] : Multiset α) + l :=
        (Multiset.singleton_add a l).symm
      rw [List.head?_cons, Option.toList_some, List.tail_cons, ← Multiset.coe_add, add_assoc, hcons]
  | popBack =>
    simp only [DequeOp.pushed, DequeOp.popped, DequeOp.run, List.append_nil, hold]
    rcases List.eq_nil_or_concat l with rfl | ⟨l, a, rfl⟩
    · rw [List.getLast?_nil, Option.toList_none, List.append_nil, List.dropLast_nil]
    · rw [List.concat_eq_append, List.getLast?_concat, Option.toList_some, List.dropLast_concat,
        ← Multiset.coe_add, ← Multiset.coe_add]
      abel

/-- No history loses or duplicates values. -/
theorem balanced_of (ops : List (DequeOp α)) : (of ops).Balanced :=
  of_induction rfl fun _ op _ h => balanced_record h op

/-- The size of the queue is the difference of what has been pushed and popped. -/
theorem length_contents_of (ops : List (DequeOp α)) :
    (of ops).popped.length + (of ops).contents.length = (of ops).pushed.length := by
  have h := congrArg Multiset.card (balanced_of ops)
  simpa using h.symm

/-! ### Order -/

/-- Values that enter at the back and leave at the front keep their order. -/
theorem forward_of {ops : List (DequeOp α)} (hops : ∀ op ∈ ops, op.Forward) :
    (of ops).popped ++ (of ops).contents = (of ops).pushed := by
  refine of_induction (P := fun t => t.popped ++ t.contents = t.pushed) rfl fun t op hop h => ?_
  have hforward := hops op hop
  cases op with
  | pushBack values =>
    rw [record, DequeOp.run, DequeOp.pushed, DequeOp.popped, List.append_nil, ← List.append_assoc,
      h]
  | popFront =>
    rw [record, DequeOp.run, DequeOp.pushed, DequeOp.popped, List.append_nil, ← h]
    rcases t.contents with _ | ⟨a, l⟩ <;> simp
  | pushFront | popBack => exact hforward.elim

/-- Values that enter at the front and leave at the back keep their order. -/
theorem backward_of {ops : List (DequeOp α)} (hops : ∀ op ∈ ops, op.Backward) :
    (of ops).popped ++ (of ops).contents.reverse = (of ops).pushed := by
  refine of_induction (P := fun t => t.popped ++ t.contents.reverse = t.pushed) rfl
    fun t op hop h => ?_
  have hbackward := hops op hop
  cases op with
  | pushFront values =>
    rw [record, DequeOp.run, DequeOp.pushed, DequeOp.popped, List.append_nil, List.reverse_append,
      List.reverse_reverse, ← List.append_assoc, h]
  | popBack =>
    rw [record, DequeOp.run, DequeOp.pushed, DequeOp.popped, List.append_nil, ← h]
    rcases List.eq_nil_or_concat t.contents with hnil | ⟨l, a, hconcat⟩
    · simp [hnil]
    · simp [hconcat]
  | pushBack | popFront => exact hbackward.elim

end Ledger

end Foundation
