import Mathlib.Data.List.Basic
import Mathlib.Data.List.Pairwise
import Mathlib.Tactic.Common

namespace SfqSched

/-- A binary tree with a decoration (a colour, say) at every node. Which
element goes to the left of which is decided by the inserting code only. -/
inductive SearchTree (κ α : Type)
  | leaf : SearchTree κ α
  | node : κ → SearchTree κ α → α → SearchTree κ α → SearchTree κ α

namespace SearchTree
variable {κ α : Type}

/-- The in-order sequence. -/
def seq : SearchTree κ α → List α
  | .leaf => []
  | .node _ left a right => left.seq ++ a :: right.seq

/-- Hang `a` below the last node met by the descent that goes left exactly
where `before a` holds. -/
def insertLeaf (before : α → α → Bool) (mark : κ) (a : α) : SearchTree κ α → SearchTree κ α
  | .leaf => .node mark .leaf a .leaf
  | .node k left x right =>
    if before a x then .node k (left.insertLeaf before mark a) x right
    else .node k left x (right.insertLeaf before mark a)

/-- Whether that descent never goes right. -/
def leftmostPath (before : α → α → Bool) (a : α) : SearchTree κ α → Bool
  | .leaf => true
  | .node _ left x _ => before a x && left.leftmostPath before a

@[simp] theorem seq_leaf : (leaf : SearchTree κ α).seq = [] := rfl

@[simp] theorem seq_node (k : κ) (left right : SearchTree κ α) (a : α) :
    (node k left a right).seq = left.seq ++ a :: right.seq := rfl

/-- A descent splits the in-order sequence at the place of the new element.
The path never turned right exactly if nothing comes before that place, and
where `before a` stays true once it is true, the place separates the elements
`a` is not before from those it is before. -/
theorem insertLeaf_seq (before : α → α → Bool) (mark : κ) (a : α) (t : SearchTree κ α) :
    ∃ front back, t.seq = front ++ back ∧ (t.insertLeaf before mark a).seq = front ++ a :: back ∧
      (t.leftmostPath before a = true ↔ front = []) ∧
      (t.seq.Pairwise (fun x y => before a x = true → before a y = true) →
        (∀ x ∈ front, before a x = false) ∧ ∀ x ∈ back, before a x = true) := by
  induction t with
  | leaf => exact ⟨[], [], rfl, rfl, by simp [leftmostPath], by simp⟩
  | node k left x right ihl ihr =>
    simp only [seq_node, List.pairwise_append, List.pairwise_cons]
    by_cases goes : before a x
    · obtain ⟨front, back, old, new, path, apart⟩ := ihl
      refine ⟨front, back ++ x :: right.seq, by simp [old], by simp [insertLeaf, goes, new],
        by simp only [leftmostPath, goes, Bool.true_and, path], ?_⟩
      rintro ⟨monoLeft, ⟨atRoot, _⟩, _⟩
      refine ⟨(apart monoLeft).1, fun y member => ?_⟩
      rcases List.mem_append.mp member with inBack | inRest
      · exact (apart monoLeft).2 y inBack
      · rcases List.mem_cons.mp inRest with rfl | inRight
        · exact goes
        · exact atRoot y inRight goes
    · obtain ⟨front, back, old, new, _, apart⟩ := ihr
      refine ⟨left.seq ++ x :: front, back, by simp [old], by simp [insertLeaf, goes, new],
        by simp [leftmostPath, goes], ?_⟩
      rintro ⟨_, ⟨_, monoRight⟩, across⟩
      refine ⟨fun y member => ?_, (apart monoRight).2⟩
      rcases List.mem_append.mp member with inLeft | inRest
      · by_contra ahead
        exact goes (across y inLeft x (List.mem_cons_self ..) (by simpa using ahead))
      · rcases List.mem_cons.mp inRest with rfl | inFront
        · simpa using goes
        · exact (apart monoRight).1 y inFront

theorem insertLeaf_perm (before : α → α → Bool) (mark : κ) (a : α) (t : SearchTree κ α) :
    (t.insertLeaf before mark a).seq.Perm (a :: t.seq) := by
  obtain ⟨front, back, old, new, _⟩ := t.insertLeaf_seq before mark a
  rw [old, new]
  exact List.perm_middle

end SearchTree

end SfqSched
