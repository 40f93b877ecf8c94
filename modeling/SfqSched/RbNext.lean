import SfqSched.RbRemove

namespace SfqSched
open SearchTree

namespace RbStore
variable {α : Type} [DecidableEq α] {h : RbStore α} {w : List (Frame Bool α)} {x : α}

/-- The loop of `RB_NEXT` that goes up, and the step after it. -/
def climb : Nat → RbStore α → α → Option (Option α)
  | 0, _, _ => none
  | fuel + 1, h, elm =>
    match h.parent elm with
    | some parent => if h.child .right parent = some elm then h.climb fuel parent else some (some parent)
    | none => some none

/-- `RB_NEXT`. -/
def next (fuel : Nat) (h : RbStore α) (elm : α) : Option (Option α) :=
  match h.child .right elm with
  | some right => (h.leftmost fuel right).map some
  | none =>
    match h.parent elm with
    | some parent => if h.child .left parent = some elm then some (some parent) else h.climb fuel elm
    | none => h.climb fuel elm

theorem climb_spec {t : SearchTree Bool α} {fuel : Nat} (all : h.Represents (plug w t)) (top : t.top = some x)
    (enough : w.length < fuel) : h.climb fuel x = some (back w).head? := by
  induction w generalizing t x fuel with
  | nil =>
    obtain ⟨fuel, rfl⟩ : ∃ n, fuel = n + 1 := ⟨fuel - 1, by omega⟩
    rw [climb, Represents.parent (w := []) all top]
    rfl
  | cons f w ih =>
    rw [List.length_cons] at enough
    obtain ⟨fuel, rfl⟩ : ∃ n, fuel = n + 1 := ⟨fuel - 1, by omega⟩
    have parent : h.parent x = some f.elt := all.parent top
    have entry : h.entry f.elt = .on f.side t.top f.other.top (owner w) f.mark := Represents.entry (w := w) all
    have apart := all.apart top
    have above := ih (t := f.fill t) all (top_on ..) (show w.length < fuel by omega)
    rw [climb, parent]
    simp only [child, entry]
    obtain ⟨d, k, a, other⟩ := f
    cases d with
    | left => exact if_neg apart
    | right => exact (if_pos top).trans above

/-- `RB_NEXT` gives what comes next in the in-order sequence. -/
theorem next_spec {k : Bool} {left right : SearchTree Bool α} {fuel : Nat} (all : h.Represents (plug w (node k left x right)))
    (enough : (plug w (node k left x right)).seq.length < fuel) : h.next fuel x = some (right.seq ++ back w).head? := by
  have entry : h.entry x = ⟨left.top, right.top, owner w, k⟩ := Represents.entry (d := .left) all
  have child : h.child .right x = right.top := by rw [child, entry]; rfl
  have parent : h.parent x = owner w := by rw [RbStore.parent, entry]
  have size := length_le_size w (node k left x right)
  rw [seq_node, List.length_append, List.length_cons] at size
  rw [next, child]
  cases right with
  | leaf =>
    have above := climb_spec all rfl (show w.length < fuel by omega)
    cases w with
    | nil =>
      rw [parent]
      exact above
    | cons f w =>
      have below : h.entry f.elt = .on f.side (some x) f.other.top (owner w) f.mark := Represents.entry (w := w) all
      have apart := Represents.apart (t := node k left x leaf) all rfl
      rw [parent]
      simp only [RbStore.child, below, top, owner_cons]
      obtain ⟨d, c, a, other⟩ := f
      cases d with
      | left => exact if_pos rfl
      | right => exact (if_neg apart).trans above
  | node k' a y b =>
    obtain ⟨⟨way, k'', next, rest⟩, there⟩ : ∃ there, (node k' a y b).first [] = some there :=
      Option.ne_none_iff_exists'.mp fun none => by cases first_eq_none.mp none
    obtain ⟨way', _, lefts, eq⟩ := first_eq_some there
    have high : (node k' a y b).height ≤ fuel := by
      have := (node k' a y b).height_le_size
      omega
    have reached := leftmost_spec (w := ⟨.right, k, x, left⟩ :: w) all rfl there high
    show (h.leftmost fuel y).map some = _
    rw [reached, eq, plug_seq, front_lefts lefts]
    rfl

end RbStore

end SfqSched
