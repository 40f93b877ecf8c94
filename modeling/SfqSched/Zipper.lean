import SfqSched.SearchTree
import Mathlib.Data.List.Nodup
import Mathlib.Data.List.Perm.Basic

namespace SfqSched

/-- The two sides of a node. -/
inductive Side
  | left
  | right
  deriving DecidableEq, Repr

def Side.flip : Side → Side
  | .left => .right
  | .right => .left

@[simp] theorem Side.flip_ne (d : Side) : d.flip ≠ d := by cases d <;> simp [flip]

/-- There are two sides. -/
theorem Side.eq_flip {d d' : Side} (h : d ≠ d') : d = d'.flip := by cases d <;> cases d' <;> simp_all [flip]

namespace SearchTree
variable {κ α : Type}

/-- The node with `near` on side `d` and `far` on the other. -/
def on (d : Side) (k : κ) (near : SearchTree κ α) (a : α) (far : SearchTree κ α) : SearchTree κ α :=
  match d with
  | .left => .node k near a far
  | .right => .node k far a near

/-- A node taken apart as `on d` puts it together. -/
def view (d : Side) : SearchTree κ α → Option (κ × SearchTree κ α × α × SearchTree κ α)
  | .leaf => none
  | .node k left a right =>
    match d with
    | .left => some (k, left, a, right)
    | .right => some (k, right, a, left)

/-- The element at the root. -/
def top : SearchTree κ α → Option α
  | .leaf => none
  | .node _ _ a _ => some a

section on
variable (d : Side) (k : κ) (near far : SearchTree κ α) (a : α)

/-- What `on` puts together `view` takes apart. -/
@[simp] theorem view_on : (on d k near a far).view d = some (k, near, a, far) := by cases d <;> rfl

@[simp] theorem top_on : (on d k near a far).top = some a := by cases d <;> rfl

/-- From the other side the near child is the far one. -/
theorem on_flip : on d.flip k near a far = on d k far a near := by cases d <;> rfl

/-- Every node can be seen from either side. -/
theorem node_eq_on (left right : SearchTree κ α) : ∃ x y, node k left a right = on d k x a y := by
  cases d
  · exact ⟨left, right, rfl⟩
  · exact ⟨right, left, rfl⟩

theorem on_seq_perm : (on d k near a far).seq.Perm (a :: (near.seq ++ far.seq)) := by
  cases d
  · exact List.perm_middle
  · exact List.perm_middle.trans (List.perm_append_comm.cons a)

end on

/-- What `view` takes apart `on` puts together. -/
theorem view_eq_some {d : Side} {t near far : SearchTree κ α} {k : κ} {a : α} (h : t.view d = some (k, near, a, far)) :
    t = on d k near a far := by
  cases t with
  | leaf => cases h
  | node k' left a' right => cases d <;> · cases h; rfl

theorem view_eq_none {d : Side} {t : SearchTree κ α} (h : t.view d = none) : t = leaf := by
  cases t with
  | leaf => rfl
  | node k' left a' right => cases d <;> cases h

/-- A rotation. -/
theorem on_on_seq (d : Side) (k k' l l' : κ) (a b c : SearchTree κ α) (x y : α) :
    (on d k a x (on d k' b y c)).seq = (on d l (on d l' a x b) y c).seq := by
  cases d <;> simp [on]

/-- A node on the way down to some place of a tree: on which side of it the
place is, and what hangs on the other side. -/
structure Frame (κ α : Type) where
  side : Side
  mark : κ
  elt : α
  other : SearchTree κ α

def Frame.fill (f : Frame κ α) (t : SearchTree κ α) : SearchTree κ α := on f.side f.mark t f.elt f.other

/-- The way to the other subtree when `t` is in the place. -/
def Frame.swap (f : Frame κ α) (t : SearchTree κ α) : Frame κ α := ⟨f.side.flip, f.mark, f.elt, t⟩

theorem Frame.fill_swap (f : Frame κ α) (t u : SearchTree κ α) : (f.swap t).fill u = { f with other := u }.fill t :=
  on_flip ..

/-- The whole tree around a place. The frames are listed upward. -/
def plug : List (Frame κ α) → SearchTree κ α → SearchTree κ α
  | [], t => t
  | f :: w, t => plug w (f.fill t)

/-- What comes before the place in the in-order sequence. -/
def front : List (Frame κ α) → List α
  | [] => []
  | f :: w =>
    match f.side with
    | .left => front w
    | .right => front w ++ (f.other.seq ++ [f.elt])

/-- What comes after it. -/
def back : List (Frame κ α) → List α
  | [] => []
  | f :: w =>
    match f.side with
    | .left => f.elt :: (f.other.seq ++ back w)
    | .right => back w

/-- The elements around the place. -/
def around (w : List (Frame κ α)) : List α := w.flatMap fun f => f.elt :: f.other.seq

@[simp] theorem around_nil : around ([] : List (Frame κ α)) = [] := rfl

/-- Around a hole: the elements of all frames and of their other subtrees. -/
@[simp] theorem around_cons (f : Frame κ α) (w : List (Frame κ α)) :
    around (f :: w) = f.elt :: (f.other.seq ++ around w) := by
  simp [around]

@[simp] theorem around_append (w w' : List (Frame κ α)) : around (w ++ w') = around w ++ around w' := by
  simp [around]

/-- The order of a plugged tree: what is before the hole, the tree, what is after it. -/
theorem plug_seq (w : List (Frame κ α)) (t : SearchTree κ α) : (plug w t).seq = front w ++ (t.seq ++ back w) := by
  induction w generalizing t with
  | nil => simp [plug, front, back]
  | cons f w ih =>
    rw [plug, ih]
    obtain ⟨side, mark, elt, other⟩ := f
    cases side <;> simp [Frame.fill, on, front, back]

theorem plug_seq_congr {t u : SearchTree κ α} (w : List (Frame κ α)) (same : t.seq = u.seq) :
    (plug w t).seq = (plug w u).seq := by
  rw [plug_seq, plug_seq, same]

/-- The elements of a plugged tree are those of the tree and those around the hole. -/
theorem plug_seq_perm (w : List (Frame κ α)) (t : SearchTree κ α) : (plug w t).seq.Perm (t.seq ++ around w) := by
  induction w generalizing t with
  | nil => simp [plug]
  | cons f w ih =>
    refine (ih (f.fill t)).trans ?_
    rw [around_cons]
    exact ((on_seq_perm ..).append_right _).trans (by simpa using List.perm_middle.symm)

/-- Contexts compose. -/
theorem plug_append (w w' : List (Frame κ α)) (t : SearchTree κ α) : plug (w ++ w') t = plug w' (plug w t) := by
  induction w generalizing t with
  | nil => rfl
  | cons f w ih => exact ih _

theorem plug_deeper (way place : List (Frame κ α)) (k : κ) (left t : SearchTree κ α) (a : α) :
    plug place (node k left a (plug way t)) = plug (way ++ ⟨.right, k, a, left⟩ :: place) t := by
  rw [plug_append]
  rfl

@[simp] theorem front_append (w w' : List (Frame κ α)) : front (w ++ w') = front w' ++ front w := by
  induction w with
  | nil => simp [front]
  | cons f w ih =>
    obtain ⟨side, mark, elt, other⟩ := f
    cases side <;> simp [front, ih]

@[simp] theorem back_append (w w' : List (Frame κ α)) : back (w ++ w') = back w ++ back w' := by
  induction w with
  | nil => rfl
  | cons f w ih =>
    obtain ⟨side, mark, elt, other⟩ := f
    cases side <;> simp [back, ih]

/-- A way down to the left has nothing before it. -/
theorem front_lefts {w : List (Frame κ α)} (lefts : ∀ f ∈ w, f.side = .left) : front w = [] := by
  induction w with
  | nil => rfl
  | cons f w ih =>
    rw [List.forall_mem_cons] at lefts
    rw [front, lefts.1]
    exact ih lefts.2

/-- The place where `insertLeaf` hangs `a`. -/
def descend (before : α → α → Bool) (a : α) : SearchTree κ α → List (Frame κ α) → List (Frame κ α)
  | .leaf, w => w
  | .node k left x right, w =>
    if before a x then left.descend before a (⟨.left, k, x, right⟩ :: w)
    else right.descend before a (⟨.right, k, x, left⟩ :: w)

/-- A descent for an insertion goes to a leaf of the same tree. -/
theorem plug_descend (before : α → α → Bool) (a : α) (t : SearchTree κ α) (w : List (Frame κ α)) :
    plug (t.descend before a w) leaf = plug w t := by
  induction t generalizing w with
  | leaf => rfl
  | node k left x right ihl ihr =>
    unfold descend
    split
    · exact ihl _
    · exact ihr _

/-- Filling the leaf where the descent ends is the insertion. -/
theorem plug_descend_node (before : α → α → Bool) (mark : κ) (a : α) (t : SearchTree κ α) (w : List (Frame κ α)) :
    plug (t.descend before a w) (node mark leaf a leaf) = plug w (t.insertLeaf before mark a) := by
  induction t generalizing w with
  | leaf => rfl
  | node k left x right ihl ihr =>
    unfold descend insertLeaf
    split
    · exact ihl _
    · exact ihr _

section locate
variable [DecidableEq α] {e : α}

/-- The first place of `e` with the subtrees there. -/
def locate (e : α) :
    SearchTree κ α → List (Frame κ α) → Option (List (Frame κ α) × κ × SearchTree κ α × SearchTree κ α)
  | .leaf, _ => none
  | .node k left x right, w =>
    match left.locate e (⟨.left, k, x, right⟩ :: w) with
    | some place => some place
    | none => if x = e then some (w, k, left, right) else right.locate e (⟨.right, k, x, left⟩ :: w)

/-- A search misses only what is not there. -/
theorem locate_eq_none {t : SearchTree κ α} {w : List (Frame κ α)} : t.locate e w = none ↔ e ∉ t.seq := by
  induction t generalizing w with
  | leaf => simp [locate]
  | node k left x right ihl ihr =>
    unfold locate
    split
    · next found =>
      have : e ∈ left.seq := by
        by_contra absent
        exact Option.some_ne_none _ (found.symm.trans (ihl.mpr absent))
      simp [this]
    · next missed =>
      have absent := ihl.mp missed
      by_cases here : x = e
      · simp [here]
      · simp [here, ihr, absent, Ne.symm here]

/-- The place found is one of `e`, and no earlier one. -/
theorem locate_eq_some {t left right : SearchTree κ α} {w place : List (Frame κ α)} {k : κ}
    (found : t.locate e w = some (place, k, left, right)) :
    plug w t = plug place (node k left e right) ∧ e ∉ left.seq ∧ (e ∉ front w → e ∉ front place) := by
  induction t generalizing w with
  | leaf => cases found
  | node k' left' x right' ihl ihr =>
    unfold locate at found
    split at found
    · next inLeft =>
      cases found
      exact ihl inLeft
    · next missed =>
      split at found
      · next here =>
        cases found
        exact ⟨by rw [here], locate_eq_none.mp missed, id⟩
      · next other =>
        obtain ⟨whole, least, early⟩ := ihr found
        refine ⟨whole, least, fun absent => early ?_⟩
        have := locate_eq_none.mp missed
        simp [front, absent, this, Ne.symm other]

/-- A search comes to the subtree that has what it is for. -/
theorem locate_plug {t : SearchTree κ α} {place : List (Frame κ α)} (w : List (Frame κ α)) (inside : e ∈ t.seq)
    (absent : e ∉ front place) : (plug place t).locate e w = t.locate e (place ++ w) := by
  induction place generalizing t with
  | nil => rfl
  | cons f place ih =>
    obtain ⟨side, mark, elt, other⟩ := f
    cases side with
    | left =>
      rw [plug, ih (t := Frame.fill ⟨.left, mark, elt, other⟩ t) (by simp [Frame.fill, on, inside]) absent]
      obtain ⟨found, eq⟩ : ∃ found, t.locate e (⟨.left, mark, elt, other⟩ :: (place ++ w)) = some found :=
        Option.ne_none_iff_exists'.mp fun missed => locate_eq_none.mp missed inside
      simp [Frame.fill, on, locate, eq]
    | right =>
      simp only [front, List.mem_append, List.mem_singleton, not_or] at absent
      rw [plug, ih (t := Frame.fill ⟨.right, mark, elt, other⟩ t) (by simp [Frame.fill, on, inside]) absent.1]
      have missed : other.locate e (⟨.left, mark, elt, t⟩ :: (place ++ w)) = none := locate_eq_none.mpr absent.2.1
      simp [Frame.fill, on, locate, missed, Ne.symm absent.2.2]

end locate

/-- The first element with its place and what is on its right. -/
def first : SearchTree κ α → List (Frame κ α) → Option (List (Frame κ α) × κ × α × SearchTree κ α)
  | .leaf, _ => none
  | .node k left x right, w =>
    match left.first (⟨.left, k, x, right⟩ :: w) with
    | some place => some place
    | none => some (w, k, x, right)

theorem first_eq_none {t : SearchTree κ α} {w : List (Frame κ α)} : t.first w = none ↔ t = leaf := by
  cases t with
  | leaf => simp [first]
  | node k left x right =>
    unfold first
    split <;> simp

/-- The first element is at the end of the way to the left. -/
theorem first_eq_some {t right : SearchTree κ α} {w place : List (Frame κ α)} {k : κ} {a : α}
    (found : t.first w = some (place, k, a, right)) :
    ∃ way, place = way ++ w ∧ (∀ f ∈ way, f.side = .left) ∧ t = plug way (node k leaf a right) := by
  induction t generalizing w with
  | leaf => cases found
  | node k' left x right' ih _ =>
    unfold first at found
    split at found
    · next inLeft =>
      cases found
      obtain ⟨way, rfl, lefts, rfl⟩ := ih inLeft
      refine ⟨way ++ [⟨.left, k', x, right'⟩], by simp, fun f member => ?_, ?_⟩
      · rcases List.mem_append.mp member with earlier | last
        · exact lefts f earlier
        · rw [List.mem_singleton.mp last]
      · rw [plug_append]
        rfl
    · next missed =>
      cases found
      rw [first_eq_none.mp missed]
      exact ⟨[], rfl, by simp, rfl⟩

end SearchTree

end SfqSched
