import SfqSched.RedBlack
import Mathlib.Logic.Function.Basic

namespace SfqSched

/-- `RB_ENTRY(type)`. A color is whether it is `RB_RED`. -/
structure RbEntry (α : Type) where
  left : Option α := none
  right : Option α := none
  parent : Option α := none
  color : Bool := false
  deriving DecidableEq, Repr

namespace RbEntry
variable {α : Type}

/-- `RB_LEFT` or `RB_RIGHT`. -/
def child (d : Side) (e : RbEntry α) : Option α :=
  match d with
  | .left => e.left
  | .right => e.right

def setChild (d : Side) (p : Option α) (e : RbEntry α) : RbEntry α :=
  match d with
  | .left => { e with left := p }
  | .right => { e with right := p }

/-- The entry with `near` on side `d`. -/
def on (d : Side) (near far parent : Option α) (color : Bool) : RbEntry α :=
  match d with
  | .left => ⟨near, far, parent, color⟩
  | .right => ⟨far, near, parent, color⟩

section on
variable (d : Side) (near far parent p : Option α) (color c : Bool)

/-- The fields of an entry, read from a side. -/
@[simp] theorem child_on : (on d near far parent color).child d = near := by cases d <;> rfl

@[simp] theorem child_flip_on : (on d near far parent color).child d.flip = far := by cases d <;> rfl

@[simp] theorem parent_on : (on d near far parent color).parent = parent := by cases d <;> rfl

@[simp] theorem color_on : (on d near far parent color).color = color := by cases d <;> rfl

/-- The fields of an entry, stored from a side. -/
@[simp] theorem setChild_on : (on d near far parent color).setChild d p = on d p far parent color := by cases d <;> rfl

@[simp] theorem setChild_flip_on : (on d near far parent color).setChild d.flip p = on d near p parent color := by
  cases d <;> rfl

@[simp] theorem setParent_on : { on d near far parent color with parent := p } = on d near far p color := by cases d <;> rfl

end on

end RbEntry

/-- The head of a tree and the `RB_ENTRY` of every element. -/
structure RbStore (α : Type) where
  root : Option α := none
  entry : α → RbEntry α := fun _ => {}

namespace RbStore
variable {α : Type} [DecidableEq α]

def child (h : RbStore α) (d : Side) (x : α) : Option α := (h.entry x).child d

def parent (h : RbStore α) (x : α) : Option α := (h.entry x).parent

def color (h : RbStore α) (x : α) : Bool := (h.entry x).color

def modEntry (h : RbStore α) (x : α) (f : RbEntry α → RbEntry α) : RbStore α :=
  { h with entry := Function.update h.entry x (f (h.entry x)) }

def setChild (h : RbStore α) (d : Side) (x : α) (p : Option α) : RbStore α := h.modEntry x (·.setChild d p)

def setParent (h : RbStore α) (x : α) (p : Option α) : RbStore α := h.modEntry x fun e => { e with parent := p }

def setColor (h : RbStore α) (x : α) (c : Bool) : RbStore α := h.modEntry x fun e => { e with color := c }

/-- `RB_SET`. -/
def set (h : RbStore α) (elm : α) (parent : Option α) : RbStore α := h.modEntry elm fun _ => ⟨none, none, parent, true⟩

/-- `RB_SET_BLACKRED`. -/
def setBlackred (h : RbStore α) (black red : α) : RbStore α := (h.setColor black false).setColor red true

/-- `if (child) RB_PARENT(child, field) = parent`. -/
def adopt (h : RbStore α) (child parent : Option α) : RbStore α :=
  match child with
  | some c => h.setParent c parent
  | none => h

/-- `if (parent)`, then the child pointer of `parent` to `elm` is overwritten, else the root. -/
def replaceChild (h : RbStore α) (parent : Option α) (elm : α) (new : Option α) : RbStore α :=
  match parent with
  | some p => if h.child .left p = some elm then h.setChild .left p new else h.setChild .right p new
  | none => { h with root := new }

/-- `RB_ROTATE_LEFT` and, with the sides exchanged, `RB_ROTATE_RIGHT`. Every caller
overwrites `tmp` before it reads it again. -/
def rotate (d : Side) (h : RbStore α) (elm : α) : Option (RbStore α) :=
  (h.child d.flip elm).map fun tmp =>
    let inner := h.child d tmp
    let h := h.setChild d.flip elm inner
    let h := h.adopt inner (some elm)
    let above := h.parent elm
    let h := h.setParent tmp above
    let h := h.replaceChild above elm (some tmp)
    let h := h.setChild d tmp (some elm)
    h.setParent elm (some tmp)

def rotateLeft (h : RbStore α) (elm : α) : Option (RbStore α) := h.rotate .left elm

def rotateRight (h : RbStore α) (elm : α) : Option (RbStore α) := h.rotate .right elm

section entries
variable {h : RbStore α} {x z : α} {f : RbEntry α → RbEntry α}

/-- A store to an entry. -/
@[simp] theorem entry_modEntry_self : (h.modEntry x f).entry x = f (h.entry x) := Function.update_self ..

theorem entry_modEntry_of_ne (other : z ≠ x) : (h.modEntry x f).entry z = h.entry z := Function.update_of_ne other ..

@[simp] theorem root_adopt (p q : Option α) : (h.adopt p q).root = h.root := by cases p <;> rfl

/-- A new parent is stored in one entry, if in any. -/
theorem entry_adopt_of_ne {p : Option α} (q : Option α) (other : p ≠ some z) : (h.adopt p q).entry z = h.entry z := by
  cases p with
  | none => rfl
  | some y =>
    have apart : z ≠ y := fun eq => other (by rw [eq])
    show (h.setParent y q).entry z = _
    exact entry_modEntry_of_ne apart

end entries

end RbStore

/-- The entries of the elements of a tree whose root has the given parent. -/
def RbStore.Links {α : Type} (h : RbStore α) (parent : Option α) : SearchTree Bool α → Prop
  | .leaf => True
  | .node k left x right =>
    h.entry x = ⟨left.top, right.top, parent, k⟩ ∧ h.Links (some x) left ∧ h.Links (some x) right

namespace SearchTree

/-- The node a place belongs to. -/
def owner {κ α : Type} : List (Frame κ α) → Option α
  | [] => none
  | f :: _ => some f.elt

@[simp] theorem owner_nil {κ α : Type} : owner ([] : List (Frame κ α)) = none := rfl

/-- The element above a hole is that of the innermost frame. -/
@[simp] theorem owner_cons {κ α : Type} (f : Frame κ α) (w : List (Frame κ α)) : owner (f :: w) = some f.elt := rfl

end SearchTree

open SearchTree

namespace RbStore
variable {α : Type} {h h' : RbStore α}

/-- The root, and the entries of the elements around a place with `hole` at its top. -/
def Holds (h : RbStore α) (hole : Option α) : List (Frame Bool α) → Prop
  | [] => h.root = hole
  | f :: w =>
    h.entry f.elt = .on f.side hole f.other.top (owner w) f.mark ∧ h.Links (some f.elt) f.other ∧ h.Holds (some f.elt) w

/-- The pointers are those of the tree. -/
structure Represents (h : RbStore α) (t : SearchTree Bool α) : Prop where
  root : h.root = t.top
  links : h.Links none t
  distinct : t.seq.Nodup

/-- No entry outside `l` differs. -/
def Off (l : List α) (h h' : RbStore α) : Prop := ∀ z, z ∉ l → h'.entry z = h.entry z

/-- Stores off a list compose. -/
theorem Off.trans {l : List α} {h'' : RbStore α} (first : Off l h h') (second : Off l h' h'') : Off l h h'' :=
  fun z out => (second z out).trans (first z out)

/-- The pointers of a subtree are those of its root and of the two below, seen from either side. -/
theorem links_on (h : RbStore α) (parent : Option α) (d : Side) (k : Bool) (a b : SearchTree Bool α) (x : α) :
    h.Links parent (on d k a x b) ↔
      h.entry x = .on d a.top b.top parent k ∧ h.Links (some x) a ∧ h.Links (some x) b := by
  cases d
  · rfl
  · show _ ∧ _ ∧ _ ↔ _
    rw [and_comm (a := h.Links (some x) a)]
    rfl

/-- The pointers of a subtree are in the entries of its elements. -/
theorem Links.congr {t : SearchTree Bool α} {parent : Option α} (links : h.Links parent t)
    (same : ∀ z ∈ t.seq, h'.entry z = h.entry z) : h'.Links parent t := by
  induction t generalizing parent with
  | leaf => trivial
  | node k left x right ihl ihr =>
    obtain ⟨entry, left, right⟩ := links
    exact ⟨(same x (by simp)).trans entry, ihl left fun z member => same z (by simp [member]),
      ihr right fun z member => same z (by simp [member])⟩

/-- The pointers around a hole are in the entries around it. -/
theorem Holds.congr {w : List (Frame Bool α)} {hole : Option α} (holds : h.Holds hole w) (root : h'.root = h.root)
    (same : ∀ z ∈ around w, h'.entry z = h.entry z) : h'.Holds hole w := by
  induction w generalizing hole with
  | nil => exact root.trans holds
  | cons f w ih =>
    obtain ⟨entry, links, rest⟩ := holds
    rw [around_cons] at same
    exact ⟨(same _ (by simp)).trans entry, links.congr fun z member => same z (by simp [member]),
      ih rest fun z member => same z (by simp [member])⟩

/-- A frame belongs to what is around the hole or to what is in it. -/
theorem holds_cons_iff (f : Frame Bool α) (w : List (Frame Bool α)) (t : SearchTree Bool α) :
    h.Holds t.top (f :: w) ∧ h.Links (some f.elt) t ↔ h.Holds (f.fill t).top w ∧ h.Links (owner w) (f.fill t) := by
  rw [Frame.fill, links_on, top_on, Holds]
  tauto

/-- A tree is in the store if its context is, and what is in the hole. -/
theorem represents_plug {w : List (Frame Bool α)} {t : SearchTree Bool α} :
    h.Represents (plug w t) ↔ h.Holds t.top w ∧ h.Links (owner w) t ∧ (t.seq ++ around w).Nodup := by
  rw [← (plug_seq_perm w t).nodup_iff, ← and_assoc]
  have links : (h.root = (plug w t).top ∧ h.Links none (plug w t)) ↔ (h.Holds t.top w ∧ h.Links (owner w) t) := by
    induction w generalizing t with
    | nil => rfl
    | cons f w ih =>
      rw [plug, ih, owner_cons, holds_cons_iff]
  rw [← links]
  exact ⟨fun all => ⟨⟨all.root, all.links⟩, all.distinct⟩, fun all => ⟨all.1.1, all.1.2, all.2⟩⟩

/-- The entry at a place. -/
theorem Represents.entry {w : List (Frame Bool α)} {d : Side} {k : Bool} {a b : SearchTree Bool α} {x : α}
    (all : h.Represents (plug w (on d k a x b))) : h.entry x = .on d a.top b.top (owner w) k :=
  ((links_on ..).mp (represents_plug.mp all).2.1).1

theorem top_mem {t : SearchTree Bool α} {z : α} (top : t.top = some z) : z ∈ t.seq := by
  cases t with
  | leaf => cases top
  | node k left x right =>
    cases top
    simp

variable [DecidableEq α]

/-- A subtree's new parent is stored in the subtree. -/
theorem entry_adopt_off (h : RbStore α) (t : SearchTree Bool α) (q : Option α) {z : α} (out : z ∉ t.seq) :
    (h.adopt t.top q).entry z = h.entry z :=
  entry_adopt_of_ne q fun top => out (top_mem top)

/-- A subtree under a new parent has its pointers but for the one up from its root. -/
theorem Links.adopt {t : SearchTree Bool α} {parent : Option α} (links : h.Links parent t) (distinct : t.seq.Nodup)
    (new : Option α) : (h.adopt t.top new).Links new t := by
  cases t with
  | leaf => trivial
  | node k left x right =>
    obtain ⟨entry, left', right'⟩ := links
    rw [seq_node, List.nodup_middle, List.nodup_cons, List.mem_append, not_or] at distinct
    show (h.setParent x new).Links new _
    refine ⟨?_, left'.congr fun z member => ?_, right'.congr fun z member => ?_⟩
    · rw [setParent, entry_modEntry_self, entry]
    · exact entry_modEntry_of_ne (ne_of_mem_of_not_mem member distinct.1.1)
    · exact entry_modEntry_of_ne (ne_of_mem_of_not_mem member distinct.1.2)

/-- What is put in a hole is stored around it. -/
theorem entry_replaceChild_off (h : RbStore α) (w : List (Frame Bool α)) (x : α) (new : Option α) {z : α}
    (out : z ∉ around w) : (h.replaceChild (owner w) x new).entry z = h.entry z := by
  cases w with
  | nil => rfl
  | cons f w =>
    have other : z ≠ f.elt := fun eq => out (by simp [eq])
    show (if _ then _ else _ : RbStore α).entry z = _
    split <;> exact entry_modEntry_of_ne other

/-- The hole has something else in it now, and around it all is as it was. -/
theorem Holds.replaceChild {w : List (Frame Bool α)} {x : α} (holds : h.Holds (some x) w) (distinct : (x :: around w).Nodup)
    (new : Option α) : (h.replaceChild (owner w) x new).Holds new w := by
  cases w with
  | nil => rfl
  | cons f w =>
    obtain ⟨entry, links, rest⟩ := holds
    rw [around_cons, List.nodup_cons, List.nodup_cons, List.mem_cons, List.mem_append, List.mem_append] at distinct
    obtain ⟨apart, alone, _⟩ := distinct
    have side : h.replaceChild (owner (f :: w)) x new = h.setChild f.side f.elt new := by
      show (if (h.entry f.elt).child .left = some x then _ else _ : RbStore α) = _
      rw [entry]
      obtain ⟨d, k, a, other⟩ := f
      cases d with
      | left => exact if_pos rfl
      | right => exact if_neg fun eq => apart (.inr (.inl (top_mem eq)))
    rw [side]
    refine ⟨?_, links.congr fun z member => ?_, rest.congr rfl fun z member => ?_⟩
    · rw [setChild, entry_modEntry_self, entry, RbEntry.setChild_on]
    · exact entry_modEntry_of_ne fun eq => alone (.inl (eq ▸ member))
    · exact entry_modEntry_of_ne fun eq => alone (.inr (eq ▸ member))

end RbStore

end SfqSched
