import SfqSched.Hierarchy
import Mathlib.Logic.Relation
import Mathlib.Data.List.Nodup

namespace SfqSched
open State Function

/-- `del_leaf_sfq`. -/
def delLeafSfq (s : State) (q : Gid) : State :=
  if (s.sfq q).onLeafList then
    (s.modRq fun rq => { rq with leafSfqList := rq.leafSfqList.erase q }).modSfq q fun sfq =>
      { sfq with onLeafList := false }
  else s

/-- `sched_group_destroy`; `none` is `EBUSY`. -/
def schedGroupDestroy (s : State) (g : Gid) : Option State :=
  if (s.grp g).children ≠ [] then none
  else if (s.grp g).threads ≠ [] then none
  else
    let s := delLeafSfq s (s.grp g).sfq
    (s.grp g).parent.map fun parent => s.modGrp parent fun sg => { sg with children := sg.children.erase g }

/-- `rq->leaf_sfq_list`, the queues that are marked, and the tree of the groups they belong to. -/
@[ext]
structure Leaves where
  list : List Gid
  onList : Gid → Bool
  parent : Gid → Option Gid
  children : Gid → List Gid
  above : Gid → Gid
  ngroups : Nat

def State.leaves (s : State) : Leaves where
  list := s.rq.leafSfqList
  onList q := (s.sfq q).onLeafList
  parent g := (s.grp g).parent
  children g := (s.grp g).children
  above g := (s.ent (.group g)).sfq
  ngroups := s.ngroups

namespace Leaves

/-- The group `a` is above the group `g`. -/
def Ancestor (x : Leaves) (g a : Gid) : Prop := Relation.TransGen (fun g p => x.parent g = some p) g a

/-- Each queue that is marked is on the list once, none belongs to a destroyed group, and no queue comes before that of
a descendant. -/
structure Ordered (x : Leaves) (freed : List Gid) : Prop where
  once : x.list.Nodup
  listed : ∀ q, q ∈ x.list ↔ x.onList q = true
  kept : ∀ q ∈ x.list, q < x.ngroups ∧ q ∉ freed
  order : x.list.Pairwise fun a b => ¬x.Ancestor b a

/-- A group is a child of an older one until it is destroyed. -/
structure Tree (x : Leaves) (freed : List Gid) : Prop where
  root : x.parent 0 = none
  parent : ∀ g, 0 < g → g < x.ngroups → x.parent g = some (x.above g) ∧ x.above g < g
  kids : ∀ g, 0 < g → g < x.ngroups → g ∉ freed → g ∈ x.children (x.above g)

/-- The queue is on the list already, or its group has not been destroyed and the queue of the group above is on it. -/
def fits (x : Leaves) (freed : List Gid) (q : Gid) : Bool :=
  x.onList q || (q ∉ freed && (x.parent q).any fun p => x.onList p)

/-- With every queue on the list those above it are on it, up to that of the root. -/
structure Ok (x : Leaves) (freed : List Gid) : Prop where
  tree : x.Tree freed
  ordered : x.Ordered freed
  root : x.onList 0 = true
  closed : ∀ q p, x.onList q = true → x.parent q = some p → x.onList p = true

/-- `add_leaf_sfq`. -/
def add (x : Leaves) (q : Gid) : Leaves :=
  if x.onList q then x
  else
    let list := match x.parent q with
      | some p => if x.onList p then x.list.flatMap fun y => if y = p then [q, y] else [y] else x.list ++ [q]
      | none => x.list ++ [q]
    { x with list := list, onList := update x.onList q true }

/-- `sched_group_create` of a group in `p`. -/
def create (x : Leaves) (p : Gid) : Leaves :=
  let g := x.ngroups
  { x with
    onList := update x.onList g false
    parent := update x.parent g (some p)
    children := update (update x.children g []) p (x.children p ++ [g])
    above := update x.above g p
    ngroups := g + 1 }

/-- `del_leaf_sfq`. -/
def del (x : Leaves) (q : Gid) : Leaves :=
  if x.onList q then { x with list := x.list.erase q, onList := update x.onList q false } else x

/-- `sched_group_destroy` of a group in `p`. -/
def destroy (x : Leaves) (g p : Gid) : Leaves :=
  let y := x.del g
  { y with children := update y.children p ((y.children p).erase g) }

variable {x : Leaves} {freed : List Gid} {q g a p : Gid}

/-- The ancestors of a group are its parent and the ancestors of the parent. -/
theorem Ancestor.cases (h : x.Ancestor g a) (parent : x.parent g = some p) : a = p ∨ x.Ancestor p a := by
  rcases Relation.TransGen.head'_iff.mp h with ⟨b, step, rest⟩
  rw [parent] at step
  obtain rfl := Option.some.inj step
  rcases Relation.reflTransGen_iff_eq_or_transGen.mp rest with rfl | more
  · exact .inl rfl
  · exact .inr more

namespace Tree

/-- What has a parent is not the root, and it is younger. -/
theorem parent_some (tree : x.Tree freed) (inside : q < x.ngroups) (parent : x.parent q = some p) :
    0 < q ∧ x.above q = p ∧ p < q := by
  have pos : 0 < q := by
    rcases Nat.eq_zero_or_pos q with rfl | pos
    · cases tree.root.symm.trans parent
    · exact pos
  obtain ⟨above, lower⟩ := tree.parent q pos inside
  cases Option.some.inj (above.symm.trans parent)
  exact ⟨pos, rfl, lower⟩

theorem older (tree : x.Tree freed) (above : x.Ancestor g a) (inside : g < x.ngroups) : a < g := by
  induction above with
  | single step => exact (tree.parent_some inside step).2.2
  | tail path step ih => exact (tree.parent_some (ih.trans inside) step).2.2.trans ih

/-- The root is above every other group. -/
theorem root_above (tree : x.Tree freed) (pos : 0 < q) (inside : q < x.ngroups) : x.Ancestor q 0 := by
  induction q using Nat.strong_induction_on with
  | _ q ih =>
    obtain ⟨parent, lower⟩ := tree.parent q pos inside
    rcases Nat.eq_zero_or_pos (x.above q) with top | more
    · exact .single (top ▸ parent)
    · exact .head parent (ih _ lower more (lower.trans inside))

end Tree

section add

/-- A queue whose parent's is on the list comes right before it. -/
theorem add_list (ordered : x.Ordered freed) (off : x.onList q = false) (parent : x.parent q = some p)
    (listed : x.onList p = true) :
    ∃ front back, x.list = front ++ p :: back ∧ (x.add q).list = front ++ q :: p :: back := by
  obtain ⟨front, back, split⟩ := List.append_of_mem ((ordered.listed p).mpr listed)
  refine ⟨front, back, split, ?_⟩
  have nodup := split ▸ ordered.once
  have apart : p ∉ front ∧ p ∉ back := by
    rw [List.nodup_middle, List.nodup_cons, List.mem_append, not_or] at nodup
    exact nodup.1
  have keep (l : List Gid) (clear : p ∉ l) : (l.flatMap fun y => if y = p then [q, y] else [y]) = l := by
    induction l with
    | nil => rfl
    | cons y rest ih =>
      simp only [List.mem_cons, not_or] at clear
      simp [Ne.symm clear.1, ih clear.2]
  simp [add, off, parent, listed, split, keep front apart.1, keep back apart.2]

theorem add_listed (on_q : x.onList q = true) : x.add q = x := if_pos on_q

/-- Only the list and the mark of the queue change. -/
theorem add_rest (x : Leaves) (q : Gid) : (x.add q).ngroups = x.ngroups ∧ (x.add q).parent = x.parent ∧
    (x.add q).children = x.children ∧ (x.add q).above = x.above ∧
    ∀ y, (x.add q).onList y = if y = q then true else x.onList y := by
  by_cases on_q : x.onList q = true
  · rw [add_listed on_q]
    refine ⟨rfl, rfl, rfl, rfl, fun y => ?_⟩
    split
    · rename_i same
      rw [same, on_q]
    · rfl
  · unfold add
    rw [if_neg on_q]
    refine ⟨rfl, rfl, rfl, rfl, fun y => ?_⟩
    by_cases same : y = q <;> simp [same]

theorem fits_add (fit : x.fits freed a) : (x.add q).fits freed a := by
  obtain ⟨_, parent, _, _, marks⟩ := add_rest x q
  have more {y : Gid} (there : x.onList y = true) : (x.add q).onList y = true := by
    rw [marks]
    split
    · rfl
    · exact there
  simp only [fits, Bool.or_eq_true, Bool.and_eq_true, decide_eq_true_eq, Option.any_eq_true] at fit ⊢
  rw [parent]
  rcases fit with there | ⟨kept, p, at_p, there⟩
  · exact .inl (more there)
  · exact .inr ⟨kept, p, at_p, more there⟩

/-- `add_leaf_sfq` keeps the order of a queue that fits. -/
theorem Ok.add (ok : x.Ok freed) (inside : q < x.ngroups) (fit : x.fits freed q) : (x.add q).Ok freed := by
  by_cases on_q : x.onList q = true
  · rw [add_listed on_q]
    exact ok
  have off : x.onList q = false := Bool.eq_false_iff.mpr on_q
  obtain ⟨ngroups, parents, children, above, marks⟩ := add_rest x q
  simp only [fits, off, Bool.false_or, Bool.and_eq_true, decide_eq_true_eq, Option.any_eq_true] at fit
  obtain ⟨kept, p, parent, on_p⟩ := fit
  obtain ⟨front, back, split, list⟩ := add_list ok.ordered off parent on_p
  have out : q ∉ x.list := mt (ok.ordered.listed q).mp on_q
  have same {a b : Gid} : (x.add q).Ancestor a b ↔ x.Ancestor a b := by
    unfold Ancestor
    rw [parents]
  have mem (y : Gid) : y ∈ (x.add q).list ↔ y = q ∨ y ∈ x.list := by
    rw [list, split]
    simp only [List.mem_append, List.mem_cons]
    tauto
  have order := split ▸ ok.ordered.order
  have once := split ▸ ok.ordered.once
  rw [List.pairwise_append] at order
  constructor
  case tree =>
    refine ⟨?_, ?_, ?_⟩
    · rw [parents]
      exact ok.tree.root
    · rw [parents, above, ngroups]
      exact ok.tree.parent
    · rw [children, above, ngroups]
      exact ok.tree.kids
  case ordered =>
    refine ⟨?_, fun y => ?_, fun y member => ?_, ?_⟩
    · rw [list]
      exact List.nodup_middle.mpr (List.nodup_cons.mpr ⟨split ▸ out, once⟩)
    · rw [mem, marks, ok.ordered.listed]
      by_cases here : y = q <;> simp [here]
    · rw [ngroups]
      rcases (mem y).mp member with rfl | old
      · exact ⟨inside, kept⟩
      · exact ok.ordered.kept y old
    · rw [list]
      refine List.Pairwise.imp (R := fun a b => ¬x.Ancestor b a) (fun apart above => apart (same.mp above)) ?_
      refine List.pairwise_append.mpr ⟨order.1, List.pairwise_cons.mpr ⟨fun y later below => ?_, order.2.1⟩,
        fun y early z later upward => ?_⟩
      · -- a listed descendant of the queue is one of its parent, so it comes before the parent
        have ofParent : x.Ancestor y p := below.tail parent
        rcases List.mem_cons.mp later with rfl | inBack
        · have lower := (ok.tree.parent_some inside parent).2.2
          exact Nat.lt_irrefl _ (ok.tree.older ofParent (lower.trans inside))
        · exact (List.pairwise_cons.mp order.2.1).1 y inBack ofParent
      · rcases List.mem_cons.mp later with rfl | old
        · rcases upward.cases parent with rfl | further
          · exact (List.nodup_append.mp once).2.2 y early y (by simp) rfl
          · exact order.2.2 y early p (by simp) further
        · exact order.2.2 y early z old upward
  case root =>
    rw [marks]
    split
    · rfl
    · exact ok.root
  case closed =>
    intro y z on_y at_z
    rw [parents] at at_z
    rw [marks] at on_y ⊢
    split at on_y
    · rename_i here
      cases Option.some.inj (at_z.symm.trans (here ▸ parent))
      rw [on_p, ite_self]
    · rw [ok.closed y z on_y at_z, ite_self]

/-- A queue that does not fit is put behind its ancestors, or belongs to a destroyed group. -/
theorem Ok.add_iff (ok : x.Ok freed) (inside : q < x.ngroups) : (x.add q).Ordered freed ↔ x.fits freed q := by
  refine ⟨fun after => ?_, fun fit => (ok.add inside fit).ordered⟩
  by_contra unfit
  simp only [fits, Bool.or_eq_true, Bool.and_eq_true, decide_eq_true_eq, Option.any_eq_true, not_or, not_and,
    not_exists] at unfit
  obtain ⟨on_q, unfit⟩ := unfit
  obtain ⟨_, parents, _, _, marks⟩ := add_rest x q
  have member : q ∈ (x.add q).list := (after.listed q).mpr (by simp [marks])
  have pos : 0 < q := by
    rcases Nat.eq_zero_or_pos q with rfl | pos
    · exact absurd ok.root on_q
    · exact pos
  have parent := (ok.tree.parent q pos inside).1
  have apart : ¬x.onList (x.above q) = true := unfit (after.kept q member).2 _ parent
  have list : (x.add q).list = x.list ++ [q] := by simp [Leaves.add, on_q, parent, apart]
  have order := after.order
  rw [list, List.pairwise_append] at order
  refine order.2.2 0 ((ok.ordered.listed 0).mpr ok.root) q (by simp) ?_
  unfold Ancestor
  rw [parents]
  exact ok.tree.root_above pos inside

end add

section groups

/-- A group is made in one of those there are. -/
theorem Ok.create (ok : x.Ok freed) (inside : p < x.ngroups) : (x.create p).Ok freed := by
  have other : p ≠ x.ngroups := inside.ne
  have split {g : Gid} (bound : g < x.ngroups + 1) : g = x.ngroups ∨ g ≠ x.ngroups ∧ g < x.ngroups := by
    rcases Nat.lt_succ_iff_lt_or_eq.mp bound with lt | eq
    · exact .inr ⟨lt.ne, lt⟩
    · exact .inl eq
  have positive : 0 < x.ngroups := Nat.zero_lt_of_lt inside
  have parents {g : Gid} (apart : g ≠ x.ngroups) : (x.create p).parent g = x.parent g := update_of_ne apart ..
  have marks {g : Gid} (apart : g ≠ x.ngroups) : (x.create p).onList g = x.onList g := update_of_ne apart ..
  have uppers {g : Gid} (apart : g ≠ x.ngroups) : (x.create p).above g = x.above g := update_of_ne apart ..
  have children {g c : Gid} (apart : g ≠ x.ngroups) (member : c ∈ x.children g) : c ∈ (x.create p).children g := by
    unfold Leaves.create
    dsimp only
    by_cases here : g = p
    · rw [here, update_self]
      exact List.mem_append_left _ (here ▸ member)
    · rw [update_of_ne here, update_of_ne apart]
      exact member
  have bound {q : Gid} (on_q : (x.create p).onList q = true) : q ≠ x.ngroups ∧ x.onList q = true ∧ q < x.ngroups := by
    have apart : q ≠ x.ngroups := by
      rintro rfl
      rw [show (x.create p).onList x.ngroups = false from update_self ..] at on_q
      cases on_q
    rw [marks apart] at on_q
    exact ⟨apart, on_q, (ok.ordered.kept q ((ok.ordered.listed q).mpr on_q)).1⟩
  constructor
  case tree =>
    refine ⟨(parents positive.ne).trans ok.tree.root, fun g pos lower => ?_, fun g pos lower alive => ?_⟩
    · rcases split lower with rfl | ⟨apart, lower⟩
      · have upper : (x.create p).above x.ngroups = p := update_self ..
        rw [upper]
        exact ⟨update_self .., inside⟩
      · rw [parents apart, uppers apart]
        exact ok.tree.parent g pos lower
    · rcases split lower with rfl | ⟨apart, lower⟩
      · rw [show (x.create p).above x.ngroups = p from update_self ..,
          show (x.create p).children p = x.children p ++ [x.ngroups] from update_self ..]
        exact List.mem_append_right _ (List.mem_singleton_self _)
      · rw [uppers apart]
        have up := (ok.tree.parent g pos lower).2
        exact children (up.trans lower).ne (ok.tree.kids g pos lower alive)
  case ordered =>
    refine ⟨ok.ordered.once, fun q => ?_, fun q member => ?_, ?_⟩
    · by_cases here : q = x.ngroups
      · subst here
        rw [show (x.create p).onList x.ngroups = false from update_self ..]
        exact iff_of_false (fun member => Nat.lt_irrefl _ (ok.ordered.kept _ member).1) Bool.false_ne_true
      · rw [marks here]
        exact ok.ordered.listed q
    · have before := ok.ordered.kept q member
      exact ⟨Nat.lt_succ_of_lt before.1, before.2⟩
    · refine ok.ordered.order.imp_of_mem fun {a b} at_a at_b apart above => apart ?_
      have lower := (ok.ordered.kept b at_b).1
      -- the way up from an old group never meets the new one
      clear at_a at_b apart
      induction above with
      | single step =>
        rw [parents lower.ne] at step
        exact .single step
      | tail _ step ih =>
        rw [parents ((ok.tree.older ih lower).trans lower).ne] at step
        exact ih.tail step
  case root => exact (marks positive.ne).trans ok.root
  case closed =>
    intro q r on_q parent
    obtain ⟨apart, on_q, lower⟩ := bound on_q
    rw [parents apart] at parent
    have up := (ok.tree.parent_some lower parent).2.2
    rw [marks (up.trans lower).ne]
    exact ok.closed q r on_q parent

/-- The list loses the queue, and the parent the group. -/
theorem Ordered.destroy_parts (ordered : x.Ordered freed) (g p : Gid) : (x.destroy g p).list = x.list.erase g ∧
    (∀ q, (x.destroy g p).onList q = if q = g then false else x.onList q) ∧ (x.destroy g p).parent = x.parent ∧
    (x.destroy g p).children = update x.children p ((x.children p).erase g) ∧ (x.destroy g p).above = x.above ∧
    (x.destroy g p).ngroups = x.ngroups := by
  unfold Leaves.destroy Leaves.del
  by_cases on_g : x.onList g = true
  · rw [if_pos on_g]
    refine ⟨rfl, fun q => ?_, rfl, rfl, rfl, rfl⟩
    by_cases here : q = g <;> simp [here]
  · rw [if_neg on_g]
    refine ⟨(List.erase_of_not_mem (mt (ordered.listed g).mp on_g)).symm, fun q => ?_, rfl, rfl, rfl, rfl⟩
    split
    · rename_i here
      rw [here, Bool.eq_false_iff.mpr on_g]
    · rfl

/-- A group without children is destroyed. -/
theorem Ok.destroy (ok : x.Ok freed) (inside : g < x.ngroups) (parent : x.parent g = some p)
    (childless : x.children g = []) : (x.destroy g p).Ok (g :: freed) := by
  have pos : 0 < g := (ok.tree.parent_some inside parent).1
  obtain ⟨list, marks, parents, children, uppers, ngroups⟩ := ok.ordered.destroy_parts g p
  generalize x.destroy g p = y at list marks parents children uppers ngroups ⊢
  have mem (q : Gid) : q ∈ x.list.erase g ↔ q ≠ g ∧ q ∈ x.list := ok.ordered.once.mem_erase_iff
  constructor
  case tree =>
    refine ⟨parents ▸ ok.tree.root, ?_, fun c young lower alive => ?_⟩
    · rw [parents, uppers, ngroups]
      exact ok.tree.parent
    · rw [ngroups] at lower
      have child := ok.tree.kids c young lower fun before => alive (List.mem_cons_of_mem _ before)
      rw [children, uppers]
      by_cases here : x.above c = p
      · rw [here, update_self]
        have other : c ≠ g := by
          rintro rfl
          exact alive List.mem_cons_self
        exact (List.mem_erase_of_ne other).mpr (here ▸ child)
      · rw [update_of_ne here]
        exact child
  case ordered =>
    refine ⟨list ▸ ok.ordered.once.erase g, fun q => ?_, fun q member => ?_, ?_⟩
    · rw [list, mem, marks, ok.ordered.listed]
      by_cases here : q = g <;> simp [here]
    · rw [list] at member
      obtain ⟨other, old⟩ := (mem q).mp member
      obtain ⟨lower, kept⟩ := ok.ordered.kept q old
      exact ⟨ngroups ▸ lower, fun gone => (List.mem_cons.mp gone).elim other kept⟩
    · have same {a b : Gid} : y.Ancestor a b ↔ x.Ancestor a b := by
        unfold Ancestor
        rw [parents]
      rw [list]
      exact (ok.ordered.order.sublist List.erase_sublist).imp fun apart above => apart (same.mp above)
  case root =>
    rw [marks, if_neg pos.ne]
    exact ok.root
  case closed =>
    intro q r on_q above
    rw [parents] at above
    rw [marks] at on_q ⊢
    split at on_q
    · cases on_q
    · have at_q := ok.ordered.kept q ((ok.ordered.listed q).mpr on_q)
      obtain ⟨young, upper, _⟩ := ok.tree.parent_some at_q.1 above
      have child := ok.tree.kids q young at_q.1 at_q.2
      rw [upper] at child
      rw [if_neg, ok.closed q r on_q above]
      rintro rfl
      rw [childless] at child
      cases child

end groups

end Leaves

section memory
variable {s s' : State} {q g p : Gid}

/-- The mark of a queue is set or cleared. -/
theorem leaves_mark (s : State) (q : Gid) (b : Bool) : (s.modSfq q fun sfq => { sfq with onLeafList := b }).leaves =
    { s.leaves with onList := update s.leaves.onList q b } := by
  refine Leaves.ext rfl (funext fun y => ?_) rfl rfl rfl rfl
  by_cases here : y = q <;> simp [State.leaves, modSfq, here]

theorem addLeafSfq_leaves (hier : s.view.Hier) (inside : q < s.ngroups) (lower : ∀ p, (s.grp q).parent = some p → p < q) :
    (addLeafSfq s q).leaves = s.leaves.add q := by
  -- a queue and its group have the same number
  have owner : (s.sfq q).group = q := hier.owner q inside
  by_cases on_q : (s.sfq q).onLeafList = true
  · rw [Leaves.add_listed (x := s.leaves) on_q]
    unfold addLeafSfq
    rw [if_pos on_q]
  unfold addLeafSfq Leaves.add
  rw [if_neg on_q, if_neg (show ¬s.leaves.onList q = true from on_q), owner]
  change (State.modSfq _ _ _).leaves = _
  rw [leaves_mark]
  have top : s.leaves.parent q = (s.grp q).parent := rfl
  rw [top]
  cases parent : (s.grp q).parent with
  | none => rfl
  | some p =>
    have sfq : (s.grp p).sfq = p := hier.groupSfq p ((lower p parent).trans inside)
    have mark : s.leaves.onList p = (s.sfq p).onLeafList := rfl
    dsimp only
    rw [sfq, mark]
    split <;> rfl

theorem delLeafSfq_leaves (s : State) (q : Gid) : (delLeafSfq s q).leaves = s.leaves.del q := by
  unfold delLeafSfq Leaves.del
  have mark : s.leaves.onList q = (s.sfq q).onLeafList := rfl
  rw [mark]
  split
  · rw [leaves_mark]
    rfl
  · rfl

theorem leaves_erase (s : State) (g p : Gid) : (s.modGrp p fun sg => { sg with children := sg.children.erase g }).leaves =
    { s.leaves with children := update s.leaves.children p ((s.leaves.children p).erase g) } := by
  refine Leaves.ext rfl rfl (funext fun y => ?_) (funext fun y => ?_) rfl rfl
  all_goals
    by_cases here : y = p <;> simp [State.leaves, modGrp, here]

/-- `sched_group_destroy` frees a group it finds without groups. -/
theorem schedGroupDestroy_leaves (hier : s.view.Hier) (inside : g < s.ngroups) (run : schedGroupDestroy s g = some s') :
    s.leaves.children g = [] ∧ ∃ p, s.leaves.parent g = some p ∧ s'.leaves = s.leaves.destroy g p := by
  have sfq : (s.grp g).sfq = g := hier.groupSfq g inside
  unfold schedGroupDestroy at run
  split at run
  · cases run
  · rename_i childless
    split at run
    · cases run
    · obtain ⟨p, parent, rfl⟩ := Option.map_eq_some_iff.mp run
      have leaves := delLeafSfq_leaves s (s.grp g).sfq
      rw [sfq] at leaves parent
      refine ⟨not_not.mp childless, p, ?_, ?_⟩
      · have kept : (delLeafSfq s g).leaves.parent = s.leaves.parent := by
          rw [leaves]
          unfold Leaves.del
          split <;> rfl
        rw [← kept]
        exact parent
      · rw [leaves_erase, sfq, leaves]
        rfl

end memory
end SfqSched
