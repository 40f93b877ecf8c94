import SfqSched.Zipper
import Mathlib.Data.Nat.Log
import Mathlib.Tactic.Ring

namespace SfqSched.SearchTree
variable {α : Type}

/-- Whether the root is red. A leaf is black. -/
def isRed : SearchTree Bool α → Bool
  | .leaf => false
  | .node k _ _ _ => k

/-- The same tree with a root of another colour. -/
def recolor (c : Bool) : SearchTree Bool α → SearchTree Bool α
  | .leaf => .leaf
  | .node _ left a right => .node c left a right

def blacken (t : SearchTree Bool α) : SearchTree Bool α := t.recolor false

/-- A red-black tree: no red node has a red child, and every way down passes
`n` black nodes. -/
def RedBlack : SearchTree Bool α → Nat → Prop
  | .leaf, n => n = 0
  | .node true left _ right, n => left.isRed = false ∧ right.isRed = false ∧ left.RedBlack n ∧ right.RedBlack n
  | .node false left _ right, n => ∃ m, n = m + 1 ∧ left.RedBlack m ∧ right.RedBlack m

/-- A whole red-black tree has a black root. -/
def Proper (t : SearchTree Bool α) : Prop := t.isRed = false ∧ ∃ n, t.RedBlack n

section on
variable (d : Side) (k : Bool) (a b : SearchTree Bool α) (x : α) (n : Nat)

/-- The color of a node is the same from both sides. -/
@[simp] theorem isRed_on : (on d k a x b).isRed = k := by cases d <;> rfl

@[simp] theorem recolor_on (c : Bool) : (on d k a x b).recolor c = on d c a x b := by cases d <;> rfl

@[simp] theorem blacken_on : (on d k a x b).blacken = on d false a x b := recolor_on ..

/-- A red node has black children of its own height. -/
@[simp] theorem redBlack_red :
    (on d true a x b).RedBlack n ↔ a.isRed = false ∧ b.isRed = false ∧ a.RedBlack n ∧ b.RedBlack n := by
  cases d
  · rfl
  · show (_ ∧ _ ∧ _ ∧ _) ↔ _
    tauto

/-- A black node is one higher than its children. -/
@[simp] theorem redBlack_black : (on d false a x b).RedBlack (n + 1) ↔ a.RedBlack n ∧ b.RedBlack n := by
  cases d <;> simp [on, RedBlack, and_comm]

/-- So a black node is not of height 0. -/
theorem redBlack_black_pos (h : (on d false a x b).RedBlack n) : ∃ m, n = m + 1 := by
  cases d <;> exact ⟨h.choose, h.choose_spec.1⟩

end on

/-- Colors are not in the order. -/
@[simp] theorem recolor_seq (c : Bool) (t : SearchTree Bool α) : (t.recolor c).seq = t.seq := by cases t <;> rfl

@[simp] theorem blacken_seq (t : SearchTree Bool α) : t.blacken.seq = t.seq := recolor_seq ..

@[simp] theorem blacken_isRed (t : SearchTree Bool α) : t.blacken.isRed = false := by cases t <;> rfl

/-- A black root stays. -/
theorem blacken_of_black {t : SearchTree Bool α} (black : t.isRed = false) : t.blacken = t := by
  cases t with
  | leaf => rfl
  | node k left a right => cases black; rfl

/-- A red root that is made black gains a height. -/
theorem RedBlack.blacken_red {t : SearchTree Bool α} {n : Nat} (h : t.RedBlack n) (red : t.isRed = true) :
    t.blacken.RedBlack (n + 1) := by
  cases t with
  | leaf => cases red
  | node k left a right =>
    cases red
    exact ⟨n, rfl, h.2.2⟩

/-- To make the root black makes the tree proper. -/
theorem RedBlack.blacken {t : SearchTree Bool α} {n : Nat} (h : t.RedBlack n) : t.blacken.Proper := by
  refine ⟨blacken_isRed t, ?_⟩
  by_cases red : t.isRed
  · exact ⟨_, h.blacken_red red⟩
  · exact ⟨n, by rwa [blacken_of_black (by simpa using red)]⟩

theorem Proper.blacken {t : SearchTree Bool α} (h : t.Proper) : t.blacken.Proper := by
  rwa [blacken_of_black h.1]

/-- Whether the place must be black: it is the root, or below a red node. -/
def strict : List (Frame Bool α) → Bool
  | [] => true
  | f :: _ => f.mark

/-- The place has room for `n` black nodes. -/
def Room : List (Frame Bool α) → Nat → Prop
  | [], _ => True
  | f :: w, n =>
    f.other.RedBlack n ∧
      if f.mark then f.other.isRed = false ∧ strict w = false ∧ Room w n else Room w (n + 1)

/-- A plugged tree is proper if the tree fits in the room its context leaves. -/
theorem proper_plug {w : List (Frame Bool α)} {t : SearchTree Bool α} :
    (plug w t).Proper ↔ ∃ n, t.RedBlack n ∧ Room w n ∧ (strict w = true → t.isRed = false) := by
  induction w generalizing t with
  | nil => simp [plug, Proper, Room, strict, and_comm]
  | cons f w ih =>
    obtain ⟨side, mark, elt, other⟩ := f
    rw [plug, ih]
    cases mark with
    | true =>
      simp only [Frame.fill, isRed_on, redBlack_red, strict, Room, if_true]
      constructor
      · rintro ⟨n, ⟨black, blackOther, even, evenOther⟩, room, strict⟩
        exact ⟨n, even, ⟨evenOther, blackOther, by simpa using strict, room⟩, fun _ => black⟩
      · rintro ⟨n, even, ⟨evenOther, blackOther, loose, room⟩, strict⟩
        exact ⟨n, ⟨strict trivial, blackOther, even, evenOther⟩, room, by simp [loose]⟩
    | false =>
      simp only [Frame.fill, isRed_on, strict, Room]
      constructor
      · rintro ⟨n, even, room, -⟩
        obtain ⟨m, rfl⟩ := redBlack_black_pos _ _ _ _ _ even
        rw [redBlack_black] at even
        exact ⟨m, even.1, ⟨even.2, by simpa using room⟩, by simp⟩
      · rintro ⟨n, even, ⟨evenOther, room⟩, -⟩
        exact ⟨n + 1, (redBlack_black ..).mpr ⟨even, evenOther⟩, by simpa using room, by simp⟩

section mend

/-- The two rotations that end the repair of a red node `t` below the red `p`
and its parent `g`: one if `t` is on the outer side, otherwise both. -/
def Frame.turn (g p : Frame Bool α) (t : SearchTree Bool α) : SearchTree Bool α :=
  if p.side = g.side then on g.side false t p.elt (on g.side true p.other g.elt g.other)
  else
    match t.view g.side with
    | some (_, near, a, far) => on g.side false (on g.side true p.other p.elt near) a (on g.side true far g.elt g.other)
    | none => g.fill (p.fill t)

/-- Repair a tree whose one fault may be that `t` and the node above it are red. -/
def mend (t : SearchTree Bool α) : List (Frame Bool α) → SearchTree Bool α
  | [] => t.blacken
  | [p] => (p.fill t).blacken
  | p :: g :: w =>
    if p.mark then
      if g.other.isRed then
        mend ({ g with mark := true, other := g.other.blacken }.fill ({ p with mark := false }.fill t)) w
      else (plug w (g.turn p t)).blacken
    else (plug w (g.fill (p.fill t))).blacken

theorem Frame.fill_seq_congr {f g : Frame Bool α} {t u : SearchTree Bool α} (side : f.side = g.side) (elt : f.elt = g.elt)
    (others : f.other.seq = g.other.seq) (same : t.seq = u.seq) : (f.fill t).seq = (g.fill u).seq := by
  obtain ⟨d, k, a, other⟩ := f
  obtain ⟨d', k', a', other'⟩ := g
  simp only at side elt others
  subst side elt
  cases d <;> simp [fill, on, others, same]

/-- A rotation keeps the order. -/
theorem Frame.turn_seq (g p : Frame Bool α) (t : SearchTree Bool α) : (g.turn p t).seq = (g.fill (p.fill t)).seq := by
  obtain ⟨d, k, a, other⟩ := g
  obtain ⟨d', k', a', other'⟩ := p
  unfold turn
  split
  · next same =>
    simp only at same
    subst same
    cases d' <;> simp [fill, on]
  · next inner =>
    split
    · next found =>
      rw [view_eq_some found]
      have other : d' = d.flip := Side.eq_flip inner
      subst other
      cases d <;> simp [fill, on, Side.flip]
    · rfl

/-- Recoloring and rotating on the way up keeps the order. -/
theorem mend_seq (t : SearchTree Bool α) (w : List (Frame Bool α)) : (mend t w).seq = (plug w t).seq := by
  fun_induction mend t w with
  | case1 t => simp [plug]
  | case2 t p => simp [plug]
  | case3 t p g w red uncle ih =>
    rw [ih]
    exact plug_seq_congr _ (Frame.fill_seq_congr rfl rfl (by simp) (Frame.fill_seq_congr rfl rfl rfl rfl))
  | case4 t p g w red uncle =>
    rw [blacken_seq]
    exact plug_seq_congr _ (g.turn_seq p t)
  | case5 t p g w black => simp [plug]

/-- A rotation at a red node under a red parent makes the grandparent's place right. -/
theorem Frame.turn_redBlack {g p : Frame Bool α} {t : SearchTree Bool α} {n : Nat} (red : t.isRed = true) (even : t.RedBlack n)
    (evenP : p.other.RedBlack n) (blackP : p.other.isRed = false) (evenG : g.other.RedBlack n) (blackG : g.other.isRed = false) :
    (g.turn p t).RedBlack (n + 1) ∧ (g.turn p t).isRed = false := by
  unfold turn
  split
  · simp [even, evenP, blackP, evenG, blackG]
  · split
    · next found =>
      rw [view_eq_some found] at red even
      rw [isRed_on] at red
      subst red
      rw [redBlack_red] at even
      simp [even, evenP, blackP, evenG, blackG]
    · next missed =>
      rw [view_eq_none missed] at red
      cases red

/-- After an insertion the way up ends with a proper tree. -/
theorem mend_proper {t : SearchTree Bool α} {w : List (Frame Bool α)} {n : Nat} (red : t.isRed = true) (even : t.RedBlack n)
    (room : Room w n) : (mend t w).Proper := by
  fun_induction mend t w generalizing n with
  | case1 t => exact even.blacken
  | case2 t p =>
    obtain ⟨evenOther, rest⟩ := room
    have black : p.mark = false := by
      by_contra redP
      simp [redP, strict] at rest
    refine ⟨blacken_isRed _, n + 1, ?_⟩
    rw [Frame.fill, blacken_on, redBlack_black]
    exact ⟨even, evenOther⟩
  | case3 t p g w redP uncle ih =>
    obtain ⟨evenOther, rest⟩ := room
    rw [if_pos redP] at rest
    obtain ⟨blackOther, blackG, evenG, rest⟩ := rest
    rw [if_neg (by simpa [strict] using blackG)] at rest
    refine ih (n := n + 1) (by simp [Frame.fill]) ?_ rest
    simp [Frame.fill, even, evenOther, evenG.blacken_red uncle]
  | case4 t p g w redP uncle =>
    obtain ⟨evenOther, rest⟩ := room
    rw [if_pos redP] at rest
    obtain ⟨blackOther, blackG, evenG, rest⟩ := rest
    rw [if_neg (by simpa [strict] using blackG)] at rest
    obtain ⟨turned, black⟩ := Frame.turn_redBlack (g := g) (p := p) red even evenOther blackOther evenG (by simpa using uncle)
    exact Proper.blacken (proper_plug.mpr ⟨n + 1, turned, rest, fun _ => black⟩)
  | case5 t p g w black =>
    refine Proper.blacken ?_
    change (plug (p :: g :: w) t).Proper
    exact proper_plug.mpr ⟨n, even, room, fun strict => absurd strict black⟩

end mend

section refit

/-- One round of the repair below `f`, whose other side is a black node with one
black node more than `t`: done, or the lack is now that of the result. -/
def Frame.refill (f : Frame Bool α) (t : SearchTree Bool α) : SearchTree Bool α ⊕ SearchTree Bool α :=
  match f.other.view f.side with
  | none => .inr (f.fill t)
  | some (_, near, s, far) =>
    if far.isRed then .inl (on f.side f.mark (on f.side false t f.elt near) s far.blacken)
    else
      match near.view f.side with
      | some (true, inner, a, outer) =>
        .inl (on f.side f.mark (on f.side false t f.elt inner) a (on f.side false outer s far))
      | _ => .inr (on f.side f.mark t f.elt (on f.side true near s far))

/-- Repair a tree that lacks a black node on every way through `t`. -/
def refit (t : SearchTree Bool α) : List (Frame Bool α) → SearchTree Bool α
  | [] => t.blacken
  | f :: w =>
    if t.isRed then plug (f :: w) t.blacken
    else
      match f.other.view f.side with
      | none => plug (f :: w) t
      | some (true, near, s, far) =>
        match { f with mark := true, other := near }.refill t with
        | .inl u => (plug w (on f.side false u s far)).blacken
        | .inr u => plug w (on f.side false u.blacken s far)
      | some (false, _, _, _) =>
        match f.refill t with
        | .inl u => (plug w u).blacken
        | .inr u => refit u w

theorem Frame.refill_seq (f : Frame Bool α) (t : SearchTree Bool α) :
    (f.refill t).elim seq seq = (f.fill t).seq := by
  unfold refill
  split
  · rfl
  · next found =>
    have other := view_eq_some found
    split
    · rw [fill, other]
      cases f.side <;> simp [on]
    · split
      · next inner =>
        rw [fill, other, view_eq_some inner]
        cases f.side <;> simp [on]
      · rw [fill, other]
        cases f.side <;> simp [on]

/-- The way up after a removal keeps the order. -/
theorem refit_seq (t : SearchTree Bool α) (w : List (Frame Bool α)) : (refit t w).seq = (plug w t).seq := by
  fun_induction refit t w with
  | case1 t => simp [plug]
  | case2 t f w red => exact plug_seq_congr _ (blacken_seq t)
  | case3 t f w black missed => rfl
  | case4 t f w black near s far found u done =>
    rw [blacken_seq]
    have same := Frame.refill_seq { f with mark := true, other := near } t
    rw [done] at same
    refine plug_seq_congr _ ?_
    rw [Frame.fill, view_eq_some found]
    obtain ⟨d, k, a, other⟩ := f
    cases d <;> simp_all [on, Frame.fill]
  | case5 t f w black near s far found u short =>
    have same := Frame.refill_seq { f with mark := true, other := near } t
    rw [short] at same
    refine plug_seq_congr _ ?_
    rw [Frame.fill, view_eq_some found]
    obtain ⟨d, k, a, other⟩ := f
    cases d <;> simp_all [on, Frame.fill]
  | case6 t f w black near s far found u done =>
    have same := f.refill_seq t
    rw [done] at same
    rw [blacken_seq]
    exact plug_seq_congr _ same
  | case7 t f w black near s far found u short ih =>
    have same := f.refill_seq t
    rw [short] at same
    rw [ih]
    exact plug_seq_congr _ same

/-- What one round leaves: with the colour of `f` and nothing lacking, or still
lacking one, red exactly if `f` is. -/
theorem Frame.refill_redBlack {f : Frame Bool α} {t near far : SearchTree Bool α} {s : α} {n : Nat}
    (even : t.RedBlack n) (other : f.other = on f.side false near s far) (evenNear : near.RedBlack n) (evenFar : far.RedBlack n) :
    (∃ u, f.refill t = .inl u ∧ u.isRed = f.mark ∧ u.RedBlack (if f.mark then n + 1 else n + 2)) ∨
      ∃ u, f.refill t = .inr u ∧ u.isRed = f.mark ∧
        if f.mark then u.blacken.RedBlack (n + 1) else u.RedBlack (n + 1) := by
  unfold refill
  rw [other, view_on]
  by_cases redFar : far.isRed
  · left
    refine ⟨_, if_pos redFar, isRed_on .., ?_⟩
    have := evenFar.blacken_red redFar
    cases f.mark <;> simp [even, evenNear, this]
  · have blackFar : far.isRed = false := by simpa using redFar
    simp only [blackFar, Bool.false_eq_true, if_false]
    rcases found : near.view f.side with _ | ⟨_ | _, inner, a, outer⟩
    · right
      refine ⟨_, rfl, isRed_on .., ?_⟩
      have blackNear : near.isRed = false := by rw [view_eq_none found]; rfl
      cases f.mark <;> simp [even, evenNear, evenFar, blackNear, blackFar]
    · right
      refine ⟨_, rfl, isRed_on .., ?_⟩
      have blackNear : near.isRed = false := by rw [view_eq_some found, isRed_on]
      cases f.mark <;> simp [even, evenNear, evenFar, blackNear, blackFar]
    · left
      rw [view_eq_some found, redBlack_red] at evenNear
      refine ⟨_, rfl, isRed_on .., ?_⟩
      cases f.mark <;> simp [even, evenNear, evenFar]

/-- A red subtree that is short of a height becomes black, and that is all. -/
theorem refit_red {t : SearchTree Bool α} (red : t.isRed = true) (w : List (Frame Bool α)) :
    refit t w = plug w t.blacken := by
  cases w with
  | nil => rfl
  | cons f w => rw [refit, if_pos red]

/-- A black node with more than no black node below has two subtrees with one less. -/
theorem RedBlack.black_on {t : SearchTree Bool α} {n : Nat} (h : t.RedBlack (n + 1)) (black : t.isRed = false) (d : Side) :
    ∃ near a far, t = on d false near a far ∧ near.RedBlack n ∧ far.RedBlack n := by
  cases t with
  | leaf => cases h
  | node k left a right =>
    cases black
    obtain ⟨near, far, eq⟩ := node_eq_on d false a left right
    rw [eq, redBlack_black] at h
    exact ⟨near, a, far, eq, h.1, h.2⟩

theorem Room.red_other {f : Frame Bool α} {w : List (Frame Bool α)} {near far : SearchTree Bool α} {s : α} {n : Nat}
    (room : Room (f :: w) (n + 1)) (other : f.other = on f.side true near s far) :
    Room w (n + 2) ∧ near.isRed = false ∧ near.RedBlack (n + 1) ∧ far.RedBlack (n + 1) := by
  obtain ⟨evenOther, rest⟩ := room
  rw [other, redBlack_red] at evenOther
  have black : f.mark = false := by
    by_contra red
    simp [red, other] at rest
  rw [black] at rest
  exact ⟨rest, evenOther.1, evenOther.2.2⟩

/-- After a removal the way up ends with a proper tree. -/
theorem refit_proper {t : SearchTree Bool α} {w : List (Frame Bool α)} {n : Nat} (even : t.RedBlack n)
    (room : Room w (n + 1)) : (refit t w).Proper := by
  fun_induction refit t w generalizing n with
  | case1 t => exact even.blacken
  | case2 t f w red => exact proper_plug.mpr ⟨n + 1, even.blacken_red red, room, fun _ => blacken_isRed t⟩
  | case3 t f w black missed =>
    have leaf := room.1
    rw [view_eq_none missed] at leaf
    cases leaf
  | case4 t f w black near s far found u done =>
    obtain ⟨rest, blackNear, evenNear, evenFar⟩ := room.red_other (view_eq_some found)
    obtain ⟨near', a, far', eq, evenNear', evenFar'⟩ := evenNear.black_on blackNear f.side
    obtain ⟨u', done', redU, evenU⟩ | ⟨u', short, _⟩ :=
      Frame.refill_redBlack (f := { f with mark := true, other := near }) even eq evenNear' evenFar'
    · cases done.symm.trans done'
      refine Proper.blacken (proper_plug.mpr ⟨n + 2, ?_, rest, fun _ => isRed_on ..⟩)
      rw [redBlack_black]
      exact ⟨evenU, evenFar⟩
    · cases done.symm.trans short
  | case5 t f w black near s far found u short =>
    obtain ⟨rest, blackNear, evenNear, evenFar⟩ := room.red_other (view_eq_some found)
    obtain ⟨near', a, far', eq, evenNear', evenFar'⟩ := evenNear.black_on blackNear f.side
    obtain ⟨u', done, _⟩ | ⟨u', short', redU, evenU⟩ :=
      Frame.refill_redBlack (f := { f with mark := true, other := near }) even eq evenNear' evenFar'
    · cases short.symm.trans done
    · cases short.symm.trans short'
      refine proper_plug.mpr ⟨n + 2, ?_, rest, fun _ => isRed_on ..⟩
      rw [redBlack_black]
      exact ⟨evenU, evenFar⟩
  | case6 t f w black near s far found u done =>
    have other := view_eq_some found
    obtain ⟨evenOther, rest⟩ := room
    rw [other, redBlack_black] at evenOther
    obtain ⟨u', done', redU, evenU⟩ | ⟨u', short, _⟩ := Frame.refill_redBlack even other evenOther.1 evenOther.2
    · cases done.symm.trans done'
      refine Proper.blacken (proper_plug.mpr ⟨_, evenU, ?_⟩)
      cases red : f.mark
      · simp_all
      · simp_all
    · cases done.symm.trans short
  | case7 t f w black near s far found u short ih =>
    have other := view_eq_some found
    obtain ⟨evenOther, rest⟩ := room
    rw [other, redBlack_black] at evenOther
    obtain ⟨u', done, _⟩ | ⟨u', short', redU, evenU⟩ := Frame.refill_redBlack even other evenOther.1 evenOther.2
    · cases short.symm.trans done
    · cases short.symm.trans short'
      cases red : f.mark
      · rw [red] at rest evenU
        exact ih evenU rest
      · rw [red] at rest evenU redU
        rw [refit_red redU]
        exact proper_plug.mpr ⟨n + 1, evenU, rest.2.2, fun _ => blacken_isRed u⟩

end refit

section size

/-- The number of nodes on the longest way down. -/
def height {κ : Type} : SearchTree κ α → Nat
  | .leaf => 0
  | .node _ left _ right => max left.height right.height + 1

/-- No path is more than twice as long as another. -/
theorem RedBlack.height_le {t : SearchTree Bool α} {n : Nat} (h : t.RedBlack n) : t.height ≤ 2 * n + t.isRed.toNat := by
  induction t generalizing n with
  | leaf => simp [height]
  | node k left a right ihl ihr =>
    cases k with
    | true =>
      obtain ⟨blackLeft, blackRight, evenLeft, evenRight⟩ := h
      have hl := ihl evenLeft
      have hr := ihr evenRight
      rw [blackLeft] at hl
      rw [blackRight] at hr
      simp only [height, isRed, Bool.toNat_true, Bool.toNat_false] at hl hr ⊢
      omega
    | false =>
      obtain ⟨m, rfl, evenLeft, evenRight⟩ := h
      have hl := ihl evenLeft
      have hr := ihr evenRight
      have left_le := Bool.toNat_le left.isRed
      have right_le := Bool.toNat_le right.isRed
      simp only [height, isRed, Bool.toNat_false]
      omega

/-- A tree of a height has at least as many elements as a full one of black nodes. -/
theorem RedBlack.le_size {t : SearchTree Bool α} {n : Nat} (h : t.RedBlack n) : 2 ^ n ≤ t.seq.length + 1 := by
  induction t generalizing n with
  | leaf => simp [show n = 0 from h]
  | node k left a right ihl ihr =>
    rw [seq_node, List.length_append, List.length_cons]
    cases k with
    | true =>
      have := ihl h.2.2.1
      omega
    | false =>
      obtain ⟨m, rfl, evenLeft, evenRight⟩ := h
      have hl := ihl evenLeft
      have hr := ihr evenRight
      rw [pow_succ]
      omega

/-- A way down a red-black tree is logarithmically short. -/
theorem Proper.height_le {t : SearchTree Bool α} (h : t.Proper) : t.height ≤ 2 * Nat.log 2 (t.seq.length + 1) := by
  obtain ⟨black, n, even⟩ := h
  have short := even.height_le
  rw [black, Bool.toNat_false] at short
  have := Nat.le_log_of_pow_le (by omega) even.le_size
  omega

/-- A way down a tree is no longer than the tree has nodes. -/
theorem height_le_size {κ : Type} (t : SearchTree κ α) : t.height ≤ t.seq.length := by
  induction t with
  | leaf => simp [height]
  | node k left a right ihl ihr =>
    rw [seq_node, List.length_append, List.length_cons, height]
    omega

end size

section operations
variable [DecidableEq α]

/-- Repair the tree after `e` was hung into it as a red leaf. -/
def insertColor (t : SearchTree Bool α) (e : α) : SearchTree Bool α :=
  match t.locate e [] with
  | some (place, k, left, right) => mend (node k left e right) place
  | none => t

/-- Close the gap left by a node of colour `k` with the only subtree `t`. -/
def close (k : Bool) (t : SearchTree Bool α) (place : List (Frame Bool α)) : SearchTree Bool α :=
  if k then plug place t else refit t place

/-- Remove `e`. If it has two subtrees, its successor takes its place. -/
def remove (t : SearchTree Bool α) (e : α) : SearchTree Bool α :=
  match t.locate e [] with
  | none => t
  | some (place, k, left, right) =>
    match left, right.first [] with
    | .leaf, _ => close k right place
    | left, none => close k left place
    | left, some (way, k', next, rest) => close k' rest (way ++ ⟨.right, k, next, left⟩ :: place)

theorem insertColor_seq (t : SearchTree Bool α) (e : α) : (t.insertColor e).seq = t.seq := by
  unfold insertColor
  split
  · next place k left right found =>
    rw [mend_seq, ← (locate_eq_some found).1]
    rfl
  · rfl

/-- The search of the recoloring ends at the node just inserted. -/
theorem insertColor_plug {e : α} {place : List (Frame Bool α)} (absent : e ∉ front place) :
    (plug place (node true leaf e leaf)).insertColor e = mend (node true leaf e leaf) place := by
  have found : (plug place (node true leaf e leaf)).locate e [] = some (place, true, leaf, leaf) := by
    rw [locate_plug [] (by simp) absent]
    simp [locate]
  rw [insertColor, found]

/-- A node hung in by a descent and the repair keep the tree red-black. -/
theorem Proper.insert {t : SearchTree Bool α} (h : t.Proper) (before : α → α → Bool) {e : α} (new : e ∉ t.seq) :
    ((t.insertLeaf before true e).insertColor e).Proper := by
  have whole := plug_descend before e t []
  have grown := plug_descend_node before true e t []
  rw [plug] at whole grown
  rw [← whole, plug_seq] at new
  rw [← grown, insertColor_plug fun early => new (List.mem_append_left _ early)]
  rw [← whole, proper_plug] at h
  obtain ⟨n, even, room, _⟩ := h
  exact mend_proper rfl ⟨rfl, rfl, even, even⟩ room

omit [DecidableEq α] in

/-- A removed node's place is closed without disturbing the order. -/
theorem close_seq (k : Bool) (t : SearchTree Bool α) (place : List (Frame Bool α)) :
    (close k t place).seq = front place ++ (t.seq ++ back place) := by
  unfold close
  split
  · exact plug_seq place t
  · rw [refit_seq, plug_seq]

omit [DecidableEq α] in
theorem close_proper {k : Bool} {t : SearchTree Bool α} {place : List (Frame Bool α)} {n : Nat}
    (even : t.RedBlack n) (room : Room place (if k then n else n + 1)) (allowed : k = true → t.isRed = false) :
    (close k t place).Proper := by
  unfold close
  cases k with
  | true => exact proper_plug.mpr ⟨n, even, room, fun _ => allowed rfl⟩
  | false => exact refit_proper even room

/-- A removal takes one element out of the order. -/
theorem remove_seq (t : SearchTree Bool α) (e : α) : (t.remove e).seq = t.seq.erase e := by
  unfold remove
  split
  · next missed => exact (List.erase_of_not_mem (locate_eq_none.mp missed)).symm
  · next place k left right found =>
    obtain ⟨whole, least, early⟩ := locate_eq_some found
    have erased : t.seq.erase e = front place ++ (left.seq ++ (right.seq ++ back place)) := by
      rw [show t = plug place (node k left e right) from whole, plug_seq,
        List.erase_append_right _ (early (by simp [front])), seq_node, List.append_assoc,
        List.erase_append_right _ least, List.cons_append, List.erase_cons_head]
    rw [erased]
    split
    · rw [close_seq]
      rfl
    · next none =>
      rw [close_seq, first_eq_none.mp none]
      rfl
    · next way k' next rest _ there =>
      obtain ⟨way', same, lefts, rfl⟩ := first_eq_some there
      rw [List.append_nil] at same
      subst same
      rw [close_seq, plug_seq, front_lefts lefts]
      simp [front, back, front_lefts lefts]

omit [DecidableEq α] in
theorem RedBlack.parts {k : Bool} {left right : SearchTree Bool α} {a : α} {n : Nat} (h : (node k left a right).RedBlack n) :
    ∃ m, n = (if k then m else m + 1) ∧ left.RedBlack m ∧ right.RedBlack m ∧
      (k = true → left.isRed = false ∧ right.isRed = false) := by
  cases k with
  | true => exact ⟨n, rfl, h.2.2.1, h.2.2.2, fun _ => ⟨h.1, h.2.1⟩⟩
  | false =>
    obtain ⟨m, eq, evenLeft, evenRight⟩ := h
    exact ⟨m, eq, evenLeft, evenRight, by simp⟩

omit [DecidableEq α] in
/-- The elements do not matter. -/
theorem room_replace {way place : List (Frame Bool α)} {side : Side} {k : Bool} {a b : α} {other : SearchTree Bool α} {n : Nat}
    (h : Room (way ++ ⟨side, k, a, other⟩ :: place) n) : Room (way ++ ⟨side, k, b, other⟩ :: place) n := by
  induction way generalizing n with
  | nil => exact h
  | cons f way ih =>
    have same : strict (way ++ ⟨side, k, b, other⟩ :: place) = strict (way ++ ⟨side, k, a, other⟩ :: place) := by
      cases way <;> rfl
    rw [List.cons_append, Room] at h ⊢
    rw [same]
    refine ⟨h.1, ?_⟩
    split
    · next red =>
      rw [if_pos red] at h
      exact ⟨h.2.1, h.2.2.1, ih h.2.2.2⟩
    · next black =>
      rw [if_neg black] at h
      exact ih h.2

/-- A removal keeps the tree proper. -/
theorem Proper.remove {t : SearchTree Bool α} (h : t.Proper) (e : α) : (t.remove e).Proper := by
  unfold SearchTree.remove
  split
  · exact h
  · next place k left right found =>
    rw [show t = plug place (node k left e right) from (locate_eq_some found).1] at h
    obtain ⟨n, even, room, -⟩ := proper_plug.mp h
    obtain ⟨m, rfl, evenLeft, evenRight, allowed⟩ := even.parts
    split
    · exact close_proper evenRight room fun red => (allowed red).2
    · exact close_proper evenLeft room fun red => (allowed red).1
    · next way k' next rest _ there =>
      obtain ⟨way', same, _, rfl⟩ := first_eq_some there
      rw [List.append_nil] at same
      subst same
      rw [plug_deeper] at h
      obtain ⟨n, even, room, _⟩ := proper_plug.mp h
      obtain ⟨m, rfl, _, evenRest, allowed⟩ := even.parts
      exact close_proper evenRest (room_replace room) fun red => (allowed red).2

end operations

end SfqSched.SearchTree
