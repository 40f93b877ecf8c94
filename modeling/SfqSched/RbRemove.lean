import SfqSched.RbEnqueue

namespace SfqSched
open SearchTree

namespace RbStore
variable {α : Type} [DecidableEq α] {h h₀ : RbStore α} {l : List α} {w : List (Frame Bool α)} {x : α}

/-- The first `if` of a round of `RB_REMOVE_COLOR`: a red `tmp` is rotated away. Returns the new `tmp`. -/
def freeSibling (h : RbStore α) (d : Side) (parent tmp : α) : Option (RbStore α × α) :=
  if h.color tmp then
    ((h.setBlackred tmp parent).rotate d parent).bind fun h => (h.child d.flip parent).map fun tmp => (h, tmp)
  else some (h, tmp)

/-- The inner `if` of the last round: unless the far child of `tmp` is red, the near one replaces `tmp`. -/
def redFar (h : RbStore α) (d : Side) (parent tmp : α) : Option (RbStore α × α) :=
  if (h.child d.flip tmp).any h.color then some (h, tmp)
  else
    (((h.paint (h.child d tmp) false).setColor tmp true).rotate d.flip tmp).bind fun h =>
      (h.child d.flip parent).map fun tmp => (h, tmp)

/-- The rest of the last round, up to `break`. -/
def lastRotation (h : RbStore α) (d : Side) (parent tmp : α) : Option (RbStore α) :=
  let h := h.setColor tmp (h.color parent)
  let h := h.setColor parent false
  let h := h.paint (h.child d.flip tmp) false
  h.rotate d parent

/-- `RB_REMOVE_COLOR`. The two branches of a round are each other's mirror images:
`d` is the side of `elm` below `parent`. `none` is a null pointer or no fuel. -/
def removeColor : Nat → RbStore α → Option α → Option α → Option (RbStore α)
  | 0, _, _, _ => none
  | fuel + 1, h, parent, elm =>
    if elm.any h.color = false ∧ elm ≠ h.root then
      parent.bind fun parent =>
        let d := h.sideOf parent elm
        (h.child d.flip parent).bind fun tmp =>
          (h.freeSibling d parent tmp).bind fun ⟨h, tmp⟩ =>
            if (h.child .left tmp).any h.color = false ∧ (h.child .right tmp).any h.color = false then
              let h := h.setColor tmp true
              removeColor fuel h (h.parent parent) (some parent)
            else
              (h.redFar d parent tmp).bind fun ⟨h, tmp⟩ =>
                (h.lastRotation d parent tmp).map fun h => h.paint h.root false
    else some (h.paint elm false)

/-- `while ((left = RB_LEFT(elm, field)) != NULL) elm = left`. -/
def leftmost : Nat → RbStore α → α → Option α
  | 0, _, _ => none
  | fuel + 1, h, elm =>
    match h.child .left elm with
    | some left => h.leftmost fuel left
    | none => some elm

/-- From the label `color` on. -/
def finish (fuel : Nat) (h : RbStore α) (color : Bool) (parent child : Option α) : Option (RbStore α) :=
  if color then some h else h.removeColor fuel parent child

/-- `child` takes the place of `elm` below `parent`. -/
def splice (h : RbStore α) (parent : Option α) (elm : α) (child : Option α) : RbStore α :=
  (h.adopt child parent).replaceChild parent elm child

/-- `elm` takes the place of `old`, with its `RB_ENTRY`. -/
def supplant (h : RbStore α) (elm old : α) : Option (RbStore α) :=
  let h := h.modEntry elm fun _ => h.entry old
  let h := h.replaceChild (h.parent old) old (some elm)
  (h.child .left old).map fun left =>
    let h := h.setParent left (some elm)
    h.adopt (h.child .right old) (some elm)

/-- The `do`/`while` loop of `RB_REMOVE`, which goes up from `left` with `RB_AUGMENT`, an empty macro. -/
def augment : Nat → RbStore α → Option α → Option (RbStore α)
  | _, h, none => some h
  | 0, _, some _ => none
  | fuel + 1, h, some left => h.augment fuel (h.parent left)

/-- `RB_REMOVE`. -/
def remove (fuel : Nat) (h : RbStore α) (elm : α) : Option (RbStore α) :=
  match h.child .left elm, h.child .right elm with
  | none, child => (h.splice (h.parent elm) elm child).finish fuel (h.color elm) (h.parent elm) child
  | child, none => (h.splice (h.parent elm) elm child).finish fuel (h.color elm) (h.parent elm) child
  | some _, some right =>
    let old := elm
    (h.leftmost fuel right).bind fun elm =>
      let child := h.child .right elm
      let parent := h.parent elm
      let color := h.color elm
      let h := h.splice parent elm child
      let parent := if h.parent elm = some old then some elm else parent
      (h.supplant elm old).bind fun h => (h.augment fuel parent).bind fun h => h.finish fuel color parent child

section round
variable {f : Frame Bool α} {t near far : SearchTree Bool α} {k : Bool} {s : α}

/-- Recolouring a child of the sibling. -/
theorem Over.paintNephew {d : Side} (spans : Over h₀ l h (plug (f :: w) t)) (other : f.other = on d k near s far) (c : Bool) :
    Over h₀ l (h.paint near.top c) (plug ({ f with other := on d k (near.recolor c) s far } :: w) t) := by
  have swapped : Over h₀ l h (plug (⟨d, k, s, far⟩ :: f.swap t :: w) near) := by
    rw [plug, plug, Frame.fill_swap]
    show Over h₀ l h (plug w ({ f with other := on d k near s far }.fill t))
    rw [← other]
    exact spans
  have painted := swapped.paint c
  rw [plug, plug, Frame.fill_swap] at painted
  exact painted

omit [DecidableEq α] in
/-- What is read of the sibling. -/
theorem Represents.sibling (all : h.Represents (plug (f :: w) t)) (other : f.other = on f.side k near s far) :
    h.child f.side s = near.top ∧ h.child f.side.flip s = far.top ∧ h.color s = k ∧
      near.top.any h.color = near.isRed ∧ far.top.any h.color = far.isRed := by
  have swapped : h.Represents (plug (f.swap t :: w) f.other) := represents_swap.mpr all
  rw [other] at swapped
  have entry := swapped.entry
  refine ⟨?_, ?_, ?_, Represents.redAt (w := ⟨f.side, k, s, far⟩ :: f.swap t :: w) swapped,
    Represents.redAt (w := ⟨f.side.flip, k, s, near⟩ :: f.swap t :: w) ?_⟩
  · rw [child, entry, RbEntry.child_on]
  · rw [child, entry, RbEntry.child_flip_on]
  · rw [RbStore.color, entry, RbEntry.color_on]
  · rw [plug, Frame.fill, on_flip]
    exact swapped

theorem lastRotation_spec (spans : Over h₀ l h (plug (f :: w) t)) (other : f.other = on f.side k near s far) :
    ∃ h', h.lastRotation f.side f.elt s = some h' ∧
      Over h₀ l h' (plug w (on f.side f.mark (on f.side false t f.elt near) s far.blacken)) := by
  have color : h.color f.elt = f.mark := by
    rw [Represents.color (w := w) (t := f.fill t) spans.all (top_on ..), Frame.fill, isRed_on]
  have one := spans.paintOther f.mark
  rw [other, top_on, recolor_on] at one
  have two := one.paintOwner false
  have read := (two.all.sibling rfl).2.1
  have three := two.paintNephew (d := f.side.flip) (k := f.mark) (s := s) (on_flip ..).symm false
  rw [on_flip] at three
  obtain ⟨h', run, done⟩ := Over.rotate (w := w) (d := f.side) (a := t) (x := f.elt) three
  refine ⟨h', ?_, done⟩
  unfold lastRotation
  rw [color]
  show (((h.setColor s f.mark).setColor f.elt false).paint
    (((h.setColor s f.mark).setColor f.elt false).child f.side.flip s) false).rotate f.side f.elt = some h'
  rw [show ((h.setColor s f.mark).setColor f.elt false).child f.side.flip s = far.top from read]
  exact run

omit [DecidableEq α] in
theorem Represents.nephews (all : h.Represents (plug (f :: w) t)) (other : f.other = on f.side k near s far) :
    ((h.child .left s).any h.color = false ∧ (h.child .right s).any h.color = false) ↔
      near.isRed = false ∧ far.isRed = false := by
  obtain ⟨childNear, childFar, _, redNear, redFar⟩ := all.sibling other
  rw [← redNear, ← redFar, ← childNear, ← childFar]
  cases f.side
  · rfl
  · exact and_comm

/-- A round that ends the repair. -/
theorem refill_done {u : SearchTree Bool α} (spans : Over h₀ l h (plug (f :: w) t))
    (other : f.other = on f.side false near s far) (done : f.refill t = .inl u) :
    ¬((h.child .left s).any h.color = false ∧ (h.child .right s).any h.color = false) ∧
      ∃ h₁ tmp h₂, h.redFar f.side f.elt s = some (h₁, tmp) ∧ h₁.lastRotation f.side f.elt tmp = some h₂ ∧
        Over h₀ l h₂ (plug w u) := by
  obtain ⟨childNear, childFar, _, redNear, redFar'⟩ := spans.all.sibling other
  rw [spans.all.nephews other]
  rw [Frame.refill, other, view_on] at done
  unfold redFar
  rw [childFar, redFar']
  by_cases red : far.isRed
  · simp only [red, if_true] at done ⊢
    cases done
    obtain ⟨h₂, run, last⟩ := lastRotation_spec spans other
    exact ⟨by simp, h, s, h₂, rfl, run, last⟩
  · simp only [red, Bool.false_eq_true, if_false] at done ⊢
    rcases found : near.view f.side with _ | ⟨_ | _, inner, a, outer⟩
    · rw [found] at done
      cases done
    · rw [found] at done
      cases done
    · rw [found] at done
      cases done
      have shape := view_eq_some found
      have one := spans.paintNephew other false
      rw [shape, recolor_on, top_on] at one
      have two := one.paintOther true
      rw [top_on, recolor_on] at two
      have before : Over h₀ l ((h.setColor a false).setColor s true) (plug (f.swap t :: w)
          (on f.side.flip true far s (on f.side.flip false outer a inner))) := by
        rw [on_flip, on_flip, plug, Frame.fill_swap]
        exact two
      obtain ⟨h₁, rotated, three⟩ := before.rotate
      rw [on_flip, on_flip, plug, Frame.fill_swap] at three
      have spans₁ : Over h₀ l h₁
          (plug ({ f with other := on f.side false inner a (on f.side true outer s far) } :: w) t) := three
      obtain ⟨h₂, run, last⟩ := lastRotation_spec spans₁ rfl
      rw [blacken_on] at last
      refine ⟨by simp [shape], h₁, a, h₂, ?_, run, last⟩
      rw [childNear, shape, top_on]
      show (((h.setColor a false).setColor s true).rotate f.side.flip s).bind _ = _
      rw [rotated, Option.bind_some, spans₁.all.other.1, top_on]
      rfl

/-- A round that leaves the lack one node further up. -/
theorem refill_short {u : SearchTree Bool α} (spans : Over h₀ l h (plug (f :: w) t))
    (other : f.other = on f.side false near s far) (short : f.refill t = .inr u) :
    ((h.child .left s).any h.color = false ∧ (h.child .right s).any h.color = false) ∧
      Over h₀ l (h.setColor s true) (plug w u) ∧ u.top = some f.elt ∧ u.isRed = f.mark := by
  rw [spans.all.nephews other]
  have one := spans.paintOther true
  rw [other, top_on, recolor_on] at one
  rw [Frame.refill, other, view_on] at short
  by_cases red : far.isRed
  · simp only [red, if_true] at short
    cases short
  · simp only [red, Bool.false_eq_true, if_false] at short
    rcases found : near.view f.side with _ | ⟨_ | _, inner, a, outer⟩
    · rw [found] at short
      cases short
      rw [view_eq_none found]
      exact ⟨⟨rfl, by simpa using red⟩, (view_eq_none found) ▸ one, top_on .., isRed_on ..⟩
    · rw [found] at short
      cases short
      refine ⟨⟨?_, by simpa using red⟩, one, top_on .., isRed_on ..⟩
      rw [view_eq_some found, isRed_on]
    · rw [found] at short
      cases short

omit [DecidableEq α] in
theorem plug_top (f : Frame Bool α) (w : List (Frame Bool α)) (t : SearchTree Bool α) :
    ∃ r ∈ around (f :: w), (plug (f :: w) t).top = some r := by
  induction w generalizing f t with
  | nil => exact ⟨f.elt, by simp, top_on ..⟩
  | cons g w ih =>
    obtain ⟨r, inside, top⟩ := ih g (f.fill t)
    refine ⟨r, ?_, top⟩
    rw [around_cons]
    exact List.mem_cons_of_mem _ (List.mem_append_right _ inside)

/-- A round begins. -/
theorem Represents.round (all : h.Represents (plug (f :: w) t)) (other : f.other = on f.side k near s far)
    (black : t.isRed = false) : (t.top.any h.color = false ∧ t.top ≠ h.root) ∧ h.sideOf f.elt t.top = f.side ∧
      h.child f.side.flip f.elt = some s := by
  have distinct := (List.nodup_append.mp (represents_plug.mp all).2.2).2.2
  refine ⟨⟨all.redAt.trans black, fun eq => ?_⟩, all.sideOf fun eq => ?_, ?_⟩
  · obtain ⟨r, inside, top⟩ := plug_top f w t
    rw [all.root, top] at eq
    exact distinct r (top_mem eq) r inside rfl
  · rw [other, top_on] at eq
    have inside : s ∈ around (f :: w) := by
      rw [around_cons, other]
      exact List.mem_cons_of_mem _ (List.mem_append_left _ ((on_seq_perm ..).mem_iff.mpr (List.mem_cons_self ..)))
    exact distinct s (top_mem eq.symm) s inside rfl
  · rw [all.other.1, other, top_on]

/-- The rotation at a red sibling. -/
theorem freeSibling_red {near' far' : SearchTree Bool α} {s' : α} (spans : Over h₀ l h (plug (f :: w) t))
    (other : f.other = on f.side true near s far) (shape : near = on f.side false near' s' far') :
    ∃ h₁, h.freeSibling f.side f.elt s = some (h₁, s') ∧
      Over h₀ l h₁ (plug ({ f with mark := true, other := near } :: ⟨f.side, false, s, far⟩ :: w) t) := by
  have color := (spans.all.sibling other).2.2.1
  have one := spans.paintOther false
  rw [other, top_on, recolor_on] at one
  have two := one.paintOwner true
  obtain ⟨h₁, run, done⟩ := Over.rotate (w := w) (d := f.side) (a := t) (x := f.elt) two
  have rotated : ((h.setColor s false).setColor f.elt true).rotate f.side f.elt = some h₁ := run
  have spans₁ : Over h₀ l h₁ (plug ({ f with mark := true, other := near } :: ⟨f.side, false, s, far⟩ :: w) t) := done
  refine ⟨h₁, ?_, spans₁⟩
  unfold freeSibling
  rw [if_pos color]
  show (((h.setColor s false).setColor f.elt true).rotate f.side f.elt).bind _ = _
  rw [rotated, Option.bind_some, spans₁.all.other.1, shape, top_on]
  rfl

theorem freeSibling_black (all : h.Represents (plug (f :: w) t)) (other : f.other = on f.side false near s far) :
    h.freeSibling f.side f.elt s = some (h, s) := by
  have color := (all.sibling other).2.2.1
  unfold freeSibling
  rw [color]
  rfl

end round

/-- The loop ends at a red node. -/
theorem removeColor_red {t : SearchTree Bool α} {parent : Option α} (all : h.Represents (plug w t)) (red : t.isRed = true)
    (fuel : Nat) : h.removeColor (fuel + 1) parent t.top = some (h.paint t.top false) := by
  rw [removeColor, all.redAt, red]
  rfl

theorem removeColor_spec {t : SearchTree Bool α} {fuel n : Nat} (spans : Over h₀ l h (plug w t)) (even : t.RedBlack n)
    (room : Room w (n + 1)) (enough : w.length < fuel) :
    ∃ h', h.removeColor fuel (owner w) t.top = some h' ∧ Over h₀ l h' (refit t w) := by
  obtain ⟨fuel, rfl⟩ : ∃ n, fuel = n + 1 := ⟨fuel - 1, by omega⟩
  fun_induction refit t w generalizing h n fuel with
  | case1 t => 
    refine ⟨h.paint t.top false, ?_, spans.paint (w := []) false⟩
    rw [removeColor, if_neg]
    exact fun both => both.2 spans.all.root.symm
  | case2 t f w red => 
    refine ⟨h.paint t.top false, ?_, spans.paint false⟩
    rw [removeColor, spans.all.redAt, red]
    rfl
  | case3 t f w black missed =>
    have leaf := room.1
    rw [view_eq_none missed] at leaf
    cases leaf
  | case4 t f w black near s far found u done =>
    have other := view_eq_some found
    obtain ⟨_, blackNear, evenNear, _⟩ := room.red_other other
    obtain ⟨near', s', far', shape, _⟩ := evenNear.black_on blackNear f.side
    obtain ⟨test, side, tmp⟩ := spans.all.round other (by simpa using black)
    obtain ⟨h₁, freed, spans₁⟩ := freeSibling_red spans other shape
    obtain ⟨red, h₂, tmp', h₃, far, last, spans₃⟩ := refill_done spans₁ shape done
    refine ⟨_, ?_, Over.paint (w := []) spans₃ false⟩
    rw [removeColor, if_pos test, owner_cons, Option.bind_some]
    simp only [side, tmp, Option.bind_some, freed]
    rw [if_neg red, far, Option.bind_some, last, Option.map_some, spans₃.all.root]
    rfl
  | case5 t f w black near s far found u short =>
    have other := view_eq_some found
    obtain ⟨_, blackNear, evenNear, _⟩ := room.red_other other
    obtain ⟨near', s', far', shape, _⟩ := evenNear.black_on blackNear f.side
    obtain ⟨test, side, tmp⟩ := spans.all.round other (by simpa using black)
    obtain ⟨h₁, freed, spans₁⟩ := freeSibling_red spans other shape
    obtain ⟨black', spans₂, top, red⟩ := refill_short spans₁ shape short
    obtain ⟨fuel, rfl⟩ : ∃ n, fuel = n + 1 := ⟨fuel - 1, by simp only [List.length_cons] at enough; omega⟩
    refine ⟨_, ?_, spans₂.paint false⟩
    rw [removeColor, if_pos test, owner_cons, Option.bind_some]
    simp only [side, tmp, Option.bind_some, freed]
    rw [if_pos black', show some f.elt = u.top from top.symm]
    exact removeColor_red spans₂.all red fuel
  | case6 t f w black near s far found u done =>
    have other := view_eq_some found
    obtain ⟨test, side, tmp⟩ := spans.all.round other (by simpa using black)
    obtain ⟨red, h₂, tmp', h₃, far, last, spans₃⟩ := refill_done spans other done
    refine ⟨_, ?_, Over.paint (w := []) spans₃ false⟩
    rw [removeColor, if_pos test, owner_cons, Option.bind_some]
    simp only [side, tmp, Option.bind_some, freeSibling_black spans.all other]
    rw [if_neg red, far, Option.bind_some, last, Option.map_some, spans₃.all.root]
  | case7 t f w black near s far found u short ih =>
    have other := view_eq_some found
    obtain ⟨test, side, tmp⟩ := spans.all.round other (by simpa using black)
    obtain ⟨black', spans₁, top, colour⟩ := refill_short spans other short
    have next : (h.setColor s true).parent f.elt = owner w := spans₁.all.parent top
    rw [List.length_cons] at enough
    obtain ⟨fuel, rfl⟩ : ∃ n, fuel = n + 1 := ⟨fuel - 1, by omega⟩
    obtain ⟨evenOther, rest⟩ := room
    rw [other, redBlack_black] at evenOther
    obtain ⟨u', done, _⟩ | ⟨u', short', _, evenU⟩ := Frame.refill_redBlack even other evenOther.1 evenOther.2
    · cases short.symm.trans done
    · cases short.symm.trans short'
      rw [removeColor, if_pos test, owner_cons, Option.bind_some]
      simp only [side, tmp, Option.bind_some, freeSibling_black spans.all other]
      rw [if_pos black', next, show some f.elt = u.top from top.symm]
      cases red : f.mark with
      | true =>
        rw [red] at colour
        rw [refit_red colour]
        exact ⟨_, removeColor_red spans₁.all colour fuel, spans₁.paint false⟩
      | false =>
        rw [red] at rest evenU
        exact ih spans₁ evenU rest fuel (by omega)

theorem finish_spec {t : SearchTree Bool α} {k : Bool} {fuel n : Nat} (all : h.Represents (plug w t)) (even : t.RedBlack n)
    (room : Room w (if k then n else n + 1)) (enough : w.length < fuel) :
    ∃ h', h.finish fuel k (owner w) t.top = some h' ∧ Over h (plug w t).seq h' (close k t w) := by
  have start : Over h (plug w t).seq h (plug w t) := ⟨all, fun _ _ => rfl, rfl⟩
  cases k with
  | true => exact ⟨h, rfl, start⟩
  | false => exact removeColor_spec start even room enough

/-- Taking out a node with at most one subtree. -/
theorem Represents.splice {d : Side} {k : Bool} {t : SearchTree Bool α} (all : h.Represents (plug w (on d k leaf x t))) :
    (h.splice (owner w) x t.top).Represents (plug w t) ∧ (h.splice (owner w) x t.top).entry x = h.entry x ∧
      Off (plug w (on d k leaf x t)).seq h (h.splice (owner w) x t.top) := by
  obtain ⟨holds, links, distinct⟩ := represents_plug.mp all
  rw [top_on] at holds
  rw [distinct_on, seq_leaf, List.nil_append] at distinct
  have below := (List.nodup_cons.mp distinct).2
  have new := (List.nodup_cons.mp distinct).1
  rw [List.mem_append, not_or] at new
  obtain ⟨distinctT, distinctUp, apart⟩ := List.nodup_append.mp below
  have inUp (z : α) (member : z ∈ around w) : z ∉ t.seq := fun inside => apart z inside z member rfl
  have adopted (z : α) (out : z ∉ t.seq) : (h.adopt t.top (owner w)).entry z = h.entry z := entry_adopt_off h t _ out
  have holds' : (h.adopt t.top (owner w)).Holds (some x) w :=
    holds.congr (root_adopt ..) fun z member => adopted z (inUp z member)
  have entry (z : α) (out : z ∉ around w) :
      (h.splice (owner w) x t.top).entry z = (h.adopt t.top (owner w)).entry z := entry_replaceChild_off _ _ _ _ out
  refine ⟨represents_plug.mpr ⟨?_, ?_, below⟩, ?_, fun z out => ?_⟩
  · exact holds'.replaceChild (List.nodup_cons.mpr ⟨new.2, distinctUp⟩) _
  · refine Links.congr (((links_on ..).mp links).2.2.adopt distinctT (owner w)) fun z member => entry z fun inside => ?_
    exact apart z member z inside rfl
  · rw [entry x new.2, adopted x new.1]
  · rw [(plug_seq_perm ..).mem_iff, List.mem_append, (on_seq_perm ..).mem_iff] at out
    simp only [seq_leaf, List.nil_append, List.mem_cons, not_or] at out
    rw [entry z out.2, adopted z out.1.2]

theorem Represents.supplant {k : Bool} {left right : SearchTree Bool α} {y : α}
    (all : h.Represents (plug w (node k left x right))) (new : y ∉ (plug w (node k left x right)).seq) (filled : left ≠ leaf) :
    ∃ h', h.supplant y x = some h' ∧ h'.Represents (plug w (node k left y right)) ∧
      Off (y :: (plug w (node k left x right)).seq) h h' := by
  obtain ⟨holds, ⟨entryX, linksL, linksR⟩, distinct⟩ := represents_plug.mp all
  change ((on .left k left x right).seq ++ around w).Nodup at distinct
  rw [distinct_on] at distinct
  rw [(plug_seq_perm ..).mem_iff, List.mem_append, seq_node, List.mem_append, List.mem_cons] at new
  push Not at new
  obtain ⟨⟨yL, yx, yR⟩, yUp⟩ := new
  obtain ⟨newX, below⟩ := List.nodup_cons.mp distinct
  simp only [List.mem_append, not_or] at newX
  obtain ⟨xL, xR, xUp⟩ := newX
  obtain ⟨distinctL, rest, apartL⟩ := List.nodup_append.mp below
  obtain ⟨distinctR, distinctUp, apartR⟩ := List.nodup_append.mp rest
  let h₁ := h.modEntry y fun _ => h.entry x
  let h₂ := h₁.replaceChild (owner w) x (some y)
  let h₃ := h₂.adopt left.top (some y)
  let h₄ := h₃.adopt right.top (some y)
  have entry₁ (z : α) (other : z ≠ y) : h₁.entry z = h.entry z := entry_modEntry_of_ne other
  have entry₁Y : h₁.entry y = h.entry x := entry_modEntry_self
  have entry₂ (z : α) (out : z ∉ around w) : h₂.entry z = h₁.entry z := entry_replaceChild_off _ _ _ _ out
  have entry₃ (z : α) (out : z ∉ left.seq) : h₃.entry z = h₂.entry z := entry_adopt_off _ _ _ out
  have entry₄ (z : α) (out : z ∉ right.seq) : h₄.entry z = h₃.entry z := entry_adopt_off _ _ _ out
  have parent : h₁.parent x = owner w := by rw [RbStore.parent, entry₁ x (Ne.symm yx), entryX]
  have entry₂X : h₂.entry x = ⟨left.top, right.top, owner w, k⟩ := by
    rw [entry₂ x xUp, entry₁ x (Ne.symm yx), entryX]
  have childL : h₂.child .left x = left.top := by rw [child, entry₂X]; rfl
  have childR : h₃.child .right x = right.top := by rw [child, entry₃ x xL, entry₂X]; rfl
  have holds₁ : h₁.Holds (some x) w := holds.congr rfl fun z member => entry₁ z (ne_of_mem_of_not_mem member yUp)
  have holds₂ : h₂.Holds (some y) w := holds₁.replaceChild (List.nodup_cons.mpr ⟨xUp, distinctUp⟩) _
  have links₂L : h₂.Links (some x) left := linksL.congr fun z member => by
    rw [entry₂ z fun inside => apartL z member z (List.mem_append_right _ inside) rfl,
      entry₁ z (ne_of_mem_of_not_mem member yL)]
  have links₂R : h₂.Links (some x) right := linksR.congr fun z member => by
    rw [entry₂ z fun inside => apartR z member z inside rfl, entry₁ z (ne_of_mem_of_not_mem member yR)]
  have run : h.supplant y x = some h₄ := by
    obtain ⟨l₀, top⟩ : ∃ l₀, left.top = some l₀ := by
      cases left with
      | leaf => exact absurd rfl filled
      | node k' a z b => exact ⟨z, rfl⟩
    rw [RbStore.supplant]
    show ((h₁.replaceChild (h₁.parent x) x (some y)).child .left x).map _ = _
    rw [parent, childL, top, Option.map_some]
    have third : h₃ = h₂.setParent l₀ (some y) := by
      show h₂.adopt left.top (some y) = _
      rw [top]
      rfl
    show some ((h₂.setParent l₀ (some y)).adopt ((h₂.setParent l₀ (some y)).child .right x) (some y)) = some h₄
    rw [← third, childR]
  refine ⟨h₄, run, represents_plug.mpr ⟨?_, ⟨?_, ?_, ?_⟩, ?_⟩, fun z out => ?_⟩
  · refine holds₂.congr ((root_adopt ..).trans (root_adopt ..)) fun z member => ?_
    rw [entry₄ z fun inside => apartR z inside z member rfl,
      entry₃ z fun inside => apartL z inside z (List.mem_append_right _ member) rfl]
  · rw [entry₄ y yR, entry₃ y yL, entry₂ y yUp, entry₁Y, entryX]
  · refine (links₂L.adopt distinctL (some y)).congr fun z member => entry₄ z fun inside => ?_
    exact apartL z member z (List.mem_append_left _ inside) rfl
  · refine Links.adopt (links₂R.congr fun z member => entry₃ z fun inside => ?_) distinctR (some y)
    exact apartL z inside z (List.mem_append_left _ member) rfl
  · show ((on .left k left y right).seq ++ around w).Nodup
    rw [distinct_on]
    refine List.nodup_cons.mpr ⟨?_, below⟩
    simp [yL, yR, yUp]
  · rw [List.mem_cons, (plug_seq_perm ..).mem_iff, List.mem_append, seq_node, List.mem_append, List.mem_cons] at out
    push Not at out
    obtain ⟨zy, ⟨zL, _, zR⟩, zUp⟩ := out
    rw [entry₄ z zR, entry₃ z zL, entry₂ z zUp, entry₁ z zy]

omit [DecidableEq α] in
/-- The loop for the successor finds the first element. -/
theorem leftmost_spec {t rest : SearchTree Bool α} {from' place : List (Frame Bool α)} {k : Bool} {a : α} {fuel : Nat}
    (all : h.Represents (plug w t)) (top : t.top = some x) (found : t.first from' = some (place, k, a, rest))
    (enough : t.height ≤ fuel) : h.leftmost fuel x = some a := by
  induction t generalizing w from' x fuel with
  | leaf => cases top
  | node k' left y right ih _ =>
    cases top
    rw [height] at enough
    obtain ⟨fuel, rfl⟩ : ∃ n, fuel = n + 1 := ⟨fuel - 1, by omega⟩
    have child : h.child .left y = left.top := by
      rw [child, Represents.entry (d := .left) all]
      rfl
    rw [leftmost, child]
    rw [first] at found
    cases left with
    | leaf =>
      cases found
      rfl
    | node k'' left' z right' =>
      have inside : ((node k'' left' z right').first (⟨.left, k', y, right⟩ :: from')).isSome := by
        rw [Option.isSome_iff_ne_none]
        exact fun none => by cases first_eq_none.mp none
      obtain ⟨place', eq⟩ := Option.isSome_iff_exists.mp inside
      rw [eq] at found
      cases found
      exact ih (w := ⟨.left, k', y, right⟩ :: w) all rfl eq (by omega)

omit [DecidableEq α] in
theorem length_le_size (w : List (Frame Bool α)) (t : SearchTree Bool α) :
    w.length + t.seq.length ≤ (plug w t).seq.length := by
  have around_length : w.length ≤ (around w).length := by
    induction w with
    | nil => rfl
    | cons f w ih =>
      rw [around_cons, List.length_cons, List.length_cons, List.length_append]
      omega
  rw [(plug_seq_perm w t).length_eq, List.length_append]
  omega

omit [DecidableEq α] in
theorem Off.mono {l' : List α} {h' : RbStore α} (off : Off l h h') (part : l ⊆ l') : Off l' h h' :=
  fun z out => off z fun inside => out (part inside)

omit [DecidableEq α] in
theorem plug_seq_subset (w : List (Frame Bool α)) {t u : SearchTree Bool α} (part : t.seq ⊆ u.seq) :
    (plug w t).seq ⊆ (plug w u).seq := by
  intro z member
  rw [(plug_seq_perm ..).mem_iff, List.mem_append] at member ⊢
  exact member.imp_left fun inside => part inside

omit [DecidableEq α] in
/-- The loop up ends at the root and has written nothing. -/
theorem augment_spec {t : SearchTree Bool α} {fuel : Nat} (all : h.Represents (plug w t)) (enough : w.length ≤ fuel) :
    h.augment fuel (owner w) = some h := by
  induction w generalizing t fuel with
  | nil =>
    rw [owner_nil, augment]
  | cons f w ih =>
    obtain ⟨fuel, rfl⟩ : ∃ n, fuel = n + 1 := ⟨fuel - 1, by rw [List.length_cons] at enough; omega⟩
    have entry : h.entry f.elt = .on f.side t.top f.other.top (owner w) f.mark := Represents.entry (w := w) all
    have up : h.parent f.elt = owner w := by rw [RbStore.parent, entry]; cases f.side <;> rfl
    rw [owner_cons, augment, up]
    exact ih (t := f.fill t) all (by rw [List.length_cons] at enough; omega)

/-- The branch in which the successor takes the place of the node. -/
theorem remove_successor {place way : List (Frame Bool α)} {k k' : Bool} {left rest : SearchTree Bool α} {next : α}
    {fuel : Nat}
    (all : h.Represents (plug place (node k left x (plug way (node k' leaf next rest)))))
    (proper : (plug place (node k left x (plug way (node k' leaf next rest)))).Proper) (filled : left ≠ leaf)
    (enough : (plug place (node k left x (plug way (node k' leaf next rest)))).seq.length < fuel) :
    ∃ h', (((h.splice (h.parent next) next (h.child .right next)).supplant next x).bind fun h₂ =>
        (h₂.augment fuel
          (if (h.splice (h.parent next) next (h.child .right next)).parent next = some x then some next
            else h.parent next)).bind fun h₃ =>
          h₃.finish fuel (h.color next)
            (if (h.splice (h.parent next) next (h.child .right next)).parent next = some x then some next
              else h.parent next)
            (h.child .right next)) = some h' ∧
      h'.Represents (close k' rest (way ++ ⟨.right, k, next, left⟩ :: place)) ∧
      Off (plug place (node k left x (plug way (node k' leaf next rest)))).seq h h' := by
  rw [plug_deeper] at all proper enough ⊢
  have entry : h.entry next = ⟨none, rest.top, owner (way ++ ⟨.right, k, x, left⟩ :: place), k'⟩ :=
    Represents.entry (d := .left) all
  have child : h.child .right next = rest.top := by rw [child, entry]; rfl
  have parent : h.parent next = owner (way ++ ⟨.right, k, x, left⟩ :: place) := by rw [RbStore.parent, entry]
  have color : h.color next = k' := by rw [RbStore.color, entry]
  obtain ⟨spliced, still, off₁⟩ := Represents.splice (d := .left) all
  rw [child, parent, color]
  have parent₁ : (h.splice (owner (way ++ ⟨.right, k, x, left⟩ :: place)) next rest.top).parent next =
      owner (way ++ ⟨.right, k, x, left⟩ :: place) := by
    rw [RbStore.parent, still, entry]
  rw [parent₁]
  have distinct := (represents_plug.mp all).2.2
  have new : next ∉ (plug (way ++ ⟨.right, k, x, left⟩ :: place) rest).seq := by
    rw [(plug_seq_perm ..).mem_iff]
    exact (List.nodup_cons.mp distinct).1
  have distinctW : (around (way ++ ⟨.right, k, x, left⟩ :: place)).Nodup := (List.nodup_append.mp distinct).2.1
  rw [← plug_deeper] at spliced new
  obtain ⟨h₂, replaced, all₂, off₂⟩ := spliced.supplant new filled
  rw [plug_deeper] at all₂ off₂
  -- The parent of the gap, with the element that is there now.
  have owner' : (if owner (way ++ ⟨.right, k, x, left⟩ :: place) = some x then some next
      else owner (way ++ ⟨.right, k, x, left⟩ :: place)) = owner (way ++ ⟨.right, k, next, left⟩ :: place) := by
    cases way with
    | nil => exact if_pos rfl
    | cons v way =>
      refine if_neg fun eq => ?_
      have same : v.elt = x := Option.some.inj eq
      rw [List.cons_append, around_cons, List.nodup_cons] at distinctW
      exact distinctW.1 (by simp [same])
  obtain ⟨n, even, room, _⟩ := proper_plug.mp proper
  obtain ⟨m, rfl, _, evenRest, _⟩ := even.parts
  have size := length_le_size (way ++ ⟨.right, k, x, left⟩ :: place) (node k' leaf next rest)
  have short : (way ++ ⟨.right, k, next, left⟩ :: place).length < fuel := by
    simp only [List.length_append, List.length_cons] at size ⊢
    omega
  obtain ⟨h', run, done⟩ := finish_spec all₂ evenRest (room_replace room) short
  refine ⟨h', ?_, done.all, ?_⟩
  · rw [replaced, Option.bind_some, owner', augment_spec all₂ short.le, Option.bind_some]
    exact run
  · have inside : next ∈ (plug (way ++ ⟨.right, k, x, left⟩ :: place) (node k' leaf next rest)).seq :=
      (plug_seq_perm ..).mem_iff.mpr (by simp)
    refine off₁.trans ((off₂.mono ?_).trans (done.off.mono ?_))
    · refine List.cons_subset.mpr ⟨inside, plug_seq_subset _ fun z member => ?_⟩
      exact List.mem_cons_of_mem _ member
    · intro z member
      rw [(plug_seq_perm ..).mem_iff] at member ⊢
      simp only [on, List.mem_append, around_append, around_cons, List.mem_cons, seq_node, seq_leaf] at member ⊢
      tauto

/-- The pointers of `RB_REMOVE` do what the removal from the tree does. -/
theorem remove_spec {t : SearchTree Bool α} (all : h.Represents t) (proper : t.Proper) (inside : x ∈ t.seq) {fuel : Nat}
    (enough : t.seq.length < fuel) :
    ∃ h', h.remove fuel x = some h' ∧ h'.Represents (t.remove x) ∧ Off t.seq h h' := by
  obtain ⟨⟨place, k, left, right⟩, found⟩ : ∃ found, t.locate x [] = some found :=
    Option.ne_none_iff_exists'.mp fun missed => locate_eq_none.mp missed inside
  have whole : t = plug place (node k left x right) := (locate_eq_some found).1
  rw [SearchTree.remove, found]
  subst whole
  obtain ⟨n, even, room, _⟩ := proper_plug.mp proper
  obtain ⟨m, rfl, evenLeft, evenRight, _⟩ := even.parts
  have size := length_le_size place (node k left x right)
  have entry : h.entry x = ⟨left.top, right.top, owner place, k⟩ := Represents.entry (d := .left) all
  have childL : h.child .left x = left.top := by rw [child, entry]; rfl
  have childR : h.child .right x = right.top := by rw [child, entry]; rfl
  have parent : h.parent x = owner place := by rw [RbStore.parent, entry]
  have color : h.color x = k := by rw [RbStore.color, entry]
  rw [RbStore.remove, childL, childR]
  cases left with
  | leaf =>
    obtain ⟨spliced, _, off⟩ := Represents.splice (d := .left) all
    obtain ⟨h', run, done⟩ := finish_spec spliced evenRight room (show place.length < fuel by omega)
    refine ⟨h', ?_, done.all, off.trans (done.off.mono (plug_seq_subset place ?_))⟩
    · show (h.splice (h.parent x) x right.top).finish fuel (h.color x) (h.parent x) right.top = some h'
      rw [parent, color, run]
    · intro z member
      exact List.mem_cons_of_mem _ member
  | node k₁ a y b =>
    cases right with
    | leaf =>
      obtain ⟨spliced, _, off⟩ := Represents.splice (d := .right) all
      obtain ⟨h', run, done⟩ := finish_spec spliced evenLeft room (show place.length < fuel by omega)
      refine ⟨h', ?_, done.all, off.trans (done.off.mono (plug_seq_subset place ?_))⟩
      · show (h.splice (h.parent x) x (some y)).finish fuel (h.color x) (h.parent x) (some y) = some h'
        rw [parent, color]
        exact run
      · intro z member
        exact List.mem_append_left _ member
    | node k₂ c z d =>
      obtain ⟨⟨way, k', next, rest⟩, there⟩ : ∃ there, (node k₂ c z d).first [] = some there :=
        Option.ne_none_iff_exists'.mp fun none => by cases first_eq_none.mp none
      obtain ⟨way', same, _, eq⟩ := first_eq_some there
      rw [List.append_nil] at same
      subst same
      have high : (node k₂ c z d).height ≤ fuel := by
        have := (node k₂ c z d).height_le_size
        simp only [seq_node, List.length_append, List.length_cons] at this size
        omega
      have reached := leftmost_spec (w := ⟨.right, k, x, node k₁ a y b⟩ :: place) all rfl there high
      obtain ⟨h', run, done, off⟩ := remove_successor (eq ▸ all) (eq ▸ proper) (by simp) (eq ▸ enough)
      rw [← eq] at off
      refine ⟨h', ?_, ?_, off⟩
      · show (h.leftmost fuel z).bind _ = _
        rw [reached, Option.bind_some]
        exact run
      · simp only [there]
        exact done

end RbStore

end SfqSched
