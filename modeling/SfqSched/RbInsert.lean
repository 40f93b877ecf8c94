import SfqSched.RbMoves

namespace SfqSched
open SearchTree

namespace RbStore
variable {α : Type} {h : RbStore α} {w : List (Frame Bool α)} {x : α}

section insertColor
variable [DecidableEq α]

/-- `RB_INSERT_COLOR`. The two branches of a round are each other's mirror images:
`d` is the side of `parent` below `gparent`. `none` is a null pointer or no fuel. -/
def insertColor : Nat → RbStore α → α → Option (RbStore α)
  | 0, _, _ => none
  | fuel + 1, h, elm =>
    match h.parent elm with
    | none => h.blackenRoot
    | some parent =>
      if h.color parent then
        (h.parent parent).bind fun gparent =>
          let d := h.sideOf gparent (some parent)
          let tmp := h.child d.flip gparent
          if tmp.any h.color then insertColor fuel ((h.paint tmp false).setBlackred parent gparent) gparent
          else if h.child d.flip parent = some elm then
            (h.rotate d parent).bind fun h =>
              ((h.setBlackred elm gparent).rotate d.flip gparent).bind fun h => insertColor fuel h parent
          else ((h.setBlackred parent gparent).rotate d.flip gparent).bind fun h => insertColor fuel h elm
      else h.blackenRoot

end insertColor

/-- No red node is on top. -/
def Capped (w : List (Frame Bool α)) : Prop := ∀ f ∈ w.getLast?, f.mark = false

theorem Capped.tail {f : Frame Bool α} (capped : Capped (f :: w)) : Capped w := by
  cases w with
  | nil => intro g member; cases member
  | cons g w => rwa [Capped, List.getLast?_cons_cons] at capped

theorem Represents.parent {t : SearchTree Bool α} (all : h.Represents (plug w t)) (top : t.top = some x) :
    h.parent x = owner w := by
  cases t with
  | leaf => cases top
  | node k left y right =>
    cases top
    rw [RbStore.parent, Represents.entry (d := .left) all, RbEntry.parent_on]

theorem Represents.color {t : SearchTree Bool α} (all : h.Represents (plug w t)) (top : t.top = some x) :
    h.color x = t.isRed := by
  cases t with
  | leaf => cases top
  | node k left y right =>
    cases top
    rw [RbStore.color, Represents.entry (d := .left) all, RbEntry.color_on]
    rfl

theorem Represents.redAt {t : SearchTree Bool α} (all : h.Represents (plug w t)) : t.top.any h.color = t.isRed := by
  cases t with
  | leaf => rfl
  | node k left y right => exact all.color rfl

variable [DecidableEq α]

omit [DecidableEq α] in
/-- What is read of the other subtree. -/
theorem Represents.other {f : Frame Bool α} {t : SearchTree Bool α} (all : h.Represents (plug (f :: w) t)) :
    h.child f.side.flip f.elt = f.other.top ∧ f.other.top.any h.color = f.other.isRed := by
  refine ⟨?_, Represents.redAt (represents_swap.mpr all)⟩
  rw [child, Represents.entry (w := w) all, RbEntry.child_flip_on]

/-- What a round reads on its way up. -/
theorem Represents.family {p g : Frame Bool α} {t : SearchTree Bool α} (child : h.Represents (plug (g :: w) (p.fill t)))
    (all : h.Represents (plug (p :: g :: w) t)) (top : t.top = some x) :
    h.parent x = some p.elt ∧ h.color p.elt = p.mark ∧ h.parent p.elt = some g.elt ∧
      h.sideOf g.elt (some p.elt) = g.side := by
  have filled : (p.fill t).top = some p.elt := top_on ..
  refine ⟨all.parent top, ?_, child.parent filled, ?_⟩
  · rw [child.color filled, Frame.fill, isRed_on]
  · rw [← filled]
    exact child.sideOf (filled ▸ child.apart filled)

/-- The loop ends below a black node. -/
theorem insertColor_stop {h₀ : RbStore α} {l : List α} {f : Frame Bool α} {t : SearchTree Bool α}
    (spans : Over h₀ l h (plug (f :: w) t)) (top : t.top = some x) (black : f.mark = false) (fuel : Nat) :
    ∃ h', h.insertColor (fuel + 1) x = some h' ∧ Over h₀ l h' (plug (f :: w) t).blacken := by
  have parent : h.parent x = some f.elt := spans.all.parent top
  have color : h.color f.elt = false := by
    rw [Represents.color (w := w) (t := f.fill t) spans.all (top_on ..), Frame.fill, isRed_on, black]
  obtain ⟨h', run, done⟩ := spans.blackenRoot (List.ne_nil_of_mem (spans.mem (top_mem top)))
  refine ⟨h', ?_, done⟩
  rw [insertColor, parent]
  simp only [color]
  exact run

theorem insertColor_spec {h₀ : RbStore α} {l : List α} {t : SearchTree Bool α} {fuel : Nat} (spans : Over h₀ l h (plug w t))
    (top : t.top = some x) (capped : Capped w) (enough : w.length < fuel) :
    ∃ h', h.insertColor fuel x = some h' ∧ Over h₀ l h' (mend t w) := by
  obtain ⟨fuel, rfl⟩ : ∃ n, fuel = n + 1 := ⟨fuel - 1, by omega⟩
  fun_induction mend t w generalizing h x fuel with
  | case1 t =>
    obtain ⟨h', run, done⟩ := Over.blackenRoot (t := t) spans (List.ne_nil_of_mem (Over.mem (w := []) spans (top_mem top)))
    refine ⟨h', ?_, done⟩
    rw [insertColor, Represents.parent (w := []) spans.all top]
    exact run
  | case2 t p => exact insertColor_stop spans top (capped p rfl) fuel
  | case3 t p g w red uncle ih =>
    have child : h.Represents (plug (g :: w) (p.fill t)) := spans.all
    obtain ⟨parent, color, gparent, side⟩ := child.family spans.all top
    obtain ⟨tmp, redTmp⟩ := child.other
    have one := Over.paintOther (f := g) (t := p.fill t) spans false
    have two := Over.paintOwner (f := p) (w := { g with other := g.other.recolor false } :: w) (t := t) one false
    have three := Over.paintOwner (t := { p with mark := false }.fill t) two true
    obtain ⟨fuel, rfl⟩ : ∃ n, fuel = n + 1 := ⟨fuel - 1, by simp only [List.length_cons] at enough; omega⟩
    obtain ⟨h', run, done⟩ := ih three (top_on ..) capped.tail.tail fuel (by simp only [List.length_cons] at enough; omega)
    refine ⟨h', ?_, done⟩
    rw [insertColor, parent]
    simp only [color, red, gparent, side, tmp, redTmp, uncle, Option.bind_some, if_true]
    exact run
  | case4 t p g w red uncle =>
    have child : h.Represents (plug (g :: w) (p.fill t)) := spans.all
    obtain ⟨parent, color, gparent, side⟩ := child.family spans.all top
    obtain ⟨tmp, redTmp⟩ := child.other
    obtain ⟨fuel, rfl⟩ : ∃ n, fuel = n + 1 := ⟨fuel - 1, by simp only [List.length_cons] at enough; omega⟩
    rw [insertColor, parent]
    simp only [color, red, gparent, side, tmp, redTmp, uncle, Option.bind_some, if_true, Bool.false_eq_true, if_false]
    by_cases same : p.side = g.side
    · have outer : h.child g.side.flip p.elt ≠ some x := by
        rw [← same, spans.all.other.1]
        exact spans.all.apart top
      have one := Over.paintOwner (f := p) (t := t) spans false
      have two := Over.paintOwner (t := { p with mark := false }.fill t) one true
      have shape : plug w ({ g with mark := true }.fill ({ p with mark := false }.fill t)) =
          plug w (on g.side.flip true g.other g.elt (on g.side.flip false p.other p.elt t)) := by
        rw [on_flip, on_flip, Frame.fill, Frame.fill, same]
      obtain ⟨h', run, three⟩ := Over.rotate (shape ▸ two : Over h₀ l _ _)
      have turned : g.turn p t = (Frame.mk g.side false p.elt (on g.side true p.other g.elt g.other)).fill t := if_pos same
      rw [on_flip, on_flip] at three
      rw [turned]
      obtain ⟨h'', stop, done⟩ := insertColor_stop
        (f := ⟨g.side, false, p.elt, on g.side true p.other g.elt g.other⟩) three top rfl fuel
      refine ⟨h'', ?_, done⟩
      rw [if_neg outer]
      exact Option.bind_eq_some_iff.mpr ⟨h', run, stop⟩
    · have flip : p.side = g.side.flip := Side.eq_flip same
      have inner : h.child g.side.flip p.elt = some x := by
        rw [← flip, RbStore.child, Represents.entry (w := g :: w) spans.all, RbEntry.child_on, top]
      obtain ⟨k, near, far, rfl⟩ : ∃ k near far, t = on g.side k near x far := by
        cases t with
        | leaf => cases top
        | node k left y right =>
          cases top
          obtain ⟨near, far, eq⟩ := node_eq_on g.side k x left right
          exact ⟨k, near, far, eq⟩
      have shape : p.fill (on g.side k near x far) = on g.side p.mark p.other p.elt (on g.side k near x far) := by
        rw [Frame.fill, flip, on_flip]
      have before : Over h₀ l h (plug (g :: w) (on g.side p.mark p.other p.elt (on g.side k near x far))) := by
        rw [← shape]
        exact spans
      obtain ⟨h₁, rotated, one⟩ := before.rotate
      have two := one.paint false
      rw [top_on, recolor_on] at two
      have three := two.paintOwner true
      have shape : plug ({ g with mark := true } :: w) (on g.side false (on g.side p.mark p.other p.elt near) x far) =
          plug w (on g.side.flip true g.other g.elt
            (on g.side.flip false far x (on g.side p.mark p.other p.elt near))) := by
        rw [on_flip, on_flip]
        rfl
      obtain ⟨h₂, again, four⟩ := Over.rotate (shape ▸ three : Over h₀ l _ _)
      rw [on_flip, on_flip, red] at four
      have turned : g.turn p (on g.side k near x far) =
          (Frame.mk g.side false x (on g.side true far g.elt g.other)).fill (on g.side true p.other p.elt near) := by
        rw [Frame.turn, if_neg same, view_on]
        rfl
      rw [turned]
      obtain ⟨h', stop, done⟩ := insertColor_stop
        (f := ⟨g.side, false, x, on g.side true far g.elt g.other⟩) four (top_on ..) rfl fuel
      refine ⟨h', ?_, done⟩
      rw [if_pos inner]
      exact Option.bind_eq_some_iff.mpr ⟨h₁, rotated, Option.bind_eq_some_iff.mpr ⟨h₂, again, stop⟩⟩
  | case5 t p g w black => exact insertColor_stop spans top (by simpa using black) fuel

end RbStore

end SfqSched
