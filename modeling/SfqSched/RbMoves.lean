import SfqSched.RbStore

namespace SfqSched
open SearchTree

namespace RbStore
variable {α : Type} {h : RbStore α} {w : List (Frame Bool α)} {d : Side} {k : Bool} {a b : SearchTree Bool α} {x : α}

theorem distinct_on (d : Side) (k : Bool) (a b : SearchTree Bool α) (x : α) (l : List α) :
    ((on d k a x b).seq ++ l).Nodup ↔ (x :: (a.seq ++ (b.seq ++ l))).Nodup := by
  have perm : ((on d k a x b).seq ++ l).Perm (x :: (a.seq ++ b.seq) ++ l) := (on_seq_perm ..).append_right _
  rw [perm.nodup_iff, List.cons_append, List.append_assoc]

variable [DecidableEq α]

theorem off_modEntry {l : List α} (f : RbEntry α → RbEntry α) (inside : x ∈ l) : Off l h (h.modEntry x f) :=
  fun _ out => entry_modEntry_of_ne (ne_of_mem_of_not_mem inside out).symm

/-- `if (elm) RB_COLOR(elm, field) = c`. -/
def paint (h : RbStore α) (elm : Option α) (c : Bool) : RbStore α :=
  match elm with
  | some x => h.setColor x c
  | none => h

theorem off_paint {l : List α} {t : SearchTree Bool α} (c : Bool) (inside : t.seq ⊆ l) : Off l h (h.paint t.top c) := by
  cases t with
  | leaf => exact fun _ _ => rfl
  | node k left x right =>
    show Off l h (h.setColor x c)
    exact off_modEntry _ (inside (by simp))

/-- Recolouring the root of a subtree. -/
theorem Represents.paint {t : SearchTree Bool α} (all : h.Represents (plug w t)) (c : Bool) :
    (h.paint t.top c).Represents (plug w (t.recolor c)) := by
  cases t with
  | leaf => exact all
  | node k left x right =>
    obtain ⟨holds, ⟨entry, linksL, linksR⟩, distinct⟩ := represents_plug.mp all
    have apart := distinct
    change ((on .left k left x right).seq ++ around w).Nodup at apart
    rw [distinct_on, List.nodup_cons] at apart
    have new := apart.1
    simp only [List.mem_append, not_or] at new
    show (h.setColor x c).Represents _
    refine represents_plug.mpr ⟨?_, ⟨?_, ?_, ?_⟩, distinct⟩
    · exact holds.congr rfl fun z member => entry_modEntry_of_ne (ne_of_mem_of_not_mem member new.2.2)
    · rw [RbStore.setColor, entry_modEntry_self, entry]
    · exact linksL.congr fun z member => entry_modEntry_of_ne (ne_of_mem_of_not_mem member new.1)
    · exact linksR.congr fun z member => entry_modEntry_of_ne (ne_of_mem_of_not_mem member new.2.1)

variable {k' : Bool} {c : SearchTree Bool α} {y : α}

/-- A rotation of the pointers is one of the tree. -/
theorem Represents.rotate (all : h.Represents (plug w (on d k a x (on d k' b y c)))) :
    ∃ h', h.rotate d x = some h' ∧ h'.Represents (plug w (on d k' (on d k a x b) y c)) ∧
      Off (plug w (on d k a x (on d k' b y c))).seq h h' := by
  obtain ⟨holds, links, distinct⟩ := represents_plug.mp all
  obtain ⟨entryX, linksA, rest⟩ := (links_on ..).mp links
  obtain ⟨entryY, linksB, linksC⟩ := (links_on ..).mp rest
  rw [top_on] at holds entryX
  have apart := distinct
  rw [distinct_on, List.nodup_cons] at apart
  obtain ⟨newX, apart⟩ := apart
  have inner := (List.nodup_append.mp apart).2.1
  have across := (List.nodup_append.mp apart).2.2
  rw [distinct_on, List.nodup_cons] at inner
  obtain ⟨newY, inner⟩ := inner
  have distinctB := (List.nodup_append.mp inner).1
  simp only [List.mem_append, not_or, (on_seq_perm ..).mem_iff, List.mem_cons] at newX newY across
  obtain ⟨xA, ⟨xy, xB, xC⟩, xUp⟩ := newX
  obtain ⟨yB, yC, yUp⟩ := newY
  have inUp (z : α) (member : z ∈ around w) : z ≠ x ∧ z ≠ y ∧ z ∉ b.seq :=
    ⟨ne_of_mem_of_not_mem member xUp, ne_of_mem_of_not_mem member yUp, fun inB =>
      (List.nodup_append.mp inner).2.2 z inB z (List.mem_append_right _ member) rfl⟩
  have tmp : h.child d.flip x = some y := by rw [child, entryX, RbEntry.child_flip_on]
  have below : h.child d y = b.top := by rw [child, entryY, RbEntry.child_on]
  -- The three nodes and the subtree that changes sides, one assignment after the other.
  let h₁ := h.setChild d.flip x b.top
  let h₂ := h₁.adopt b.top (some x)
  have entry₁ (z : α) (other : z ≠ x) : h₁.entry z = h.entry z := entry_modEntry_of_ne other
  have entry₂ (z : α) (other : z ≠ x) (out : z ∉ b.seq) : h₂.entry z = h.entry z :=
    (entry_adopt_off h₁ b _ out).trans (entry₁ z other)
  have entry₂X : h₂.entry x = .on d a.top b.top (owner w) k := by
    rw [entry_adopt_off h₁ b _ xB]
    show (h.modEntry x _).entry x = _
    rw [entry_modEntry_self, entryX, RbEntry.setChild_flip_on]
  have links₂B : h₂.Links (some x) b :=
    (linksB.congr fun z member => entry₁ z (ne_of_mem_of_not_mem member xB)).adopt distinctB _
  have holds₂ : h₂.Holds (some x) w :=
    holds.congr (root_adopt ..) fun z member => entry₂ z (inUp z member).1 (inUp z member).2.2
  have parent : h₂.parent x = owner w := by rw [RbStore.parent, entry₂X, RbEntry.parent_on]
  let h₃ := h₂.setParent y (owner w)
  let h₄ := h₃.replaceChild (owner w) x (some y)
  let h₅ := (h₄.setChild d y (some x)).setParent x (some y)
  have entry₃ (z : α) (other : z ≠ y) : h₃.entry z = h₂.entry z := entry_modEntry_of_ne other
  have entry₅ (z : α) (x' : z ≠ x) (y' : z ≠ y) : h₅.entry z = h₄.entry z :=
    (entry_modEntry_of_ne x').trans (entry_modEntry_of_ne y')
  have entry₅Off (z : α) (x' : z ≠ x) (y' : z ≠ y) (out : z ∉ around w) : h₅.entry z = h₂.entry z :=
    (entry₅ z x' y').trans ((entry_replaceChild_off h₃ w x _ out).trans (entry₃ z y'))
  have holds₃ : h₃.Holds (some x) w := holds₂.congr rfl fun z member => entry₃ z (inUp z member).2.1
  have holds₄ : h₄.Holds (some y) w :=
    holds₃.replaceChild (List.nodup_cons.mpr ⟨xUp, (List.nodup_append.mp (List.nodup_append.mp inner).2.1).2.1⟩) _
  have run : h.rotate d x = some h₅ := by
    rw [RbStore.rotate, tmp, Option.map_some, below]
    show some ((((h₂.setParent y (h₂.parent x)).replaceChild (h₂.parent x) x (some y)).setChild d y (some x)).setParent
      x (some y)) = _
    rw [parent]
  refine ⟨h₅, run, represents_plug.mpr ⟨?_, (links_on ..).mpr ⟨?_, (links_on ..).mpr ⟨?_, ?_, ?_⟩, ?_⟩, ?_⟩,
    fun z out => ?_⟩
  · rw [top_on]
    exact holds₄.congr rfl fun z member => entry₅ z (inUp z member).1 (inUp z member).2.1
  · have entry₄Y : h₄.entry y = .on d b.top c.top (owner w) k' := by
      rw [entry_replaceChild_off h₃ w x _ yUp]
      show (h₂.modEntry y _).entry y = _
      rw [entry_modEntry_self, entry₂ y (Ne.symm xy) yB, entryY, RbEntry.setParent_on]
    show ((h₄.modEntry y _).modEntry x _).entry y = _
    rw [entry_modEntry_of_ne (Ne.symm xy), entry_modEntry_self, entry₄Y, RbEntry.setChild_on, top_on]
  · have entry₄X : h₄.entry x = .on d a.top b.top (owner w) k := by
      rw [entry_replaceChild_off h₃ w x _ xUp, entry₃ x xy, entry₂X]
    show ((h₄.modEntry y _).modEntry x _).entry x = _
    rw [entry_modEntry_self, entry_modEntry_of_ne xy, entry₄X, RbEntry.setParent_on]
  · refine linksA.congr fun z member => ?_
    have other : z ≠ x := ne_of_mem_of_not_mem member xA
    have apartZ := across z member z
    rw [entry₅Off z other (fun eq => apartZ (.inl (.inl eq)) rfl) (fun inside => apartZ (.inr inside) rfl)]
    exact entry₂ z other fun inside => apartZ (.inl (.inr (.inl inside))) rfl
  · exact links₂B.congr fun z member => entry₅Off z (ne_of_mem_of_not_mem member xB) (ne_of_mem_of_not_mem member yB)
      fun inside => (inUp z inside).2.2 member
  · refine linksC.congr fun z member => ?_
    have apartZ := (List.nodup_append.mp (List.nodup_append.mp inner).2.1).2.2 z member z
    have other : z ≠ x := ne_of_mem_of_not_mem member xC
    rw [entry₅Off z other (ne_of_mem_of_not_mem member yC) fun inside => apartZ inside rfl]
    exact entry₂ z other fun inside => (List.nodup_append.mp inner).2.2 z inside z (List.mem_append_left _ member) rfl
  · rwa [on_on_seq d k k' k' k a b c x y] at distinct
  · rw [(plug_seq_perm ..).mem_iff, List.mem_append, (on_seq_perm ..).mem_iff, List.mem_cons, List.mem_append,
      (on_seq_perm ..).mem_iff, List.mem_cons, List.mem_append] at out
    push Not at out
    obtain ⟨⟨x', _, y', outB, _⟩, outUp⟩ := out
    rw [entry₅Off z x' y' outUp, entry₂ z x' outB]

omit [DecidableEq α] in
/-- The other subtree, seen from a place below the same node. -/
theorem represents_swap {f : Frame Bool α} {t : SearchTree Bool α} :
    h.Represents (plug (f.swap t :: w) f.other) ↔ h.Represents (plug (f :: w) t) := by
  rw [plug, plug, Frame.fill_swap]

omit [DecidableEq α] in
theorem Represents.apart {f : Frame Bool α} {t : SearchTree Bool α} (all : h.Represents (plug (f :: w) t))
    (top : t.top = some x) : f.other.top ≠ some x := by
  have distinct := (represents_plug.mp all).2.2
  rw [around_cons, List.nodup_append] at distinct
  exact fun eq => distinct.2.2 x (top_mem top) x (by simp [top_mem eq]) rfl

/-- Which child of its parent an element is. -/
def sideOf (h : RbStore α) (parent : α) (elm : Option α) : Side := if h.child .left parent = elm then .left else .right

theorem Represents.sideOf {f : Frame Bool α} {t : SearchTree Bool α} (all : h.Represents (plug (f :: w) t))
    (apart : f.other.top ≠ t.top) : h.sideOf f.elt t.top = f.side := by
  have entry : h.entry f.elt = .on f.side t.top f.other.top (owner w) f.mark := Represents.entry (w := w) all
  unfold RbStore.sideOf child
  rw [entry]
  obtain ⟨d, k, a, other⟩ := f
  cases d with
  | left => exact if_pos rfl
  | right => exact if_neg apart

/-- The end of `RB_INSERT_COLOR`: `RB_COLOR(head->rbh_root, field) = RB_BLACK`. -/
def blackenRoot (h : RbStore α) : Option (RbStore α) := h.root.map fun r => h.setColor r false

/-- `h` is `h₀` with other entries for the elements `l` only, and has the pointers of `t`, whose elements these are. -/
structure Over (h₀ : RbStore α) (l : List α) (h : RbStore α) (t : SearchTree Bool α) : Prop where
  all : h.Represents t
  off : Off l h₀ h
  seq : t.seq = l

namespace Over
variable {h₀ : RbStore α} {l : List α} {t : SearchTree Bool α} {f : Frame Bool α}

omit [DecidableEq α] in
theorem mem (spans : Over h₀ l h (plug w t)) {z : α} (inside : z ∈ t.seq) : z ∈ l := by
  rw [← spans.seq, (plug_seq_perm ..).mem_iff]
  exact List.mem_append_left _ inside

theorem paint (spans : Over h₀ l h (plug w t)) (c : Bool) : Over h₀ l (h.paint t.top c) (plug w (t.recolor c)) where
  all := spans.all.paint c
  off := spans.off.trans (off_paint c fun _ => spans.mem)
  seq := (plug_seq_congr w (recolor_seq c t)).trans spans.seq

/-- Recolouring the node above a place. -/
theorem paintOwner (spans : Over h₀ l h (plug (f :: w) t)) (c : Bool) :
    Over h₀ l (h.setColor f.elt c) (plug ({ f with mark := c } :: w) t) := by
  have painted := Over.paint (w := w) (t := f.fill t) spans c
  rw [Frame.fill, top_on, recolor_on] at painted
  exact painted

/-- Recolouring the root of the other subtree there. -/
theorem paintOther (spans : Over h₀ l h (plug (f :: w) t)) (c : Bool) :
    Over h₀ l (h.paint f.other.top c) (plug ({ f with other := f.other.recolor c } :: w) t) := by
  have swapped : Over h₀ l h (plug (f.swap t :: w) f.other) := by
    rw [plug, Frame.fill_swap]
    exact spans
  have painted := swapped.paint c
  rw [plug, Frame.fill_swap] at painted
  exact painted

theorem rotate {d : Side} {k k' : Bool} {a b c : SearchTree Bool α} {x y : α}
    (spans : Over h₀ l h (plug w (on d k a x (on d k' b y c)))) :
    ∃ h', h.rotate d x = some h' ∧ Over h₀ l h' (plug w (on d k' (on d k a x b) y c)) := by
  obtain ⟨h', run, all, off⟩ := spans.all.rotate
  rw [spans.seq] at off
  exact ⟨h', run, all, spans.off.trans off, (plug_seq_congr w (on_on_seq ..)).symm.trans spans.seq⟩

theorem blackenRoot (spans : Over h₀ l h t) (filled : l ≠ []) :
    ∃ h', h.blackenRoot = some h' ∧ Over h₀ l h' t.blacken := by
  cases t with
  | leaf => exact absurd spans.seq.symm filled
  | node k left x right =>
    refine ⟨h.setColor x false, ?_, Over.paint (w := []) spans false⟩
    rw [RbStore.blackenRoot, spans.all.root]
    rfl

end Over

end RbStore

end SfqSched
