import SfqSched.RbInsert

namespace SfqSched
open SearchTree

namespace SearchTree
variable {κ α : Type}

theorem descend_length (before : α → α → Bool) (a : α) (t : SearchTree κ α) (w : List (Frame κ α)) :
    (t.descend before a w).length ≤ t.height + w.length := by
  induction t generalizing w with
  | leaf => simp [descend]
  | node k left x right ihl ihr =>
    rw [descend, height]
    split
    · have := ihl (⟨.left, k, x, right⟩ :: w)
      rw [List.length_cons] at this
      omega
    · have := ihr (⟨.right, k, x, left⟩ :: w)
      rw [List.length_cons] at this
      omega

end SearchTree

namespace RbStore
variable {α : Type} [DecidableEq α] {h : RbStore α} {w : List (Frame Bool α)} {e : α}

/-- The loop of `__enqueue_entity`: `less` is `comp < 0`. -/
def walk (h : RbStore α) (before : α → Bool) :
    Nat → Option α → Option α → Bool → Bool → Option (Option α × Bool × Bool)
  | _, none, parent, less, leftmost => some (parent, less, leftmost)
  | 0, some _, _, _, _ => none
  | fuel + 1, some tmp, _, _, leftmost =>
    if before tmp then h.walk before fuel (h.child .left tmp) (some tmp) true leftmost
    else h.walk before fuel (h.child .right tmp) (some tmp) false false

/-- `RB_SET` and the pointer to the new element. -/
def attach (h : RbStore α) (se : α) (parent : Option α) (less : Bool) : RbStore α :=
  let h := h.set se parent
  match parent with
  | some p => if less then h.setChild .left p (some se) else h.setChild .right p (some se)
  | none => { h with root := some se }

/-- `__enqueue_entity` up to the repair, which `fuel` rounds of each loop suffice
for. Returns the flag `leftmost` too. -/
def enqueue (fuel : Nat) (h : RbStore α) (before : α → α → Bool) (se : α) : Option (RbStore α × Bool) :=
  (h.walk (before se) fuel h.root none false true).bind fun stop =>
    ((h.attach se stop.1 stop.2.1).insertColor fuel se).map fun h => (h, stop.2.2)

omit [DecidableEq α] in
/-- The walk ends where the descent does. -/
theorem walk_spec {t : SearchTree Bool α} {fuel : Nat} (before : α → α → Bool) (e : α) (less leftmost : Bool)
    (all : h.Represents (plug w t)) (side : ∀ f ∈ w.head?, less = decide (f.side = .left)) (enough : t.height < fuel) :
    ∃ less', h.walk (before e) fuel t.top (owner w) less leftmost =
        some (owner (t.descend before e w), less', leftmost && t.leftmostPath before e) ∧
      ∀ f ∈ (t.descend before e w).head?, less' = decide (f.side = .left) := by
  induction t generalizing w fuel less leftmost with
  | leaf =>
    refine ⟨less, ?_, side⟩
    cases fuel <;> simp [walk, top, descend, leftmostPath]
  | node k left x right ihl ihr =>
    obtain ⟨fuel, rfl⟩ : ∃ n, fuel = n + 1 := ⟨fuel - 1, by omega⟩
    rw [height] at enough
    have entry : h.entry x = ⟨left.top, right.top, owner w, k⟩ := Represents.entry (d := .left) all
    rw [top, walk, descend, leftmostPath]
    by_cases goes : before e x
    · simp only [goes, if_true, Bool.true_and]
      rw [RbStore.child, entry]
      exact ihl (w := ⟨.left, k, x, right⟩ :: w) true _ all (by simp) (by omega)
    · simp only [goes, if_false, Bool.false_and, Bool.and_false, Bool.false_eq_true]
      rw [RbStore.child, entry]
      exact ihr (w := ⟨.right, k, x, left⟩ :: w) false _ all (by simp) (by omega)

/-- Hanging in the new element. -/
theorem Represents.attach {less : Bool} (all : h.Represents (plug w leaf)) (new : e ∉ (plug w leaf).seq)
    (side : ∀ f ∈ w.head?, less = decide (f.side = .left)) :
    Over h (plug w (node true leaf e leaf)).seq (h.attach e (owner w) less) (plug w (node true leaf e leaf)) := by
  obtain ⟨holds, _, distinct⟩ := represents_plug.mp all
  rw [(plug_seq_perm ..).mem_iff] at new
  have out : e ∉ around w := new
  have set (z : α) (other : z ≠ e) : (h.set e (owner w)).entry z = h.entry z := entry_modEntry_of_ne other
  have setE : (h.set e (owner w)).entry e = ⟨none, none, owner w, true⟩ := entry_modEntry_self
  have still : (h.set e (owner w)).Holds none w :=
    holds.congr rfl fun z member => set z (ne_of_mem_of_not_mem member out)
  have distinct' : ((node true leaf e leaf).seq ++ around w).Nodup := List.nodup_cons.mpr ⟨out, distinct⟩
  cases w with
  | nil =>
    refine ⟨represents_plug.mpr ⟨rfl, ⟨setE, trivial, trivial⟩, distinct'⟩, fun z outside => ?_, rfl⟩
    exact set z fun eq => outside (by simp [eq, plug])
  | cons f w =>
    have attached : h.attach e (owner (f :: w)) less = (h.set e (owner (f :: w))).setChild f.side f.elt (some e) := by
      obtain ⟨d, k, a, other⟩ := f
      have eq := side _ rfl
      cases d <;> simp [RbStore.attach, eq]
    rw [attached]
    have apart : e ≠ f.elt := fun eq => out (by simp [eq])
    obtain ⟨entry, links, rest⟩ := still
    have distinctUp : (around (f :: w)).Nodup := distinct
    rw [around_cons, List.nodup_cons, List.mem_append, not_or] at distinctUp
    refine ⟨represents_plug.mpr ⟨⟨?_, ?_, ?_⟩, ⟨?_, trivial, trivial⟩, distinct'⟩, fun z outside => ?_, rfl⟩
    · rw [setChild, entry_modEntry_self, entry, RbEntry.setChild_on]
      rfl
    · exact links.congr fun z member => entry_modEntry_of_ne (ne_of_mem_of_not_mem member distinctUp.1.1)
    · exact rest.congr rfl fun z member => entry_modEntry_of_ne (ne_of_mem_of_not_mem member distinctUp.1.2)
    · exact (entry_modEntry_of_ne apart).trans setE
    · rw [(plug_seq_perm ..).mem_iff, seq_node, around_cons] at outside
      simp only [seq_leaf, List.nil_append, List.cons_append, List.mem_cons, not_or] at outside
      exact (entry_modEntry_of_ne outside.2.1).trans (set z outside.1)

omit [DecidableEq α] in
theorem capped_of_black {t : SearchTree Bool α} (black : (plug w t).isRed = false) : Capped w := by
  induction w generalizing t with
  | nil => intro f member; cases member
  | cons f w ih =>
    have rest := ih black
    cases w with
    | nil =>
      intro g member
      cases member
      simpa [plug, Frame.fill] using black
    | cons g w => rwa [Capped, List.getLast?_cons_cons]

/-- The pointers of `__enqueue_entity` do what the model of the timeline does. -/
theorem enqueue_spec {t : SearchTree Bool α} (all : h.Represents t) (proper : t.Proper) (before : α → α → Bool)
    (new : e ∉ t.seq) {fuel : Nat} (enough : t.seq.length < fuel) :
    ∃ h', h.enqueue fuel before e = some (h', t.leftmostPath before e) ∧
      Over h (t.insertLeaf before true e).seq h' ((t.insertLeaf before true e).insertColor e) := by
  have whole : plug (t.descend before e []) leaf = t := plug_descend before e t []
  have grown : plug (t.descend before e []) (node true leaf e leaf) = t.insertLeaf before true e :=
    plug_descend_node before true e t []
  have size := t.height_le_size
  have short := descend_length before e t []
  obtain ⟨less, walked, side⟩ := walk_spec (w := []) before e false true all
    (by simp) (show t.height < fuel by omega)
  rw [← all.root, owner_nil, Bool.true_and] at walked
  rw [← whole] at all new proper
  have hung := Represents.attach all new side
  obtain ⟨h', run, done⟩ := insertColor_spec hung rfl (capped_of_black proper.1)
    (show (t.descend before e []).length < fuel by rw [List.length_nil] at short; omega)
  refine ⟨h', ?_, ?_⟩
  · unfold enqueue
    rw [walked, Option.bind_some, run, Option.map_some]
  · rw [← grown, insertColor_plug fun early => new ?_]
    · exact done
    · rw [plug_seq]
      exact List.mem_append_left _ early

end RbStore

end SfqSched
