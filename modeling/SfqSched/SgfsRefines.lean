import SfqSched.SgfsTree
import Mathlib.Data.List.Find

namespace SfqSched.Sgfs
open Function Simulation

/-- The directories that have not been freed are those of the tree. -/
structure Planted (s : Fs) (t : Tree) : Prop where
  next : s.nnodes = t.next
  root : s.root = 0
  dir : ∀ n, s.alive n → s.isDir n → (s.node n).name = (t.dir n).name ∧ (s.node n).deleted = (t.dir n).removed ∧
    (s.node n).parent = (t.dir n).parent ∧ (s.node n).children = (t.dir n).entries ++ [n + 2, n + 1]
  dots : ∀ n, s.alive n → s.isDir n → (s.node (n + 2)).name = ".." ∧ (s.node (n + 1)).name = "."

/-- The vnodes are those of the tree; a directory has one on each mount at most. -/
structure Opened (s : Fs) (t : Tree) : Prop where
  nopened : s.nvnodes = t.nopened
  opened : ∀ v, t.opened v = (s.vnode v).data.map fun n => ((s.vnode v).mount, n)
  flag : ∀ v n, (s.vnode v).data = some n → (s.vnode v).rootFlag = decide (n = 0)
  single : ∀ v w p, t.opened v = some p → t.opened w = some p → v = w

/-- Nodes that are still there differ in their counts, numbers and vnodes only. -/
structure Alike (s s' : Fs) : Prop where
  nnodes : s'.nnodes = s.nnodes
  root : s'.root = s.root
  alive : ∀ n, s'.alive n → s.alive n
  type : ∀ n, (s'.node n).type = (s.node n).type
  name : ∀ n, (s'.node n).name = (s.node n).name
  node : ∀ n, s'.alive n → (s'.node n).deleted = (s.node n).deleted ∧ (s'.node n).parent = (s.node n).parent ∧
    (s'.node n).children = (s.node n).children

namespace Alike
variable {s s' s'' : Fs} {held : List NodeId} {n : NodeId}

theorem refl (s : Fs) : Alike s s :=
  ⟨rfl, rfl, fun _ there => there, fun _ => rfl, fun _ => rfl, fun _ _ => ⟨rfl, rfl, rfl⟩⟩

theorem trans (h : Alike s s') (h' : Alike s' s'') : Alike s s'' where
  nnodes := h'.nnodes.trans h.nnodes
  root := h'.root.trans h.root
  alive n there := h.alive n (h'.alive n there)
  type n := (h'.type n).trans (h.type n)
  name n := (h'.name n).trans (h.name n)
  node n there := by
    obtain ⟨deleted, parent, children⟩ := h'.node n there
    obtain ⟨deleted', parent', children'⟩ := h.node n (h'.alive n there)
    exact ⟨deleted.trans deleted', parent.trans parent', children.trans children'⟩

theorem of_node (nnodes : s'.nnodes = s.nnodes) (root : s'.root = s.root) (freed : s'.freed = s.freed)
    (node : ∀ n, (s'.node n).type = (s.node n).type ∧ (s'.node n).name = (s.node n).name ∧
      (s'.node n).deleted = (s.node n).deleted ∧ (s'.node n).parent = (s.node n).parent ∧
      (s'.node n).children = (s.node n).children) : Alike s s' where
  nnodes := nnodes
  root := root
  alive n there := by rwa [Fs.alive, nnodes, freed] at there
  type n := (node n).1
  name n := (node n).2.1
  node n _ := (node n).2.2

theorem modNode (s : Fs) (n : NodeId) (f : Node → Node) (keeps : ∀ x, (f x).type = x.type ∧ (f x).name = x.name ∧
    (f x).deleted = x.deleted ∧ (f x).parent = x.parent ∧ (f x).children = x.children) : Alike s (s.modNode n f) := by
  refine of_node rfl rfl rfl fun m => ?_
  by_cases same : m = n
  · subst same
    simpa [Fs.modNode] using keeps (s.node m)
  · simp [Fs.modNode, same]

theorem addref (s : Fs) (n : NodeId) : Alike s (addref s n) := .modNode s n _ fun _ => ⟨rfl, rfl, rfl, rfl, rfl⟩

theorem numbered (h : Numbered s s') : Alike s s' :=
  of_node h.nnodes h.root h.freed fun n => by rw [h.node]; exact ⟨rfl, rfl, rfl, rfl, rfl⟩

/-- What `sgnode_release` frees is gone; it changes nothing else that is seen. -/
theorem release (fits : Fits s (n :: held)) : Alike s (release s n) := by
  rcases fits.release_cases with ⟨_, same⟩ | ⟨up, dot, _, _, _, _, same⟩
  · rw [same]
    exact .modNode s n _ fun _ => ⟨rfl, rfl, rfl, rfl, rfl⟩
  · rw [same]
    have node (m : NodeId) : ((if m = n then { s.node n with children := [], refcount := 2 } else s.node m) : Node).type =
        (s.node m).type ∧ ((if m = n then { s.node n with children := [], refcount := 2 } else s.node m) : Node).name =
        (s.node m).name := by
      split
      · rename_i here
        subst here
        exact ⟨rfl, rfl⟩
      · exact ⟨rfl, rfl⟩
    refine ⟨rfl, rfl, fun m there => ⟨there.1, fun freed => there.2 ?_⟩, fun m => (node m).1, fun m => (node m).2,
      fun m there => ?_⟩
    · exact List.mem_cons_of_mem _ (List.mem_cons_of_mem _ (List.mem_cons_of_mem _ freed))
    · have other : m ≠ n := fun eq => there.2 (eq ▸ List.mem_cons_self ..)
      dsimp only
      rw [if_neg other]
      exact ⟨rfl, rfl, rfl⟩

end Alike

section planted
variable {s s' : Fs} {t t' : Tree} {held : List NodeId} {n p : Nat} {name : String}

theorem Planted.alike (planted : Planted s t) (h : Alike s s') (next : t'.next = t.next) (dir : t'.dir = t.dir) :
    Planted s' t' where
  next := h.nnodes.trans (planted.next.trans next.symm)
  root := h.root.trans planted.root
  dir n there isDir := by
    have isDir' : s.isDir n := by rwa [Fs.isDir, h.type] at isDir
    obtain ⟨deleted, parent, children⟩ := h.node n there
    rw [h.name, deleted, parent, children, dir]
    exact planted.dir n (h.alive n there) isDir'
  dots n there isDir := by
    have isDir' : s.isDir n := by rwa [Fs.isDir, h.type] at isDir
    rw [h.name, h.name]
    exact planted.dots n (h.alive n there) isDir'

/-- The entries of the tree are directories. -/
theorem Planted.entry (planted : Planted s t) (fits : Fits s held) (alive : s.alive n) (dir : s.isDir n) {c : NodeId}
    (member : c ∈ (t.dir n).entries) : s.alive c ∧ s.isDir c ∧ (s.node c).type = .dir ∧ (s.node c).parent = some n := by
  obtain ⟨_, _, _, children⟩ := planted.dir n alive dir
  obtain ⟨dirs, up, dot, split, types, _⟩ := fits.shape n alive dir
  have same : dirs = (t.dir n).entries := (List.append_inj' (split.symm.trans children) rfl).1
  have type := types c (same ▸ member)
  have inside : c ∈ (s.node n).children := by
    rw [children]
    exact List.mem_append_left _ member
  obtain ⟨there, up⟩ := (fits.linked n c alive).mp inside
  exact ⟨there, by simp [Fs.isDir, type, NodeType.isDir], type, up⟩

theorem Planted.names (planted : Planted s t) (fits : Fits s held) (alive : s.alive n) (dir : s.isDir n) :
    (s.node n).children.map (fun c => (s.node c).name) = (t.dir n).entries.map (fun c => (t.dir c).name) ++ ["..", "."] := by
  obtain ⟨_, _, _, children⟩ := planted.dir n alive dir
  obtain ⟨up, dot⟩ := planted.dots n alive dir
  rw [children, List.map_append, List.map_cons, List.map_cons, List.map_nil, up, dot]
  congr 1
  refine List.map_congr_left fun c member => ?_
  obtain ⟨there, isDir, _⟩ := planted.entry fits alive dir member
  exact (planted.dir c there isDir).1

theorem Planted.search (planted : Planted s t) (fits : Fits s held) (alive : s.alive n) (dir : s.isDir n)
    (dot : name ≠ ".") (dotdot : name ≠ "..") : search s n name = t.find n name := by
  obtain ⟨_, _, _, children⟩ := planted.dir n alive dir
  obtain ⟨nameUp, nameDot⟩ := planted.dots n alive dir
  unfold Sgfs.search Tree.find
  rw [children, List.find?_append, List.find?_cons, List.find?_cons, nameUp, nameDot]
  simp only [Ne.symm dot, Ne.symm dotdot, decide_false, List.find?_nil, Option.or_none]
  refine List.find?_congr fun c member => ?_
  obtain ⟨there, isDir, _⟩ := planted.entry fits alive dir member
  rw [(planted.dir c there isDir).1]

/-- `sgfs_create_dir`. -/
theorem Planted.make (planted : Planted s t) (fits : Fits s held) (alive : s.alive p) (dir : s.isDir p) (name : String) :
    Planted (createDir s p name).2 (t.make p name) := by
  have below : p < s.nnodes := alive.1
  have nodes := createDir_node name below
  have same : (createDir s p name).2.freed = s.freed ∧ (createDir s p name).2.nnodes = s.nnodes + 3 ∧
    (createDir s p name).2.root = s.root := ⟨rfl, rfl, rfl⟩
  generalize (createDir s p name).2 = s' at nodes same
  obtain ⟨freed, nnodes, root⟩ := same
  have next := planted.next
  have notNext : p ≠ t.next := by omega
  have type (m : Nat) (old : m < s.nnodes) : (s'.node m).type = (s.node m).type := by
    rw [nodes, if_neg (by omega), if_neg (by omega), if_neg (by omega)]
    split
    · rename_i here
      rw [here]
    · rfl
  have nameOf (m : Nat) (old : m < s.nnodes) : (s'.node m).name = (s.node m).name := by
    rw [nodes, if_neg (by omega), if_neg (by omega), if_neg (by omega)]
    split
    · rename_i here
      rw [here]
    · rfl
  -- A directory of the new state is the new one or an old one.
  have cases (m : Nat) (there : s'.alive m) (isDir : s'.isDir m) : m = s.nnodes ∨ s.alive m ∧ s.isDir m := by
    by_cases new : m = s.nnodes
    · exact .inl new
    · have notDot : m ≠ s.nnodes + 1 := by
        rintro rfl
        rw [Fs.isDir, nodes, if_neg (by omega), if_pos rfl] at isDir
        cases isDir
      have notUp : m ≠ s.nnodes + 2 := by
        rintro rfl
        rw [Fs.isDir, nodes, if_neg (by omega), if_neg (by omega), if_pos rfl] at isDir
        cases isDir
      rw [Fs.alive, freed, nnodes] at there
      have old : m < s.nnodes := by omega
      rw [Fs.isDir, type m old] at isDir
      exact .inr ⟨⟨old, there.2⟩, isDir⟩
  refine ⟨by rw [nnodes, next]; rfl, root.trans planted.root, fun m there isDir => ?_, fun m there isDir => ?_⟩
  · rcases cases m there isDir with rfl | ⟨old, oldDir⟩
    · have fresh : (t.make p name).dir s.nnodes = { name := name, parent := some p } := by
        have other : s.nnodes ≠ p := by omega
        show update (update t.dir t.next _) p _ s.nnodes = _
        rw [update_of_ne other, next, update_self]
      rw [nodes, if_pos rfl, fresh]
      exact ⟨rfl, rfl, rfl, rfl⟩
    · have small : m < s.nnodes := old.1
      obtain ⟨name', deleted, parent, children⟩ := planted.dir m old oldDir
      rw [nodes, if_neg (by omega), if_neg (by omega), if_neg (by omega)]
      by_cases here : m = p
      · subst here
        have grown : (t.make m name).dir m = { t.dir m with entries := t.next :: (t.dir m).entries } := update_self ..
        rw [if_pos rfl, grown, next]
        refine ⟨name', deleted, parent, ?_⟩
        dsimp only
        rw [children]
        rfl
      · have kept : (t.make p name).dir m = t.dir m := by
          have other : m ≠ t.next := by omega
          show update (update t.dir t.next _) p _ m = _
          rw [update_of_ne here, update_of_ne other]
        rw [if_neg here, kept]
        exact ⟨name', deleted, parent, children⟩
  · rcases cases m there isDir with rfl | ⟨old, oldDir⟩
    · rw [nodes, if_neg (by omega), if_neg (by omega), if_pos rfl, nodes, if_neg (by omega), if_pos rfl]
      exact ⟨rfl, rfl⟩
    · obtain ⟨_, _, _, children⟩ := planted.dir m old oldDir
      have small (c : Nat) (member : c ∈ (s.node m).children) : c < s.nnodes := ((fits.linked m c old).mp member).1.1
      rw [nameOf _ (small (m + 2) (by rw [children]; simp)), nameOf _ (small (m + 1) (by rw [children]; simp))]
      exact planted.dots m old oldDir

/-- What `sgfs_rmdir` stores. -/
theorem Planted.unlink (planted : Planted s t) (fits : Fits s held) (alive : s.alive n) (type : (s.node n).type = .dir)
    (parent : (s.node n).parent = some p) (empty : (s.node n).children.length = 2) :
    Planted ((s.modNode n fun x => { x with parent := none, deleted := true }).modNode p
      fun x => { x with children := x.children.erase n }) (t.unlink n p) := by
  obtain ⟨aliveP, dirP⟩ := fits.above n p alive parent
  have apart := fits.not_own_parent alive type parent empty
  rw [Fits.modNode_eq, Fits.modNode_eq]
  have nodes (m : NodeId) (f : Node → Node) (g : Node → Node) (keepF : ∀ x, (f x).type = x.type ∧ (f x).name = x.name)
      (keepG : ∀ x, (g x).type = x.type ∧ (g x).name = x.name) :
      (if m = p then f (if m = n then g (s.node m) else s.node m) else if m = n then g (s.node m) else s.node m).type =
        (s.node m).type ∧
      (if m = p then f (if m = n then g (s.node m) else s.node m) else if m = n then g (s.node m) else s.node m).name =
        (s.node m).name := by
    split <;> split <;> simp_all
  have kept (m : NodeId) := nodes m (fun x => { x with children := x.children.erase n })
    (fun x => { x with parent := none, deleted := true }) (fun _ => ⟨rfl, rfl⟩) fun _ => ⟨rfl, rfl⟩
  refine ⟨planted.next, planted.root, fun m there isDir => ?_, fun m there isDir => ?_⟩
  · have isDir' : s.isDir m := by rwa [Fs.isDir, (kept m).1] at isDir
    obtain ⟨name, deleted, up, children⟩ := planted.dir m there isDir'
    show _ ∧ _ ∧ _ ∧ _
    simp only [Tree.unlink]
    by_cases isP : m = p
    · subst isP
      rw [if_pos rfl, if_neg (Ne.symm apart), update_self]
      have member : n ∈ (t.dir m).entries := by
        have inside : n ∈ (s.node m).children := (fits.linked m n there).mpr ⟨alive, parent⟩
        obtain ⟨dirs, up', dot, split, types, typeUp, typeDot⟩ := fits.shape m there isDir'
        have same := List.append_inj' (split.symm.trans children) rfl
        rw [split] at inside
        rcases List.mem_append.mp inside with inside | inside
        · exact same.1 ▸ inside
        · simp only [List.mem_cons, List.not_mem_nil, or_false] at inside
          rcases inside with rfl | rfl
          · cases type.symm.trans typeUp
          · cases type.symm.trans typeDot
      refine ⟨name, deleted, up, ?_⟩
      dsimp only
      rw [children, List.erase_append_left _ member]
    · rw [if_neg isP, update_of_ne isP]
      by_cases isN : m = n
      · subst isN
        rw [if_pos rfl, update_self]
        exact ⟨name, rfl, rfl, children⟩
      · rw [if_neg isN, update_of_ne isN]
        exact ⟨name, deleted, up, children⟩
  · have isDir' : s.isDir m := by rwa [Fs.isDir, (kept m).1] at isDir
    rw [(kept (m + 2)).2, (kept (m + 1)).2]
    exact planted.dots m there isDir'

end planted

section opened
variable {s s' : Fs} {t t' : Tree} {held : List NodeId} {n : NodeId}

theorem Opened.same (opened : Opened s t) (vnode : s'.vnode = s.vnode) (nvnodes : s'.nvnodes = s.nvnodes)
    (shown : t'.opened = t.opened) (nopened : t'.nopened = t.nopened) : Opened s' t' where
  nopened := nvnodes.trans (opened.nopened.trans nopened.symm)
  opened v := by
    rw [shown, vnode]
    exact opened.opened v
  flag v n data := by
    rw [vnode] at data ⊢
    exact opened.flag v n data
  single v w p := by
    rw [shown]
    exact opened.single v w p

theorem Opened.of_data (opened : Opened s t) {v : VnodeId} (data : (s.vnode v).data = some n) :
    t.opened v = some ((s.vnode v).mount, n) := by
  rw [opened.opened, data]
  rfl

theorem Opened.data (opened : Opened s t) {v : VnodeId} {place : MountId × NodeId} (there : t.opened v = some place) :
    (s.vnode v).data = some place.2 ∧ (s.vnode v).mount = place.1 := by
  rw [opened.opened] at there
  obtain ⟨n, data, rfl⟩ := Option.map_eq_some_iff.mp there
  exact ⟨data, rfl⟩

/-- The vnode `sgfs_allocv` finds in the list of the node is the one of the tree. -/
theorem Opened.find (opened : Opened s t) (fits : Fits s held) (alive : s.alive n) (mp : MountId) :
    (List.range t.nopened).find? (fun v => t.opened v = some (mp, n)) =
      (s.node n).vnodes.find? fun v => (s.vnode v).mount = mp := by
  cases found : (s.node n).vnodes.find? fun v => (s.vnode v).mount = mp with
  | none =>
    refine List.find?_eq_none.mpr fun v _ there => ?_
    obtain ⟨data, mount⟩ := opened.data (of_decide_eq_true there)
    have member := (fits.vnodes n v alive).mpr data
    exact List.find?_eq_none.mp found v member (decide_eq_true mount)
  | some v =>
    have mount : (s.vnode v).mount = mp := by simpa using List.find?_some found
    have data := (fits.vnodes n v alive).mp (List.mem_of_find?_eq_some found)
    have here : t.opened v = some (mp, n) := by rw [opened.of_data data, mount]
    cases other : (List.range t.nopened).find? fun v => t.opened v = some (mp, n) with
    | none =>
      have small : v ∈ List.range t.nopened := by
        rw [List.mem_range, ← opened.nopened]
        exact (fits.opened v n data).1
      exact absurd (decide_eq_true here) (List.find?_eq_none.mp other v small)
    | some w =>
      have same : t.opened w = some (mp, n) := by simpa using List.find?_some other
      rw [opened.single w v _ same here]

end opened

/-- The callers see the tree, and the calls in progress refer to the same directories. -/
structure Shows (x : Sys) (t : Tree) : Prop where
  planted : Planted x.fs t
  opened : Opened x.fs t
  held : x.held = t.held

section shows
variable {K : VfsKernel} {s s' : Fs} {t : Tree} {held held' : List NodeId} {n v : Nat} {name : String}

theorem Shows.visit (fits : Fits s held) (shows : Shows ⟨s, held'⟩ t) (alive : s.alive n) (mp : MountId) (avail : Bool) :
    (allocv s mp n avail).1 = (t.visit mp n avail).1 ∧ Shows ⟨(allocv s mp n avail).2, held'⟩ (t.visit mp n avail).2 := by
  obtain ⟨planted, opened, same⟩ := shows
  have search := opened.find fits alive mp
  cases missed : (s.node n).vnodes.find? fun v => (s.vnode v).mount = mp with
  | some v =>
    unfold allocv Tree.visit
    rw [search.trans missed, missed]
    exact ⟨rfl, planted, opened, same⟩
  | none =>
    cases avail with
    | false =>
      unfold allocv Tree.visit
      rw [search.trans missed, missed]
      exact ⟨rfl, planted, opened, same⟩
    | true =>
      have nopened : s.nvnodes = t.nopened := opened.nopened
      let grown : Fs := { s with
        vnode := update s.vnode s.nvnodes ⟨mp, some n, decide ((s.node n).type = NodeType.root)⟩
        nvnodes := s.nvnodes + 1 }
      have look : allocv s mp n true =
          (.ok s.nvnodes, Sgfs.addref (grown.modNode n fun x => { x with vnodes := s.nvnodes :: x.vnodes }) n) := by
        unfold allocv
        rw [missed]
        rfl
      have look' : t.visit mp n true =
          (.ok t.nopened, { t with opened := update t.opened t.nopened (some (mp, n)), nopened := t.nopened + 1 }) := by
        unfold Tree.visit
        rw [search.trans missed]
        rfl
      have first : Alike s grown := .of_node rfl rfl rfl fun _ => ⟨rfl, rfl, rfl, rfl, rfl⟩
      have listed : Alike grown (grown.modNode n fun x => { x with vnodes := s.nvnodes :: x.vnodes }) :=
        .modNode grown n _ fun _ => ⟨rfl, rfl, rfl, rfl, rfl⟩
      rw [look, look']
      refine ⟨congrArg Except.ok nopened, ?_, ?_, same⟩
      · exact planted.alike ((first.trans listed).trans (.addref _ n)) rfl rfl
      · have absent (w : VnodeId) : t.opened w ≠ some (mp, n) := fun there => by
          obtain ⟨data, mount⟩ := opened.data there
          exact List.find?_eq_none.mp missed w ((fits.vnodes n w alive).mpr data) (decide_eq_true mount)
        refine ⟨congrArg (· + 1) nopened, fun w => ?_, fun w m data => ?_, fun v w p there again => ?_⟩
        · show update t.opened t.nopened (some (mp, n)) w =
            (update s.vnode s.nvnodes _ w).data.map fun m => ((update s.vnode s.nvnodes _ w).mount, m)
          rw [nopened]
          by_cases here : w = t.nopened
          · subst here
            rw [update_self, update_self]
            rfl
          · rw [update_of_ne here, update_of_ne here]
            exact opened.opened w
        · change (update s.vnode s.nvnodes _ w).data = some m at data
          show (update s.vnode s.nvnodes _ w).rootFlag = decide (m = 0)
          by_cases here : w = s.nvnodes
          · subst here
            rw [update_self] at data ⊢
            cases data
            refine decide_eq_decide.mpr ⟨fun root => ?_, fun zero => ?_⟩
            · by_contra other
              rcases fits.kind n alive (planted.root ▸ other) with type | type | type <;> rw [root] at type <;> cases type
            · rw [zero, ← planted.root]
              exact fits.root.2.1
          · rw [update_of_ne here] at data ⊢
            exact opened.flag w m data
        · change update t.opened t.nopened (some (mp, n)) v = some p at there
          change update t.opened t.nopened (some (mp, n)) w = some p at again
          by_cases hv : v = t.nopened <;> by_cases hw : w = t.nopened
          · rw [hv, hw]
          · rw [hv, update_self] at there
            rw [update_of_ne hw] at again
            exact absurd (again.trans there.symm) (absent w)
          · rw [hw, update_self] at again
            rw [update_of_ne hv] at there
            exact absurd (there.trans again.symm) (absent v)
          · rw [update_of_ne hv] at there
            rw [update_of_ne hw] at again
            exact opened.single v w p there again

theorem Shows.release (fits : Fits s (n :: held)) (shows : Shows ⟨s, held'⟩ t) : Shows ⟨release s n, held'⟩ t := by
  have nvnodes : (Sgfs.release s n).nvnodes = s.nvnodes := by
    rcases fits.release_cases with ⟨_, same⟩ | ⟨up, dot, _, _, _, _, same⟩
    · rw [same]
      rfl
    · rw [same]
  have vnode : (Sgfs.release s n).vnode = s.vnode := by
    rcases fits.release_cases with ⟨_, same⟩ | ⟨up, dot, _, _, _, _, same⟩
    · rw [same]
      rfl
    · rw [same]
  exact ⟨shows.planted.alike (.release fits) rfl rfl, shows.opened.same vnode nvnodes rfl rfl, shows.held⟩

theorem Shows.addref (shows : Shows ⟨s, held'⟩ t) (n : NodeId) : Shows ⟨addref s n, held'⟩ t :=
  ⟨shows.planted.alike (.addref s n) rfl rfl, shows.opened.same rfl rfl rfl rfl, shows.held⟩

theorem Shows.mkdirEntry (fits : Fits s held) (shows : Shows ⟨s, held'⟩ t) (alive : s.alive n) (dir : s.isDir n)
    (name : String) : (mkdirEntry s n name).1 = t.next ∧ Shows ⟨(mkdirEntry s n name).2, held'⟩ (t.make n name) := by
  have made : Shows ⟨(createDir s n name).2, held'⟩ (t.make n name) :=
    ⟨shows.planted.make fits alive dir name, shows.opened.same rfl rfl rfl rfl, shows.held⟩
  exact ⟨shows.planted.next, made.addref _⟩

/-- Which names `sgfs_readdir` returns does not depend on the file numbers. -/
theorem readdirWalk_names {uioOffset resid offset last : Nat} {children : List NodeId} {es : List Dirent}
    (run : readdirWalk K s uioOffset resid offset children = some (s', es, last)) :
    namesWalk K.reclen uioOffset resid offset (children.map fun c => direntName (s.node c).name) =
      (es.map Dirent.name, last) := by
  induction children generalizing s uioOffset resid offset es last with
  | nil =>
    cases run
    rfl
  | cons c rest ih =>
    obtain ⟨a, number, walk⟩ := Option.bind_eq_some_iff.mp run
    have node : a.node = s.node := (Numbered.numberEntry number).node
    rw [List.map_cons, namesWalk]
    split at walk
    · rename_i full
      cases walk
      rw [if_pos full]
      rfl
    · rename_i fits
      rw [if_neg fits]
      split at walk
      · rename_i wanted
        obtain ⟨⟨b, later, stop⟩, walk, same⟩ := Option.map_eq_some_iff.mp walk
        cases same
        have rest := ih walk
        rw [node] at rest
        rw [if_pos wanted, rest, node]
        rfl
      · rename_i early
        have rest := ih walk
        rw [node] at rest
        rw [if_neg early, rest]

/-- What is visited is answered as the tree has it. -/
theorem Shows.visited (fits : Fits s held) (shows : Shows ⟨s, held'⟩ t) (alive : s.alive n) (mp : MountId) (avail : Bool) :
    (Reply.ofExcept (allocv s mp n avail).1).answer = .ofExcept (t.visit mp n avail).1 ∧
      Shows ⟨(allocv s mp n avail).2, held'⟩ (t.visit mp n avail).2 := by
  obtain ⟨same, after⟩ := shows.visit fits alive mp avail
  exact ⟨by rw [Reply.answer_ofExcept, same], after⟩

theorem Shows.mkdir {r : Reply} {avail : Bool} (fits : Fits s held) (shows : Shows ⟨s, held'⟩ t)
    (run : sgfsMkdir s v name avail = some (r, s')) : ∃ place t', t.opened v = some place ∧
      t.mkdir place.1 place.2 name avail = (r.answer, t') ∧ Shows ⟨s', held'⟩ t' := by
  obtain ⟨p, data, done⟩ := Option.bind_eq_some_iff.mp run
  obtain ⟨_, alive, dir⟩ := fits.opened v p data
  rw [dir] at done
  obtain ⟨made, there, isDir⟩ := mkdirEntry_fits fits alive dir name
  obtain ⟨new, shows₁⟩ := shows.mkdirEntry fits alive dir name
  obtain ⟨same, shows₂⟩ := shows₁.visited made there (s.vnode v).mount avail
  have last := shows₂.release (allocv_fits made there isDir (s.vnode v).mount avail)
  have reply : r = Reply.ofExcept
      (allocv (Sgfs.mkdirEntry s p name).2 (s.vnode v).mount (Sgfs.mkdirEntry s p name).1 avail).1 ∧
      s' = Sgfs.release (allocv (Sgfs.mkdirEntry s p name).2 (s.vnode v).mount (Sgfs.mkdirEntry s p name).1 avail).2
        (Sgfs.mkdirEntry s p name).1 := by
    cases done
    exact ⟨rfl, rfl⟩
  obtain ⟨rfl, rfl⟩ := reply
  refine ⟨_, _, shows.opened.of_data data, ?_, last⟩
  rw [same]
  unfold Tree.mkdir
  rw [new]

theorem Shows.rmdir {r : Reply} (fits : Fits s held) (shows : Shows ⟨s, held'⟩ t) (run : sgfsRmdir s v = some (r, s')) :
    ∃ place t', t.opened v = some place ∧ t.rmdir place.2 = some (r.answer, t') ∧ Shows ⟨s', held'⟩ t' := by
  obtain ⟨n, data, done⟩ := Option.bind_eq_some_iff.mp run
  obtain ⟨_, alive, dir⟩ := fits.opened v n data
  have planted : Planted s t := shows.planted
  have root : s.root = 0 := planted.root
  obtain ⟨_, deleted, up, children⟩ := planted.dir n alive dir
  suffices ∃ t', t.rmdir n = some (r.answer, t') ∧ Shows ⟨s', held'⟩ t' by
    obtain ⟨t', removed, after⟩ := this
    exact ⟨_, t', shows.opened.of_data data, removed, after⟩
  have kind : (s.node n).type ≠ .dir ↔ n = 0 := by
    constructor
    · intro other
      by_contra away
      rcases fits.kind n alive (root ▸ away) with type | type | type
      · exact other type
      · simp [Fs.isDir, type, NodeType.isDir] at dir
      · simp [Fs.isDir, type, NodeType.isDir] at dir
    · rintro rfl type
      rw [← root, fits.root.2.1] at type
      cases type
  unfold Tree.rmdir
  split at done
  · rename_i isRoot
    cases done
    rw [if_pos (kind.mp isRoot)]
    exact ⟨t, rfl, shows⟩
  rename_i isDir
  rw [if_neg fun zero => isDir (kind.mpr zero)]
  split at done
  · rename_i gone
    cases done
    rw [if_pos (deleted ▸ gone)]
    exact ⟨t, rfl, shows⟩
  rename_i live
  rw [if_neg (deleted ▸ live)]
  split at done
  · rename_i first second list
    have empty : (t.dir n).entries = [] := by
      have lengths := congrArg List.length (list.symm.trans children)
      simp only [List.length_cons, List.length_nil, List.length_append] at lengths
      exact List.length_eq_zero_iff.mp (by omega)
    obtain ⟨p, parent, done⟩ := Option.bind_eq_some_iff.mp done
    cases done
    have two : (s.node n).children.length = 2 := by rw [list]; rfl
    rw [if_neg (not_not.mpr empty), ← up, parent]
    have unlinked := fits.unlink alive (not_not.mp isDir) parent two
    have shown : Shows ⟨_, held'⟩ (t.unlink n p) :=
      ⟨planted.unlink fits alive (not_not.mp isDir) parent two, shows.opened.same rfl rfl rfl rfl, shows.held⟩
    exact ⟨t.unlink n p, rfl, (shown.release unlinked).release unlinked.drop⟩
  · rename_i first second third rest list
    cases done
    have filled : (t.dir n).entries ≠ [] := by
      intro empty
      rw [empty] at children
      have lengths := congrArg List.length (list.symm.trans children)
      exact rest (by simpa using lengths)
    rw [if_pos filled]
    exact ⟨t, rfl, shows⟩
  · cases done

theorem Shows.lookup {r : Reply} {avail : Bool} {cnp : Componentname} (fits : Fits s held) (shows : Shows ⟨s, held'⟩ t)
    (run : sgfsLookupx s v cnp avail = some (r, s')) : ∃ place t', t.opened v = some place ∧
      t.lookup v place.1 place.2 cnp avail = some (r.answer, t') ∧ Shows ⟨s', held'⟩ t' := by
  obtain ⟨p, data, done⟩ := Option.bind_eq_some_iff.mp run
  obtain ⟨_, alive, dir⟩ := fits.opened v p data
  have flag : (s.vnode v).rootFlag = decide (p = 0) := shows.opened.flag v p data
  suffices ∃ t', t.lookup v (s.vnode v).mount p cnp avail = some (r.answer, t') ∧ Shows ⟨s', held'⟩ t' by
    obtain ⟨t', found, after⟩ := this
    exact ⟨_, t', shows.opened.of_data data, found, after⟩
  unfold Tree.lookup
  dsimp only
  split at done
  · rename_i barred
    cases done
    rw [if_pos barred]
    exact ⟨t, rfl, shows⟩
  rename_i free
  rw [if_neg free]
  split at done
  · rename_i long
    cases done
    rw [if_pos long]
    exact ⟨t, rfl, shows⟩
  rename_i short
  rw [if_neg short]
  split at done
  · rename_i dot
    rw [if_pos dot]
    split at done
    · rename_i last
      cases done
      rw [if_pos last]
      exact ⟨t, rfl, shows⟩
    · rename_i last
      cases done
      rw [if_neg last]
      exact ⟨t, rfl, shows⟩
  rename_i dot
  rw [if_neg dot]
  split at done
  · rename_i dotdot
    rw [if_pos dotdot]
    rw [flag] at done
    split at done
    · rename_i isRoot
      cases done
      rw [if_pos (of_decide_eq_true isRoot)]
      exact ⟨t, rfl, shows⟩
    rename_i below
    rw [if_neg (by simpa using below)]
    split at done
    · rename_i last
      cases done
      rw [if_pos last]
      exact ⟨t, rfl, shows⟩
    rename_i last
    rw [if_neg last]
    obtain ⟨above, parent, done⟩ := Option.bind_eq_some_iff.mp done
    cases done
    have up : (s.node p).parent = (t.dir p).parent := (shows.planted.dir p alive dir).2.2.1
    obtain ⟨same, after⟩ := shows.visited fits (fits.above p above alive parent).1 (s.vnode v).mount avail
    rw [← up, parent]
    exact ⟨_, congrArg some (Prod.ext same.symm rfl), after⟩
  rename_i dotdot
  rw [if_neg dotdot, ← shows.planted.search fits alive dir dot dotdot]
  have entry := lookupEntry_fits fits alive dot dotdot
  unfold lookupEntry at done entry
  cases found : search s p cnp.name with
  | some c =>
    rw [found] at done entry
    obtain ⟨holds, there, isDir⟩ := entry
    dsimp only at done ⊢
    have shown := shows.addref c
    split at done
    · rename_i refused
      cases done
      rw [if_pos refused]
      exact ⟨t, rfl, shown.release holds⟩
    · rename_i granted
      cases done
      rw [if_neg granted]
      obtain ⟨same, after⟩ := shown.visited holds there (s.vnode v).mount avail
      exact ⟨_, congrArg some (Prod.ext same.symm rfl), after.release (allocv_fits holds there isDir _ avail)⟩
  | none =>
    rw [found] at done
    dsimp only at done ⊢
    split at done
    · rename_i wanted
      rw [if_pos wanted]
      split at done
      · rename_i refused
        cases done
        rw [if_pos refused]
        exact ⟨t, rfl, shows⟩
      · rename_i granted
        cases done
        rw [if_neg granted]
        exact ⟨t, rfl, shows⟩
    · rename_i unwanted
      cases done
      rw [if_neg unwanted]
      exact ⟨t, rfl, shows⟩

theorem Shows.readdir {r : Reply} {uioOffset resid : Nat} (fits : Fits s held) (shows : Shows ⟨s, held'⟩ t)
    (run : sgfsReaddir K s v uioOffset resid = some (r, s')) : ∃ place, t.opened v = some place ∧
      t.readdir K.reclen place.2 uioOffset resid = (r.answer, t) ∧ Shows ⟨s', held'⟩ t := by
  obtain ⟨n, data, done⟩ := Option.bind_eq_some_iff.mp run
  obtain ⟨_, alive, dir⟩ := fits.opened v n data
  obtain ⟨⟨a, es, last⟩, walk, done⟩ := Option.bind_eq_some_iff.mp done
  cases done
  have numbered := Numbered.readdirWalk walk
  have planted : Planted s t := shows.planted
  have listed : namesWalk K.reclen uioOffset resid 0 (((s.node n).children.map fun c => (s.node c).name).map direntName) =
      (es.map Dirent.name, last) := by
    rw [List.map_map]
    exact readdirWalk_names walk
  rw [planted.names fits alive dir] at listed
  refine ⟨_, shows.opened.of_data data, ?_, ?_⟩
  · unfold Tree.readdir
    dsimp only
    rw [listed]
    rfl
  · exact ⟨planted.alike (.numbered numbered) rfl rfl, shows.opened.same numbered.vnode numbered.nvnodes rfl rfl,
      shows.held⟩

theorem Shows.reclaim (fits : Fits s held) (shows : Shows ⟨s, held'⟩ t) (run : sgfsReclaim s v = some s') :
    ∃ place, t.opened v = some place ∧ Shows ⟨s', held'⟩ { t with opened := update t.opened v none } := by
  obtain ⟨n, data, done⟩ := Option.bind_eq_some_iff.mp run
  cases done
  have detached := fits.detach data
  let closed : Fs := { s with vnode := update s.vnode v { s.vnode v with data := none } }
  have first : Alike s closed := .of_node rfl rfl rfl fun _ => ⟨rfl, rfl, rfl, rfl, rfl⟩
  have unlisted : Alike closed (closed.modNode n fun x => { x with vnodes := x.vnodes.erase v }) :=
    .modNode closed n _ fun _ => ⟨rfl, rfl, rfl, rfl, rfl⟩
  have planted : Planted s t := shows.planted
  have opened : Opened s t := shows.opened
  have away (w : VnodeId) (p : MountId × NodeId) (there : update t.opened v none w = some p) : t.opened w = some p := by
    by_cases here : w = v
    · rw [here, update_self] at there
      cases there
    · rwa [update_of_ne here] at there
  have shown : Shows ⟨closed.modNode n fun x => { x with vnodes := x.vnodes.erase v }, held'⟩
      { t with opened := update t.opened v none } := by
    refine ⟨planted.alike (first.trans unlisted) rfl rfl,
      ⟨opened.nopened, fun w => ?_, fun w m linked => ?_, fun w w' p there again => ?_⟩, shows.held⟩
    · show update t.opened v none w = (update s.vnode v _ w).data.map fun m => ((update s.vnode v _ w).mount, m)
      by_cases here : w = v
      · subst here
        rw [update_self, update_self]
        rfl
      · rw [update_of_ne here, update_of_ne here]
        exact opened.opened w
    · change (update s.vnode v _ w).data = some m at linked
      show (update s.vnode v _ w).rootFlag = decide (m = 0)
      by_cases here : w = v
      · subst here
        rw [update_self] at linked
        cases linked
      · rw [update_of_ne here] at linked ⊢
        exact opened.flag w m linked
    · exact opened.single w w' p (away w p there) (away w' p again)
  exact ⟨_, shows.opened.of_data data, shown.release detached⟩

/-- What a caller learns from a step of the code is what the tree answers. -/
theorem step_shows {x x' : Sys} {op : Op} {a : Answer} (fits : Fits x.fs x.held) (shows : Shows x t)
    (run : answerStep K x op = some (a, x')) : ∃ t', t.step K.reclen op = some (a, t') ∧ Shows x' t' := by
  obtain ⟨⟨r, y⟩, taken, same⟩ := Option.map_eq_some_iff.mp run
  cases same
  have root : x.fs.root = 0 := shows.planted.root
  unfold step at taken
  split at taken
  · rename_i enabled
    cases op with
    | mkdir v name avail =>
      obtain ⟨⟨r', s⟩, done, same⟩ := Option.map_eq_some_iff.mp taken
      cases same
      obtain ⟨place, t', opened, made, after⟩ := shows.mkdir fits done
      exact ⟨t', by rw [Tree.step, opened, Option.map_some, made], after⟩
    | rmdir v =>
      obtain ⟨⟨r', s⟩, done, same⟩ := Option.map_eq_some_iff.mp taken
      cases same
      obtain ⟨place, t', opened, removed, after⟩ := shows.rmdir fits done
      exact ⟨t', by rw [Tree.step, opened, Option.bind_some, removed], after⟩
    | lookup v cnp avail =>
      obtain ⟨⟨r', s⟩, done, same⟩ := Option.map_eq_some_iff.mp taken
      cases same
      obtain ⟨place, t', opened, found, after⟩ := shows.lookup fits done
      exact ⟨t', by rw [Tree.step, opened, Option.bind_some, found], after⟩
    | root mp avail =>
      have did : r = Reply.ofExcept (Sgfs.allocv x.fs mp x.fs.root avail).1 ∧
          y = ⟨(Sgfs.allocv x.fs mp x.fs.root avail).2, x.held⟩ := by
        cases taken
        exact ⟨rfl, rfl⟩
      obtain ⟨rfl, rfl⟩ := did
      obtain ⟨same, after⟩ := shows.visited fits fits.root.1 mp avail
      rw [root] at same after ⊢
      exact ⟨_, congrArg some (Prod.ext same.symm rfl), after⟩
    | getattr v =>
      obtain ⟨r', done, same⟩ := Option.map_eq_some_iff.mp taken
      cases same
      obtain ⟨n, data, same⟩ := Option.bind_eq_some_iff.mp done
      cases same
      exact ⟨t, by rw [Tree.step, shows.opened.of_data data]; rfl, shows⟩
    | readdir v uioOffset resid =>
      obtain ⟨⟨r', s⟩, done, same⟩ := Option.map_eq_some_iff.mp taken
      cases same
      obtain ⟨place, opened, listed, after⟩ := shows.readdir fits done
      exact ⟨t, by rw [Tree.step, opened, Option.map_some, listed], after⟩
    | reclaim v =>
      obtain ⟨s, done, same⟩ := Option.map_eq_some_iff.mp taken
      cases same
      obtain ⟨place, opened, after⟩ := shows.reclaim fits done
      exact ⟨_, by rw [Tree.step, opened]; rfl, after⟩
    | create v name =>
      obtain ⟨p, data, same⟩ := Option.map_eq_some_iff.mp taken
      obtain ⟨_, alive, dir⟩ := fits.opened v p data
      rw [dir] at same
      have did : r = .done ∧ y = ⟨(Sgfs.mkdirEntry x.fs p name).2, (Sgfs.mkdirEntry x.fs p name).1 :: x.held⟩ := by
        cases same
        exact ⟨rfl, rfl⟩
      obtain ⟨rfl, rfl⟩ := did
      obtain ⟨new, after⟩ := shows.mkdirEntry fits alive dir name
      refine ⟨{ t.make p name with held := t.next :: t.held }, ?_, after.planted.alike (.refl _) rfl rfl,
        after.opened.same rfl rfl rfl rfl, congrArg₂ List.cons new shows.held⟩
      rw [Tree.step, shows.opened.of_data data]
      rfl
    | search v name =>
      obtain ⟨p, data, same⟩ := Option.map_eq_some_iff.mp taken
      simp only [Op.enabled, Bool.and_eq_true, decide_eq_true_eq] at enabled
      obtain ⟨_, alive, dir⟩ := fits.opened v p data
      have found := shows.planted.search fits alive dir enabled.1.2 enabled.2
      rw [Tree.step, shows.opened.of_data data, Option.map_some]
      dsimp only
      rw [← found]
      unfold lookupEntry at same
      cases there : search x.fs p name with
      | some n =>
        rw [there] at same
        cases same
        have after := shows.addref n
        exact ⟨_, rfl, after.planted.alike (.refl _) rfl rfl,
          after.opened.same rfl rfl rfl rfl, congrArg (List.cons n) shows.held⟩
      | none =>
        rw [there] at same
        cases same
        exact ⟨t, rfl, shows⟩
    | allocv mp n avail =>
      cases taken
      obtain ⟨alive, _⟩ := fits.holds n (by simpa [Op.enabled] using enabled)
      obtain ⟨same, after⟩ := shows.visited fits alive mp avail
      exact ⟨_, congrArg some (Prod.ext same.symm rfl), after⟩
    | release n =>
      cases taken
      have member : n ∈ x.held := by simpa [Op.enabled] using enabled
      have after := shows.release (fits.perm (List.perm_cons_erase member))
      exact ⟨_, rfl, after.planted.alike (.refl _) rfl rfl,
        after.opened.same rfl rfl rfl rfl, congrArg (List.erase · n) shows.held⟩
  · cases taken

end shows

section runs
variable {K : VfsKernel}

theorem sgfsInit_shows {s : Fs} (init : sgfsInit K = some s) : Shows ⟨s, []⟩ {} := by
  obtain ⟨s', init', zero, one, two, nnodes, vnode, nvnodes, root, freed, _⟩ := sgfsInit_eq K
  cases init.symm.trans init'
  have only (n : Nat) (there : s.alive n) (dir : s.isDir n) : n = 0 := by
    rw [Fs.alive, nnodes] at there
    have cases : n = 0 ∨ n = 1 ∨ n = 2 := by omega
    rcases cases with rfl | rfl | rfl
    · rfl
    · simp [Fs.isDir, one, NodeType.isDir] at dir
    · simp [Fs.isDir, two, NodeType.isDir] at dir
  refine ⟨⟨nnodes, root, fun n there dir => ?_, fun n there dir => ?_⟩,
    ⟨nvnodes, fun v => ?_, fun v n data => ?_, ?_⟩, rfl⟩
  · cases only n there dir
    rw [zero]
    exact ⟨rfl, rfl, rfl, rfl⟩
  · cases only n there dir
    exact ⟨congrArg Node.name two, congrArg Node.name one⟩
  · show none = (s.vnode v).data.map _
    rw [vnode]
    rfl
  · change (s.vnode v).data = some n at data
    rw [vnode] at data
    cases data
  · intro v w p there
    cases there

end runs

end SfqSched.Sgfs
