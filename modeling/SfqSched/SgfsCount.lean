import SfqSched.Sgfs

namespace SfqSched.Sgfs
open Function

/-- The tree of nodes with its reference counts. `held` lists the references that
belong to calls in progress, one entry for each. -/
structure Fits (s : Fs) (held : List NodeId) : Prop where
  old : ∀ n : Nat, n ∈ s.freed → n < s.nnodes
  once : s.freed.Nodup
  root : s.alive s.root ∧ (s.node s.root).type = .root ∧ (s.node s.root).deleted = false ∧ (s.node s.root).parent = none
  kind : ∀ n, s.alive n → n ≠ s.root → (s.node n).type = .dir ∨ (s.node n).type = .this ∨ (s.node n).type = .parent
  shape : ∀ n, s.alive n → s.isDir n → ∃ dirs up dot, (s.node n).children = dirs ++ [up, dot] ∧
    (∀ c ∈ dirs, (s.node c).type = .dir) ∧ (s.node up).type = .parent ∧ (s.node dot).type = .this
  leaf : ∀ n, s.alive n → s.isDir n = false →
    (s.node n).children = [] ∧ (s.node n).vnodes = [] ∧ ((s.node n).name = "." ∨ (s.node n).name = "..")
  nodup : ∀ n, s.alive n → (s.node n).children.Nodup
  linked : ∀ n c, s.alive n → (c ∈ (s.node n).children ↔ s.alive c ∧ (s.node c).parent = some n)
  above : ∀ c p, s.alive c → (s.node c).parent = some p → s.alive p ∧ s.isDir p
  removed : ∀ n, s.alive n → (s.node n).type = .dir → ((s.node n).deleted = true ↔ (s.node n).parent = none)
  opened : ∀ v n, (s.vnode v).data = some n → v < s.nvnodes ∧ s.alive n ∧ s.isDir n
  vnodes : ∀ n v, s.alive n → (v ∈ (s.node n).vnodes ↔ (s.vnode v).data = some n)
  vnodup : ∀ n, s.alive n → (s.node n).vnodes.Nodup
  holds : ∀ n ∈ held, s.alive n ∧ s.isDir n
  count : ∀ n, s.alive n → s.isDir n → (s.node n).refcount =
    (if (s.node n).deleted then 0 else 1) + (s.node n).children.length + (s.node n).vnodes.length + held.count n
  needed : ∀ n, s.alive n → s.isDir n → 2 < (s.node n).refcount
  gone : ∀ n ∈ s.freed, s.isDir n → (s.node n).deleted ∧ (s.node n).children = [] ∧ (s.node n).vnodes = []

/-- `sgfs_destroy` of an entry `.` or `..`. -/
theorem destroy_entry {s : Fs} {x n : NodeId} (fuel : Nat) (type : (s.node x).type = .this ∨ (s.node x).type = .parent)
    (parent : (s.node x).parent = some n) : destroy (fuel + 1) s x =
      { s.modNode n fun m => { m with children := m.children.erase x } with freed := x :: s.freed } := by
  have leaf : s.isDir x = false := by
    rcases type with type | type <;> simp [Fs.isDir, type, NodeType.isDir]
  have kept : ((s.modNode n fun m => { m with children := m.children.erase x }).node x).type = (s.node x).type := by
    by_cases same : x = n
    · subst same
      simp [Fs.modNode]
    · simp [Fs.modNode, same]
  unfold destroy
  simp only [leaf, Bool.false_eq_true, if_false, parent]
  have number : filenoFree (s.modNode n fun m => { m with children := m.children.erase x }) x =
      s.modNode n fun m => { m with children := m.children.erase x } := by
    unfold filenoFree
    rw [kept]
    rcases type with type | type <;> rw [type]
  rw [number]
  split <;> rfl

/-- `sgfs_destroy` of a removed directory that has no more than its two entries. -/
theorem destroy_removed {s : Fs} {n up dot : NodeId} (fuel : Nat) (dir : s.isDir n) (parent : (s.node n).parent = none)
    (children : (s.node n).children = [up, dot]) (notDot : n ≠ dot)
    (typeUp : (s.node up).type = .parent) (typeDot : (s.node dot).type = .this) (parentUp : (s.node up).parent = some n)
    (parentDot : (s.node dot).parent = some n) : destroy (fuel + 4) s n = { s with
      node := update s.node n { s.node n with children := [] }
      unr := if s.fileno n ≠ 0 then s.unr.erase (s.fileno n) else s.unr, freed := n :: dot :: up :: s.freed } := by
  have loop : destroyChildren (fuel + 3) s n =
      { s with node := update s.node n { s.node n with children := [] }, freed := dot :: up :: s.freed } := by
    unfold destroyChildren
    rw [children]
    dsimp only
    rw [destroy_entry (fuel + 1) (.inr typeUp) parentUp]
    unfold destroyChildren
    have rest : ((s.modNode n fun m => { m with children := m.children.erase up }).node n).children = [dot] := by
      simp [Fs.modNode, children]
    dsimp only
    rw [rest]
    dsimp only
    rw [destroy_entry fuel (n := n)]
    · unfold destroyChildren
      simp [Fs.modNode, children]
    · simp [Fs.modNode, Ne.symm notDot, typeDot]
    · simp [Fs.modNode, Ne.symm notDot, parentDot]
  have kind : (s.node n).type = .dir ∨ (s.node n).type = .root := by
    unfold Fs.isDir at dir
    cases type : (s.node n).type <;> simp [type, NodeType.isDir] at dir ⊢
  unfold destroy
  rw [if_pos dir, loop]
  simp only [update_self, parent]
  split
  · unfold filenoFree
    simp only [update_self]
    rcases kind with type | type <;> rw [type]
  · rfl

/-- The three new nodes of `sgfs_create_dir`, and the directory they are made in. -/
theorem createDir_node {s : Fs} {p : Nat} (name : String) (below : p < s.nnodes) (m : Nat) :
    (createDir s p name).2.node m =
      if m = s.nnodes then
        { name := name, type := .dir, refcount := 3, parent := some p, children := [s.nnodes + 2, s.nnodes + 1] }
      else if m = s.nnodes + 1 then { name := ".", type := .this, refcount := 1, parent := some s.nnodes }
      else if m = s.nnodes + 2 then { name := "..", type := .parent, refcount := 1, parent := some s.nnodes }
      else if m = p then { s.node p with refcount := (s.node p).refcount + 1, children := s.nnodes :: (s.node p).children }
      else s.node m := by
  obtain ⟨one, two, three⟩ : ¬p = s.nnodes ∧ ¬p = s.nnodes + 1 ∧ ¬p = s.nnodes + 2 := by omega
  have ab : ¬s.nnodes = s.nnodes + 1 := by omega
  have ac : ¬s.nnodes = s.nnodes + 2 := by omega
  have bc : ¬s.nnodes + 1 = s.nnodes + 2 := by omega
  have step : s.nnodes + 1 + 1 = s.nnodes + 2 := rfl
  simp only [createDir, fixupDir, addNode, createNode, addref, Fs.modNode, update_apply, step]
  by_cases first : m = s.nnodes
  · simp [first, Ne.symm one]
  by_cases second : m = s.nnodes + 1
  · simp [second]
  by_cases third : m = s.nnodes + 2
  · simp [third]
  by_cases fourth : m = p
  · simp [fourth, one, two, three]
  simp [first, second, third, fourth]

namespace Fits
variable {s : Fs} {held held' : List NodeId} {n p v : Nat}

theorem perm (fits : Fits s held) (same : held.Perm held') : Fits s held' where
  __ := fits
  holds := fun n member => fits.holds n (same.mem_iff.mpr member)
  count := fun n alive dir => by rw [fits.count n alive dir, same.count_eq]

/-- The same tree with other counts. -/
theorem recount (fits : Fits s held) {held' : List NodeId} {r : NodeId → Nat}
    (holds : ∀ n ∈ held', s.alive n ∧ s.isDir n)
    (count : ∀ n, s.alive n → s.isDir n → r n =
      (if (s.node n).deleted then 0 else 1) + (s.node n).children.length + (s.node n).vnodes.length + held'.count n)
    (needed : ∀ n, s.alive n → s.isDir n → 2 < r n) :
    Fits { s with node := fun m => { s.node m with refcount := r m } } held' :=
  ⟨fits.old, fits.once, fits.root, fits.kind, fits.shape, fits.leaf, fits.nodup, fits.linked, fits.above, fits.removed,
    fits.opened, fits.vnodes, fits.vnodup, holds, count, needed, fits.gone⟩

theorem modNode_eq (s : Fs) (n : NodeId) (f : Node → Node) :
    s.modNode n f = { s with node := fun m => if m = n then f (s.node m) else s.node m } := by
  unfold Fs.modNode
  congr 1
  funext m
  by_cases same : m = n
  · subst same
    simp
  · simp [same]

theorem addref_eq (s : Fs) (n : NodeId) : addref s n =
    { s with node := fun m => { s.node m with refcount := (s.node m).refcount + if m = n then 1 else 0 } } := by
  rw [addref, modNode_eq]
  congr 1
  funext m
  split <;> rfl

/-- A call takes a reference. -/
theorem hold (fits : Fits s held) (alive : s.alive n) (dir : s.isDir n) : Fits (addref s n) (n :: held) := by
  rw [addref_eq]
  refine fits.recount (fun m member => ?_) (fun m there isDir => ?_) (fun m there isDir => ?_)
  · rcases List.mem_cons.mp member with rfl | member
    · exact ⟨alive, dir⟩
    · exact fits.holds m member
  · have before := fits.count m there isDir
    rw [List.count_cons, before]
    by_cases same : m = n
    · simp [same]
      omega
    · have other : ¬n = m := fun eq => same eq.symm
      simp [same, other]
  · have enough := fits.needed m there isDir
    omega

/-- The same tree with other vnodes. -/
theorem revnode (fits : Fits s held) {h : List NodeId} {r : NodeId → Nat} {u : NodeId → List VnodeId}
    {w : VnodeId → Vnode} {k : Nat} (leaf : ∀ n, s.alive n → s.isDir n = false → u n = [])
    (opened : ∀ v n, (w v).data = some n → v < k ∧ s.alive n ∧ s.isDir n)
    (vnodes : ∀ n v, s.alive n → (v ∈ u n ↔ (w v).data = some n)) (vnodup : ∀ n, s.alive n → (u n).Nodup)
    (holds : ∀ n ∈ h, s.alive n ∧ s.isDir n)
    (count : ∀ n, s.alive n → s.isDir n → r n =
      (if (s.node n).deleted then 0 else 1) + (s.node n).children.length + (u n).length + h.count n)
    (needed : ∀ n, s.alive n → s.isDir n → 2 < r n) (gone : ∀ n ∈ s.freed, s.isDir n → u n = []) :
    Fits { s with node := fun m => { s.node m with refcount := r m, vnodes := u m }, vnode := w, nvnodes := k } h :=
  ⟨fits.old, fits.once, fits.root, fits.kind, fits.shape,
    fun n alive other => ⟨(fits.leaf n alive other).1, leaf n alive other, (fits.leaf n alive other).2.2⟩,
    fits.nodup, fits.linked, fits.above, fits.removed, opened, vnodes, vnodup, holds, count, needed,
    fun n freed dir => ⟨(fits.gone n freed dir).1, (fits.gone n freed dir).2.1, gone n freed dir⟩⟩

/-- A new vnode takes a reference of its own. -/
theorem attach (fits : Fits s held) (alive : s.alive n) (dir : s.isDir n) (mp : MountId) (root : Bool) :
    Fits (addref (Fs.modNode { s with
      vnode := update s.vnode s.nvnodes ⟨mp, some n, root⟩, nvnodes := s.nvnodes + 1 } n
        fun x => { x with vnodes := s.nvnodes :: x.vnodes }) n) held := by
  have data (v : VnodeId) : (update s.vnode s.nvnodes ⟨mp, some n, root⟩ v).data =
      if v = s.nvnodes then some n else (s.vnode v).data := by
    by_cases same : v = s.nvnodes
    · simp [same]
    · simp [same]
  have fresh (m : NodeId) : (s.vnode s.nvnodes).data ≠ some m := fun there =>
    Nat.lt_irrefl _ (fits.opened _ _ there).1
  have eq := fits.revnode (h := held) (r := fun m => (s.node m).refcount + if m = n then 1 else 0)
    (u := fun m => if m = n then s.nvnodes :: (s.node m).vnodes else (s.node m).vnodes)
    (w := update s.vnode s.nvnodes ⟨mp, some n, root⟩) (k := s.nvnodes + 1) ?_ ?_ ?_ ?_ fits.holds ?_ ?_ ?_
  · rw [addref_eq, modNode_eq]
    convert eq using 2
    funext m
    dsimp only
    split <;> rfl
  · intro m there other
    have apart : m ≠ n := fun same => Bool.noConfusion ((same ▸ other).symm.trans dir)
    rw [if_neg apart]
    exact (fits.leaf m there other).2.1
  · intro v m
    rw [data]
    split
    · rename_i same
      rintro ⟨⟩
      refine ⟨?_, alive, dir⟩
      rw [same]
      exact Nat.lt_succ_self _
    · intro there
      obtain ⟨below, rest⟩ := fits.opened v m there
      exact ⟨Nat.lt_succ_of_lt below, rest⟩
  · intro m v there
    rw [data]
    have before := fits.vnodes m v there
    have new := fresh m
    by_cases same : v = s.nvnodes
    · subst same
      grind
    · grind
  · intro m there
    have before := fits.vnodup m there
    have new := (fits.vnodes m s.nvnodes there).not.mpr (fresh m)
    split
    · exact List.nodup_cons.mpr ⟨new, before⟩
    · exact before
  · intro m there isDir
    have before := fits.count m there isDir
    split
    all_goals simp_all
    omega
  · intro m there isDir
    have enough := fits.needed m there isDir
    omega
  · intro m freed isDir
    have apart : m ≠ n := fun same => alive.2 (same ▸ freed)
    rw [if_neg apart]
    exact (fits.gone m freed isDir).2.2

/-- A vnode that is reclaimed leaves its reference to the call. -/
theorem detach (fits : Fits s held) (data : (s.vnode v).data = some n) :
    Fits (Fs.modNode { s with vnode := update s.vnode v { s.vnode v with data := none } } n
      fun x => { x with vnodes := x.vnodes.erase v }) (n :: held) := by
  obtain ⟨below, alive, dir⟩ := fits.opened v n data
  have data' (w : VnodeId) : (update s.vnode v { s.vnode v with data := none } w).data =
      if w = v then none else (s.vnode w).data := by
    by_cases same : w = v
    · simp [same]
    · simp [same]
  have eq := fits.revnode (h := n :: held) (r := fun m => (s.node m).refcount)
    (u := fun m => if m = n then (s.node m).vnodes.erase v else (s.node m).vnodes)
    (w := update s.vnode v { s.vnode v with data := none }) (k := s.nvnodes) ?_ ?_ ?_ ?_ ?_ ?_ fits.needed ?_
  · rw [modNode_eq]
    convert eq using 2
    funext m
    dsimp only
    split <;> rfl
  · intro m there other
    have apart : m ≠ n := fun same => Bool.noConfusion ((same ▸ other).symm.trans dir)
    rw [if_neg apart]
    exact (fits.leaf m there other).2.1
  · intro w m
    rw [data']
    split
    · rintro ⟨⟩
    · exact fits.opened w m
  · intro m w there
    rw [data']
    have before := fits.vnodes m w there
    have nodup := fits.vnodup m there
    by_cases same : m = n
    · subst same
      rw [if_pos rfl, nodup.mem_erase_iff, before]
      by_cases eq : w = v <;> simp [eq]
    · rw [if_neg same, before]
      by_cases eq : w = v
      · subst eq
        rw [data]
        simp [Ne.symm same]
      · simp [eq]
  · intro m there
    have before := fits.vnodup m there
    split
    · exact before.erase _
    · exact before
  · intro m member
    rcases List.mem_cons.mp member with rfl | member
    · exact ⟨alive, dir⟩
    · exact fits.holds m member
  · intro m there isDir
    have before := fits.count m there isDir
    rw [List.count_cons, before]
    by_cases same : m = n
    · subst same
      have member := (fits.vnodes m v there).mpr data
      have pos := List.length_pos_of_mem member
      simp [List.length_erase_of_mem member]
      omega
    · have other : ¬n = m := fun eq => same eq.symm
      simp [same, other]
  · intro m freed isDir
    have apart : m ≠ n := fun same => alive.2 (same ▸ freed)
    rw [if_neg apart]
    exact (fits.gone m freed isDir).2.2

/-- An empty directory is not its own parent. -/
theorem not_own_parent (fits : Fits s held) (alive : s.alive n) (type : (s.node n).type = .dir)
    (parent : (s.node n).parent = some p) (empty : (s.node n).children.length = 2) : n ≠ p := by
  rintro rfl
  have child : n ∈ (s.node n).children := (fits.linked n n alive).mpr ⟨alive, parent⟩
  obtain ⟨dirs, up, dot, children, _, typeUp, typeDot⟩ := fits.shape n alive (by simp [Fs.isDir, type, NodeType.isDir])
  have none_left : dirs = [] := List.length_eq_zero_iff.mp (by rw [children] at empty; simpa using empty)
  subst none_left
  rw [children] at child
  simp only [List.nil_append, List.mem_cons, List.not_mem_nil, or_false] at child
  rcases child with rfl | rfl
  · cases type.symm.trans typeUp
  · cases type.symm.trans typeDot

/-- What `sgfs_rmdir` unlinks is still held by the two references it then drops. -/
theorem unlink (fits : Fits s held) (alive : s.alive n) (type : (s.node n).type = .dir) (parent : (s.node n).parent = some p)
    (empty : (s.node n).children.length = 2) :
    Fits ((s.modNode n fun x => { x with parent := none, deleted := true }).modNode p
      fun x => { x with children := x.children.erase n }) (n :: p :: held) := by
  obtain ⟨aliveP, dirP⟩ := fits.above n p alive parent
  have dir : s.isDir n = true := by simp [Fs.isDir, type, NodeType.isDir]
  have child : n ∈ (s.node p).children := (fits.linked p n aliveP).mpr ⟨alive, parent⟩
  have apart := fits.not_own_parent alive type parent empty
  have notRoot : n ≠ s.root := by
    rintro rfl
    cases type.symm.trans fits.root.2.1
  have eq : Fits { s with node := fun m => { s.node m with
      parent := if m = n then none else (s.node m).parent
      deleted := if m = n then true else (s.node m).deleted
      children := if m = p then (s.node m).children.erase n else (s.node m).children } } (n :: p :: held) := by
    refine ⟨fits.old, fits.once, ⟨fits.root.1, fits.root.2.1, ?_, ?_⟩, fits.kind, fun m there isDir => ?_,
      fun m there other => ?_, fun m there => ?_, fun m c there => ?_, fun c q there up => ?_, fun m there isDir => ?_,
      fits.opened, fits.vnodes, fits.vnodup, fun m member => ?_, fun m there isDir => ?_, fits.needed, fun m freed isDir => ?_⟩
    · simpa [Ne.symm notRoot] using fits.root.2.2.1
    · simpa [Ne.symm notRoot] using fits.root.2.2.2
    · obtain ⟨dirs, up, dot, children, types, typeUp, typeDot⟩ := fits.shape m there isDir
      dsimp only
      split
      · rename_i same
        subst same
        have inside : n ∈ dirs := by
          rw [children] at child
          rcases List.mem_append.mp child with inside | rest
          · exact inside
          · simp only [List.mem_cons, List.not_mem_nil, or_false] at rest
            rcases rest with rfl | rfl
            · cases type.symm.trans typeUp
            · cases type.symm.trans typeDot
        refine ⟨dirs.erase n, up, dot, ?_, fun c member => types c (List.mem_of_mem_erase member), typeUp, typeDot⟩
        rw [children, List.erase_append_left _ inside]
      · exact ⟨dirs, up, dot, children, types, typeUp, typeDot⟩
    · have notP : m ≠ p := fun same => Bool.noConfusion ((same ▸ other).symm.trans dirP)
      simpa [notP] using fits.leaf m there other
    · dsimp only
      split
      · exact (fits.nodup m there).erase _
      · exact fits.nodup m there
    · have before := fits.linked m c there
      have nodup := fits.nodup m there
      dsimp only
      by_cases same : m = p
      · subst same
        rw [if_pos rfl, nodup.mem_erase_iff, before]
        by_cases eq : c = n
        · simp [eq]
        · simp [eq, Fs.alive]
      · rw [if_neg same, before]
        by_cases eq : c = n
        · subst eq
          rw [parent]
          simp [Ne.symm same]
        · simp [eq, Fs.alive]
    · dsimp only at up
      split at up
      · cases up
      · exact fits.above c q there up
    · dsimp only
      split
      · simp
      · exact fits.removed m there isDir
    · rcases List.mem_cons.mp member with rfl | member
      · exact ⟨alive, dir⟩
      rcases List.mem_cons.mp member with rfl | member
      · exact ⟨aliveP, dirP⟩
      · exact fits.holds m member
    · have before := fits.count m there isDir
      dsimp only
      rw [List.count_cons, List.count_cons, before]
      by_cases isN : m = n
      · subst isN
        have live : (s.node m).deleted = false := by
          have removed := fits.removed m there type
          rw [parent] at removed
          simpa using removed
        simp [apart, Ne.symm apart, live]
        omega
      · by_cases isP : m = p
        · subst isP
          have pos := List.length_pos_of_mem child
          simp [isN, Ne.symm isN, List.length_erase_of_mem child]
          omega
        · simp [isN, isP, Ne.symm isN, Ne.symm isP]
    · have notN : m ≠ n := fun same => alive.2 (same ▸ freed)
      have notP : m ≠ p := fun same => aliveP.2 (same ▸ freed)
      simpa [notN, notP] using fits.gone m freed isDir
  rw [modNode_eq, modNode_eq]
  convert eq using 2
  funext m
  by_cases isN : m = n
  · subst isN
    simp [apart]
  · by_cases isP : m = p
    · subst isP
      simp [isN]
    · simp [isN, isP]

/-- What is removed is a directory, and hangs on no parent. -/
theorem loose (fits : Fits s held) (alive : s.alive n) (dir : s.isDir n) (deleted : (s.node n).deleted) :
    (s.node n).type = .dir ∧ (s.node n).parent = none := by
  have notRoot : n ≠ s.root := by
    rintro rfl
    cases deleted.symm.trans fits.root.2.2.1
  have type : (s.node n).type = .dir := by
    rcases fits.kind n alive notRoot with isDir | this | parent
    · exact isDir
    · simp [Fs.isDir, this, NodeType.isDir] at dir
    · simp [Fs.isDir, parent, NodeType.isDir] at dir
  exact ⟨type, (fits.removed n alive type).mp deleted⟩

/-- The state after a directory that nothing refers to has been given back with its two entries. -/
theorem forget (fits : Fits s (n :: held)) {up dot : NodeId} {r : Nat} {unr : List Nat} (alive : s.alive n) (dir : s.isDir n)
    (deleted : (s.node n).deleted) (children : (s.node n).children = [up, dot]) (vnodes : (s.node n).vnodes = [])
    (unheld : n ∉ held) :
    Fits { s with
      node := fun m => if m = n then { s.node n with children := [], refcount := r } else s.node m
      unr := unr, freed := n :: dot :: up :: s.freed } held := by
  obtain ⟨dirs, up', dot', shape, _, typeUp, typeDot⟩ := fits.shape n alive dir
  rw [children] at shape
  have none_left : dirs = [] := by
    have lengths := congrArg List.length shape
    simp only [List.length_cons, List.length_nil, List.length_append] at lengths
    exact List.length_eq_zero_iff.mp (by omega)
  subst none_left
  cases shape
  have linked := fits.linked n
  rw [children] at linked
  obtain ⟨aliveUp, parentUp⟩ := (linked up alive).mp (by simp)
  obtain ⟨aliveDot, parentDot⟩ := (linked dot alive).mp (by simp)
  have apart : up ≠ dot := fun same => by
    cases typeUp.symm.trans (same ▸ typeDot)
  have notUp (m : NodeId) (isDir : s.isDir m) : m ≠ up := by
    rintro rfl
    simp [Fs.isDir, typeUp, NodeType.isDir] at isDir
  have notDot (m : NodeId) (isDir : s.isDir m) : m ≠ dot := by
    rintro rfl
    simp [Fs.isDir, typeDot, NodeType.isDir] at isDir
  have notRoot : n ≠ s.root := by
    rintro rfl
    cases deleted.symm.trans fits.root.2.2.1
  obtain ⟨type, loose⟩ := fits.loose alive dir deleted
  have dirRoot : s.isDir s.root := by simp [Fs.isDir, fits.root.2.1, NodeType.isDir]
  generalize eq : ({ s with
      node := fun m => if m = n then { s.node n with children := [], refcount := r } else s.node m
      unr := unr, freed := n :: dot :: up :: s.freed } : Fs) = s'
  have other (m : NodeId) (apart : m ≠ n) : s'.node m = s.node m := by
    rw [← eq]
    exact if_neg apart
  have fields (m : NodeId) : (s'.node m).type = (s.node m).type ∧ (s'.node m).parent = (s.node m).parent ∧
      (s'.node m).deleted = (s.node m).deleted ∧ (s'.node m).vnodes = (s.node m).vnodes := by
    by_cases same : m = n
    · subst same
      simp [← eq]
    · rw [other m same]
      exact ⟨rfl, rfl, rfl, rfl⟩
  have isDir' (m : NodeId) : s'.isDir m = s.isDir m := congrArg NodeType.isDir (fields m).1
  have alive' (m : NodeId) : s'.alive m ↔ s.alive m ∧ m ≠ n ∧ m ≠ dot ∧ m ≠ up := by
    rw [← eq]
    simp only [Fs.alive, List.mem_cons, not_or]
    tauto
  have freed : s'.freed = n :: dot :: up :: s.freed := by rw [← eq]
  have same : s'.nnodes = s.nnodes ∧ s'.root = s.root ∧ s'.vnode = s.vnode ∧ s'.nvnodes = s.nvnodes := by
    rw [← eq]
    exact ⟨rfl, rfl, rfl, rfl⟩
  obtain ⟨nnodes, root, vnode, nvnodes⟩ := same
  have keeps (m : NodeId) (there : s.alive m) (isDir : s.isDir m) (away : m ≠ n) : s'.alive m ∧ s'.isDir m :=
    ⟨(alive' m).mpr ⟨there, away, notDot m isDir, notUp m isDir⟩, by rw [isDir', isDir]⟩
  constructor
  · rw [freed, nnodes]
    intro m member
    simp only [List.mem_cons] at member
    rcases member with rfl | rfl | rfl | member
    · exact alive.1
    · exact aliveDot.1
    · exact aliveUp.1
    · exact fits.old m member
  · rw [freed]
    have notN : n ∉ dot :: up :: s.freed := by simp [notUp n dir, notDot n dir, alive.2]
    refine List.nodup_cons.mpr ⟨notN, List.nodup_cons.mpr ⟨?_, List.nodup_cons.mpr ⟨aliveUp.2, fits.once⟩⟩⟩
    simp [Ne.symm apart, aliveDot.2]
  · rw [root, (fields _).1, (fields _).2.1, (fields _).2.2.1]
    exact ⟨(keeps _ fits.root.1 dirRoot (Ne.symm notRoot)).1, fits.root.2⟩
  · intro m there away
    rw [(fields m).1]
    exact fits.kind m ((alive' m).mp there).1 (root ▸ away)
  · intro m there isDir
    obtain ⟨before, away, _⟩ := (alive' m).mp there
    rw [other m away]
    obtain ⟨dirs, u, d, split, types, typeU, typeD⟩ := fits.shape m before (isDir' m ▸ isDir)
    refine ⟨dirs, u, d, split, fun c member => ?_, ?_, ?_⟩
    · rw [(fields c).1, types c member]
    · rw [(fields u).1, typeU]
    · rw [(fields d).1, typeD]
  · intro m there leaf
    obtain ⟨before, away, _⟩ := (alive' m).mp there
    rw [other m away]
    exact fits.leaf m before (isDir' m ▸ leaf)
  · intro m there
    obtain ⟨before, away, _⟩ := (alive' m).mp there
    rw [other m away]
    exact fits.nodup m before
  · intro m c there
    obtain ⟨before, away, _⟩ := (alive' m).mp there
    rw [other m away, alive', (fields c).2.1, fits.linked m c before]
    constructor
    · rintro ⟨aliveC, up⟩
      refine ⟨⟨aliveC, ?_, ?_, ?_⟩, up⟩
      · rintro rfl
        cases loose.symm.trans up
      · rintro rfl
        cases parentDot.symm.trans up
        exact away rfl
      · rintro rfl
        cases parentUp.symm.trans up
        exact away rfl
    · rintro ⟨⟨aliveC, _⟩, up⟩
      exact ⟨aliveC, up⟩
  · intro c q there above
    obtain ⟨before, _, awayDot, awayUp⟩ := (alive' c).mp there
    rw [(fields c).2.1] at above
    obtain ⟨aliveQ, dirQ⟩ := fits.above c q before above
    refine keeps q aliveQ dirQ ?_
    rintro rfl
    have inside := (linked c alive).mpr ⟨before, above⟩
    simp [awayDot, awayUp] at inside
  · intro m there isDir
    rw [(fields m).1] at isDir
    rw [(fields m).2.1, (fields m).2.2.1]
    exact fits.removed m ((alive' m).mp there).1 isDir
  · intro v q data
    rw [vnode] at data
    obtain ⟨below, aliveQ, dirQ⟩ := fits.opened v q data
    rw [nvnodes]
    refine ⟨below, keeps q aliveQ dirQ ?_⟩
    rintro rfl
    have inside := (fits.vnodes q v aliveQ).mpr data
    rw [vnodes] at inside
    cases inside
  · intro m v there
    rw [(fields m).2.2.2, vnode]
    exact fits.vnodes m v ((alive' m).mp there).1
  · intro m there
    rw [(fields m).2.2.2]
    exact fits.vnodup m ((alive' m).mp there).1
  · intro m member
    obtain ⟨aliveM, dirM⟩ := fits.holds m (List.mem_cons_of_mem _ member)
    exact keeps m aliveM dirM fun same => unheld (same ▸ member)
  · intro m there isDir
    obtain ⟨before, away, _⟩ := (alive' m).mp there
    have counted := fits.count m before (isDir' m ▸ isDir)
    rw [List.count_cons_of_ne (Ne.symm away)] at counted
    rw [other m away]
    exact counted
  · intro m there isDir
    obtain ⟨before, away, _⟩ := (alive' m).mp there
    rw [other m away]
    exact fits.needed m before (isDir' m ▸ isDir)
  · rw [freed]
    intro m member isDir
    rw [isDir'] at isDir
    simp only [List.mem_cons] at member
    rcases member with rfl | rfl | rfl | member
    · rw [← eq]
      simp [deleted, vnodes]
    · exact absurd rfl (notDot m isDir)
    · exact absurd rfl (notUp m isDir)
    · have away : m ≠ n := fun same => alive.2 (same ▸ member)
      rw [other m away]
      exact fits.gone m member isDir


/-- `sgnode_release` destroys exactly a removed directory that nothing else refers to. -/
theorem release_cases (fits : Fits s (n :: held)) :
    ((s.node n).refcount ≠ 3 ∧ release s n = s.modNode n fun n => { n with refcount := n.refcount - 1 }) ∨
    ∃ up dot, (s.node n).deleted ∧ (s.node n).children = [up, dot] ∧ (s.node n).vnodes = [] ∧ n ∉ held ∧
      release s n = { s with
        node := fun m => if m = n then { s.node n with children := [], refcount := 2 } else s.node m
        unr := if s.fileno n ≠ 0 then s.unr.erase (s.fileno n) else s.unr, freed := n :: dot :: up :: s.freed } := by
  obtain ⟨alive, dir⟩ := fits.holds n (List.mem_cons_self ..)
  have count := fits.count n alive dir
  have dir' : (s.modNode n fun n => { n with refcount := n.refcount - 1 }).isDir n = true := by
    simpa [Fs.isDir, Fs.modNode] using dir
  rw [List.count_cons_self] at count
  unfold release
  dsimp only
  rw [if_pos dir']
  split
  · rename_i last
    right
    rw [last] at count
    obtain ⟨dirs, up, dot, children, _, typeUp, typeDot⟩ := fits.shape n alive dir
    have entries : (s.node n).children.length = dirs.length + 2 := by
      rw [children]
      simp
    have alone : dirs = [] ∧ (s.node n).vnodes = [] ∧ held.count n = 0 := by
      refine ⟨List.length_eq_zero_iff.mp ?_, List.length_eq_zero_iff.mp ?_, ?_⟩ <;> omega
    obtain ⟨rfl, vnodes, unheld⟩ := alone
    have deleted : (s.node n).deleted = true := by
      cases removed : (s.node n).deleted with
      | true => rfl
      | false =>
        rw [removed] at count
        simp at count
        omega
    obtain ⟨aliveUp, parentUp⟩ := (fits.linked n up alive).mp (by simp [children])
    obtain ⟨aliveDot, parentDot⟩ := (fits.linked n dot alive).mp (by simp [children])
    obtain ⟨type, loose⟩ := fits.loose alive dir deleted
    have apart : up ≠ dot := fun same => by cases typeUp.symm.trans (same ▸ typeDot)
    have notUp : n ≠ up := fun same => by cases typeUp.symm.trans (same ▸ type)
    have notDot : n ≠ dot := fun same => by cases typeDot.symm.trans (same ▸ type)
    have two : ∃ fuel, 2 * s.nnodes = fuel + 4 := by
      have one := Nat.succ_le_of_lt aliveUp.1
      have other := Nat.succ_le_of_lt aliveDot.1
      have both : 2 ≤ s.nnodes := by
        by_contra small
        exact apart (Nat.le_antisymm (by omega) (by omega))
      exact ⟨2 * s.nnodes - 4, by omega⟩
    obtain ⟨fuel, two⟩ := two
    have gone := destroy_removed (s := s.modNode n fun n => { n with refcount := n.refcount - 1 }) (n := n) fuel dir'
      (by simpa [Fs.modNode] using loose) (by simpa [Fs.modNode] using children) notDot
      (by simpa [Fs.modNode, Ne.symm notUp] using typeUp) (by simpa [Fs.modNode, Ne.symm notDot] using typeDot)
      (by simpa [Fs.modNode, Ne.symm notUp] using parentUp) (by simpa [Fs.modNode, Ne.symm notDot] using parentDot)
    have nnodes : (s.modNode n fun n => { n with refcount := n.refcount - 1 }).nnodes = s.nnodes := rfl
    refine ⟨up, dot, deleted, children, vnodes, List.count_eq_zero.mp unheld, ?_⟩
    rw [nnodes, two, gone]
    unfold Fs.modNode
    congr 1
    funext m
    by_cases same : m = n
    · subst same
      simp [last]
    · simp [same]
  · rename_i more
    exact .inl ⟨more, rfl⟩

/-- `sgnode_release` drops the reference of a call. -/
theorem drop (fits : Fits s (n :: held)) : Fits (release s n) held := by
  obtain ⟨alive, dir⟩ := fits.holds n (List.mem_cons_self ..)
  rcases fits.release_cases with ⟨more, same⟩ | ⟨up, dot, deleted, children, vnodes, unheld, same⟩
  · have enough := fits.needed n alive dir
    have eq : Fits { s with node := fun m => { s.node m with
        refcount := if m = n then (s.node m).refcount - 1 else (s.node m).refcount } } held := by
      refine fits.recount (fun m member => fits.holds m (List.mem_cons_of_mem _ member)) (fun m there isDir => ?_)
        (fun m there isDir => ?_)
      · have before := fits.count m there isDir
        rw [List.count_cons] at before
        split
        · rename_i same
          subst same
          simp at before
          omega
        · rename_i other
          rw [before]
          simp [Ne.symm other]
      · have enough' := fits.needed m there isDir
        split
        · rename_i same
          subst same
          omega
        · exact enough'
    rw [same, modNode_eq]
    convert eq using 2
    funext m
    split <;> rfl
  · rw [same]
    exact fits.forget alive dir deleted children vnodes unheld

/-- A new directory. -/
theorem create (fits : Fits s held) (alive : s.alive p) (dir : s.isDir p) (name : String) :
    Fits (createDir s p name).2 held ∧ (createDir s p name).2.alive s.nnodes ∧
      (createDir s p name).2.isDir s.nnodes := by
  have below : p < s.nnodes := alive.1
  have nodes := createDir_node name below
  have same : (createDir s p name).2.freed = s.freed ∧ (createDir s p name).2.nnodes = s.nnodes + 3 ∧
    (createDir s p name).2.root = s.root ∧ (createDir s p name).2.vnode = s.vnode ∧
    (createDir s p name).2.nvnodes = s.nvnodes := ⟨rfl, rfl, rfl, rfl, rfl⟩
  generalize (createDir s p name).2 = s' at nodes same
  obtain ⟨freed, nnodes, root, vnode, nvnodes⟩ := same
  have nodeA : s'.node s.nnodes =
      { name := name, type := .dir, refcount := 3, parent := some p, children := [s.nnodes + 2, s.nnodes + 1] } := by
    rw [nodes, if_pos rfl]
  have nodeB : s'.node (s.nnodes + 1) = { name := ".", type := .this, refcount := 1, parent := some s.nnodes } := by
    rw [nodes, if_neg (by omega), if_pos rfl]
  have nodeC : s'.node (s.nnodes + 2) = { name := "..", type := .parent, refcount := 1, parent := some s.nnodes } := by
    rw [nodes, if_neg (by omega), if_neg (by omega), if_pos rfl]
  have nodeP : s'.node p =
      { s.node p with refcount := (s.node p).refcount + 1, children := s.nnodes :: (s.node p).children } := by
    rw [nodes, if_neg (by omega), if_neg (by omega), if_neg (by omega), if_pos rfl]
  have node (m : Nat) (old : m < s.nnodes) (other : m ≠ p) : s'.node m = s.node m := by
    rw [nodes, if_neg (by omega), if_neg (by omega), if_neg (by omega), if_neg other]
  have kept (m : Nat) (old : m < s.nnodes) : (s'.node m).type = (s.node m).type ∧ (s'.node m).parent = (s.node m).parent ∧
      (s'.node m).deleted = (s.node m).deleted ∧ (s'.node m).vnodes = (s.node m).vnodes ∧
      (s'.node m).name = (s.node m).name := by
    by_cases isP : m = p
    · rw [isP, nodeP]
      exact ⟨rfl, rfl, rfl, rfl, rfl⟩
    · rw [node m old isP]
      exact ⟨rfl, rfl, rfl, rfl, rfl⟩
  have isDir' (m : Nat) (old : m < s.nnodes) : s'.isDir m = s.isDir m := congrArg NodeType.isDir (kept m old).1
  have dirA : s'.isDir s.nnodes = true := by rw [Fs.isDir, nodeA]; rfl
  have dirB : s'.isDir (s.nnodes + 1) = false := by rw [Fs.isDir, nodeB]; rfl
  have dirC : s'.isDir (s.nnodes + 2) = false := by rw [Fs.isDir, nodeC]; rfl
  have alive' (m : Nat) : s'.alive m ↔ s.alive m ∨ m = s.nnodes ∨ m = s.nnodes + 1 ∨ m = s.nnodes + 2 := by
    simp only [Fs.alive, freed, nnodes]
    constructor
    · rintro ⟨small, unfreed⟩
      by_cases old : m < s.nnodes
      · exact .inl ⟨old, unfreed⟩
      · right
        omega
    · rintro (⟨small, unfreed⟩ | rfl | rfl | rfl)
      · exact ⟨by omega, unfreed⟩
      all_goals
        refine ⟨by omega, fun member => ?_⟩
        have early := fits.old _ member
        omega
  have old (m : Nat) (there : s.alive m) : m < s.nnodes := there.1
  refine ⟨?_, (alive' _).mpr (.inr (.inl rfl)), dirA⟩
  have new (m : Nat) (there : s'.alive m) : s.alive m ∨ m = s.nnodes ∨ m = s.nnodes + 1 ∨ m = s.nnodes + 2 := (alive' m).mp there
  have apart (m c : Nat) (inside : c ∈ (s.node m).children) (there : s.alive m) : c < s.nnodes :=
    ((fits.linked m c there).mp inside).1.1
  constructor
  · rw [freed, nnodes]
    intro m member
    exact Nat.lt_of_lt_of_le (fits.old m member) (Nat.le_add_right ..)
  · rw [freed]
    exact fits.once
  · obtain ⟨there, type, live, top⟩ := fits.root
    have fields := kept s.root (old _ there)
    rw [root]
    exact ⟨(alive' _).mpr (.inl there), fields.1.trans type, fields.2.2.1.trans live, fields.2.1.trans top⟩
  · intro m there other
    rw [root] at other
    rcases new m there with before | rfl | rfl | rfl
    · rw [(kept m (old m before)).1]
      exact fits.kind m before other
    · exact .inl (by rw [nodeA])
    · exact .inr (.inl (by rw [nodeB]))
    · exact .inr (.inr (by rw [nodeC]))
  · intro m there isDir
    rcases new m there with before | rfl | rfl | rfl
    · rw [isDir' m (old m before)] at isDir
      obtain ⟨dirs, up, dot, children, types, typeUp, typeDot⟩ := fits.shape m before isDir
      have small (c : Nat) (inside : c ∈ dirs ++ [up, dot]) : c < s.nnodes := apart m c (children ▸ inside) before
      have types' : ∀ c ∈ dirs, (s'.node c).type = .dir := fun c member => by
        rw [(kept c (small c (List.mem_append_left _ member))).1, types c member]
      have typeUp' : (s'.node up).type = .parent := by rw [(kept up (small up (by simp))).1, typeUp]
      have typeDot' : (s'.node dot).type = .this := by rw [(kept dot (small dot (by simp))).1, typeDot]
      by_cases isP : m = p
      · refine ⟨s.nnodes :: dirs, up, dot, ?_, fun c member => ?_, typeUp', typeDot'⟩
        · rw [isP, nodeP, ← isP, children]
          rfl
        · rcases List.mem_cons.mp member with rfl | member
          · rw [nodeA]
          · exact types' c member
      · refine ⟨dirs, up, dot, ?_, types', typeUp', typeDot'⟩
        rw [node m (old m before) isP, children]
    · refine ⟨[], s.nnodes + 2, s.nnodes + 1, by rw [nodeA]; rfl, by simp, by rw [nodeC], by rw [nodeB]⟩
    · rw [dirB] at isDir
      cases isDir
    · rw [dirC] at isDir
      cases isDir
  · intro m there leaf
    rcases new m there with before | rfl | rfl | rfl
    · have fields := kept m (old m before)
      rw [isDir' m (old m before)] at leaf
      have notP : m ≠ p := fun same => Bool.noConfusion ((same ▸ leaf).symm.trans dir)
      rw [node m (old m before) notP]
      exact fits.leaf m before leaf
    · rw [dirA] at leaf
      cases leaf
    · rw [nodeB]
      exact ⟨rfl, rfl, .inl rfl⟩
    · rw [nodeC]
      exact ⟨rfl, rfl, .inr rfl⟩
  · intro m there
    rcases new m there with before | rfl | rfl | rfl
    · have nodup := fits.nodup m before
      by_cases isP : m = p
      · rw [isP, nodeP, ← isP]
        refine List.nodup_cons.mpr ⟨fun inside => ?_, nodup⟩
        exact Nat.lt_irrefl _ (apart m _ inside before)
      · rw [node m (old m before) isP]
        exact nodup
    · rw [nodeA]
      simp
    · rw [nodeB]
      exact .nil
    · rw [nodeC]
      exact .nil
  · intro m (c : Nat) there
    have parentC (small : c < s.nnodes) := (kept c small).2.1
    -- the parents of the three new nodes
    have newC (c : Nat) (is : c = s.nnodes ∨ c = s.nnodes + 1 ∨ c = s.nnodes + 2) :
        (s'.node c).parent = if c = s.nnodes then some p else some s.nnodes := by
      rcases is with rfl | rfl | rfl
      · rw [nodeA, if_pos rfl]
      · rw [nodeB, if_neg (by omega)]
      · rw [nodeC, if_neg (by omega)]
    have pointed : s'.alive c ∧ (s'.node c).parent = some m ↔ (s.alive c ∧ (s.node c).parent = some m) ∨
        (c = s.nnodes ∧ m = p) ∨ ((c = s.nnodes + 1 ∨ c = s.nnodes + 2) ∧ m = s.nnodes) := by
      constructor
      · rintro ⟨thereC, up⟩
        rcases new c thereC with before | is
        · rw [parentC (old c before)] at up
          exact .inl ⟨before, up⟩
        · rw [newC c is] at up
          split at up <;> cases up <;> grind
      · rintro (⟨before, up⟩ | ⟨rfl, rfl⟩ | ⟨is, rfl⟩)
        · rw [parentC (old c before)]
          exact ⟨(alive' c).mpr (.inl before), up⟩
        · exact ⟨(alive' _).mpr (.inr (.inl rfl)), by rw [nodeA]⟩
        · rw [newC c (.inr is), if_neg (by omega)]
          exact ⟨(alive' c).mpr (.inr (.inr is)), rfl⟩
    rw [pointed]
    rcases new m there with before | rfl | rfl | rfl
    · have small := old m before
      have linked := fits.linked m c before
      by_cases isP : m = p
      · rw [isP, nodeP, ← isP, List.mem_cons, linked]
        grind
      · rw [node m small isP, linked]
        grind
    · have none_below : ¬(s.alive c ∧ (s.node c).parent = some s.nnodes) := fun ⟨before, up⟩ =>
        Nat.lt_irrefl _ (fits.above c _ before up).1.1
      rw [nodeA]
      simp only [List.mem_cons, List.not_mem_nil, or_false]
      grind
    · have none_below : ¬(s.alive c ∧ (s.node c).parent = some (s.nnodes + 1)) := fun ⟨before, up⟩ => by
        have small := (fits.above c _ before up).1.1
        omega
      rw [nodeB]
      simp only [List.not_mem_nil]
      grind
    · have none_below : ¬(s.alive c ∧ (s.node c).parent = some (s.nnodes + 2)) := fun ⟨before, up⟩ => by
        have small := (fits.above c _ before up).1.1
        omega
      rw [nodeC]
      simp only [List.not_mem_nil]
      grind
  · intro c q there up
    have keeps (q : Nat) (aliveQ : s.alive q) (dirQ : s.isDir q) : s'.alive q ∧ s'.isDir q :=
      ⟨(alive' q).mpr (.inl aliveQ), by rw [isDir' q (old q aliveQ), dirQ]⟩
    rcases new c there with before | rfl | rfl | rfl
    · rw [(kept c (old c before)).2.1] at up
      obtain ⟨aliveQ, dirQ⟩ := fits.above c q before up
      exact keeps q aliveQ dirQ
    · rw [nodeA] at up
      cases up
      exact keeps _ alive dir
    · rw [nodeB] at up
      cases up
      exact ⟨(alive' _).mpr (.inr (.inl rfl)), dirA⟩
    · rw [nodeC] at up
      cases up
      exact ⟨(alive' _).mpr (.inr (.inl rfl)), dirA⟩
  · intro m there type
    rcases new m there with before | rfl | rfl | rfl
    · have fields := kept m (old m before)
      rw [fields.1] at type
      rw [fields.2.1, fields.2.2.1]
      exact fits.removed m before type
    · rw [nodeA]
      simp
    · rw [nodeB] at type
      cases type
    · rw [nodeC] at type
      cases type
  · intro v q data
    rw [vnode] at data
    obtain ⟨small, aliveQ, dirQ⟩ := fits.opened v q data
    rw [nvnodes]
    exact ⟨small, (alive' q).mpr (.inl aliveQ), by rw [isDir' q (old q aliveQ), dirQ]⟩
  · intro m v there
    have unopened (large : s.nnodes ≤ m) : (s.vnode v).data ≠ some m := fun data =>
      Nat.not_lt.mpr large (fits.opened v m data).2.1.1
    rw [vnode]
    rcases new m there with before | rfl | rfl | rfl
    · rw [(kept m (old m before)).2.2.2.1]
      exact fits.vnodes m v before
    · rw [nodeA]
      simpa using unopened (Nat.le_refl _)
    · rw [nodeB]
      simpa using unopened (Nat.le_add_right ..)
    · rw [nodeC]
      simpa using unopened (Nat.le_add_right ..)
  · intro m there
    rcases new m there with before | rfl | rfl | rfl
    · rw [(kept m (old m before)).2.2.2.1]
      exact fits.vnodup m before
    · rw [nodeA]
      exact .nil
    · rw [nodeB]
      exact .nil
    · rw [nodeC]
      exact .nil
  · intro m member
    obtain ⟨before, dirM⟩ := fits.holds m member
    exact ⟨(alive' m).mpr (.inl before), by rw [isDir' m (old m before), dirM]⟩
  · intro m there isDir
    rcases new m there with before | rfl | rfl | rfl
    · rw [isDir' m (old m before)] at isDir
      have counted := fits.count m before isDir
      by_cases isP : m = p
      · rw [isP, nodeP, ← isP, counted]
        simp
        omega
      · rw [node m (old m before) isP, counted]
    · have unheld : held.count s.nnodes = 0 := List.count_eq_zero.mpr fun member =>
        Nat.lt_irrefl _ (fits.holds _ member).1.1
      rw [nodeA, unheld]
      rfl
    · rw [dirB] at isDir
      cases isDir
    · rw [dirC] at isDir
      cases isDir
  · intro m there isDir
    rcases new m there with before | rfl | rfl | rfl
    · rw [isDir' m (old m before)] at isDir
      have enough := fits.needed m before isDir
      by_cases isP : m = p
      · rw [isP, nodeP, ← isP]
        exact Nat.lt_succ_of_lt enough
      · rw [node m (old m before) isP]
        exact enough
    · rw [nodeA]
      exact Nat.lt_succ_self 2
    · rw [dirB] at isDir
      cases isDir
    · rw [dirC] at isDir
      cases isDir
  · rw [freed]
    intro m member isDir
    have small := fits.old m member
    have notP : m ≠ p := fun same => alive.2 (same ▸ member)
    rw [isDir' m small] at isDir
    rw [node m small notP]
    exact fits.gone m member isDir

end Fits

end SfqSched.Sgfs
