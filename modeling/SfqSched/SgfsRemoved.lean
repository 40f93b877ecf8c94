import SfqSched.SgfsRun

namespace SfqSched.Sgfs
open Function

namespace Fits
variable {s : Fs} {held : List NodeId} {n m p : Nat}

theorem release_vnode (fits : Fits s (n :: held)) : (release s n).vnode = s.vnode := by
  rcases fits.release_cases with ⟨_, same⟩ | ⟨up, dot, _, _, _, _, same⟩
  · rw [same]
    rfl
  · rw [same]

theorem release_other (fits : Fits s (n :: held)) (other : m ≠ n) : (release s n).node m = s.node m := by
  rcases fits.release_cases with ⟨_, same⟩ | ⟨up, dot, _, _, _, _, same⟩
  · rw [same]
    exact update_of_ne other ..
  · rw [same]
    exact if_neg other

/-- A directory that is not removed, or is open, keeps all but the count. -/
theorem release_kept (fits : Fits s (n :: held)) (needed : (s.node n).deleted = false ∨ (s.node n).vnodes ≠ []) :
    (release s n).node n = { s.node n with refcount := (s.node n).refcount - 1 } := by
  rcases fits.release_cases with ⟨_, same⟩ | ⟨up, dot, deleted, _, vnodes, _, _⟩
  · rw [same]
    exact update_self ..
  · rcases needed with live | opened
    · cases live.symm.trans deleted
    · exact absurd vnodes opened

end Fits

/-- The vnode `v` of a directory that was removed while it was open. -/
structure Removed (x : Sys) (v : VnodeId) (n : NodeId) : Prop where
  fits : Fits x.fs x.held
  data : (x.fs.vnode v).data = some n
  deleted : (x.fs.node n).deleted = true
  empty : (x.fs.node n).children.length = 2

/-- A call of the operations of a directory, on one vnode. -/
def Op.on (v : VnodeId) : Op → Bool
  | .lookup v' _ _ | .readdir v' _ _ | .getattr v' | .mkdir v' _ _ => v' = v
  | _ => false

/-- Whether an operation on the vnode of a removed directory stays away from its parent and its
entries: a search for `..` that is refused before it gets there, a listing of an entry `..` that
has its number already, a search by name, a query of the attributes. -/
def Op.spares (x : Sys) (n : NodeId) : Op → Prop
  | .lookup v cnp _ => cnp.name = ".." →
    cnp.exec = false ∨ (x.fs.vnode v).rootFlag = true ∨ (cnp.isLast = true ∧ cnp.nameiop ≠ .lookup)
  | .readdir _ _ _ => ∀ c ∈ (x.fs.node n).children, (x.fs.node c).type = .parent → x.fs.fileno c ≠ 0
  | .mkdir _ _ _ => False
  | _ => True

/-- A sequence of operations of which none fails and none changes the entries of `n`. -/
def Inert (K : VfsKernel) (n : NodeId) : Sys → List Op → Prop
  | _, [] => True
  | x, op :: ops => ∃ r x', step K x op = some (r, x') ∧ (x'.fs.node n).children = (x.fs.node n).children ∧ Inert K n x' ops

/-- A sequence of operations that each spare the directory in the state they find. -/
def Spared (K : VfsKernel) (n : NodeId) : Sys → List Op → Prop
  | _, [] => True
  | x, op :: ops => op.spares x n ∧ ∀ r x', step K x op = some (r, x') → Spared K n x' ops

section removed
variable {K : VfsKernel} {x x' : Sys} {v n : Nat} {op : Op} {r : Reply}

theorem allocv_keeps (s : Fs) (mp : MountId) (p : NodeId) (avail : Bool) (m : NodeId) :
    ((allocv s mp p avail).2.node m).children = (s.node m).children ∧
    ((allocv s mp p avail).2.node m).deleted = (s.node m).deleted := by
  unfold allocv
  split
  · exact ⟨rfl, rfl⟩
  · split
    · dsimp only
      rw [Fits.addref_eq, Fits.modNode_eq]
      dsimp only
      split <;> exact ⟨rfl, rfl⟩
    · exact ⟨rfl, rfl⟩

/-- An open vnode stays as it is. -/
theorem allocv_vnode {s : Fs} {held : List NodeId} (fits : Fits s held) (mp : MountId) (p : NodeId) (avail : Bool)
    (data : (s.vnode v).data = some n) : (allocv s mp p avail).2.vnode v = s.vnode v := by
  have other : v ≠ s.nvnodes := Nat.ne_of_lt (fits.opened v n data).1
  unfold allocv
  split
  · rfl
  · split
    · exact update_of_ne other ..
    · rfl

/-- A step that leaves the node and its vnode alone leads to the same situation. -/
theorem Removed.next (removed : Removed x v n) (run : step K x op = some (r, x')) (vnode : x'.fs.vnode v = x.fs.vnode v)
    (deleted : (x'.fs.node n).deleted = (x.fs.node n).deleted)
    (children : (x'.fs.node n).children = (x.fs.node n).children) : Removed x' v n :=
  ⟨step_fits removed.fits run, by rw [vnode, removed.data], by rw [deleted, removed.deleted], by rw [children, removed.empty]⟩

theorem Removed.parent (removed : Removed x v n) :
    x.fs.alive n ∧ x.fs.isDir n ∧ (x.fs.node n).type = .dir ∧ (x.fs.node n).parent = none := by
  obtain ⟨_, alive, dir⟩ := removed.fits.opened v n removed.data
  exact ⟨alive, dir, removed.fits.loose alive dir removed.deleted⟩

theorem Removed.enabled (removed : Removed x v n) (call : op.on v) : op.enabled x := by
  cases op with
  | lookup v' cnp avail | readdir v' o l | getattr v' | mkdir v' name avail =>
    obtain rfl : v' = v := of_decide_eq_true call
    simp [Op.enabled, removed.data]
  | _ => cases call

/-- `sgfs_mkdir` does not look at `deleted`. -/
theorem Removed.mkdir (removed : Removed x v n) (name : String) (avail : Bool) (r : Reply) (s' : Fs)
    (run : sgfsMkdir x.fs v name avail = some (r, s')) : (s'.node n).children = x.fs.nnodes :: (x.fs.node n).children := by
  obtain ⟨alive, dir, _, _⟩ := removed.parent
  obtain ⟨p, data, done⟩ := Option.bind_eq_some_iff.mp run
  cases data.symm.trans removed.data
  rw [dir] at done
  have same : release (allocv (mkdirEntry x.fs n name).2 ((mkdirEntry x.fs n name).2.vnode v).mount
      (mkdirEntry x.fs n name).1 avail).2 (mkdirEntry x.fs n name).1 = s' := congrArg Prod.snd (Option.some.inj done)
  obtain ⟨made, there, isDir⟩ := mkdirEntry_fits removed.fits alive dir name
  have later := allocv_fits made there isDir ((mkdirEntry x.fs n name).2.vnode v).mount avail
  have other : n ≠ x.fs.nnodes := Nat.ne_of_lt alive.1
  rw [← same, later.release_other (m := n) other, (allocv_keeps ..).1]
  have node := createDir_node name alive.1 n
  rw [if_neg other, if_neg (Nat.ne_of_lt (Nat.lt_succ_of_lt alive.1)),
    if_neg (Nat.ne_of_lt (Nat.lt_succ_of_lt (Nat.lt_succ_of_lt alive.1))), if_pos rfl] at node
  have kept : (mkdirEntry x.fs n name).2.node n = (createDir x.fs n name).2.node n := update_of_ne other ..
  rw [kept, node]

/-- A search ends well unless it goes for the parent. -/
theorem Removed.lookup (removed : Removed x v n) (cnp : Componentname) (avail : Bool) :
    ((Op.lookup v cnp avail).spares x n → ∃ r s', sgfsLookupx x.fs v cnp avail = some (r, s') ∧
      s'.vnode v = x.fs.vnode v ∧ (s'.node n).deleted = (x.fs.node n).deleted ∧
      (s'.node n).children = (x.fs.node n).children) ∧
    (sgfsLookupx x.fs v cnp avail ≠ none → (Op.lookup v cnp avail).spares x n) := by
  obtain ⟨alive, dir, _, loose⟩ := removed.parent
  have same (r : Reply) : ∃ r' s', some (r, x.fs) = some (r', s') ∧ s'.vnode v = x.fs.vnode v ∧
      (s'.node n).deleted = (x.fs.node n).deleted ∧ (s'.node n).children = (x.fs.node n).children :=
    ⟨r, x.fs, rfl, rfl, rfl, rfl⟩
  unfold sgfsLookupx
  rw [removed.data]
  simp only [Option.bind_eq_bind, Option.bind_some]
  by_cases exec : cnp.exec = true
  swap
  · rw [if_pos (by simpa using exec)]
    exact ⟨fun _ => same _, fun _ _ => .inl (by simpa using exec)⟩
  rw [if_neg (by simpa using exec)]
  by_cases long : cnp.name.length ≥ sgfsNamelen
  · rw [if_pos long]
    refine ⟨fun _ => same _, fun _ dotdot => ?_⟩
    rw [dotdot] at long
    exact absurd long (by decide)
  rw [if_neg long]
  by_cases dot : cnp.name = "."
  · rw [if_pos dot]
    refine ⟨fun _ => ?_, fun _ dotdot => ?_⟩
    · split <;> exact same _
    · rw [dot] at dotdot
      simp at dotdot
  rw [if_neg dot]
  by_cases dotdot : cnp.name = ".."
  · rw [if_pos dotdot]
    by_cases top : (x.fs.vnode v).rootFlag = true
    · rw [if_pos top]
      exact ⟨fun _ => same _, fun _ _ => .inr (.inl top)⟩
    rw [if_neg top]
    by_cases refused : cnp.isLast = true ∧ cnp.nameiop ≠ .lookup
    · rw [if_pos refused]
      exact ⟨fun _ => same _, fun _ _ => .inr (.inr refused)⟩
    rw [if_neg refused, loose]
    refine ⟨fun spared => ?_, fun ends => absurd rfl ends⟩
    rcases spared dotdot with denied | top' | refused'
    · exact absurd (exec.symm.trans denied) Bool.noConfusion
    · exact absurd top' top
    · exact absurd refused' refused
  rw [if_neg dotdot]
  refine ⟨fun _ => ?_, fun _ is => absurd is dotdot⟩
  unfold lookupEntry
  cases found : search x.fs n cnp.name with
  | none =>
    dsimp only
    repeat' split
    all_goals exact same _
  | some pn =>
    obtain ⟨alivePn, dirPn, up⟩ := search_fits removed.fits alive dot dotdot found
    have other : n ≠ pn := fun eq => by
      rw [eq] at loose
      cases loose.symm.trans up
    have holds := removed.fits.hold alivePn dirPn
    have there := holds.holds pn (List.mem_cons_self ..)
    have kept : (addref x.fs pn).node n = x.fs.node n := update_of_ne other ..
    dsimp only
    split
    · refine ⟨_, _, rfl, ?_, ?_, ?_⟩
      · rw [holds.release_vnode]
        rfl
      · rw [holds.release_other other, kept]
      · rw [holds.release_other other, kept]
    · have opened := allocv_fits holds there.1 there.2 ((addref x.fs pn).vnode v).mount avail
      have keeps := allocv_keeps (addref x.fs pn) ((addref x.fs pn).vnode v).mount pn avail n
      refine ⟨_, _, rfl, ?_, ?_, ?_⟩
      · rw [opened.release_vnode, allocv_vnode holds _ pn avail (n := n) removed.data]
        rfl
      · rw [opened.release_other other, keeps.2, kept]
      · rw [opened.release_other other, keeps.1, kept]

/-- An entry `..` without a number needs the parent of its directory. -/
theorem numberEntry_up {s : Fs} {up : NodeId} (type : (s.node up).type = .parent) (parent : (s.node up).parent = some n)
    (notRoot : n ≠ s.root) (loose : (s.node n).parent = none) (unnumbered : s.fileno up = 0) : numberEntry K s up = none := by
  have own (a : Fs) (same : Numbered s a) : filenoOwn K a up = none := by
    unfold filenoOwn
    rw [same.node, type, parent]
    dsimp only
    rw [same.root, if_neg notRoot, loose]
  rw [numberEntry, if_pos unnumbered, filenoAlloc, parent]
  dsimp only
  split
  · cases above : filenoAlloc K s.nnodes s n with
    | none => rfl
    | some a => exact own a (.filenoAlloc above)
  · exact own s (.refl s)

/-- An entry `.` only needs its directory. -/
theorem numberEntry_dot {s : Fs} {dot : NodeId} (type : (s.node dot).type = .this) (parent : (s.node dot).parent = some n)
    (dir : (s.node n).type = .dir) (loose : (s.node n).parent = none) (small : n < s.nnodes) :
    ∃ a, numberEntry K s dot = some a := by
  have own (a : Fs) (same : Numbered s a) : ∃ b, filenoOwn K a dot = some b := by
    unfold filenoOwn
    rw [same.node, type, parent]
    exact ⟨_, rfl⟩
  unfold numberEntry
  split
  · rw [filenoAlloc, parent]
    dsimp only
    split
    · obtain ⟨fuel, enough⟩ : ∃ fuel, s.nnodes = fuel + 1 := ⟨s.nnodes - 1, by omega⟩
      have top : ∃ a, filenoAlloc K s.nnodes s n = some a := by
        rw [enough, filenoAlloc, loose]
        dsimp only
        unfold filenoOwn
        rw [dir, loose]
        exact ⟨_, rfl⟩
      obtain ⟨a, above⟩ := top
      rw [above]
      exact own a (.filenoAlloc above)
    · exact own s (.refl s)
  · exact ⟨s, rfl⟩

/-- A listing ends well unless it has to number the entry `..`. -/
theorem Removed.readdir (removed : Removed x v n) (uioOffset resid : Nat) :
    ((Op.readdir v uioOffset resid).spares x n → ∃ r s', sgfsReaddir K x.fs v uioOffset resid = some (r, s')) ∧
    (sgfsReaddir K x.fs v uioOffset resid ≠ none → (Op.readdir v uioOffset resid).spares x n) := by
  obtain ⟨alive, dir, type, loose⟩ := removed.parent
  obtain ⟨dirs, up, dot, children, _, typeUp, typeDot⟩ := removed.fits.shape n alive dir
  have alone : dirs = [] := by
    have two := removed.empty
    rw [children] at two
    exact List.length_eq_zero_iff.mp (by simpa using two)
  subst alone
  have parentUp := ((removed.fits.linked n up alive).mp (by simp [children])).2
  have parentDot := ((removed.fits.linked n dot alive).mp (by simp [children])).2
  have notRoot : n ≠ x.fs.root := by
    rintro rfl
    cases type.symm.trans removed.fits.root.2.1
  have spares : (Op.readdir v uioOffset resid).spares x n ↔ x.fs.fileno up ≠ 0 := by
    simp only [Op.spares, children, List.nil_append, List.mem_cons, List.not_mem_nil, or_false]
    refine ⟨fun all => all up (.inl rfl) typeUp, ?_⟩
    rintro numbered c (rfl | rfl) is
    · exact numbered
    · cases typeDot.symm.trans is
  unfold sgfsReaddir
  rw [removed.data, spares]
  simp only [Option.bind_eq_bind, Option.bind_some]
  rw [children]
  simp only [List.nil_append, readdirWalk]
  constructor
  · intro numbered
    have first : numberEntry K x.fs up = some x.fs := if_neg numbered
    obtain ⟨a, second⟩ := numberEntry_dot (K := K) typeDot parentDot type loose alive.1
    rw [first]
    simp only [Option.bind_some, second]
    repeat' split
    all_goals exact ⟨_, _, rfl⟩
  · intro ends unnumbered
    rw [numberEntry_up typeUp parentUp notRoot loose unnumbered] at ends
    exact ends rfl

/-- One call on the vnode: it fails or adds an entry unless it spares the directory. -/
theorem Removed.step (removed : Removed x v n) (call : op.on v) :
    (op.spares x n → ∃ r x', step K x op = some (r, x') ∧ (x'.fs.node n).children = (x.fs.node n).children ∧
      Removed x' v n) ∧
    (∀ r x', Sgfs.step K x op = some (r, x') → (x'.fs.node n).children = (x.fs.node n).children → op.spares x n) := by
  have run : Sgfs.step K x op = op.exec K x := if_pos (removed.enabled call)
  cases op with
  | lookup v' cnp avail =>
    obtain rfl : v' = v := of_decide_eq_true call
    have found := removed.lookup cnp avail
    refine ⟨fun spared => ?_, fun r x' done _ => found.2 fun fails => ?_⟩
    · obtain ⟨r, s', done, vnode, deleted, children⟩ := found.1 spared
      have whole : Sgfs.step K x (.lookup v' cnp avail) = some (r, { x with fs := s' }) := by
        rw [run, Op.exec, done]
        rfl
      exact ⟨r, _, whole, children, removed.next whole vnode deleted children⟩
    · rw [run, Op.exec, fails] at done
      cases done
  | readdir v' uioOffset resid =>
    obtain rfl : v' = v := of_decide_eq_true call
    have listed := removed.readdir (K := K) uioOffset resid
    refine ⟨fun spared => ?_, fun r x' done _ => listed.2 fun fails => ?_⟩
    · obtain ⟨r, s', done⟩ := listed.1 spared
      have whole : Sgfs.step K x (.readdir v' uioOffset resid) = some (r, { x with fs := s' }) := by
        rw [run, Op.exec, done]
        rfl
      have same := sgfsReaddir_numbered done
      have node : (s'.node n) = x.fs.node n := congrFun same.node n
      exact ⟨r, _, whole, congrArg Node.children node, removed.next whole (congrFun same.vnode v')
        (congrArg Node.deleted node) (congrArg Node.children node)⟩
    · rw [run, Op.exec, fails] at done
      cases done
  | getattr v' =>
    obtain rfl : v' = v := of_decide_eq_true call
    have whole : Sgfs.step K x (.getattr v') = some (.attr (x.fs.fileno n), x) := by
      rw [run, Op.exec, sgfsGetattr, removed.data]
      rfl
    exact ⟨fun _ => ⟨_, x, whole, rfl, removed⟩, fun _ _ _ _ => trivial⟩
  | mkdir v' name avail =>
    obtain rfl : v' = v := of_decide_eq_true call
    refine ⟨False.elim, fun r x' done same => ?_⟩
    rw [run, Op.exec] at done
    obtain ⟨⟨r', s'⟩, made, same'⟩ := Option.map_eq_some_iff.mp done
    cases same'
    rw [removed.mkdir name avail r s' made] at same
    exact absurd same (by simp)
  | _ => cases call

theorem Removed.inert (removed : Removed x v n) {later : List Op} (calls : ∀ op ∈ later, op.on v) :
    Inert K n x later ↔ Spared K n x later := by
  induction later generalizing x with
  | nil => exact iff_of_true trivial trivial
  | cons op later ih =>
    have one := removed.step (K := K) (calls op (List.mem_cons_self ..))
    have rest := fun call member => calls call (List.mem_cons_of_mem op member)
    constructor
    · rintro ⟨r, x', run, same, inert⟩
      have spares := one.2 r x' run same
      obtain ⟨r', x'', run', _, removed'⟩ := one.1 spares
      cases run.symm.trans run'
      refine ⟨spares, fun r'' x'' again => ?_⟩
      cases run.symm.trans again
      exact (ih removed' rest).mp inert
    · rintro ⟨spares, spared⟩
      obtain ⟨r, x', run, same, removed'⟩ := one.1 spares
      exact ⟨r, x', run, same, (ih removed' rest).mpr (spared r x' run)⟩

/-- What `sgfs_rmdir` leaves of a directory whose vnode it was given. -/
theorem removed_of_rmdir (fits : Fits x.fs x.held) (data : (x.fs.vnode v).data = some n)
    (run : Sgfs.step K x (.rmdir v) = some (.done, x')) : Removed x' v n := by
  have fits' := step_fits fits run
  obtain ⟨_, alive, dir⟩ := fits.opened v n data
  have enabled : (Op.rmdir v).enabled x := by simp [Op.enabled, data]
  rw [Sgfs.step, if_pos enabled] at run
  obtain ⟨⟨r, s⟩, done, same⟩ := Option.map_eq_some_iff.mp run
  cases same
  obtain ⟨n', data', done⟩ := Option.bind_eq_some_iff.mp done
  cases data.symm.trans data'
  split at done
  · cases done
  split at done
  · cases done
  rename_i isDir _
  replace isDir := not_not.mp isDir
  split at done
  · rename_i first second children
    obtain ⟨p, parent, done⟩ := Option.bind_eq_some_iff.mp done
    have two : (x.fs.node n).children.length = 2 := by
      rw [children]
      rfl
    have apart := fits.not_own_parent alive isDir parent two
    have unlinked := fits.unlink alive isDir parent two
    have same := congrArg Prod.snd (Option.some.inj done)
    dsimp only at same
    generalize eq : (x.fs.modNode n fun x => { x with parent := none, deleted := true }).modNode p
      (fun x => { x with children := x.children.erase n }) = u at unlinked same
    have nodeN : u.node n = { x.fs.node n with parent := none, deleted := true } := by
      rw [← eq]
      simp [Fs.modNode, apart]
    have vnode : u.vnode = x.fs.vnode := by
      rw [← eq]
      rfl
    have opened : v ∈ (u.node n).vnodes := by
      rw [nodeN]
      exact (fits.vnodes n v alive).mpr data
    have kept := unlinked.release_kept (.inr (List.ne_nil_of_mem opened))
    have second := unlinked.drop
    have node : s.node n = { u.node n with refcount := (u.node n).refcount - 1 } := by
      rw [← same, second.release_other apart, kept]
    refine ⟨fits', ?_, ?_, ?_⟩
    · change (s.vnode v).data = some n
      rw [← same, second.release_vnode, unlinked.release_vnode, vnode, data]
    · change (s.node n).deleted = true
      rw [node, nodeN]
    · change (s.node n).children.length = 2
      rw [node, nodeN]
      exact two
  · cases done
  · cases done

end removed
/-- A directory that was removed while it is open is inert as long as its vnode is only used
to list it with a numbered `..`, to search it by name, and to read its attributes. -/
theorem removed_inert (K : VfsKernel) (ops : List Op) (w x : Sys) (v n : Nat) (later : List Op) (ran : run K ops = some w)
    (data : (w.fs.vnode v).data = some n) (removed : step K w (.rmdir v) = some (.done, x))
    (calls : ∀ op ∈ later, op.on v) : Inert K n x later ↔ Spared K n x later :=
  (removed_of_rmdir (run_fits ran) data removed).inert calls

/-- A directory is made, and its vnode stays open. -/
def madeAndOpen : List Op := [.root 0 true, .mkdir 0 "a" true]

theorem madeAndOpen_removed :
    ∃ w x, run plainVfs madeAndOpen = some w ∧ (w.fs.vnode 1).data = some 3 ∧
      step plainVfs w (.rmdir 1) = some (.done, x) ∧ step plainVfs x (.lookup 1 { name := ".." } true) = none := by
  have result : (run plainVfs madeAndOpen).bind (fun w => (step plainVfs w (.rmdir 1)).map fun (r, x) =>
      ((w.fs.vnode 1).data, r, (step plainVfs x (.lookup 1 { name := ".." } true)).isNone)) =
      some (some 3, .done, true) := by decide +kernel
  obtain ⟨w, ran, result⟩ := Option.bind_eq_some_iff.mp result
  obtain ⟨⟨r, x⟩, removed, values⟩ := Option.map_eq_some_iff.mp result
  simp only [Prod.mk.injEq] at values
  obtain ⟨data, rfl, fails⟩ := values
  exact ⟨w, x, ran, data, removed, Option.isNone_iff_eq_none.mp fails⟩

theorem removed_inert_open :
    ∃ w x, run plainVfs madeAndOpen = some w ∧ step plainVfs w (.rmdir 1) = some (.done, x) ∧
      Inert plainVfs 3 x [.getattr 1, .lookup 1 { name := "b" } true] := by
  obtain ⟨w, x, ran, data, removed, _⟩ := madeAndOpen_removed
  refine ⟨w, x, ran, removed, (removed_inert _ _ w x 1 3 _ ran data removed (by simp [Op.on])).mpr ?_⟩
  simp [Spared, Op.spares]

/-- The search for `..` comes to the assertion that the directory has a parent. -/
theorem removed_not_inert :
    ¬ ∀ (K : VfsKernel) (ops : List Op) (w x : Sys) (v n : Nat) (later : List Op), run K ops = some w →
      (w.fs.vnode v).data = some n → step K w (.rmdir v) = some (.done, x) → (∀ op ∈ later, op.on v) →
      Inert K n x later := by
  intro claimed
  obtain ⟨w, x, ran, data, removed, fails⟩ := madeAndOpen_removed
  obtain ⟨r, x', run, _⟩ := claimed _ _ w x 1 3 [.lookup 1 { name := ".." } true] ran data removed (by simp [Op.on])
  cases fails.symm.trans run

end SfqSched.Sgfs
