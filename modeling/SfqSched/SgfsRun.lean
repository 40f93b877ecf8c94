import SfqSched.SgfsCount

namespace SfqSched.Sgfs
open Function

/-- The file system, and the references that calls in progress have taken, one entry for each. -/
structure Sys where
  fs : Fs
  held : List NodeId := []

/-- An operation on the file system, or a piece of one that ends where the lock is released. -/
inductive Op
  | mkdir (dvp : VnodeId) (name : String) (avail : Bool)
  | rmdir (vp : VnodeId)
  | lookup (dvp : VnodeId) (cnp : Componentname) (avail : Bool)
  /-- `sgfs_root` -/
  | root (mp : MountId) (avail : Bool)
  | getattr (vp : VnodeId)
  | readdir (vp : VnodeId) (uioOffset resid : Nat)
  | reclaim (vp : VnodeId)
  /-- `sgfs_mkdir` up to its `sgfs_allocv` -/
  | create (dvp : VnodeId) (name : String)
  /-- `sgfs_lookupx` of a named entry up to its `sgfs_allocv` -/
  | search (dvp : VnodeId) (name : String)
  /-- `sgfs_allocv` of a node that the call has a reference to -/
  | allocv (mp : MountId) (node : NodeId) (avail : Bool)
  /-- `sgnode_release` at the end of a call -/
  | release (node : NodeId)
  deriving DecidableEq, Repr

/-- What the callers see to: a vnode that is operated on has not been reclaimed, and
a call gives back what it has taken. -/
def Op.enabled (x : Sys) : Op → Bool
  | .mkdir vp _ _ | .rmdir vp | .lookup vp _ _ | .getattr vp | .readdir vp _ _ | .reclaim vp | .create vp _ =>
    (x.fs.vnode vp).data.isSome
  | .search vp name => (x.fs.vnode vp).data.isSome && name ≠ "." && name ≠ ".."
  | .allocv _ node _ | .release node => x.held.contains node
  | .root _ _ => true

def Op.exec (K : VfsKernel) (x : Sys) : Op → Option (Reply × Sys)
  | .mkdir vp name avail => (sgfsMkdir x.fs vp name avail).map fun (r, s) => (r, { x with fs := s })
  | .rmdir vp => (sgfsRmdir x.fs vp).map fun (r, s) => (r, { x with fs := s })
  | .lookup vp cnp avail => (sgfsLookupx x.fs vp cnp avail).map fun (r, s) => (r, { x with fs := s })
  | .root mp avail =>
    let (error, s) := Sgfs.allocv x.fs mp x.fs.root avail
    some (.ofExcept error, { x with fs := s })
  | .getattr vp => (sgfsGetattr x.fs vp).map fun r => (r, x)
  | .readdir vp uioOffset resid => (sgfsReaddir K x.fs vp uioOffset resid).map fun (r, s) => (r, { x with fs := s })
  | .reclaim vp => (sgfsReclaim x.fs vp).map fun s => (.done, { x with fs := s })
  | .create vp name => (x.fs.vnode vp).data.map fun pd =>
    if !x.fs.isDir pd then (.error .enotdir, x)
    else
      let (pn, s) := mkdirEntry x.fs pd name
      (.done, ⟨s, pn :: x.held⟩)
  | .search vp name => (x.fs.vnode vp).data.map fun pd =>
    match lookupEntry x.fs pd name with
    | (some pn, s) => (.done, ⟨s, pn :: x.held⟩)
    | (none, s) => (.error .enoent, { x with fs := s })
  | .allocv mp node avail =>
    let (error, s) := Sgfs.allocv x.fs mp node avail
    some (.ofExcept error, { x with fs := s })
  | .release node => some (.done, ⟨Sgfs.release x.fs node, x.held.erase node⟩)

/-- One completed operation; `none` if it may not be called, or follows a `NULL`. -/
def step (K : VfsKernel) (x : Sys) (op : Op) : Option (Reply × Sys) := if op.enabled x then op.exec K x else none

/-- A sequence of operations after `sgfs_init`. -/
def runFrom (K : VfsKernel) (x : Sys) (ops : List Op) : Option Sys :=
  ops.foldlM (fun x op => (step K x op).map Prod.snd) x

def run (K : VfsKernel) (ops : List Op) : Option Sys :=
  (sgfsInit K).bind fun s => runFrom K ⟨s, []⟩ ops

/-- Nothing but the file numbers differs. -/
structure Numbered (s s' : Fs) : Prop where
  node : s'.node = s.node
  nnodes : s'.nnodes = s.nnodes
  vnode : s'.vnode = s.vnode
  nvnodes : s'.nvnodes = s.nvnodes
  root : s'.root = s.root
  freed : s'.freed = s.freed

namespace Numbered
variable {K : VfsKernel} {s s' s'' : Fs} {held : List NodeId}

theorem refl (s : Fs) : Numbered s s := ⟨rfl, rfl, rfl, rfl, rfl, rfl⟩

theorem trans (h : Numbered s s') (h' : Numbered s' s'') : Numbered s s'' :=
  ⟨h'.node.trans h.node, h'.nnodes.trans h.nnodes, h'.vnode.trans h.vnode, h'.nvnodes.trans h.nvnodes,
    h'.root.trans h.root, h'.freed.trans h.freed⟩

/-- File numbers are in no count and on no list but their own. -/
theorem fits (h : Numbered s s') (fits : Fits s held) : Fits s' held := by
  obtain ⟨node, nnodes, vnode, nvnodes, root, freed, fileno, unr, calls⟩ := s'
  obtain ⟨rfl, rfl, rfl, rfl, rfl, rfl⟩ := h
  exact ⟨fits.old, fits.once, fits.root, fits.kind, fits.shape, fits.leaf, fits.nodup, fits.linked, fits.above, fits.removed,
    fits.opened, fits.vnodes, fits.vnodup, fits.holds, fits.count, fits.needed, fits.gone⟩

theorem filenoOwn {n : NodeId} (h : filenoOwn K s n = some s') : Numbered s s' := by
  unfold Sgfs.filenoOwn at h
  split at h
  case h_6 =>
    split at h
    · cases h
      exact ⟨rfl, rfl, rfl, rfl, rfl, rfl⟩
    · split at h
      · cases h
        exact ⟨rfl, rfl, rfl, rfl, rfl, rfl⟩
      · cases h
  case h_7 | h_8 | h_9 => cases h
  all_goals
    cases h
    exact ⟨rfl, rfl, rfl, rfl, rfl, rfl⟩

/-- A node gets the first number that is not taken. -/
theorem filenoAlloc {fuel : Nat} {n : NodeId} (h : filenoAlloc K fuel s n = some s') : Numbered s s' := by
  induction fuel generalizing s s' n with
  | zero => cases h
  | succ fuel ih =>
    unfold Sgfs.filenoAlloc at h
    split at h
    · split at h
      · obtain ⟨a, above, own⟩ := Option.bind_eq_some_iff.mp h
        exact (ih above).trans (filenoOwn own)
      · exact filenoOwn h
    · exact filenoOwn h

theorem numberEntry {n : NodeId} (h : numberEntry K s n = some s') : Numbered s s' := by
  unfold Sgfs.numberEntry at h
  split at h
  · exact filenoAlloc h
  · cases h
    exact refl s

theorem readdirWalk {uioOffset resid offset last : Nat} {children : List NodeId} {entries : List Dirent}
    (h : readdirWalk K s uioOffset resid offset children = some (s', entries, last)) : Numbered s s' := by
  induction children generalizing s s' uioOffset resid offset entries last with
  | nil =>
    cases h
    exact refl s
  | cons pn rest ih =>
    obtain ⟨a, number, walk⟩ := Option.bind_eq_some_iff.mp h
    refine (numberEntry number).trans ?_
    split at walk
    · cases walk
      exact refl _
    · split at walk
      · obtain ⟨⟨b, entries', last'⟩, later, done⟩ := Option.map_eq_some_iff.mp walk
        cases done
        exact ih later
      · exact ih walk

end Numbered

section steps
variable {K : VfsKernel} {s s' : Fs} {held : List NodeId} {n p v : Nat} {name : String}

/-- A new vnode is a reference to its node; a failure lets the node be. -/
theorem allocv_fits (fits : Fits s held) (alive : s.alive n) (dir : s.isDir n) (mp : MountId) (avail : Bool) :
    Fits (allocv s mp n avail).2 held := by
  unfold allocv
  split
  · exact fits
  · split
    · exact fits.attach alive dir mp _
    · exact fits

/-- What a search by name finds is a directory below the one that is searched. -/
theorem search_fits (fits : Fits s held) (alive : s.alive p) (dot : name ≠ ".") (dotdot : name ≠ "..")
    (found : search s p name = some n) : s.alive n ∧ s.isDir n ∧ (s.node n).parent = some p := by
  unfold search at found
  have same : (s.node n).name = name := by simpa using List.find?_some found
  have below := (fits.linked p n alive).mp (List.mem_of_find?_eq_some found)
  refine ⟨below.1, ?_, below.2⟩
  by_contra other
  rcases (fits.leaf n below.1 (by simpa using other)).2.2 with is | is
  · exact dot (same.symm.trans is)
  · exact dotdot (same.symm.trans is)

/-- The node that is found is held for the caller. -/
theorem lookupEntry_fits (fits : Fits s held) (alive : s.alive p) (dot : name ≠ ".") (dotdot : name ≠ "..") :
    match lookupEntry s p name with
    | (some n, s') => Fits s' (n :: held) ∧ s'.alive n ∧ s'.isDir n
    | (none, s') => s' = s := by
  unfold lookupEntry
  cases found : search s p name with
  | none => rfl
  | some n =>
    obtain ⟨aliveN, dirN, _⟩ := search_fits fits alive dot dotdot found
    have holds := fits.hold aliveN dirN
    exact ⟨holds, holds.holds n (List.mem_cons_self ..)⟩

/-- The node that is made is held for the caller as well. -/
theorem mkdirEntry_fits (fits : Fits s held) (alive : s.alive p) (dir : s.isDir p) (name : String) :
    Fits (mkdirEntry s p name).2 ((mkdirEntry s p name).1 :: held) ∧
      (mkdirEntry s p name).2.alive (mkdirEntry s p name).1 ∧ (mkdirEntry s p name).2.isDir (mkdirEntry s p name).1 := by
  obtain ⟨made, there, isDir⟩ := fits.create alive dir name
  have holds := made.hold there isDir
  exact ⟨holds, holds.holds _ (List.mem_cons_self ..)⟩

/-- A vnode that goes gives up its reference, and with the last one the node goes. -/
theorem sgfsReclaim_fits (fits : Fits s held) (run : sgfsReclaim s v = some s') : Fits s' held := by
  obtain ⟨n, data, done⟩ := Option.bind_eq_some_iff.mp run
  cases done
  exact (fits.detach data).drop

/-- A directory is made, opened, and no longer held. -/
theorem sgfsMkdir_fits {r : Reply} {avail : Bool} (fits : Fits s held) (run : sgfsMkdir s v name avail = some (r, s')) :
    Fits s' held := by
  obtain ⟨p, data, done⟩ := Option.bind_eq_some_iff.mp run
  obtain ⟨_, alive, dir⟩ := fits.opened v p data
  rw [dir] at done
  cases done
  obtain ⟨made, there, isDir⟩ := mkdirEntry_fits fits alive dir name
  exact (allocv_fits made there isDir _ avail).drop

/-- A name is looked up, opened, and no longer held. -/
theorem sgfsLookupx_fits {r : Reply} {avail : Bool} {cnp : Componentname} (fits : Fits s held)
    (run : sgfsLookupx s v cnp avail = some (r, s')) : Fits s' held := by
  obtain ⟨p, data, done⟩ := Option.bind_eq_some_iff.mp run
  obtain ⟨_, alive, dir⟩ := fits.opened v p data
  split at done
  · cases done
    exact fits
  split at done
  · cases done
    exact fits
  split at done
  · split at done
    all_goals
      cases done
      exact fits
  rename_i dot
  split at done
  · split at done
    · cases done
      exact fits
    split at done
    · cases done
      exact fits
    obtain ⟨above, parent, done⟩ := Option.bind_eq_some_iff.mp done
    cases done
    obtain ⟨aliveP, dirP⟩ := fits.above p above alive parent
    exact allocv_fits fits aliveP dirP _ avail
  rename_i dotdot
  have entry := lookupEntry_fits fits alive dot dotdot
  split at done
  · rename_i n a found
    rw [found] at entry
    obtain ⟨holds, there, isDir⟩ := entry
    split at done
    · cases done
      exact holds.drop
    · cases done
      exact (allocv_fits holds there isDir _ avail).drop
  · rename_i a found
    rw [found] at entry
    subst entry
    split at done
    · split at done
      all_goals
        cases done
        exact fits
    · cases done
      exact fits

/-- A directory is taken off its parent's list and loses what the list held. -/
theorem sgfsRmdir_fits {r : Reply} (fits : Fits s held) (run : sgfsRmdir s v = some (r, s')) : Fits s' held := by
  obtain ⟨n, data, done⟩ := Option.bind_eq_some_iff.mp run
  obtain ⟨_, alive, dir⟩ := fits.opened v n data
  split at done
  · cases done
    exact fits
  split at done
  · cases done
    exact fits
  rename_i isDir _
  split at done
  · rename_i first second children
    obtain ⟨p, parent, done⟩ := Option.bind_eq_some_iff.mp done
    cases done
    exact (fits.unlink alive (not_not.mp isDir) parent (by rw [children]; rfl)).drop.drop
  · cases done
    exact fits
  · cases done

theorem sgfsReaddir_numbered {r : Reply} {uioOffset resid : Nat}
    (run : sgfsReaddir K s v uioOffset resid = some (r, s')) : Numbered s s' := by
  obtain ⟨n, data, done⟩ := Option.bind_eq_some_iff.mp run
  obtain ⟨⟨a, entries, last⟩, walk, done⟩ := Option.bind_eq_some_iff.mp done
  cases done
  exact .readdirWalk walk

end steps

/-- One call leaves every count right. -/
theorem step_fits {K : VfsKernel} {x x' : Sys} {op : Op} {r : Reply} (fits : Fits x.fs x.held)
    (run : step K x op = some (r, x')) : Fits x'.fs x'.held := by
  unfold step at run
  split at run
  · rename_i enabled
    cases op with
    | mkdir v name avail =>
      obtain ⟨⟨r', s⟩, done, same⟩ := Option.map_eq_some_iff.mp run
      cases same
      exact sgfsMkdir_fits fits done
    | rmdir v =>
      obtain ⟨⟨r', s⟩, done, same⟩ := Option.map_eq_some_iff.mp run
      cases same
      exact sgfsRmdir_fits fits done
    | lookup v cnp avail =>
      obtain ⟨⟨r', s⟩, done, same⟩ := Option.map_eq_some_iff.mp run
      cases same
      exact sgfsLookupx_fits fits done
    | root mp avail =>
      cases run
      have top := fits.root
      exact allocv_fits fits top.1 (by simp [Fs.isDir, top.2.1, NodeType.isDir]) mp avail
    | getattr v =>
      obtain ⟨r', done, same⟩ := Option.map_eq_some_iff.mp run
      cases same
      exact fits
    | readdir v uioOffset resid =>
      obtain ⟨⟨r', s⟩, done, same⟩ := Option.map_eq_some_iff.mp run
      cases same
      exact (sgfsReaddir_numbered done).fits fits
    | reclaim v =>
      obtain ⟨s, done, same⟩ := Option.map_eq_some_iff.mp run
      cases same
      exact sgfsReclaim_fits fits done
    | create v name =>
      obtain ⟨p, data, same⟩ := Option.map_eq_some_iff.mp run
      obtain ⟨_, alive, dir⟩ := fits.opened v p data
      rw [dir] at same
      cases same
      exact (mkdirEntry_fits fits alive dir name).1
    | search v name =>
      obtain ⟨p, data, same⟩ := Option.map_eq_some_iff.mp run
      simp only [Op.enabled, Bool.and_eq_true, decide_eq_true_eq] at enabled
      have entry := lookupEntry_fits fits (fits.opened v p data).2.1 enabled.1.2 enabled.2
      split at same
      · rename_i n a found
        rw [found] at entry
        cases same
        exact entry.1
      · rename_i a found
        rw [found] at entry
        cases same
        subst entry
        exact fits
    | allocv mp n avail =>
      cases run
      obtain ⟨alive, dir⟩ := fits.holds n (by simpa [Op.enabled] using enabled)
      exact allocv_fits fits alive dir mp avail
    | release n =>
      cases run
      have member : n ∈ x.held := by simpa [Op.enabled] using enabled
      exact (fits.perm (List.perm_cons_erase member)).drop
  · cases run

/-- The state of `sgfs_init`: a root that has its number and its two entries. -/
theorem sgfsInit_eq (K : VfsKernel) : ∃ s, sgfsInit K = some s ∧
    s.node 0 = { name := "/", type := .root, refcount := 3, children := [2, 1] } ∧
    s.node 1 = { name := ".", type := .this, refcount := 1, parent := some 0 } ∧
    s.node 2 = { name := "..", type := .parent, refcount := 1, parent := some 0 } ∧
    s.nnodes = 3 ∧ (∀ v, s.vnode v = {}) ∧ s.nvnodes = 0 ∧ s.root = 0 ∧ s.freed = [] ∧
    s.unr = [K.allocUnr 0 []] ∧ s.fileno 0 = K.allocUnr 0 [] ∧ s.fileno 1 = 0 ∧ s.fileno 2 = 0 ∧
    ∀ n : Nat, 3 ≤ n → (s.node n).parent = none := by
  refine ⟨_, rfl, rfl, rfl, rfl, rfl, fun _ => rfl, rfl, rfl, rfl, rfl, rfl, rfl, rfl, fun n large => ?_⟩
  have zero : n ≠ 0 := by omega
  have one : n ≠ 1 := by omega
  have two : n ≠ 2 := by omega
  simp [fixupDir, addNode, createNode, addref, Fs.modNode, zero, one, two]

/-- The root is there with its two entries. -/
theorem sgfsInit_fits {K : VfsKernel} {s : Fs} (init : sgfsInit K = some s) : Fits s [] := by
  obtain ⟨s', init', zero, one, two, nnodes, vnode, nvnodes, root, freed, _⟩ := sgfsInit_eq K
  cases init.symm.trans init'
  have small (n : Nat) : s.alive n ↔ n = 0 ∨ n = 1 ∨ n = 2 := by
    rw [Fs.alive, nnodes, freed]
    simp only [List.not_mem_nil, not_false_eq_true, and_true]
    omega
  have data (v n : Nat) : (s.vnode v).data ≠ some n := by
    rw [vnode]
    intro linked
    cases linked
  constructor
  · simp [freed]
  · simp [freed]
  · rw [root, zero]
    exact ⟨(small 0).mpr (.inl rfl), rfl, rfl, rfl⟩
  · intro n there other
    rw [root] at other
    rcases (small n).mp there with rfl | rfl | rfl
    · exact absurd rfl other
    · exact .inr (.inl (by rw [one]))
    · exact .inr (.inr (by rw [two]))
  · intro n there dir
    rcases (small n).mp there with rfl | rfl | rfl
    · exact ⟨[], 2, 1, by rw [zero]; rfl, by simp, by rw [two], by rw [one]⟩
    · simp [Fs.isDir, one, NodeType.isDir] at dir
    · simp [Fs.isDir, two, NodeType.isDir] at dir
  · intro n there leaf
    rcases (small n).mp there with rfl | rfl | rfl
    · simp [Fs.isDir, zero, NodeType.isDir] at leaf
    · simp [one]
    · simp [two]
  · intro n there
    rcases (small n).mp there with rfl | rfl | rfl
    · simp [zero]
    · simp [one]
    · simp [two]
  · intro n c there
    rw [small]
    rcases (small n).mp there with rfl | rfl | rfl
    · simp only [zero, List.mem_cons, List.not_mem_nil, or_false]
      constructor
      · rintro (rfl | rfl)
        · exact ⟨.inr (.inr rfl), by rw [two]⟩
        · exact ⟨.inr (.inl rfl), by rw [one]⟩
      · rintro ⟨rfl | rfl | rfl, up⟩
        · rw [zero] at up
          cases up
        · exact .inr rfl
        · exact .inl rfl
    all_goals
      simp only [one, two, List.not_mem_nil, false_iff, not_and]
      rintro (rfl | rfl | rfl) up
      all_goals simp [zero, one, two] at up
  · intro c p there up
    have dir : s.isDir 0 := by simp [Fs.isDir, zero, NodeType.isDir]
    rcases (small c).mp there with rfl | rfl | rfl
    · rw [zero] at up
      cases up
    · rw [one] at up
      cases up
      exact ⟨(small 0).mpr (.inl rfl), dir⟩
    · rw [two] at up
      cases up
      exact ⟨(small 0).mpr (.inl rfl), dir⟩
  · intro n there type
    rcases (small n).mp there with rfl | rfl | rfl
    · simp [zero] at type
    · simp [one] at type
    · simp [two] at type
  · exact fun v n there => absurd there (data v n)
  · intro n v there
    rcases (small n).mp there with rfl | rfl | rfl
    · simpa [zero] using data v 0
    · simpa [one] using data v 1
    · simpa [two] using data v 2
  · intro n there
    rcases (small n).mp there with rfl | rfl | rfl
    · simp [zero]
    · simp [one]
    · simp [two]
  · simp
  · intro n there dir
    rcases (small n).mp there with rfl | rfl | rfl
    · simp [zero]
    · simp [Fs.isDir, one, NodeType.isDir] at dir
    · simp [Fs.isDir, two, NodeType.isDir] at dir
  · intro n there dir
    rcases (small n).mp there with rfl | rfl | rfl
    · simp [zero]
    · simp [Fs.isDir, one, NodeType.isDir] at dir
    · simp [Fs.isDir, two, NodeType.isDir] at dir
  · simp [freed]

/-- Any sequence of calls leaves every count right. -/
theorem runFrom_fits {K : VfsKernel} {x x' : Sys} {ops : List Op} (fits : Fits x.fs x.held)
    (ran : runFrom K x ops = some x') : Fits x'.fs x'.held := by
  induction ops generalizing x with
  | nil =>
    cases ran
    exact fits
  | cons op ops ih =>
    obtain ⟨a, first, rest⟩ := Option.bind_eq_some_iff.mp ran
    obtain ⟨⟨r, b⟩, done, same⟩ := Option.map_eq_some_iff.mp first
    cases same
    exact ih (step_fits fits done) rest

theorem run_fits {K : VfsKernel} {x : Sys} {ops : List Op} (ran : run K ops = some x) : Fits x.fs x.held := by
  obtain ⟨s, init, rest⟩ := Option.bind_eq_some_iff.mp ran
  exact runFrom_fits (x := ⟨s, []⟩) (sgfsInit_fits init) rest

/-- The count of a directory is exact in every state, so that it is freed once, and
when it is removed and nothing refers to it any more. -/
theorem node_lifetime (K : VfsKernel) (ops : List Op) (x : Sys) (ran : run K ops = some x) :
    (∀ n, x.fs.alive n → x.fs.isDir n → (x.fs.node n).refcount = (if (x.fs.node n).deleted then 0 else 1) + 2 +
      ((x.fs.node n).children.filter x.fs.isDir).length + (x.fs.node n).vnodes.length + x.held.count n) ∧
    x.fs.freed.Nodup ∧
    (∀ n, n < x.fs.nnodes → x.fs.isDir n → (n ∈ x.fs.freed ↔ (x.fs.node n).deleted ∧
      (∀ c ∈ (x.fs.node n).children, x.fs.isDir c = false) ∧ (x.fs.node n).vnodes = [] ∧ n ∉ x.held)) ∧
    (∀ n v, x.fs.alive n → (v ∈ (x.fs.node n).vnodes ↔ (x.fs.vnode v).data = some n)) ∧
    ∀ n ∈ x.fs.freed, (∀ v, (x.fs.vnode v).data ≠ some n) ∧
      ∀ m, x.fs.alive m → n ∉ (x.fs.node m).children ∧ (x.fs.node m).parent ≠ some n := by
  have fits := run_fits ran
  have split (n : NodeId) (there : x.fs.alive n) (dir : x.fs.isDir n) :
      (x.fs.node n).children.length = 2 + ((x.fs.node n).children.filter x.fs.isDir).length := by
    obtain ⟨dirs, up, dot, children, types, typeUp, typeDot⟩ := fits.shape n there dir
    have all : dirs.filter x.fs.isDir = dirs := List.filter_eq_self.mpr fun c member => by
      simp [Fs.isDir, types c member, NodeType.isDir]
    have upDir : x.fs.isDir up = false := by simp [Fs.isDir, typeUp, NodeType.isDir]
    have dotDir : x.fs.isDir dot = false := by simp [Fs.isDir, typeDot, NodeType.isDir]
    rw [children, List.filter_append, all]
    simp [upDir, dotDir]
    omega
  refine ⟨fun n there dir => ?_, fits.once, fun n small dir => ⟨fun freed => ?_, fun reasons => ?_⟩,
    fits.vnodes, fun n freed => ⟨fun v data => ?_, fun m there => ⟨fun member => ?_, fun up => ?_⟩⟩⟩
  · rw [fits.count n there dir, split n there dir]
    omega
  · obtain ⟨deleted, children, vnodes⟩ := fits.gone n freed dir
    refine ⟨deleted, by simp [children], vnodes, fun member => ?_⟩
    exact (fits.holds n member).1.2 freed
  · obtain ⟨deleted, alone, closed, unheld⟩ := reasons
    by_contra unfreed
    have count := fits.count n ⟨small, unfreed⟩ dir
    have enough := fits.needed n ⟨small, unfreed⟩ dir
    have empty : (x.fs.node n).children.filter x.fs.isDir = [] := List.filter_eq_nil_iff.mpr fun c member => by
      simp [alone c member]
    rw [split n ⟨small, unfreed⟩ dir, empty, closed, deleted, List.count_eq_zero.mpr unheld] at count
    simp at count
    omega
  · exact (fits.opened v n data).2.1.2 freed
  · exact ((fits.linked m n there).mp member).1.2 freed
  · exact (fits.above m n there up).1.2 freed

/-- A kernel whose `alloc_unr` hands out the number after the largest one in use. -/
def plainVfs : VfsKernel where
  allocUnr _ used := used.foldr max 0 + 1
  allocUnr_fresh _ used member := by
    have below : ∀ l : List Nat, ∀ a ∈ l, a ≤ l.foldr max 0 := fun l => by
      induction l with
      | nil => simp
      | cons b l ih =>
        intro a inside
        rcases List.mem_cons.mp inside with rfl | inside
        · exact Nat.le_max_left ..
        · exact Nat.le_trans (ih a inside) (Nat.le_max_right ..)
    exact Nat.not_succ_le_self _ (below used _ member)
  allocUnr_pos _ _ := Nat.succ_pos _
  reclen := 264
  reclen_pos := by decide

/-- A directory is made, removed while its vnode is open, and the vnode reclaimed. -/
def removedAndClosed : List Op := [.root 0 true, .mkdir 0 "a" true, .rmdir 1, .reclaim 1]

theorem node_lifetime_removed :
    ∃ x, run plainVfs removedAndClosed = some x ∧ 3 ∈ x.fs.freed ∧ (x.fs.node 3).deleted ∧ ∀ v, (x.fs.vnode v).data ≠ some 3 := by
  have result : (run plainVfs removedAndClosed).map (fun x => (x.fs.freed, x.fs.nnodes, x.fs.isDir 3)) =
      some ([3, 4, 5], 6, true) := by decide +kernel
  obtain ⟨x, ran, values⟩ := Option.map_eq_some_iff.mp result
  simp only [Prod.mk.injEq] at values
  obtain ⟨freed, nnodes, dir⟩ := values
  have inside : 3 ∈ x.fs.freed := by simp [freed]
  have all := node_lifetime _ _ x ran
  exact ⟨x, ran, inside, ((all.2.2.1 3 (by rw [nnodes]; decide) dir).mp inside).1, (all.2.2.2.2 3 inside).1⟩

end SfqSched.Sgfs
