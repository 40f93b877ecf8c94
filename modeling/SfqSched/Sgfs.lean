import Mathlib.Logic.Function.Basic
import Mathlib.Data.List.Perm.Subperm

namespace SfqSched.Sgfs
open Function

abbrev NodeId := Nat
abbrev VnodeId := Nat
abbrev MountId := Nat

/-- `sgfs_type_t`. -/
inductive NodeType
  | none | root | dir | this | parent | file | symlink
  deriving DecidableEq, Repr

/-- `struct sgfs_node`; its `fileno` is kept in a map of its own. -/
structure Node where
  name : String := ""
  type : NodeType := .none
  refcount : Nat := 0
  deleted : Bool := false
  parent : Option NodeId := none
  children : List NodeId := []
  /-- the vnodes of the `struct sgfs_vdata`s of the list -/
  vnodes : List VnodeId := []
  deriving DecidableEq, Repr

/-- A vnode of the file system. `data` is the node of its `struct sgfs_vdata`, if `v_data` is not `NULL`. -/
structure Vnode where
  mount : MountId := 0
  data : Option NodeId := none
  /-- `VV_ROOT` -/
  rootFlag : Bool := false
  deriving DecidableEq, Repr

/-- `sgfs_data` and the memory of its nodes and vnodes; `freed` lists what was given
to `uma_zfree`, the latest first. -/
structure Fs where
  node : NodeId → Node := fun _ => {}
  nnodes : Nat := 0
  vnode : VnodeId → Vnode := fun _ => {}
  nvnodes : Nat := 0
  root : NodeId := 0
  freed : List NodeId := []
  fileno : NodeId → Nat := fun _ => 0
  /-- the numbers `alloc_unr` has handed out, and how often it was called -/
  unr : List Nat := []
  calls : Nat := 0

/-- What the file system calls: `alloc_unr` returns a number that is not in use, and
`reclen` is the size of a `struct dirent`. -/
structure VfsKernel where
  allocUnr : Nat → List Nat → Nat
  allocUnr_fresh : ∀ n used, allocUnr n used ∉ used
  allocUnr_pos : ∀ n used, 0 < allocUnr n used
  reclen : Nat
  reclen_pos : 0 < reclen

/-- `SGFS_NAMELEN`. -/
def sgfsNamelen : Nat := 255

inductive Errno
  | eacces | enoent | eio | enotdir | einval | enotempty | enfile | ejustreturn
  deriving DecidableEq, Repr

def NodeType.isDir : NodeType → Bool
  | .dir | .root => true
  | _ => false

namespace Fs

def modNode (s : Fs) (n : NodeId) (f : Node → Node) : Fs := { s with node := update s.node n (f (s.node n)) }

def isDir (s : Fs) (n : NodeId) : Bool := (s.node n).type.isDir

/-- A node that was allocated and has not been freed. -/
def alive (s : Fs) (n : Nat) : Prop := n < s.nnodes ∧ n ∉ s.freed

end Fs

section nodes

/-- The `switch` of `sgfs_fileno_alloc`; a failed `KASSERT` is `none`. -/
def filenoOwn (K : VfsKernel) (s : Fs) (node : NodeId) : Option Fs :=
  match (s.node node).type, (s.node node).parent with
  | .root, _ | .dir, _ | .file, _ | .symlink, _ =>
    let no := K.allocUnr s.calls s.unr
    some { s with fileno := update s.fileno node no, unr := no :: s.unr, calls := s.calls + 1 }
  | .this, some p => some { s with fileno := update s.fileno node (s.fileno p) }
  | .parent, some p =>
    if p = s.root then some { s with fileno := update s.fileno node (s.fileno p) }
    else
      match (s.node p).parent with
      | some g => some { s with fileno := update s.fileno node (s.fileno g) }
      | none => none
  | .this, none | .parent, none | .none, _ => none

/-- `sgfs_fileno_alloc`, which first makes sure that the parent has a number. -/
def filenoAlloc (K : VfsKernel) : Nat → Fs → NodeId → Option Fs
  | 0, _, _ => none
  | fuel + 1, s, node =>
    match (s.node node).parent with
    | some p => if s.fileno p = 0 then (filenoAlloc K fuel s p).bind (filenoOwn K · node) else filenoOwn K s node
    | none => filenoOwn K s node

/-- `sgfs_fileno_free`. -/
def filenoFree (s : Fs) (node : NodeId) : Fs :=
  match (s.node node).type with
  | .root | .dir | .file | .symlink => { s with unr := s.unr.erase (s.fileno node) }
  | _ => s

/-- `sgnode_addref`. -/
def addref (s : Fs) (node : NodeId) : Fs := s.modNode node fun n => { n with refcount := n.refcount + 1 }

mutual

/-- `sgfs_destroy`. -/
def destroy : Nat → Fs → NodeId → Fs
  | 0, s, _ => s
  | fuel + 1, s, node =>
    let s := if s.isDir node then destroyChildren fuel s node else s
    let s := match (s.node node).parent with
      | some p => s.modNode p fun n => { n with children := n.children.erase node }
      | none => s
    let s := if s.fileno node ≠ 0 then filenoFree s node else s
    { s with freed := node :: s.freed }

/-- The loop of `sgfs_destroy`. -/
def destroyChildren : Nat → Fs → NodeId → Fs
  | 0, s, _ => s
  | fuel + 1, s, node =>
    match (s.node node).children with
    | [] => s
    | child :: _ => destroyChildren fuel (destroy fuel s child) node

end

/-- `sgnode_release`. -/
def release (s : Fs) (node : NodeId) : Fs :=
  let old := (s.node node).refcount
  let s := s.modNode node fun n => { n with refcount := n.refcount - 1 }
  let exp := if s.isDir node then 3 else 1
  if old = exp then destroy (2 * s.nnodes) s node else s

/-- `sgfs_create_node`. -/
def createNode (s : Fs) (name : String) (type : NodeType) : NodeId × Fs :=
  (s.nnodes, { s with
    node := update s.node s.nnodes { name := name, type := type, refcount := 1 }
    fileno := update s.fileno s.nnodes 0
    nnodes := s.nnodes + 1 })

/-- `sgfs_add_node`. -/
def addNode (s : Fs) (parent node : NodeId) : Fs :=
  let s := s.modNode node fun n => { n with parent := some parent, children := [], vnodes := [] }
  let s := s.modNode parent fun n => { n with children := node :: n.children }
  addref s parent

/-- `sgfs_fixup_dir`. -/
def fixupDir (s : Fs) (parent : NodeId) : Fs :=
  let (dir, s) := createNode s "." .this
  let s := addNode s parent dir
  let (dir, s) := createNode s ".." .parent
  addNode s parent dir

/-- `sgfs_create_dir`. -/
def createDir (s : Fs) (parent : NodeId) (name : String) : NodeId × Fs :=
  let (node, s) := createNode s name .dir
  (node, fixupDir (addNode s parent node) node)

/-- `sgfs_search`. -/
def search (s : Fs) (parent : NodeId) (name : String) : Option NodeId :=
  (s.node parent).children.find? fun node => (s.node node).name = name

end nodes

/-- `sgfs_init`: the root directory has its number before it has entries. -/
def sgfsInit (K : VfsKernel) : Option Fs := do
  let (root, s) := createNode {} "/" .root
  let s ← filenoAlloc K 1 { s with root := root } root
  some (fixupDir s root)

/-- `sgfs_allocv` without another call in between. `avail` says whether `getnewvnode`
and `insmntque` succeed. -/
def allocv (s : Fs) (mp : MountId) (node : NodeId) (avail : Bool) : Except Errno VnodeId × Fs :=
  match (s.node node).vnodes.find? fun v => (s.vnode v).mount = mp with
  | some v => (.ok v, s)
  | none =>
    if avail then
      let v := s.nvnodes
      let s := { s with
        vnode := update s.vnode v ⟨mp, some node, decide ((s.node node).type = NodeType.root)⟩
        nvnodes := s.nvnodes + 1 }
      (.ok v, addref (s.modNode node fun n => { n with vnodes := v :: n.vnodes }) node)
    else (.error .enfile, s)

inductive NameiOp
  | lookup | create | delete | rename
  deriving DecidableEq, Repr

/-- What `sgfs_lookupx` reads of a `struct componentname`, and whether `VOP_ACCESS`
grants the search and the change of the directory. -/
structure Componentname where
  name : String
  nameiop : NameiOp := .lookup
  isLast : Bool := true
  lockParent : Bool := false
  exec : Bool := true
  write : Bool := true
  deriving DecidableEq, Repr

/-- `struct dirent`, with the node it was made from. -/
structure Dirent where
  fileno : Nat
  name : String
  node : NodeId
  deriving DecidableEq, Repr

/-- What an operation returns. -/
inductive Reply
  | error (e : Errno)
  | vnode (v : VnodeId)
  | attr (fileno : Nat)
  | entries (es : List Dirent) (offset : Nat)
  | done
  deriving DecidableEq, Repr

def Reply.ofExcept : Except Errno VnodeId → Reply
  | .ok v => .vnode v
  | .error e => .error e

/-- The part of `sgfs_lookupx` that runs with the lock held: the entry, if there is one, with a reference. -/
def lookupEntry (s : Fs) (pd : NodeId) (name : String) : Option NodeId × Fs :=
  match search s pd name with
  | some pn => (some pn, addref s pn)
  | none => (none, s)

/-- `sgfs_lookupx`; `none` follows a `NULL`. The reference of a named entry lasts until the vnode has its own. -/
def sgfsLookupx (s : Fs) (dvp : VnodeId) (cnp : Componentname) (avail : Bool) : Option (Reply × Fs) := do
  let pd ← (s.vnode dvp).data
  if !cnp.exec then some (.error .eacces, s)
  else if cnp.name.length ≥ sgfsNamelen then some (.error .enoent, s)
  else if cnp.name = "." then
    if cnp.isLast ∧ cnp.nameiop ≠ .lookup then some (.error .einval, s) else some (.vnode dvp, s)
  else if cnp.name = ".." then
    if (s.vnode dvp).rootFlag then some (.error .eio, s)
    else if cnp.isLast ∧ cnp.nameiop ≠ .lookup then some (.error .einval, s)
    else do
      -- `KASSERT(pd->parent, ...)`
      let pn ← (s.node pd).parent
      let (error, s) := allocv s (s.vnode dvp).mount pn avail
      some (.ofExcept error, s)
  else
    match lookupEntry s pd cnp.name with
    | (some pn, s) =>
      if cnp.nameiop = .delete ∧ cnp.isLast ∧ !cnp.write then some (.error .eacces, release s pn)
      else
        let (error, s) := allocv s (s.vnode dvp).mount pn avail
        some (.ofExcept error, release s pn)
    | (none, s) =>
      if (cnp.nameiop = .create ∨ cnp.nameiop = .rename) ∧ cnp.lockParent ∧ cnp.isLast then
        if !cnp.write then some (.error .eacces, s) else some (.error .ejustreturn, s)
      else some (.error .enoent, s)

/-- `sgfs_reclaim`. -/
def sgfsReclaim (s : Fs) (vp : VnodeId) : Option Fs := do
  let pn ← (s.vnode vp).data
  let s := { s with vnode := update s.vnode vp { s.vnode vp with data := none } }
  let s := s.modNode pn fun n => { n with vnodes := n.vnodes.erase vp }
  some (release s pn)

/-- `sgfs_getattr`, which reads the file number it finds. -/
def sgfsGetattr (s : Fs) (vp : VnodeId) : Option Reply := do
  let pn ← (s.vnode vp).data
  some (.attr (s.fileno pn))

/-- The name that `sgfs_readdir` copies. -/
def direntName (name : String) : String := (name.take (sgfsNamelen - 1)).toString

/-- `sgfs_readdir` numbers an entry that has no number yet. -/
def numberEntry (K : VfsKernel) (s : Fs) (pn : NodeId) : Option Fs :=
  if s.fileno pn = 0 then filenoAlloc K (s.nnodes + 1) s pn else some s

/-- The loop of `sgfs_readdir`. `uiomove` advances the offset of the caller and uses up its buffer. -/
def readdirWalk (K : VfsKernel) (s : Fs) (uioOffset resid offset : Nat) : List NodeId → Option (Fs × List Dirent × Nat)
  | [] => some (s, [], offset)
  | pn :: rest =>
    (numberEntry K s pn).bind fun s =>
      if K.reclen > resid then some (s, [], offset)
      else if offset ≥ uioOffset then
        let entry : Dirent := ⟨s.fileno pn, direntName (s.node pn).name, pn⟩
        (readdirWalk K s (uioOffset + K.reclen) (resid - K.reclen) (offset + K.reclen) rest).map
          fun (s, entries, last) => (s, entry :: entries, last)
      else readdirWalk K s uioOffset resid (offset + K.reclen) rest

/-- `sgfs_readdir` with a buffer of `resid` bytes. -/
def sgfsReaddir (K : VfsKernel) (s : Fs) (vp : VnodeId) (uioOffset resid : Nat) : Option (Reply × Fs) := do
  let pd ← (s.vnode vp).data
  let (s, entries, offset) ← readdirWalk K s uioOffset resid 0 (s.node pd).children
  some (.entries entries offset, s)

/-- The part of `sgfs_mkdir` that runs with the lock held. -/
def mkdirEntry (s : Fs) (pd : NodeId) (name : String) : NodeId × Fs :=
  let (pn, s) := createDir s pd name
  (pn, addref s pn)

/-- `sgfs_mkdir`. -/
def sgfsMkdir (s : Fs) (dvp : VnodeId) (name : String) (avail : Bool) : Option (Reply × Fs) := do
  let pd ← (s.vnode dvp).data
  if !s.isDir pd then some (.error .enotdir, s)
  else
    let (pn, s) := mkdirEntry s pd name
    let (error, s) := allocv s (s.vnode dvp).mount pn avail
    some (.ofExcept error, release s pn)

/-- `sgfs_rmdir`: what the list holds beyond its first two entries makes the directory not empty. -/
def sgfsRmdir (s : Fs) (vp : VnodeId) : Option (Reply × Fs) := do
  let pn ← (s.vnode vp).data
  if (s.node pn).type ≠ .dir then some (.error .enotdir, s)
  else if (s.node pn).deleted then some (.error .enoent, s)
  else
    match (s.node pn).children with
    | _ :: _ :: [] => do
      let pt ← (s.node pn).parent
      let s := s.modNode pn fun n => { n with parent := none, deleted := true }
      let s := s.modNode pt fun n => { n with children := n.children.erase pn }
      some (.done, release (release s pn) pt)
    | _ :: _ :: _ => some (.error .enotempty, s)
    | _ => none

end SfqSched.Sgfs
