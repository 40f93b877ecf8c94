import SfqSched.SgfsRun
import SfqSched.Simulation

namespace SfqSched.Sgfs
open Function

/-- A directory as the callers of the file system see it. -/
structure Dir where
  name : String := ""
  parent : Option NodeId := none
  /-- the directories in it, the latest first -/
  entries : List NodeId := []
  removed : Bool := false
  deriving DecidableEq, Repr

/-- The file system without reference counts, file numbers and memory that is given
back. A directory has the number of its node; the next two are its entries `.` and `..`. -/
structure Tree where
  dir : NodeId → Dir := fun n => if n = 0 then { name := "/" } else {}
  next : NodeId := 3
  opened : VnodeId → Option (MountId × NodeId) := fun _ => none
  nopened : Nat := 0
  held : List NodeId := []

/-- What a caller learns; file numbers are left out. -/
inductive Answer
  | error (e : Errno)
  | vnode (v : VnodeId)
  | attr
  | names (names : List String) (offset : Nat)
  | done
  deriving DecidableEq, Repr

def Reply.answer : Reply → Answer
  | .error e => .error e
  | .vnode v => .vnode v
  | .attr _ => .attr
  | .entries es offset => .names (es.map Dirent.name) offset
  | .done => .done

def Answer.ofExcept : Except Errno VnodeId → Answer
  | .ok v => .vnode v
  | .error e => .error e

theorem Reply.answer_ofExcept (r : Except Errno VnodeId) : (Reply.ofExcept r).answer = .ofExcept r := by
  cases r <;> rfl

/-- Which names fit into the buffer. -/
def namesWalk (reclen uioOffset resid offset : Nat) : List String → List String × Nat
  | [] => ([], offset)
  | name :: rest =>
    if reclen > resid then ([], offset)
    else if offset ≥ uioOffset then
      let later := namesWalk reclen (uioOffset + reclen) (resid - reclen) (offset + reclen) rest
      (name :: later.1, later.2)
    else namesWalk reclen uioOffset resid (offset + reclen) rest

namespace Tree

def find (t : Tree) (d : NodeId) (name : String) : Option NodeId :=
  (t.dir d).entries.find? fun c => (t.dir c).name = name

/-- The vnode of a directory on a mount, a new one if it has none. -/
def visit (t : Tree) (mp : MountId) (d : NodeId) (avail : Bool) : Except Errno VnodeId × Tree :=
  match (List.range t.nopened).find? fun v => t.opened v = some (mp, d) with
  | some v => (.ok v, t)
  | none =>
    if avail then
      (.ok t.nopened, { t with opened := update t.opened t.nopened (some (mp, d)), nopened := t.nopened + 1 })
    else (.error .enfile, t)

def make (t : Tree) (d : NodeId) (name : String) : Tree :=
  { t with
    dir := update (update t.dir t.next { name := name, parent := some d }) d
      { t.dir d with entries := t.next :: (t.dir d).entries }
    next := t.next + 3 }

def unlink (t : Tree) (d p : NodeId) : Tree :=
  { t with
    dir := update (update t.dir d { t.dir d with parent := none, removed := true }) p
      { t.dir p with entries := (t.dir p).entries.erase d } }

def mkdir (t : Tree) (mp : MountId) (d : NodeId) (name : String) (avail : Bool) : Answer × Tree :=
  let (error, t) := (t.make d name).visit mp t.next avail
  (.ofExcept error, t)

def rmdir (t : Tree) (d : NodeId) : Option (Answer × Tree) :=
  if d = 0 then some (.error .enotdir, t)
  else if (t.dir d).removed then some (.error .enoent, t)
  else if (t.dir d).entries ≠ [] then some (.error .enotempty, t)
  else (t.dir d).parent.map fun p => (.done, t.unlink d p)

/-- Only a directory that is removed has no parent to go to. -/
def lookup (t : Tree) (vp : VnodeId) (mp : MountId) (d : NodeId) (cnp : Componentname) (avail : Bool) :
    Option (Answer × Tree) :=
  let visited (n : NodeId) : Answer × Tree := (.ofExcept (t.visit mp n avail).1, (t.visit mp n avail).2)
  if !cnp.exec then some (.error .eacces, t)
  else if cnp.name.length ≥ sgfsNamelen then some (.error .enoent, t)
  else if cnp.name = "." then
    if cnp.isLast ∧ cnp.nameiop ≠ .lookup then some (.error .einval, t) else some (.vnode vp, t)
  else if cnp.name = ".." then
    if d = 0 then some (.error .eio, t)
    else if cnp.isLast ∧ cnp.nameiop ≠ .lookup then some (.error .einval, t)
    else (t.dir d).parent.map visited
  else
    match t.find d cnp.name with
    | some c => if cnp.nameiop = .delete ∧ cnp.isLast ∧ !cnp.write then some (.error .eacces, t) else some (visited c)
    | none =>
      if (cnp.nameiop = .create ∨ cnp.nameiop = .rename) ∧ cnp.lockParent ∧ cnp.isLast then
        if !cnp.write then some (.error .eacces, t) else some (.error .ejustreturn, t)
      else some (.error .enoent, t)

def readdir (t : Tree) (reclen : Nat) (d : NodeId) (uioOffset resid : Nat) : Answer × Tree :=
  let names := (t.dir d).entries.map (fun c => (t.dir c).name) ++ ["..", "."]
  let (names, offset) := namesWalk reclen uioOffset resid 0 (names.map direntName)
  (.names names offset, t)

/-- The steps of the file system, as its callers see them. -/
def step (reclen : Nat) (t : Tree) : Op → Option (Answer × Tree)
  | .mkdir vp name avail => (t.opened vp).map fun place => t.mkdir place.1 place.2 name avail
  | .rmdir vp => (t.opened vp).bind fun place => t.rmdir place.2
  | .lookup vp cnp avail => (t.opened vp).bind fun place => t.lookup vp place.1 place.2 cnp avail
  | .root mp avail => some (.ofExcept (t.visit mp 0 avail).1, (t.visit mp 0 avail).2)
  | .getattr vp => (t.opened vp).map fun _ => (.attr, t)
  | .readdir vp uioOffset resid => (t.opened vp).map fun place => t.readdir reclen place.2 uioOffset resid
  | .reclaim vp => (t.opened vp).map fun _ => (.done, { t with opened := update t.opened vp none })
  | .create vp name => (t.opened vp).map fun place => (.done, { t.make place.2 name with held := t.next :: t.held })
  | .search vp name => (t.opened vp).map fun place =>
    match t.find place.2 name with
    | some n => (.done, { t with held := n :: t.held })
    | none => (.error .enoent, t)
  | .allocv mp node avail => some (.ofExcept (t.visit mp node avail).1, (t.visit mp node avail).2)
  | .release node => some (.done, { t with held := t.held.erase node })

end Tree

/-- A step of the code, with what the caller learns. -/
def answerStep (K : VfsKernel) (x : Sys) (op : Op) : Option (Answer × Sys) :=
  (step K x op).map fun done => (done.1.answer, done.2)

end SfqSched.Sgfs
