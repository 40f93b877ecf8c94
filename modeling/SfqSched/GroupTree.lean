import SfqSched.PrioList
import SfqSched.PssClass
import Mathlib.Logic.Relation

namespace SfqSched
open Function

/-- What the sysctl handlers use of a `struct sched_group`. -/
structure TreeGroup where
  id : Int := 0
  name : String := ""
  shares : Nat := 0
  parent : Option Gid := none
  children : List Gid := []
  threads : List Tid := []

/-- `struct sched_group_create_param`. -/
structure SchedGroupCreateParam where
  name : String
  shares : Nat

/-- A call of one of the five handlers that has passed the checks of its arguments; the
argument of `setShares` says whether the old value is asked for, and the new one if there is one. -/
inductive SysctlCall
  | create (parent : Int) (param : Option SchedGroupCreateParam)
  | move (pid : Pid) (id : Int)
  | setShares (id : Int) (old : Bool) (shares : Option Nat)
  | getSubGroups (id : Int)
  | destroy (id : Int)

/-- Where a handler is, with the pointers it has. -/
inductive SysctlPc
  | idle
  | lock (call : SysctlCall)
  /-- before `sched_group_find`, and at a group of its `TAILQ_FOREACH` -/
  | find (call : SysctlCall)
  | walk (call : SysctlCall) (sg : Gid)
  /-- `sysctl_sched_group_create` before `sched_group_find_by_name` and `sched_group_create` -/
  | findByName (parent : Gid) (param : SchedGroupCreateParam)
  | create (parent : Gid) (param : Option SchedGroupCreateParam)
  /-- `sysctl_sched_group_move`, the threads still to be moved -/
  | move (sg : Gid) (tds : List Tid)
  /-- `sysctl_sched_group_set_shares` before it reads and before it sets the shares -/
  | oldShares (sg : Gid) (old : Bool) (shares : Option Nat)
  | setShares (sg : Gid) (shares : Nat)
  /-- `sysctl_sched_group_get_sub_groups` before `TAILQ_FIRST`, and at a child -/
  | children (sg : Gid) (id : Int)
  | child (sg : Gid) (id : Int) (tmp : Gid)
  /-- `sched_group_destroy` step by step -/
  | childless (sg : Gid)
  | threadless (sg : Gid)
  | unregister (sg : Gid)
  | unlink (sg : Gid)
  | delist (sg : Gid)
  | freeUnr (sg : Gid)
  | free (sg : Gid)
  /-- `sx_sunlock`, and `sx_unlock` with the group that has been created -/
  | sunlock (error : Nat)
  | unlock (child : Option Gid) (error : Nat)
  /-- `id = child->id` after the lock is released -/
  | readId (child : Gid)

inductive SysctlOut
  | id (id : Int)
  | shares (shares : Nat)
  | info (parentId id : Int) (name : String) (shares : Nat)
  | error (error : Nat)

def esrch : Nat := 3
def ebusy : Nat := 16
def eexist : Nat := 17

/-- The group tree, the lock and the handlers. Groups are numbered in the order of their allocation.
`quarters` are the groups whose queues and entities `pss_free_sched_group` has freed, `freed` those
passed to `uma_zfree`, `returned` those whose id went to `free_unr`, each as often as it happened. -/
structure GroupTree where
  groups : Gid → TreeGroup
  allSchedGroups : List Gid
  /-- the `tqe_next` left in a group that has been taken off its parent's list, and off `all_sched_groups` -/
  stale : Gid → Option Gid
  staleLink : Gid → Option Gid
  ngroups : Nat
  unrhdr : List Int
  quarters : List Gid
  freed : List Gid
  returned : List Gid
  groupOf : Tid → Gid
  shared : List Nat
  exclusive : Option Nat
  pc : Nat → SysctlPc
  out : List (Nat × SysctlOut)

/-- The rest of the kernel: `alloc_unr` on the ids in use, the registered threads,
and the threads of each process. -/
structure SysctlKernel where
  allocUnr : List Int → Int
  threads : List Tid
  procs : Pid → Option (List Tid)
  some_thread : threads ≠ []
  registered : ∀ p tds, procs p = some tds → tds ⊆ threads

namespace SysctlCall

/-- The number that `sched_group_find` searches for. -/
def id : SysctlCall → Int
  | .create id _ | .move _ id | .setShares id _ _ | .getSubGroups id | .destroy id => id

/-- `sx_xlock(&sg_tree_lock)` in the handlers that take it so. -/
def xlock : SysctlCall → Bool
  | .create .. | .move .. => true
  | _ => false

/-- Where a handler goes on with the group `sched_group_find` has returned. -/
def found (K : SysctlKernel) (sg : Gid) : SysctlCall → SysctlPc
  | .create _ none => .create sg none
  | .create _ (some param) => if param.name = "" then .create sg (some param) else .findByName sg param
  | .move pid _ => .move sg ((K.procs pid).getD [])
  | .setShares _ old shares => .oldShares sg old shares
  | .getSubGroups id => .children sg id
  | .destroy _ => .childless sg

/-- Where it goes if there is none. -/
def missed (call : SysctlCall) : SysctlPc := if call.xlock then .unlock none esrch else .sunlock esrch

/-- `pfind` of `sysctl_sched_group_move` fails. -/
def lost (K : SysctlKernel) : SysctlCall → Bool
  | .move pid _ => K.procs pid = none
  | _ => false

end SysctlCall

namespace GroupTree

def modGroup (s : GroupTree) (g : Gid) (f : TreeGroup → TreeGroup) : GroupTree :=
  { s with groups := update s.groups g (f (s.groups g)) }

def goto (s : GroupTree) (c : Nat) (pc : SysctlPc) : GroupTree := { s with pc := update s.pc c pc }

def emit (s : GroupTree) (c : Nat) (o : SysctlOut) : GroupTree := { s with out := s.out ++ [(c, o)] }

/-- `sched_group_find_by_name`. -/
def schedGroupFindByName (s : GroupTree) (parent : Gid) (name : String) : Option Gid :=
  (s.groups parent).children.find? fun g => (s.groups g).name = name

/-- `TAILQ_NEXT(tmp, sibling)`. -/
def nextSibling (s : GroupTree) (sg tmp : Gid) : Option Gid :=
  if tmp ∈ (s.groups sg).children then tailqNext (s.groups sg).children tmp else s.stale tmp

/-- `TAILQ_NEXT(sg, link)`. -/
def nextLink (s : GroupTree) (sg : Gid) : Option Gid :=
  if sg ∈ s.allSchedGroups then tailqNext s.allSchedGroups sg else s.staleLink sg

/-- `sched_group_create`, after its allocations. -/
def schedGroupCreate (K : SysctlKernel) (s : GroupTree) (parent : Gid) (param : Option SchedGroupCreateParam) :
    GroupTree :=
  let sg := s.ngroups
  let id := K.allocUnr s.unrhdr
  let group : TreeGroup := {
    id
    name := (param.map SchedGroupCreateParam.name).getD ""
    shares := allocShares ((param.map SchedGroupCreateParam.shares).getD 0)
    parent := some parent }
  let s := { s with groups := update s.groups sg group, ngroups := sg + 1, unrhdr := id :: s.unrhdr }
  let s := s.modGroup parent fun p => { p with children := p.children ++ [sg] }
  { s with allSchedGroups := s.allSchedGroups ++ [sg] }

/-- One round of the loop of `sysctl_sched_group_move`. -/
def moveThread (s : GroupTree) (td : Tid) (sg : Gid) : GroupTree :=
  let old := s.groupOf td
  if old = sg then s
  else
    let s := s.modGroup old fun g => { g with threads := g.threads.erase td }
    let s := s.modGroup sg fun g => { g with threads := g.threads ++ [td] }
    { s with groupOf := update s.groupOf td sg }

/-- What `pss_sched_group_set_shares` stores in `sg->shares`. -/
def storeShares (s : GroupTree) (sg : Gid) (shares : Nat) : GroupTree :=
  if (s.groups sg).parent = none then s
  else s.modGroup sg fun g => { g with shares := if shares = 0 then 0 else clampShares shares }

end GroupTree

/-- The next step of one handler; `none` while it waits for the lock. -/
def sysctlStep (K : SysctlKernel) (s : GroupTree) (c : Nat) : Option GroupTree :=
  match s.pc c with
  | .idle => none
  | .lock call =>
    if call.xlock then
      if s.shared = [] ∧ s.exclusive = none then some ({ s with exclusive := some c }.goto c (.find call)) else none
    else if s.exclusive = none then some ({ s with shared := c :: s.shared }.goto c (.find call))
    else none
  | .find call =>
    if call.lost K then some (s.goto c call.missed)
    else some (s.goto c ((s.allSchedGroups.head?.map (.walk call)).getD call.missed))
  | .walk call sg =>
    if (s.groups sg).id = call.id then some (s.goto c (call.found K sg))
    else some (s.goto c (((s.nextLink sg).map (.walk call)).getD call.missed))
  | .findByName parent param =>
    match s.schedGroupFindByName parent param.name with
    | some _ => some (s.goto c (.unlock none eexist))
    | none => some (s.goto c (.create parent (some param)))
  | .create parent param => some ((s.schedGroupCreate K parent param).goto c (.unlock (some s.ngroups) 0))
  | .move _ [] => some (s.goto c (.unlock none 0))
  | .move sg (td :: tds) => some ((s.moveThread td sg).goto c (.move sg tds))
  | .oldShares sg old shares =>
    let s := if old then s.emit c (.shares (s.groups sg).shares) else s
    match shares with
    | some shares => some (s.goto c (.setShares sg shares))
    | none => some (s.goto c (.sunlock 0))
  | .setShares sg shares => some ((s.storeShares sg shares).goto c (.sunlock 0))
  | .children sg id =>
    match (s.groups sg).children.head? with
    | some tmp => some (s.goto c (.child sg id tmp))
    | none => some (s.goto c (.sunlock 0))
  | .child sg id tmp =>
    let group := s.groups tmp
    match s.nextSibling sg tmp with
    | some next => some ((s.emit c (.info id group.id group.name group.shares)).goto c (.child sg id next))
    | none => some ((s.emit c (.info id group.id group.name group.shares)).goto c (.sunlock 0))
  | .childless sg =>
    if (s.groups sg).children ≠ [] then some (s.goto c (.sunlock ebusy)) else some (s.goto c (.threadless sg))
  | .threadless sg =>
    if (s.groups sg).threads ≠ [] then some (s.goto c (.sunlock ebusy)) else some (s.goto c (.unregister sg))
  | .unregister sg => some ({ s with quarters := sg :: s.quarters }.goto c (.unlink sg))
  | .unlink sg =>
    (s.groups sg).parent.map fun parent =>
      let s := { s with stale := update s.stale sg (tailqNext (s.groups parent).children sg) }
      (s.modGroup parent fun g => { g with children := g.children.erase sg }).goto c (.delist sg)
  | .delist sg =>
    let s := { s with staleLink := update s.staleLink sg (tailqNext s.allSchedGroups sg) }
    some ({ s with allSchedGroups := s.allSchedGroups.erase sg }.goto c (.freeUnr sg))
  | .freeUnr sg =>
    some ({ s with unrhdr := s.unrhdr.erase (s.groups sg).id, returned := sg :: s.returned }.goto c (.free sg))
  | .free sg => some ({ s with freed := sg :: s.freed }.goto c (.sunlock 0))
  | .sunlock error => some ((({ s with shared := s.shared.erase c } : GroupTree).emit c (.error error)).goto c .idle)
  | .unlock child error =>
    let s := { s with exclusive := none }
    match child with
    | some child => some (s.goto c (.readId child))
    | none => some ((s.emit c (.error error)).goto c .idle)
  | .readId child => some (((s.emit c (.id (s.groups child).id)).emit c (.error 0)).goto c .idle)

/-- A handler is called, or goes on by one step. -/
inductive SysctlAction
  | call (c : Nat) (call : SysctlCall)
  | go (c : Nat)

/-- The handler that is called, or goes on. -/
def SysctlAction.handler : SysctlAction → Nat
  | .call c _ | .go c => c

def sysctlRun (K : SysctlKernel) (s : GroupTree) : SysctlAction → Option GroupTree
  | .call c call => match s.pc c with
    | .idle => some (s.goto c (.lock call))
    | _ => none
  | .go c => sysctlStep K s c

/-- The tree before the first handler runs: every thread is in `root_sched_group`. -/
def groupTreeBoot (K : SysctlKernel) : GroupTree where
  groups := fun g => if g = 0 then { threads := K.threads } else {}
  allSchedGroups := [0]
  stale := fun _ => none
  staleLink := fun _ => none
  ngroups := 1
  unrhdr := []
  quarters := []
  freed := []
  returned := []
  groupOf := fun _ => 0
  shared := []
  exclusive := none
  pc := fun _ => .idle
  out := []

end SfqSched
