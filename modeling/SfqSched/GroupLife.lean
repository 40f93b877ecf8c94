import SfqSched.LeafList
import SfqSched.Settings
import Mathlib.Data.List.Count

namespace SfqSched
open State Function

/-- The scheduler, and what is going on with threads and groups beside it: `left` are the threads `sched_exit_thread`
was called for, `freed` the groups `sched_group_destroy` has freed, and `moving` is the thread that
`sysctl_sched_group_move`, which holds `sg_tree_lock` all the time, has put on the list of another group. -/
structure GroupLife where
  sched : State
  left : List Tid := []
  freed : List Gid := []
  moving : Option (Tid × Gid) := none

/-- An operation of the scheduler, one of the two halves in which a thread is moved, or `sched_group_destroy`. -/
inductive LifeOp
  | sched (op : Op)
  | relist (t : Tid) (g : Gid)
  | regroup
  | destroy (g : Gid)

namespace GroupLife

/-- When an operation of the scheduler may come: one on a group finds the group under the lock, and a thread exits
once and before it is thrown. A thread is moved in two halves. -/
def allows (x : GroupLife) : Op → Bool
  | .groupMove .. => false
  | .groupCreate g _ | .setShares g _ => x.moving = none ∧ g ∉ x.freed
  | .exitThread t => t ∉ x.left
  | .throw => x.sched.curthread ∈ x.left
  | _ => true

/-- The threads that have called `sched_exit_thread`. -/
def leave (x : GroupLife) : Op → List Tid
  | .exitThread t => t :: x.left
  | _ => x.left

def step (x : GroupLife) : LifeOp → Option GroupLife
  | .sched op =>
    if x.allows op then (SfqSched.step x.sched op).map fun s => { x with sched := s, left := x.leave op } else none
  | .relist t g =>
    if x.moving = none ∧ x.sched.live t ∧ g < x.sched.ngroups ∧ g ∉ x.freed ∧ (x.sched.td t).group ≠ g then
      some { x with sched := SfqSched.relist x.sched t g, moving := some (t, g) }
    else none
  | .regroup =>
    match x.moving with
    | some (t, g) =>
      -- the process is locked from one half to the other
      if x.sched.live t then (schedGroupMove x.sched t g).map fun s => { x with sched := s, moving := none } else none
    | none => none
  | .destroy g =>
    if x.moving = none ∧ g < x.sched.ngroups ∧ g ∉ x.freed then
      (schedGroupDestroy x.sched g).map fun s => { x with sched := s, freed := g :: x.freed }
    else none

/-- The group on whose list a thread is. -/
def home (x : GroupLife) (t : Tid) : Gid :=
  match x.moving with
  | some (u, g) => if t = u then g else (x.sched.td t).group
  | none => (x.sched.td t).group

end GroupLife

def lifeRun (k : Kernel) (tun : Tunables) (ops : List LifeOp) : Option GroupLife :=
  (schedSetup k tun).bind fun s => ops.foldlM GroupLife.step { sched := s }

/-- What the threads lists, the group pointers and the run queue pointers of the threads have to do with each other.
`home t` is the group whose list the thread is on. -/
structure Roll (x : Settings) (left : List Tid) (freed : List Gid) (home : Tid → Gid) : Prop where
  sfq : ∀ g < x.ngroups, (x.groups g).sfq = g
  inside : ∀ t < x.nthreads, x.group t < x.ngroups ∧ home t < x.ngroups
  old : ∀ t ∈ left, t < x.nthreads
  gone : ∀ t, x.exited t → t ∈ left
  placed : ∀ t < x.nthreads, x.queue (.thread t) = x.group t
  listed : ∀ g t, (x.groups g).threads.count t = if t < x.nthreads ∧ t ∉ left ∧ home t = g then 1 else 0
  kids : ∀ g, 0 < g → g < x.ngroups → g ∉ freed → g ∈ (x.groups (x.queue (.group g))).children
  below : ∀ g ∈ freed, g < x.ngroups
  under : ∀ g, 0 < g → g < x.ngroups → x.queue (.group g) ∈ freed → g ∈ freed
  spared : ∀ t < x.nthreads, x.exited t = false → x.group t ∉ freed ∧ home t ∉ freed

namespace Roll
variable {x : Settings} {left : List Tid} {freed : List Gid} {home : Tid → Gid} {t p : Tid} {g : Gid}

theorem groups_modGroup (x : Settings) (g h : Gid) (f : SchedGroup → SchedGroup) :
    (x.modGroup g f).groups h = if h = g then f (x.groups g) else x.groups h := by
  by_cases here : h = g
  · rw [if_pos here, here]
    exact update_self ..
  · rw [if_neg here]
    exact update_of_ne here ..

/-- A change of the threads leaves the tree as it is. -/
theorem tree_modGroup (x : Settings) (g h : Gid) (f : List Tid → List Tid) :
    ((x.modGroup g fun sg => { sg with threads := f sg.threads }).groups h).children = (x.groups h).children ∧
      ((x.modGroup g fun sg => { sg with threads := f sg.threads }).groups h).sfq = (x.groups h).sfq := by
  rw [groups_modGroup]
  split
  · rename_i here
    rw [here]
    exact ⟨rfl, rfl⟩
  · exact ⟨rfl, rfl⟩

theorem tree_unlist (x : Settings) (t : Tid) (g : Gid) :
    ((x.unlist t).groups g).children = (x.groups g).children ∧ ((x.unlist t).groups g).sfq = (x.groups g).sfq :=
  tree_modGroup x _ g fun l => l.filter (· ≠ t)

theorem tree_enlist (x : Settings) (t : Tid) (g h : Gid) :
    ((x.enlist t g).groups h).children = (x.groups h).children ∧ ((x.enlist t g).groups h).sfq = (x.groups h).sfq :=
  tree_modGroup x g h fun l => l ++ [t]

theorem count_unlist (x : Settings) (t u : Tid) (g : Gid) (fits : x.group t ≠ g → (x.groups g).threads.count t = 0) :
    ((x.unlist t).groups g).threads.count u = if u = t then 0 else (x.groups g).threads.count u := by
  unfold Settings.unlist
  rw [groups_modGroup]
  by_cases here : g = x.group t
  · subst here
    rw [if_pos rfl]
    by_cases same : u = t
    · subst same
      simp [List.count_eq_zero]
    · simp [same, List.count_filter]
  · rw [if_neg here]
    by_cases same : u = t
    · subst same
      rw [if_pos rfl]
      exact fits (Ne.symm here)
    · rw [if_neg same]

theorem count_enlist (x : Settings) (t u : Tid) (g h : Gid) :
    ((x.enlist t g).groups h).threads.count u = (x.groups h).threads.count u + if h = g ∧ u = t then 1 else 0 := by
  unfold Settings.enlist
  rw [groups_modGroup]
  by_cases here : h = g
  · subst here
    rw [if_pos rfl, List.count_append, List.count_singleton]
    by_cases same : u = t
    · simp [same]
    · simp [same, Ne.symm same]
  · simp [here]

theorem elsewhere (roll : Roll x left freed home) (settled : home t = x.group t) (other : x.group t ≠ g) :
    (x.groups g).threads.count t = 0 := by
  rw [roll.listed, if_neg]
  exact fun all => other (settled.symm.trans all.2.2)

/-- `sched_exit_thread` of a thread that is not being moved. -/
theorem exit (roll : Roll x left freed home) (inside : t < x.nthreads) (settled : home t = x.group t) :
    Roll (x.unlist t) (t :: left) freed home where
  sfq g below := (tree_unlist x t g).2.trans (roll.sfq g below)
  inside := roll.inside
  old u member := by
    rcases List.mem_cons.mp member with rfl | before
    · exact inside
    · exact roll.old u before
  gone u exited := List.mem_cons_of_mem _ (roll.gone u exited)
  placed := roll.placed
  listed g u := by
    rw [count_unlist x t u g (roll.elsewhere settled), roll.listed]
    by_cases same : u = t
    · simp [same]
    · simp only [same, if_false, List.mem_cons, false_or]
      rfl
  kids g pos below kept := by
    rw [(tree_unlist x t _).1]
    exact roll.kids g pos below kept
  below := roll.below
  under := roll.under
  spared := roll.spared

/-- A thread is put on another list. -/
theorem relist (roll : Roll x left freed home) (inside : t < x.nthreads) (there : t ∉ left) (settled : home t = x.group t)
    (below : g < x.ngroups) (kept : g ∉ freed) : Roll ((x.unlist t).enlist t g) left freed (update home t g) := by
  have tree (h : Gid) : (((x.unlist t).enlist t g).groups h).children = (x.groups h).children ∧
      (((x.unlist t).enlist t g).groups h).sfq = (x.groups h).sfq := by
    rw [(tree_enlist ..).1, (tree_enlist ..).2]
    exact tree_unlist x t h
  constructor
  case sfq => exact fun h lower => (tree h).2.trans (roll.sfq h lower)
  case inside =>
    intro u lower
    refine ⟨(roll.inside u lower).1, ?_⟩
    by_cases same : u = t
    · rw [same, update_self]
      exact below
    · rw [update_of_ne same]
      exact (roll.inside u lower).2
  case listed =>
    intro h u
    rw [count_enlist, count_unlist x t u h (roll.elsewhere settled), roll.listed]
    change _ = if u < x.nthreads ∧ u ∉ left ∧ update home t g u = h then 1 else 0
    by_cases same : u = t
    · subst same
      simp [inside, there, eq_comm]
    · simp [same]
  case kids =>
    intro h pos lower alive
    rw [(tree _).1]
    exact roll.kids h pos lower alive
  case spared =>
    intro u lower alive
    refine ⟨(roll.spared u lower alive).1, ?_⟩
    by_cases same : u = t
    · rw [same, update_self]
      exact kept
    · rw [update_of_ne same]
      exact (roll.spared u lower alive).2
  exacts [roll.old, roll.gone, roll.placed, roll.below, roll.under]

/-- The thread follows to the group whose list it is on. -/
theorem regroup (roll : Roll x left freed home) (inside : t < x.nthreads) (alive : x.exited t = false) :
    Roll ((x.setGroup t (home t)).settle t) left freed home := by
  have group (u : Tid) : ((x.setGroup t (home t)).settle t).group u = if u = t then home t else x.group u := by
    by_cases same : u = t
    · simp [same, Settings.settle, Settings.setGroup]
    · simp [same, Settings.settle, Settings.setGroup]
  have queue (e : EntId) : ((x.setGroup t (home t)).settle t).queue e = if e = .thread t then home t else x.queue e := by
    have owner := roll.sfq (home t) (roll.inside t inside).2
    by_cases same : e = .thread t
    · simp [same, Settings.settle, Settings.setGroup, owner]
    · simp [same, Settings.settle, Settings.setGroup]
  constructor
  case inside =>
    intro u lower
    rw [group]
    split
    · exact ⟨(roll.inside t inside).2, (roll.inside u lower).2⟩
    · exact roll.inside u lower
  case placed =>
    intro u lower
    rw [group, queue]
    by_cases same : u = t
    · simp [same]
    · simp [same, roll.placed u lower]
  case kids =>
    intro h pos lower kept
    rw [queue, if_neg EntId.noConfusion]
    exact roll.kids h pos lower kept
  case under =>
    intro h pos lower member
    rw [queue, if_neg EntId.noConfusion] at member
    exact roll.under h pos lower member
  case spared =>
    intro u lower live
    rw [group]
    split
    · exact ⟨(roll.spared t inside alive).2, (roll.spared u lower live).2⟩
    · exact roll.spared u lower live
  exacts [roll.sfq, roll.old, roll.gone, roll.listed, roll.below]

/-- A thread that is thrown has called `sched_exit_thread`. -/
theorem throw (roll : Roll x left freed home) (member : t ∈ left) : Roll (x.throw t) left freed home := by
  have exited (u : Tid) : (x.throw t).exited u = if u = t then true else x.exited u := by
    by_cases same : u = t
    · simp [same, Settings.throw]
    · simp [same, Settings.throw]
  constructor
  case gone =>
    intro u there
    rw [exited] at there
    split at there
    · rename_i same
      exact same ▸ member
    · exact roll.gone u there
  case spared =>
    intro u lower live
    rw [exited] at live
    split at live
    · cases live
    · exact roll.spared u lower live
  exacts [roll.sfq, roll.inside, roll.old, roll.placed, roll.listed, roll.kids, roll.below, roll.under]

/-- A thread starts on the list of its parent's group. -/
theorem bear (roll : Roll x left freed home) (inside : p < x.nthreads) (alive : x.exited p = false) :
    Roll (x.bear p x.nthreads) left freed (update home x.nthreads (x.group p)) := by
  have owner := roll.sfq _ (roll.inside p inside).1
  have nthreads : (x.bear p x.nthreads).nthreads = x.nthreads + 1 := rfl
  have ngroups : (x.bear p x.nthreads).ngroups = x.ngroups := rfl
  have exited (u : Tid) : (x.bear p x.nthreads).exited u = if u = x.nthreads then false else x.exited u := by
    by_cases same : u = x.nthreads <;>
      simp [same, Settings.bear, Settings.settle, Settings.enlist, Settings.modGroup, Settings.setGroup]
  have group (u : Tid) : (x.bear p x.nthreads).group u = if u = x.nthreads then x.group p else x.group u := by
    by_cases same : u = x.nthreads <;>
      simp [same, Settings.bear, Settings.settle, Settings.enlist, Settings.modGroup, Settings.setGroup]
  have tree (h : Gid) : ((x.bear p x.nthreads).groups h).children = (x.groups h).children ∧
      ((x.bear p x.nthreads).groups h).sfq = (x.groups h).sfq := by
    exact tree_enlist _ x.nthreads (x.group p) h
  have queue (e : EntId) : (x.bear p x.nthreads).queue e = if e = .thread x.nthreads then x.group p else x.queue e := by
    by_cases same : e = .thread x.nthreads
    · have settled : (x.bear p x.nthreads).queue e = ((x.bear p x.nthreads).groups (x.group p)).sfq := by
        rw [same]
        simp [Settings.bear, Settings.settle, Settings.enlist, Settings.modGroup, Settings.setGroup]
      rw [settled, (tree _).2, owner, if_pos same]
    · simp [same, Settings.bear, Settings.settle, Settings.enlist, Settings.modGroup, Settings.setGroup]
  have fresh : x.nthreads ∉ left := fun member => (roll.old _ member).ne rfl
  have earlier {u : Tid} (lower : u < x.nthreads + 1) (other : u ≠ x.nthreads) : u < x.nthreads :=
    Nat.lt_of_le_of_ne (Nat.le_of_lt_succ lower) other
  constructor
  case sfq => exact fun h lower => (tree h).2.trans (roll.sfq h lower)
  case inside =>
    intro u lower
    rw [group, ngroups]
    by_cases same : u = x.nthreads
    · rw [if_pos same, same, update_self]
      exact ⟨(roll.inside p inside).1, (roll.inside p inside).1⟩
    · rw [if_neg same, update_of_ne same]
      exact roll.inside u (earlier lower same)
  case old => exact fun u member => (roll.old u member).trans (Nat.lt_succ_self _)
  case gone =>
    intro u there
    rw [exited] at there
    split at there
    · cases there
    · exact roll.gone u there
  case placed =>
    intro u lower
    rw [group, queue]
    by_cases same : u = x.nthreads
    · simp [same]
    · simp [same, roll.placed u (earlier lower same)]
  case listed =>
    intro h u
    have threads : ((x.bear p x.nthreads).groups h).threads.count u =
        (x.groups h).threads.count u + if h = x.group p ∧ u = x.nthreads then 1 else 0 := by
      unfold Settings.bear Settings.settle
      dsimp only
      rw [count_enlist]
      rfl
    rw [threads, roll.listed, nthreads]
    by_cases same : u = x.nthreads
    · subst same
      simp [fresh, eq_comm]
    · have range : u < x.nthreads + 1 ↔ u < x.nthreads := ⟨fun lower => earlier lower same, Nat.lt_succ_of_lt⟩
      simp [same, range]
  case kids =>
    intro h pos lower kept
    rw [queue, if_neg EntId.noConfusion, (tree _).1]
    exact roll.kids h pos lower kept
  case below => exact roll.below
  case under =>
    intro h pos lower member
    rw [queue, if_neg EntId.noConfusion] at member
    exact roll.under h pos lower member
  case spared =>
    intro u lower live
    rw [group]
    by_cases same : u = x.nthreads
    · rw [if_pos same, same, update_self]
      exact ⟨(roll.spared p inside alive).1, (roll.spared p inside alive).1⟩
    · rw [exited, if_neg same] at live
      rw [if_neg same, update_of_ne same]
      exact roll.spared u (earlier lower same) live

/-- A group is made in one that has not been freed. -/
theorem create (roll : Roll x left freed home) (inside : g < x.ngroups) (kept : g ∉ freed)
    (queues : ∀ e, x.queue e < x.ngroups) : Roll (x.create g) left freed home := by
  have other : g ≠ x.ngroups := inside.ne
  have ngroups : (x.create g).ngroups = x.ngroups + 1 := rfl
  have nthreads : (x.create g).nthreads = x.nthreads := rfl
  have queue (e : EntId) : (x.create g).queue e = if e = .group x.ngroups then g else x.queue e := by
    by_cases same : e = .group x.ngroups <;> simp [same, Settings.create, Settings.modGroup]
  have fresh : (x.create g).groups x.ngroups = { parent := some g, sfq := x.ngroups, se := some (.group x.ngroups) } := by
    unfold Settings.create
    dsimp only
    rw [groups_modGroup, if_neg other.symm]
    exact update_self ..
  have groups (h : Gid) (old : h ≠ x.ngroups) : (x.create g).groups h =
      if h = g then { x.groups g with children := (x.groups g).children ++ [x.ngroups] } else x.groups h := by
    unfold Settings.create
    dsimp only
    rw [groups_modGroup]
    dsimp only
    rw [update_of_ne other, update_of_ne old]
  have threads (h : Gid) (old : h ≠ x.ngroups) : ((x.create g).groups h).threads = (x.groups h).threads := by
    rw [groups h old]
    split
    · rename_i here
      rw [here]
    · rfl
  have children (h : Gid) (old : h ≠ x.ngroups) {c : Gid} (member : c ∈ (x.groups h).children) :
      c ∈ ((x.create g).groups h).children := by
    rw [groups h old]
    split
    · rename_i here
      rw [here] at member
      exact List.mem_append_left _ member
    · exact member
  constructor
  case sfq =>
    intro h lower
    by_cases new : h = x.ngroups
    · rw [new, fresh]
    · have lower' : h < x.ngroups := Nat.lt_of_le_of_ne (Nat.le_of_lt_succ lower) new
      rw [groups h new]
      split
      · rename_i here
        rw [here]
        exact roll.sfq g inside
      · exact roll.sfq h lower'
  case inside =>
    intro t lower
    have both := roll.inside t lower
    exact ⟨both.1.trans (Nat.lt_succ_self _), both.2.trans (Nat.lt_succ_self _)⟩
  case old => exact roll.old
  case gone => exact roll.gone
  case placed =>
    intro t lower
    rw [queue, if_neg EntId.noConfusion]
    exact roll.placed t lower
  case listed =>
    intro h t
    rw [nthreads]
    by_cases new : h = x.ngroups
    · subst new
      rw [fresh, if_neg]
      · rfl
      · rintro ⟨lower, _, here⟩
        exact (roll.inside t lower).2.ne here
    · rw [threads h new]
      exact roll.listed h t
  case kids =>
    intro h pos lower alive
    rw [queue]
    by_cases new : h = x.ngroups
    · rw [if_pos (by rw [new]), groups g other, if_pos rfl, new]
      simp
    · have lower' : h < x.ngroups := Nat.lt_of_le_of_ne (Nat.le_of_lt_succ lower) new
      rw [if_neg (fun same => new (EntId.group.inj same))]
      exact children _ (queues _).ne (roll.kids h pos lower' alive)
  case below => exact fun h member => (roll.below h member).trans (Nat.lt_succ_self _)
  case under =>
    intro h pos lower member
    rw [queue] at member
    by_cases new : h = x.ngroups
    · rw [if_pos (by rw [new])] at member
      exact absurd member kept
    · rw [if_neg (fun same => new (EntId.group.inj same))] at member
      exact roll.under h pos (Nat.lt_of_le_of_ne (Nat.le_of_lt_succ lower) new) member
  case spared => exact roll.spared

/-- A group without threads and groups is freed while no thread of it is on its way out. -/
theorem destroy (roll : Roll x left freed home) (inside : g < x.ngroups) (still : ∀ t, home t = x.group t)
    (childless : (x.groups g).children = []) (threadless : (x.groups g).threads = [])
    (left_none : ∀ t ∈ left, x.exited t = false → x.group t ≠ g) (h : Gid) :
    Roll (x.modGroup h fun sg => { sg with children := sg.children.erase g }) left (g :: freed) home := by
  have rest (c : Gid) : ((x.modGroup h fun sg => { sg with children := sg.children.erase g }).groups c).threads =
      (x.groups c).threads ∧
      ((x.modGroup h fun sg => { sg with children := sg.children.erase g }).groups c).sfq = (x.groups c).sfq := by
    rw [groups_modGroup]
    split
    · rename_i here
      rw [here]
      exact ⟨rfl, rfl⟩
    · exact ⟨rfl, rfl⟩
  have orphans (c : Gid) (pos : 0 < c) (lower : c < x.ngroups) (child : x.queue (.group c) = g) : c ∈ freed := by
    by_contra kept
    have member := roll.kids c pos lower kept
    rw [child, childless] at member
    cases member
  have empty (t : Tid) (lower : t < x.nthreads) (alive : x.exited t = false) : x.group t ≠ g := by
    intro there
    by_cases gone : t ∈ left
    · exact left_none t gone alive there
    · have once := roll.listed g t
      rw [threadless, if_pos ⟨lower, gone, (still t).trans there⟩] at once
      cases once
  constructor
  case sfq => exact fun c lower => (rest c).2.trans (roll.sfq c lower)
  case listed =>
    intro c t
    rw [(rest c).1]
    exact roll.listed c t
  case kids =>
    intro c pos lower kept
    have other : c ≠ g := fun same => kept (same ▸ List.mem_cons_self)
    have child := roll.kids c pos lower fun member => kept (List.mem_cons_of_mem _ member)
    rw [groups_modGroup]
    split
    · rename_i here
      change x.queue (.group c) = h at here
      rw [← here]
      exact (List.mem_erase_of_ne other).mpr child
    · exact child
  case below =>
    intro c member
    rcases List.mem_cons.mp member with rfl | before
    · exact inside
    · exact roll.below c before
  case under =>
    intro c pos lower member
    rcases List.mem_cons.mp member with child | before
    · exact List.mem_cons_of_mem _ (orphans c pos lower child)
    · exact List.mem_cons_of_mem _ (roll.under c pos lower before)
  case spared =>
    intro t lower alive
    have apart := empty t lower alive
    have before := (roll.spared t lower alive).1
    rw [still]
    have both : x.group t ∉ g :: freed := fun member => (List.mem_cons.mp member).elim apart before
    exact ⟨both, both⟩
  exacts [roll.inside, roll.old, roll.gone, roll.placed]

end Roll

end SfqSched
