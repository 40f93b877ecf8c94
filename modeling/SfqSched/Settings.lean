import SfqSched.Settled
import SfqSched.OpFrame

namespace SfqSched
open State Function

/-- What most operations leave alone: the tunables, how many threads and groups there are, the queue of every entity,
the group of every thread and whether it is gone, and all of a group but its shares. -/
@[ext]
structure Settings where
  tun : Tunables
  nthreads : Nat
  ngroups : Nat
  queue : EntId → Gid
  group : Tid → Gid
  exited : Tid → Bool
  groups : Gid → SchedGroup

def State.settings (s : State) : Settings where
  tun := s.tun
  nthreads := s.nthreads
  ngroups := s.ngroups
  queue e := (s.ent e).sfq
  group t := (s.td t).group
  exited t := (s.td t).exited
  groups g := { s.grp g with shares := 0 }

namespace Settings

def modGroup (x : Settings) (g : Gid) (f : SchedGroup → SchedGroup) : Settings :=
  { x with groups := update x.groups g (f (x.groups g)) }

/-- The thread is put on the queue of its group. -/
def settle (x : Settings) (t : Tid) : Settings :=
  { x with queue := update x.queue (.thread t) (x.groups (x.group t)).sfq }

def setGroup (x : Settings) (t : Tid) (g : Gid) : Settings := { x with group := update x.group t g }

def throw (x : Settings) (t : Tid) : Settings := { x with exited := update x.exited t true }

/-- The thread leaves the list of its group. -/
def unlist (x : Settings) (t : Tid) : Settings :=
  x.modGroup (x.group t) fun sg => { sg with threads := sg.threads.filter (· ≠ t) }

def enlist (x : Settings) (t : Tid) (g : Gid) : Settings :=
  x.modGroup g fun sg => { sg with threads := sg.threads ++ [t] }

/-- A thread is made that starts in its parent's group. -/
def bear (x : Settings) (parent child : Tid) : Settings :=
  let g := x.group parent
  ((({ x with nthreads := child + 1, exited := update x.exited child false }.setGroup child g).enlist child g).settle child)

/-- A group is made in the group `p`. -/
def create (x : Settings) (p : Gid) : Settings :=
  let g := x.ngroups
  { x with
    ngroups := g + 1
    queue := update x.queue (.group g) p
    groups := update x.groups g { parent := some p, sfq := g, se := some (.group g) } }.modGroup p
      fun sg => { sg with children := sg.children ++ [g] }

end Settings

section stores
variable (s : State) (q : Gid) (e : EntId) (t : Tid)

/-- A queue holds no setting. -/
@[simp] theorem settings_modSfq (f : Sfq → Sfq) : (s.modSfq q f).settings = s.settings := rfl

/-- What a store to an entity, a thread or a group does to the settings, if it touches one. -/
theorem settings_storeEnt (f : SchedEntity → SchedEntity) : (s.modEnt e f).settings =
    { s.settings with queue := update s.settings.queue e (f (s.ent e)).sfq } := by
  ext x
  case queue =>
    change (update s.ent e (f (s.ent e)) x).sfq = update (fun x => (s.ent x).sfq) e (f (s.ent e)).sfq x
    by_cases here : x = e
    · rw [here, update_self, update_self]
    · rw [update_of_ne here, update_of_ne here]
  all_goals rfl

theorem settings_storeTd (f : Thread → Thread) : (s.modTd t f).settings =
    { s.settings with
      group := update s.settings.group t (f (s.td t)).group
      exited := update s.settings.exited t (f (s.td t)).exited } := by
  ext x
  case group =>
    change (update s.td t (f (s.td t)) x).group = update (fun x => (s.td x).group) t (f (s.td t)).group x
    by_cases here : x = t
    · rw [here, update_self, update_self]
    · rw [update_of_ne here, update_of_ne here]
  case exited =>
    change (update s.td t (f (s.td t)) x).exited = update (fun x => (s.td x).exited) t (f (s.td t)).exited x
    by_cases here : x = t
    · rw [here, update_self, update_self]
    · rw [update_of_ne here, update_of_ne here]
  all_goals rfl

theorem settings_storeGrp (g : Gid) (f : SchedGroup → SchedGroup) : (s.modGrp g f).settings =
    { s.settings with groups := update s.settings.groups g { f (s.grp g) with shares := 0 } } := by
  ext1
  case groups =>
    funext x
    change ({ update s.grp g (f (s.grp g)) x with shares := 0 } : SchedGroup) =
      update (fun x => { s.grp x with shares := 0 }) g { f (s.grp g) with shares := 0 } x
    by_cases here : x = g
    · rw [here, update_self, update_self]
    · rw [update_of_ne here, update_of_ne here]
  all_goals rfl

/-- A group's shares are no setting. -/
theorem settings_modGrp (g : Gid) (f : SchedGroup → SchedGroup)
    (same : ∀ sg : SchedGroup, { f sg with shares := 0 } = f { sg with shares := 0 }) :
    (s.modGrp g f).settings = s.settings.modGroup g f := by
  rw [settings_storeGrp, same]
  rfl

/-- `set_thread_rq` gives the thread the queue and the parent of the group it is in. -/
theorem setThreadRq_settings : (setThreadRq s t).settings = s.settings.settle t := settings_storeEnt ..

theorem storeGroup_settings (g : Gid) : (storeGroup s t g).settings = s.settings.setGroup t g := by
  have kept : update s.settings.exited t (s.td t).exited = s.settings.exited := update_eq_self ..
  unfold storeGroup Settings.setGroup
  rw [settings_storeTd]
  dsimp only
  rw [kept]

/-- The only setting that the end of a thread changes is that it has ended. -/
theorem throwThread_settings :
    (s.modTd t fun td => { td with tdState := .inactive, exited := true }).settings = s.settings.throw t := by
  have kept : update s.settings.group t (s.td t).group = s.settings.group := update_eq_self ..
  unfold Settings.throw
  rw [settings_storeTd]
  dsimp only
  rw [kept]

end stores

/-- What only schedules leaves all of it alone. -/
theorem Cover.Within.settings {s s' : State} (h : Changes (scheduling ⊔ listing) s s') : s'.settings = s.settings :=
  h.read State.settings fun _ => rfl

section operations
variable {s s' : State} {t : Tid} {flags : Nat}

/-- Before and after it marks the thread as gone, `sched_throw` only schedules. -/
theorem schedThrow_settings (run : schedThrow s t = some s') : s'.settings = s.settings.throw t := by
  obtain ⟨a, before, after⟩ := schedThrow_changes run
  rw [(after.mono le_sup_left).settings, throwThread_settings, (before.mono le_sup_left).settings]

/-- A thread that is moved is stored in its new group, then settled there. -/
theorem moveThread_settings (s : State) (t : Tid) (g : Gid) (onRq : Bool) :
    (moveThread s t g onRq).settings = (s.settings.setGroup t g).settle t := by
  have stored := storeGroup_settings s t g
  have charged {a b : State} (h : Changes timing a b) : b.settings = a.settings :=
    (h.mono ((timing_charging.trans charging_scheduling).trans le_sup_left)).settings
  unfold moveThread
  split
  · unfold pssSchedGroupMove
    dsimp only
    split
    · rw [charged (addVtime_changes ..), setThreadRq_settings, charged (subVtime_changes ..), stored]
    · rw [setThreadRq_settings, stored]
  · rw [setThreadRq_settings, stored]

/-- Taking a thread off its queue and putting it back is no setting: `sched_group_move` comes down to its middle. -/
theorem schedGroupMove_settings {g : Gid} (run : schedGroupMove s t g = some s') :
    s'.settings = (s.settings.setGroup t g).settle t := by
  obtain ⟨b, onRq, away, moved⟩ := schedGroupMove_parts run
  rw [← (away.mono (dispatching_scheduling.trans (le_sup_left (b := listing)))).settings, ← moveThread_settings b t g onRq]
  rcases moved with rfl | ⟨_, c, back, after⟩
  · rfl
  · exact (((enqueueThread_changes back).mono dispatching_listing).trans (after.mono le_sup_left)).settings

/-- The half of a round of `sysctl_sched_group_move` that is done under `sched_group_lock`. -/
def relist (s : State) (t : Tid) (g : Gid) : State :=
  (s.modGrp (s.td t).group fun sg => { sg with threads := sg.threads.filter (· ≠ t) }).modGrp g
    fun sg => { sg with threads := sg.threads ++ [t] }

/-- The two lists of threads that a move touches. -/
theorem relist_settings (s : State) (t : Tid) (g : Gid) : (relist s t g).settings = (s.settings.unlist t).enlist t g := by
  unfold relist
  rw [settings_modGrp _ _ _ fun _ => rfl, settings_modGrp _ _ _ fun _ => rfl]
  rfl

/-- The two halves are a round. -/
theorem sysctlMoveThread_halves {g : Gid} (other : (s.td t).group ≠ g) :
    sysctlMoveThread s t g = schedGroupMove (relist s t g) t g := if_neg other

/-- A thread that is in the group already is left alone. -/
theorem sysctlMoveThread_settings {g : Gid} (run : sysctlMoveThread s t g = some s') :
    s'.settings = if (s.td t).group = g then s.settings
      else (((s.settings.unlist t).enlist t g).setGroup t g).settle t := by
  by_cases same : (s.td t).group = g
  · rw [if_pos same]
    unfold sysctlMoveThread at run
    rw [if_pos same] at run
    cases run
    rfl
  · rw [sysctlMoveThread_halves same] at run
    rw [if_neg same, ← relist_settings]
    exact schedGroupMove_settings run

theorem schedExitThread_settings (s : State) (t : Tid) : (schedExitThread s t).settings = s.settings.unlist t := by
  unfold schedExitThread
  rw [settings_modGrp _ _ _ fun _ => rfl]
  rfl

/-- A child starts in its parent's group: it is stored there, listed there, and settled there. -/
theorem schedForkInit_settings {p c : Tid} {stale : SchedEntity} : (schedForkInit s p c stale).settings =
    ((s.settings.setGroup c (s.td p).group).enlist c (s.td p).group).settle c := by
  unfold schedForkInit
  dsimp only
  have kept : update s.settings.exited c (s.td c).exited = s.settings.exited := update_eq_self ..
  rw [setThreadRq_settings, settings_modGrp _ _ _ fun _ => rfl, settings_storeTd, settings_storeEnt]
  dsimp only [State.modEnt]
  rw [kept]
  simp [Settings.settle, Settings.setGroup, Settings.enlist, Settings.modGroup]

/-- A fork takes the next free thread. -/
theorem forkAlloc_settings (s : State) (p : Tid) (newProc : Bool) : (forkAlloc s p newProc).settings =
    { s.settings with
      nthreads := s.nthreads + 1
      group := update s.settings.group s.nthreads 0
      exited := update s.settings.exited s.nthreads false } := by
  unfold forkAlloc
  dsimp only
  rw [settings_storeTd]
  cases newProc <;> rfl

/-- All that a fork settles is where the child belongs; that it then starts behind its parent is no setting. -/
theorem fork_settings {p : Tid} {newProc : Bool} {stale : SchedEntity} (inside : p < s.nthreads) :
    (fork s p newProc stale).settings = s.settings.bear p s.nthreads := by
  have other : p ≠ s.nthreads := inside.ne
  have group : ((forkAlloc s p newProc).td p).group = (s.td p).group := by
    have same := congrFun (congrArg Settings.group (forkAlloc_settings s p newProc)) p
    exact same.trans (update_of_ne other ..)
  have init : (schedForkInit (forkAlloc s p newProc) p s.nthreads stale).settings = s.settings.bear p s.nthreads := by
    rw [schedForkInit_settings, group, forkAlloc_settings]
    simp [Settings.bear, Settings.setGroup, State.settings]
  unfold fork schedForkThread
  dsimp only
  split
  · exact ((pssForkThread_changes ..).mono le_sup_left).settings.trans init
  · exact init

/-- Making a group settles the group and its entity; no thread moves. -/
theorem schedGroupCreate_settings (hier : s.view.Hier) {p : Gid} (inside : p < s.ngroups) (shares : Nat) :
    (schedGroupCreate s p shares).settings = s.settings.create p := by
  have other : p ≠ s.ngroups := inside.ne
  have se : (s.grp p).se = seOf p := hier.groupSe p inside
  have parentSe : (update s.grp s.ngroups { parent := some p } p).se = seOf p := by rw [update_of_ne other, se]
  unfold schedGroupCreate pssAllocSchedGroup
  dsimp only
  rw [settings_modGrp _ _ _ fun _ => rfl, settings_storeEnt, settings_modSfq, settings_storeGrp, settings_storeGrp]
  dsimp only [State.modGrp, State.modSfq]
  rw [parentSe, update_self, update_idem]
  by_cases root : p = 0
  · simp only [seOf, root]
    rfl
  · have myQ : (s.ent (.group p)).myQ = some p := hier.groupQ p (Nat.pos_of_ne_zero root) inside
    simp only [seOf, if_neg root, myQ, Option.getD_some]
    rfl

/-- An operation that neither makes nor ends a thread or a group, nor moves a thread, changes no setting. -/
theorem step_settings {op : Op} (modest : op.modest) (run : step s op = some s') : s'.settings = s.settings :=
  (step_modest modest run).settings

/-- `sched_setup` starts thread `0` in memory as it was. -/
theorem start_settings {a : State} (enq : enqueueThread s t flags = some a) (act : activateThread a t = some s') :
    s'.settings = s.settings :=
  (((enqueueThread_changes enq).mono dispatching_listing).trans
    ((activateThread_changes act).mono (dispatching_scheduling.trans le_sup_left))).settings

end operations

end SfqSched
