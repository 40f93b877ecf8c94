import SfqSched.GroupLife
import SfqSched.Membership

namespace SfqSched
open State Function

section unseen
variable {s s' : State} {t : Tid} {g : Gid}

theorem relist_unseen (s : State) (t : Tid) (g : Gid) : Unseen s (relist s t g) :=
  (threads_unseen s _ fun l => l.filter (· ≠ t)).trans (threads_unseen _ g fun l => l ++ [t])

theorem delLeafSfq_unseen (s : State) (q : Gid) : Unseen s (delLeafSfq s q) := by
  unfold delLeafSfq
  split
  · refine ⟨?_, ?_, ?_⟩
    · simp [view_modSfq, view_modRq]
    · simp [books_modSfq, books_modRq]
    · exact .trans (.modRq ..) (.modSfq _ _ _ rfl id)
  · exact .refl s

theorem schedGroupDestroy_unseen (run : schedGroupDestroy s g = some s') : Unseen s s' := by
  unfold schedGroupDestroy at run
  split at run
  · cases run
  · split at run
    · cases run
    · obtain ⟨p, _, rfl⟩ := Option.map_eq_some_iff.mp run
      refine (delLeafSfq_unseen s _).trans ⟨?_, rfl, .modGrp ..⟩
      rw [view_modGrp]
      simp

/-- `sched_group_destroy` frees a group it finds without groups and threads. -/
theorem schedGroupDestroy_settings (run : schedGroupDestroy s g = some s') :
    (s.grp g).children = [] ∧ (s.grp g).threads = [] ∧
      ∃ p, s'.settings = s.settings.modGroup p fun sg => { sg with children := sg.children.erase g } := by
  have leaf (q : Gid) : (delLeafSfq s q).settings = s.settings := by
    unfold delLeafSfq
    split <;> rfl
  unfold schedGroupDestroy at run
  split at run
  · cases run
  · rename_i childless
    split at run
    · cases run
    · rename_i threadless
      obtain ⟨p, _, rfl⟩ := Option.map_eq_some_iff.mp run
      refine ⟨not_not.mp childless, not_not.mp threadless, p, ?_⟩
      rw [settings_modGrp _ _ _ fun _ => rfl, leaf]

end unseen

namespace GroupLife

/-- When a step does not come at a wrong moment: a thread is not moved any more after `sched_exit_thread`, does not
exit half-way through a move, and no group is destroyed while a thread of it is on its way to `sched_throw`. -/
def timely (x : GroupLife) : LifeOp → Bool
  | .relist t _ => t ∉ x.left
  | .sched (.exitThread t) => x.moving.map Prod.fst ≠ some t
  | .destroy g => ∀ t ∈ x.left, (x.sched.td t).exited = false → (x.sched.td t).group ≠ g
  | _ => true

/-- Every step of a run is timely where it is made. -/
def allTimely (x : GroupLife) : List LifeOp → Bool
  | [] => true
  | op :: rest => x.timely op && (x.step op).all fun y => y.allTimely rest

/-- Nothing is on a group's queue, and no thread that has not been thrown points to the group. -/
def Abandoned (x : GroupLife) (g : Gid) : Prop :=
  (∀ e, (x.sched.ent e).joined → (x.sched.ent e).sfq ≠ g) ∧ (x.sched.sfq g).curr = none ∧
    ∀ t < x.sched.nthreads, (x.sched.td t).exited = false →
      (x.sched.ent (.thread t)).sfq ≠ g ∧ (x.sched.ent (.thread t)).parent ≠ some (.group g) ∧
        (x.sched.td t).group ≠ g

/-- A thread between `sched_fork_thread` and `sched_exit_thread` is on one list once, that of its own group. -/
def Listed (x : GroupLife) : Prop :=
  ∀ t < x.sched.nthreads, t ∉ x.left → ∀ g,
    (x.sched.grp g).threads.count t = if g = (x.sched.td t).group then 1 else 0

/-- What holds between any two steps. -/
structure Kept (x : GroupLife) : Prop where
  settled : Settled .free x.sched
  roll : Roll x.sched.settings x.left x.freed x.home
  moving : ∀ t g, x.moving = some (t, g) → t < x.sched.nthreads ∧ t ∉ x.left

section step
variable {x y : GroupLife} {t : Tid} {g : Gid}

theorem home_still (still : ∀ g, x.moving ≠ some (t, g)) : x.home t = (x.sched.td t).group := by
  unfold home
  split
  · rename_i u g moving
    split
    · rename_i same
      exact absurd (same ▸ moving) (still g)
    · rfl
  · rfl

theorem home_moving (moving : x.moving = some (t, g)) : x.home = update (fun u => (x.sched.td u).group) t g := by
  funext u
  unfold home
  rw [moving]
  by_cases same : u = t
  · simp [same]
  · simp [same]

theorem home_congr (moving : y.moving = x.moving) (group : y.sched.settings.group = x.sched.settings.group) :
    y.home = x.home := by
  have same (t : Tid) : (y.sched.td t).group = (x.sched.td t).group := congrFun group t
  funext t
  simp only [home, moving, same]

/-- An operation of the scheduler, with what it changes about threads and groups. -/
theorem Kept.sched (kept : x.Kept) {op : Op} {s : State} (allowed : x.allows op) (timely : x.timely (.sched op))
    (run : SfqSched.step x.sched op = some s) : Kept { x with sched := s, left := x.leave op } := by
  have settled := step_settled kept.settled (op.meets_free _) run
  have roll := kept.roll
  have hier := kept.settled.stands.inv.core.hier
  have same (group : s.settings.group = x.sched.settings.group) :
      home { x with sched := s, left := x.leave op } = x.home := home_congr rfl group
  by_cases modest : op.modest
  · have settings := step_settings modest run
    have left : x.leave op = x.left := by cases op <;> first | rfl | cases modest
    refine ⟨settled, ?_, fun t g moving => ?_⟩
    · rw [same (congrArg Settings.group settings), settings, left]
      exact roll
    · rw [left]
      have before := kept.moving t g moving
      exact ⟨before.1.trans_eq (congrArg Settings.nthreads settings).symm, before.2⟩
  · unfold SfqSched.step at run
    split at run
    · rename_i enabled
      cases op with
      | groupMove t g => cases allowed
      | throw =>
        have settings := schedThrow_settings run
        refine ⟨settled, ?_, fun t g moving => ?_⟩
        · rw [same (by rw [settings]; rfl), settings]
          exact roll.throw (of_decide_eq_true allowed)
        · have before := kept.moving t g moving
          exact ⟨before.1.trans_eq (congrArg Settings.nthreads settings).symm, before.2⟩
      | exitThread t =>
        cases run
        have settings := schedExitThread_settings x.sched t
        have inside : t < x.sched.nthreads := by
          simp only [Op.enabled, State.live, Bool.and_eq_true, decide_eq_true_eq] at enabled
          exact enabled.1
        have still (g : Gid) : x.moving ≠ some (t, g) := by
          intro moving
          simp [GroupLife.timely, moving] at timely
        refine ⟨settled, ?_, fun u g moving => ?_⟩
        · rw [same rfl, settings]
          exact roll.exit inside (home_still still)
        · have before := kept.moving u g moving
          refine ⟨before.1, fun member => ?_⟩
          rcases List.mem_cons.mp member with rfl | old
          · exact still g moving
          · exact before.2 old
      | fork p newProc stale =>
        cases run
        simp only [Op.enabled, State.live, Bool.and_eq_true, decide_eq_true_eq, Bool.not_eq_true'] at enabled
        have inside : p < x.sched.nthreads := enabled.1.1
        have settings : (SfqSched.fork x.sched p newProc stale).settings = x.sched.settings.bear p x.sched.nthreads :=
          fork_settings inside
        have nthreads : (SfqSched.fork x.sched p newProc stale).nthreads = x.sched.nthreads + 1 :=
          congrArg Settings.nthreads settings
        have group (u : Tid) : ((SfqSched.fork x.sched p newProc stale).td u).group =
            update (fun u => (x.sched.td u).group) x.sched.nthreads (x.sched.td p).group u :=
          congrFun (congrArg Settings.group settings) u
        have home : home { x with sched := SfqSched.fork x.sched p newProc stale, left := x.leave (.fork p newProc stale) } =
            update x.home x.sched.nthreads (x.sched.td p).group := by
          funext u
          by_cases child : u = x.sched.nthreads
          · rw [child, update_self]
            refine (home_still fun g moving => ?_).trans ((group _).trans (update_self ..))
            exact (kept.moving _ g moving).1.ne rfl
          · rw [update_of_ne child]
            have group' := (group u).trans (update_of_ne child ..)
            simp only [GroupLife.home, group']
        refine ⟨settled, ?_, fun t g moving => ?_⟩
        · rw [home, settings]
          exact roll.bear inside enabled.1.2
        · have before := kept.moving t g moving
          exact ⟨before.1.trans (nthreads ▸ Nat.lt_succ_self _), before.2⟩
      | groupCreate g shares =>
        cases run
        have inside : g < x.sched.ngroups := of_decide_eq_true enabled
        have settings := schedGroupCreate_settings hier inside shares
        have alive : g ∉ x.freed := (of_decide_eq_true allowed).2
        refine ⟨settled, ?_, fun t h moving => ?_⟩
        · rw [same (by rw [settings]; rfl), settings]
          exact roll.create inside alive hier.inside
        · have before := kept.moving t h moving
          exact ⟨before.1.trans_eq (congrArg Settings.nthreads settings).symm, before.2⟩
      | sysctl write =>
        obtain ⟨tun', new, rfl⟩ := Option.map_eq_some_iff.mp run
        exact ⟨settled, { roll with }, kept.moving⟩
      | _ => exact absurd rfl modest
    · cases run

theorem Kept.step (kept : x.Kept) {op : LifeOp} (timely : x.timely op) (run : x.step op = some y) : y.Kept := by
  have roll := kept.roll
  have stands := kept.settled.stands
  cases op with
  | sched op =>
    simp only [GroupLife.step] at run
    split at run
    · rename_i allowed
      obtain ⟨s, step, rfl⟩ := Option.map_eq_some_iff.mp run
      exact kept.sched allowed timely step
    · cases run
  | relist t g =>
    simp only [GroupLife.step] at run
    split at run
    · rename_i enabled
      obtain ⟨idle, live, below, alive, _⟩ := enabled
      cases run
      have inside : t < x.sched.nthreads := by
        simp only [State.live, Bool.and_eq_true, decide_eq_true_eq] at live
        exact live.1
      have there : t ∉ x.left := of_decide_eq_true timely
      have unseen := (relist_unseen x.sched t g).reaches stands.inv
      have reached := unseen.reached stands
      have settings := relist_settings x.sched t g
      have still (u : Tid) : x.home u = (x.sched.td u).group := home_still fun h moving => by simp [idle] at moving
      have home : home { x with sched := SfqSched.relist x.sched t g, moving := some (t, g) } = update x.home t g := by
        refine (home_moving rfl).trans ?_
        have group : (fun u => ((SfqSched.relist x.sched t g).td u).group) = x.home := funext fun u => (still u).symm
        exact congrArg (update · t g) group
      refine ⟨⟨reached.2, kept.settled.procs.path reached.1⟩, ?_, ?_⟩
      · rw [home, settings]
        exact roll.relist inside there (still t) below alive
      · rintro u h moving
        cases moving
        exact ⟨inside, there⟩
    · cases run
  | regroup =>
    simp only [GroupLife.step] at run
    split at run
    · rename_i t g moving
      obtain ⟨present, run⟩ := Option.ite_none_right_eq_some.mp run
      obtain ⟨s, step, rfl⟩ := Option.map_eq_some_iff.mp run
      simp only [State.live, Bool.and_eq_true, decide_eq_true_eq, Bool.not_eq_true'] at present
      obtain ⟨inside, live⟩ := present
      have here : x.home t = g := by rw [home_moving moving, update_self]
      have below : g < x.sched.ngroups := here ▸ (roll.inside t inside).2
      have reached := schedGroupMove_reached stands inside live below step
      have settings := schedGroupMove_settings step
      have home : home { x with sched := s, moving := none } = x.home := by
        have group : s.settings.group = update x.sched.settings.group t g := congrArg Settings.group settings
        rw [home_moving moving]
        funext u
        exact congrFun group u
      refine ⟨⟨reached.2, kept.settled.procs.path reached.1⟩, ?_, fun u h never => by cases never⟩
      rw [home, settings, ← here]
      exact roll.regroup inside live
    · cases run
  | destroy g =>
    simp only [GroupLife.step] at run
    split at run
    · rename_i enabled
      obtain ⟨idle, inside, _⟩ := enabled
      obtain ⟨s, step, rfl⟩ := Option.map_eq_some_iff.mp run
      have unseen := (schedGroupDestroy_unseen step).reaches stands.inv
      have reached := unseen.reached stands
      obtain ⟨childless, threadless, p, settings⟩ := schedGroupDestroy_settings step
      have home : home { x with sched := s, freed := g :: x.freed } = x.home := home_congr rfl (by rw [settings]; rfl)
      have still (u : Tid) : x.home u = (x.sched.td u).group := home_still fun h moving => by simp [idle] at moving
      refine ⟨⟨reached.2, kept.settled.procs.path reached.1⟩, ?_, fun t h moving => by simp [idle] at moving⟩
      rw [home, settings]
      exact roll.destroy inside still childless threadless (of_decide_eq_true timely) p
    · cases run

/-- A live thread is on no queue of a freed group. -/
theorem Kept.apart (kept : x.Kept) (member : g ∈ x.freed) (inside : t < x.sched.nthreads)
    (live : (x.sched.td t).exited = false) : (x.sched.ent (.thread t)).sfq ≠ g ∧ (x.sched.td t).group ≠ g := by
  have group : (x.sched.td t).group ∉ x.freed := (kept.roll.spared t inside live).1
  have queue : (x.sched.ent (.thread t)).sfq = (x.sched.td t).group := kept.roll.placed t inside
  rw [queue]
  have other : (x.sched.td t).group ≠ g := fun same => group (same ▸ member)
  exact ⟨other, other⟩

/-- The induction is down from the deepest group: the entity of a group that is joined has something below it. -/
theorem Kept.unjoined (kept : x.Kept) {n : Nat} (member : g ∈ x.freed) (near : x.sched.ngroups - g ≤ n) {e : EntId}
    (joined : (x.sched.ent e).joined) : (x.sched.ent e).sfq ≠ g := by
  have stands := kept.settled.stands
  have core := stands.inv.core
  have valid := core.valid e joined
  induction n generalizing g e with
  | zero =>
    have below : g < x.sched.ngroups := kept.roll.below g member
    exact absurd near (Nat.not_le_of_lt (Nat.sub_pos_of_lt below))
  | succ n ih =>
    cases e with
    | thread t =>
      have live : (x.sched.td t).exited = false := by
        by_contra gone
        have dead := stands.roster.dead t valid (Bool.eq_true_of_not_eq_false gone)
        exact Bool.noConfusion (dead.symm.trans joined)
      exact (kept.apart member valid live).1
    | group h =>
      intro there
      obtain ⟨pos, below⟩ := valid
      have queue : x.sched.settings.queue (.group h) = g := there
      have freed : h ∈ x.freed := kept.roll.under h pos below (queue.symm ▸ member)
      have some_there : 0 < x.sched.view.nr h := stands.inv.filled h pos below (by simp) joined
      obtain ⟨m, mem, _, count⟩ := core.accounts h
      rw [count, Finset.card_pos] at some_there
      obtain ⟨e, inside⟩ := some_there
      obtain ⟨joined', _, place⟩ := (mem e).mp inside
      have deeper : g < h := Nat.lt_of_le_pred pos (there ▸ core.hier.lower h)
      have fewer : x.sched.ngroups - h < x.sched.ngroups - g := Nat.sub_lt_sub_left (deeper.trans below) deeper
      have near' : x.sched.ngroups - h ≤ n := Nat.le_of_lt_succ (fewer.trans_le near)
      exact ih freed near' joined' (core.valid e joined') place

theorem Kept.idle (kept : x.Kept) (member : g ∈ x.freed) : (x.sched.sfq g).curr = none := by
  have stands := kept.settled.stands
  have hier := stands.inv.core.hier
  by_contra there
  obtain ⟨e, current⟩ := Option.ne_none_iff_exists'.mp there
  obtain ⟨listed, place⟩ := (stands.inv.core.curr g e).mp current
  obtain ⟨inside, live⟩ := stands.roster.current x.sched.curthread rfl
  have chain : e ∈ walkup x.sched (some (.thread x.sched.curthread)) := by
    simp only [currentOn, cpuChain] at listed
    split at listed
    · exact listed
    · cases listed
  -- the queues from the running thread's up belong to groups that are in use
  have used : ∀ a ∈ walkup x.sched (some (.thread x.sched.curthread)), x.sched.view.sfq a ∉ x.freed := by
    refine (hier.chain (e := .thread x.sched.curthread) (Nat.lt_succ_self _)).all ?_ ?_
    · rintro _ ⟨⟩ freed
      exact (kept.apart freed inside live).1 rfl
    · intro a b below up freed
      obtain ⟨pos, lower, rfl⟩ := hier.parent_some up
      exact below (kept.roll.under _ pos lower freed)
  exact used e chain (place ▸ member)

theorem Kept.abandoned (kept : x.Kept) (member : g ∈ x.freed) : x.Abandoned g := by
  refine ⟨fun e joined => kept.unjoined member (Nat.le_refl _) joined, kept.idle member, fun t inside live => ?_⟩
  obtain ⟨queue, group⟩ := kept.apart member inside live
  refine ⟨queue, fun parent => ?_, group⟩
  have link := (kept.settled.stands.inv.core.hier.parent_some parent).2.2
  exact queue (EntId.group.inj link).symm

theorem Kept.listed (kept : x.Kept) (idle : x.moving = none) : x.Listed := by
  intro t inside there g
  have count : (x.sched.grp g).threads.count t = _ := kept.roll.listed g t
  have here : x.home t = (x.sched.td t).group := home_still fun h moving => by simp [idle] at moving
  rw [count, here]
  by_cases same : g = (x.sched.td t).group
  · rw [if_pos same, if_pos ⟨inside, there, same.symm⟩]
  · rw [if_neg same, if_neg fun all => same all.2.2.symm]

end step

section run
variable {k : Kernel} {tun : Tunables} {s : State} {x y : GroupLife}

theorem Kept.boot (start : schedSetup k tun = some s) : Kept { sched := s } := by
  have settings : s.settings = (bootQueues k tun).settings := by
    unfold schedSetup at start
    obtain ⟨a, enq, act⟩ := Option.bind_eq_some_iff.mp start
    exact start_settings enq act
  have group : home { sched := s } = (bootQueues k tun).settings.group := congrArg Settings.group settings
  refine ⟨(schedSetup_settled k tun start).2, ?_, fun t g never => by cases never⟩
  rw [group, settings]
  have root (t : Tid) : (bootQueues k tun).settings.group t = 0 := by
    change ((bootMemory k tun).td t).group = 0
    simp only [bootMemory]
    split_ifs <;> rfl
  have queue (e : EntId) : (bootQueues k tun).settings.queue e = 0 := (bootQueues_bare k tun e).2.2.2.2.1
  have exited (t : Tid) : (bootQueues k tun).settings.exited t = false := by
    change ((bootMemory k tun).td t).exited = false
    simp only [bootMemory]
    split_ifs <;> rfl
  have first {g : Gid} (below : g < (bootQueues k tun).settings.ngroups) : g = 0 := Nat.lt_one_iff.mp below
  exact {
    sfq := fun g below => by
      cases first below
      rfl
    inside := fun t _ => by
      rw [root]
      exact ⟨Nat.one_pos, Nat.one_pos⟩
    old := fun t member => by cases member
    gone := fun t there => Bool.noConfusion ((exited t).symm.trans there)
    placed := fun t _ => (queue _).trans (root t).symm
    listed := fun g t => by
      rw [root]
      have nthreads : (bootQueues k tun).settings.nthreads = 2 := rfl
      have threads : ((bootQueues k tun).settings.groups g).threads = if g = 0 then [0, 1] else [] := by
        change ((bootMemory k tun).grp g).threads = _
        simp only [bootMemory]
        split_ifs <;> rfl
      rw [threads, nthreads]
      by_cases here : g = 0
      · by_cases zero : t = 0
        · simp [here, zero]
        · by_cases one : t = 1
          · simp [here, one]
          · have far : ¬t < 2 := Nat.not_lt.mpr ((Nat.two_le_iff t).mpr ⟨zero, one⟩)
            simp [here, far, Ne.symm zero, Ne.symm one]
      · simp [here, Ne.symm here]
    kids := fun g pos below => absurd (first below) pos.ne'
    below := fun g member => by cases member
    under := fun g pos below => absurd (first below) pos.ne'
    spared := fun t _ _ => ⟨List.not_mem_nil, List.not_mem_nil⟩ }

theorem Kept.steps {ops : List LifeOp} (kept : x.Kept) (timely : x.allTimely ops)
    (run : ops.foldlM GroupLife.step x = some y) : y.Kept := by
  induction ops generalizing x with
  | nil =>
    cases run
    exact kept
  | cons op rest ih =>
    rw [List.foldlM_cons] at run
    obtain ⟨a, first, later⟩ := Option.bind_eq_some_iff.mp run
    simp only [allTimely, first, Bool.and_eq_true, Option.all_some] at timely
    exact ih (kept.step timely.1 first) timely.2 later

end run

end GroupLife

/-- The steps of a run that boots are all timely. -/
def lifeTimely (k : Kernel) (tun : Tunables) (ops : List LifeOp) : Bool :=
  (schedSetup k tun).all fun s => ({ sched := s } : GroupLife).allTimely ops

/-- In a run whose steps are all timely, nothing is left on the queue of a group that has been freed and no thread
points to it, and each thread that has not called `sched_exit_thread` is on the list of its group alone, whenever
nobody holds `sg_tree_lock` to move threads. -/
theorem group_lifetime (k : Kernel) (tun : Tunables) (ops : List LifeOp) (x : GroupLife) (ran : lifeRun k tun ops = some x)
    (timely : lifeTimely k tun ops) : (∀ g ∈ x.freed, x.Abandoned g) ∧ (x.moving = none → x.Listed) := by
  obtain ⟨s, start, run⟩ := Option.bind_eq_some_iff.mp ran
  have timely' : ({ sched := s } : GroupLife).allTimely ops := by simpa [lifeTimely, start] using timely
  have kept := (GroupLife.Kept.boot start).steps timely' run
  exact ⟨fun g member => kept.abandoned member, kept.listed⟩

/-- A thread of a group that has been thrown; then the group is destroyed. -/
theorem group_lifetime_thrown : ∃ x, lifeRun plainKernel {} [.sched (.groupCreate 0 0), .sched (.fork 0 true {}),
    .relist 2 1, .regroup, .sched (.add 2), .sched (.sleep 0), .sched (.exitThread 2), .sched .throw, .destroy 1] = some x ∧
    x.freed = [1] ∧ x.Abandoned 1 ∧ x.Listed := by
  have facts : (lifeRun plainKernel {} [.sched (.groupCreate 0 0), .sched (.fork 0 true {}), .relist 2 1,
      .regroup, .sched (.add 2), .sched (.sleep 0), .sched (.exitThread 2), .sched .throw, .destroy 1]).map
      (fun x => (x.freed, x.moving)) = some ([1], none) := by
    decide +kernel
  obtain ⟨x, ran, eq⟩ := Option.map_eq_some_iff.mp facts
  simp only [Prod.mk.injEq] at eq
  have both := group_lifetime plainKernel {} _ x ran (by decide +kernel)
  exact ⟨x, ran, eq.1, both.1 1 (by simp [eq.1]), both.2 eq.2⟩

/-- The same thread is preempted between `sched_exit_thread` and `sched_throw`, and its group is destroyed:
the thread is still on the queue of the group that has been freed. -/
theorem group_lifetime_exiting : ∃ x, lifeRun plainKernel {} [.sched (.groupCreate 0 0), .sched (.fork 0 true {}),
    .relist 2 1, .regroup, .sched (.add 2), .sched (.sleep 0), .sched (.exitThread 2), .sched (.add 0), .sched (.switch 0),
    .destroy 1] = some x ∧
    x.freed = [1] ∧ (x.sched.ent (.thread 2)).joined ∧ (x.sched.ent (.thread 2)).sfq = 1 ∧ (x.sched.td 2).group = 1 ∧
    (x.sched.td 2).exited = false ∧ ¬x.Abandoned 1 := by
  have facts : (lifeRun plainKernel {} [.sched (.groupCreate 0 0), .sched (.fork 0 true {}), .relist 2 1,
      .regroup, .sched (.add 2), .sched (.sleep 0), .sched (.exitThread 2), .sched (.add 0), .sched (.switch 0),
      .destroy 1]).map (fun x => (x.freed, (x.sched.ent (.thread 2)).joined, (x.sched.ent (.thread 2)).sfq,
        (x.sched.td 2).group, (x.sched.td 2).exited)) = some ([1], true, 1, 1, false) := by
    decide +kernel
  obtain ⟨x, ran, eq⟩ := Option.map_eq_some_iff.mp facts
  simp only [Prod.mk.injEq] at eq
  obtain ⟨freed, joined, queue, group, exited⟩ := eq
  exact ⟨x, ran, freed, joined, queue, group, exited, fun abandoned => abandoned.1 _ joined queue⟩

end SfqSched
