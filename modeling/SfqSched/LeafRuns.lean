import SfqSched.GroupLifetime
import SfqSched.LeafSteps

namespace SfqSched
open State Function

section leaves
variable {s s' : State} {t : Tid} {g p : Gid}

/-- A change of the threads of a group. -/
theorem leaves_threads (s : State) (g : Gid) (f : List Tid → List Tid) :
    (s.modGrp g fun sg => { sg with threads := f sg.threads }).leaves = s.leaves := by
  refine Leaves.ext rfl rfl (funext fun y => ?_) (funext fun y => ?_) rfl rfl
  all_goals
    by_cases here : y = g <;> simp [State.leaves, modGrp, here]

theorem relist_leaves (s : State) (t : Tid) (g : Gid) : (relist s t g).leaves = s.leaves :=
  (leaves_threads _ g fun l => l ++ [t]).trans (leaves_threads s _ fun l => l.filter (· ≠ t))

theorem schedExitThread_leaves (s : State) (t : Tid) : (schedExitThread s t).leaves = s.leaves :=
  leaves_threads _ _ fun l => l.filter (· ≠ t)

theorem schedThrow_leaves (run : schedThrow s t = some s') : s'.leaves = s.leaves := by
  obtain ⟨a, before, after⟩ := schedThrow_changes run
  exact after.leaves.trans before.leaves

theorem fork_leaves {newProc : Bool} {stale : SchedEntity} (inside : t < s.nthreads) :
    (fork s t newProc stale).leaves = s.leaves := by
  have frame := fork_changes s t newProc stale
  have born : (fork s t newProc stale).settings = s.settings.bear t s.nthreads := fork_settings inside
  have queue := congrArg Settings.queue born
  refine Leaves.ext ?_ ?_ ?_ ?_ (funext fun g => ?_) ?_
  · exact frame.read (fun s => s.leaves.list) fun _ => rfl
  · exact frame.read (fun s => s.leaves.onList) fun _ => rfl
  · exact frame.read (fun s => s.leaves.parent) fun _ => rfl
  · exact frame.read (fun s => s.leaves.children) fun _ => rfl
  · refine (congrFun queue (.group g)).trans ?_
    have other : EntId.group g ≠ .thread s.nthreads := by simp
    unfold Settings.bear Settings.settle
    dsimp only
    rw [update_of_ne other]
    rfl
  · exact frame.read (fun s => s.leaves.ngroups) fun _ => rfl

theorem schedGroupCreate_leaves (hier : s.view.Hier) (inside : p < s.ngroups) (shares : Nat) :
    (schedGroupCreate s p shares).leaves = s.leaves.create p := by
  have settings := schedGroupCreate_settings hier inside shares
  have other : p ≠ s.ngroups := inside.ne
  have groups (y : Gid) : (schedGroupCreate s p shares).settings.groups y = if y = p then
      let sg := update s.settings.groups s.ngroups { parent := some p, sfq := s.ngroups, se := some (.group s.ngroups) } p
      { sg with children := sg.children ++ [s.ngroups] }
      else update s.settings.groups s.ngroups { parent := some p, sfq := s.ngroups, se := some (.group s.ngroups) } y := by
    rw [settings]
    unfold Settings.create
    exact Roll.groups_modGroup ..
  refine Leaves.ext ?_ ?_ (funext fun y => ?_) (funext fun y => ?_) ?_ (congrArg Settings.ngroups settings)
  · rfl
  · funext y
    change (update s.sfq s.ngroups { group := s.ngroups } y).onLeafList = update (fun q => (s.sfq q).onLeafList) s.ngroups false y
    by_cases here : y = s.ngroups
    · rw [here, update_self, update_self]
    · rw [update_of_ne here, update_of_ne here]
  · change ((schedGroupCreate s p shares).settings.groups y).parent = update (fun g => (s.grp g).parent) s.ngroups (some p) y
    rw [groups]
    split
    · rename_i here
      rw [here, update_of_ne other, update_of_ne other]
      rfl
    · by_cases new : y = s.ngroups
      · rw [new, update_self, update_self]
      · rw [update_of_ne new, update_of_ne new]
        rfl
  · change ((schedGroupCreate s p shares).settings.groups y).children =
      update (update (fun g => (s.grp g).children) s.ngroups []) p ((s.grp p).children ++ [s.ngroups]) y
    rw [groups]
    split
    · rename_i here
      rw [here, update_of_ne other, update_self]
      rfl
    · rename_i apart
      rw [update_of_ne apart]
      by_cases new : y = s.ngroups
      · rw [new, update_self, update_self]
      · rw [update_of_ne new, update_of_ne new]
        rfl
  · have queue := congrArg Settings.queue settings
    funext y
    refine (congrFun queue (.group y)).trans ?_
    change update s.settings.queue (.group s.ngroups) p (.group y) = update (fun g => (s.ent (.group g)).sfq) s.ngroups p y
    by_cases here : y = s.ngroups
    · rw [here, update_self, update_self]
    · rw [update_of_ne here, update_of_ne fun same => here (EntId.group.inj same)]
      rfl

/-- `sched_setup` puts the root's queue on the list. -/
theorem schedSetup_leaves {k : Kernel} {tun : Tunables} (start : schedSetup k tun = some s) :
    s.leaves = (bootQueues k tun).leaves.add 0 := by
  unfold schedSetup at start
  obtain ⟨a, enq, act⟩ := Option.bind_eq_some_iff.mp start
  change pssEnqueueThread (updateRqClock (bootQueues k tun)) 0 0 = some a at enq
  have clock := (updateRqClock_changes (bootQueues k tun)).mono (ticking_dispatching.trans dispatching_scheduling)
  have leaves := clock.leaves
  have hier := (clock.mono (le_sup_left (b := listing))).hier (bootQueues_inv k tun .free).core.hier
  have queue : ((updateRqClock (bootQueues k tun)).ent (.thread 0)).sfq = 0 := (bootQueues_bare k tun (.thread 0)).2.2.2.2.1
  have parent : (updateRqClock (bootQueues k tun)).view.parent (.thread 0) = none :=
    (bootQueues_bare k tun (.thread 0)).2.2.2.1
  have joined : ((updateRqClock (bootQueues k tun)).ent (.thread 0)).joined = false := (bootQueues_bare k tun (.thread 0)).1
  have empty : ((updateRqClock (bootQueues k tun)).sfq 0).nrRunning = 0 := rfl
  have top : ((updateRqClock (bootQueues k tun)).grp ((updateRqClock (bootQueues k tun)).sfq 0).group).se = none := rfl
  generalize updateRqClock (bootQueues k tun) = s₀ at enq leaves hier queue parent joined empty top
  obtain ⟨rest, eq, chain, _⟩ := thread_chain hier 0
  rw [parent] at chain
  cases chain
  obtain ⟨b, walk, rfl⟩ := Option.map_eq_some_iff.mp enq
  simp only [eq, pssEnqueueWalk, joined, queue, Bool.false_eq_true, if_false] at walk
  split at walk
  · cases walk
  · rename_i c step
    cases walk
    obtain ⟨d, before, after⟩ := enqueueEntity_first empty top step
    have before := before.mono dispatching_scheduling
    have hier' := (before.mono (le_sup_left (b := listing))).hier hier
    have orphan (p : Gid) (up : (d.grp 0).parent = some p) : p < 0 := by
      have none_there : d.leaves.parent 0 = (bootQueues k tun).leaves.parent 0 := by rw [before.leaves, leaves]
      cases none_there.symm.trans up
    have added := addLeafSfq_leaves hier' hier'.positive orphan
    rw [((activateThread_changes act).mono dispatching_scheduling).leaves,
      ((rqRunAdd_changes b 0).mono dispatching_scheduling).leaves, (after.mono dispatching_scheduling).leaves, added,
      before.leaves, leaves]

/-- The list with the root's queue alone. -/
theorem boot_ok (k : Kernel) (tun : Tunables) : ((bootQueues k tun).leaves.add 0).Ok [] := by
  have grp (g : Gid) : ((bootQueues k tun).grp g).parent = none := by
    change ((bootMemory k tun).grp g).parent = none
    simp only [bootMemory]
    split_ifs <;> rfl
  have parent : (bootQueues k tun).leaves.parent = fun _ => none := funext grp
  have onList : (bootQueues k tun).leaves.onList = fun _ => false := rfl
  have list : (bootQueues k tun).leaves.list = [] := rfl
  have ngroups : (bootQueues k tun).leaves.ngroups = 1 := rfl
  have added : (bootQueues k tun).leaves.add 0 =
      { (bootQueues k tun).leaves with list := [0], onList := update (fun _ => false) 0 true } := by
    simp only [Leaves.add, parent, onList, list, Bool.false_eq_true, if_false, List.nil_append]
  rw [added]
  have first {g : Gid} (lower : g < 1) : g = 0 := Nat.lt_one_iff.mp lower
  constructor
  case tree =>
    exact ⟨grp 0, fun g pos lower => absurd (first lower) pos.ne', fun g pos lower => absurd (first lower) pos.ne'⟩
  case ordered =>
    refine ⟨List.nodup_singleton 0, fun q => ?_, fun q member => ?_, List.pairwise_singleton ..⟩
    · by_cases here : q = 0 <;> simp [here]
    · cases List.mem_singleton.mp member
      exact ⟨Nat.one_pos, List.not_mem_nil⟩
  case root => rfl
  case closed => exact fun q p _ above => by cases (grp q).symm.trans above

end leaves

namespace GroupLife

/-- The queues on which a step puts a thread. -/
def enters (x : GroupLife) : LifeOp → List Gid
  | .sched (.add t) => if (x.sched.td t).cls = .pss then [(x.sched.ent (.thread t)).sfq] else []
  | .sched (.schedClass t priClass) =>
    if (x.sched.td t).tdPriClass ≠ priClass ∧ getSchedClass x.sched t priClass = .pss ∧ x.sched.active t then
      [(x.sched.ent (.thread t)).sfq]
    else []
  | .sched (.nice p _) =>
    ((x.sched.proc p).threads.filter fun t => (x.sched.td t).cls = .pss ∧ x.sched.active t).map fun t =>
      (x.sched.ent (.thread t)).sfq
  | .regroup =>
    match x.moving with
    | some (t, g) => if (x.sched.td t).cls = .pss ∧ x.sched.active t then [(x.sched.grp g).sfq] else []
    | none => []
  | _ => []

/-- Each of these queues is on the list, or its group has not been destroyed and the queue above it is on the list. -/
def fits (x : GroupLife) (op : LifeOp) : Bool := (x.enters op).all fun q => x.sched.leaves.fits x.freed q

/-- Every step of a run fits where it is made. -/
def allFit (x : GroupLife) : List LifeOp → Bool
  | [] => true
  | op :: rest => x.fits op && (x.step op).all fun y => y.allFit rest

/-- What holds between any two steps that fit. -/
structure Leafed (x : GroupLife) : Prop where
  settled : Settled .free x.sched
  ok : x.sched.leaves.Ok x.freed
  moving : ∀ t g, x.moving = some (t, g) → g < x.sched.ngroups

section step
variable {x y : GroupLife} {t : Tid} {g : Gid} {s : State}

theorem Leafed.leafy (leafed : x.Leafed) : Leafy x.sched x.freed := ⟨leafed.settled.stands.inv.core.hier, leafed.ok⟩

/-- The list and the tree are left alone. -/
theorem Leafed.same (leafed : x.Leafed) (settled : Settled .free s) (leaves : s.leaves = x.sched.leaves)
    (left : List Tid) : Leafed { x with sched := s, left := left } := by
  have ngroups : s.ngroups = x.sched.ngroups := congrArg Leaves.ngroups leaves
  exact ⟨settled, leaves ▸ leafed.ok, fun t g moving => ngroups ▸ leafed.moving t g moving⟩

theorem Leafed.grows (leafed : x.Leafed) (settled : Settled .free s) (grows : Grows x.freed x.sched s)
    (left : List Tid) : Leafed { x with sched := s, left := left } :=
  ⟨settled, grows.leafy.ok, fun t g moving => grows.ngroups ▸ leafed.moving t g moving⟩

theorem Leafed.sched (leafed : x.Leafed) {op : Op} (allowed : x.allows op) (fits : x.fits (.sched op))
    (run : SfqSched.step x.sched op = some s) : Leafed { x with sched := s, left := x.leave op } := by
  have settled := step_settled leafed.settled (op.meets_free _) run
  have leafy := leafed.leafy
  simp only [GroupLife.fits, List.all_eq_true] at fits
  by_cases quiet : op.quiet
  · exact leafed.same settled (step_quiet quiet run).leaves _
  obtain ⟨enabled, exec⟩ := Option.ite_none_right_eq_some.mp run
  cases op with
  | add t =>
    have begun : Changes scheduling x.sched (setTdState x.sched t .canRun) := .modTd _ _ _ rfl
    have grown := begun.grows leafy
    have cls : ((setTdState x.sched t .canRun).td t).cls = (x.sched.td t).cls := by simp [setTdState, modTd]
    refine leafed.grows settled (grown.trans (schedAdd_grows grown.leafy (fun pss => begun.fit (fits _ ?_)) exec)) _
    rw [enters, if_pos (cls.symm.trans pss)]
    exact List.mem_singleton_self _
  | schedClass t priClass =>
    refine leafed.grows settled (schedClass_grows leafy (fun other pss active => fits _ ?_) exec) _
    rw [enters, if_pos ⟨other, pss, active⟩]
    exact List.mem_singleton_self _
  | nice p nice =>
    have range : prioMin ≤ nice ∧ nice ≤ prioMax := by
      simp only [Op.enabled, Bool.and_eq_true, decide_eq_true_eq] at enabled
      exact ⟨enabled.1.2, enabled.2⟩
    refine leafed.grows settled (schedNice_grows leafed.settled id range leafy (fun t member pss active => fits _ ?_) exec) _
    exact List.mem_map_of_mem (List.mem_filter.mpr ⟨member, decide_eq_true ⟨pss, active⟩⟩)
  | groupMove t g => cases allowed
  | throw => exact leafed.same settled (schedThrow_leaves exec) _
  | fork t newProc stale =>
    cases exec
    simp only [Op.enabled, State.live, Bool.and_eq_true, decide_eq_true_eq, Bool.not_eq_true'] at enabled
    exact leafed.same settled (fork_leaves enabled.1.1) _
  | exitThread t =>
    cases exec
    exact leafed.same settled (schedExitThread_leaves x.sched t) _
  | groupCreate p shares =>
    cases exec
    have inside : p < x.sched.ngroups := of_decide_eq_true enabled
    have leaves := schedGroupCreate_leaves leafy.hier inside shares
    refine ⟨settled, ?_, fun t g moving => ?_⟩
    · rw [leaves]
      exact leafed.ok.create inside
    · exact (leafed.moving t g moving).trans (Nat.lt_succ_self _)
  | sysctl write =>
    obtain ⟨tun, _, rfl⟩ := Option.map_eq_some_iff.mp exec
    exact leafed.same settled rfl _
  | _ => exact absurd rfl quiet

/-- One step keeps the list in order if it fits. -/
theorem Leafed.step {op : LifeOp} (leafed : x.Leafed) (fits : x.fits op) (run : x.step op = some y) : y.Leafed := by
  have stands := leafed.settled.stands
  have leafy := leafed.leafy
  cases op with
  | sched op =>
    simp only [GroupLife.step] at run
    split at run
    · rename_i allowed
      obtain ⟨s, step, rfl⟩ := Option.map_eq_some_iff.mp run
      exact leafed.sched allowed fits step
    · cases run
  | relist t g =>
    simp only [GroupLife.step] at run
    split at run
    · rename_i enabled
      cases run
      have reached := ((relist_unseen x.sched t g).reaches stands.inv).reached stands
      refine ⟨⟨reached.2, leafed.settled.procs.path reached.1⟩, ?_, ?_⟩
      · rw [relist_leaves]
        exact leafed.ok
      · rintro u h moving
        cases moving
        exact enabled.2.2.1
    · cases run
  | regroup =>
    simp only [GroupLife.step] at run
    split at run
    · rename_i t g moving
      obtain ⟨present, run⟩ := Option.ite_none_right_eq_some.mp run
      obtain ⟨s, step, rfl⟩ := Option.map_eq_some_iff.mp run
      simp only [State.live, Bool.and_eq_true, decide_eq_true_eq, Bool.not_eq_true'] at present
      have below := leafed.moving t g moving
      have reached := schedGroupMove_reached stands present.1 present.2 below step
      have grown := schedGroupMove_grows leafy below (fun pss active => ?_) step
      · exact ⟨⟨reached.2, leafed.settled.procs.path reached.1⟩, grown.leafy.ok, fun u h never => by cases never⟩
      · have own : (x.sched.grp g).sfq = g := leafy.hier.groupSfq g below
        simp only [GroupLife.fits, List.all_eq_true, enters, moving, pss, active, own] at fits
        exact fits g (List.mem_singleton_self _)
    · cases run
  | destroy g =>
    simp only [GroupLife.step] at run
    split at run
    · rename_i enabled
      obtain ⟨idle, inside, _⟩ := enabled
      obtain ⟨s, step, rfl⟩ := Option.map_eq_some_iff.mp run
      have reached := ((schedGroupDestroy_unseen step).reaches stands.inv).reached stands
      obtain ⟨childless, p, parent, leaves⟩ := schedGroupDestroy_leaves leafy.hier inside step
      refine ⟨⟨reached.2, leafed.settled.procs.path reached.1⟩, ?_, fun t h moving => by simp [idle] at moving⟩
      rw [leaves]
      exact leafed.ok.destroy inside parent childless
    · cases run

theorem Leafed.boot {k : Kernel} {tun : Tunables} (start : schedSetup k tun = some s) : Leafed { sched := s } := by
  refine ⟨(schedSetup_settled k tun start).2, ?_, fun t g never => by cases never⟩
  rw [schedSetup_leaves start]
  exact boot_ok k tun

theorem Leafed.steps {ops : List LifeOp} (leafed : x.Leafed) (fit : x.allFit ops)
    (run : ops.foldlM GroupLife.step x = some y) : y.Leafed := by
  induction ops generalizing x with
  | nil =>
    cases run
    exact leafed
  | cons op rest ih =>
    rw [List.foldlM_cons] at run
    obtain ⟨a, first, later⟩ := Option.bind_eq_some_iff.mp run
    simp only [allFit, first, Bool.and_eq_true, Option.all_some] at fit
    exact ih (leafed.step fit.1 first) fit.2 later

end step

end GroupLife

/-- The steps of a run that boots all fit. -/
def lifeFits (k : Kernel) (tun : Tunables) (ops : List LifeOp) : Bool :=
  (schedSetup k tun).all fun s => ({ sched := s } : GroupLife).allFit ops

/-- In a run that puts threads only on queues that fit, the list of queues is in order in every state reached; and a queue
can be added to it there without harm exactly if it fits. -/
theorem leaf_list_order (k : Kernel) (tun : Tunables) (ops : List LifeOp) (x : GroupLife) (ran : lifeRun k tun ops = some x)
    (fit : lifeFits k tun ops) : x.sched.leaves.Ordered x.freed ∧
      ∀ q < x.sched.ngroups, (addLeafSfq x.sched q).leaves.Ordered x.freed ↔ x.sched.leaves.fits x.freed q := by
  obtain ⟨s, start, run⟩ := Option.bind_eq_some_iff.mp ran
  have fit' : ({ sched := s } : GroupLife).allFit ops := by simpa [lifeFits, start] using fit
  have leafed := (GroupLife.Leafed.boot start).steps fit' run
  have hier := leafed.leafy.hier
  refine ⟨leafed.ok.ordered, fun q inside => ?_⟩
  rw [addLeafSfq_leaves hier inside fun p parent => (leafed.ok.tree.parent_some inside parent).2.2]
  exact leafed.ok.add_iff inside

/-- Threads start in a group and then in one inside it, another runs in a group beside them and is moved to the root, and
the group it has left is destroyed. -/
def nestedLeaves : List LifeOp := [.sched (.groupCreate 0 0), .sched (.groupCreate 1 0), .sched (.groupCreate 0 0),
  .sched (.fork 0 false {}), .relist 2 1, .regroup, .sched (.add 2), .sched (.fork 0 false {}), .relist 3 2, .regroup,
  .sched (.add 3), .sched (.fork 0 true {}), .relist 4 3, .regroup, .sched (.add 4), .sched (.nice 2 5), .relist 4 0,
  .regroup, .destroy 3]

theorem leaf_list_order_nested : ∃ x, lifeRun plainKernel {} nestedLeaves = some x ∧ x.sched.leaves.list = [2, 1, 0] ∧
    x.freed = [3] ∧ x.sched.leaves.Ordered x.freed ∧ ¬(addLeafSfq x.sched 3).leaves.Ordered x.freed := by
  have facts : (lifeRun plainKernel {} nestedLeaves).map (fun x => (x.sched.leaves.list, x.freed, x.sched.ngroups,
      x.sched.leaves.fits x.freed 3)) = some ([2, 1, 0], [3], 4, false) := by
    decide +kernel
  obtain ⟨x, ran, eq⟩ := Option.map_eq_some_iff.mp facts
  simp only [Prod.mk.injEq] at eq
  obtain ⟨list, freed, ngroups, unfit⟩ := eq
  have both := leaf_list_order plainKernel {} nestedLeaves x ran (by decide +kernel)
  have again := both.2 3 (by rw [ngroups]; decide)
  rw [unfit] at again
  exact ⟨x, ran, list, freed, both.1, by simpa using again⟩

/-- A group is made in a group in which nothing has run yet, and a thread starts in the inner one:
its queue goes to the end of the list, behind the root's, and its parent's goes before the root's. -/
theorem leaf_list_out_of_order : ∃ x, lifeRun plainKernel {} [.sched (.groupCreate 0 0), .sched (.groupCreate 1 0),
    .sched (.fork 0 false {}), .relist 2 2, .regroup, .sched (.add 2)] = some x ∧ x.sched.leaves.list = [1, 0, 2] ∧
    x.sched.leaves.Ancestor 2 1 ∧ x.sched.leaves.Ancestor 2 0 ∧ ¬x.sched.leaves.Ordered x.freed := by
  have facts : (lifeRun plainKernel {} [.sched (.groupCreate 0 0), .sched (.groupCreate 1 0), .sched (.fork 0 false {}),
      .relist 2 2, .regroup, .sched (.add 2)]).map
      (fun x => (x.sched.leaves.list, x.sched.leaves.parent 2, x.sched.leaves.parent 1)) =
      some ([1, 0, 2], some 1, some 0) := by
    decide +kernel
  obtain ⟨x, ran, eq⟩ := Option.map_eq_some_iff.mp facts
  simp only [Prod.mk.injEq] at eq
  obtain ⟨list, inner, outer⟩ := eq
  have above : x.sched.leaves.Ancestor 2 0 := .tail (.single inner) outer
  refine ⟨x, ran, list, .single inner, above, fun ordered => ?_⟩
  have order := ordered.order
  rw [list] at order
  exact (List.pairwise_cons.mp (List.pairwise_cons.mp order).2).1 2 (by simp) above

end SfqSched
