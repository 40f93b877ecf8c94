import SfqSched.ForkSteps
import Mathlib.Data.List.Induction

namespace SfqSched
open State Function

/-- What holds between any two operations. -/
structure Settled (C : Conds) (s : State) : Prop where
  stands : Stands C s (some s.curthread)
  procs : Procs s

/-- What an operation has to keep to, so that a run keeps to `C`. -/
def Op.meets (C : Conds) (s : State) : Op → Prop
  | .schedClass t priClass =>
    ((s.td t).tdPriClass ≠ priClass → IdlenessKept C s t priClass (getSchedClass s t priClass)) ∧
      (C.positive → C.marks → s.view.resting t → s.view.initial (.thread t) → s.view.cls t ≠ .pss →
        getSchedClass s t priClass = .pss →
        ∀ e, preemptMark (storeClass s t priClass .pss) t = some e → s.view.joined e)
  | .fork p newProc stale => C.forks → ¬forkSwapsQueued s p newProc stale
  | .setShares g shares =>
    (C.positive → g ≠ 0 → shares ≠ 0) ∧
      (C.calm → s.view.joined (.group g) → shares ≠ 0 ∧ clampShares shares = s.view.shares g)
  | .nice _ _ => ¬C.steady
  | _ => True

section step
variable {C : Conds} {s s' : State} {t : Tid}

/-- A thread the idle thread is not is in a class of its own. -/
theorem Settled.busyClass (settled : Settled C s) (inside : t < s.view.nthreads) (live : s.view.exited t = false)
    (notIdle : s.view.idleTd t = false) : s.view.cls t ≠ .idle ∧ t ≠ 1 := by
  have idleTd : s.view.idleTd 1 = true := settled.stands.roster.idle.2.2.2
  have other : t ≠ 1 := by
    rintro rfl
    exact Bool.noConfusion (idleTd.symm.trans notIdle)
  exact ⟨fun idle => other ((settled.stands.roster.live t inside live).only idle), other⟩

theorem step_reached (settled : Settled C s) {op : Op} (meets : op.meets C s) (run : step s op = some s') :
    Reached C s s' := by
  have stands := settled.stands
  have live (t : Tid) (there : s.live t) : t < s.view.nthreads ∧ s.view.exited t = false := by
    unfold State.live at there
    simp only [Bool.and_eq_true, Bool.not_eq_true'] at there
    exact ⟨of_decide_eq_true there.1, there.2⟩
  have member (t : Tid) (there : s.live t) (other : s.view.cls t ≠ .idle) (runq : s.view.tdState t = .runq) :
      s.view.joined (.thread t) :=
    ((stands.roster.live t (live t there).1 (live t there).2).joined other).mpr (.inl runq)
  obtain ⟨inside, alive⟩ := stands.roster.current s.curthread rfl
  unfold step at run
  split at run
  · rename_i enabled
    cases op with
    | add t =>
      simp only [Op.enabled, Bool.and_eq_true, decide_eq_true_eq] at enabled
      obtain ⟨⟨⟨there, notIdle⟩, notRunq⟩, notRunning⟩ := enabled
      have other : t ≠ 1 := by
        have one : s.idlethread = 1 := stands.roster.idle.1
        rw [← one]
        exact notIdle
      exact schedAdd_reached stands (live t there).1 (live t there).2 other ⟨notRunq, notRunning⟩ run
    | switch flags => exact schedSwitch_running stands run
    | sleep flags =>
      have notIdle : s.view.idleTd s.curthread = false := by simpa [Op.enabled] using enabled
      exact schedSwitch_sleeping stands (settled.busyClass inside alive notIdle).1 run
    | throw =>
      have notIdle : s.view.idleTd s.curthread = false := by simpa [Op.enabled] using enabled
      obtain ⟨other, apart⟩ := settled.busyClass inside alive notIdle
      exact schedThrow_reached stands other apart run
    | schedClass t priClass =>
      have there := live t enabled
      exact schedClass_reached stands there.1 there.2 meets.1 meets.2 run
    | nice p n =>
      simp only [Op.enabled, Bool.and_eq_true, decide_eq_true_eq] at enabled
      exact (schedNice_reached stands settled.procs meets ⟨enabled.1.2, enabled.2⟩ run).1
    | groupMove t g =>
      simp only [Op.enabled, Bool.and_eq_true, decide_eq_true_eq] at enabled
      exact sysctlMoveThread_reached stands (live t enabled.1).1 (live t enabled.1).2 enabled.2 run
    | fork p newProc stale =>
      simp only [Op.enabled, Bool.and_eq_true, Bool.not_eq_true'] at enabled
      cases run
      exact fork_reached stands (live p enabled.1).1 (live p enabled.1).2 enabled.2 meets
    | exitThread t =>
      cases run
      exact schedExitThread_reached stands t
    | tick =>
      cases run
      exact (schedTick_reaches stands.inv stands.busy).reached stands
    | prio t p =>
      simp only [Op.enabled, Bool.and_eq_true, decide_eq_true_eq] at enabled
      exact (schedPrio_reaches stands.inv (member t enabled.1) run).reached stands
    | lendPrio t p =>
      simp only [Op.enabled, Bool.and_eq_true, decide_eq_true_eq] at enabled
      exact (schedLendPrio_reaches stands.inv (member t enabled.1) run).reached stands
    | unlendPrio t p =>
      simp only [Op.enabled, Bool.and_eq_true, decide_eq_true_eq] at enabled
      exact (schedUnlendPrio_reaches stands.inv (member t enabled.1) run).reached stands
    | userPrio t p =>
      cases run
      exact ((schedUserPrio_unseen s t p).reaches stands.inv).reached stands
    | lendUserPrio t p =>
      simp only [Op.enabled, Bool.and_eq_true, decide_eq_true_eq] at enabled
      exact (schedLendUserPrio_reaches stands.inv (member t enabled.1) run).reached stands
    | userret =>
      exact ((schedUserret_unseen run).reaches stands.inv).reached stands
    | setShares g shares =>
      cases run
      exact setShares_reached stands (of_decide_eq_true enabled) meets.1 meets.2
    | groupCreate g shares =>
      cases run
      exact schedGroupCreate_reached stands (of_decide_eq_true enabled)
    | sysctl write =>
      obtain ⟨tun, new, rfl⟩ := Option.map_eq_some_iff.mp run
      exact sysctl_reached stands new
  · cases run

theorem step_settled (settled : Settled C s) {op : Op} (meets : op.meets C s) (run : step s op = some s') :
    Settled C s' := by
  have reached := step_reached settled meets run
  exact ⟨reached.2, settled.procs.path reached.1⟩

end step

section boot
variable (k : Kernel) (tun : Tunables)

/-- Memory as `sched_setup` enqueues thread `0`. -/
def bootQueues : State := setThreadRq (setThreadWeight (bootMemory k tun) 0) 0

theorem bootQueues_ent (e : EntId) :
    (bootQueues k tun).ent e =
      if e = .thread 0 then { load := threadLoad 0 .timeshare }
      else if e = .thread 1 then { initial := true, load := threadLoad 0 .timeshare } else {} := by
  unfold bootQueues setThreadRq setThreadWeight bootMemory
  by_cases zero : e = .thread 0
  · simp [State.modEnt, zero]
  · by_cases one : e = .thread 1
    · simp [State.modEnt, one]
    · simp [State.modEnt, zero, one]

/-- No entity is anywhere yet. -/
theorem bootQueues_bare (e : EntId) :
    (bootQueues k tun).view.joined e = false ∧ (bootQueues k tun).view.onSfq e = false ∧
      (bootQueues k tun).view.onRunq e = false ∧ (bootQueues k tun).view.parent e = none ∧
      (bootQueues k tun).view.sfq e = 0 ∧ (bootQueues k tun).view.myQ e = none := by
  simp only [State.view, bootQueues_ent]
  split_ifs <;> exact ⟨rfl, rfl, rfl, rfl, rfl, rfl⟩

theorem bootQueues_inv (C : Conds) : Inv C (bootQueues k tun) [] none := by
  have bare := bootQueues_bare k tun
  have apart (e : EntId) (there : (bootQueues k tun).view.joined e) : False :=
    Bool.noConfusion ((bare e).1.symm.trans there)
  have first {g : Nat} (below : g < (bootQueues k tun).view.ngroups) : g = 0 := Nat.lt_one_iff.mp below
  refine ⟨?_, fun _ => ?_, fun g pos below => absurd (first below) pos.ne'⟩
  · exact {
      hier := {
        positive := Nat.one_pos
        groupSe := fun g below => by
          cases first below
          rfl
        groupSfq := fun g below => by
          cases first below
          rfl
        owner := fun g below => by
          cases first below
          rfl
        threadQ := fun t => (bare _).2.2.2.2.2
        groupQ := fun g pos below => absurd (first below) pos.ne'
        lower := fun g => by
          rw [(bare _).2.2.2.2.1]
          exact Nat.zero_le _
        inside := fun e => by
          rw [(bare e).2.2.2.2.1]
          exact Nat.one_pos
        link := fun e => by
          rw [(bare e).2.2.2.2.1]
          exact (bare e).2.2.2.1
        tdGroup := fun t => by
          have root : (bootQueues k tun).view.tdGroup t = 0 := by
            simp only [State.view, bootQueues, setThreadRq, setThreadWeight, bootMemory, State.modEnt]
            split_ifs <;> rfl
          rw [root]
          exact Nat.one_pos }
      valid := fun e there => (apart e there).elim
      member := fun q e there => (Multiset.notMem_zero e there).elim
      nodup := fun q => Multiset.nodup_zero
      onSfq := fun e => iff_of_false (by simp [(bare e).2.1]) (Multiset.notMem_zero e)
      covered := fun e there => (apart e there).elim
      curr := fun q e => by
        have none_there : (bootQueues k tun).view.curr q = none := rfl
        simp [none_there]
      currPss := fun q e there => by cases there
      realtime := fun t there => by
        obtain ⟨x, member, _⟩ := there
        cases member
      onRunq := fun e there => Bool.noConfusion ((bare e).2.2.1.symm.trans there)
      accounts := fun q => ⟨∅, fun e => iff_of_false (Finset.notMem_empty e) fun both => apart e both.1, rfl, rfl⟩
      rqWeight := rfl
      threadWeight := fun t below => by
        have load : (bootQueues k tun).view.weight (.thread t) = (threadLoad 0 .timeshare).weight := by
          simp only [State.view, bootQueues_ent]
          have two : t = 0 ∨ t = 1 := by
            have below' : t < 2 := below
            omega
          rcases two with rfl | rfl <;> simp
        rw [load]
        decide }
  · exact {
      shares := fun g pos below => absurd (first below) pos.ne'
      weight := fun e there => (apart e there).elim
      groups := fun g pos below => absurd (first below) pos.ne'
      apart := fun q e there => by cases there }

theorem bootQueues_ok : (bootQueues k tun).view.roster.Ok none := by
  have bare (t : Tid) : (bootQueues k tun).view.roster.joined t = false := (bootQueues_bare k tun (.thread t)).1
  have td : (bootQueues k tun).td = (bootMemory k tun).td := rfl
  refine ⟨⟨∅, fun t => iff_of_false (Finset.notMem_empty t) (by simp [bare]), rfl, rfl⟩, fun t below _ => ?_,
    fun t _ _ => bare t, fun t above => ?_, fun t never => (Option.some_ne_none t never.symm).elim, ?_⟩
  · have two : t = 0 ∨ t = 1 := by
      have below' : t < 2 := below
      omega
    rcases two with rfl | rfl
    · have state : (bootQueues k tun).view.roster.tdState 0 = .canRun := rfl
      have cls : (bootQueues k tun).view.roster.cls 0 = .pss := rfl
      have idleTd : (bootQueues k tun).view.roster.idleTd 0 = false := rfl
      constructor <;> simp [bare, state, cls, idleTd]
    · have state : (bootQueues k tun).view.roster.tdState 1 = .canRun := rfl
      have cls : (bootQueues k tun).view.roster.cls 1 = .idle := rfl
      constructor <;> simp [bare, state, cls]
  · have above' : 2 ≤ t := above
    have zero : t ≠ 0 := by omega
    have one : t ≠ 1 := by omega
    have blank : (bootQueues k tun).td t = {} := by
      rw [td]
      simp [bootMemory, zero, one]
    exact ⟨bare t, congrArg Thread.cls blank, congrArg Thread.exited blank⟩
  · exact ⟨rfl, Nat.one_lt_two, rfl, rfl⟩

theorem bootQueues_procs : Procs (bootQueues k tun) := by
  have proc : (bootQueues k tun).proc = (bootMemory k tun).proc := rfl
  have td : (bootQueues k tun).td = (bootMemory k tun).td := rfl
  have nthreads : (bootQueues k tun).nthreads = 2 := rfl
  refine ⟨fun p => ?_, fun p t listed => ?_⟩
  · rw [proc]
    simp only [bootMemory]
    split_ifs <;> decide
  · rw [proc] at listed
    rw [td, nthreads]
    simp only [bootMemory] at listed ⊢
    split_ifs at listed with zero one
    · cases List.mem_singleton.mp listed
      simp [zero]
    · cases List.mem_singleton.mp listed
      simp [one]
    · cases listed

/-- The state `sched_setup` leaves, after steps that keep the invariant. -/
theorem schedSetup_settled {C : Conds} {s : State} (boot : schedSetup k tun = some s) :
    Path C (bootQueues k tun) s ∧ Settled C s := by
  unfold schedSetup at boot
  obtain ⟨a, enq, act⟩ := Option.bind_eq_some_iff.mp boot
  change enqueueThread (bootQueues k tun) 0 0 = some a at enq
  have inv := bootQueues_inv k tun C
  have ok := bootQueues_ok k tun
  have busy : Busy (bootQueues k tun) [] := .inl rfl
  have first := updateRqClock_reaches inv busy
  have inside : 0 < (bootQueues k tun).view.nthreads := Nat.two_pos
  have second := classEnqueueThread_reaches first.inv (busy.time inv) inside (bootQueues_bare k tun (.thread 0)).1
    (fun _ isForked => absurd isForked (by unfold forked; decide)) enq
  have both := first.trans second
  have fits := ok.live 0 inside rfl
  have other : (bootQueues k tun).view.roster.cls 0 ≠ .idle := SchedClass.noConfusion
  have attached : a.view.roster = (bootQueues k tun).view.roster.attach 0 := both.roster
  have state : (bootQueues k tun).view.roster.setState 0 .canRun = (bootQueues k tun).view.roster := by
    unfold Roster.setState
    rw [show (.canRun : TdState) = (bootQueues k tun).view.roster.tdState 0 from rfl, update_eq_self]
  have started : (bootQueues k tun).view.roster.start 0 = (bootQueues k tun).view.roster := by
    unfold Roster.start
    have old : (bootQueues k tun).view.roster.initial 0 = false := by
      simp only [View.roster, State.view, bootQueues_ent]
      rfl
    rw [← old, update_eq_self]
  have ok' : a.view.roster.Ok none := by
    have added := ok.add inside rfl other (by rintro (never | never) <;> cases never)
    rw [state, started, ← attached] at added
    exact added
  obtain ⟨third, joined⟩ := classActivateThread_reaches both.inv act
  have roster : s.view.roster = { a.view.roster.setState 0 .running with curthread := 0 } := by
    rw [third.roster, attached]
    rfl
  have current : s.curthread = 0 := by
    have same := congrArg Roster.curthread roster
    exact same
  have inside' : 0 < a.view.roster.nthreads := by
    rw [attached]
    exact inside
  have live' : a.view.roster.exited 0 = false := by
    rw [attached]
    rfl
  refine ⟨both.path.trans third.path, ⟨?_, ?_⟩, (bootQueues_procs k tun).path (both.path.trans third.path)⟩
  · have chain : currentOn s (some 0) = cpuChain a 0 := by
      refine currentOn_congr (c := some 0) third.frame fun u _ => ?_
      exact congrFun (congrArg Roster.cls third.roster) u
    rw [current, chain]
    exact third.inv
  · rw [current]
    exact ok'.dispatch inside' live' joined roster

end boot

section runs
variable {C : Conds} {k : Kernel} {tun : Tunables} {s : State}

/-- A run each operation of which keeps to `C`. -/
inductive Runs (C : Conds) (k : Kernel) (tun : Tunables) : List Op → State → Prop
  | boot {s : State} : schedSetup k tun = some s → Runs C k tun [] s
  | op {ops : List Op} {s s' : State} {op : Op} :
      Runs C k tun ops s → op.meets C s → step s op = some s' → Runs C k tun (ops ++ [op]) s'

theorem Runs.settled {ops : List Op} (runs : Runs C k tun ops s) : Settled C s := by
  induction runs with
  | boot start => exact (schedSetup_settled k tun start).2
  | op _ meets step ih => exact step_settled ih meets step

/-- The steps of all operations of a run. -/
theorem Runs.path {ops : List Op} (runs : Runs C k tun ops s) : Path C (bootQueues k tun) s := by
  induction runs with
  | boot start => exact (schedSetup_settled k tun start).1
  | op before meets step ih => exact ih.trans (step_reached before.settled meets step).1

/-- Every run is one of these, if every operation in it meets the conditions where it is performed. -/
theorem run_runs (ops : List Op) (ran : run k tun ops = some s)
    (meets : ∀ before op after a, ops = before ++ op :: after → run k tun before = some a → op.meets C a) :
    Runs C k tun ops s := by
  induction ops using List.reverseRecOn generalizing s with
  | nil =>
    obtain ⟨a, boot, same⟩ := Option.bind_eq_some_iff.mp ran
    cases same
    exact .boot boot
  | append_singleton before op ih =>
    obtain ⟨a, boot, steps⟩ := Option.bind_eq_some_iff.mp ran
    rw [runFrom, List.foldlM_append] at steps
    obtain ⟨b, earlier, last⟩ := Option.bind_eq_some_iff.mp steps
    have ran' : run k tun before = some b := Option.bind_eq_some_iff.mpr ⟨a, boot, earlier⟩
    have step : step b op = some s := by simpa using last
    refine .op (ih ran' fun front o after c split there => ?_) (meets before op [] b rfl ran') step
    exact meets front o (after ++ [op]) c (by rw [split]; simp) there

end runs
end SfqSched
