import SfqSched.UserPriSched
import Mathlib.Data.List.Induction

namespace SfqSched
open State

/-- Every thread is as urgent in user mode as what was lent to it, and outside
`PRI_TIMESHARE` no more urgent than that and its own priority make it. -/
def State.lentKept (s : State) : Prop :=
  ∀ t, (s.td t).tdUserPri ≤ (s.td t).tdLendUserPri ∧
    ((s.td t).tdPriClass ≠ .timeshare →
      (s.td t).tdUserPri = min (s.td t).tdLendUserPri (s.td t).tdBaseUserPri)

/-- The same with the range of an `u_char`, and with entities in their groups. -/
structure Lent (s : State) : Prop where
  kept : s.lentKept
  range : ∀ t, (s.td t).tdLendUserPri ≤ 255
  groups : Groups s

/-- The threads `may` run, and those of them that `update_curr` resets were lent
nothing more urgent than `NORMAL_PRI`. -/
structure Guard (may : Tid → Prop) (s : State) : Prop extends Lent s where
  charged : ∀ t, s.charged t → may t
  safe : ∀ t, may t → (s.td t).tdPriClass = .timeshare → normalPri ≤ (s.td t).tdLendUserPri

/-- A lent priority survives what resets it only where it is no better than the normal one. -/
theorem Lent.writes {r : Prop} {s s' : State} (lent : Lent s) (writes : Writes r s s')
    (safe : r → ∀ t, s.charged t → (s.td t).tdPriClass = .timeshare → normalPri ≤ (s.td t).tdLendUserPri) :
    Lent s' where
  kept t := by
    obtain ⟨below, exactly⟩ := lent.kept t
    rw [writes.lend, writes.base, writes.priClass]
    rcases writes.user t with same | ⟨may, current, timeshare, normal⟩
    · rw [same]
      exact ⟨below, exactly⟩
    · rw [normal]
      exact ⟨safe may t current timeshare, fun other => absurd timeshare other⟩
  range t := by
    rw [writes.lend]
    exact lent.range t
  groups := writes.groups lent.groups

theorem Lent.of_td {s s' : State} (lent : Lent s) (td : s'.td = s.td) (groups : Groups s') : Lent s' :=
  ⟨by unfold State.lentKept; rw [td]; exact lent.kept, fun t => td ▸ lent.range t, groups⟩

namespace Guard
variable {may : Tid → Prop} {s s' : State}

/-- After writes that the guard covers, each lent priority is in effect. -/
theorem writes (guard : Guard may s) (writes : Writes True s s') : Lent s' :=
  guard.toLent.writes writes fun _ t current => guard.safe t (guard.charged t current)

/-- The guard stays when nobody starts to run. -/
theorem moves (guard : Guard may s) (moves : Moves True s s') : Guard may s' where
  toLent := guard.writes moves.toWrites
  charged t current := guard.charged t (moves.charged t current)
  safe t allowed timeshare := by
    rw [moves.lend]
    exact guard.safe t allowed ((moves.priClass t).symm.trans timeshare)

theorem charges (guard : Guard may s) (charges : Charges True s s') : Guard may s' := guard.moves charges.toMoves

/-- The guard covers the thread that starts if it was allowed to. -/
theorem starts {t : Tid} (guard : Guard may s) (starts : Starts t s s') (allowed : may t) : Guard may s' where
  toLent := guard.writes starts.writes
  charged u current := (starts.charged u current).elim (guard.charged u) fun same => same ▸ allowed
  safe u allowed timeshare := by
    rw [starts.lend]
    exact guard.safe u allowed ((starts.priClass u).symm.trans timeshare)

end Guard

/-- The operations that never reach `update_curr`. -/
def Op.chargeless : Op → Bool
  | .exitThread _ | .prio _ _ | .lendPrio _ _ | .unlendPrio _ _ | .userPrio _ _ | .lendUserPrio _ _ => true
  | .userret | .groupCreate _ _ | .sysctl _ => true
  | _ => false

/-- The operation does not meet one of the ways to lose a lent priority. It charges no running
timeshare thread that was lent one above `NORMAL_PRI`. It is no `sched_user_prio` that returns
early on another thread which runs at its old base priority. It changes no class, and copies no
thread, while the priorities do not fit the new class or the new thread. -/
def Op.spares (s : State) (op : Op) : Prop :=
  (op.chargeless = false → ∀ t, s.charged t → (s.td t).tdPriClass = .timeshare →
    normalPri ≤ (s.td t).tdLendUserPri) ∧
  match op with
  | .userPrio t pri =>
    (s.td t).tdPriClass ≠ .timeshare → pri < (s.td t).tdLendUserPri ∨ (s.td t).tdUserPri = (s.td t).tdLendUserPri
  | .schedClass t priClass =>
    (s.td t).tdPriClass ≠ priClass →
      (priClass = .timeshare → s.charged t → normalPri ≤ (s.td t).tdLendUserPri) ∧
      ((s.td t).tdPriClass = .timeshare →
        (s.td t).tdUserPri = min (s.td t).tdLendUserPri (s.td t).tdBaseUserPri ∧
        (s.charged t → min (s.td t).tdLendUserPri (s.td t).tdBaseUserPri = normalPri))
  | .fork t _ _ => (s.td t).tdPriClass ≠ .timeshare → (s.td t).tdUserPri = (s.td t).tdBaseUserPri
  | _ => True

section ops
variable {s s' : State} {t : Tid}

/-- A class change keeps lent priorities, but for a running thread that becomes timeshare. -/
theorem schedClass_lent {priClass : PriClass} (guard : Guard s.charged s)
    (fits : (s.td t).tdPriClass ≠ priClass →
      (priClass = .timeshare → s.charged t → normalPri ≤ (s.td t).tdLendUserPri) ∧
      ((s.td t).tdPriClass = .timeshare →
        (s.td t).tdUserPri = min (s.td t).tdLendUserPri (s.td t).tdBaseUserPri ∧
        (s.charged t → min (s.td t).tdLendUserPri (s.td t).tdBaseUserPri = normalPri)))
    (run : schedClass s t priClass = some s') : Lent s' := by
  have changed (cls : SchedClass) (b : State) (charges : Charges True s b)
      (other : (s.td t).tdPriClass ≠ priClass) :
      Guard s.charged (b.modTd t fun td => { td with tdPriClass := priClass, cls := cls }) := by
    have before := guard.charges charges
    refine ⟨⟨fun u => ?_, fun u => ?_, before.groups.parent, before.groups.se⟩, fun u current => ?_, fun u may => ?_⟩
    · by_cases here : u = t
      · subst here
        obtain ⟨below, exactly⟩ := before.kept u
        simp only [State.modTd, Function.update_self]
        refine ⟨below, fun _ => ?_⟩
        by_cases timeshare : (s.td u).tdPriClass = .timeshare
        · obtain ⟨fit, normal⟩ := (fits other).2 timeshare
          rw [charges.lend, charges.base]
          rcases charges.user u with same | ⟨_, current, _, reset⟩
          · rw [same, fit]
          · rw [reset, normal current]
        · exact exactly (by rw [charges.priClass]; exact timeshare)
      · simpa [State.modTd, here] using before.kept u
    · by_cases here : u = t
      · subst here
        simpa [State.modTd] using before.range u
      · simpa [State.modTd, here] using before.range u
    · refine before.charged u ?_
      rcases current with running | queue
      · refine .inl ?_
        by_cases here : u = t
        · subst here
          simpa [State.modTd] using running
        · simpa [State.modTd, here] using running
      · exact .inr queue
    · by_cases here : u = t
      · subst here
        simp only [State.modTd, Function.update_self]
        intro timeshare
        rw [charges.lend]
        exact (fits other).1 timeshare may
      · simpa [State.modTd, here] using before.safe u may
  unfold schedClass at run
  split at run
  · cases run
    exact guard.toLent
  · rename_i other
    by_cases running : (s.td t).tdState = .running
    · simp only [running, reduceCtorEq, or_true, if_true] at run
      obtain ⟨a, left, run⟩ := Option.bind_eq_some_iff.mp run
      obtain ⟨b, put, run⟩ := Option.bind_eq_some_iff.mp run
      obtain ⟨c, back, run⟩ := Option.bind_eq_some_iff.mp run
      obtain ⟨e, start, run⟩ := Option.bind_eq_some_iff.mp run
      obtain ⟨d, began, rfl⟩ := Option.map_eq_some_iff.mp start
      have recast := changed (getSchedClass s t priClass) b ((classDequeueThread_charges left).trans (classPutPrevThread_charges put)) other
      have queued := recast.charges (classEnqueueThread_charges back)
      have runs := (queued.starts (classActivateThread_starts queued.groups began) (.inl running)).starts
        (.setTdState d t .running) (.inl running)
      exact (runs.charges (checkClassChanged_charges run)).toLent
    · by_cases queued : (s.td t).tdState = .runq
      · simp only [queued, reduceCtorEq, or_false, if_true, if_false] at run
        obtain ⟨a, left, run⟩ := Option.bind_eq_some_iff.mp run
        obtain ⟨_, ⟨⟩, run⟩ := Option.bind_eq_some_iff.mp run
        obtain ⟨c, back, run⟩ := Option.bind_eq_some_iff.mp run
        obtain ⟨_, ⟨⟩, run⟩ := Option.bind_eq_some_iff.mp run
        have recast := changed (getSchedClass s t priClass) a (classDequeueThread_charges left) other
        exact ((recast.charges (classEnqueueThread_charges back)).charges (checkClassChanged_charges run)).toLent
      · simp only [running, queued, or_self, if_false] at run
        exact ((changed (getSchedClass s t priClass) s (.refl s) other).charges (checkClassChanged_charges run)).toLent

theorem schedForkInit_moves {r : Prop} (s : State) (parent child : Tid) (stale : SchedEntity) :
    Moves r s (schedForkInit s parent child stale) := by
  have sfq : (schedForkInit s parent child stale).sfq = s.sfq := rfl
  have td (u : Tid) : ∃ cls group pri, (schedForkInit s parent child stale).td u =
      { s.td u with cls := cls, group := group, tdPriority := pri } := by
    by_cases here : u = child
    · subst here
      refine ⟨(s.td parent).cls, (s.td parent).group, (s.td u).tdBasePri, ?_⟩
      simp [schedForkInit, setThreadRq, State.modEnt, State.modGrp, State.modTd]
    · exact ⟨_, _, _, by simp [schedForkInit, setThreadRq, State.modEnt, State.modGrp, State.modTd, here]; rfl⟩
  have se (g : Gid) : ((schedForkInit s parent child stale).grp g).se = (s.grp g).se := by
    by_cases here : g = (s.td parent).group
    · subst here
      simp [schedForkInit, setThreadRq, State.modEnt, State.modGrp, State.modTd]
    · simp [schedForkInit, setThreadRq, State.modEnt, State.modGrp, State.modTd, here]
  refine ⟨⟨fun e => ?_, se, ?_, ?_, ?_, ?_⟩, ?_⟩
  · by_cases here : e = .thread child
    · subst here
      refine .inr ⟨(s.td parent).group, ?_⟩
      simp [schedForkInit, setThreadRq, State.modEnt, State.modGrp, State.modTd]
    · exact .inl (by simp [schedForkInit, setThreadRq, State.modEnt, State.modGrp, State.modTd, here])
  all_goals
    intro u
    obtain ⟨_, _, _, same⟩ := td u
    simp only [State.charged, same, sfq, true_or, imp_self]

/-- The child takes over what its parent has, and does not run yet. -/
theorem schedForkThread_moves (s : State) (parent child : Tid) (stale : SchedEntity) :
    Moves True s (schedForkThread s parent child stale) := by
  have first := schedForkInit_moves (r := True) s parent child stale
  unfold schedForkThread
  dsimp only
  split
  · exact first.trans (pssForkThread_charges ..).toMoves
  · exact first.trans (Charges.emit ..).toMoves

/-- A fork leaves the lent priorities, and its child has none. -/
theorem fork_lent {newProc : Bool} {stale : SchedEntity} (guard : Guard s.charged s)
    (fits : (s.td t).tdPriClass ≠ .timeshare → (s.td t).tdUserPri = (s.td t).tdBaseUserPri) :
    Lent (fork s t newProc stale) := by
  obtain ⟨pid, td⟩ : ∃ pid, (forkAlloc s t newProc).td =
      Function.update s.td s.nthreads (forkThread (s.td t) pid) := by
    cases newProc <;> exact ⟨_, rfl⟩
  have sfq : (forkAlloc s t newProc).sfq = s.sfq := by cases newProc <;> rfl
  have groups : Groups (forkAlloc s t newProc) := by cases newProc <;> exact ⟨guard.groups.parent, guard.groups.se⟩
  have born : Guard s.charged (forkAlloc s t newProc) := by
    have parent := guard.kept t
    have range := guard.range t
    refine ⟨⟨fun u => ?_, fun u => ?_, groups⟩, fun u => ?_, fun u => ?_⟩
    · rw [td]
      by_cases here : u = s.nthreads
      · subst here
        rw [Function.update_self]
        refine ⟨Nat.le_trans parent.1 range, fun other => ?_⟩
        have same := fits other
        have below := Nat.le_trans parent.1 range
        change (s.td t).tdUserPri = min 255 (s.td t).tdBaseUserPri
        omega
      · rw [Function.update_of_ne here]
        exact guard.kept u
    · rw [td]
      by_cases here : u = s.nthreads
      · subst here
        rw [Function.update_self]
        exact Nat.le_refl _
      · rw [Function.update_of_ne here]
        exact guard.range u
    · unfold State.charged
      rw [td, sfq]
      by_cases here : u = s.nthreads
      · subst here
        rw [Function.update_self]
        rintro (running | current)
        · cases running
        · exact .inr current
      · rw [Function.update_of_ne here]
        exact id
    · rw [td]
      by_cases here : u = s.nthreads
      · subst here
        rw [Function.update_self]
        intro _ _
        change normalPri ≤ 255
        decide
      · rw [Function.update_of_ne here]
        exact guard.safe u
  exact (born.moves (schedForkThread_moves ..)).toLent

/-- A new base keeps a lent priority in effect, outside the timeshare class only if it is better or
the lent one was in use. -/
theorem userPrio_lent {p : Nat} (lent : Lent s) (fits : (s.td t).tdPriClass ≠ .timeshare →
    p < (s.td t).tdLendUserPri ∨ (s.td t).tdUserPri = (s.td t).tdLendUserPri) : Lent (schedUserPrio s t p) := by
  have groups : Groups (schedUserPrio s t p) := by
    unfold schedUserPrio
    dsimp only
    split <;> exact ⟨lent.groups.parent, lent.groups.se⟩
  refine ⟨fun u => ?_, fun u => ?_, groups⟩
  · by_cases here : u = t
    · subst here
      obtain ⟨below, exactly⟩ := lent.kept u
      unfold schedUserPrio
      simp only [State.modTd, Function.update_self]
      split
      · rename_i early
        simp only [Function.update_self]
        refine ⟨below, fun other => ?_⟩
        have fit := fits other
        omega
      · rename_i late
        simp only [Function.update_self]
        exact ⟨by omega, fun _ => by omega⟩
    · have same : (schedUserPrio s t p).td u = s.td u := by
        unfold schedUserPrio
        dsimp only
        split <;> simp [State.modTd, here]
      rw [same]
      exact lent.kept u
  · by_cases here : u = t
    · subst here
      have range := lent.range u
      unfold schedUserPrio
      simp only [State.modTd, Function.update_self]
      split <;> simpa using range
    · have same : (schedUserPrio s t p).td u = s.td u := by
        unfold schedUserPrio
        dsimp only
        split <;> simp [State.modTd, here]
      rw [same]
      exact lent.range u

/-- Lending is what puts a priority into effect. -/
theorem lendUserPrio_lent {p : Nat} (lent : Lent s) (range : p ≤ 255) (run : schedLendUserPrio s t p = some s') :
    Lent s' := by
  have first : Lent (s.modTd t fun td => { td with tdLendUserPri := p, tdUserPri := min p td.tdBaseUserPri }) := by
    refine ⟨fun u => ?_, fun u => ?_, lent.groups.parent, lent.groups.se⟩
    · by_cases here : u = t
      · subst here
        simp only [State.modTd, Function.update_self]
        exact ⟨Nat.min_le_left .., fun _ => by trivial⟩
      · simpa [State.modTd, here] using lent.kept u
    · by_cases here : u = t
      · subst here
        simpa [State.modTd] using range
      · simpa [State.modTd, here] using lent.range u
  unfold schedLendUserPrio at run
  dsimp only at run
  split at run
  · exact first.writes (schedPrio_charges (r := False) run).toWrites False.elim
  · split at run
    · cases run
      exact first.writes (reschedThread_charges (r := False) ..).toWrites False.elim
    · cases run
      exact first

theorem groupCreate_groups {parent : Gid} {shares : Nat} (groups : Groups s) :
    Groups (schedGroupCreate s parent shares) := by
  refine ⟨fun e p up => ?_, fun g p up => ?_⟩
  · simp only [schedGroupCreate, pssAllocSchedGroup, State.modGrp, State.modSfq, State.modEnt,
      Function.update_apply] at up
    split_ifs at up
    · exact groups.se _ p up
    · exact groups.parent e p up
  · simp only [schedGroupCreate, pssAllocSchedGroup, State.modGrp, State.modSfq, State.modEnt,
      Function.update_apply] at up
    split_ifs at up
    · exact ⟨_, (Option.some.inj up).symm⟩
    · exact groups.se _ p up
    · exact ⟨_, (Option.some.inj up).symm⟩
    · exact groups.se _ p up

/-- No operation that spares lent priorities loses one. -/
theorem step_lent (lent : Lent s) {op : Op} (spares : op.spares s) (run : step s op = some s') : Lent s' := by
  unfold step at run
  split at run
  · rename_i enabled
    obtain ⟨safe, fits⟩ := spares
    have still (w : Writes False s s') : Lent s' := lent.writes w False.elim
    cases op
    case exitThread t =>
      cases run
      exact still (Charges.modGrp _ _ _ rfl rfl).toWrites
    case prio t p => exact still (schedPrio_charges run).toWrites
    case lendPrio t p => exact still (schedLendPrio_charges run).toWrites
    case unlendPrio t p => exact still (schedUnlendPrio_charges run).toWrites
    case userret => exact still (schedUserret_charges run).toWrites
    case userPrio t p =>
      cases run
      exact userPrio_lent lent fits
    case lendUserPrio t p => exact lendUserPrio_lent lent (by simp [Op.enabled] at enabled; omega) run
    case groupCreate g shares =>
      cases run
      exact lent.of_td rfl (groupCreate_groups lent.groups)
    case sysctl write =>
      obtain ⟨tun, _, rfl⟩ := Option.map_eq_some_iff.mp run
      exact lent.of_td rfl ⟨lent.groups.parent, lent.groups.se⟩
    all_goals
      have guard : Guard s.charged s := ⟨lent, fun _ => id, fun t may => safe rfl t may⟩
    case add t =>
      have ready : Charges True s (setTdState s t .canRun) := setTdState_charges _ _ _ (by simp)
      exact guard.writes (ready.trans (schedAdd_charges run)).toWrites
    case switch flags => exact guard.writes (schedSwitch_writes lent.groups run).1
    case sleep flags =>
      have asleep : Charges True s (setTdState s s.curthread .inhibited) := setTdState_charges _ _ _ (by simp)
      exact guard.writes (asleep.toMoves.then_writes (schedSwitch_writes (asleep.toWrites.groups lent.groups) run).1)
    case throw => exact guard.writes (schedThrow_writes lent.groups run).1
    case schedClass t priClass => exact schedClass_lent guard fits run
    case nice p n => exact guard.writes (schedNice_charges lent.groups run).toWrites
    case groupMove t g =>
      unfold Op.exec sysctlMoveThread at run
      dsimp only at run
      split at run
      · cases run
        exact lent
      · have lists (s : State) (old : Gid) : Charges True s
            ((s.modGrp old fun sg => { sg with threads := sg.threads.filter (· ≠ t) }).modGrp g fun sg =>
              { sg with threads := sg.threads ++ [t] }) :=
          Charges.trans (.modGrp _ _ _ rfl rfl) (.modGrp _ _ _ rfl rfl)
        have first := lists s (s.td t).group
        exact guard.writes (first.toMoves.trans
          (schedGroupMove_moves (first.toWrites.groups lent.groups) run)).toWrites
    case fork t newProc stale =>
      cases run
      exact fork_lent guard fits
    case tick =>
      cases run
      exact guard.writes (schedTick_charges s).toWrites
    case setShares g shares =>
      cases run
      exact guard.writes (pssSchedGroupSetShares_charges ..).toWrites
  · cases run

end ops

section runs
variable {k : Kernel} {tun : Tunables} {s : State}

/-- At first only the first thread runs, with nothing lent. -/
theorem bootMemory_guard (k : Kernel) (tun : Tunables) : Guard (fun t => t = 0) (bootMemory k tun) := by
  refine ⟨⟨fun t => ?_, fun t => ?_, ⟨fun e p up => ?_, fun g p up => ?_⟩⟩, fun t current => ?_, fun t first _ => ?_⟩
  · simp only [bootMemory]
    split_ifs <;> simp [normalPri, puser]
  · simp only [bootMemory]
    split_ifs <;> simp
  · simp only [bootMemory] at up
    split_ifs at up
  · simp only [bootMemory] at up
    split_ifs at up
  · rcases current with running | ⟨q, current⟩
    · simp only [bootMemory] at running
      split_ifs at running
    · cases current
  · subst first
    change normalPri ≤ 255
    decide

theorem schedSetup_guard (run : schedSetup k tun = some s) : Guard (fun t => t = 0) s := by
  unfold schedSetup at run
  obtain ⟨a, queue, start⟩ := Option.bind_eq_some_iff.mp run
  have ready := ((bootMemory_guard k tun).charges (setThreadWeight_charges _ 0)).moves (setThreadRq_moves _ 0)
  have queued := ready.charges (enqueueThread_charges queue)
  exact queued.starts (classActivateThread_starts queued.groups start) rfl

/-- In a run whose every operation spares lent priorities none is lost. -/
theorem lent_user_pri_kept (k : Kernel) (tun : Tunables) (ops : List Op) (s : State)
    (ran : run k tun ops = some s)
    (spares : ∀ before op after, ops = before ++ op :: after → ∀ a, run k tun before = some a → op.spares a) :
    s.lentKept := by
  have all : Lent s := by
    induction ops using List.reverseRecOn generalizing s with
    | nil =>
      obtain ⟨a, boot, same⟩ := Option.bind_eq_some_iff.mp ran
      cases same
      exact (schedSetup_guard boot).toLent
    | append_singleton before op ih =>
      obtain ⟨a, boot, steps⟩ := Option.bind_eq_some_iff.mp ran
      rw [runFrom, List.foldlM_append] at steps
      obtain ⟨b, earlier, last⟩ := Option.bind_eq_some_iff.mp steps
      have ran' : run k tun before = some b := Option.bind_eq_some_iff.mpr ⟨a, boot, earlier⟩
      have kept := ih b ran' fun front op' back same a ran => spares front op' (back ++ [op]) (by simp [same]) a ran
      have step : step b op = some s := by simpa using last
      exact step_lent kept (spares before op [] rfl b ran') step
  exact all.kept

end runs

/-- The first thread is lent priority 100 and runs until the next tick. -/
def lentTick : List Op := [.lendUserPrio 0 100, .tick]

/-- `update_curr` gives up what was lent. -/
theorem lent_user_pri_lost :
    ¬ ∀ (k : Kernel) (tun : Tunables) (ops : List Op) (s : State), run k tun ops = some s →
      ∀ t, (s.td t).tdUserPri ≤ (s.td t).tdLendUserPri := by
  intro claimed
  have result : (run plainKernel {} lentTick).map (fun s => ((s.td 0).tdUserPri, (s.td 0).tdLendUserPri)) =
      some (121, 100) := by decide +kernel
  obtain ⟨s, ran, values⟩ := Option.map_eq_some_iff.mp result
  have below := claimed _ _ _ s ran 0
  rw [Prod.mk.injEq] at values
  rw [values.1, values.2] at below
  exact absurd below (by decide)

theorem lent_user_pri_kept_idle :
    ∃ s, run plainKernel {} [.tick, .lendUserPrio 1 100] = some s ∧ s.lentKept := by
  have ends : (run plainKernel {} [.tick, .lendUserPrio 1 100]).isSome := by decide +kernel
  obtain ⟨s, ran⟩ := Option.isSome_iff_exists.mp ends
  refine ⟨s, ran, lent_user_pri_kept _ _ _ s ran fun before op after same a ran => ?_⟩
  match before, same with
  | [], same =>
    cases same
    obtain ⟨b, boot, stays⟩ := Option.bind_eq_some_iff.mp ran
    cases stays
    have guard := schedSetup_guard boot
    exact ⟨fun _ t current => guard.safe t (guard.charged t current), trivial⟩
  | [_], same =>
    cases same
    exact ⟨fun charging => absurd charging (by decide), trivial⟩
  | _ :: _ :: front, same =>
    have length := congrArg List.length same
    simp at length

end SfqSched
