import SfqSched.Weights

namespace SfqSched
open State Function

theorem prioToWmult_pos : ∀ i, i < 41 → 0 < prioToWmult.getD i 0 := by decide

/-- The inverse weight that belongs to a nice value is never the one that stands for none. -/
theorem threadLoad_inv {nice : Int} (range : prioMin ≤ nice ∧ nice ≤ prioMax) (priClass : PriClass) :
    (threadLoad nice priClass).invWeight ≠ 0 := by
  unfold threadLoad
  split
  · refine (prioToWmult_pos _ ?_).ne'
    unfold prioMin prioMax at *
    omega
  · decide

theorem threadLoad_congr {nice : Int} {a b : PriClass} (same : a = .idle ↔ b = .idle) :
    threadLoad nice a = threadLoad nice b := by
  unfold threadLoad
  by_cases idle : a = .idle
  · rw [if_neg (by simpa using idle), if_neg (by simpa using same.mp idle)]
  · rw [if_pos idle, if_pos fun other => idle (same.mpr other)]

/-- Live threads have the load `set_thread_weight` would give them, but for those it is due for. -/
def State.Weighed (s : State) (due : Tid → Prop) : Prop :=
  ∀ t, t < s.nthreads → (s.td t).exited = false → (s.td t).cls ≠ .idle → ¬due t → (s.ent (.thread t)).load = niceLoad s t

/-- Every thread belongs to a process, which lists it as long as it lives. -/
structure State.Housed (s : State) : Prop where
  pid : ∀ t, t < s.nthreads → (s.td t).proc < s.nprocs
  listed : ∀ t, t < s.nthreads → (s.td t).exited = false → t ∈ (s.proc (s.td t).proc).threads

/-- Either nothing is due, or it is for every thread to come. -/
def State.Owes (s : State) (due : Tid → Prop) : Prop := (∀ t, ¬due t) ∨ ∀ t, s.nthreads ≤ t → due t

section weighed
variable {C : Conds} {s s' : State} {L : List EntId} {d : Option EntId} {due : Tid → Prop}

theorem State.Weighed.steady (weighed : s.Weighed due) (range : ∀ p, prioMin ≤ (s.proc p).nice ∧ (s.proc p).nice ≤ prioMax)
    (steady : Steady s s') (cls : ∀ t, (s'.td t).cls = (s.td t).cls) : s'.Weighed due := by
  intro t below live other paid
  rw [steady.nthreads] at below
  rw [steady.exited] at live
  rw [cls] at other
  have old := weighed t below live other paid
  have set : (s.ent (.thread t)).load.invWeight ≠ 0 := by
    rw [old]
    exact threadLoad_inv (range _) _
  rw [steady.load t set, old, niceLoad, niceLoad, steady.proc, steady.pid, steady.priClass]

theorem State.Weighed.mono {due' : Tid → Prop} (weighed : s.Weighed due) (more : ∀ t, due t → due' t) : s.Weighed due' :=
  fun t below live other paid => weighed t below live other fun owed => paid (more t owed)

theorem Flow.cls (inv : Inv C s L d) (step : Flow C s s') : s'.view.cls = s.view.cls := by
  have hier := inv.core.hier
  cases step with
  | quiet same => exact same.cls
  | clock run =>
    rw [run]
    rfl
  | charge q run => rw [run, updateCurr_view]
  | reshare q inside run => rw [run, updateSfqShares_view, View.reshare_cls]
  | enqueue e flags run =>
    obtain ⟨_, _, look⟩ := enqueueEntity_view hier run
    rw [look]
    exact View.reshare_cls ..
  | start t flags initial run =>
    have look : (updateRqClock (s.modEnt (.thread t) fun se => { se with initial := false })).view =
        { s.view with initial := update s.view.initial (.thread t) false } := by
      change (s.modEnt (.thread t) fun se => { se with initial := false }).view = _
      rw [view_modEnt]
      simp
    have hier' : (updateRqClock (s.modEnt (.thread t) fun se => { se with initial := false })).view.Hier := by
      rw [look]
      exact { hier with }
    obtain ⟨_, _, look'⟩ := enqueueEntity_view hier' run
    rw [look']
    refine (View.reshare_cls ..).trans ?_
    rw [look]
    rfl
  | dequeue e flags run seated =>
    rw [dequeueEntity_view inv.core run seated.1]
    exact View.reshare_cls ..
  | putPrev t flags run =>
    obtain ⟨a, walk, rfl⟩ := Option.map_eq_some_iff.mp run
    exact (pssPutPrevWalk_even hier walk).cls
  | activate t run =>
    obtain ⟨a, walk, rfl⟩ := Option.map_eq_some_iff.mp run
    rw [view_emit, setTdState_view]
    exact (pssActivateWalk_even walk).cls
  | mark ok view => rw [view]
  | uncount t run =>
    unfold rqRunRem at run
    split at run
    · cases run
    · cases run
      split <;> rfl
  | choose run =>
    rw [run]
    rfl
  | pick q e run => rw [pickNextEntity_view run]
  | rtActivate t run => rw [(rtActivateThread_spec run).2.1]; rfl

/-- A change of class that is none between `PRI_IDLE` and the others changes no weight. -/
theorem storeClass_weighed {t : Tid} {priClass : PriClass} {cls : SchedClass} (weighed : s.Weighed due)
    (idleness : IdlenessKept C s t priClass cls) (asked : C.idleness) : (storeClass s t priClass cls).Weighed due := by
  intro u below live other paid
  by_cases here : u = t
  · subst here
    have now : ((storeClass s u priClass cls).td u) = { s.td u with tdPriClass := priClass, cls := cls } := update_self ..
    rw [now] at live other
    obtain ⟨old, same⟩ := (idleness asked).resolve_left other
    rw [niceLoad, now, ← threadLoad_congr same]
    exact weighed u below live old paid
  · have same : (storeClass s t priClass cls).td u = s.td u := update_of_ne here ..
    rw [same] at live other
    rw [niceLoad, same]
    exact weighed u below live other paid

/-- `set_thread_weight` is what is due. -/
theorem setThreadWeight_weighed (t : Tid) (weighed : s.Weighed due) :
    (setThreadWeight s t).Weighed fun u => due u ∧ u ≠ t := by
  intro u below live other paid
  by_cases here : u = t
  · subst here
    simp only [setThreadWeight, niceLoad, State.modEnt, update_self]
  · have same : (setThreadWeight s t).ent (.thread u) = s.ent (.thread u) :=
      update_of_ne (fun eq => here (EntId.thread.inj eq)) ..
    rw [same]
    exact weighed u below live other fun owed => paid ⟨owed, here⟩

section fork
variable {p : Tid} (newProc : Bool) (stale : SchedEntity)

/-- The process a forked thread belongs to. -/
def forkPid (s : State) (p : Tid) (newProc : Bool) : Pid := if newProc then s.nprocs else (s.td p).proc

theorem forkInit_beside {t : Tid} (other : t ≠ s.nthreads) :
    (schedForkInit (forkAlloc s p newProc) p s.nthreads stale).td t = s.td t ∧
      (schedForkInit (forkAlloc s p newProc) p s.nthreads stale).ent (.thread t) = s.ent (.thread t) := by
  have apart : EntId.thread t ≠ .thread s.nthreads := fun eq => other (EntId.thread.inj eq)
  constructor
  · cases newProc <;> exact (update_of_ne other ..).trans (update_of_ne other ..)
  · cases newProc <;> exact (update_of_ne apart ..).trans (update_of_ne apart ..)

theorem forkInit_child (inside : p < s.nthreads) :
    ((schedForkInit (forkAlloc s p newProc) p s.nthreads stale).td s.nthreads).cls = (s.td p).cls ∧
      ((schedForkInit (forkAlloc s p newProc) p s.nthreads stale).td s.nthreads).tdPriClass = (s.td p).tdPriClass ∧
      ((schedForkInit (forkAlloc s p newProc) p s.nthreads stale).td s.nthreads).proc = forkPid s p newProc ∧
      ((schedForkInit (forkAlloc s p newProc) p s.nthreads stale).ent (.thread s.nthreads)).load =
        (s.ent (.thread p)).load := by
  cases newProc <;>
    simp only [schedForkInit, setThreadRq, forkAlloc, forkThread, forkPid, State.modEnt, State.modTd, State.modGrp,
      State.modProc, update_self, update_of_ne inside.ne, if_true, if_false, Bool.false_eq_true, and_self]

theorem forkInit_nice (q : Pid) :
    ((schedForkInit (forkAlloc s p newProc) p s.nthreads stale).proc q).nice =
      if q = forkPid s p newProc then (s.proc (s.td p).proc).nice else (s.proc q).nice := by
  by_cases here : q = forkPid s p newProc
  · subst here
    rw [if_pos rfl]
    cases newProc <;>
      simp only [schedForkInit, setThreadRq, forkAlloc, forkPid, State.modEnt, State.modTd, State.modGrp, State.modProc,
        update_self, if_true, if_false, Bool.false_eq_true]
  · rw [if_neg here]
    cases newProc <;>
      simp only [forkPid, if_true, if_false, Bool.false_eq_true] at here <;>
      simp only [schedForkInit, setThreadRq, forkAlloc, State.modEnt, State.modTd, State.modGrp, State.modProc,
        update_of_ne here, if_true, if_false, Bool.false_eq_true]

/-- A child starts with the load of its parent, in a process of the same nice value. -/
theorem fork_weighed (weighed : s.Weighed due) (owes : s.Owes due) (procs : Procs s) (housed : s.Housed)
    (inside : p < s.nthreads) (live : (s.td p).exited = false) : (fork s p newProc stale).Weighed due := by
  have nice := forkInit_nice (s := s) (p := p) newProc stale
  have inherited (q : Pid) (same : q = forkPid s p newProc → (s.proc q).nice = (s.proc (s.td p).proc).nice) :
      ((schedForkInit (forkAlloc s p newProc) p s.nthreads stale).proc q).nice = (s.proc q).nice := by
    rw [nice]
    split
    · rename_i here
      exact (same here).symm
    · rfl
  have born : (schedForkInit (forkAlloc s p newProc) p s.nthreads stale).Weighed due := by
    intro t below alive other paid
    have below' : t < s.nthreads + 1 := by
      cases newProc <;> exact below
    by_cases new : t = s.nthreads
    · subst new
      obtain ⟨cls, priClass, proc, load⟩ := forkInit_child (s := s) newProc stale inside
      have free : ∀ t, ¬due t := owes.resolve_right fun all => paid (all _ le_rfl)
      rw [cls] at other
      rw [load, weighed p inside live other (free p), niceLoad, niceLoad, priClass, proc, nice, if_pos rfl]
    · obtain ⟨td, ent⟩ := forkInit_beside (s := s) (p := p) newProc stale new
      have old : t < s.nthreads := by omega
      rw [td] at alive other
      rw [ent, weighed t old alive other paid, niceLoad, niceLoad, td, inherited]
      intro here
      cases newProc with
      | true => exact absurd here (housed.pid t old).ne
      | false =>
        have same : (s.td t).proc = (s.td p).proc := here
        rw [same]
  have range (q : Pid) : prioMin ≤ ((schedForkInit (forkAlloc s p newProc) p s.nthreads stale).proc q).nice ∧
      ((schedForkInit (forkAlloc s p newProc) p s.nthreads stale).proc q).nice ≤ prioMax := by
    rw [nice]
    split
    · exact procs.nice _
    · exact procs.nice q
  unfold fork schedForkThread
  dsimp only
  split
  · refine born.steady range (pssForkThread_steady ..) fun u => ?_
    exact congrFun (congrArg View.cls (pssForkThread_view ..)) u
  · exact born.steady range (.emit ..) fun _ => rfl

end fork

theorem State.Housed.staffed (housed : s.Housed) (staffed : Staffed s s') (nprocs : s'.nprocs = s.nprocs) : s'.Housed where
  pid t below := by
    rw [staffed.nthreads] at below
    rw [staffed.pid, nprocs]
    exact housed.pid t below
  listed t below live := by
    rw [staffed.nthreads] at below
    rw [staffed.exited] at live
    rw [staffed.proc, staffed.pid]
    exact housed.listed t below live

theorem State.Housed.steady (housed : s.Housed) (steady : Steady s s') : s'.Housed :=
  housed.staffed steady.staffed steady.nprocs

/-- A store to a process that takes no one off its list. -/
theorem State.Housed.modProc (housed : s.Housed) (p : Pid) (f : Proc → Proc)
    (keeps : ∀ t, t < s.nthreads → (s.td t).exited = false → t ∈ (s.proc p).threads → t ∈ (f (s.proc p)).threads) :
    (s.modProc p f).Housed where
  pid := housed.pid
  listed t below live := by
    have old := housed.listed t below live
    change t ∈ (update s.proc p (f (s.proc p)) (s.td t).proc).threads
    by_cases here : (s.td t).proc = p
    · rw [here] at old ⊢
      rw [update_self]
      exact keeps t below live old
    · rw [update_of_ne here]
      exact old

theorem fork_housed {p : Tid} {newProc : Bool} {stale : SchedEntity} (housed : s.Housed) (inside : p < s.nthreads) :
    (fork s p newProc stale).Housed := by
  have alloc : (forkAlloc s p newProc).Housed := by
    have nthreads : (forkAlloc s p newProc).nthreads = s.nthreads + 1 := by cases newProc <;> rfl
    have old {t : Tid} (other : t ≠ s.nthreads) : (forkAlloc s p newProc).td t = s.td t := by
      cases newProc <;> exact update_of_ne other ..
    have child : ((forkAlloc s p newProc).td s.nthreads).proc = forkPid s p newProc := by
      cases newProc <;> simp only [forkAlloc, forkThread, forkPid, State.modTd, update_self, if_true, if_false, Bool.false_eq_true]
    have procs : (forkAlloc s p newProc).proc = update s.proc (forkPid s p newProc)
        { (if newProc then { nice := (s.proc (s.td p).proc).nice } else s.proc (s.td p).proc : Proc) with
          threads := (if newProc then [] else (s.proc (s.td p).proc).threads) ++ [s.nthreads] } := by
      cases newProc <;>
        simp only [forkAlloc, forkPid, State.modTd, State.modProc, update_self, update_idem, if_true, if_false,
          Bool.false_eq_true]
    refine ⟨fun t below => ?_, fun t below live => ?_⟩
    · by_cases new : t = s.nthreads
      · subst new
        rw [child]
        cases newProc with
        | true => exact Nat.lt_succ_self _
        | false => exact housed.pid p inside
      · rw [old new]
        have there := housed.pid t (by omega)
        cases newProc with
        | true => exact Nat.lt_succ_of_lt there
        | false => exact there
    · rw [procs]
      by_cases new : t = s.nthreads
      · subst new
        rw [child, update_self]
        simp
      · rw [old new] at live ⊢
        have there := housed.listed t (by omega) live
        by_cases here : (s.td t).proc = forkPid s p newProc
        · rw [here, update_self]
          cases newProc with
          | true => exact absurd here (housed.pid t (by omega)).ne
          | false =>
            have same : (s.td t).proc = (s.td p).proc := here
            rw [same] at there
            simp [there]
        · rw [update_of_ne here]
          exact there
  refine alloc.staffed (schedForkThread_staffed ..) ?_
  unfold fork schedForkThread
  dsimp only
  split
  · exact (pssForkThread_steady ..).nprocs
  · rfl

theorem exit_housed (t : Tid) (housed : s.Housed) :
    ((s.modTd t fun td => { td with tdState := .inactive, exited := true }).modProc (s.td t).proc
      fun p => { p with threads := p.threads.filter (· ≠ t) }).Housed := by
  have td (u : Tid) : ((s.modTd t fun td => { td with tdState := .inactive, exited := true }).td u).proc = (s.td u).proc := by
    by_cases here : u = t
    · subst here
      simp only [State.modTd, update_self]
    · simp only [State.modTd, update_of_ne here]
  have left (u : Tid) (live : ((s.modTd t fun td => { td with tdState := .inactive, exited := true }).td u).exited = false) :
      u ≠ t ∧ (s.td u).exited = false := by
    by_cases here : u = t
    · subst here
      simp only [State.modTd, update_self, Bool.true_eq_false] at live
    · simp only [State.modTd, update_of_ne here] at live
      exact ⟨here, live⟩
  have gone : (s.modTd t fun td => { td with tdState := .inactive, exited := true }).Housed := by
    refine ⟨fun u below => ?_, fun u below live => ?_⟩
    · rw [td]
      exact housed.pid u below
    · rw [td]
      exact housed.listed u below (left u live).2
  refine gone.modProc _ _ fun u _ live listed => List.mem_filter.mpr ⟨listed, ?_⟩
  exact decide_eq_true (left u live).1

theorem exit_weighed (t : Tid) (weighed : s.Weighed due) :
    ((s.modTd t fun td => { td with tdState := .inactive, exited := true }).modProc (s.td t).proc
      fun p => { p with threads := p.threads.filter (· ≠ t) }).Weighed due := by
  intro u below live other paid
  have nice (p : Pid) : (((s.modTd t fun td => { td with tdState := .inactive, exited := true }).modProc (s.td t).proc
      fun p => { p with threads := p.threads.filter (· ≠ t) }).proc p).nice = (s.proc p).nice := by
    by_cases here : p = (s.td t).proc
    · subst here
      simp only [State.modProc, State.modTd, update_self]
    · simp only [State.modProc, State.modTd, update_of_ne here]
  have same : u ≠ t := by
    rintro rfl
    simp only [State.modProc, State.modTd, update_self, Bool.true_eq_false] at live
  have td : ((s.modTd t fun td => { td with tdState := .inactive, exited := true }).modProc (s.td t).proc
      fun p => { p with threads := p.threads.filter (· ≠ t) }).td u = s.td u := update_of_ne same ..
  rw [td] at live other
  rw [niceLoad, td, nice]
  exact weighed u below live other paid

/-- The memory of a group that is still to come is not in use. -/
theorem schedGroupCreate_calls {L : List EntId} (core : s.view.Core L) (p : Gid) (shares : Nat) :
    Calls s (schedGroupCreate s p shares) := by
  have empty : (s.sfq s.ngroups).timeline = .leaf := by
    refine SearchTree.eq_leaf (List.eq_nil_iff_forall_not_mem.mpr fun e there => ?_)
    have inside : s.view.sfq e < s.ngroups := core.hier.inside e
    have within : s.view.sfq e = s.ngroups := (core.member s.ngroups e there).2.2
    omega
  have off : s.flags (.group s.ngroups) = false := by
    by_contra there
    have queued := (core.onSfq (.group s.ngroups)).mp (Bool.not_eq_false _ ▸ there)
    exact absurd (core.valid _ (core.member _ _ queued).1).2 (lt_irrefl _)
  refine .still rfl ?_ ?_
  · show (State.modSfq s s.ngroups fun _ => { group := s.ngroups }).trees = s.trees
    rw [trees_modSfq]
    exact update_eq_self_iff.mpr empty.symm
  · funext e
    by_cases here : e = .group s.ngroups
    · subst here
      rw [off]
      simp [State.flags, schedGroupCreate, pssAllocSchedGroup, State.modEnt, State.modGrp, State.modSfq]
    · exact congrArg SchedEntity.onSfq (update_of_ne here ..)

/-- The queue of a group that is made has no load yet. -/
theorem schedGroupCreate_queues (p : Gid) (shares : Nat) (q : Gid) (kept : (s.sfq q).load.Kept) :
    ((schedGroupCreate s p shares).sfq q).load.Kept := by
  by_cases here : q = s.ngroups
  · subst here
    rw [show (schedGroupCreate s p shares).sfq s.ngroups = { group := s.ngroups } from update_self ..]
    exact .empty
  · rw [show (schedGroupCreate s p shares).sfq q = s.sfq q from update_of_ne here ..]
    exact kept

theorem schedGroupCreate_steady {L : List EntId} (core : s.view.Core L) (p : Gid) (shares : Nat) :
    Steady s (schedGroupCreate s p shares) :=
  ⟨rfl, rfl, rfl, rfl, fun _ => rfl, fun _ => rfl, fun _ => rfl, fun _ _ => rfl, schedGroupCreate_calls core p shares,
    schedGroupCreate_queues p shares⟩

/-- No step but that of a nice value makes a weight wrong. -/
theorem Micro.weighed (inv : Inv C s L d) (step : Micro C s s') (procs : Procs s) (housed : s.Housed)
    (weighed : s.Weighed due) (owes : s.Owes due) (asked : C.idleness) (steady : C.steady) : s'.Weighed due := by
  cases step with
  | flow step => exact weighed.steady procs.nice (step.steady inv) fun t => congrFun (step.cls inv) t
  | recast t priClass cls run apart idleness =>
    rw [run]
    exact storeClass_weighed weighed idleness asked
  | switchedFrom t priClass cls run apart idleness =>
    rw [run]
    refine (storeClass_weighed weighed idleness asked).steady procs.nice (pssSwitchedFrom_steady ..) fun u => ?_
    unfold pssSwitchedFrom
    dsimp only
    split <;> rfl
  | switchedTo t priClass run apart idleness =>
    rw [run]
    exact (storeClass_weighed weighed idleness asked).steady procs.nice (addVtime_steady ..) fun _ => rfl
  | weigh t run =>
    rw [run]
    exact (setThreadWeight_weighed t weighed).mono fun _ => And.left
  | nice p nice range run loud => exact absurd steady loud
  | move t onRq run =>
    rw [run]
    refine weighed.steady procs.nice (pssSchedGroupMove_steady ..) fun u => ?_
    unfold pssSchedGroupMove
    dsimp only
    split <;> rfl
  | fork parent newProc stale run inside live =>
    rw [run]
    exact fork_weighed newProc stale weighed owes procs housed inside live
  | exit t run =>
    rw [run]
    exact exit_weighed t weighed
  | setShares g shares run =>
    rw [run]
    exact weighed.steady procs.nice (.modGrp ..) fun _ => rfl
  | create parent shares run =>
    rw [run]
    exact weighed.steady procs.nice (schedGroupCreate_steady inv.core ..) fun _ => rfl
  | sysctl write tun new run =>
    rw [run]
    exact weighed

theorem Micro.housed (inv : Inv C s L d) (step : Micro C s s') (housed : s.Housed) : s'.Housed ∧ s.nthreads ≤ s'.nthreads := by
  cases step with
  | flow step => exact ⟨housed.steady (step.steady inv), (step.steady inv).nthreads.ge⟩
  | recast t priClass cls run =>
    rw [run]
    exact ⟨housed.staffed (recast_staffed ..) rfl, le_rfl⟩
  | switchedFrom t priClass cls run =>
    rw [run]
    have steady := pssSwitchedFrom_steady (storeClass s t priClass cls) t
    exact ⟨(housed.staffed (recast_staffed ..) rfl).steady steady, steady.nthreads.ge⟩
  | switchedTo t priClass run =>
    rw [run]
    exact ⟨(housed.staffed (recast_staffed ..) rfl).steady (addVtime_steady ..), le_rfl⟩
  | weigh t run =>
    rw [run]
    exact ⟨housed.staffed (.modEnt ..) rfl, le_rfl⟩
  | nice p nice range run =>
    rw [run]
    exact ⟨housed.modProc _ _ fun _ _ _ listed => listed, le_rfl⟩
  | move t onRq run =>
    rw [run]
    have steady := pssSchedGroupMove_steady s t onRq
    exact ⟨housed.steady steady, steady.nthreads.ge⟩
  | fork parent newProc stale run inside =>
    rw [run]
    refine ⟨fork_housed housed inside, ?_⟩
    have alloc : s.nthreads ≤ (forkAlloc s parent newProc).nthreads := by
      cases newProc <;> exact Nat.le_succ _
    exact alloc.trans (schedForkThread_staffed ..).nthreads.ge
  | exit t run =>
    rw [run]
    exact ⟨exit_housed t housed, le_rfl⟩
  | setShares g shares run =>
    rw [run]
    exact ⟨housed.steady (.modGrp ..), le_rfl⟩
  | create parent shares run =>
    rw [run]
    exact ⟨housed.steady (schedGroupCreate_steady inv.core ..), le_rfl⟩
  | sysctl write tun new run =>
    rw [run]
    exact ⟨⟨housed.pid, housed.listed⟩, le_rfl⟩

theorem Path.housed (h : Path C s s') (housed : s.Housed) : s'.Housed ∧ s.nthreads ≤ s'.nthreads := by
  induction h with
  | refl => exact ⟨housed, le_rfl⟩
  | step inv micro _ ih =>
    obtain ⟨housed', grows⟩ := micro.housed inv housed
    obtain ⟨later, grows'⟩ := ih housed'
    exact ⟨later, grows.trans grows'⟩

/-- A path without a change of a nice value keeps the weights. -/
theorem Path.weighed (h : Path C s s') (procs : Procs s) (housed : s.Housed) (weighed : s.Weighed due) (owes : s.Owes due)
    (asked : C.idleness) (steady : C.steady) : s'.Weighed due := by
  induction h with
  | refl => exact weighed
  | step inv micro _ ih =>
    obtain ⟨housed', grows⟩ := micro.housed inv housed
    refine ih (procs.micro inv micro) housed' (micro.weighed inv procs housed weighed owes asked steady) ?_
    exact owes.imp id fun all t above => all t (grows.trans above)

end weighed

section nice
variable {C : Conds} {s s' : State} {n : Nat} {t : Tid} {delta : Int} {rest : List Tid}

/-- Whom the loop of `sched_nice` has not got to, if there were `n` threads as it began. -/
def niceDue (rest : List Tid) (n : Nat) (u : Tid) : Prop := u ∈ rest ∨ n ≤ u

theorem niceDue_owes (bound : n ≤ s.nthreads) : s.Owes (niceDue rest n) := .inr fun _ above => .inr (bound.trans above)

theorem schedNiceThread_weighed (stands : Stands C s (some s.curthread)) (procs : Procs s) (housed : s.Housed)
    (asked : C.idleness) (steady : C.steady) (inside : t < s.view.nthreads) (live : s.view.exited t = false)
    (bound : n ≤ s.nthreads) (weighed : s.Weighed (niceDue (t :: rest) n)) (run : schedNiceThread delta s t = some s') :
    s'.Weighed (niceDue rest n) := by
  have settle {a : State} (weighed : a.Weighed (niceDue (t :: rest) n)) : (setThreadWeight a t).Weighed (niceDue rest n) := by
    refine (setThreadWeight_weighed t weighed).mono ?_
    rintro u ⟨member | above, other⟩
    · exact .inl ((List.mem_cons.mp member).resolve_left other)
    · exact .inr above
  by_cases pss : (s.td t).cls = .pss
  · obtain ⟨a, b, c, d, deq, put, enq, act, rfl⟩ := schedNiceThread_parts pss run
    have other : s.view.cls t ≠ .idle := fun idle => SchedClass.noConfusion (idle.symm.trans pss)
    obtain ⟨⟨before, after⟩, reached, _⟩ := reweigh_reached stands procs inside live other deq put enq act
    obtain ⟨housed', grows⟩ := before.housed housed
    have procs' := procs.path before
    have weighed' := settle (before.weighed procs housed weighed (niceDue_owes bound) asked steady)
    have stored : Staffed b (setThreadWeight b t) := .modEnt ..
    have done := after.weighed (procs'.staffed stored) (housed'.staffed stored rfl) weighed'
      (niceDue_owes (bound.trans grows)) asked steady
    split
    · refine done.steady (procs.path reached.1).nice (reschedThread_steady ..) fun u => ?_
      exact congrFun (congrArg View.cls (reschedThread_view ..)) u
    · exact done
  · unfold schedNiceThread at run
    rw [if_pos pss] at run
    cases run
    exact settle weighed

theorem schedNiceThreads_weighed (threads : List Tid) (stands : Stands C s (some s.curthread)) (procs : Procs s)
    (housed : s.Housed) (asked : C.idleness) (steady : C.steady)
    (inside : ∀ t ∈ threads, t < s.view.nthreads ∧ s.view.exited t = false) (bound : n ≤ s.nthreads)
    (weighed : s.Weighed (niceDue threads n)) (run : threads.foldlM (schedNiceThread delta) s = some s') :
    s'.Weighed (niceDue [] n) := by
  induction threads generalizing s with
  | nil =>
    cases run
    exact weighed
  | cons t rest ih =>
    rw [List.foldlM_cons] at run
    obtain ⟨a, first, later⟩ := Option.bind_eq_some_iff.mp run
    obtain ⟨below, live⟩ := inside t (List.mem_cons_self ..)
    obtain ⟨reached, kept⟩ := schedNiceThread_reached stands procs below live first
    obtain ⟨housed', grows⟩ := reached.1.housed housed
    exact ih reached.2 (procs.path reached.1) housed'
      (fun u member => kept.inside (inside u (List.mem_cons_of_mem _ member))) (bound.trans grows)
      (schedNiceThread_weighed stands procs housed asked steady below live bound weighed first) later

/-- The conditions of a run in which nice values change. -/
def Conds.loud (C : Conds) : Conds := { C with steady := False }

theorem Stands.louder (stands : Stands C s (some s.curthread)) : Stands C.loud s (some s.curthread) :=
  ⟨⟨stands.inv.core, stands.inv.tight, stands.inv.filled⟩, stands.roster⟩

theorem Stands.quieter (stands : Stands C.loud s (some s.curthread)) : Stands C s (some s.curthread) :=
  ⟨⟨stands.inv.core, stands.inv.tight, stands.inv.filled⟩, stands.roster⟩

theorem schedNice_weighed {p : Pid} {nice : Int} (stands : Stands C s (some s.curthread)) (procs : Procs s)
    (housed : s.Housed) (asked : C.idleness) (steady : C.steady) (range : prioMin ≤ nice ∧ nice ≤ prioMax)
    (weighed : s.Weighed fun _ => False) (run : schedNice s p nice = some s') :
    s'.Housed ∧ s'.Weighed fun _ => False := by
  have store := storeNice_reaches (p := p) stands.louder.inv id range
  have first := store.reached stands.louder
  obtain ⟨reached, kept⟩ := schedNice_reached stands.louder procs id range run
  have due : (storeNice s p nice).Weighed (niceDue ((storeNice s p nice).proc p).threads s.nthreads) := by
    intro u below live other paid
    have listed := (first.1.housed housed).1.listed u below live
    have elsewhere : (s.td u).proc ≠ p := by
      intro here
      have there : ((storeNice s p nice).td u).proc = p := here
      rw [there] at listed
      exact paid (.inl listed)
    have same : (storeNice s p nice).proc (s.td u).proc = s.proc (s.td u).proc := update_of_ne elsewhere ..
    have load := weighed u below live other id
    rw [niceLoad, ← same] at load
    exact load
  have procs' := procs.path first.1
  have done := schedNiceThreads_weighed _ first.2.quieter procs' (first.1.housed housed).1 asked steady (fun t listed => by
    obtain ⟨below, live, _⟩ := procs'.member p t listed
    exact ⟨below, live⟩) le_rfl due run
  have nthreads : s'.nthreads = s.nthreads := congrArg Roster.nthreads kept.roster
  refine ⟨(reached.1.housed housed).1, fun u below live other _ => done u below live other ?_⟩
  rintro (never | above)
  · exact List.not_mem_nil never
  · rw [nthreads] at below
    exact absurd below above.not_gt

end nice

section runs
variable {k : Kernel} {tun : Tunables} {ops : List Op} {s : State}

/-- No class change is one between `PRI_IDLE` and another class. -/
def Conds.idle : Conds := ⟨False, False, False, False, True, False⟩

/-- Nor is a nice value changed. -/
def Conds.idleQuiet : Conds := ⟨False, False, False, False, True, True⟩

theorem bootQueues_housed (k : Kernel) (tun : Tunables) : (bootQueues k tun).Housed := by
  have two {t : Nat} (below : t < (bootQueues k tun).nthreads) : t = 0 ∨ t = 1 := by
    have below' : t < 2 := below
    omega
  refine ⟨fun t below => ?_, fun t below _ => ?_⟩
  · rcases two below with rfl | rfl
    · exact Nat.two_pos
    · exact Nat.one_lt_two
  · rcases two below with rfl | rfl
    · exact List.mem_singleton.mpr rfl
    · exact List.mem_singleton.mpr rfl

theorem bootQueues_weighed (k : Kernel) (tun : Tunables) : (bootQueues k tun).Weighed fun _ => False := by
  intro t below _ other _
  have two : t = 0 ∨ t = 1 := by
    have below' : t < 2 := below
    omega
  rcases two with rfl | rfl
  · rw [bootQueues_ent, if_pos rfl]
    rfl
  · exact absurd rfl other

theorem Runs.weighed (runs : Runs .idle k tun ops s) : s.Housed ∧ s.Weighed fun _ => False := by
  induction runs with
  | boot start =>
    have path := (schedSetup_settled (C := .idleQuiet) k tun start).1
    have housed := bootQueues_housed k tun
    exact ⟨(path.housed housed).1,
      path.weighed (bootQueues_procs k tun) housed (bootQueues_weighed k tun) (.inl fun _ => id) trivial trivial⟩
  | op before meets step ih =>
    rename_i s s' op
    obtain ⟨housed, weighed⟩ := ih
    have settled := before.settled
    have stands : Stands .idleQuiet s (some s.curthread) :=
      ⟨⟨settled.stands.inv.core, settled.stands.inv.tight, settled.stands.inv.filled⟩, settled.stands.roster⟩
    have quiet : (∃ p n, op = .nice p n) ∨ op.meets .idleQuiet s := by
      cases op <;> first | exact .inl ⟨_, _, rfl⟩ | exact .inr meets
    rcases quiet with ⟨p, n, rfl⟩ | meets'
    · unfold SfqSched.step at step
      split at step
      · rename_i enabled
        simp only [Op.enabled, Bool.and_eq_true, decide_eq_true_eq] at enabled
        exact schedNice_weighed stands settled.procs housed trivial trivial ⟨enabled.1.2, enabled.2⟩ weighed step
      · cases step
    · have path := (step_reached ⟨stands, settled.procs⟩ meets' step).1
      exact ⟨(path.housed housed).1, path.weighed settled.procs housed weighed (.inl fun _ => id) trivial trivial⟩

end runs

/-- In a run that takes no thread into or out of `PRI_IDLE`, the load of every thread of
`pss_class` is the one of its nice value and class. -/
theorem thread_weight (k : Kernel) (tun : Tunables) (ops : List Op) (s : State) (ran : run k tun ops = some s)
    (kept : ∀ before t priClass after a, ops = before ++ .schedClass t priClass :: after → run k tun before = some a →
      (a.td t).tdPriClass ≠ priClass →
      getSchedClass a t priClass = .idle ∨ ((a.td t).cls ≠ .idle ∧ ((a.td t).tdPriClass = .idle ↔ priClass = .idle)))
    (t : Tid) (live : s.live t) (pss : (s.td t).cls = .pss) :
    (s.ent (.thread t)).load = threadLoad (s.proc (s.td t).proc).nice (s.td t).tdPriClass := by
  have runs : Runs .idle k tun ops s := by
    refine run_runs ops ran fun before op after a split there => ?_
    cases op with
    | schedClass t priClass =>
      exact ⟨fun changed _ => kept before t priClass after a split there changed, fun never => never.elim⟩
    | fork p newProc stale => exact fun never => never.elim
    | setShares g shares => exact ⟨fun never => never.elim, fun never => never.elim⟩
    | nice p nice => exact id
    | _ => trivial
  unfold State.live at live
  simp only [Bool.and_eq_true, Bool.not_eq_true'] at live
  exact runs.weighed.2 t (of_decide_eq_true live.1) live.2 (fun idle => SchedClass.noConfusion (idle.symm.trans pss)) id

theorem thread_weight_niced :
    ∃ s, run plainKernel {} [.fork 0 false {}, .nice 0 5] = some s ∧ (s.ent (.thread 2)).load.weight = 336 := by
  have result : (run plainKernel {} [.fork 0 false {}, .nice 0 5]).map (fun s =>
      (s.live 2, (s.td 2).cls, (s.proc (s.td 2).proc).nice, (s.td 2).tdPriClass)) =
      some (true, .pss, 5, .timeshare) := by decide +kernel
  obtain ⟨s, ran, values⟩ := Option.map_eq_some_iff.mp result
  simp only [Prod.mk.injEq] at values
  obtain ⟨live, pss, nice, priClass⟩ := values
  have none_asked (before after : List Op) (t : Tid) (priClass : PriClass)
      (split : [.fork 0 false {}, .nice 0 5] = before ++ .schedClass t priClass :: after) : False := by
    have member : Op.schedClass t priClass ∈ [.fork 0 false {}, .nice 0 5] := by
      rw [split]
      simp
    simp at member
  have load := thread_weight plainKernel {} [.fork 0 false {}, .nice 0 5] s ran
    (fun before t priClass after _ split => (none_asked before after t priClass split).elim) 2 live pss
  refine ⟨s, ran, ?_⟩
  rw [load, nice, priClass]
  decide

/-- The boot thread becomes one of class `PRI_IDLE`, and keeps its weight. -/
theorem thread_weight_stale :
    ¬ ∀ (k : Kernel) (tun : Tunables) (ops : List Op) (s : State), run k tun ops = some s →
      ∀ t, s.live t → (s.td t).cls = .pss →
        (s.ent (.thread t)).load = threadLoad (s.proc (s.td t).proc).nice (s.td t).tdPriClass := by
  intro claimed
  have result : (run plainKernel {} [.schedClass 0 .idle]).map (fun s =>
      ((s.live 0, (s.td 0).cls), (s.ent (.thread 0)).load.weight,
        (threadLoad (s.proc (s.td 0).proc).nice (s.td 0).tdPriClass).weight)) =
      some ((true, .pss), 1024, 3) := by decide +kernel
  obtain ⟨s, ran, values⟩ := Option.map_eq_some_iff.mp result
  simp only [Prod.mk.injEq] at values
  obtain ⟨⟨live, pss⟩, stale, right⟩ := values
  have same := congrArg LoadWeight.weight (claimed _ _ _ s ran 0 live pss)
  rw [stale, right] at same
  exact absurd same (by decide)

end SfqSched
