import SfqSched.PreemptSteps

namespace SfqSched
open State Function

section runq
variable {C : Conds} {s s' : State} {L : List EntId} {t : Tid}

/-- A change of the realtime queue alone. -/
theorem Quiet.runq {realtime : Nat → Prop} {onRunq : EntId → Bool}
    (view : s'.view = { s.view with realtime := realtime, onRunq := onRunq }) (books : s'.books = s.books)
    (steady : Steady s s') : Quiet s s' := by
  constructor <;> simp_all [View.seated, View.absolute, View.resting]

/-- A thread comes off the realtime queue before its priority changes. -/
theorem rawRunqDequeue_reaches (inv : Inv C s L none) : Reaches C s (rawRunqDequeue s t) L s.view.roster := by
  have quiet : Quiet s (rawRunqDequeue s t) := by
    by_cases boosted : s.view.onRunq (.thread t)
    · exact .runq (by rw [rawRunqDequeue_view, if_pos boosted]; rfl) (by simp) (rawRunqDequeue_steady ..)
    · exact .of_view (by rw [rawRunqDequeue_view, if_neg boosted]) (by simp) (rawRunqDequeue_steady ..)
  refine ⟨.quiet inv quiet, rawRunqDequeue_inv inv, ?_, ?_⟩ <;>
  · rw [rawRunqDequeue_view]
    split <;> rfl

/-- A joined thread may be boosted at any time. -/
theorem boost_reaches (inv : Inv C s L none) (joined : s.view.joined (.thread t)) (view : s'.view = s.view.boost t)
    (books : s'.books = s.books) (steady : Steady s s') : Reaches C s s' L s.view.roster :=
  ⟨.quiet inv (.runq view books steady), inv.of_boost joined (by rw [view]), by rw [view]; rfl, by rw [view]; rfl⟩

/-- And back onto the realtime queue, if its new priority is a boost. -/
theorem rawRunqEnqueue_reaches {flags : Nat} (inv : Inv C s L none) (joined : s.view.joined (.thread t))
    (run : rawRunqEnqueue s t flags = some s') : Reaches C s s' L s.view.roster := by
  obtain ⟨view, books⟩ := rawRunqEnqueue_spec _ _ run
  exact boost_reaches inv joined view books (rawRunqEnqueue_steady _ run)

/-- What the view and the books do not show can follow any sequence of steps. -/
theorem Reaches.unseen {s'' : State} {r : Roster} (h : Reaches C s s' L r) (then_ : Unseen s' s'') :
    Reaches C s s'' L r := by
  have second := then_.reaches h.inv
  rw [h.roster] at second
  exact h.trans second

theorem Unseen.then {s'' : State} {r : Roster} (h : Unseen s s') (inv : Inv C s L none)
    (second : Inv C s' L none → Reaches C s' s'' L r) : Reaches C s s'' L r :=
  (h.reaches inv).trans (second (h.reaches inv).inv)

end runq

section priority
variable {C : Conds} {s s' : State} {L : List EntId} {t : Tid} {prio : Nat}

theorem setPriority_unseen (s : State) (t : Tid) (prio : Nat) :
    Unseen s (s.modTd t fun td => { td with tdPriority := prio }) :=
  .modTd _ _ _ ⟨rfl, rfl, rfl, rfl, rfl, rfl⟩ rfl rfl

/-- A thread of `pss_class` is taken off the realtime queue, and comes back if its new priority wants it. -/
theorem pssChangePriority_reaches (inv : Inv C s L none)
    (member : s.view.tdState t = .runq → s.view.joined (.thread t)) (run : pssChangePriority s t prio = some s') :
    Reaches C s s' L s.view.roster := by
  unfold pssChangePriority at run
  split at run
  · rename_i rises
    have first := (rawRunqDequeue_reaches (t := t) inv).unseen (setPriority_unseen _ t prio)
    have joined : ((rawRunqDequeue s t).modTd t fun td => { td with tdPriority := prio }).view.joined (.thread t) := by
      have same := congrFun (congrArg Roster.joined first.roster) t
      exact same.trans (member rises.1)
    dsimp only at run
    split at run
    · obtain ⟨a, step, done⟩ := Option.bind_eq_some_iff.mp run
      cases done
      have second := rawRunqEnqueue_reaches first.inv joined step
      rw [first.roster] at second
      exact (first.trans second).unseen (checkPriorityPreempt_unseen ..)
    · cases run
      exact first.unseen (checkPriorityPreempt_unseen ..)
  · cases run
    exact (setPriority_unseen s t prio).reaches inv

/-- A realtime thread changes its place in the realtime queue. -/
theorem rtChangePriority_reaches (inv : Inv C s L none) (run : rtChangePriority s t prio = some s') :
    Reaches C s s' L s.view.roster := by
  unfold rtChangePriority at run
  split at run
  · split at run
    · rename_i boosted
      cases run
      have there : s.view.onRunq (.thread t) := boosted
      have joined := (inv.core.onRunq _ there).1
      have unseen := setPriority_unseen (runqRemove s t) t prio
      have view : (runqAdd ((runqRemove s t).modTd t fun td => { td with tdPriority := prio }) t false).view =
          s.view.boost t := by
        have stays : update s.view.onRunq (.thread t) true = s.view.onRunq := by rw [← there, update_eq_self]
        have both : (fun u => u = t ∨ u ≠ t ∧ s.view.realtime u) = fun u => u = t ∨ s.view.realtime u := by
          funext u
          exact propext (by tauto)
        rw [runqAdd_view, unseen.1, runqRemove_view]
        simp only [View.boost, both, stays]
      have steady : Steady s (runqAdd ((runqRemove s t).modTd t fun td => { td with tdPriority := prio }) t false) :=
        ((runqRemove_steady s t).trans unseen.2.2).trans (runqAdd_steady ..)
      exact (boost_reaches inv joined view (by simp) steady).unseen (checkPriorityPreempt_unseen ..)
    · cases run
  · cases run
    exact (setPriority_unseen s t prio).reaches inv

/-- The hook of the thread's class does it; the idle class has none. -/
theorem schedThreadPriority_reaches (inv : Inv C s L none)
    (member : s.view.cls t ≠ .idle → s.view.tdState t = .runq → s.view.joined (.thread t))
    (run : schedThreadPriority s t prio = some s') : Reaches C s s' L s.view.roster := by
  unfold schedThreadPriority at run
  split at run
  · cases run
    exact .refl inv
  · split at run
    · exact rtChangePriority_reaches inv run
    · rename_i cls
      exact pssChangePriority_reaches inv (member (by simpa using fun idle => by simp [idle] at cls)) run
    · cases run
      exact .refl inv

/-- A store to the record of the thread, before its priority changes. -/
theorem store_then_priority {f : Thread → Thread} (inv : Inv C s L none)
    (member : s.view.cls t ≠ .idle → s.view.tdState t = .runq → s.view.joined (.thread t))
    (unseen : Unseen s (s.modTd t f)) (run : schedThreadPriority (s.modTd t f) t prio = some s') :
    Reaches C s s' L s.view.roster := by
  refine unseen.then inv fun inv' => ?_
  have second := schedThreadPriority_reaches inv' (by rw [unseen.1]; exact member) run
  rw [unseen.1] at second
  exact second

theorem schedLendPrio_reaches (inv : Inv C s L none)
    (member : s.view.cls t ≠ .idle → s.view.tdState t = .runq → s.view.joined (.thread t))
    (run : schedLendPrio s t prio = some s') : Reaches C s s' L s.view.roster :=
  store_then_priority inv member (.modTd _ _ _ ⟨rfl, rfl, rfl, rfl, rfl, rfl⟩ rfl rfl) run

theorem schedUnlendPrio_reaches (inv : Inv C s L none)
    (member : s.view.cls t ≠ .idle → s.view.tdState t = .runq → s.view.joined (.thread t))
    (run : schedUnlendPrio s t prio = some s') : Reaches C s s' L s.view.roster := by
  unfold schedUnlendPrio at run
  dsimp only at run
  generalize (if puser ≤ (s.td t).tdBasePri ∧ (s.td t).tdBasePri ≤ 223 then (s.td t).tdUserPri
    else (s.td t).tdBasePri) = basePri at run
  split at run
  · exact store_then_priority inv member (.modTd _ _ _ ⟨rfl, rfl, rfl, rfl, rfl, rfl⟩ rfl rfl) run
  · exact schedLendPrio_reaches inv member run

theorem schedPrio_reaches (inv : Inv C s L none)
    (member : s.view.cls t ≠ .idle → s.view.tdState t = .runq → s.view.joined (.thread t))
    (run : schedPrio s t prio = some s') : Reaches C s s' L s.view.roster := by
  have unseen : Unseen s (s.modTd t fun td => { td with tdBasePri := prio }) :=
    .modTd _ _ _ ⟨rfl, rfl, rfl, rfl, rfl, rfl⟩ rfl rfl
  unfold schedPrio at run
  dsimp only at run
  split at run
  · cases run
    exact unseen.reaches inv
  · exact store_then_priority inv member unseen run

/-- A user priority is seen only when the thread goes back to user mode. -/
theorem schedUserPrio_unseen (s : State) (t : Tid) (prio : Nat) : Unseen s (schedUserPrio s t prio) := by
  have first : Unseen s (s.modTd t fun td => { td with tdBaseUserPri := prio }) :=
    .modTd _ _ _ ⟨rfl, rfl, rfl, rfl, rfl, rfl⟩ rfl rfl
  unfold schedUserPrio
  dsimp only
  split
  · exact first
  · refine first.trans (.modTd _ _ _ ?_ rfl rfl)
    exact ⟨rfl, rfl, rfl, rfl, rfl, rfl⟩

/-- A lent user priority is stored, and then the thread's own priority may follow. -/
theorem schedLendUserPrio_reaches (inv : Inv C s L none)
    (member : s.view.cls t ≠ .idle → s.view.tdState t = .runq → s.view.joined (.thread t))
    (run : schedLendUserPrio s t prio = some s') : Reaches C s s' L s.view.roster := by
  have unseen : Unseen s (s.modTd t fun td =>
      { td with tdLendUserPri := prio, tdUserPri := min prio td.tdBaseUserPri }) :=
    .modTd _ _ _ ⟨rfl, rfl, rfl, rfl, rfl, rfl⟩ rfl rfl
  unfold schedLendUserPrio at run
  dsimp only at run
  split at run
  · refine unseen.then inv fun inv' => ?_
    have second := schedPrio_reaches inv' (by rw [unseen.1]; exact member) run
    rw [unseen.1] at second
    exact second
  · split at run
    · cases run
      exact (unseen.reaches inv).unseen (reschedThread_unseen ..)
    · cases run
      exact unseen.reaches inv

theorem schedUserret_unseen {s s' : State} {t : Tid} (run : schedUserret s t = some s') : Unseen s s' := by
  obtain ⟨_, same⟩ := Option.ite_none_left_eq_some.mp run
  obtain rfl := Option.some.inj same
  refine .modTd _ _ _ ?_ ?_ ?_ <;> split <;> first | rfl | exact ⟨rfl, rfl, rfl, rfl, rfl, rfl⟩

end priority

section tick
variable {C : Conds} {s s' : State} {L : List EntId}

/-- To compute a slice changes inverses only. -/
theorem schedSlice_unseen (s : State) (q : Gid) (e : EntId) : Unseen s (schedSlice s q e).2 :=
  ⟨(schedSlice_changes s q e).view caching_view, (schedSlice_changes s q e).books caching_books, schedSlice_steady ..⟩

theorem checkPreemptTick_reaches (inv : Inv C s L none) (q : Gid) (e : EntId) :
    Reaches C s (checkPreemptTick s q e) L s.view.roster := by
  have first := (schedSlice_unseen s q e).reaches inv
  unfold checkPreemptTick
  dsimp only
  split
  · have second := clearCandidates_reaches first.inv q e
    rw [first.roster] at second
    exact (first.trans second).unseen (reschedThread_unseen ..)
  · split
    · exact first
    · split
      · exact first
      · split
        · exact first.unseen (reschedThread_unseen ..)
        · exact first

/-- A level of the tick: the current entity is charged, and may have used up its slice. -/
theorem entityTick_reaches (inv : Inv C s L none) (e : EntId) : Reaches C s (entityTick s e) L s.view.roster := by
  have first := updateCurr_reaches inv (s.view.sfq e)
  unfold entityTick
  dsimp only
  split
  · have second := checkPreemptTick_reaches first.inv (s.view.sfq e) e
    rw [first.roster] at second
    exact first.trans second
  · exact first

theorem entityTicks_reaches (inv : Inv C s L none) (chain : List EntId) :
    Reaches C s (chain.foldl entityTick s) L s.view.roster := by
  induction chain generalizing s with
  | nil => exact .refl inv
  | cons e rest ih =>
    have first := entityTick_reaches inv e
    have second := ih first.inv
    rw [first.roster] at second
    exact first.trans second

theorem rtTick_unseen (s : State) (t : Tid) : Unseen s (rtTick s t) := by
  have read : Unseen s { s with reads := s.reads + 1 } :=
    ⟨rfl, rfl, ⟨rfl, rfl, rfl, rfl, fun _ => rfl, fun _ => rfl, fun _ => rfl, fun _ _ => rfl, .still rfl rfl rfl, fun _ => id⟩⟩
  unfold rtTick
  dsimp only
  split
  · exact .refl s
  · exact .refl s
  · split
    · exact read.trans (reschedThread_unseen ..)
    · exact read

/-- A tick of the clock. -/
theorem schedTick_reaches (inv : Inv C s L none) (busy : Busy s L) : Reaches C s (schedTick s) L s.view.roster := by
  have first := updateRqClock_reaches inv busy
  unfold schedTick
  dsimp only
  split
  · exact first.unseen (rtTick_unseen ..)
  · have second := entityTicks_reaches first.inv (walkup (updateRqClock s) (some (.thread s.curthread)))
    rw [first.roster] at second
    exact first.trans second
  · exact first

end tick
end SfqSched
