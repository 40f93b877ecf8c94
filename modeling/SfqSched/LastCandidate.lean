import SfqSched.Membership
import SfqSched.DispatchTotal

namespace SfqSched
open State Function

/-- Whether `pss_check_preempt_curr` gets to `set_last_candidate` and this records its argument. -/
def recordsLast (s : State) (t : Tid) : Bool :=
  let ctd := s.curthread
  !(s.td ctd).needResched && s.tun.schedLast &&
    decide (s.tun.schedNrLatency ≤ (s.sfq (s.ent (.thread ctd)).sfq).nrRunning) &&
    (s.td t).tdPriClass ≠ .idle &&
    ((s.td ctd).tdPriClass = .idle ||
      match findCommonAncestor s (.thread ctd) (.thread t) with
      | some (curr, se) => (wakeupPreemptEntity (updateCurr s (s.ent curr).sfq) curr se).1 > 0 && (seToTd s se).isSome
      | none => false)

section last
variable {s s' : State} {t : Tid}

theorem setCandidateWalk_beside (c : Candidate) (q : Gid) {chain : List EntId}
    (beside : ∀ e ∈ chain, q ≠ (s.ent e).sfq) : (setCandidateWalk c s chain).sfq q = s.sfq q := by
  induction chain generalizing s with
  | nil => rfl
  | cons e rest ih =>
    have first := beside e (List.mem_cons_self ..)
    unfold setCandidateWalk
    refine Eq.trans (ih (s := s.modSfq _ _) fun a member => beside a (List.mem_cons_of_mem _ member)) ?_
    exact update_of_ne first ..

theorem setCandidateWalk_td (c : Candidate) (chain : List EntId) : (setCandidateWalk c s chain).td = s.td := by
  induction chain generalizing s with
  | nil => rfl
  | cons e rest ih => exact ih (s := s.modSfq _ _)

theorem setLastCandidate_td (e : EntId) : (setLastCandidate s e).td = s.td := by
  unfold setLastCandidate
  split
  · rfl
  · exact setCandidateWalk_td ..

/-- The first entity of a chain stays recorded on its queue. -/
theorem setCandidateWalk_first (c : Candidate) {e : EntId} {rest : List EntId}
    (apart : (e :: rest).Pairwise fun a b => (s.ent a).sfq ≠ (s.ent b).sfq) :
    ((setCandidateWalk c s (e :: rest)).sfq (s.ent e).sfq).candidate c = some e := by
  have beside := (List.pairwise_cons.mp apart).1
  unfold setCandidateWalk
  rw [setCandidateWalk_beside (s := s.modSfq _ _) c _ fun a member => beside a member]
  simp only [State.modSfq, update_self]
  cases c <;> rfl

theorem setLastCandidate_thread (hier : s.view.Hier) (other : (s.td t).tdPriClass ≠ .idle) :
    ((setLastCandidate s (.thread t)).sfq (s.ent (.thread t)).sfq).last = some (.thread t) := by
  have counted : idleThreadEntity s (.thread t) = false := by
    rw [idleThreadEntity, seToTd_view, hier.threadQ]
    simpa using other
  obtain ⟨rest, chain, _, _, _⟩ := thread_chain hier t
  have apart := hier.queues_apart (hier.chain (e := .thread t) (Nat.lt_succ_self _))
  rw [chain] at apart
  rw [setLastCandidate, counted, chain]
  exact setCandidateWalk_first .last apart

/-- What is recorded is the waking thread, by whichever way the label is reached. -/
theorem pssCheckPreemptCurr_last (hier : s.view.Hier) (records : recordsLast s t)
    (run : pssCheckPreemptCurr s t = some s') :
    (s'.sfq (s.ent (.thread t)).sfq).last = some (.thread t) ∧ (s'.td s.curthread).needResched := by
  unfold recordsLast at records
  simp only [Bool.and_eq_true, Bool.or_eq_true, Bool.not_eq_true', decide_eq_true_eq] at records
  obtain ⟨⟨⟨⟨asked, sched⟩, crowded⟩, other⟩, way⟩ := records
  have preempt (a : State) (view : a.view = s.view) (steady : Steady s a) :
      let p := preemptCurr a s.curthread (.thread t)
        (s.tun.schedNrLatency ≤ (s.sfq (s.ent (.thread s.curthread)).sfq).nrRunning)
      (p.sfq (s.ent (.thread t)).sfq).last = some (.thread t) ∧ (p.td s.curthread).needResched := by
    have later := (reschedThread_unseen a s.curthread).1.trans view
    have hier' : (reschedThread a s.curthread).view.Hier := later ▸ hier
    have sfq : ((reschedThread a s.curthread).ent (.thread t)).sfq = (s.ent (.thread t)).sfq :=
      congrFun (congrArg View.sfq later) _
    have kept := (steady.trans (reschedThread_steady (s := a) (t := s.curthread))).priClass t
    have first := setLastCandidate_thread (t := t) hier' (by rw [kept]; exact other)
    have thread : (seToTd (reschedThread a s.curthread) (.thread t)).isSome := by
      rw [seToTd_view, hier'.threadQ]
      rfl
    have sched' : (reschedThread a s.curthread).tun.schedLast := by
      rw [show (reschedThread a s.curthread).tun = s.tun from steady.tun]
      exact sched
    dsimp only
    unfold preemptCurr
    rw [if_pos ⟨sched', decide_eq_true crowded, thread⟩, ← sfq]
    refine ⟨first, ?_⟩
    rw [setLastCandidate_td]
    simp [reschedThread, State.modTd]
  unfold pssCheckPreemptCurr at run
  dsimp only at run
  rw [asked, if_neg Bool.false_ne_true] at run
  split at run
  · cases run
    exact preempt s rfl (.refl s)
  · rename_i busy
    have awake : ¬(s.td s.curthread).tdPriClass = .idle := fun idle => busy ⟨idle, other⟩
    replace way := way.resolve_left awake
    obtain ⟨⟨curr, se⟩, found, done⟩ := Option.map_eq_some_iff.mp run
    rw [found] at way
    dsimp only at way done
    simp only [Bool.and_eq_true, decide_eq_true_eq] at way
    obtain ⟨wins, thread⟩ := way
    have same : se = .thread t := by
      cases se with
      | thread u => rw [walkup_thread hier (findCommonAncestor_mem found).2]
      | group g =>
        cases thread
    subst same
    rw [if_pos wins] at done
    rw [← done]
    refine preempt _ ?_ ?_
    · simp
    · exact ((updateCurr_steady ..).trans (wakeupPreemptEntity_steady ..)).trans (setNextCandidate_steady ..)

end last

section waking
variable {k : Kernel} {tun : Tunables} {ops : List Op} {s a s' : State} {t : Tid}

/-- When `sched_add` makes the current thread give way and a last candidate is recorded,
this is the waking thread, which is not above the current one. -/
theorem last_candidate (k : Kernel) (tun : Tunables) (ops : List Op) (s a s' : State) (t : Tid)
    (ran : run k tun ops = some s) (enabled : (Op.add t).enabled s)
    (queued : queuedState (setTdState s t .canRun) t = some a) (records : recordsLast (checkPriorityPreempt a t) t)
    (checked : pssCheckPreemptCurr (checkPriorityPreempt a t) t = some s') :
    s'.curthread = s.curthread ∧ (s'.td s.curthread).needResched ∧
    .thread t ∉ walkup s' (some (.thread s.curthread)) ∧
    (s'.sfq (s'.ent (.thread t)).sfq).last = some (.thread t) ∧
    ¬ ∀ e ∈ walkup s' (some (.thread t)), ∃ p ∈ walkup s' (some (.thread s.curthread)),
      (s'.sfq (s'.ent e).sfq).last = some p := by
  have stands := (run_free ran).settled.stands
  unfold Op.enabled at enabled
  simp only [Bool.and_eq_true, decide_eq_true_eq] at enabled
  obtain ⟨⟨⟨there, notIdle⟩, notRunq⟩, notRunning⟩ := enabled
  unfold State.live at there
  simp only [Bool.and_eq_true, Bool.not_eq_true'] at there
  have inside : t < s.view.nthreads := of_decide_eq_true there.1
  have other : t ≠ 1 := by
    rw [← show s.idlethread = 1 from stands.roster.idle.1]
    exact notIdle
  have apart : s.curthread ≠ t := by
    rintro rfl
    have fits := stands.roster.live _ inside there.2
    exact notRunning (fits.running.mpr rfl)
  have first := queuedState_reaches stands inside there.2 other ⟨notRunq, notRunning⟩ queued
  have unseen := checkPriorityPreempt_unseen a t
  have second := unseen.reaches first.inv
  have third := pssCheckPreemptCurr_reaches second.inv (fun never => never.elim) checked
  have current : a.curthread = s.curthread := congrArg Roster.curthread first.roster
  have current' : (checkPriorityPreempt a t).curthread = s.curthread :=
    (congrArg Roster.curthread second.roster).trans current
  obtain ⟨last, asked⟩ := pssCheckPreemptCurr_last second.inv.core.hier records checked
  have sfq : (s'.ent (.thread t)).sfq = ((checkPriorityPreempt a t).ent (.thread t)).sfq :=
    congrFun (congrArg View.Frame.sfq third.frame) _
  have alien : .thread t ∉ walkup s' (some (.thread s.curthread)) := fun member =>
    apart (walkup_thread third.inv.core.hier member).symm
  rw [← sfq] at last
  rw [current'] at asked
  refine ⟨(congrArg Roster.curthread third.roster).trans current', asked, alien, last, fun all => ?_⟩
  obtain ⟨p, above, same⟩ := all (.thread t) (List.mem_cons_self ..)
  cases last.symm.trans same
  exact alien above

end waking

/-- One entity is enough to count as a crowd, and the running thread is of class `PRI_IDLE`. -/
def idleGivesWay : List Op :=
  [.sysctl (.schedMinGranularity 6000000), .fork 0 false {}, .schedClass 0 .idle]

theorem idleGivesWay_ran :
    ∃ s a s', run plainKernel {} idleGivesWay = some s ∧ (Op.add 2).enabled s ∧
      queuedState (setTdState s 2 .canRun) 2 = some a ∧ recordsLast (checkPriorityPreempt a 2) 2 ∧
      pssCheckPreemptCurr (checkPriorityPreempt a 2) 2 = some s' := by
  have result : (run plainKernel {} idleGivesWay).bind (fun s =>
      (queuedState (setTdState s 2 .canRun) 2).bind fun a => (pssCheckPreemptCurr (checkPriorityPreempt a 2) 2).map fun _ =>
        ((Op.add 2).enabled s, recordsLast (checkPriorityPreempt a 2) 2)) = some (true, true) := by decide +kernel
  obtain ⟨s, ran, result⟩ := Option.bind_eq_some_iff.mp result
  obtain ⟨a, queued, result⟩ := Option.bind_eq_some_iff.mp result
  obtain ⟨s', checked, values⟩ := Option.map_eq_some_iff.mp result
  simp only [Prod.mk.injEq] at values
  exact ⟨s, a, s', ran, values.1, queued, values.2, checked⟩

theorem last_candidate_idle_gives_way :
    ∃ s s', run plainKernel {} idleGivesWay = some s ∧ .thread 2 ∉ walkup s' (some (.thread s.curthread)) ∧
      (s'.sfq (s'.ent (.thread 2)).sfq).last = some (.thread 2) := by
  obtain ⟨s, a, s', ran, enabled, queued, records, checked⟩ := idleGivesWay_ran
  have all := last_candidate _ _ _ s a s' 2 ran enabled queued records checked
  exact ⟨s, s', ran, all.2.2.1, all.2.2.2.1⟩

theorem last_candidate_not_preempted :
    ¬ ∀ (k : Kernel) (tun : Tunables) (ops : List Op) (s a s' : State) (t : Tid), run k tun ops = some s →
      (Op.add t).enabled s → queuedState (setTdState s t .canRun) t = some a →
      recordsLast (checkPriorityPreempt a t) t → pssCheckPreemptCurr (checkPriorityPreempt a t) t = some s' →
      ∀ e ∈ walkup s' (some (.thread t)), ∃ p ∈ walkup s' (some (.thread s'.curthread)),
        (s'.sfq (s'.ent e).sfq).last = some p := by
  intro claimed
  have result : (run plainKernel {} idleGivesWay).bind (fun s =>
      (queuedState (setTdState s 2 .canRun) 2).bind fun a => (pssCheckPreemptCurr (checkPriorityPreempt a 2) 2).map fun s' =>
        (((Op.add 2).enabled s, recordsLast (checkPriorityPreempt a 2) 2),
          (s'.ent (.thread 2)).sfq, (s'.sfq 0).last, walkup s' (some (.thread s'.curthread)))) =
      some ((true, true), 0, some (.thread 2), [.thread 0]) := by decide +kernel
  obtain ⟨s, ran, result⟩ := Option.bind_eq_some_iff.mp result
  obtain ⟨a, queued, result⟩ := Option.bind_eq_some_iff.mp result
  obtain ⟨s', checked, values⟩ := Option.map_eq_some_iff.mp result
  simp only [Prod.mk.injEq] at values
  obtain ⟨⟨enabled, records⟩, sfq, last, chain⟩ := values
  obtain ⟨p, above, same⟩ := claimed _ _ _ s a s' 2 ran enabled queued records checked (.thread 2) (List.mem_cons_self ..)
  rw [sfq, last] at same
  cases same
  rw [chain] at above
  simp at above

end SfqSched
