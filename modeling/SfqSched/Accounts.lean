import SfqSched.Membership
import Mathlib.Algebra.Order.BigOperators.Group.Finset

namespace SfqSched
open State Function

/-- No subtraction takes more than there is and, where that is asked, a pick is in its timeline. -/
def Event.Sound (picks : Prop) : Event → Prop
  | .subtract a b => b ≤ a
  | .pick _ timeline _ _ e => picks → e ∈ timeline
  | _ => True

/-- Steps that write down sound records only. -/
structure Records (picks : Prop) (s s' : State) : Prop where
  kept : (∀ ev ∈ s.journal, ev.Sound picks) → ∀ ev ∈ s'.journal, ev.Sound picks

namespace Records
variable {picks : Prop} {s s' s'' : State}

theorem refl (s : State) : Records picks s s := ⟨id⟩

theorem trans (h : Records picks s s') (h' : Records picks s' s'') : Records picks s s'' := ⟨h'.kept ∘ h.kept⟩

/-- The new events of the journal are sound. -/
theorem journal (fresh : List Event) (written : s'.journal = fresh ++ s.journal)
    (sound : ∀ ev ∈ fresh, ev.Sound picks) : Records picks s s' := by
  refine ⟨fun before ev member => ?_⟩
  rw [written, List.mem_append] at member
  exact member.elim (sound ev) (before ev)

/-- Where nothing is written, nothing can be wrong. -/
theorem silent (same : s'.journal = s.journal) : Records picks s s' := .journal [] same (by simp)

theorem books (same : s'.books = s.books) : Records picks s s' := .silent (congrArg Books.journal same)

/-- One more event, and a sound one. -/
theorem one (ev : Event) (written : s'.journal = ev :: s.journal) (sound : ev.Sound picks) : Records picks s s' :=
  .journal [ev] written fun _ member => List.mem_singleton.mp member ▸ sound

theorem marked {ok : Gid → EntId → Prop} (h : s.books.Marked ok s'.books) : Records picks s s' := by
  have rest := congrArg Books.journal h.rest
  exact .silent rest

end Records

/-- What `account_entity_dequeue` takes away is there. -/
structure View.Holds (v : View) (q : Nat) (e : EntId) : Prop where
  load : v.weight e ≤ v.qweight q
  top : v.parent e = none → v.weight e ≤ v.rqWeight
  count : 0 < v.nr q

/-- The load of a queue holds the weight of each entity that is joined to it. -/
theorem View.Core.holds {v : View} {L : List EntId} {e : EntId} (core : v.Core L) (joined : v.joined e)
    (pss : e.pss v.cls) : v.Holds (v.sfq e) e := by
  obtain ⟨load, count⟩ := (core.accounts (v.sfq e)).holds joined pss
  refine ⟨load, fun root => ?_, count⟩
  rw [core.rqWeight, ← core.hier.parent_none.mp root]
  exact load

/-- What `update_sfq_shares` takes away is there, if its queue belongs to a joined entity. -/
def View.Covers (v : View) (q : Nat) : Prop :=
  ∀ se, v.groupSe (v.owner q) = some se → v.joined se → v.Holds (v.sfq se) se

/-- The entity above a queue is held by the queue it is in itself. -/
theorem View.Core.covers {v : View} {L : List EntId} {q : Nat} (core : v.Core L) (inside : q < v.ngroups) :
    v.Covers q := by
  intro se owner joined
  rw [core.hier.owner q inside, core.hier.groupSe q inside] at owner
  obtain ⟨_, rfl⟩ := seOf_some owner
  exact core.holds joined (EntId.pss_group ..)

/-- More load and more entities cover no less. -/
theorem View.Covers.account {v : View} {q q' : Nat} {e : EntId} (covers : v.Covers q) : (v.account q' e).Covers q := by
  intro se owner joined
  obtain ⟨load, top, count⟩ := covers se owner joined
  have more (f : Nat → Nat) (n x : Nat) : f x ≤ update f q' (f q' + n) x := by
    by_cases here : x = q'
    · subst here
      simp
    · simp [here]
  refine ⟨load.trans (more v.qweight (v.weight e) _), fun root => (top root).trans ?_, count.trans_le (more v.nr 1 _)⟩
  change v.rqWeight ≤ if v.parent e = none then v.rqWeight + v.weight e else v.rqWeight
  split
  · exact Nat.le_add_right ..
  · exact le_rfl

section entities
variable {picks : Prop} {s s' : State} {q : Gid} {e : EntId} {flags : Nat}

/-- The journal's charges are what happened, so they are sound as they stand. -/
theorem updateCurr_records (s : State) (q : Gid) : Records picks s (updateCurr s q) := by
  rcases updateCurr_books s q with ⟨same, _⟩ | ⟨e, w, _, _, paid⟩
  · exact .books same
  · exact .one _ (congrArg Books.journal paid) trivial

theorem placeEntity_records (s : State) (q : Gid) (e : EntId) : Records picks s (placeEntity s q e) :=
  .one _ rfl trivial

theorem addVtime_records (s : State) (q : Gid) (e : EntId) : Records picks s (addVtime s q e) := .one _ rfl trivial
theorem subVtime_records (s : State) (q : Gid) (e : EntId) : Records picks s (subVtime s q e) := .one _ rfl trivial

/-- A weight is taken off a load that holds it. -/
theorem accountEntityDequeue_records (holds : s.view.Holds q e) : Records picks s (accountEntityDequeue s q e) := by
  refine .journal (s.view.subtractions q e) (congrArg Books.journal (accountEntityDequeue_books ..)) ?_
  intro ev member
  simp only [View.subtractions, List.mem_cons, List.mem_append, List.not_mem_nil, or_false] at member
  rcases member with rfl | rest | rfl
  · exact holds.count
  · split at rest
    · rename_i root
      cases List.mem_singleton.mp rest
      exact holds.top root
    · cases rest
  · exact holds.load

/-- The old weight is taken off where it is held, and the new one is put on. -/
theorem updateEntityWeight_records (w : Nat) (holds : s.view.joined e → s.view.Holds q e) :
    Records picks s (updateEntityWeight s q e w) := by
  have first : Records picks s (if (s.sfq q).curr = some e then updateCurr s q else s) := by
    split
    · exact updateCurr_records ..
    · exact .refl s
  have look : (if (s.sfq q).curr = some e then updateCurr s q else s).view = s.view := by
    split
    · exact updateCurr_view ..
    · rfl
  unfold updateEntityWeight
  split
  · rename_i joined
    refine first.trans ((accountEntityDequeue_records (q := q) (e := e) ?_).trans ?_)
    · rw [look]
      exact holds joined
    · have stored (s : State) : Records picks s (s.modEnt e fun ent => { ent with load := loadSet w }) := .silent rfl
      have counted (s : State) : Records picks s (accountEntityEnqueue s q e) := .books (accountEntityEnqueue_books ..)
      exact (stored _).trans (counted _)
  · exact .silent rfl

/-- The weight that is exchanged is that of a joined group. -/
theorem updateSfqShares_records (covers : s.view.Covers q) : Records picks s (updateSfqShares s q) := by
  unfold updateSfqShares
  dsimp only
  split
  · exact .refl s
  · rename_i se owner
    split
    · exact .refl s
    · exact updateEntityWeight_records _ (covers se owner)

/-- The realtime queue keeps no account. -/
theorem setRunq_records (run : setRunq s e flags = some s') : Records picks s s' := by
  unfold setRunq at run
  split at run
  · dsimp only at run
    split at run
    · exact .books (rawRunqEnqueue_spec _ _ run).2
    · cases run
      exact .silent rfl
  · cases run
    exact .refl s

theorem rawEnqueueEntity_records (run : rawEnqueueEntity s q e = some s') : Records picks s s' := by
  obtain ⟨_, _, _, _, _, new, _⟩ := rawEnqueueEntity_spec _ _ _ run
  exact .one _ (congrArg Books.journal new) trivial

theorem rawDequeueEntity_records (run : rawDequeueEntity s q e = some s') : Records picks s s' := by
  obtain ⟨_, _, new⟩ := rawDequeueEntity_spec _ _ _ run
  exact .silent (congrArg Books.journal new)

/-- What joins is added, and the shares above are exchanged soundly. -/
theorem enqueueEntity_records {L : List EntId} (core : s.view.Core L) (inside : q < s.view.ngroups)
    (run : enqueueEntity s q e flags = some s') : Records picks s s' := by
  obtain ⟨_, a, b, first, second, rfl⟩ := enqueueEntity_parts run
  have before : Records picks s (enqueueVruntime s q e flags) := by
    unfold enqueueVruntime
    by_cases wakeup : flags &&& enqueueWakeup = 0
    · simp only [wakeup, if_true, ne_eq, not_true_eq_false, if_false]
      exact (addVtime_records ..).trans (updateCurr_records ..)
    · simp only [wakeup, if_false, ne_eq, not_false_eq_true, if_true]
      exact (updateCurr_records ..).trans (placeEntity_records ..)
  have covers : b.view.Covers q := by
    obtain ⟨⟨boosted, _, look⟩, _⟩ := setRunq_spec (by simpa using core.hier) first
    obtain ⟨_, look', _⟩ := rawEnqueueEntity_spec _ _ _ second
    rw [look', look, enqueueVruntime_view]
    intro se owner joined
    exact { core.covers inside se owner joined with }
  have after : Records picks b (enqueueAccount b q e) := by
    have listed (s : State) : Records picks s (if (s.sfq q).nrRunning = 1 then addLeafSfq s q else s) := by
      split
      · exact .books (addLeafSfq_books ..)
      · exact .refl s
    have joins (s : State) : Records picks s ((s.emit (.join q e)).modEnt e fun ent => { ent with joined := true }) :=
      .one _ rfl trivial
    have counted : Records picks b (accountEntityEnqueue b q e) := .books (accountEntityEnqueue_books ..)
    have shares : Records picks (accountEntityEnqueue b q e) (updateSfqShares (accountEntityEnqueue b q e) q) := by
      refine updateSfqShares_records ?_
      rw [accountEntityEnqueue_view]
      exact covers.account
    exact counted.trans (shares.trans ((listed _).trans (joins _)))
  exact (before.trans (setRunq_records first)).trans ((rawEnqueueEntity_records second).trans after)

/-- What leaves was held, so it can be taken off. -/
theorem dequeueEntity_records {L : List EntId} (core : s.view.Core L) (pss : e.pss s.view.cls)
    (run : dequeueEntity s (s.view.sfq e) e flags = some s') : Records picks s s' := by
  by_cases joined : s.view.joined e
  · obtain ⟨a, first, rfl⟩ := dequeueEntity_parts run joined
    have off (s : State) : Records picks s (runqDequeueEntity s e) := .books (runqDequeueEntity_books ..)
    have before : Records picks s (dequeueClear s (s.view.sfq e) e) :=
      ((updateCurr_records ..).trans (off _)).trans (.marked (clearCandidates_marked (r := fun _ _ => False) ..))
    have middle : Records picks (dequeueClear s (s.view.sfq e) e) a := by
      split at first
      · exact rawDequeueEntity_records first
      · cases first
        exact .refl _
    have look : a.view = (s.view.unboosted e).withdraw (s.view.sfq e) e := dequeueClear_off core first
    have leaves : Records picks a (dequeueLeave a (s.view.sfq e) e flags) := by
      have taken : Records picks a (accountEntityDequeue a (s.view.sfq e) e) := by
        refine accountEntityDequeue_records ?_
        rw [look]
        exact { core.holds joined pss with }
      have parts : Records picks a (((accountEntityDequeue a (s.view.sfq e) e).emit (.leave (s.view.sfq e) e)).modEnt e
          fun ent => { ent with joined := false }) := taken.trans (.one _ rfl trivial)
      unfold dequeueLeave
      dsimp only
      split
      · exact parts.trans (subVtime_records ..)
      · exact parts
    have moved (s : State) (q : Gid) : Records picks s (updateSfqVtime s q) := .books (updateSfqVtime_books ..)
    have shares : Records picks (updateSfqVtime (dequeueLeave a (s.view.sfq e) e flags) (s.view.sfq e))
        (dequeueAccount a (s.view.sfq e) e flags) := by
      refine updateSfqShares_records ?_
      rw [updateSfqVtime_view, dequeueLeave_view, look]
      exact (core.dequeued joined pss).covers (core.hier.inside e)
    exact (before.trans middle).trans (leaves.trans ((moved ..).trans shares))
  · rw [dequeueEntity_apart run (by simpa using joined)]
    exact .refl s

/-- The entity that had the CPU stays joined and held. -/
theorem putPrevEntity_records (run : putPrevEntity s q e flags = some s') : Records picks s s' := by
  have releases (s : State) : Records picks s (putPrevRelease s q e) := .one _ rfl trivial
  rcases putPrevEntity_parts run with ⟨_, rfl⟩ | ⟨_, a, b, first, second, rfl⟩
  · exact releases s
  · have charges : Records picks s (putPrevCharge s q e flags) := by
      unfold putPrevCharge
      split
      · exact (Records.marked (setSkipWalk_marked ..)).trans (updateCurr_records ..)
      · exact updateCurr_records ..
    exact charges.trans ((setRunq_records first).trans ((rawEnqueueEntity_records second).trans (releases b)))

/-- The entity that gets the CPU stays joined and held. -/
theorem activateEntity_records (run : activateEntity s q e = some s') : Records picks s s' := by
  obtain ⟨_, a, first, _, rfl⟩ := activateEntity_parts run
  have off : Records picks s (runqDequeueEntity s e) := .books (runqDequeueEntity_books ..)
  have starts : Records picks a (activateStart a q e) := .one _ rfl trivial
  exact off.trans ((rawDequeueEntity_records first).trans starts)

theorem pssPutPrevWalk_records {chain : List EntId} (run : pssPutPrevWalk s chain flags = some s') : Records picks s s' := by
  induction chain generalizing s with
  | nil =>
    cases run
    exact .refl _
  | cons se rest ih =>
    unfold pssPutPrevWalk at run
    split at run
    · cases run
    · rename_i step
      exact (putPrevEntity_records step).trans (ih run)

theorem pssActivateWalk_records {chain : List EntId} (run : pssActivateWalk s chain = some s') : Records picks s s' := by
  induction chain generalizing s with
  | nil =>
    cases run
    exact .refl _
  | cons se rest ih =>
    unfold pssActivateWalk at run
    split at run
    · cases run
    · rename_i step
      exact (activateEntity_records step).trans (ih run)

theorem pickNextEntity_records (run : pickNextEntity s q = some (e, s')) (inside : picks → e ∈ s.books.seq q) :
    Records picks s s' := by
  obtain ⟨first, gran, a, _, _, books, _, rfl, _⟩ := pickNextEntity_spec run
  have noted : Records picks a (a.emit (.pick q (s.books.seq q) first gran e)) := .one _ rfl inside
  exact (Records.books books).trans (noted.trans (.marked (clearCandidates_marked (r := fun _ _ => False) ..)))

end entities

section runs
variable {C : Conds} {picks : Prop} {s s' : State} {L : List EntId} {d : Option EntId}

theorem Flow.records (inv : Inv C s L d) (step : Flow C s s')
    (chosen : picks → ∀ q e a, s.view.vacant → pickNextEntity s q = some (e, a) → e ∈ s.books.seq q) :
    Records picks s s' := by
  cases step with
  | quiet same => exact .books same.books
  | clock run =>
    rw [run]
    exact .silent rfl
  | charge q run =>
    rw [run]
    exact updateCurr_records s q
  | reshare q inside run =>
    rw [run]
    exact updateSfqShares_records (inv.core.covers inside)
  | enqueue e flags run => exact enqueueEntity_records inv.core (inv.core.hier.inside e) run
  | start t flags initial run =>
    have look : (updateRqClock (s.modEnt (.thread t) fun se => { se with initial := false })).view =
        { s.view with initial := update s.view.initial (.thread t) false } := by
      change (s.modEnt (.thread t) fun se => { se with initial := false }).view = _
      rw [view_modEnt]
      simp
    have core : (updateRqClock (s.modEnt (.thread t) fun se => { se with initial := false })).view.Core L :=
      (inv.of_bones (by rw [look]; rfl)).core
    refine Records.trans ?_ (enqueueEntity_records core ?_ run)
    · exact .silent rfl
    · rw [look]
      exact inv.core.hier.inside _
  | dequeue e flags run seated => exact dequeueEntity_records inv.core seated.2 run
  | putPrev t flags run =>
    obtain ⟨a, walk, rfl⟩ := Option.map_eq_some_iff.mp run
    exact (pssPutPrevWalk_records walk).trans (.one _ rfl trivial)
  | activate t run =>
    obtain ⟨a, walk, rfl⟩ := Option.map_eq_some_iff.mp run
    exact (pssActivateWalk_records walk).trans (.one _ rfl trivial)
  | mark ok view marked => exact .marked marked
  | uncount t run enough =>
    unfold rqRunRem at run
    split at run
    · cases run
    · rename_i counted
      have first : Records picks s ((s.emit (.subtract s.rq.nrRunning 1)).modRq fun rq =>
          { rq with nrRunning := rq.nrRunning - 1 }) :=
        .one (.subtract s.rq.nrRunning 1) rfl (Nat.pos_of_ne_zero counted)
      cases run
      split
      · exact first
      · rename_i loads
        exact first.trans (.one (.subtract s.rq.nrSysrunning 1) rfl (enough (Bool.eq_false_iff.mpr loads)))
  | choose run =>
    rw [run]
    exact .one _ rfl trivial
  | pick q e run vacant => exact pickNextEntity_records run fun asked => chosen asked q e s' vacant run
  | rtActivate t run =>
    obtain ⟨_, _, ⟨_, books⟩, _⟩ := rtActivateThread_spec run
    exact .silent (congrArg Books.journal books)

theorem pssForkPlace_records (s : State) (parent child : Tid) : Records picks s (pssForkPlace s parent child) := by
  unfold pssForkPlace
  dsimp only
  have clock : Records picks s (updateRqClock s) := .silent rfl
  refine (clock.trans (updateCurr_records _ (s.ent (.thread parent)).sfq)).trans ?_
  generalize updateCurr (updateRqClock s) (s.ent (.thread parent)).sfq = a
  have place (s : State) (q : Gid) : Records picks s (placeEntityInitial s q (.thread child)) := by
    obtain ⟨_, books⟩ := placeEntityInitial_books s q (.thread child)
    exact .silent (congrArg Books.journal books)
  refine Records.trans ?_ (place ..)
  exact .silent rfl

theorem fork_records (s : State) (parent : Tid) (newProc : Bool) (stale : SchedEntity) :
    Records picks s (fork s parent newProc stale) := by
  have alloc : Records picks s (forkAlloc s parent newProc) := by
    cases newProc <;> exact .silent rfl
  have init (s : State) (child : Tid) : Records picks s (schedForkInit s parent child stale) := .silent rfl
  unfold fork schedForkThread
  dsimp only
  split
  · refine (alloc.trans (init _ s.nthreads)).trans ?_
    unfold pssForkThread
    dsimp only
    split
    · have swap (s : State) (child : Tid) : Records picks s (pssForkSwap s parent child) := .one _ rfl trivial
      exact (pssForkPlace_records ..).trans ((swap ..).trans (.one _ rfl trivial))
    · exact (pssForkPlace_records ..).trans (.one _ rfl trivial)
  · exact (alloc.trans (init _ s.nthreads)).trans (.one _ rfl trivial)

theorem pssSchedGroupMove_records (s : State) (t : Tid) (onRq : Bool) : Records picks s (pssSchedGroupMove s t onRq) := by
  have moved (s : State) : Records picks s (setThreadRq s t) := .silent rfl
  unfold pssSchedGroupMove
  dsimp only
  split
  · exact (subVtime_records ..).trans ((moved _).trans (addVtime_records ..))
  · exact moved s

theorem pssSwitchedFrom_records (s : State) (t : Tid) : Records picks s (pssSwitchedFrom s t) := by
  unfold pssSwitchedFrom
  dsimp only
  split
  · exact (placeEntity_records ..).trans (subVtime_records ..)
  · exact .refl s

theorem Micro.records (inv : Inv C s L d) (step : Micro C s s')
    (chosen : picks → ∀ q e a, s.view.vacant → pickNextEntity s q = some (e, a) → e ∈ s.books.seq q) :
    Records picks s s' := by
  cases step with
  | flow step => exact step.records inv chosen
  | recast t priClass cls run =>
    rw [run]
    exact .silent rfl
  | switchedFrom t priClass cls run =>
    rw [run]
    refine Records.trans ?_ (pssSwitchedFrom_records ..)
    exact .silent rfl
  | switchedTo t priClass run =>
    rw [run]
    exact .one _ rfl trivial
  | weigh t run =>
    rw [run]
    exact .silent rfl
  | nice p nice range run =>
    rw [run]
    exact .silent rfl
  | move t onRq run =>
    rw [run]
    exact pssSchedGroupMove_records ..
  | fork parent newProc stale run =>
    rw [run]
    exact fork_records ..
  | exit t run =>
    rw [run]
    exact .silent rfl
  | setShares g shares run =>
    rw [run]
    exact .silent rfl
  | create parent shares run =>
    rw [run]
    exact .silent rfl
  | sysctl write tun new run =>
    rw [run]
    exact .silent rfl

theorem Path.records (h : Path C s s') : Records False s s' := by
  induction h with
  | refl => exact .refl _
  | step inv micro _ ih => exact (micro.records inv False.elim).trans ih

theorem bootQueues_sound (k : Kernel) (tun : Tunables) : ∀ ev ∈ (bootQueues k tun).journal, ev.Sound picks := by
  intro ev member
  cases member

/-- No subtraction of a run underflows. -/
theorem Runs.solvent {k : Kernel} {tun : Tunables} {ops : List Op} (runs : Runs C k tun ops s) (a b : Nat)
    (member : .subtract a b ∈ s.journal) : b ≤ a :=
  runs.path.records.kept (bootQueues_sound k tun) _ member

end runs

/-- A joined thread belongs to one of the two classes with queues. -/
theorem Settled.classed {C : Conds} {s : State} (settled : Settled C s) {t : Tid} (joined : s.view.joined (.thread t)) :
    s.view.cls t = .pss ∨ s.view.cls t = .realtime := by
  have ok := settled.stands.roster
  have inside : t < s.view.nthreads := settled.stands.inv.core.valid (.thread t) joined
  have alive : s.view.exited t = false := by
    by_contra gone
    exact Bool.noConfusion ((ok.dead t inside (Bool.eq_true_of_not_eq_false gone)).symm.trans joined)
  cases cls : s.view.cls t with
  | pss => exact .inl rfl
  | realtime => exact .inr rfl
  | idle => exact Bool.noConfusion (((ok.live t inside alive).idle cls).symm.trans joined)

/-- Loads and counts are those of the entities and threads that are joined, and no
subtraction that led there took more than there was. -/
theorem load_accounts (k : Kernel) (tun : Tunables) (ops : List Op) (s : State) (ran : run k tun ops = some s) :
    (∀ q, ∃ m : Finset EntId,
      (∀ e, e ∈ m ↔ (s.ent e).joined ∧ e.pss (fun t => (s.td t).cls) ∧ (s.ent e).sfq = q) ∧
      (s.sfq q).load.weight = ∑ e ∈ m, (s.ent e).load.weight ∧ (s.sfq q).nrRunning = m.card) ∧
    (∃ m : Finset EntId,
      (∀ e, e ∈ m ↔ (s.ent e).joined ∧ e.pss (fun t => (s.td t).cls) ∧ (s.ent e).parent = none) ∧
      s.rq.load.weight = ∑ e ∈ m, (s.ent e).load.weight) ∧
    (∃ m : Finset Tid,
      (∀ t, t ∈ m ↔ (s.ent (.thread t)).joined ∧ ((s.td t).cls = .pss ∨ (s.td t).cls = .realtime)) ∧
      s.rq.nrRunning = m.card ∧ s.rq.nrSysrunning = (m.filter fun t => (s.td t).noLoad = false).card) ∧
    ∀ a b, .subtract a b ∈ s.journal → b ≤ a := by
  have runs := run_free ran
  have core := runs.settled.stands.inv.core
  refine ⟨core.accounts, ?_, ?_, runs.solvent⟩
  · obtain ⟨m, mem, load, _⟩ := core.accounts 0
    refine ⟨m, fun e => (mem e).trans (and_congr_right fun _ => and_congr_right fun _ => ?_), core.rqWeight.trans load⟩
    exact core.hier.parent_none.symm
  · obtain ⟨m, mem, count, loaded⟩ := runs.settled.stands.roster.counted
    refine ⟨m, fun t => (mem t).trans ⟨fun joined => ?_, And.left⟩, count, loaded⟩
    exact ⟨joined, runs.settled.classed joined⟩

theorem load_accounts_grouped :
    ∃ s, run plainKernel {} groupedWaiter = some s ∧ (∃ m : Finset EntId,
      (∀ e, e ∈ m ↔ (s.ent e).joined ∧ e.pss (fun t => (s.td t).cls) ∧ (s.ent e).sfq = 1) ∧
      (s.sfq 1).load.weight = ∑ e ∈ m, (s.ent e).load.weight ∧ (s.sfq 1).nrRunning = m.card) := by
  have ends : (run plainKernel {} groupedWaiter).isSome := by decide +kernel
  obtain ⟨s, ran⟩ := Option.isSome_iff_exists.mp ends
  exact ⟨s, ran, (load_accounts plainKernel {} groupedWaiter s ran).1 1⟩

/-- A joined realtime thread has no parent either, and weighs nothing in the run queue. -/
theorem load_accounts_realtime :
    ¬ ∀ (k : Kernel) (tun : Tunables) (ops : List Op) (s : State), run k tun ops = some s →
      ∃ m : Finset EntId, (∀ e, e ∈ m ↔ (s.ent e).joined ∧ (s.ent e).parent = none) ∧
        s.rq.load.weight = ∑ e ∈ m, (s.ent e).load.weight := by
  intro claimed
  have result : (run plainKernel {} realtimeWaiter).map (fun s =>
      (((s.ent (.thread 0)).joined, (s.ent (.thread 0)).parent, (s.ent (.thread 0)).load.weight),
        ((s.ent (.thread 2)).joined, (s.ent (.thread 2)).parent, (s.ent (.thread 2)).load.weight),
        s.rq.load.weight)) = some ((true, none, 1024), (true, none, 1024), 1024) := by decide +kernel
  obtain ⟨s, ran, values⟩ := Option.map_eq_some_iff.mp result
  simp only [Prod.mk.injEq] at values
  obtain ⟨⟨joined, top, weight⟩, ⟨joined', top', weight'⟩, load⟩ := values
  obtain ⟨m, mem, total⟩ := claimed _ _ _ s ran
  have both : ({.thread 0, .thread 2} : Finset EntId) ⊆ m := by
    intro e member
    rcases Finset.mem_insert.mp member with rfl | last
    · exact (mem _).mpr ⟨joined, top⟩
    · cases Finset.mem_singleton.mp last
      exact (mem _).mpr ⟨joined', top'⟩
  have less := Finset.sum_le_sum_of_subset (f := fun e => (s.ent e).load.weight) both
  rw [Finset.sum_pair (by decide), weight, weight', ← total, load] at less
  exact absurd less (by decide)

end SfqSched
