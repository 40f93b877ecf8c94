import SfqSched.LeafList
import SfqSched.Settings

namespace SfqSched
open State Function

section frame
variable {s s' : State} {freed : List Gid} {t : Tid}

/-- What only schedules leaves the list and the tree alone. -/
theorem Cover.Within.leaves (h : Changes scheduling s s') : s'.leaves = s.leaves := h.read State.leaves fun _ => rfl

theorem Cover.Within.place (h : Changes scheduling s s') (e : EntId) : (s'.ent e).sfq = (s.ent e).sfq :=
  h.read (fun s => (s.ent e).sfq) fun _ => rfl

/-- The pointers between entities, queues and groups stay. -/
theorem Cover.Within.hier (h : Changes (scheduling ⊔ listing) s s') (hier : s.view.Hier) : s'.view.Hier := by
  have settings := h.settings
  have ngroups : s'.view.ngroups = s.view.ngroups := congrArg Settings.ngroups settings
  have se (g : Gid) : s'.view.groupSe g = s.view.groupSe g := h.read (fun s => (s.grp g).se) fun _ => rfl
  have sfq (g : Gid) : s'.view.groupSfq g = s.view.groupSfq g := h.read (fun s => (s.grp g).sfq) fun _ => rfl
  have queue (e : EntId) : s'.view.sfq e = s.view.sfq e := congrFun (congrArg Settings.queue settings) e
  have tdGroup (u : Tid) : s'.view.tdGroup u = s.view.tdGroup u := congrFun (congrArg Settings.group settings) u
  have owner (q : Gid) : s'.view.owner q = s.view.owner q := h.read (fun s => (s.sfq q).group) fun _ => rfl
  have myQ (e : EntId) : s'.view.myQ e = s.view.myQ e := h.read (fun s => (s.ent e).myQ) fun _ => rfl
  have parent (e : EntId) : s'.view.parent e = s.view.parent e := h.read (fun s => (s.ent e).parent) fun _ => rfl
  constructor
  case positive => exact ngroups ▸ hier.positive
  case groupSe => exact fun g inside => (se g).trans (hier.groupSe g (ngroups ▸ inside))
  case groupSfq => exact fun g inside => (sfq g).trans (hier.groupSfq g (ngroups ▸ inside))
  case owner => exact fun g inside => (owner g).trans (hier.owner g (ngroups ▸ inside))
  case threadQ => exact fun u => (myQ _).trans (hier.threadQ u)
  case groupQ => exact fun g pos inside => (myQ _).trans (hier.groupQ g pos (ngroups ▸ inside))
  case lower => exact fun g => (queue _).trans_le (hier.lower g)
  case inside => exact fun e => ngroups ▸ (queue e).trans_lt (hier.inside e)
  case link =>
    intro e
    rw [parent, queue]
    exact hier.link e
  case tdGroup => exact fun u => ngroups ▸ (tdGroup u).trans_lt (hier.tdGroup u)

end frame

/-- The list is in order, and the pointers along which queues are added are those of the tree. -/
structure Leafy (s : State) (freed : List Gid) : Prop where
  hier : s.view.Hier
  ok : s.leaves.Ok freed

/-- The list stays in order, and a queue that fits still does. -/
structure Grows (freed : List Gid) (s s' : State) : Prop where
  leafy : Leafy s' freed
  ngroups : s'.ngroups = s.ngroups
  fits : ∀ q, s.leaves.fits freed q → s'.leaves.fits freed q

section grows
variable {s s' s'' : State} {freed : List Gid} {t : Tid} {q : Gid} {e : EntId} {flags : Nat}

theorem Grows.trans (first : Grows freed s s') (second : Grows freed s' s'') : Grows freed s s'' :=
  ⟨second.leafy, second.ngroups.trans first.ngroups, fun q fit => second.fits q (first.fits q fit)⟩

theorem Cover.Within.grows (h : Changes scheduling s s') (leafy : Leafy s freed) : Grows freed s s' := by
  refine ⟨⟨(h.mono le_sup_left).hier leafy.hier, ?_⟩, congrArg Leaves.ngroups h.leaves, fun q fit => ?_⟩
  · rw [h.leaves]
    exact leafy.ok
  · rw [h.leaves]
    exact fit

/-- What fits before an operation that only schedules fits behind it. -/
theorem Cover.Within.fit (h : Changes scheduling s s') (fit : s.leaves.fits freed (s.ent e).sfq) :
    s'.leaves.fits freed (s'.ent e).sfq := by
  rw [h.leaves, h.place]
  exact fit

theorem Leafy.parent_lt (leafy : Leafy s freed) (e : EntId) (p : Gid) (parent : (s.grp (s.ent e).sfq).parent = some p) :
    p < (s.ent e).sfq := (leafy.ok.tree.parent_some (leafy.hier.inside e) parent).2.2

/-- `enqueue_entity` adds its queue or leaves the list alone. -/
theorem enqueueEntity_leaves (leafy : Leafy s freed) (run : enqueueEntity s (s.ent e).sfq e flags = some s') :
    s'.leaves = s.leaves ∨ s'.leaves = s.leaves.add (s.ent e).sfq := by
  obtain ⟨a, before, after⟩ := enqueueEntity_lists run
  have before := before.mono dispatching_scheduling
  have same := before.place e
  have leafy' := (before.grows leafy).leafy
  rcases after with rest | rest
  · exact .inl ((rest.mono dispatching_scheduling).leaves.trans before.leaves)
  · refine .inr ((rest.mono dispatching_scheduling).leaves.trans ?_)
    have added : (addLeafSfq a (a.ent e).sfq).leaves = a.leaves.add (a.ent e).sfq :=
      addLeafSfq_leaves leafy'.hier (leafy'.hier.inside e) (leafy'.parent_lt e)
    rw [same, before.leaves] at added
    exact added

theorem enqueueEntity_place (run : enqueueEntity s q e flags = some s') (f : EntId) : (s'.ent f).sfq = (s.ent f).sfq :=
  congrFun (congrArg Settings.queue ((enqueueEntity_changes run).mono dispatching_listing).settings) f

/-- Above a queue that is on the list nothing is added. -/
theorem pssEnqueueWalk_leaves {chain : List EntId} (leafy : Leafy s freed)
    (listed : ∀ e ∈ chain, s.leaves.onList (s.ent e).sfq = true) (run : pssEnqueueWalk s chain flags = some s') :
    s'.leaves = s.leaves := by
  induction chain generalizing s flags with
  | nil => exact congrArg State.leaves (Option.some.inj run).symm
  | cons e rest ih =>
    unfold pssEnqueueWalk at run
    split at run
    · cases run
      exact ((updateSharesWalk_changes ..).mono (weighing_dispatching.trans dispatching_scheduling)).leaves
    · split at run
      · cases run
      · rename_i a step
        have same : a.leaves = s.leaves := by
          rcases enqueueEntity_leaves leafy step with same | added
          · exact same
          · rw [added, Leaves.add_listed (listed e (List.mem_cons_self ..))]
        have hier := ((enqueueEntity_changes step).mono dispatching_listing).hier leafy.hier
        refine (ih ⟨hier, same ▸ leafy.ok⟩ (fun f member => ?_) run).trans same
        rw [same, enqueueEntity_place step]
        exact listed f (List.mem_cons_of_mem _ member)

/-- The queues above one that fits are on the list. -/
theorem Leafy.chain (leafy : Leafy s freed) (fit : s.leaves.fits freed (s.ent (.thread t)).sfq) :
    ∃ rest, walkup s (some (.thread t)) = .thread t :: rest ∧ ∀ e ∈ rest, s.leaves.onList (s.ent e).sfq = true := by
  obtain ⟨rest, eq, chain, _⟩ := thread_chain leafy.hier t
  have up {e b : EntId} (parent : s.view.parent e = some b) :
      s.leaves.parent (s.ent e).sfq = some (s.ent b).sfq := by
    obtain ⟨pos, inside, rfl⟩ := leafy.hier.parent_some parent
    exact (leafy.ok.tree.parent _ pos inside).1
  refine ⟨rest, eq, chain.all (fun e parent => ?_) fun e b listed parent => leafy.ok.closed _ _ listed (up parent)⟩
  simp only [Leaves.fits, Bool.or_eq_true, Bool.and_eq_true, decide_eq_true_eq, Option.any_eq_true] at fit
  rcases fit with listed | ⟨_, p, above, listed⟩
  · exact leafy.ok.closed _ _ listed (up parent)
  · rwa [← Option.some.inj (above.symm.trans (up parent))]

/-- The walk adds the queue of the thread or leaves the list alone. -/
theorem pssEnqueueThread_leaves (leafy : Leafy s freed) (fit : s.leaves.fits freed (s.ent (.thread t)).sfq)
    (run : pssEnqueueThread s t flags = some s') :
    s'.leaves = s.leaves ∨ s'.leaves = s.leaves.add (s.ent (.thread t)).sfq := by
  obtain ⟨rest, eq, above⟩ := leafy.chain fit
  obtain ⟨a, walk, rfl⟩ := Option.map_eq_some_iff.mp run
  rw [((rqRunAdd_changes a t).mono dispatching_scheduling).leaves]
  rw [eq] at walk
  unfold pssEnqueueWalk at walk
  split at walk
  · cases walk
    exact .inl ((updateSharesWalk_changes ..).mono (weighing_dispatching.trans dispatching_scheduling)).leaves
  · split at walk
    · cases walk
    · rename_i b step
      have hier := ((enqueueEntity_changes step).mono dispatching_listing).hier leafy.hier
      rcases enqueueEntity_leaves leafy step with same | added
      · refine .inl ((pssEnqueueWalk_leaves ⟨hier, same ▸ leafy.ok⟩ (fun e member => ?_) walk).trans same)
        rw [same, enqueueEntity_place step]
        exact above e member
      · have ok := leafy.ok.add (leafy.hier.inside (.thread t)) fit
        refine .inr ((pssEnqueueWalk_leaves ⟨hier, added ▸ ok⟩ (fun e member => ?_) walk).trans added)
        rw [added, enqueueEntity_place step, (Leaves.add_rest ..).2.2.2.2, above e member, ite_self]

theorem pssEnqueueThread_grows (leafy : Leafy s freed) (fit : s.leaves.fits freed (s.ent (.thread t)).sfq)
    (run : pssEnqueueThread s t flags = some s') : Grows freed s s' := by
  have hier := ((pssEnqueueThread_changes run).mono dispatching_listing).hier leafy.hier
  rcases pssEnqueueThread_leaves leafy fit run with same | added
  · exact ⟨⟨hier, same ▸ leafy.ok⟩, congrArg Leaves.ngroups same, fun q fits => same ▸ fits⟩
  · have ok := leafy.ok.add (leafy.hier.inside (.thread t)) fit
    have ngroups := (congrArg Leaves.ngroups added).trans (Leaves.add_rest ..).1
    exact ⟨⟨hier, added ▸ ok⟩, ngroups, fun q fits => added ▸ Leaves.fits_add fits⟩

theorem classEnqueueThread_grows {cls : SchedClass} (leafy : Leafy s freed)
    (fit : cls = .pss → s.leaves.fits freed (s.ent (.thread t)).sfq) (run : classEnqueueThread cls s t flags = some s') :
    Grows freed s s' := by
  cases cls with
  | realtime => exact ((rtEnqueueThread_changes run).mono dispatching_scheduling).grows leafy
  | pss => exact pssEnqueueThread_grows leafy (fit rfl) run
  | idle =>
    have same : Changes scheduling s s' := .of_eq (Option.some.inj run).symm
    exact same.grows leafy

theorem enqueueThread_grows (leafy : Leafy s freed)
    (fit : (s.td t).cls = .pss → s.leaves.fits freed (s.ent (.thread t)).sfq) (run : enqueueThread s t flags = some s') :
    Grows freed s s' := by
  have clock := (updateRqClock_changes s).mono (ticking_dispatching.trans dispatching_scheduling)
  have grown := clock.grows leafy
  exact grown.trans (classEnqueueThread_grows grown.leafy (fun pss => clock.fit (fit pss)) run)

end grows

section operations
variable {C : Conds} {s s' : State} {freed : List Gid} {t : Tid} {g : Gid}

/-- The thread is on a run queue or running. -/
def State.active (s : State) (t : Tid) : Bool := (s.td t).tdState = .runq ∨ (s.td t).tdState = .running

theorem schedAdd_grows (leafy : Leafy s freed)
    (fit : (s.td t).cls = .pss → s.leaves.fits freed (s.ent (.thread t)).sfq) (run : schedAdd s t = some s') :
    Grows freed s s' := by
  obtain ⟨a, enq, check⟩ := Option.bind_eq_some_iff.mp run
  have begun : Changes scheduling s (s.modEnt (.thread t) fun se => { se with initial := false }) := .modEnt _ _ _ rfl
  have first := begun.grows leafy
  have second := enqueueThread_grows first.leafy (fun pss => begun.fit (fit pss)) enq
  exact (first.trans second).trans (((checkPreemptCurr_changes check).mono preempting_scheduling).grows second.leafy)

theorem schedClass_grows {priClass : PriClass} (leafy : Leafy s freed)
    (fit : (s.td t).tdPriClass ≠ priClass → getSchedClass s t priClass = .pss → s.active t →
      s.leaves.fits freed (s.ent (.thread t)).sfq)
    (run : schedClass s t priClass = some s') : Grows freed s s' := by
  unfold schedClass at run
  split at run
  · have same : Changes scheduling s s' := .of_eq (Option.some.inj run).symm
    exact same.grows leafy
  · rename_i other
    have stored (a : State) : Changes scheduling a (storeClass a t priClass (getSchedClass s t priClass)) :=
      .modTd _ _ _ rfl
    -- taken off and stored, then put on, then the rest
    have around {a b c d : State} (active : s.active t) (away : Changes scheduling s a) (stored : Changes scheduling a b)
        (back : classEnqueueThread (getSchedClass s t priClass) b t 0 = some c) (after : Changes scheduling c d) :
        Grows freed s d := by
      have before := away.trans stored
      have first := before.grows leafy
      have second := classEnqueueThread_grows first.leafy (fun pss => before.fit (fit other pss active)) back
      exact (first.trans second).trans (after.grows second.leafy)
    by_cases running : (s.td t).tdState = .running
    · simp only [running, reduceCtorEq, or_true, if_true] at run
      obtain ⟨a, left, run⟩ := Option.bind_eq_some_iff.mp run
      obtain ⟨b, put, run⟩ := Option.bind_eq_some_iff.mp run
      obtain ⟨c, back, run⟩ := Option.bind_eq_some_iff.mp run
      obtain ⟨e, start, run⟩ := Option.bind_eq_some_iff.mp run
      obtain ⟨d, began, rfl⟩ := Option.map_eq_some_iff.mp start
      have away := ((classDequeueThread_changes left).trans (classPutPrevThread_changes put)).mono dispatching_scheduling
      have began' : Changes scheduling c (setTdState d t .running) :=
        ((classActivateThread_changes began).mono dispatching_scheduling).trans (.modTd _ _ _ rfl)
      have active : s.active t := decide_eq_true (.inr running)
      exact around active away (stored b) back (began'.trans (checkClassChanged_changes run))
    · by_cases queued : (s.td t).tdState = .runq
      · simp only [queued, reduceCtorEq, or_false, if_true, if_false] at run
        obtain ⟨a, left, run⟩ := Option.bind_eq_some_iff.mp run
        obtain ⟨_, ⟨⟩, run⟩ := Option.bind_eq_some_iff.mp run
        obtain ⟨c, back, run⟩ := Option.bind_eq_some_iff.mp run
        obtain ⟨_, ⟨⟩, run⟩ := Option.bind_eq_some_iff.mp run
        have active : s.active t := decide_eq_true (.inl queued)
        exact around active ((classDequeueThread_changes left).mono dispatching_scheduling) (stored a) back
          (checkClassChanged_changes run)
      · simp only [running, queued, or_self, if_false] at run
        exact ((stored s).trans (checkClassChanged_changes run)).grows leafy

theorem schedNiceThread_grows {delta : Int} (leafy : Leafy s freed)
    (fit : (s.td t).cls = .pss → s.active t → s.leaves.fits freed (s.ent (.thread t)).sfq)
    (run : schedNiceThread delta s t = some s') : Grows freed s s' := by
  have weighed (s : State) : Changes scheduling s (setThreadWeight s t) := .modEnt _ _ _ rfl
  by_cases pss : (s.td t).cls = .pss
  · obtain ⟨a, b, c, d, deq, put, enq, act, rfl⟩ := schedNiceThread_parts pss run
    have first : Changes dispatching s a := .optional (f := fun s => dequeueThread s t 0) dequeueThread_changes deq
    have second : Changes dispatching a b := .optional (f := fun s => putPrevThread s t 0) putPrevThread_changes put
    have fourth : Changes scheduling c d :=
      .optional (f := fun s => (activateThread s t).map fun s => setTdState s t .running) resume_changes act
    have before := ((first.trans second).mono dispatching_scheduling).trans (weighed b)
    have after := fourth.trans (.ite (p := delta < 0 ∨ delta > 0 ∧ (s.td t).tdState = .running)
      (reschedThread_scheduling d d.curthread) (.refl d))
    have grown := before.grows leafy
    by_cases active : (s.td t).tdState = .runq ∨ (s.td t).tdState = .running
    · rw [if_pos active] at enq
      have entered := enqueueThread_grows grown.leafy (fun _ => before.fit (fit pss (decide_eq_true active))) enq
      exact (grown.trans entered).trans (after.grows entered.leafy)
    · rw [if_neg active] at enq
      cases enq
      exact (before.trans after).grows leafy
  · unfold schedNiceThread at run
    rw [if_pos pss] at run
    cases run
    exact (weighed s).grows leafy

/-- The threads of a process are taken in turn, and each is found as it was at the beginning. -/
theorem schedNiceThreads_grows {delta : Int} (threads : List Tid) (stands : Stands C s (some s.curthread))
    (procs : Procs s) (leafy : Leafy s freed) (inside : ∀ t ∈ threads, t < s.view.nthreads ∧ s.view.exited t = false)
    (fit : ∀ t ∈ threads, (s.td t).cls = .pss → s.active t → s.leaves.fits freed (s.ent (.thread t)).sfq)
    (run : threads.foldlM (schedNiceThread delta) s = some s') : Grows freed s s' := by
  induction threads generalizing s with
  | nil =>
    have same : Changes scheduling s s' := .of_eq (Option.some.inj run).symm
    exact same.grows leafy
  | cons t rest ih =>
    rw [List.foldlM_cons] at run
    obtain ⟨a, first, later⟩ := Option.bind_eq_some_iff.mp run
    obtain ⟨below, live⟩ := inside t (List.mem_cons_self ..)
    obtain ⟨reached, kept⟩ := schedNiceThread_reached stands procs below live first
    have grown := schedNiceThread_grows leafy (fit t (List.mem_cons_self ..)) first
    have cls (u : Tid) : (a.td u).cls = (s.td u).cls := congrFun (congrArg Roster.cls kept.roster) u
    have state (u : Tid) : (a.td u).tdState = (s.td u).tdState := congrFun (congrArg Roster.tdState kept.roster) u
    have queue (e : EntId) : (a.ent e).sfq = (s.ent e).sfq := congrFun (congrArg View.Frame.sfq kept.frame) e
    refine grown.trans (ih reached.2 (procs.path reached.1) grown.leafy (fun u member => kept.inside (inside u
      (List.mem_cons_of_mem _ member))) (fun u member pss active => ?_) later)
    rw [queue]
    refine grown.fits _ (fit u (List.mem_cons_of_mem _ member) ((cls u).symm.trans pss) ?_)
    unfold State.active at active ⊢
    rwa [state] at active

theorem schedNice_grows {p : Pid} {nice : Int} (settled : Settled C s) (loud : ¬C.steady)
    (range : prioMin ≤ nice ∧ nice ≤ prioMax) (leafy : Leafy s freed)
    (fit : ∀ t ∈ (s.proc p).threads, (s.td t).cls = .pss → s.active t → s.leaves.fits freed (s.ent (.thread t)).sfq)
    (run : schedNice s p nice = some s') : Grows freed s s' := by
  have store := storeNice_reaches (p := p) settled.stands.inv loud range
  have first := store.reached settled.stands
  have procs := settled.procs.path first.1
  have begun : Changes scheduling s (storeNice s p nice) := .modProc _ _ _ rfl
  have grown := begun.grows leafy
  have threads : ((storeNice s p nice).proc p).threads = (s.proc p).threads := by
    unfold storeNice
    simp [State.modProc]
  refine grown.trans (schedNiceThreads_grows _ first.2 procs grown.leafy (fun t listed => ?_) (fun t listed pss active => ?_) run)
  · obtain ⟨below, live, _⟩ := procs.member p t listed
    exact ⟨below, live⟩
  · exact begun.fit (fit t (threads ▸ listed) pss active)

/-- Between its queues a thread is put on that of its new group. -/
theorem moveThread_grows (t : Tid) (onRq : Bool) (leafy : Leafy s freed) (below : g < s.ngroups) :
    Grows freed s (moveThread s t g onRq) ∧ ((moveThread s t g onRq).ent (.thread t)).sfq = g := by
  have hier : (moveThread s t g onRq).view.Hier := by
    rw [moveThread_view leafy.hier below]
    exact leafy.hier.place below
  have settings := moveThread_settings s t g onRq
  have queue (e : EntId) : ((moveThread s t g onRq).ent e).sfq = if e = .thread t then g else (s.ent e).sfq := by
    have own : (s.grp g).sfq = g := leafy.hier.groupSfq g below
    refine (congrFun (congrArg Settings.queue settings) e).trans ?_
    unfold Settings.settle Settings.setGroup
    dsimp only
    rw [update_self]
    split
    · rename_i here
      rw [here, update_self]
      exact own
    · rename_i other
      exact update_of_ne other ..
  have frame := moveThread_changes s t g onRq
  have leaves : (moveThread s t g onRq).leaves = s.leaves := by
    refine Leaves.ext ?_ ?_ ?_ ?_ (funext fun h => ?_) ?_
    · exact frame.read (fun s => s.leaves.list) fun _ => rfl
    · exact frame.read (fun s => s.leaves.onList) fun _ => rfl
    · exact frame.read (fun s => s.leaves.parent) fun _ => rfl
    · exact frame.read (fun s => s.leaves.children) fun _ => rfl
    · exact (queue _).trans (if_neg EntId.noConfusion)
    · exact frame.read (fun s => s.leaves.ngroups) fun _ => rfl
  exact ⟨⟨⟨hier, leaves ▸ leafy.ok⟩, congrArg Leaves.ngroups leaves, fun q fits => leaves ▸ fits⟩,
    (queue _).trans (if_pos rfl)⟩

theorem schedGroupMove_grows (leafy : Leafy s freed) (below : g < s.ngroups)
    (fit : (s.td t).cls = .pss → s.active t → s.leaves.fits freed g) (run : schedGroupMove s t g = some s') :
    Grows freed s s' := by
  obtain ⟨b, onRq, away, moved⟩ := schedGroupMove_parts run
  have first := (away.mono dispatching_scheduling).grows leafy
  have ngroups : b.ngroups = s.ngroups := away.read State.ngroups fun _ => rfl
  obtain ⟨second, queue⟩ := moveThread_grows t onRq first.leafy (ngroups.symm ▸ below)
  have both := first.trans second
  rcases moved with rfl | ⟨active, c, back, after⟩
  · exact both
  · have third := enqueueThread_grows second.leafy (fun pss => ?_) back
    · exact (both.trans third).trans (after.grows third.leafy)
    · have cls := congrFun (congrArg View.cls (moveThread_view (t := t) first.leafy.hier (ngroups.symm ▸ below) onRq)) t
      have kept : (b.td t).cls = (s.td t).cls := away.read (fun s => (s.td t).cls) fun _ => rfl
      rw [queue]
      exact both.fits g (fit (kept.symm.trans (cls.symm.trans pss)) (decide_eq_true active))

end operations
end SfqSched
