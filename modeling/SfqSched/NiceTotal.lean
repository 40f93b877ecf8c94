import SfqSched.Requests
import SfqSched.DispatchTotal
import SfqSched.Membership
import SfqSched.RunQueues

namespace SfqSched
open State Function

section walks
variable {C : Conds} {s s' : State} {L : List EntId} {d : Option EntId} {t : Tid} {flags : Nat}

/-- A group that is current is off its queue's timeline, if shares are positive, and can be put back. -/
theorem putPrevEntity_group {g : Gid} (inv : Inv C s (.group g :: L) d) (positive : C.positive) :
    ∃ s', putPrevEntity s (s.view.sfq (.group g)) (.group g) flags = some s' := by
  have current : s.view.curr (s.view.sfq (.group g)) = some (.group g) :=
    (inv.core.curr _ _).mpr ⟨List.mem_cons_self .., rfl⟩
  have off : s.view.onSfq (.group g) = false := (inv.tight positive).apart _ _ current
  unfold putPrevEntity
  dsimp only
  split
  · obtain ⟨b, back⟩ : ∃ b, rawEnqueueEntity (putPrevCharge s (s.view.sfq (.group g)) (.group g) flags)
        (s.view.sfq (.group g)) (.group g) = some b := by
      have free : ¬((putPrevCharge s (s.view.sfq (.group g)) (.group g) flags).ent (.group g)).onSfq = true := by
        rw [view_onSfq, putPrevCharge_view, off]
        exact Bool.false_ne_true
      exact ⟨_, if_neg free⟩
    refine ⟨putPrevRelease b (s.view.sfq (.group g)) (.group g), ?_⟩
    change ((setRunq (putPrevCharge s (s.view.sfq (.group g)) (.group g) flags) (.group g) flags).bind fun a =>
      rawEnqueueEntity a (s.view.sfq (.group g)) (.group g)).bind _ = _
    rw [show setRunq (putPrevCharge s (s.view.sfq (.group g)) (.group g) flags) (.group g) flags =
      some (putPrevCharge s (s.view.sfq (.group g)) (.group g) flags) by unfold setRunq; rw [seToTd_group]]
    rw [Option.bind_some, back]
    rfl
  · exact ⟨_, rfl⟩

theorem pssPutPrevWalk_total {chain : List EntId} (inv : Inv C s chain d) (positive : C.positive) (nodup : chain.Nodup)
    (groups : ∀ p ∈ chain, ∃ g, p = .group g) : ∃ s', pssPutPrevWalk s chain flags = some s' := by
  induction chain generalizing s with
  | nil => exact ⟨s, rfl⟩
  | cons e rest ih =>
    obtain ⟨others, distinct⟩ := List.nodup_cons.mp nodup
    obtain ⟨g, rfl⟩ := groups e (List.mem_cons_self ..)
    obtain ⟨a, step⟩ : ∃ a, putPrevEntity s (s.view.sfq (.group g)) (.group g) flags = some a :=
      putPrevEntity_group inv positive
    obtain ⟨inv', _⟩ := putPrevEntity_inv inv others trivial step
    obtain ⟨s', walk⟩ := ih inv' distinct fun p member => groups p (List.mem_cons_of_mem _ member)
    refine ⟨s', ?_⟩
    unfold pssPutPrevWalk
    rw [view_sfq, step]
    exact walk

/-- A thread that has just been dequeued leaves the CPU. -/
theorem pssPutPrevThread_total (inv : Inv C s (walkup s (some (.thread t))) none) (positive : C.positive)
    (pss : s.view.cls t = .pss) (apart : s.view.joined (.thread t) = false) :
    ∃ s', pssPutPrevThread s t flags = some s' := by
  obtain ⟨rest, eq, _, nodup, groups⟩ := thread_chain inv.core.hier t
  rw [eq] at inv nodup
  obtain ⟨others, nodup⟩ := List.nodup_cons.mp nodup
  have step : putPrevEntity s (s.view.sfq (.thread t)) (.thread t) flags =
      some (putPrevRelease s (s.view.sfq (.thread t)) (.thread t)) := by
    unfold putPrevEntity
    rw [if_neg (by rw [view_joined, apart]; exact Bool.false_ne_true)]
    rfl
  obtain ⟨inv', _⟩ := putPrevEntity_inv inv others pss step
  obtain ⟨a, walk⟩ : ∃ a, pssPutPrevWalk (putPrevRelease s (s.view.sfq (.thread t)) (.thread t)) rest flags = some a :=
    pssPutPrevWalk_total inv' positive nodup groups
  have whole : pssPutPrevWalk s (.thread t :: rest) flags = some a := by
    unfold pssPutPrevWalk
    rw [view_sfq, step]
    exact walk
  unfold pssPutPrevThread
  dsimp only
  rw [eq, whole]
  exact ⟨_, rfl⟩

end walks

section thread
variable {C : Conds} {s s' : State} {t : Tid} {delta : Int}

/-- A live thread of `pss_class` can be taken off its queue and off the CPU. -/
theorem takeOff_total (stands : Stands C s (some s.curthread)) (positive : C.positive) (inside : t < s.view.nthreads)
    (live : s.view.exited t = false) (pss : s.view.cls t = .pss) :
    ∃ a b, (if s.view.tdState t = .runq ∨ s.view.tdState t = .running then dequeueThread s t 0 else some s) = some a ∧
      (if s.view.tdState t = .running then putPrevThread a t 0 else some a) = some b := by
  have fits := stands.roster.live t inside live
  have other : s.view.roster.cls t ≠ .idle := fun idle => SchedClass.noConfusion (idle.symm.trans pss)
  by_cases queued : s.view.tdState t = .runq ∨ s.view.tdState t = .running
  · have joined : s.view.joined (.thread t) := (fits.joined other).mpr queued
    have ticked := updateRqClock_reaches stands.inv stands.busy
    obtain ⟨a, deq, reaches⟩ : ∃ a, pssDequeueThread (updateRqClock s) t 0 = some a ∧
        Reaches C (updateRqClock s) a (currentOn s (some s.curthread)) ((updateRqClock s).view.roster.detach t) := by
      refine pssDequeueThread_reaches ticked.inv pss joined stands.roster.counted fun isForked => ?_
      refine ⟨fits.started isForked joined, iff_of_false (by simp) fun rests => ?_⟩
      exact queued.elim rests.1 rests.2
    have deq' : dequeueThread s t 0 = some a := by
      have cls : ((updateRqClock s).td t).cls = .pss := pss
      unfold dequeueThread
      dsimp only
      rw [cls]
      exact deq
    rw [if_pos queued]
    by_cases running : s.view.tdState t = .running
    · have onCpu : some s.curthread = some t := fits.running.mp running
      have cls : a.view.cls t = .pss := (congrFun (congrArg Roster.cls reaches.roster) t).trans pss
      have apart : a.view.joined (.thread t) = false := by
        have out := congrFun (congrArg Roster.joined reaches.roster) t
        rw [show ((updateRqClock s).view.roster.detach t).joined t = false by simp [Roster.detach]] at out
        exact out
      have chain : currentOn s (some s.curthread) = walkup a (some (.thread t)) := by
        rw [onCpu, currentOn, cpuChain, if_pos pss]
        exact (View.chain_congr reaches.frame _).symm
      have inv := reaches.inv
      rw [chain] at inv
      obtain ⟨b, put⟩ : ∃ b, pssPutPrevThread a t 0 = some b := pssPutPrevThread_total inv positive cls apart
      refine ⟨a, b, deq', ?_⟩
      rw [if_pos running, putPrevThread_apart apart, cls]
      exact put
    · exact ⟨a, a, deq', if_neg running⟩
  · exact ⟨s, s, if_neg queued, if_neg fun running => queued (.inr running)⟩

/-- A detached thread of `pss_class` can be put on its queue and on the CPU. -/
theorem putOn_total {L : List EntId} {queued running : Prop} [Decidable queued] [Decidable running]
    (inv : Inv C s L none) (busy : Busy s L) (positive : C.positive) (inside : t < s.view.nthreads)
    (apart : s.view.joined (.thread t) = false) (pss : s.view.cls t = .pss)
    (form : queued → forked t → ¬s.view.absolute t) (free : running → queued ∧ L = []) :
    ∃ a b, (if queued then enqueueThread s t 0 else some s) = some a ∧
      (if running then (activateThread a t).map fun s => setTdState s t .running else some a) = some b := by
  by_cases queue : queued
  · have ticked := updateRqClock_reaches inv busy
    obtain ⟨a, enq, reaches⟩ : ∃ a, pssEnqueueThread (updateRqClock s) t 0 = some a ∧
        Reaches C (updateRqClock s) a L ((updateRqClock s).view.roster.attach t) :=
      pssEnqueueThread_reaches ticked.inv (busy.time inv) inside apart pss fun isForked =>
        iff_of_false (by simp) (form queue isForked)
    have enq' : enqueueThread s t 0 = some a := by
      have cls : ((updateRqClock s).td t).cls = .pss := pss
      unfold enqueueThread
      dsimp only
      rw [cls]
      exact enq
    rw [if_pos queue]
    by_cases run : running
    · obtain ⟨_, rfl⟩ := free run
      have cls : a.view.cls t = .pss := (congrFun (congrArg Roster.cls reaches.roster) t).trans pss
      have joined : a.view.joined (.thread t) = true := by
        have there := congrFun (congrArg Roster.joined reaches.roster) t
        rw [show ((updateRqClock s).view.roster.attach t).joined t = true by simp [Roster.attach]] at there
        exact there
      obtain ⟨b, act⟩ := pssActivateThread_runs reaches.inv positive joined cls
      refine ⟨a, setTdState b t .running, enq', ?_⟩
      have cls' : (a.td t).cls = .pss := cls
      rw [if_pos run]
      unfold activateThread
      rw [cls']
      exact Option.map_eq_some_iff.mpr ⟨b, act, rfl⟩
    · exact ⟨a, a, enq', if_neg run⟩
  · exact ⟨s, s, if_neg queue, if_neg fun run => queue (free run).1⟩

/-- No part of a round of the loop of `sched_nice` fails. -/
theorem schedNiceThread_total (stands : Stands C s (some s.curthread)) (procs : Procs s) (positive : C.positive)
    (inside : t < s.view.nthreads) (live : s.view.exited t = false) : ∃ s', schedNiceThread delta s t = some s' := by
  by_cases pss : s.view.cls t = .pss
  · obtain ⟨a, b, deq, put⟩ := takeOff_total stands positive inside live pss
    have off := takeOff_reaches stands Clocks.tick inside live deq put
    obtain ⟨weighed, busy, apart⟩ := reweigh_off stands procs inside live off
    have fits := stands.roster.live t inside live
    have cls : (setThreadWeight b t).view.cls t = .pss := by
      have same := congrFun (congrArg Roster.cls (weighed.roster.trans off.roster)) t
      exact same.trans ((Roster.takeOff_self s.view.roster t).1.trans pss)
    have out : (setThreadWeight b t).view.joined (.thread t) = false := by
      rw [setThreadWeight_view]
      exact apart.apart
    have inside' : t < (setThreadWeight b t).view.nthreads := by
      rw [setThreadWeight_view]
      exact apart.inside
    have state : (setThreadWeight b t).view.tdState t = s.view.tdState t := by
      have same := congrFun (congrArg Roster.tdState (weighed.roster.trans off.roster)) t
      exact same.trans ((stands.roster.takeOff inside live).2.2
        fun idle => SchedClass.noConfusion (idle.symm.trans pss))
    obtain ⟨c, d, enq, act⟩ : ∃ c d, (if s.view.tdState t = .runq ∨ s.view.tdState t = .running
        then enqueueThread (setThreadWeight b t) t 0 else some (setThreadWeight b t)) = some c ∧
        (if s.view.tdState t = .running then (activateThread c t).map fun s => setTdState s t .running
          else some c) = some d := by
      refine putOn_total weighed.inv busy positive inside' out cls (fun queued _ => ?_) fun running =>
        ⟨.inr running, if_pos (fits.running.mp running)⟩
      rintro ⟨_, joined | ⟨_, notRunq, notRunning⟩⟩
      · exact Bool.noConfusion (out.symm.trans joined)
      · rw [state] at notRunq notRunning
        exact queued.elim notRunq notRunning
    have pss' : (s.td t).cls = .pss := pss
    exact ⟨_, schedNiceThread_of_parts pss' deq put enq act⟩
  · exact ⟨setThreadWeight s t, if_pos pss⟩

theorem schedNiceThreads_total (threads : List Tid) (stands : Stands C s (some s.curthread)) (procs : Procs s)
    (positive : C.positive) (inside : ∀ t ∈ threads, t < s.view.nthreads ∧ s.view.exited t = false) :
    ∃ s', threads.foldlM (schedNiceThread delta) s = some s' := by
  induction threads generalizing s with
  | nil => exact ⟨s, rfl⟩
  | cons t rest ih =>
    obtain ⟨below, live⟩ := inside t (List.mem_cons_self ..)
    obtain ⟨a, first⟩ : ∃ a, schedNiceThread delta s t = some a := schedNiceThread_total stands procs positive below live
    obtain ⟨reached, kept⟩ := schedNiceThread_reached stands procs below live first
    obtain ⟨s', later⟩ := ih reached.2 (procs.path reached.1) fun u member =>
      kept.inside (inside u (List.mem_cons_of_mem _ member))
    refine ⟨s', ?_⟩
    rw [List.foldlM_cons]
    exact Option.bind_eq_some_iff.mpr ⟨a, first, later⟩

theorem schedNice_total {p : Pid} {nice : Int} (stands : Stands C s (some s.curthread)) (procs : Procs s)
    (positive : C.positive) (loud : ¬C.steady) (range : prioMin ≤ nice ∧ nice ≤ prioMax) : ∃ s', schedNice s p nice = some s' := by
  have first := (storeNice_reaches (p := p) stands.inv loud range).reached stands
  refine schedNiceThreads_total _ first.2 (procs.path first.1) positive fun t listed => ?_
  obtain ⟨below, live, _⟩ := (procs.path first.1).member p t listed
  exact ⟨below, live⟩

/-- The current thread is asked to give up the CPU if some round asks, or if it had been asked before. -/
theorem schedNiceThreads_requests (threads : List Tid) (stands : Stands C s (some s.curthread)) (procs : Procs s)
    (inside : ∀ t ∈ threads, t < s.view.nthreads ∧ s.view.exited t = false)
    (run : threads.foldlM (schedNiceThread delta) s = some s') :
    s'.requests s.curthread = (s.requests s.curthread || decide (∃ t ∈ threads, niceAsks delta s t)) := by
  induction threads generalizing s with
  | nil =>
    cases run
    simp
  | cons t rest ih =>
    rw [List.foldlM_cons] at run
    obtain ⟨a, first, later⟩ := Option.bind_eq_some_iff.mp run
    obtain ⟨below, live⟩ := inside t (List.mem_cons_self ..)
    obtain ⟨reached, kept⟩ := schedNiceThread_reached stands procs below live first
    have current : a.curthread = s.curthread := congrArg Roster.curthread kept.roster
    have asks (u : Tid) : niceAsks delta a u ↔ niceAsks delta s u := by
      have cls : (a.td u).cls = (s.td u).cls := congrFun (congrArg Roster.cls kept.roster) u
      have state : (a.td u).tdState = (s.td u).tdState := congrFun (congrArg Roster.tdState kept.roster) u
      unfold niceAsks
      rw [cls, state]
    have rest' := ih reached.2 (procs.path reached.1)
      (fun u member => kept.inside (inside u (List.mem_cons_of_mem _ member))) later
    rw [current, schedNiceThread_requests current first] at rest'
    rw [rest']
    simp only [asks, List.mem_cons, exists_eq_or_imp]
    by_cases wants : niceAsks delta s t
    · simp [wants]
    · simp [wants]

end thread

/-- Every thread is in the state and on the queue it was in and on. A thread of `pss_class` waits on the timeline of
its `sched_entity`; on `rq->realtime` it is besides for as long as its priority is above the normal ones. -/
structure Unmoved (s s' : State) : Prop where
  curthread : s'.curthread = s.curthread
  tdState : ∀ t, (s'.td t).tdState = (s.td t).tdState
  cls : ∀ t, (s'.td t).cls = (s.td t).cls
  joined : ∀ t, (s'.ent (.thread t)).joined = (s.ent (.thread t)).joined
  place : ∀ e, (s'.ent e).sfq = (s.ent e).sfq
  timeline : ∀ t q, .thread t ∈ (s'.sfq q).seq ↔ .thread t ∈ (s.sfq q).seq
  realtime : ∀ t, (s.td t).cls ≠ .pss ∨ (s.td t).tdPriority < normalPri →
    ((∃ entry ∈ s'.rq.realtime, entry.tid = t) ↔ ∃ entry ∈ s.rq.realtime, entry.tid = t)
  unboosted : ∀ t, (∃ entry ∈ s'.rq.realtime, entry.tid = t) → ∃ entry ∈ s.rq.realtime, entry.tid = t
  current : (s'.td s'.curthread).cls = .pss →
    ∀ e ∈ walkup s' (some (.thread s'.curthread)), (s'.sfq (s'.ent e).sfq).curr = some e

/-- A lower nice value has the CPU given up for a queued thread of the process, a higher one for its running thread. -/
def Rescheds (s s' : State) (p : Pid) (nice : Int) : Prop :=
  (nice < (s.proc p).nice ∧ (∃ t ∈ (s.proc p).threads, (s.td t).cls = .pss ∧ (s.td t).tdState = .runq) →
    (s'.td s'.curthread).needResched) ∧
  ((s.proc p).nice < nice ∧ (∃ t ∈ (s.proc p).threads, (s.td t).cls = .pss ∧ (s.td t).tdState = .running) →
    (s'.td s'.curthread).needResched)

section nice
variable {C : Conds} {s s' : State} {p : Pid} {nice : Int}

theorem Settled.unmoved (settled : Settled C s) (settled' : Settled C s') (positive : C.positive) (kept : Kept s s')
    (seated : Seated s) (seats : Renices s s') : Unmoved s s' := by
  have current : s'.curthread = s.curthread := congrArg Roster.curthread kept.roster
  have cls (t : Tid) : (s'.td t).cls = (s.td t).cls := congrFun (congrArg Roster.cls kept.roster) t
  have joined (t : Tid) : (s'.ent (.thread t)).joined = (s.ent (.thread t)).joined :=
    congrFun (congrArg Roster.joined kept.roster) t
  have place (e : EntId) : (s'.ent e).sfq = (s.ent e).sfq := congrFun (congrArg View.Frame.sfq kept.frame) e
  have chain : currentOn s' (some s'.curthread) = currentOn s (some s.curthread) := by
    rw [current]
    exact currentOn_congr kept.frame fun t _ => cls t
  have there (a : State) (t : Tid) : (∃ entry ∈ a.rq.realtime, entry.tid = t) ↔ (a.seat t).slots ≠ [] := by
    simp [State.seat]
  have curr (q : Gid) (e : EntId) : (s'.sfq q).curr = some e ↔ (s.sfq q).curr = some e := by
    refine (settled'.stands.inv.core.curr q e).trans (Iff.trans ?_ (settled.stands.inv.core.curr q e).symm)
    rw [chain, show s'.view.sfq e = s.view.sfq e from place e]
  refine ⟨current, fun t => congrFun (congrArg Roster.tdState kept.roster) t, cls, joined, place, fun t q => ?_,
    fun t early => ?_, fun t => ?_, fun pss e member => ?_⟩
  · have pss : (EntId.thread t).pss (fun t => (s'.td t).cls) ↔ (EntId.thread t).pss (fun t => (s.td t).cls) := by
      simp only [cls]
    rw [settled'.listed positive, settled.listed positive, joined, place, pss, ne_eq, ne_eq, curr]
  · rw [there, there]
    by_cases other : (s.td t).cls ≠ .pss
    · rw [seats.others t other]
    · have pss : (s.seat t).cls = .pss := not_not.mp other
      have stays := seats.stays t
      refine ⟨stays.listed, fun listed => ?_⟩
      have queued : (s.seat t).tdState = .runq := (seated.fits t).slots_queued pss listed
      have queued' : (s'.seat t).tdState = .runq := (congrFun (congrArg Roster.tdState kept.roster) t).trans queued
      have fits' := seats.seated.fits t
      have onSfq := (fits'.queued (stays.cls.trans pss)).mpr queued'
      have low : (s.seat t).priority < normalPri := early.resolve_left other
      obtain ⟨i, member, _⟩ := fits'.urgent (stays.cls.trans pss) onSfq (stays.priority ▸ low)
      exact List.ne_nil_of_mem member
  · rw [there, there]
    exact (seats.stays t).listed
  · refine (settled'.stands.inv.core.curr _ e).mpr ⟨?_, rfl⟩
    have pss' : s'.view.cls s'.curthread = .pss := pss
    rw [currentOn, cpuChain, if_pos pss']
    exact member

theorem schedNice_rescheds (settled : Settled C s) (loud : ¬C.steady) (range : prioMin ≤ nice ∧ nice ≤ prioMax)
    (run : schedNice s p nice = some s') (current : s'.curthread = s.curthread) : Rescheds s s' p nice ↔
      ¬(nice < (s.proc p).nice ∧ (∃ t ∈ (s.proc p).threads, (s.td t).cls = .pss ∧ (s.td t).tdState = .runq) ∧
        (∀ t ∈ (s.proc p).threads, (s.td t).cls = .pss → (s.td t).tdState ≠ .running) ∧
        (s.td s.curthread).needResched = false) := by
  have first := (storeNice_reaches (p := p) settled.stands.inv loud range).reached settled.stands
  have threads : ((s.modProc p fun proc => { proc with nice := nice }).proc p).threads = (s.proc p).threads := by
    simp [State.modProc]
  have asked : (s'.td s'.curthread).needResched = ((s.td s.curthread).needResched ||
      decide (∃ t ∈ (s.proc p).threads, niceAsks ((s.proc p).nice - nice) s t)) := by
    have loop := schedNiceThreads_requests _ first.2 (settled.procs.path first.1) (fun t listed => by
      obtain ⟨below, live, _⟩ := (settled.procs.path first.1).member p t listed
      exact ⟨below, live⟩) run
    rw [threads] at loop
    rw [current]
    exact loop
  unfold Rescheds
  rw [asked, Bool.or_eq_true, decide_eq_true_iff]
  constructor
  · rintro ⟨lower, _⟩ ⟨less, queued, resting, quiet⟩
    rcases lower ⟨less, queued⟩ with before | ⟨t, member, pss, more | ⟨_, running⟩⟩
    · exact Bool.noConfusion (quiet.symm.trans before)
    · omega
    · exact resting t member pss running
  · intro otherwise
    constructor
    · rintro ⟨less, queued⟩
      by_contra silent
      refine otherwise ⟨less, queued, fun t member pss running => silent (.inr ?_), ?_⟩
      · exact ⟨t, member, pss, .inr ⟨by omega, running⟩⟩
      · simpa using fun before => silent (.inl before)
    · rintro ⟨more, t, member, pss, _⟩
      exact .inr ⟨t, member, pss, .inl (by omega)⟩

end nice

/-- `sched_nice` in any state of a run in which no group was asked to have no shares: every thread stays where it is,
and the CPU is asked for unless the process has got a lower nice value, has a queued thread and does not run itself. -/
theorem sched_nice_end_to_end (k : Kernel) (tun : Tunables) (ops : List Op) (s : State) (ran : run k tun ops = some s)
    (asked : ∀ g, g ≠ 0 → Op.setShares g 0 ∉ ops) (p : Pid) (nice : Int) (enabled : (Op.nice p nice).enabled s) :
    ∃ s', schedNice s p nice = some s' ∧ Unmoved s s' ∧ (Rescheds s s' p nice ↔
      ¬(nice < (s.proc p).nice ∧ (∃ t ∈ (s.proc p).threads, (s.td t).cls = .pss ∧ (s.td t).tdState = .runq) ∧
        (∀ t ∈ (s.proc p).threads, (s.td t).cls = .pss → (s.td t).tdState ≠ .running) ∧
        (s.td s.curthread).needResched = false)) := by
  have settled := (run_shared ran asked).settled
  have range : prioMin ≤ nice ∧ nice ≤ prioMax := by
    simp only [Op.enabled, Bool.and_eq_true, decide_eq_true_eq] at enabled
    exact ⟨enabled.1.2, enabled.2⟩
  obtain ⟨s', done⟩ := schedNice_total (p := p) settled.stands settled.procs trivial id range
  obtain ⟨reached, kept⟩ := schedNice_reached settled.stands settled.procs id range done
  have settled' : Settled .shared s' := ⟨reached.2, settled.procs.path reached.1⟩
  have unmoved := settled.unmoved settled' trivial kept (run_seated ops ran).1 (schedNice_seated (run_seated ops ran).1 done)
  exact ⟨s', done, unmoved, schedNice_rescheds settled id range done unmoved.curthread⟩

/-- Thread `2` of the running process waits in a group below the root. -/
def waitingBelow : List Op := [.fork 0 false {}, .add 2, .groupCreate 0 0, .groupMove 2 1]

theorem sched_nice_below : ∃ s s', run plainKernel {} waitingBelow = some s ∧ schedNice s 0 5 = some s' ∧
    Unmoved s s' ∧ Rescheds s s' 0 5 := by
  have result : (run plainKernel {} waitingBelow).map (fun s => ((Op.nice 0 5).enabled s, (s.proc 0).nice)) =
      some (true, 0) := by decide +kernel
  obtain ⟨s, ran, values⟩ := Option.map_eq_some_iff.mp result
  simp only [Prod.mk.injEq] at values
  obtain ⟨enabled, nice⟩ := values
  have asked (g : Gid) (_ : g ≠ 0) : Op.setShares g 0 ∉ waitingBelow := by simp [waitingBelow]
  obtain ⟨s', done, unmoved, rescheds⟩ := sched_nice_end_to_end _ _ _ s ran asked 0 5 enabled
  refine ⟨s, s', ran, done, unmoved, rescheds.mpr fun all => ?_⟩
  rw [nice] at all
  exact absurd all.1 (by decide)

/-- Thread `2`, alone in its process, waits while thread `0` runs. -/
def waitingAlone : List Op := [.fork 0 true {}, .add 2]

theorem sched_nice_forgets : ¬∀ (k : Kernel) (tun : Tunables) (ops : List Op) (s : State), run k tun ops = some s →
    ∀ (p : Pid) (nice : Int), (Op.nice p nice).enabled s →
      ∃ s', schedNice s p nice = some s' ∧ Unmoved s s' ∧ Rescheds s s' p nice := by
  intro claimed
  have result : ((run plainKernel {} waitingAlone).bind fun s => (schedNice s 2 (-5)).map fun s' =>
      (((Op.nice 2 (-5)).enabled s, (s.proc 2).nice, (s.proc 2).threads), ((s.td 2).cls, (s.td 2).tdState),
        (s'.td s'.curthread).needResched)) = some ((true, 0, [2]), (.pss, .runq), false) := by decide +kernel
  obtain ⟨s, ran, result⟩ := Option.bind_eq_some_iff.mp result
  obtain ⟨a, done, values⟩ := Option.map_eq_some_iff.mp result
  simp only [Prod.mk.injEq] at values
  obtain ⟨⟨enabled, nice, threads⟩, ⟨cls, queued⟩, silent⟩ := values
  obtain ⟨s', done', _, lower, _⟩ := claimed _ _ _ s ran 2 (-5) enabled
  cases done'.symm.trans done
  refine absurd (lower ⟨?_, 2, ?_, cls, queued⟩) (by rw [silent]; exact Bool.false_ne_true)
  · rw [nice]
    decide
  · rw [threads]
    exact List.mem_cons_self ..

/-- Threads `2` and `4` share one of two groups without shares, thread `3` is in the other. -/
def withoutShares : List Op :=
  [.groupCreate 0 0, .groupCreate 1 0, .groupCreate 1 0, .setShares 2 0, .setShares 3 0, .fork 0 true {}, .fork 0 true {},
    .fork 0 true {}, .groupMove 2 2, .groupMove 3 3, .groupMove 4 2, .add 2, .add 3, .add 4, .sleep 0, .nice 3 5]

/-- Group `1` was dequeued with work below it and enqueued again while current: the running thread cannot be put back. -/
theorem sched_nice_without_shares :
    ∃ s, run plainKernel {} withoutShares = some s ∧ (Op.nice 2 5).enabled s ∧ schedNice s 2 5 = none := by
  have result : (run plainKernel {} withoutShares).map (fun s => ((Op.nice 2 5).enabled s, (schedNice s 2 5).isNone)) =
      some (true, true) := by decide +kernel
  obtain ⟨s, ran, values⟩ := Option.map_eq_some_iff.mp result
  simp only [Prod.mk.injEq] at values
  exact ⟨s, ran, values.1, Option.isNone_iff_eq_none.mp values.2⟩

end SfqSched
