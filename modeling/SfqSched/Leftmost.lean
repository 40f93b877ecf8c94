import SfqSched.Settled
import SfqSched.DispatchTotal

namespace SfqSched
open State Function

/-- The cached leftmost entity of every queue is the first one of its timeline. -/
def State.led (s : State) : Prop := ∀ q, (s.sfq q).leftmost = (s.sfq q).seq.head?

/-- A step after which the cached entities are right if they were right before. -/
structure Leads (s s' : State) : Prop where
  kept : s.led → s'.led

namespace Leads
variable {s s' s'' : State} {q : Gid} {e : EntId}

theorem refl (s : State) : Leads s s := ⟨id⟩

theorem trans (h : Leads s s') (h' : Leads s' s'') : Leads s s'' := ⟨h'.kept ∘ h.kept⟩

/-- The books show both the cache and the order that it is about. -/
theorem books (leftmost : s'.books.leftmost = s.books.leftmost) (seq : s'.books.seq = s.books.seq) : Leads s s' := by
  refine ⟨fun led q => ?_⟩
  refine (congrFun leftmost q).trans ((led q).trans ?_)
  exact congrArg List.head? (congrFun seq q).symm

/-- What writes no timeline moves no cache either. -/
theorem still {w : Cell → Bool} (h : Changes w s s') (free : w .timeline = false) : Leads s s' := by
  refine .books (h.read (fun s => s.books.leftmost) fun s => funext fun q => ?_)
    (h.read (fun s => s.books.seq) fun s => funext fun q => ?_)
  · change blank (w .timeline) none (s.sfq q).leftmost = (s.sfq q).leftmost
    rw [free]
    rfl
  · change (blank (w .timeline) .leaf (s.sfq q).timeline).seq = (s.sfq q).timeline.seq
    rw [free]
    rfl

theorem sfq (h : s'.sfq = s.sfq) : Leads s s' := by
  refine ⟨fun led q => ?_⟩
  rw [h]
  exact led q

/-- A store to a queue that touches neither its timeline nor the cache. -/
theorem modSfq (s : State) (q : Gid) (f : Sfq → Sfq)
    (keeps : (f (s.sfq q)).leftmost = (s.sfq q).leftmost ∧ (f (s.sfq q)).timeline = (s.sfq q).timeline) :
    Leads s (s.modSfq q f) := by
  refine ⟨fun led x => ?_⟩
  by_cases here : x = q
  · subst here
    simpa [State.modSfq, Sfq.seq, keeps] using led x
  · simpa [State.modSfq, here] using led x

/-- An insertion caches the new entity exactly if it comes before all others. -/
theorem insert (run : rawEnqueueEntity s q e = some s') : Leads s s' := by
  obtain ⟨_, _, front, back, old, new, _⟩ := rawEnqueueEntity_spec _ _ _ run
  refine ⟨fun led x => ?_⟩
  have leftmost := congrFun (congrArg Books.leftmost new) x
  have seq := congrFun (congrArg Books.seq new) x
  change s'.books.leftmost x = (s'.books.seq x).head?
  rw [leftmost, seq]
  by_cases here : x = q
  · subst here
    simp only [update_self]
    cases front with
    | nil => simp
    | cons a front =>
      have before : s.books.leftmost x = (s.books.seq x).head? := led x
      rw [before, old]
      simp
  · simp only [update_of_ne here]
    exact led x

/-- A removal of the cached entity caches its successor. -/
theorem remove (run : rawDequeueEntity s q e = some s') : Leads s s' := by
  obtain ⟨_, _, new⟩ := rawDequeueEntity_spec _ _ _ run
  refine ⟨fun led x => ?_⟩
  have leftmost := congrFun (congrArg Books.leftmost new) x
  have seq := congrFun (congrArg Books.seq new) x
  change s'.books.leftmost x = (s'.books.seq x).head?
  rw [leftmost, seq]
  by_cases here : x = q
  · subst here
    have before : s.books.leftmost x = (s.books.seq x).head? := led x
    simp only [update_self, erase_head, before]
  · simp only [update_of_ne here]
    exact led x

/-- Candidates are neither. -/
theorem marked {ok : Gid → EntId → Prop} (h : s.books.Marked ok s'.books) : Leads s s' :=
  .books (by rw [h.rest]) (by rw [h.rest])

end Leads

section entities
variable {s s' : State} {q : Gid} {e : EntId} {flags : Nat}

/-- An entity that comes before the cached one is cached instead of it. -/
theorem enqueueEntity_leads (run : enqueueEntity s q e flags = some s') : Leads s s' := by
  obtain ⟨_, a, b, first, second, rfl⟩ := enqueueEntity_parts run
  have before : Leads s a :=
    (Leads.still (enqueueVruntime_changes s q e flags) rfl).trans (.still (setRunq_changes first) rfl)
  have counted : Leads b (updateSfqShares (accountEntityEnqueue b q e) q) :=
    (Leads.still (accountEntityEnqueue_changes b q e) rfl).trans (.still (updateSfqShares_changes _ q) rfl)
  have listed (s : State) : Leads s (if (s.sfq q).nrRunning = 1 then addLeafSfq s q else s) :=
    .still (.ite (addLeafSfq_changes s q) (.refl s)) rfl
  have joins (s : State) : Leads s ((s.emit (.join q e)).modEnt e fun ent => { ent with joined := true }) := .sfq rfl
  exact (before.trans (Leads.insert second)).trans ((counted.trans (listed _)).trans (joins _))

/-- Where the cached entity is removed, the next one is cached. -/
theorem dequeueEntity_leads (run : dequeueEntity s q e flags = some s') : Leads s s' := by
  by_cases joined : s.view.joined e
  · obtain ⟨a, first, rfl⟩ := dequeueEntity_parts run joined
    have before : Leads s (dequeueClear s q e) :=
      ((Leads.still (updateCurr_changes s q) rfl).trans (.still (runqDequeueEntity_changes _ e) rfl)).trans
        (.still (clearCandidates_changes _ e q) rfl)
    have middle : Leads (dequeueClear s q e) a := by
      split at first
      · exact .remove first
      · cases first
        exact .refl _
    have leaves : Leads a (dequeueLeave a q e flags) := by
      have apart : Leads (accountEntityDequeue a q e) (((accountEntityDequeue a q e).emit (.leave q e)).modEnt e
          fun ent => { ent with joined := false }) := .sfq rfl
      have parts := (Leads.still (accountEntityDequeue_changes a q e) rfl).trans apart
      unfold dequeueLeave
      dsimp only
      split
      · exact parts.trans (.still (subVtime_changes ..) rfl)
      · exact parts
    have after : Leads (dequeueLeave a q e flags) (dequeueAccount a q e flags) :=
      (Leads.still (updateSfqVtime_changes _ q) rfl).trans (.still (updateSfqShares_changes _ q) rfl)
    exact (before.trans middle).trans (leaves.trans after)
  · rw [dequeueEntity_apart run (by simpa using joined)]
    exact .refl s

/-- The entity that had the CPU comes back into its timeline with the cache looked after. -/
theorem putPrevEntity_leads (run : putPrevEntity s q e flags = some s') : Leads s s' := by
  have releases (s : State) : Leads s (putPrevRelease s q e) := by
    unfold putPrevRelease
    refine Leads.trans ?_ (.modSfq _ _ _ ?_)
    · exact .sfq rfl
    · exact ⟨rfl, rfl⟩
  rcases putPrevEntity_parts run with ⟨_, rfl⟩ | ⟨_, a, b, first, second, rfl⟩
  · exact releases s
  · have skipped (p : Prop) [Decidable p] : Leads s (if p then setSkipCandidate s e else s) :=
      .still (.ite (setSkipWalk_changes ..) (.refl s)) rfl
    have charges : Leads s (putPrevCharge s q e flags) := (skipped _).trans (.still (updateCurr_changes _ q) rfl)
    exact (charges.trans (.still (setRunq_changes first) rfl)).trans ((Leads.insert second).trans (releases b))

/-- The entity that gets the CPU leaves its timeline with the cache looked after. -/
theorem activateEntity_leads (run : activateEntity s q e = some s') : Leads s s' := by
  obtain ⟨_, a, first, _, rfl⟩ := activateEntity_parts run
  have off : Leads s (runqDequeueEntity s e) := .still (runqDequeueEntity_changes s e) rfl
  have starts : Leads a (activateStart a q e) := by
    have current : Leads (a.emit (.activate q e a.rq.clockThread))
        ((a.emit (.activate q e a.rq.clockThread)).modSfq q fun sfq => { sfq with curr := some e }) :=
      .modSfq _ _ _ ⟨rfl, rfl⟩
    exact ⟨fun led => current.kept led⟩
  exact off.trans ((Leads.remove first).trans starts)

theorem pssPutPrevWalk_leads {chain : List EntId} (run : pssPutPrevWalk s chain flags = some s') : Leads s s' := by
  induction chain generalizing s with
  | nil =>
    cases run
    exact .refl _
  | cons se rest ih =>
    unfold pssPutPrevWalk at run
    split at run
    · cases run
    · rename_i step
      exact (putPrevEntity_leads step).trans (ih run)

theorem pssActivateWalk_leads {chain : List EntId} (run : pssActivateWalk s chain = some s') : Leads s s' := by
  induction chain generalizing s with
  | nil =>
    cases run
    exact .refl _
  | cons se rest ih =>
    unfold pssActivateWalk at run
    split at run
    · cases run
    · rename_i step
      exact (activateEntity_leads step).trans (ih run)

/-- A pick reads the cache. -/
theorem pickNextEntity_leads (run : pickNextEntity s q = some (e, s')) : Leads s s' :=
  .still (pickNextEntity_changes run) rfl

end entities

section runs
variable {C : Conds} {s s' : State}

/-- No step of a hook lets the cache stray. -/
theorem Flow.leads (step : Flow C s s') : Leads s s' := by
  cases step with
  | quiet same => exact .books (by rw [same.books]) (by rw [same.books])
  | clock run =>
    rw [run]
    exact .sfq rfl
  | charge q run =>
    rw [run]
    exact .still (updateCurr_changes s q) rfl
  | reshare q inside run =>
    rw [run]
    exact .still (updateSfqShares_changes s q) rfl
  | enqueue e flags run => exact enqueueEntity_leads run
  | start t flags initial run =>
    refine Leads.trans ?_ (enqueueEntity_leads run)
    exact .sfq rfl
  | dequeue e flags run => exact dequeueEntity_leads run
  | putPrev t flags run =>
    obtain ⟨a, walk, rfl⟩ := Option.map_eq_some_iff.mp run
    exact (pssPutPrevWalk_leads walk).trans (.sfq rfl)
  | activate t run =>
    obtain ⟨a, walk, rfl⟩ := Option.map_eq_some_iff.mp run
    exact (pssActivateWalk_leads walk).trans (.sfq rfl)
  | mark ok view marked => exact .marked marked
  | uncount t run =>
    unfold rqRunRem at run
    split at run
    · cases run
    · cases run
      split <;> exact .sfq rfl
  | choose run =>
    rw [run]
    exact .sfq rfl
  | pick q e run => exact pickNextEntity_leads run
  | rtActivate t run =>
    obtain ⟨_, _, ⟨_, books⟩, _⟩ := rtActivateThread_spec run
    exact .books (by rw [books]) (by rw [books])

theorem pssForkPlace_leads (s : State) (parent child : Tid) : Leads s (pssForkPlace s parent child) := by
  unfold pssForkPlace
  dsimp only
  have charged : Leads s (updateCurr (updateRqClock s) (s.ent (.thread parent)).sfq) :=
    (Leads.still (updateRqClock_changes s) rfl).trans (.still (updateCurr_changes ..) rfl)
  refine (charged.trans ?_).trans (.still (placeEntityInitial_changes ..) rfl)
  exact .sfq rfl

/-- A fork touches no timeline. -/
theorem fork_leads (s : State) (parent : Tid) (newProc : Bool) (stale : SchedEntity) :
    Leads s (fork s parent newProc stale) := by
  have alloc : Leads s (forkAlloc s parent newProc) := by
    cases newProc <;> exact .sfq rfl
  have init (s : State) (child : Tid) : Leads s (schedForkInit s parent child stale) := .sfq rfl
  unfold fork schedForkThread
  dsimp only
  split
  · refine (alloc.trans (init _ s.nthreads)).trans ?_
    unfold pssForkThread
    dsimp only
    split
    · exact (pssForkPlace_leads ..).trans (.sfq rfl)
    · exact (pssForkPlace_leads ..).trans (.sfq rfl)
  · exact (alloc.trans (init _ s.nthreads)).trans (.sfq rfl)

theorem pssSchedGroupMove_leads (s : State) (t : Tid) (onRq : Bool) : Leads s (pssSchedGroupMove s t onRq) := by
  unfold pssSchedGroupMove
  dsimp only
  split <;> exact .sfq rfl

theorem pssSwitchedFrom_leads (s : State) (t : Tid) : Leads s (pssSwitchedFrom s t) :=
  .still (pssSwitchedFrom_changes s t) rfl

/-- A new timeline is empty, and so is its cache. -/
theorem schedGroupCreate_leads (s : State) (parent : Gid) (shares : Nat) : Leads s (schedGroupCreate s parent shares) := by
  refine ⟨fun led q => ?_⟩
  by_cases new : q = s.ngroups
  · subst new
    simp [schedGroupCreate, pssAllocSchedGroup, State.modGrp, State.modSfq, State.modEnt, Sfq.seq]
  · have kept : (schedGroupCreate s parent shares).sfq q = s.sfq q := by
      simp only [schedGroupCreate, pssAllocSchedGroup, State.modGrp, State.modSfq, State.modEnt]
      exact update_of_ne new ..
    rw [kept]
    exact led q

/-- No step lets the cache stray. -/
theorem Micro.leads (step : Micro C s s') : Leads s s' := by
  cases step with
  | flow step => exact step.leads
  | recast t priClass cls run =>
    rw [run]
    exact .sfq rfl
  | switchedFrom t priClass cls run =>
    rw [run]
    refine Leads.trans ?_ (pssSwitchedFrom_leads ..)
    exact .sfq rfl
  | switchedTo t priClass run =>
    rw [run]
    exact .sfq rfl
  | weigh t run =>
    rw [run]
    exact .sfq rfl
  | nice p nice range run =>
    rw [run]
    exact .sfq rfl
  | move t onRq run =>
    rw [run]
    exact pssSchedGroupMove_leads ..
  | fork parent newProc stale run =>
    rw [run]
    exact fork_leads ..
  | exit t run =>
    rw [run]
    exact .sfq rfl
  | setShares g shares run =>
    rw [run]
    exact .sfq rfl
  | create parent shares run =>
    rw [run]
    exact schedGroupCreate_leads ..
  | sysctl write tun new run =>
    rw [run]
    exact .sfq rfl

/-- Along every path the cache is the first entity of the timeline. -/
theorem Path.leads (h : Path C s s') : Leads s s' := by
  induction h with
  | refl => exact .refl _
  | step _ micro _ ih => exact micro.leads.trans ih

/-- All timelines are empty to begin with. -/
theorem bootQueues_led (k : Kernel) (tun : Tunables) : (bootQueues k tun).led := by
  intro q
  rfl

/-- The cached leftmost entities are right in every state of a run. -/
theorem Runs.led {k : Kernel} {tun : Tunables} {ops : List Op} (runs : Runs C k tun ops s) : s.led :=
  runs.path.leads.kept (bootQueues_led k tun)

end runs
end SfqSched
