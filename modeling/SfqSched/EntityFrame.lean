import SfqSched.Footprint

namespace SfqSched
open State Function

section footprints

/-- The inverses that `scale_by_weight` computes once and keeps. -/
def caching : Cell → Bool
  | .invWeight => true
  | _ => false

/-- The times of entities and queues. -/
def timing : Cell → Bool
  | .vruntime | .times | .vtime | .journal => true
  | _ => false

/-- What is written when an entity pays for its time. -/
def spending : Cell → Bool
  | c => timing c || caching c

/-- What `update_curr` gives back: a user priority. -/
def resetting : Cell → Bool
  | .userPri => true
  | _ => false

/-- What `update_curr` writes. -/
def charging : Cell → Bool
  | c => resetting c || spending c

/-- The counts and loads of queues. -/
def accounting : Cell → Bool
  | .sfqLoad | .invWeight | .nr | .rqLoad | .journal => true
  | _ => false

/-- What changes with the weight of an entity. -/
def weighing : Cell → Bool
  | .weight => true
  | c => accounting c || charging c

/-- What changes when a thread is put on the realtime queue or taken off. -/
def shelving : Cell → Bool
  | .onRunq | .realtime => true
  | _ => false

/-- What changes when a thread becomes runnable, boosted or not. -/
def boosting : Cell → Bool
  | .tdState => true
  | c => shelving c

/-- What changes when an entity is put in a timeline or on the realtime queue, or taken off. -/
def queueing : Cell → Bool
  | .onSfq | .timeline | .journal => true
  | c => boosting c

def marking : Cell → Bool
  | .candidates => true
  | _ => false

def ticking : Cell → Bool
  | .clock | .reads => true
  | _ => false

def asking : Cell → Bool
  | .asked => true
  | _ => false

def listing : Cell → Bool
  | .onLeafList | .leafSfqList => true
  | _ => false

theorem caching_spending : caching ≤ spending := fun c => by cases c <;> decide
theorem timing_spending : timing ≤ spending := fun c => by cases c <;> decide

/-- An entity that pays is charged, and its thread may get its user priority back. -/
theorem spending_charging : spending ≤ charging := fun c => by cases c <;> decide
theorem resetting_charging : resetting ≤ charging := fun c => by cases c <;> decide

/-- To charge is to scale, and to scale is to keep an inverse. -/
theorem caching_charging : caching ≤ charging := caching_spending.trans spending_charging
theorem timing_charging : timing ≤ charging := timing_spending.trans spending_charging
theorem shelving_boosting : shelving ≤ boosting := fun c => by cases c <;> decide
theorem boosting_queueing : boosting ≤ queueing := fun c => by cases c <;> decide
theorem accounting_weighing : accounting ≤ weighing := fun c => by cases c <;> decide

/-- An entity is charged before its weight changes. -/
theorem charging_weighing : charging ≤ weighing := fun c => by cases c <;> decide

end footprints

section load
variable (s : State) (q : Gid) (e : EntId)

/-- `scale_by_weight` fills in the inverse and leaves the weight. -/
@[simp] theorem scaleByWeight_weight (d w : Nat) (lw : LoadWeight) : (scaleByWeight d w lw).2.weight = lw.weight :=
  cacheInv_weight lw

/-- A delta is scaled on the load of the entity itself. -/
theorem scaleDelta_changes (d : Nat) : Changes caching s (scaleDelta s d e).2 := by
  unfold scaleDelta
  split
  · exact .refl s
  · refine .modEnt _ _ _ ?_
    simp only [SchedEntity.hide, cacheInv_weight]
    rfl

theorem schedSliceLevel_changes (slice : Nat) : Changes caching s (schedSliceLevel slice s e).2 := by
  unfold schedSliceLevel
  split
  · refine .modSfq _ _ _ ?_
    simp only [Sfq.hide, cacheInv_weight]
    rfl
  · exact .refl s

/-- `sched_slice` scales on the load of each queue on the way up. -/
theorem schedSlice_changes : Changes caching s (schedSlice s q e).2 := by
  have fold (chain : List EntId) (acc : Nat × State) :
      Changes caching acc.2 (chain.foldl (fun acc se => schedSliceLevel acc.1 acc.2 se) acc).2 := by
    induction chain generalizing acc with
    | nil => exact .refl _
    | cons se rest ih => exact (schedSliceLevel_changes acc.2 se acc.1).trans (ih _)
  exact fold _ (_, s)

/-- A queue counts the entity and its weight, and so does the CPU if the queue is at the top. -/
theorem accountEntityEnqueue_changes : Changes accounting s (accountEntityEnqueue s q e) := by
  unfold accountEntityEnqueue
  dsimp only
  have first : Changes accounting s (s.modSfq q fun sfq => { sfq with load := loadAdd sfq.load (s.ent e).load.weight }) :=
    .modSfq _ _ _ rfl
  refine .trans ?_ (.modSfq _ _ _ rfl)
  exact .ite (first.trans (.modRq _ _ rfl)) first

/-- The count and the weight are taken off again where they were put. -/
theorem accountEntityDequeue_changes : Changes accounting s (accountEntityDequeue s q e) := by
  unfold accountEntityDequeue
  dsimp only
  have first (ev : Event) : Changes accounting s ((s.emit ev).modSfq q fun sfq =>
      { sfq with load := loadSub sfq.load (s.ent e).load.weight }) := .trans (.emit _ _ rfl) (.modSfq _ _ _ rfl)
  refine .trans (.trans ?_ (.emit _ _ rfl)) (.modSfq _ _ _ rfl)
  exact .ite ((first _).trans (.trans (.emit _ _ rfl) (.modRq _ _ rfl))) (first _)

/-- Each reading of the clock is a new one. -/
theorem updateRqClock_changes : Changes ticking s (updateRqClock s) := by
  have first : Changes ticking s { s with reads := s.reads + 1 } := .setReads _ _ rfl
  exact first.trans (.modRq _ (fun rq =>
    { rq with
      clock := rq.clock + (s.kernel.schedTimeCpu s.reads - s.rq.clock)
      clockThread := rq.clockThread + (s.kernel.schedTimeCpu s.reads - s.rq.clock) }) rfl)

end load

section curr
variable (s : State) (q : Gid) (e : EntId)

theorem updateSfqVtime_changes : Changes timing s (updateSfqVtime s q) := by
  unfold updateSfqVtime
  dsimp only
  split <;> first | exact .modSfq _ _ _ rfl | exact .refl s

/-- The three functions that move an entity against its queue's vtime. -/
theorem placeEntity_changes : Changes timing s (placeEntity s q e) := .trans (.modEnt _ _ _ rfl) (.emit _ _ rfl)

theorem addVtime_changes : Changes timing s (addVtime s q e) := .trans (.modEnt _ _ _ rfl) (.emit _ _ rfl)

theorem subVtime_changes : Changes timing s (subVtime s q e) := .trans (.modEnt _ _ _ rfl) (.emit _ _ rfl)

/-- A child's place takes a slice, and a slice keeps inverses. -/
theorem placeEntityInitial_changes : Changes spending s (placeEntityInitial s q e) := by
  unfold placeEntityInitial schedVslice
  dsimp only
  split
  · exact (((schedSlice_changes s q e).trans (scaleDelta_changes ..)).mono caching_spending).trans (.modEnt _ _ _ rfl)
  · exact .modEnt _ _ _ rfl

/-- The one store of `update_curr` to a thread: the user priority it was lent. -/
theorem resetUserPri_changes : Changes resetting s (resetUserPri s e) := by
  unfold resetUserPri
  split
  · exact .ite (.modTd _ _ _ rfl) (.refl s)
  · exact .refl s

theorem chargeEntity_changes (d now : BitVec 64) : Changes spending s (chargeEntity s q e d now) := by
  unfold chargeEntity
  refine .trans ?_ ((updateSfqVtime_changes ..).mono timing_spending)
  refine .trans (.trans ?_ (.modEnt _ _ _ rfl)) (.emit _ _ rfl)
  exact .trans (.modEnt _ _ _ rfl) ((scaleDelta_changes ..).mono caching_spending)

/-- `update_curr` charges the current entity and writes nothing else. -/
theorem updateCurr_changes : Changes charging s (updateCurr s q) := by
  unfold updateCurr
  split
  · exact .refl s
  · have reset (e : EntId) : Changes charging s (resetUserPri s e) := (resetUserPri_changes s e).mono resetting_charging
    exact .ite (reset _) ((reset _).trans ((chargeEntity_changes ..).mono spending_charging))

/-- An entity whose weight changes is charged for the old one, and taken out of its queue's load meanwhile. -/
theorem updateEntityWeight_changes (weight : Nat) : Changes weighing s (updateEntityWeight s q e weight) := by
  unfold updateEntityWeight
  have first : Changes weighing s (if (s.sfq q).curr = some e then updateCurr s q else s) :=
    .ite ((updateCurr_changes s q).mono charging_weighing) (.refl s)
  split
  · have taken := (accountEntityDequeue_changes (if (s.sfq q).curr = some e then updateCurr s q else s) q e).mono
      accounting_weighing
    exact first.trans (taken.trans (.trans (.modEnt _ _ _ rfl)
      ((accountEntityEnqueue_changes ..).mono accounting_weighing)))
  · exact .modEnt _ _ _ rfl

theorem updateSfqShares_changes : Changes weighing s (updateSfqShares s q) := by
  unfold updateSfqShares
  dsimp only
  split
  · exact .refl s
  · exact .ite (.refl s) (updateEntityWeight_changes ..)

/-- The walk up that brings all shares up to date. -/
theorem updateSharesWalk_changes (chain : List EntId) : Changes weighing s (updateSharesWalk s chain) :=
  .foldl (fun s e => updateSfqShares_changes s (s.ent e).sfq) chain s

end curr

section queues
variable {s s' : State} {q : Gid} {e : EntId} {t : Tid} {flags : Nat}

/-- A boosted thread is on the realtime queue as well. -/
theorem rawRunqEnqueue_changes (run : rawRunqEnqueue s t flags = some s') : Changes shelving s s' := by
  obtain ⟨_, same⟩ := Option.ite_none_left_eq_some.mp run
  exact Option.some.inj same ▸ .trans (.modRq _ _ rfl) (.modEnt _ _ _ rfl)

theorem rawRunqDequeue_changes (s : State) (t : Tid) : Changes shelving s (rawRunqDequeue s t) :=
  .ite (.trans (.modRq _ _ rfl) (.modEnt _ _ _ rfl)) (.refl s)

/-- `__enqueue_entity` writes the timeline and the flag of its entity. -/
theorem rawEnqueueEntity_changes (run : rawEnqueueEntity s q e = some s') : Changes queueing s s' := by
  obtain ⟨_, same⟩ := Option.ite_none_left_eq_some.mp run
  exact Option.some.inj same ▸ .trans (.trans (.emit _ _ rfl) (.modSfq _ _ _ rfl)) (.modEnt _ _ _ rfl)

theorem rawDequeueEntity_changes (run : rawDequeueEntity s q e = some s') : Changes queueing s s' := by
  obtain ⟨_, same⟩ := Option.ite_none_right_eq_some.mp run
  exact Option.some.inj same ▸ .trans (.modSfq _ _ _ rfl) (.modEnt _ _ _ rfl)

theorem setTdState_changes (s : State) (t : Tid) (st : TdState) : Changes boosting s (setTdState s t st) := .modTd _ _ _ rfl

/-- `set_runq` makes a thread runnable, and boosts it if its priority is high enough. -/
theorem setRunq_changes (run : setRunq s e flags = some s') : Changes boosting s s' := by
  unfold setRunq at run
  split at run
  · rename_i t _
    exact (setTdState_changes ..).trans
      (.optional (f := fun s => rawRunqEnqueue s t flags) (fun step => (rawRunqEnqueue_changes step).mono shelving_boosting) run)
  · exact .of_eq (Option.some.inj run).symm

/-- `resched_thread` asks a thread to give up the CPU. -/
theorem reschedThread_changes (s : State) (t : Tid) : Changes asking s (reschedThread s t) := .modTd _ _ _ rfl

/-- `add_leaf_sfq` writes the list and the mark that a queue is on it. -/
theorem addLeafSfq_changes (s : State) (q : Gid) : Changes listing s (addLeafSfq s q) := by
  unfold addLeafSfq
  refine .ite (.refl s) (.trans ?_ (.modSfq _ _ _ rfl))
  split
  · exact .ite (.modRq _ _ rfl) (.modRq _ _ rfl)
  · exact .modRq _ _ rfl

end queues

section candidates
variable (s : State) (e : EntId)

/-- The three candidates of a queue are one cell. -/
theorem setCandidate_changes (q : Gid) (c : Candidate) (o : Option EntId) :
    Changes marking s (s.modSfq q fun sfq => sfq.setCandidate c o) := by
  refine .modSfq _ _ _ ?_
  cases c <;> rfl

/-- A thread that yields is to be skipped up to the first level where it is not alone. -/
theorem setSkipWalk_changes (chain : List EntId) : Changes marking s (setSkipWalk s chain) := by
  induction chain generalizing s with
  | nil => exact .refl s
  | cons e rest ih =>
    have first := setCandidate_changes s (s.ent e).sfq .skip (some e)
    exact .ite first (first.trans (ih _))

/-- A candidate is set all the way up. -/
theorem setCandidateWalk_changes (c : Candidate) (chain : List EntId) : Changes marking s (setCandidateWalk c s chain) := by
  induction chain generalizing s with
  | nil => exact .refl s
  | cons e rest ih => exact (setCandidate_changes ..).trans (ih _)

/-- A candidate is cleared up to the first level where it is another entity. -/
theorem clearCandidateWalk_changes (c : Candidate) (chain : List EntId) :
    Changes marking s (clearCandidateWalk c s chain) := by
  induction chain generalizing s with
  | nil => exact .refl s
  | cons e rest ih => exact .ite ((setCandidate_changes ..).trans (ih _)) (.refl s)

theorem setNextCandidate_changes : Changes marking s (setNextCandidate s e) :=
  .ite (.refl s) (setCandidateWalk_changes ..)

theorem setLastCandidate_changes : Changes marking s (setLastCandidate s e) :=
  .ite (.refl s) (setCandidateWalk_changes ..)

theorem clearCandidates_changes (q : Gid) : Changes marking s (clearCandidates s q e) := by
  have clear (c : Candidate) (s : State) (p : Prop) [Decidable p] :
      Changes marking s (if p then clearCandidateWalk c s (walkup s (some e)) else s) :=
    .ite (clearCandidateWalk_changes ..) (.refl s)
  exact ((clear .skip s _).trans (clear .next _ _)).trans (clear .last _ _)

end candidates
end SfqSched
