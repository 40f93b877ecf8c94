import SfqSched.EntityFrame

namespace SfqSched
open State Function

section footprints

/-- What is written on the way down to the entity that gets the CPU. -/
def picking : Cell → Bool
  | .journal | .candidates => true
  | c => caching c

/-- What is written to ask the current thread to give up the CPU, and to pass it on. -/
def urging : Cell → Bool
  | .asked | .candidates => true
  | c => caching c

/-- What a check writes that may ask the current thread to give up the CPU. -/
def preempting : Cell → Bool
  | c => urging c || charging c

/-- A candidate is compared with the leftmost entity by a scaled delta. -/
theorem caching_picking : caching ≤ picking := fun c => by cases c <;> decide
theorem marking_picking : marking ≤ picking := fun c => by cases c <;> decide

/-- The current entity is charged before another one is compared with it. -/
theorem charging_preempting : charging ≤ preempting := fun c => by cases c <;> decide
theorem asking_urging : asking ≤ urging := fun c => by cases c <;> decide
theorem marking_urging : marking ≤ urging := fun c => by cases c <;> decide
theorem caching_urging : caching ≤ urging := fun c => by cases c <;> decide
theorem urging_preempting : urging ≤ preempting := fun c => by cases c <;> decide
theorem marking_preempting : marking ≤ preempting := marking_urging.trans urging_preempting
theorem asking_preempting : asking ≤ preempting := asking_urging.trans urging_preempting

end footprints

section pick
variable {s s' : State}

/-- A sleeping thread that leaves `pss_class` is placed, and its vruntime made relative. -/
theorem pssSwitchedFrom_changes (s : State) (t : Tid) : Changes timing s (pssSwitchedFrom s t) :=
  .ite ((placeEntity_changes ..).trans (subVtime_changes ..)) (.refl s)

/-- The granularity of a wakeup is scaled by the weight of the waking entity. -/
theorem wakeupPreemptEntity_changes (s : State) (c e : EntId) : Changes caching s (wakeupPreemptEntity s c e).2 := by
  unfold wakeupPreemptEntity wakeupGran
  dsimp only
  split
  · split <;> exact scaleDelta_changes ..
  · exact .refl s

theorem preferCandidate_changes (c : Option EntId) (first : EntId) (acc : EntId × State) :
    Changes caching acc.2 (preferCandidate c first acc).2 := by
  unfold preferCandidate
  split
  · exact wakeupPreemptEntity_changes ..
  · exact .refl _

/-- A level of the way down: the choice among candidates and leftmost, which then are cleared. -/
theorem pickNextEntity_changes {q : Gid} {e : EntId} (run : pickNextEntity s q = some (e, s')) :
    Changes picking s s' := by
  unfold pickNextEntity at run
  split at run
  · cases run
  · cases run
    refine .trans (.trans ?_ (.emit _ _ rfl)) ((clearCandidates_changes ..).mono marking_picking)
    have skip := preferCandidate_changes
    exact (((skip _ _ (_, s)).trans (skip ..)).trans (skip ..)).mono caching_picking

/-- The way down to a thread. -/
theorem pssPickFrom_changes {fuel : Nat} {q : Gid} {e : EntId} (run : pssPickFrom s fuel q = some (e, s')) :
    Changes picking s s' := by
  induction fuel generalizing s q with
  | zero => cases run
  | succ fuel ih =>
    unfold pssPickFrom at run
    split at run
    · cases run
    · rename_i first
      split at run
      · cases run
        exact pickNextEntity_changes first
      · exact (pickNextEntity_changes first).trans (ih run)

theorem pssPickNextThread_changes {picked : Option Tid} (run : pssPickNextThread s = some (picked, s')) :
    Changes picking s s' := by
  unfold pssPickNextThread at run
  split at run
  · cases run
    exact .refl s
  · obtain ⟨⟨e, a⟩, first, run⟩ := Option.bind_eq_some_iff.mp run
    dsimp only at run
    split at run
    · split at run
      · cases run
      · cases run
        exact pssPickFrom_changes first
    · cases run

end pick

section preempt
variable {s s' : State} {t : Tid}

/-- By its priority a thread asks for the CPU, and changes nothing else. -/
theorem checkPriorityPreempt_changes (s : State) (t : Tid) : Changes asking s (checkPriorityPreempt s t) := by
  have asked := reschedThread_changes s s.curthread
  exact .ite (.refl s) (.ite asked (.ite (asked.trans (.modTd _ _ _ rfl)) asked))

theorem preemptCurr_changes (s : State) (ctd : Tid) (e : EntId) (scale : Bool) :
    Changes urging s (preemptCurr s ctd e scale) := by
  have asked := (reschedThread_changes s ctd).mono asking_urging
  exact .ite (asked.trans ((setLastCandidate_changes ..).mono marking_urging)) asked

/-- By its vruntime a thread asks for the CPU, and may become a candidate. -/
theorem pssCheckPreemptCurr_changes (run : pssCheckPreemptCurr s t = some s') : Changes preempting s s' := by
  unfold pssCheckPreemptCurr at run
  dsimp only at run
  split at run
  · exact .of_eq (Option.some.inj run).symm
  · split at run
    · exact Option.some.inj run ▸ (preemptCurr_changes ..).mono urging_preempting
    · obtain ⟨⟨curr, e⟩, _, rfl⟩ := Option.map_eq_some_iff.mp run
      have charged := ((updateCurr_changes s (s.ent curr).sfq).trans
        ((wakeupPreemptEntity_changes _ curr e).mono caching_charging)).mono charging_preempting
      have marked := (setNextCandidate_changes (wakeupPreemptEntity (updateCurr s (s.ent curr).sfq) curr e).2 e).mono
        marking_preempting
      exact .ite ((charged.trans marked).trans ((preemptCurr_changes ..).mono urging_preempting)) charged

theorem checkPreemptCurr_changes (run : checkPreemptCurr s t = some s') : Changes preempting s s' := by
  have priority := (checkPriorityPreempt_changes s t).mono asking_preempting
  exact priority.trans (.optional (f := fun s => pssCheckPreemptCurr s t) pssCheckPreemptCurr_changes run)

/-- A tick asks for the CPU when the slice of the current entity is used up. -/
theorem checkPreemptTick_changes (s : State) (q : Gid) (e : EntId) : Changes urging s (checkPreemptTick s q e) := by
  have slice := (schedSlice_changes s q e).mono caching_urging
  have asked (s : State) (t : Tid) := (reschedThread_changes s t).mono asking_urging
  have cleared (s : State) := (clearCandidates_changes s e q).mono marking_urging
  unfold checkPreemptTick
  dsimp only
  refine .ite ((slice.trans (cleared _)).trans (asked ..)) (.ite slice ?_)
  split
  · exact slice
  · exact .ite (slice.trans (asked ..)) slice

theorem entityTick_changes (s : State) (e : EntId) : Changes preempting s (entityTick s e) := by
  have charged := (updateCurr_changes s (s.ent e).sfq).mono charging_preempting
  exact .ite (charged.trans ((checkPreemptTick_changes ..).mono urging_preempting)) charged

/-- A tick looks at every level of the running thread's chain. -/
theorem pssTickThread_changes (s : State) (t : Tid) : Changes preempting s (pssTickThread s t) :=
  .foldl entityTick_changes _ _

end preempt
end SfqSched
