import SfqSched.View
import SfqSched.EntityFrame

namespace SfqSched
open State Function

/-- What the view does not show. -/
def View.blind : Cell → Bool
  | .tun | .reads | .nprocs | .journal | .vruntime | .times | .invWeight | .candidates | .vtime | .onLeafList | .members
  | .priority | .userPri | .asked | .proc | .rtCurr | .clock | .leafSfqList => true
  | _ => false

/-- What the books do not show. -/
def Books.blind : Cell → Bool
  | .vruntime | .times | .clock | .timeline | .candidates | .journal => false
  | _ => true

section blind
variable {w : Cell → Bool} {s s' : State}

/-- A function that writes only what the view does not show keeps the view. -/
theorem Cover.Within.view (h : Changes w s s') (blind : w ≤ View.blind) : s'.view = s.view :=
  (h.mono blind).read State.view fun _ => rfl

/-- A function that writes only what the books do not show keeps the books. -/
theorem Cover.Within.books (h : Changes w s s') (blind : w ≤ Books.blind) : s'.books = s.books :=
  (h.mono blind).read State.books fun _ => rfl

/-- The view shows no time. -/
theorem timing_view : timing ≤ View.blind := fun c => by cases c <;> decide
theorem charging_view : charging ≤ View.blind := fun c => by cases c <;> decide

/-- Of a load the view shows the weight. -/
theorem caching_view : caching ≤ View.blind := fun c => by cases c <;> decide

/-- The view shows no candidate. -/
theorem marking_view : marking ≤ View.blind := fun c => by cases c <;> decide
theorem asking_view : asking ≤ View.blind := fun c => by cases c <;> decide
theorem listing_view : listing ≤ View.blind := fun c => by cases c <;> decide

/-- The books show no load. -/
theorem caching_books : caching ≤ Books.blind := fun c => by cases c <;> decide
theorem listing_books : listing ≤ Books.blind := fun c => by cases c <;> decide

end blind

section times
variable (s : State) (q : Gid) (e : EntId)

@[simp] theorem updateRqClock_view : (updateRqClock s).view = s.view := rfl

/-- Of the clocks the books keep the one for threads. -/
theorem updateRqClock_books : ∃ clock, (updateRqClock s).books = { s.books with clock := clock } := ⟨_, rfl⟩

@[simp] theorem updateSfqVtime_view : (updateSfqVtime s q).view = s.view := (updateSfqVtime_changes s q).view timing_view

/-- A queue's own time is not in the books; its entities' times are. -/
@[simp] theorem updateSfqVtime_books : (updateSfqVtime s q).books = s.books := by
  unfold updateSfqVtime
  dsimp only
  split <;> simp [books_modSfq]

@[simp] theorem scaleDelta_books (d : Nat) : (scaleDelta s d e).2.books = s.books := (scaleDelta_changes s e d).books caching_books

@[simp] theorem schedVslice_books : (schedVslice s q e).2.books = s.books :=
  ((schedSlice_changes s q e).trans (scaleDelta_changes ..)).books caching_books

@[simp] theorem placeEntityInitial_view : (placeEntityInitial s q e).view = s.view :=
  ((placeEntityInitial_changes s q e).mono spending_charging).view charging_view

/-- The place of a child is a new vruntime, and nothing else in the books. -/
theorem placeEntityInitial_books :
    ∃ v, (placeEntityInitial s q e).books = { s.books with vruntime := update s.books.vruntime e v } := by
  unfold placeEntityInitial
  split
  · exact ⟨_, by simp [books_modEnt]; rfl⟩
  · exact ⟨_, by simp [books_modEnt]; rfl⟩

@[simp] theorem placeEntity_view : (placeEntity s q e).view = s.view := (placeEntity_changes s q e).view timing_view
@[simp] theorem addVtime_view : (addVtime s q e).view = s.view := (addVtime_changes s q e).view timing_view
@[simp] theorem subVtime_view : (subVtime s q e).view = s.view := (subVtime_changes s q e).view timing_view

/-- A new vruntime and an event in the journal. -/
theorem placeEntity_books :
    ∃ v, (placeEntity s q e).books =
      { s.books with
        vruntime := update s.books.vruntime e v
        journal := .place e v :: s.books.journal } :=
  ⟨_, by simp [placeEntity, books_emit, books_modEnt]; exact ⟨rfl, rfl⟩⟩

/-- The queue's vtime is added, and the journal says how much. -/
theorem addVtime_books :
    (addVtime s q e).books =
      { s.books with
        vruntime := update s.books.vruntime e (s.books.vruntime e + (s.sfq q).vtime)
        journal := .addVtime e q (s.sfq q).vtime :: s.books.journal } := by
  simp [addVtime, books_emit, books_modEnt]

/-- The queue's vtime is taken off, and the journal says how much. -/
theorem subVtime_books :
    (subVtime s q e).books =
      { s.books with
        vruntime := update s.books.vruntime e (s.books.vruntime e - (s.sfq q).vtime)
        journal := .subVtime e q (s.sfq q).vtime :: s.books.journal } := by
  simp [subVtime, books_emit, books_modEnt]

end times

/-- The current entity `e` of `q` pays for the time since its last charge. -/
def Books.charge (b : Books) (q : Gid) (e : EntId) (weighted : Nat) : Books :=
  { b with
    vruntime := update b.vruntime e (b.vruntime e + BitVec.ofNat 64 weighted)
    timingStart := update b.timingStart e b.clock
    sumExec := update b.sumExec e (b.sumExec e + (b.clock - b.timingStart e))
    journal := .charge q e (b.clock - b.timingStart e) weighted b.clock :: b.journal }

section charge
variable (s : State) (q : Gid)

@[simp] theorem resetUserPri_books (e : EntId) : (resetUserPri s e).books = s.books := by
  unfold resetUserPri
  split
  · split <;> rfl
  · rfl

/-- A charge in the books: the time since the last one, weighted for the vruntime. -/
theorem chargeEntity_books (e : EntId) :
    ∃ w, (chargeEntity s q e (s.books.clock - s.books.timingStart e) s.books.clock).books = s.books.charge q e w :=
  ⟨_, by simp [chargeEntity, books_modEnt, books_emit, Books.charge]; exact ⟨rfl, rfl⟩⟩

@[simp] theorem updateCurr_view : (updateCurr s q).view = s.view := (updateCurr_changes s q).view charging_view

/-- `update_curr` charges the current entity if time has passed, and else does nothing. -/
theorem updateCurr_books :
    ((updateCurr s q).books = s.books ∧ ∀ e, s.view.curr q = some e → s.books.timingStart e = s.books.clock) ∨
      ∃ e w, s.view.curr q = some e ∧ s.books.timingStart e ≠ s.books.clock ∧
        (updateCurr s q).books = s.books.charge q e w := by
  unfold updateCurr
  split
  · rename_i noCurr
    exact .inl ⟨rfl, fun e isCurr => by simp_all⟩
  · rename_i e isCurr
    simp only [books_clock, books_timingStart, resetUserPri_books, view_curr] at isCurr ⊢
    split
    · rename_i still
      refine .inl ⟨by simp, fun e' isCurr' => ?_⟩
      cases isCurr.symm.trans isCurr'
      exact (by simpa using BitVec.sub_eq_iff_eq_add.mp still : s.books.clock = _).symm
    · rename_i moved
      obtain ⟨w, paid⟩ := chargeEntity_books (resetUserPri s e) q e
      simp only [resetUserPri_books] at paid
      exact .inr ⟨e, w, isCurr, fun same => moved (by simp [same]), paid⟩

end charge

section weights
variable (s : State) (q : Gid) (e : EntId)

/-- The queue has one more entity and its weight. -/
theorem accountEntityEnqueue_view :
    (accountEntityEnqueue s q e).view =
      { s.view with
        nr := update s.view.nr q (s.view.nr q + 1)
        qweight := update s.view.qweight q (s.view.qweight q + s.view.weight e)
        rqWeight := if s.view.parent e = none then s.view.rqWeight + s.view.weight e else s.view.rqWeight } := by
  unfold accountEntityEnqueue
  by_cases top : s.view.parent e = none <;> simp [view_modSfq, view_modRq, top, loadAdd]

@[simp] theorem accountEntityEnqueue_books : (accountEntityEnqueue s q e).books = s.books := by
  unfold accountEntityEnqueue
  by_cases top : s.view.parent e = none <;> simp [view_modSfq, books_modSfq, books_modRq, top]

/-- The queue has one entity less, and its weight less. -/
theorem accountEntityDequeue_view :
    (accountEntityDequeue s q e).view =
      { s.view with
        nr := update s.view.nr q (s.view.nr q - 1)
        qweight := update s.view.qweight q (s.view.qweight q - s.view.weight e)
        rqWeight := if s.view.parent e = none then s.view.rqWeight - s.view.weight e else s.view.rqWeight } := by
  unfold accountEntityDequeue
  by_cases top : s.view.parent e = none <;> simp [view_modSfq, view_modRq, top, loadSub]

/-- The subtractions of `account_entity_dequeue`, newest first. -/
def View.subtractions (v : View) (q : Gid) (e : EntId) : List Event :=
  .subtract (v.nr q) 1 ::
    ((if v.parent e = none then [.subtract v.rqWeight (v.weight e)] else []) ++
      [.subtract (v.qweight q) (v.weight e)])

theorem accountEntityDequeue_books :
    (accountEntityDequeue s q e).books =
      { s.books with journal := s.view.subtractions q e ++ s.books.journal } := by
  unfold accountEntityDequeue
  by_cases top : s.view.parent e = none <;>
    simp [View.subtractions, view_modSfq, view_modRq, books_modSfq, books_modRq, books_emit, top]

/-- A joined entity takes its new weight by leaving the accounts of its queue and coming back. -/
def View.reweigh (v : View) (e : EntId) (weight : Nat) : View :=
  if v.joined e then
    { v with
      weight := update v.weight e weight
      nr := update v.nr (v.sfq e) (v.nr (v.sfq e) - 1 + 1)
      qweight := update v.qweight (v.sfq e) (v.qweight (v.sfq e) - v.weight e + weight)
      rqWeight := if v.parent e = none then v.rqWeight - v.weight e + weight else v.rqWeight }
  else { v with weight := update v.weight e weight }

/-- A joined entity's weight is exchanged in its queue's load as well. -/
theorem updateEntityWeight_view (weight : Nat) :
    (updateEntityWeight s (s.view.sfq e) e weight).view = s.view.reweigh e weight := by
  unfold updateEntityWeight View.reweigh
  by_cases joined : s.view.joined e
  · by_cases top : s.view.parent e = none <;> by_cases current : s.view.curr (s.view.sfq e) = some e <;>
      simp [joined, current, top, accountEntityEnqueue_view, accountEntityDequeue_view, view_modEnt, loadSet]
  · simp [joined, view_modEnt, loadSet]

/-- The owner of `q`, if it has one, takes the weight of its shares. -/
def View.reshare (v : View) (q : Gid) : View :=
  match v.groupSe (v.owner q) with
  | none => v
  | some se => if v.weight se = v.shares (v.owner q) then v else v.reweigh se (v.shares (v.owner q))

/-- The entity that stands for a queue gets the weight its queue's share is worth. -/
theorem updateSfqShares_view : (updateSfqShares s q).view = s.view.reshare q := by
  unfold updateSfqShares View.reshare
  simp only [view_owner, view_groupSe, view_weight, view_shares, view_sfq]
  cases s.view.groupSe (s.view.owner q) with
  | none => rfl
  | some se =>
    by_cases same : s.view.weight se = s.view.shares (s.view.owner q)
    · simp [same]
    · simp only [same, if_false]
      exact updateEntityWeight_view ..

end weights

end SfqSched
