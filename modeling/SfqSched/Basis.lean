import SfqSched.Reading
import SfqSched.ForkSteps

namespace SfqSched
open State Function

/-- What a vruntime counts from, if anything is known of it. -/
inductive Basis
  | unborn
  | relative
  | absolute (q : Gid)
  deriving DecidableEq, Repr

namespace Basis
variable {b : Basis} {q : Gid}

def read (v : BitVec 64) : Basis → Reading
  | .unborn => .unborn
  | .relative => .relative v
  | .absolute q => .absolute q v

/-- After `+= sfq->vtime`. -/
def added (q : Gid) : Basis → Basis
  | .unborn => .unborn
  | _ => .absolute q

/-- After `-= sfq->vtime`. -/
def taken : Basis → Basis
  | .unborn => .unborn
  | _ => .relative

/-- As far as is known, it is absolute to the queue. -/
def On (q : Gid) (b : Basis) : Prop := b = .unborn ∨ b = .absolute q

/-- As far as is known, it is relative. -/
def Off (b : Basis) : Prop := b = .unborn ∨ b = .relative

theorem On.added_self (based : b.On q) : b.added q = b := by
  rcases based with rfl | rfl <;> rfl

theorem taken_off (b : Basis) : b.taken.Off := by
  cases b with
  | unborn => exact .inl rfl
  | relative => exact .inr rfl
  | absolute p => exact .inr rfl

theorem taken_added (q : Gid) (b : Basis) : b.taken.added q = b.added q := by
  cases b <;> rfl

theorem added_on (q : Gid) (b : Basis) : (b.added q).On q := by
  cases b with
  | unborn => exact .inl rfl
  | relative => exact .inr rfl
  | absolute p => exact .inr rfl

end Basis

/-- What is known of a vruntime is what is stored, and whoever is current may be charged or owes nothing. -/
structure Follows (t : Tid) (b : Basis) (s : State) : Prop where
  read : reading t s.books.journal = b.read (s.books.vruntime (.thread t))
  paid : ∀ q, s.view.curr q = some (.thread t) → b.On q ∨ s.books.timingStart (.thread t) = s.books.clock

namespace Follows
variable {t : Tid} {b : Basis} {s s' : State} {q : Gid} {e : EntId}

/-- Of a thread of which nothing is known. -/
theorem unknown (h : Follows t .unborn s) (ev : Event) (written : s'.books.journal = ev :: s.books.journal)
    (unborn : ∀ v, ev ≠ .born t v true) : Follows t .unborn s' where
  read := by
    rw [written]
    change (reading t s.books.journal).next t ev = _
    rw [h.read]
    exact Reading.next_unborn unborn
  paid _ _ := .inl (.inl rfl)

/-- Nothing about the vruntime is written down, and nothing is written. -/
theorem still (h : Follows t b s) (fresh : List Event) (written : s'.books.journal = fresh ++ s.books.journal)
    (apart : ∀ ev ∈ fresh, ev.touches t = false)
    (vruntime : s'.books.vruntime (.thread t) = s.books.vruntime (.thread t))
    (timing : s'.books.timingStart (.thread t) = s.books.timingStart (.thread t)) (clock : s'.books.clock = s.books.clock)
    (curr : ∀ q, s'.view.curr q = some (.thread t) → s.view.curr q = some (.thread t)) : Follows t b s' where
  read := by
    rw [written, reading_apart apart, vruntime]
    exact h.read
  paid q there := by
    rw [timing, clock]
    exact h.paid q (curr q there)

theorem books (h : Follows t b s) (same : s'.books = s.books)
    (curr : ∀ q, s'.view.curr q = some (.thread t) → s.view.curr q = some (.thread t)) : Follows t b s' :=
  h.still [] (by rw [same]; rfl) (by simp) (by rw [same]) (by rw [same]) (by rw [same]) curr

theorem emit (h : Follows t b s) (ev : Event) (apart : ev.touches t = false) : Follows t b (s.emit ev) :=
  h.still [ev] rfl (by simpa using apart) rfl rfl rfl fun _ => id

/-- A store into an entity that does not show. -/
theorem modEnt (h : Follows t b s) (e : EntId) (f : SchedEntity → SchedEntity)
    (keeps : (f (s.ent e)).vruntime = (s.ent e).vruntime ∧ (f (s.ent e)).timingStart = (s.ent e).timingStart) :
    Follows t b (s.modEnt e f) := by
  refine h.still [] rfl (by simp) ?_ ?_ rfl fun p there => by rwa [view_modEnt] at there
  · simp [books_modEnt, keeps.1]
  · simp [books_modEnt, keeps.2]

theorem marked {ok : Gid → EntId → Prop} (h : Follows t b s) (marks : s.books.Marked ok s'.books)
    (curr : s'.view.curr = s.view.curr) : Follows t b s' := by
  refine h.still [] ?_ (by simp) ?_ ?_ ?_ fun q there => curr ▸ there
  all_goals rw [marks.rest]
  rfl

/-- Time may pass while the thread is not current, or its vruntime absolute. -/
theorem clock (h : Follows t b s) (time : ∀ q, s.view.curr q = some (.thread t) → b.On q) :
    Follows t b (updateRqClock s) :=
  ⟨h.read, fun q there => .inl (time q there)⟩

theorem charge (h : Follows t b s) (q : Gid) : Follows t b (updateCurr s q) := by
  have curr : (updateCurr s q).view.curr = s.view.curr := by rw [updateCurr_view]
  rcases updateCurr_books s q with ⟨same, _⟩ | ⟨x, w, current, owes, paid⟩
  · exact h.books same fun p there => curr ▸ there
  · by_cases here : x = .thread t
    · subst here
      rcases (h.paid q current).resolve_right owes with rfl | rfl
      · refine h.unknown (.charge q _ _ w s.books.clock) (by rw [paid]; rfl) fun v => nofun
      · refine ⟨?_, fun p _ => .inr ?_⟩
        · rw [paid]
          change (reading t s.books.journal).next t _ = _
          rw [h.read]
          simp [Reading.next, Event.touches, Basis.read, Books.charge]
        · rw [paid]
          exact update_self ..
    · have other : EntId.thread t ≠ x := Ne.symm here
      refine h.still [.charge q x (s.books.clock - s.books.timingStart x) w s.books.clock] (by rw [paid]; rfl)
        (by simp [Event.touches, here]) ?_ ?_ (by rw [paid]; rfl) fun p there => curr ▸ there
      · rw [paid]
        exact update_of_ne other ..
      · rw [paid]
        exact update_of_ne other ..

/-- After `update_curr` the current entity owes nothing. -/
theorem charge_paid (current : s.view.curr q = some e) :
    (updateCurr s q).books.timingStart e = (updateCurr s q).books.clock := by
  rcases updateCurr_books s q with ⟨same, now⟩ | ⟨x, w, there, _, paid⟩
  · rw [same]
    exact now e current
  · cases current.symm.trans there
    rw [paid]
    exact update_self ..

/-- `place_entity` raises a vruntime that is absolute. -/
theorem place (h : Follows t b s) (q : Gid) (own : e = .thread t → ∃ p, b.On p) : Follows t b (placeEntity s q e) := by
  obtain ⟨v, placed⟩ := placeEntity_books s q e
  have curr (p : Gid) (there : (placeEntity s q e).view.curr p = some (.thread t)) : s.view.curr p = some (.thread t) := by
    rwa [placeEntity_view] at there
  by_cases here : e = .thread t
  · subst here
    obtain ⟨p, rfl | rfl⟩ := own rfl
    · exact h.unknown (.place _ v) (by rw [placed]) fun v => nofun
    · refine ⟨?_, fun r there => ?_⟩
      · rw [placed]
        change (reading t s.books.journal).next t _ = _
        rw [h.read]
        simp [Reading.next, Event.touches, Basis.read]
      · rw [placed]
        exact h.paid r (curr r there)
  · refine h.still [.place e v] (by rw [placed]; rfl) (by simp [Event.touches, here]) ?_ (by rw [placed]) (by rw [placed]) curr
    rw [placed]
    exact update_of_ne (Ne.symm here) ..

theorem add_other (h : Follows t b s) (other : e ≠ .thread t) : Follows t b (addVtime s q e) := by
  have added := addVtime_books s q e
  refine h.still [.addVtime e q (s.sfq q).vtime] (by rw [added]; rfl) (by simp [Event.touches, other]) ?_ (by rw [added])
    (by rw [added]) fun p there => ?_
  · rw [added]
    exact update_of_ne other.symm ..
  · rwa [addVtime_view] at there

theorem sub_other (h : Follows t b s) (other : e ≠ .thread t) : Follows t b (subVtime s q e) := by
  have taken := subVtime_books s q e
  refine h.still [.subVtime e q (s.sfq q).vtime] (by rw [taken]; rfl) (by simp [Event.touches, other]) ?_ (by rw [taken])
    (by rw [taken]) fun p there => ?_
  · rw [taken]
    exact update_of_ne other.symm ..
  · rwa [subVtime_view] at there

/-- `+= sfq->vtime`. -/
theorem add (h : Follows t b s) (q : Gid) (off : b.Off) : Follows t (b.added q) (addVtime s q (.thread t)) := by
  have added := addVtime_books s q (.thread t)
  rcases off with rfl | rfl
  · exact h.unknown (.addVtime _ q _) (by rw [added]) fun v => nofun
  · refine ⟨?_, fun p there => .inr ?_⟩
    · rw [added]
      change (reading t s.books.journal).next t _ = _
      rw [h.read]
      simp [Reading.next, Event.touches, Basis.read, Basis.added]
    · rw [addVtime_view] at there
      rw [added]
      exact (h.paid p there).resolve_left (by simp [Basis.On])

/-- `-= sfq->vtime`, when nothing is owed. -/
theorem sub (h : Follows t b s) (based : b.On q)
    (settled : ∀ p, s.view.curr p = some (.thread t) → s.books.timingStart (.thread t) = s.books.clock) :
    Follows t b.taken (subVtime s q (.thread t)) := by
  have taken := subVtime_books s q (.thread t)
  rcases based with rfl | rfl
  · exact h.unknown (.subVtime _ q _) (by rw [taken]) fun v => nofun
  · refine ⟨?_, fun p there => .inr ?_⟩
    · rw [taken]
      change (reading t s.books.journal).next t _ = _
      rw [h.read]
      simp [Reading.next, Event.touches, Basis.read, Basis.taken]
    · rw [subVtime_view] at there
      rw [taken]
      exact settled p there

theorem insert (h : Follows t b s) (run : rawEnqueueEntity s q e = some s') (own : e = .thread t → b.On q) :
    Follows t b s' := by
  obtain ⟨_, look, front, back, _, new, _⟩ := rawEnqueueEntity_spec _ _ _ run
  have curr (p : Gid) (there : s'.view.curr p = some (.thread t)) : s.view.curr p = some (.thread t) := by
    rwa [look] at there
  by_cases here : e = .thread t
  · subst here
    rcases own rfl with rfl | rfl
    · exact h.unknown (.insert q _ _) (by rw [new]) fun v => nofun
    · refine ⟨?_, fun p there => ?_⟩
      · rw [new]
        change (reading t s.books.journal).next t _ = _
        rw [h.read]
        simp [Reading.next, Event.touches, Basis.read]
      · rw [new]
        exact h.paid p (curr p there)
  · exact h.still [.insert q e _] (by rw [new]; rfl) (by simp [Event.touches, here]) (by rw [new]) (by rw [new])
      (by rw [new]) curr

theorem remove (h : Follows t b s) (run : rawDequeueEntity s q e = some s') : Follows t b s' := by
  obtain ⟨_, look, new⟩ := rawDequeueEntity_spec _ _ _ run
  refine h.still [] (by rw [new]; rfl) (by simp) (by rw [new]) (by rw [new]) (by rw [new]) fun p there => ?_
  rwa [look] at there

end Follows

section shares
variable {t : Tid} {b : Basis} {s : State} {q : Gid} {e : EntId}

theorem accountEntityEnqueue_follows (h : Follows t b s) : Follows t b (accountEntityEnqueue s q e) := by
  refine h.books (accountEntityEnqueue_books ..) fun p there => ?_
  rwa [accountEntityEnqueue_view] at there

theorem accountEntityDequeue_follows (h : Follows t b s) : Follows t b (accountEntityDequeue s q e) := by
  have books := accountEntityDequeue_books s q e
  refine h.still (s.view.subtractions q e) (by rw [books]) (fun ev member => ?_) (by rw [books]) (by rw [books])
    (by rw [books]) fun p there => ?_
  · simp only [View.subtractions, List.mem_cons, List.mem_append, List.not_mem_nil, or_false] at member
    rcases member with rfl | rest | rfl
    · rfl
    · split at rest
      · cases List.mem_singleton.mp rest
        rfl
      · cases rest
    · rfl
  · rwa [accountEntityDequeue_view] at there

theorem updateEntityWeight_follows (h : Follows t b s) (w : Nat) : Follows t b (updateEntityWeight s q e w) := by
  have first : Follows t b (if (s.sfq q).curr = some e then updateCurr s q else s) := by
    split
    · exact h.charge q
    · exact h
  have store {s : State} (h : Follows t b s) : Follows t b (s.modEnt e fun ent => { ent with load := loadSet w }) :=
    h.books (by simp [books_modEnt]) fun p there => by rwa [view_modEnt] at there
  unfold updateEntityWeight
  split
  · exact accountEntityEnqueue_follows (store (accountEntityDequeue_follows first))
  · exact store h

theorem updateSfqShares_follows (h : Follows t b s) (q : Gid) : Follows t b (updateSfqShares s q) := by
  unfold updateSfqShares
  dsimp only
  split
  · exact h
  · split
    · exact h
    · exact updateEntityWeight_follows h _

theorem clearCandidates_follows (h : Follows t b s) : Follows t b (clearCandidates s q e) :=
  h.marked (clearCandidates_marked (r := fun _ _ => False) ..) (by rw [clearCandidates_view])

theorem runqDequeueEntity_curr (s : State) (e : EntId) : (runqDequeueEntity s e).view.curr = s.view.curr := by
  unfold runqDequeueEntity
  split
  · rw [rawRunqDequeue_view]
    split <;> rfl
  · rfl

theorem runqDequeueEntity_follows (h : Follows t b s) : Follows t b (runqDequeueEntity s e) := by
  refine h.books (runqDequeueEntity_books ..) fun p there => ?_
  rwa [runqDequeueEntity_curr] at there

end shares

end SfqSched
