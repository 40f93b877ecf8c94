import SfqSched.Basis

namespace SfqSched
open State Function

section entities
variable {C : Conds} {t : Tid} {b : Basis} {s s' : State} {L : List EntId} {d : Option EntId} {q : Gid} {e : EntId}
  {flags : Nat}

/-- `enqueue_entity` leaves a vruntime that is absolute to the queue. -/
theorem enqueueEntity_follows (h : Follows t b s) (hier : s.view.Hier) (run : enqueueEntity s q e flags = some s')
    (own : e = .thread t → (flags &&& enqueueWakeup = 0 → b.Off) ∧ (flags &&& enqueueWakeup ≠ 0 → b.On q)) :
    Follows t (if e = .thread t then b.added q else b) s' := by
  obtain ⟨_, a, x, first, second, rfl⟩ := enqueueEntity_parts run
  have before : Follows t (if e = .thread t then b.added q else b) (enqueueVruntime s q e flags) := by
    unfold enqueueVruntime
    by_cases wakeup : flags &&& enqueueWakeup = 0
    · simp only [wakeup, if_true, ne_eq, not_true_eq_false, if_false]
      by_cases here : e = .thread t
      · subst here
        rw [if_pos rfl]
        exact (h.add q ((own rfl).1 wakeup)).charge q
      · rw [if_neg here]
        exact (h.add_other here).charge q
    · simp only [wakeup, if_false, ne_eq, not_false_eq_true, if_true]
      by_cases here : e = .thread t
      · have based := (own here).2 wakeup
        rw [if_pos here, based.added_self]
        exact (h.charge q).place q fun _ => ⟨q, based⟩
      · rw [if_neg here]
        exact (h.charge q).place q fun same => absurd same here
  obtain ⟨⟨_, _, look⟩, books⟩ := setRunq_spec (by simpa using hier) first
  have queued := before.books books fun p there => by rwa [look] at there
  have entered := queued.insert second fun here => by simpa [here] using b.added_on q
  have counted := updateSfqShares_follows (accountEntityEnqueue_follows (q := q) (e := e) entered) q
  have listed {b : Basis} {s : State} (h : Follows t b s) :
      Follows t b (if (s.sfq q).nrRunning = 1 then addLeafSfq s q else s) := by
    split
    · exact h.books (addLeafSfq_books ..) fun p there => by rwa [addLeafSfq_view] at there
    · exact h
  unfold enqueueAccount
  exact ((listed counted).emit (.join q e) rfl).modEnt _ _ ⟨rfl, rfl⟩

/-- `dequeue_entity` of a joined entity: a vruntime absolute to the queue becomes relative, unless its thread goes to sleep. -/
theorem dequeueEntity_follows (h : Follows t b s) (joined : s.view.joined e) (run : dequeueEntity s q e flags = some s')
    (own : e = .thread t → b.On q ∧ ∀ p, s.view.curr p = some (.thread t) → p = q) :
    Follows t (if e = .thread t ∧ flags &&& dequeueSleep = 0 then b.taken else b) s' := by
  obtain ⟨a, first, rfl⟩ := dequeueEntity_parts run joined
  have cleared : Follows t b (dequeueClear s q e) := clearCandidates_follows (runqDequeueEntity_follows (h.charge q))
  have marks : (runqDequeueEntity (updateCurr s q) e).books.Marked (fun _ _ => False) (dequeueClear s q e).books :=
    clearCandidates_marked _ q e
  have out : Follows t b a ∧ a.books.timingStart = (updateCurr s q).books.timingStart ∧
      a.books.clock = (updateCurr s q).books.clock ∧ a.view.curr = s.view.curr := by
    have curr : (dequeueClear s q e).view.curr = s.view.curr := by
      unfold dequeueClear
      rw [clearCandidates_view, runqDequeueEntity_curr, updateCurr_view]
    have times : (dequeueClear s q e).books.timingStart = (updateCurr s q).books.timingStart ∧
        (dequeueClear s q e).books.clock = (updateCurr s q).books.clock := by
      rw [marks.rest, runqDequeueEntity_books]
      exact ⟨rfl, rfl⟩
    split at first
    · obtain ⟨_, look, new⟩ := rawDequeueEntity_spec _ _ _ first
      refine ⟨cleared.remove first, ?_, ?_, ?_⟩
      · rw [new]
        exact times.1
      · rw [new]
        exact times.2
      · rw [look]
        exact curr
    · cases first
      exact ⟨cleared, times.1, times.2, curr⟩
  obtain ⟨removed, timing, clock, curr⟩ := out
  have left : Follows t (if e = .thread t ∧ flags &&& dequeueSleep = 0 then b.taken else b) (dequeueLeave a q e flags) := by
    have parts : Follows t b (((accountEntityDequeue a q e).emit (.leave q e)).modEnt e fun ent =>
        { ent with joined := false }) :=
      ((accountEntityDequeue_follows removed).emit (.leave q e) rfl).modEnt _ _ ⟨rfl, rfl⟩
    unfold dequeueLeave
    dsimp only
    by_cases sleep : flags &&& dequeueSleep = 0
    · rw [if_pos sleep]
      by_cases here : e = .thread t
      · subst here
        obtain ⟨based, only⟩ := own rfl
        rw [if_pos ⟨rfl, sleep⟩]
        refine parts.sub based fun p there => ?_
        have same : s.view.curr p = some (.thread t) := by
          rw [view_modEnt, view_emit, accountEntityDequeue_view] at there
          exact curr ▸ there
        obtain rfl := only p same
        have now := Follows.charge_paid same
        rw [← timing, ← clock] at now
        simpa [books_modEnt, books_emit, accountEntityDequeue_books] using now
      · rw [if_neg (by tauto)]
        exact parts.sub_other here
    · rw [if_neg sleep, if_neg (by tauto)]
      exact parts
  refine updateSfqShares_follows (left.books (updateSfqVtime_books ..) fun p there => ?_) q
  rwa [updateSfqVtime_view] at there

/-- `put_prev_entity` charges an entity and inserts it, if it is joined. -/
theorem putPrevEntity_follows (h : Follows t b s) (hier : s.view.Hier) (run : putPrevEntity s q e flags = some s')
    (own : e = .thread t → s.view.joined e → b.On q) : Follows t b s' := by
  have releases {s : State} (h : Follows t b s) : Follows t b (putPrevRelease s q e) := by
    have released := h.emit (.release q e s.rq.clockThread) rfl
    refine released.books (by simp [putPrevRelease, books_modSfq]) fun p there => ?_
    rw [putPrevRelease_view] at there
    by_cases here : p = q
    · subst here
      simp [View.setCurr] at there
    · simpa [View.setCurr, here] using there
  rcases putPrevEntity_parts run with ⟨_, rfl⟩ | ⟨joined, a, x, first, second, rfl⟩
  · exact releases h
  · have charges : Follows t b (putPrevCharge s q e flags) := by
      unfold putPrevCharge
      split
      · exact (h.marked (setSkipWalk_marked ..) (by rw [setSkipWalk_view])).charge q
      · exact h.charge q
    obtain ⟨⟨_, _, look⟩, books⟩ := setRunq_spec (by simpa using hier) first
    have queued := charges.books books fun p there => by rwa [look] at there
    exact releases (queued.insert second fun here => own here joined)

/-- An activation starts the times of the entity. -/
theorem activateEntity_follows (h : Follows t b s) (run : activateEntity s q e = some s') : Follows t b s' := by
  obtain ⟨_, a, first, _, rfl⟩ := activateEntity_parts run
  have removed : Follows t b a := (runqDequeueEntity_follows h).remove first
  have look : (activateStart a q e).view = a.view.setCurr q (some e) := activateStart_view
  by_cases here : e = .thread t
  · subst here
    refine ⟨?_, fun p _ => .inr ?_⟩
    · have read := removed.read
      simpa [activateStart, books_modEnt, books_modSfq, books_emit, reading, Reading.next, Event.touches] using read
    · simp [activateStart, books_modEnt, books_modSfq, books_emit]
  · refine removed.still [.activate q e a.rq.clockThread] ?_ (by simp [Event.touches]) ?_ ?_ ?_ fun p there => ?_
    all_goals try simp [activateStart, books_modEnt, books_modSfq, books_emit, Ne.symm here]
    rw [look] at there
    by_cases same : p = q
    · subst same
      simp only [View.setCurr, update_self, Option.some.injEq] at there
      exact absurd there here
    · simpa [View.setCurr, same] using there

end entities

end SfqSched
