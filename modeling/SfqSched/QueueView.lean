import SfqSched.EntityView

namespace SfqSched
open State Function

/-- A place on the realtime queue, or none, for the thread of an entity. -/
def View.boost (v : View) (t : Tid) : View :=
  { v with
    realtime := fun u => u = t ∨ v.realtime u
    onRunq := update v.onRunq (.thread t) true }

def View.unboost (v : View) (t : Tid) : View :=
  { v with
    realtime := fun u => u ≠ t ∧ v.realtime u
    onRunq := update v.onRunq (.thread t) false }

section realtime
variable (s : State) (t : Tid)

/-- The thread is in the realtime queue once more. -/
theorem runqAdd_view (head : Bool) :
    (runqAdd s t head).view = { s.view with realtime := fun u => u = t ∨ s.view.realtime u } := by
  have member : queuedIn (runqAdd s t head).rq.realtime = fun u => u = t ∨ s.view.realtime u := by
    funext u
    cases head <;> simp only [runqAdd, modRq, queuedIn, view] <;> simp [or_comm, eq_comm]
  rw [← member]
  rfl

@[simp] theorem runqAdd_books (head : Bool) : (runqAdd s t head).books = s.books := rfl

/-- The thread is out of the realtime queue. -/
theorem runqRemove_view :
    (runqRemove s t).view = { s.view with realtime := fun u => u ≠ t ∧ s.view.realtime u } := by
  have member : queuedIn (runqRemove s t).rq.realtime = fun u => u ≠ t ∧ s.view.realtime u := by
    funext u
    simp only [runqRemove, modRq, queuedIn, view, List.mem_filter, decide_eq_true_eq, eq_iff_iff]
    constructor
    · rintro ⟨entry, ⟨member, other⟩, rfl⟩
      exact ⟨other, entry, member, rfl⟩
    · rintro ⟨other, entry, member, rfl⟩
      exact ⟨entry, ⟨member, other⟩, rfl⟩
  rw [← member]
  rfl

@[simp] theorem runqRemove_books : (runqRemove s t).books = s.books := rfl

/-- A boost, as the view shows it; the books do not. -/
theorem rawRunqEnqueue_spec {flags : Nat} {s' : State} (run : rawRunqEnqueue s t flags = some s') :
    s'.view = s.view.boost t ∧ s'.books = s.books := by
  unfold rawRunqEnqueue at run
  split at run
  · cases run
  · cases run
    simp [View.boost, view_modEnt, books_modEnt, runqAdd_view]

theorem rawRunqDequeue_view :
    (rawRunqDequeue s t).view = if s.view.onRunq (.thread t) then s.view.unboost t else s.view := by
  unfold rawRunqDequeue
  by_cases queued : s.view.onRunq (.thread t)
  · simp [queued, View.unboost, view_modEnt, runqRemove_view]
  · simp [queued]

@[simp] theorem rawRunqDequeue_books : (rawRunqDequeue s t).books = s.books := by
  unfold rawRunqDequeue
  split
  · simp [books_modEnt]
  · rfl

end realtime

section timeline
variable (s : State) (q : Gid) (e : EntId)

/-- `__enqueue_entity` puts an entity somewhere in the timeline, and between
what it does not precede and what it precedes if these are apart. -/
def Books.Inserted (b b' : Books) (q : Gid) (e : EntId) (present : List (BitVec 64)) : Prop :=
  ∃ front back, b.seq q = front ++ back ∧
    b' = { b with
      seq := update b.seq q (front ++ e :: back)
      leftmost := update b.leftmost q (if front = [] then some e else b.leftmost q)
      journal := .insert q e present :: b.journal } ∧
    (((b.seq q).Pairwise fun x y =>
      sdiff (b.vruntime e) (b.vruntime x) < 0 → sdiff (b.vruntime e) (b.vruntime y) < 0) →
      (∀ x ∈ front, 0 ≤ sdiff (b.vruntime e) (b.vruntime x)) ∧ ∀ x ∈ back, sdiff (b.vruntime e) (b.vruntime x) < 0)

/-- The entities whose vruntimes an insertion of `e` writes down. -/
def presentOn (s : State) (q : Gid) (e : EntId) : List EntId :=
  (e :: s.books.seq q) ++ ((s.view.curr q).filter fun c => s.view.joined c).toList

/-- The entity was in no timeline, and is now in its place in one. -/
theorem rawEnqueueEntity_spec {s' : State} (run : rawEnqueueEntity s q e = some s') :
    s.view.onSfq e = false ∧
      s'.view =
        { s.view with
          timeline := update s.view.timeline q (e ::ₘ s.view.timeline q)
          onSfq := update s.view.onSfq e true } ∧
      s.books.Inserted s'.books q e ((presentOn s q e).map s.books.vruntime) := by
  have present : presentVruntimes s q e = (presentOn s q e).map s.books.vruntime := by
    simp [presentVruntimes, presentOn, Sfq.seq]
  unfold rawEnqueueEntity at run
  split at run
  · cases run
  · rename_i absent
    simp only [view_onSfq, Bool.not_eq_true] at absent
    cases run
    obtain ⟨front, back, old, new, path, apart⟩ :=
      (s.sfq q).timeline.insertLeaf_seq (entityBefore s) true e
    have order (ev : Event) : entityBefore (s.emit ev) = entityBefore s := rfl
    simp only [books_seq] at old
    rw [present]
    refine ⟨absent, ?_, front, back, old, ?_, ?_⟩
    · have perm : ((s.sfq q).timeline.insertLeaf (entityBefore s) true e).seq.Perm (e :: s.books.seq q) :=
        (s.sfq q).timeline.insertLeaf_perm (entityBefore s) true e
      have same : (((s.sfq q).timeline.insertLeaf (entityBefore s) true e).seq : Multiset EntId) =
          e ::ₘ s.view.timeline q := Multiset.coe_eq_coe.mpr perm
      simp [view_modEnt, view_modSfq, Kernel.insertColor_seq, order, same]
    · simp [books_modEnt, books_modSfq, books_emit, Kernel.insertColor_seq, order, new, path]
    · simp only [entityBefore, decide_eq_true_eq, decide_eq_false_iff_not, Int.not_lt] at apart
      exact apart

/-- The entity was in a timeline, and is no longer. -/
theorem rawDequeueEntity_spec {s' : State} (run : rawDequeueEntity s q e = some s') :
    s.view.onSfq e = true ∧
      s'.view =
        { s.view with
          timeline := update s.view.timeline q ((s.view.timeline q).erase e)
          onSfq := update s.view.onSfq e false } ∧
      s'.books =
        { s.books with
          seq := update s.books.seq q ((s.books.seq q).erase e)
          leftmost := update s.books.leftmost q
            (if s.books.leftmost q = some e then rbNext (s.books.seq q) e else s.books.leftmost q) } := by
  unfold rawDequeueEntity at run
  split at run
  · rename_i there
    simp only [view_onSfq] at there
    cases run
    refine ⟨there, ?_, ?_⟩
    · simp [view_modEnt, view_modSfq, Kernel.remove_seq, ← Multiset.coe_erase]
    · simp [books_modEnt, books_modSfq, Kernel.remove_seq, Sfq.seq]
      rfl
  · cases run

end timeline
end SfqSched
