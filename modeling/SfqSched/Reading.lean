import SfqSched.Types

namespace SfqSched

/-- What the events so far say about the vruntime of a thread: nothing before its birth, then how much it is, from
zero on any queue or with the vtime of one queue in it. -/
inductive Reading
  | unborn
  | relative (v : BitVec 64)
  | absolute (q : Gid) (v : BitVec 64)
  | wrong
  deriving DecidableEq, Repr

/-- The event is about the vruntime of `t`. -/
def Event.touches (t : Tid) : Event → Bool
  | .charge _ e _ _ _ | .place e _ | .addVtime e _ _ | .subVtime e _ _ | .swap e _ | .insert _ e _ => e = .thread t
  | .born u _ _ => u = t
  | _ => false

/-- `+= sfq->vtime` makes a relative vruntime absolute to the queue, and `-= sfq->vtime` one that is absolute to
this queue relative again. Everything else is for vruntimes that are absolute, to the queue if there is one. -/
def Reading.next (t : Tid) (r : Reading) (ev : Event) : Reading :=
  if ev.touches t then
    match r, ev with
    | .unborn, .born _ v true => .relative v
    | .unborn, _ => .unborn
    | .relative v, .addVtime _ q vtime => .absolute q (v + vtime)
    | .absolute p v, .subVtime _ q vtime => if p = q then .relative (v - vtime) else .wrong
    | .absolute p v, .charge q _ _ weighted _ => if p = q then .absolute p (v + BitVec.ofNat 64 weighted) else .wrong
    | .absolute p _, .place _ v => .absolute p v
    | .absolute p v, .insert q _ _ => if p = q then .absolute p v else .wrong
    | _, _ => .wrong
  else r

/-- The newest event comes first. -/
def reading (t : Tid) (journal : List Event) : Reading := journal.foldr (fun ev r => r.next t ev) .unborn

section reading
variable {t : Tid} {v : BitVec 64} {ev : Event} {l older : List Event}

theorem Reading.next_apart {r : Reading} (apart : ev.touches t = false) : r.next t ev = r := by
  unfold Reading.next
  rw [if_neg (by simp [apart])]

theorem Reading.next_wrong (ev : Event) : Reading.wrong.next t ev = .wrong := by
  unfold Reading.next
  split
  · cases ev <;> rfl
  · rfl

theorem Reading.next_unborn (other : ∀ v, ev ≠ .born t v true) : Reading.unborn.next t ev = .unborn := by
  unfold Reading.next
  split
  · cases ev with
    | born u v relative =>
      rename_i here
      cases relative with
      | false => rfl
      | true =>
        simp only [Event.touches, decide_eq_true_eq] at here
        exact absurd (congrArg (Event.born · v true) here) (other v)
    | _ => rfl
  · rfl

/-- A thread is born once. -/
theorem Reading.next_born {r : Reading} (known : r ≠ .unborn) : r.next t ev ≠ .unborn := by
  unfold Reading.next
  split
  · cases r with
    | unborn => exact absurd rfl known
    | relative v => cases ev <;> simp
    | absolute q v => cases ev <;> simp <;> split <;> simp
    | wrong => cases ev <;> simp
  · exact known

theorem reading_apart (apart : ∀ ev ∈ l, ev.touches t = false) : reading t (l ++ older) = reading t older := by
  induction l with
  | nil => rfl
  | cons ev rest ih =>
    obtain ⟨first, others⟩ := List.forall_mem_cons.mp apart
    exact (Reading.next_apart first).trans (ih others)

/-- A vruntime once misread stays so. -/
theorem reading_wrong (before : reading t older = .wrong) : reading t (l ++ older) = .wrong := by
  induction l with
  | nil => exact before
  | cons ev rest ih =>
    change (reading t (rest ++ older)).next t ev = .wrong
    rw [ih]
    exact Reading.next_wrong ev

theorem reading_born (born : .born t v true ∈ l) : reading t l ≠ .unborn := by
  induction l with
  | nil => cases born
  | cons ev rest ih =>
    change (reading t rest).next t ev ≠ .unborn
    by_cases unborn : reading t rest = .unborn
    · rcases List.mem_cons.mp born with rfl | earlier
      · rw [unborn]
        simp [Reading.next, Event.touches]
      · exact absurd unborn (ih earlier)
    · exact Reading.next_born unborn

theorem reading_known (known : reading t l ≠ .unborn) : ∃ v, .born t v true ∈ l := by
  induction l with
  | nil => exact absurd rfl known
  | cons ev rest ih =>
    by_cases earlier : reading t rest = .unborn
    · change (reading t rest).next t ev ≠ .unborn at known
      rw [earlier] at known
      by_contra other
      refine known (Reading.next_unborn fun v same => other ⟨v, ?_⟩)
      rw [same]
      exact List.mem_cons_self ..
    · obtain ⟨v, member⟩ := ih earlier
      exact ⟨v, List.mem_cons_of_mem _ member⟩

/-- Whatever is read from all events was never misread on the way. -/
theorem reading_right (right : reading t (l ++ older) ≠ .wrong) : reading t older ≠ .wrong :=
  fun before => right (reading_wrong before)

variable {r : Reading} {q : Gid} {vtime : BitVec 64}

theorem Reading.next_add (known : r ≠ .unborn) (right : r.next t (.addVtime (.thread t) q vtime) ≠ .wrong) :
    ∃ v, r = .relative v ∧ r.next t (.addVtime (.thread t) q vtime) = .absolute q (v + vtime) := by
  cases r with
  | unborn => exact absurd rfl known
  | relative v => exact ⟨v, rfl, by simp [Reading.next, Event.touches]⟩
  | absolute p v => simp [Reading.next, Event.touches] at right
  | wrong => exact absurd (Reading.next_wrong _) right

theorem Reading.next_sub (known : r ≠ .unborn) (right : r.next t (.subVtime (.thread t) q vtime) ≠ .wrong) :
    ∃ v, r = .absolute q v ∧ r.next t (.subVtime (.thread t) q vtime) = .relative (v - vtime) := by
  cases r with
  | unborn => exact absurd rfl known
  | relative v => simp [Reading.next, Event.touches] at right
  | absolute p v =>
    simp only [Reading.next, Event.touches, decide_true, if_true] at right ⊢
    split at right
    · rename_i same
      subst same
      exact ⟨v, rfl, if_pos rfl⟩
    · exact absurd rfl right
  | wrong => exact absurd (Reading.next_wrong _) right

theorem Reading.next_insert {present : List (BitVec 64)} (known : r ≠ .unborn)
    (right : r.next t (.insert q (.thread t) present) ≠ .wrong) : ∃ v, r = .absolute q v := by
  cases r with
  | unborn => exact absurd rfl known
  | relative v => simp [Reading.next, Event.touches] at right
  | absolute p v =>
    simp only [Reading.next, Event.touches, decide_true, if_true] at right
    split at right
    · rename_i same
      exact ⟨v, by rw [same]⟩
    · exact absurd rfl right
  | wrong => exact absurd (Reading.next_wrong _) right

/-- Until the next `+= sfq->vtime` a relative vruntime is not touched. -/
theorem reading_relative (before : reading t older = .relative v) (away : ∀ q w, .addVtime (.thread t) q w ∉ l)
    (right : reading t (l ++ older) ≠ .wrong) : reading t (l ++ older) = .relative v := by
  induction l with
  | nil => exact before
  | cons ev rest ih =>
    have earlier := ih (fun q w member => away q w (List.mem_cons_of_mem _ member)) (reading_right (l := [ev]) right)
    change (reading t (rest ++ older)).next t ev ≠ .wrong at right
    change (reading t (rest ++ older)).next t ev = .relative v
    rw [earlier] at right ⊢
    by_cases touched : ev.touches t = true
    · cases ev with
      | addVtime e q w =>
        have own : e = .thread t := of_decide_eq_true touched
        rw [own] at away
        exact absurd (List.mem_cons_self ..) (away q w)
      | _ => simp [Reading.next, touched] at right
    · exact Reading.next_apart (by simpa using touched)

end reading

/-- After the event `since`, every `+= sfq->vtime` found the vruntime of `t` relative, and every `-= sfq->vtime` and
every insertion found it absolute to the queue; from one `-=` to the next `+=` it kept its distance to the vtime. -/
structure Alternates (t : Tid) (since : Event) (journal : List Event) : Prop where
  added : ∀ newer older q vtime, journal = newer ++ .addVtime (.thread t) q vtime :: older → since ∈ older →
    ∃ v, reading t older = .relative v
  subtracted : ∀ newer older q vtime, journal = newer ++ .subVtime (.thread t) q vtime :: older → since ∈ older →
    ∃ v, reading t older = .absolute q v
  inserted : ∀ newer older q present, journal = newer ++ .insert q (.thread t) present :: older → since ∈ older →
    ∃ v, reading t older = .absolute q v
  carried : ∀ newer between older q q' vtime vtime',
    journal = newer ++ .addVtime (.thread t) q' vtime' :: between ++ .subVtime (.thread t) q vtime :: older →
    since ∈ older → (∀ p w, .addVtime (.thread t) p w ∉ between) →
    ∃ v v', reading t older = .absolute q v ∧
      reading t (.addVtime (.thread t) q' vtime' :: between ++ .subVtime (.thread t) q vtime :: older) = .absolute q' v' ∧
      v' - vtime' = v - vtime

theorem alternates {t : Tid} {v : BitVec 64} {journal : List Event} (right : reading t journal ≠ .wrong) :
    Alternates t (.born t v true) journal := by
  have step {newer older : List Event} {ev : Event} (split : journal = newer ++ ev :: older) :
      (reading t older).next t ev ≠ .wrong := by
    rw [split] at right
    exact reading_right right
  refine ⟨fun newer older q vtime split born => ?_, fun newer older q vtime split born => ?_,
    fun newer older q present split born => ?_, fun newer between older q q' vtime vtime' split born away => ?_⟩
  · obtain ⟨w, relative, _⟩ := Reading.next_add (reading_born born) (step split)
    exact ⟨w, relative⟩
  · obtain ⟨w, absolute, _⟩ := Reading.next_sub (reading_born born) (step split)
    exact ⟨w, absolute⟩
  · exact Reading.next_insert (reading_born born) (step split)
  · obtain ⟨w, absolute, left⟩ := Reading.next_sub (reading_born born) (step split)
    have outer : journal = newer ++ .addVtime (.thread t) q' vtime' :: (between ++ .subVtime (.thread t) q vtime :: older) := by
      rw [split]
      simp
    have after : reading t (between ++ .subVtime (.thread t) q vtime :: older) = .relative (w - vtime) := by
      refine reading_relative left away fun wrong => step outer ?_
      rw [wrong]
      exact Reading.next_wrong _
    refine ⟨w, w - vtime + vtime', absolute, ?_, BitVec.add_sub_cancel ..⟩
    change (reading t (between ++ .subVtime (.thread t) q vtime :: older)).next t _ = _
    rw [after]
    simp [Reading.next, Event.touches]

end SfqSched
