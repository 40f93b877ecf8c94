import SfqSched.NiceSteps
import SfqSched.SchedFrame

namespace SfqSched
open State Function

/-- The threads asked to give up the CPU. -/
def State.requests (s : State) (t : Tid) : Bool := (s.td t).needResched

section requests
variable {s s' : State}

/-- What does not write `TDF_NEEDRESCHED` asks nobody and forgets nobody. -/
theorem Cover.Within.requests {w : Cell → Bool} (h : Changes w s s') (silent : w .asked = false) :
    s'.requests = s.requests := by
  refine h.read State.requests fun s => ?_
  funext t
  change blank (w .asked) false (s.td t).needResched = (s.td t).needResched
  rw [silent]
  rfl

theorem requests_modTd (s : State) (t : Tid) (f : Thread → Thread)
    (same : (f (s.td t)).needResched = (s.td t).needResched) : (s.modTd t f).requests = s.requests := by
  funext u
  by_cases here : u = t
  · subst here
    simpa [State.requests, State.modTd] using same
  · simp [State.requests, State.modTd, here]

theorem reschedThread_requests (s : State) (t : Tid) : (reschedThread s t).requests = update s.requests t true := by
  funext u
  by_cases here : u = t
  · subst here
    simp [State.requests, State.modTd, reschedThread]
  · simp [State.requests, State.modTd, reschedThread, here]

end requests

section nice
variable {s s' : State} {t : Tid} {delta : Int}

/-- When a round of the loop of `sched_nice` asks for the CPU. -/
def niceAsks (delta : Int) (s : State) (t : Tid) : Prop :=
  (s.td t).cls = .pss ∧ (delta < 0 ∨ delta > 0 ∧ (s.td t).tdState = .running)

instance (delta : Int) (s : State) (t : Tid) : Decidable (niceAsks delta s t) := inferInstanceAs (Decidable (_ ∧ _))

theorem schedNiceThread_requests (current : s'.curthread = s.curthread) (run : schedNiceThread delta s t = some s') :
    s'.requests = if niceAsks delta s t then update s.requests s.curthread true else s.requests := by
  by_cases pss : (s.td t).cls = .pss
  · obtain ⟨a, b, c, d, deq, put, enq, act, rfl⟩ := schedNiceThread_parts pss run
    have first : Changes dispatching s a := .optional (f := fun s => dequeueThread s t 0) dequeueThread_changes deq
    have second : Changes dispatching a b := .optional (f := fun s => putPrevThread s t 0) putPrevThread_changes put
    have third : Changes (dispatching ⊔ listing) (setThreadWeight b t) c :=
      .optional (f := fun s => enqueueThread s t 0) enqueueThread_changes enq
    have fourth : d.requests = c.requests := by
      split at act
      · obtain ⟨e, start, rfl⟩ := Option.map_eq_some_iff.mp act
        have stored := (setTdState_changes e t .running).requests rfl
        exact stored.trans ((activateThread_changes start).requests rfl)
      · cases act
        rfl
    have reweighed : c.requests = b.requests := third.requests rfl
    have kept : d.requests = s.requests := fourth.trans (reweighed.trans ((first.trans second).requests rfl))
    have still : d.curthread = s.curthread := by
      rw [← current]
      split <;> rfl
    have asks : niceAsks delta s t ↔ delta < 0 ∨ delta > 0 ∧ (s.td t).tdState = .running := and_iff_right pss
    by_cases wants : niceAsks delta s t
    · rw [if_pos wants, if_pos (asks.mp wants), reschedThread_requests, kept, still]
    · rw [if_neg wants, if_neg fun both => wants (asks.mpr both)]
      exact kept
  · unfold schedNiceThread at run
    rw [if_pos pss] at run
    cases run
    have never : ¬niceAsks delta s t := fun both => pss both.1
    rw [if_neg never]
    rfl

end nice
end SfqSched
