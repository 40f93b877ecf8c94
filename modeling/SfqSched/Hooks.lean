import SfqSched.NiceTotal
import SfqSched.CommonAncestor
import SfqSched.Candidates

namespace SfqSched
open State Function

section hooks
variable {C : Conds} {s s' : State} {L : List EntId} {t : Tid} {flags : Nat}

/-- A thread that is preempted is on no run queue, and goes back to them. -/
theorem pssPutPrevThread_back (inv : Inv C s (walkup s (some (.thread t))) none) (positive : C.positive)
    (pss : s.view.cls t = .pss) (off : s.view.onSfq (.thread t) = false) (out : s.view.onRunq (.thread t) = false) :
    ∃ s', pssPutPrevThread s t flags = some s' := by
  obtain ⟨rest, eq, _, nodup, groups⟩ := thread_chain inv.core.hier t
  rw [eq] at inv nodup
  obtain ⟨others, nodup⟩ := List.nodup_cons.mp nodup
  obtain ⟨a, step⟩ : ∃ a, putPrevEntity s (s.view.sfq (.thread t)) (.thread t) flags = some a := by
    unfold putPrevEntity
    dsimp only
    split
    · obtain ⟨b, first⟩ :
          ∃ b, setRunq (putPrevCharge s (s.view.sfq (.thread t)) (.thread t) flags) (.thread t) flags = some b :=
        setRunq_total (by simpa using inv.core.hier) (by simpa using out)
      obtain ⟨⟨boosted, _, look⟩, _⟩ := setRunq_spec (by simpa using inv.core.hier) first
      have free : ¬(b.ent (.thread t)).onSfq = true := by
        rw [view_onSfq, look, putPrevCharge_view]
        simp [View.runnable, off]
      obtain ⟨d, second⟩ : ∃ d, rawEnqueueEntity b (s.view.sfq (.thread t)) (.thread t) = some d := ⟨_, if_neg free⟩
      refine ⟨putPrevRelease d (s.view.sfq (.thread t)) (.thread t), ?_⟩
      change ((setRunq (putPrevCharge s (s.view.sfq (.thread t)) (.thread t) flags) (.thread t) flags).bind fun a =>
        (rawEnqueueEntity a (s.view.sfq (.thread t)) (.thread t)).bind fun b =>
          some (putPrevRelease b (s.view.sfq (.thread t)) (.thread t))) = _
      rw [first, Option.bind_some, second]
      rfl
    · exact ⟨_, rfl⟩
  obtain ⟨inv', _⟩ := putPrevEntity_inv inv others pss step
  obtain ⟨b, walk⟩ : ∃ b, pssPutPrevWalk a rest flags = some b := pssPutPrevWalk_total inv' positive nodup groups
  have whole : pssPutPrevWalk s (.thread t :: rest) flags = some b := by
    unfold pssPutPrevWalk
    rw [view_sfq, step]
    exact walk
  unfold pssPutPrevThread
  dsimp only
  rw [eq, whole]
  exact ⟨_, rfl⟩

/-- The current thread is put back where it waits for its next turn. -/
theorem classPutPrevThread_total (inv : Inv C s (cpuChain s t) none) (positive : C.positive)
    (off : s.view.onSfq (.thread t) = false) (out : s.view.onRunq (.thread t) = false) :
    ∃ s', classPutPrevThread (s.view.cls t) s t flags = some s' := by
  cases cls : s.view.cls t with
  | realtime =>
    change ∃ s', rtPutPrevThread s t flags = some s'
    have free : ¬(s.ent (.thread t)).onRunq = true := by
      rw [view_onRunq, out]
      exact Bool.false_ne_true
    unfold rtPutPrevThread
    by_cases joined : (s.ent (.thread t)).joined
    · rw [if_pos joined, if_neg free]
      exact ⟨_, rfl⟩
    · rw [if_neg joined]
      exact ⟨_, rfl⟩
  | pss =>
    unfold cpuChain at inv
    rw [if_pos cls] at inv
    exact pssPutPrevThread_back inv positive cls off out
  | idle => exact ⟨_, rfl⟩

end hooks

end SfqSched
