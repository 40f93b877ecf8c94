import SfqSched.Entity

namespace SfqSched
open Function

theorem SearchTree.eq_leaf {κ α : Type} {t : SearchTree κ α} (empty : t.seq = []) : t = .leaf := by
  cases t with
  | leaf => rfl
  | node k left x right => simp at empty

/-- A call of `__enqueue_entity`, with how the vruntimes compare at that time, or of `__dequeue_entity`. -/
inductive TimelineCall
  | enqueue (before : EntId → EntId → Bool) (q : Gid) (se : EntId)
  | dequeue (q : Gid) (se : EntId)

namespace TimelineCall

/-- The call on the trees of all queues. -/
def apply (k : Kernel) (trees : Gid → Timeline) : TimelineCall → Gid → Timeline
  | .enqueue before q se => update trees q (k.insertColor ((trees q).insertLeaf before true se) se)
  | .dequeue q se => update trees q (k.remove (trees q) se)

/-- The assertion about `SEF_ONSFQ`. -/
def Asserts (flags : EntId → Bool) : TimelineCall → Prop
  | .enqueue _ _ se => flags se = false
  | .dequeue _ se => flags se = true

def mark (flags : EntId → Bool) : TimelineCall → EntId → Bool
  | .enqueue _ _ se => update flags se true
  | .dequeue _ se => update flags se false

end TimelineCall

/-- No call of the sequence panics. -/
def AssertedCalls (flags : EntId → Bool) : List TimelineCall → Prop
  | [] => True
  | call :: calls => call.Asserts flags ∧ AssertedCalls (call.mark flags) calls

/-- Calls whose assertions hold one after the other. -/
theorem AssertedCalls.append {flags : EntId → Bool} {calls later : List TimelineCall} (h : AssertedCalls flags calls)
    (h' : AssertedCalls (calls.foldl TimelineCall.mark flags) later) : AssertedCalls flags (calls ++ later) := by
  induction calls generalizing flags with
  | nil => exact h'
  | cons call calls ih => exact ⟨h.1, ih h.2 h'⟩

def State.trees (s : State) (q : Gid) : Timeline := (s.sfq q).timeline

def State.flags (s : State) (e : EntId) : Bool := (s.ent e).onSfq

/-- The timelines, read off the queues. -/
theorem trees_modSfq (s : State) (q : Gid) (f : Sfq → Sfq) :
    (s.modSfq q f).trees = update s.trees q (f (s.sfq q)).timeline := by
  funext p
  by_cases here : p = q
  · subst here
    simp [State.trees, State.modSfq]
  · simp [State.trees, State.modSfq, here]

theorem trees_modEnt (s : State) (e : EntId) (f : SchedEntity → SchedEntity) : (s.modEnt e f).trees = s.trees := rfl

/-- Who is in a timeline, read off the entities. -/
theorem flags_modEnt (s : State) (e : EntId) (f : SchedEntity → SchedEntity) :
    (s.modEnt e f).flags = update s.flags e (f (s.ent e)).onSfq := by
  funext x
  by_cases here : x = e
  · subst here
    simp [State.flags, State.modEnt]
  · simp [State.flags, State.modEnt, here]

/-- The timelines and who is in one change by calls only. -/
structure Calls (s s' : State) : Prop where
  kernel : s'.kernel = s.kernel
  calls : ∃ calls, AssertedCalls s.flags calls ∧ s'.trees = calls.foldl (TimelineCall.apply s.kernel) s.trees ∧
    s'.flags = calls.foldl TimelineCall.mark s.flags

namespace Calls
variable {s s' s'' : State} {q : Gid} {e : EntId}

/-- Where neither timelines nor flags change, no call was made. -/
theorem still (kernel : s'.kernel = s.kernel) (trees : s'.trees = s.trees) (flags : s'.flags = s.flags) : Calls s s' :=
  ⟨kernel, [], trivial, trees, flags⟩

theorem refl (s : State) : Calls s s := .still rfl rfl rfl

theorem trans (h : Calls s s') (h' : Calls s' s'') : Calls s s'' := by
  obtain ⟨kernel, calls, asserted, trees, flags⟩ := h
  obtain ⟨kernel', later, asserted', trees', flags'⟩ := h'
  refine ⟨kernel'.trans kernel, calls ++ later, asserted.append (flags ▸ asserted'), ?_, ?_⟩
  · rw [List.foldl_append, ← trees, trees', kernel]
  · rw [List.foldl_append, ← flags, flags']

/-- `__enqueue_entity` is one call, and its assertion held. -/
theorem enqueue (run : rawEnqueueEntity s q e = some s') : Calls s s' := by
  unfold rawEnqueueEntity at run
  split at run
  · cases run
  · next off =>
    cases run
    have flag : s.flags e = false := Bool.eq_false_iff.mpr off
    refine ⟨rfl, [.enqueue (entityBefore s) q e], ⟨flag, trivial⟩, ?_, ?_⟩
    · rw [trees_modEnt, trees_modSfq]
      rfl
    · rw [flags_modEnt]
      rfl

/-- `__dequeue_entity` is one call, and its assertion held. -/
theorem dequeue (run : rawDequeueEntity s q e = some s') : Calls s s' := by
  unfold rawDequeueEntity at run
  split at run
  · next queued =>
    cases run
    refine ⟨rfl, [.dequeue q e], ⟨queued, trivial⟩, ?_, ?_⟩
    · rw [trees_modEnt, trees_modSfq]
      rfl
    · rw [flags_modEnt]
      rfl
  · cases run

theorem modEnt (s : State) (e : EntId) (f : SchedEntity → SchedEntity) (flag : (f (s.ent e)).onSfq = (s.ent e).onSfq) :
    Calls s (s.modEnt e f) := by
  refine .still rfl rfl ?_
  rw [flags_modEnt, flag]
  exact update_eq_self ..

/-- A store to a queue that leaves its timeline is no call. -/
theorem modSfq (s : State) (q : Gid) (f : Sfq → Sfq) (tree : (f (s.sfq q)).timeline = (s.sfq q).timeline) :
    Calls s (s.modSfq q f) := by
  refine .still rfl ?_ rfl
  rw [trees_modSfq, tree]
  exact update_eq_self ..

end Calls

end SfqSched
