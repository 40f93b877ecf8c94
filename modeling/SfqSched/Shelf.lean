import SfqSched.Step

namespace SfqSched
open State Function

/-- A thread is once on the timeline of its own queue, if `SEF_ONSFQ` is set, and on no other. -/
def State.shelved (s : State) : Prop :=
  ∀ t q, (s.sfq q).seq.count (.thread t) =
    if (s.ent (.thread t)).onSfq ∧ (s.ent (.thread t)).sfq = q then 1 else 0

/-- Entities and groups stay with their queues, and the timelines agree with the flags if they did before. -/
structure Keeps (s s' : State) : Prop where
  place : ∀ e, (s'.ent e).sfq = (s.ent e).sfq
  house : ∀ g, (s'.grp g).sfq = (s.grp g).sfq
  born : s'.ngroups = s.ngroups
  shelf : s.shelved → s'.shelved

/-- A thread with the flag is in the timeline of its own queue. -/
theorem State.shelved.mem {s : State} (shelved : s.shelved) {t : Tid} (queued : (s.ent (.thread t)).onSfq) :
    .thread t ∈ (s.sfq (s.ent (.thread t)).sfq).seq := by
  have once := shelved t (s.ent (.thread t)).sfq
  rw [if_pos ⟨queued, rfl⟩] at once
  exact List.count_pos_iff.mp (once ▸ Nat.one_pos)

/-- A thread without the flag is in no timeline. -/
theorem State.shelved.not_mem {s : State} (shelved : s.shelved) {t : Tid} (off : (s.ent (.thread t)).onSfq = false)
    (q : Gid) : .thread t ∉ (s.sfq q).seq := by
  have never := shelved t q
  rw [if_neg (by simp [off])] at never
  exact List.count_eq_zero.mp never

/-- What an entity shows of its timeline, and the sequence of a timeline. -/
theorem State.shelved.congr {s s' : State} (shelved : s.shelved)
    (ent : ∀ t, (s'.ent (.thread t)).onSfq = (s.ent (.thread t)).onSfq ∧ (s'.ent (.thread t)).sfq = (s.ent (.thread t)).sfq)
    (seq : ∀ q, (s'.sfq q).seq = (s.sfq q).seq) : s'.shelved := by
  intro t q
  rw [seq, (ent t).1, (ent t).2]
  exact shelved t q

namespace Keeps
variable {s s' s'' : State} {q : Gid} {e : EntId}

theorem refl (s : State) : Keeps s s := ⟨fun _ => rfl, fun _ => rfl, rfl, id⟩

theorem trans (h : Keeps s s') (h' : Keeps s' s'') : Keeps s s'' :=
  ⟨fun e => (h'.place e).trans (h.place e), fun g => (h'.house g).trans (h.house g), h'.born.trans h.born, h'.shelf ∘ h.shelf⟩

theorem same (ent : s'.ent = s.ent) (sfq : s'.sfq = s.sfq) (house : ∀ g, (s'.grp g).sfq = (s.grp g).sfq)
    (born : s'.ngroups = s.ngroups) : Keeps s s' :=
  ⟨fun _ => by rw [ent], house, born, fun shelved => shelved.congr (fun _ => by simp [ent]) fun _ => by rw [sfq]⟩

/-- A store to an entity may not touch its queue or its flag. -/
theorem modEnt (s : State) (e : EntId) (f : SchedEntity → SchedEntity)
    (keeps : (f (s.ent e)).sfq = (s.ent e).sfq ∧ (f (s.ent e)).onSfq = (s.ent e).onSfq) : Keeps s (s.modEnt e f) := by
  have ent (x : EntId) : ((s.modEnt e f).ent x).onSfq = (s.ent x).onSfq ∧ ((s.modEnt e f).ent x).sfq = (s.ent x).sfq := by
    by_cases here : x = e
    · subst here
      simpa [State.modEnt] using keeps.symm
    · simp [State.modEnt, here]
  exact ⟨fun x => (ent x).2, fun _ => rfl, rfl, fun shelved => shelved.congr (fun t => ent _) fun _ => rfl⟩

/-- A store to a queue may not touch its timeline. -/
theorem modSfq (s : State) (q : Gid) (f : Sfq → Sfq) (keeps : (f (s.sfq q)).timeline = (s.sfq q).timeline) :
    Keeps s (s.modSfq q f) := by
  refine ⟨fun _ => rfl, fun _ => rfl, rfl, fun shelved => shelved.congr (fun _ => ⟨rfl, rfl⟩) fun x => ?_⟩
  by_cases here : x = q
  · subst here
    simpa [State.modSfq, Sfq.seq] using congrArg _ keeps
  · simp [State.modSfq, here]

theorem modGrp (s : State) (g : Gid) (f : SchedGroup → SchedGroup) (keeps : (f (s.grp g)).sfq = (s.grp g).sfq) :
    Keeps s (s.modGrp g f) := by
  refine .same rfl rfl (fun x => ?_) rfl
  by_cases here : x = g
  · subst here
    simpa [State.modGrp] using keeps
  · simp [State.modGrp, here]

/-- An entity that is on no timeline changes its queue. -/
theorem shelved_move {f : SchedEntity → SchedEntity} (shelved : s.shelved) (off : (s.ent e).onSfq = false)
    (stays : (f (s.ent e)).onSfq = false) : (s.modEnt e f).shelved := by
  intro t q
  have before := shelved t q
  by_cases here : .thread t = e
  · subst here
    simp only [off, Bool.false_eq_true, false_and, if_false] at before
    simpa [State.modEnt, stays] using before
  · simpa [State.modEnt, here] using before

/-- `__enqueue_entity` and `__dequeue_entity`: one timeline and one flag change. -/
theorem shelved_flip {f : Sfq → Sfq} {flag : Bool} (shelved : s.shelved) (own : (s.ent e).sfq = q)
    (seq : ∀ t, (f (s.sfq q)).seq.count (.thread t) =
      if e = .thread t then (if flag then 1 else 0) else (s.sfq q).seq.count (.thread t)) :
    ((s.modSfq q f).modEnt e fun ent => { ent with onSfq := flag }).shelved := by
  intro t x
  have before := shelved t x
  by_cases here : e = .thread t
  · subst here
    by_cases there : x = q
    · subst there
      have after := seq t
      rw [if_pos rfl] at after
      simpa [State.modEnt, State.modSfq, own] using after
    · have apart : (s.ent (.thread t)).sfq ≠ x := fun same => there (same.symm.trans own)
      simpa [State.modEnt, State.modSfq, there, apart] using before
  · have other : ¬(EntId.thread t = e) := fun same => here same.symm
    by_cases there : x = q
    · subst there
      have after := seq t
      rw [if_neg here] at after
      simpa [State.modEnt, State.modSfq, other, after] using before
    · simpa [State.modEnt, State.modSfq, other, there] using before

theorem setOnSfq_place (s : State) (e : EntId) (flag : Bool) (x : EntId) :
    ((s.modEnt e fun ent => { ent with onSfq := flag }).ent x).sfq = (s.ent x).sfq := by
  by_cases here : x = e
  · subst here
    simp [State.modEnt]
  · simp [State.modEnt, here]

/-- An entity is inserted into the queue it belongs to, with its flag. -/
theorem insert (own : (s.ent e).sfq = q) (run : rawEnqueueEntity s q e = some s') : Keeps s s' := by
  unfold rawEnqueueEntity at run
  split at run
  · cases run
  · rename_i off
    cases run
    refine ⟨fun x => setOnSfq_place _ e true x, fun _ => rfl, rfl, fun shelved => ?_⟩
    refine shelved_flip (s := s.emit _) (fun t x => shelved t x) own fun t => ?_
    obtain ⟨front, back, old, new, -⟩ := (s.sfq q).timeline.insertLeaf_seq (entityBefore s) true e
    change (s.kernel.insertColor ((s.sfq q).timeline.insertLeaf (entityBefore s) true e) e).seq.count _ =
      if e = .thread t then _ else (s.sfq q).timeline.seq.count _
    rw [s.kernel.insertColor_seq, new, old]
    by_cases here : e = .thread t
    · subst here
      have none := shelved t q
      rw [if_neg (by simp [off]), Sfq.seq, old] at none
      simp only [List.count_append, List.count_cons_self, if_true] at none ⊢
      omega
    · simp [here]
  
/-- An entity is removed from the queue it belongs to, with its flag. -/
theorem remove (own : (s.ent e).sfq = q) (run : rawDequeueEntity s q e = some s') : Keeps s s' := by
  unfold rawDequeueEntity at run
  split at run
  · rename_i there
    cases run
    refine ⟨fun x => setOnSfq_place _ e false x, fun _ => rfl, rfl, fun shelved => shelved_flip shelved own fun t => ?_⟩
    change (s.kernel.remove (s.sfq q).timeline e).seq.count _ = if e = .thread t then _ else _
    rw [s.kernel.remove_seq]
    by_cases here : e = .thread t
    · subst here
      have once := shelved t q
      rw [if_pos ⟨there, own⟩, Sfq.seq] at once
      rw [List.count_erase_self, once]
      simp
    · rw [if_neg here]
      exact List.count_erase_of_ne (Ne.symm here)
  · cases run

end Keeps
end SfqSched
