import SfqSched.Shelf
import SfqSched.ChoiceFrame

namespace SfqSched
open State

/-- A thread `update_curr` may find to be the current entity of a queue: it is
running, or about to be put back. -/
def State.charged (s : State) (t : Tid) : Prop :=
  (s.td t).tdState = .running ∨ ∃ q, (s.sfq q).curr = some (.thread t)

/-- The priorities a thread runs at in user mode are left alone, but for the
reset of `update_curr` where `reset` allows it. The entity of a group stays in its group. -/
structure Writes (reset : Prop) (s s' : State) : Prop where
  parent : ∀ e, (s'.ent e).parent = (s.ent e).parent ∨ ∃ g, (s'.ent e).parent = (s.grp g).se
  se : ∀ g, (s'.grp g).se = (s.grp g).se
  priClass : ∀ t, (s'.td t).tdPriClass = (s.td t).tdPriClass
  base : ∀ t, (s'.td t).tdBaseUserPri = (s.td t).tdBaseUserPri
  lend : ∀ t, (s'.td t).tdLendUserPri = (s.td t).tdLendUserPri
  user : ∀ t, (s'.td t).tdUserPri = (s.td t).tdUserPri ∨
    reset ∧ s.charged t ∧ (s.td t).tdPriClass = .timeshare ∧ (s'.td t).tdUserPri = normalPri

/-- In addition no thread starts to run. -/
structure Moves (reset : Prop) (s s' : State) : Prop extends Writes reset s s' where
  charged : ∀ t, s'.charged t → s.charged t

/-- Nor does an entity change its queue. -/
structure Charges (reset : Prop) (s s' : State) : Prop extends Moves reset s s', Keeps s s'

/-- What a charge does not keep track of. -/
def Charges.free : Cell → Bool
  | .ngroups | .onSfq | .place | .timeline | .curr | .tree | .tdState | .userPri | .cls => false
  | _ => true

namespace Moves
variable {r : Prop} {s s' s'' : State}

/-- What comes after a step that starts nothing. -/
theorem then_writes (h : Moves r s s') (h' : Writes r s' s'') : Writes r s s'' where
  parent e := by
    rcases h'.parent e with same | ⟨g, moved⟩
    · rw [same]
      exact h.parent e
    · exact .inr ⟨g, moved.trans (h.se g)⟩
  se g := (h'.se g).trans (h.se g)
  priClass t := (h'.priClass t).trans (h.priClass t)
  base t := (h'.base t).trans (h.base t)
  lend t := (h'.lend t).trans (h.lend t)
  user t := by
    rcases h'.user t with same | ⟨may, current, timeshare, normal⟩
    · rw [same]
      exact h.user t
    · exact .inr ⟨may, h.charged t current, (h.priClass t).symm.trans timeshare, normal⟩

theorem trans (h : Moves r s s') (h' : Moves r s' s'') : Moves r s s'' :=
  ⟨h.then_writes h'.toWrites, fun t current => h.charged t (h'.charged t current)⟩

end Moves

namespace Charges
variable {r : Prop} {s s' s'' : State}

theorem refl (s : State) : Charges r s s where
  toMoves := ⟨⟨fun _ => .inl rfl, fun _ => rfl, fun _ => rfl, fun _ => rfl, fun _ => rfl, fun _ => .inl rfl⟩, fun _ => id⟩
  toKeeps := .refl s

theorem trans (h : Charges r s s') (h' : Charges r s' s'') : Charges r s s'' :=
  ⟨h.toMoves.trans h'.toMoves, h.toKeeps.trans h'.toKeeps⟩

/-- A step that touches no thread, no group and no current entity. -/
theorem of_same (ent : ∀ e, (s'.ent e).parent = (s.ent e).parent) (se : ∀ g, (s'.grp g).se = (s.grp g).se)
    (td : s'.td = s.td) (curr : ∀ q x, (s'.sfq q).curr = some x → (s.sfq q).curr = some x) (keeps : Keeps s s') :
    Charges r s s' := by
  refine ⟨⟨⟨fun e => .inl (ent e), se, ?_, ?_, ?_, ?_⟩, ?_⟩, keeps⟩
  all_goals intro t
  · rw [td]
  · rw [td]
  · rw [td]
  · exact .inl (by rw [td])
  · rintro (running | ⟨q, current⟩)
    · exact .inl (by rw [← td]; exact running)
    · exact .inr ⟨q, curr q _ current⟩

/-- A function that writes nothing that is kept track of. -/
theorem of_changes {w : Cell → Bool} (h : Changes w s s') (free : w ≤ Charges.free) : Charges r s s' := by
  have same := h.mono free
  have ent (e : EntId) : (s'.ent e).sfq = (s.ent e).sfq := same.read (fun s => (s.ent e).sfq) fun _ => rfl
  refine ⟨⟨⟨fun e => .inl ?_, fun g => ?_, fun t => ?_, fun t => ?_, fun t => ?_, fun t => .inl ?_⟩, fun t => ?_⟩,
    ⟨ent, fun g => ?_, ?_, fun shelved => shelved.congr (fun t => ⟨?_, ent _⟩) fun q => ?_⟩⟩
  · exact same.read (fun s => (s.ent e).parent) fun _ => rfl
  · exact same.read (fun s => (s.grp g).se) fun _ => rfl
  · exact same.read (fun s => (s.td t).tdPriClass) fun _ => rfl
  · exact same.read (fun s => (s.td t).tdBaseUserPri) fun _ => rfl
  · exact same.read (fun s => (s.td t).tdLendUserPri) fun _ => rfl
  · exact same.read (fun s => (s.td t).tdUserPri) fun _ => rfl
  · have state : (s'.td t).tdState = (s.td t).tdState := same.read (fun s => (s.td t).tdState) fun _ => rfl
    have curr (q : Gid) : (s'.sfq q).curr = (s.sfq q).curr := same.read (fun s => (s.sfq q).curr) fun _ => rfl
    rintro (running | ⟨q, current⟩)
    · exact .inl (state ▸ running)
    · exact .inr ⟨q, curr q ▸ current⟩
  · exact same.read (fun s => (s.grp g).sfq) fun _ => rfl
  · exact same.read State.ngroups fun _ => rfl
  · exact same.read (fun s => (s.ent (.thread t)).onSfq) fun _ => rfl
  · exact congrArg SearchTree.seq (same.read (fun s => (s.sfq q).timeline) fun _ => rfl)

theorem free_ticking : ticking ≤ Charges.free := fun c => by cases c <;> decide
theorem free_timing : timing ≤ Charges.free := fun c => by cases c <;> decide
theorem free_caching : caching ≤ Charges.free := fun c => by cases c <;> decide
theorem free_spending : spending ≤ Charges.free := fun c => by cases c <;> decide
theorem free_accounting : accounting ≤ Charges.free := fun c => by cases c <;> decide
theorem free_shelving : shelving ≤ Charges.free := fun c => by cases c <;> decide
theorem free_marking : marking ≤ Charges.free := fun c => by cases c <;> decide
theorem free_picking : picking ≤ Charges.free := fun c => by cases c <;> decide
theorem free_asking : asking ≤ Charges.free := fun c => by cases c <;> decide
theorem free_urging : urging ≤ Charges.free := fun c => by cases c <;> decide
theorem free_listing : listing ≤ Charges.free := fun c => by cases c <;> decide

theorem modEnt (s : State) (e : EntId) (f : SchedEntity → SchedEntity)
    (keeps : (f (s.ent e)).parent = (s.ent e).parent ∧ (f (s.ent e)).sfq = (s.ent e).sfq ∧
      (f (s.ent e)).onSfq = (s.ent e).onSfq) : Charges r s (s.modEnt e f) := by
  refine .of_same (fun x => ?_) (fun _ => rfl) rfl (fun _ _ => id) (.modEnt s e f keeps.2)
  by_cases here : x = e
  · subst here
    simpa [State.modEnt] using keeps.1
  · simp [State.modEnt, here]

theorem modSfq (s : State) (q : Gid) (f : Sfq → Sfq)
    (keeps : ∀ x, (f (s.sfq q)).curr = some x → (s.sfq q).curr = some x)
    (timeline : (f (s.sfq q)).timeline = (s.sfq q).timeline) : Charges r s (s.modSfq q f) := by
  refine .of_same (fun _ => rfl) (fun _ => rfl) rfl (fun x e current => ?_) (.modSfq s q f timeline)
  by_cases here : x = q
  · subst here
    exact keeps e (by simpa [State.modSfq] using current)
  · simpa [State.modSfq, here] using current

theorem modGrp (s : State) (g : Gid) (f : SchedGroup → SchedGroup) (keeps : (f (s.grp g)).se = (s.grp g).se)
    (house : (f (s.grp g)).sfq = (s.grp g).sfq) : Charges r s (s.modGrp g f) := by
  refine .of_same (fun _ => rfl) (fun x => ?_) rfl (fun _ _ => id) (.modGrp s g f house)
  by_cases here : x = g
  · subst here
    simpa [State.modGrp] using keeps
  · simp [State.modGrp, here]

theorem modRq (s : State) (f : Rq → Rq) : Charges r s (s.modRq f) :=
  .of_same (fun _ => rfl) (fun _ => rfl) rfl (fun _ _ => id) (.same rfl rfl (fun _ => rfl) rfl)

theorem emit (s : State) (ev : Event) : Charges r s (s.emit ev) :=
  .of_same (fun _ => rfl) (fun _ => rfl) rfl (fun _ _ => id) (.same rfl rfl (fun _ => rfl) rfl)

theorem modProc (s : State) (p : Pid) (f : Proc → Proc) : Charges r s (s.modProc p f) :=
  .of_same (fun _ => rfl) (fun _ => rfl) rfl (fun _ _ => id) (.same rfl rfl (fun _ => rfl) rfl)

/-- A store to a thread may not touch its class or its user priorities, nor make it run. -/
theorem modTd (s : State) (t : Tid) (f : Thread → Thread)
    (keeps : (f (s.td t)).tdPriClass = (s.td t).tdPriClass ∧ (f (s.td t)).tdBaseUserPri = (s.td t).tdBaseUserPri ∧
      (f (s.td t)).tdLendUserPri = (s.td t).tdLendUserPri ∧ (f (s.td t)).tdUserPri = (s.td t).tdUserPri)
    (stops : (f (s.td t)).tdState = .running → (s.td t).tdState = .running) : Charges r s (s.modTd t f) := by
  refine ⟨⟨⟨fun _ => .inl rfl, fun _ => rfl, ?_, ?_, ?_, ?_⟩, ?_⟩, .same rfl rfl (fun _ => rfl) rfl⟩
  all_goals
    intro u
    by_cases here : u = t
    · subst here
      simp [State.modTd, State.charged, keeps]
      try tauto
    · simp [State.modTd, State.charged, here]

/-- A fold of such steps is one. -/
theorem foldl {α : Type} {f : State → α → State} (each : ∀ s a, Charges r s (f s a)) (l : List α) (s : State) :
    Charges r s (l.foldl f s) := by
  induction l generalizing s with
  | nil => exact .refl s
  | cons a rest ih => exact (each s a).trans (ih _)

end Charges
end SfqSched
