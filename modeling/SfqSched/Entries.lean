import SfqSched.Settled
import SfqSched.DispatchTotal

namespace SfqSched
open State Function

/-- An event that neither charges anyone nor inserts anyone into a timeline, picks nobody, and ends
neither a dispatch nor a release. -/
def Event.Quiet : Event → Prop
  | .charge .. | .insert .. | .pick .. | .dispatched .. | .released .. => False
  | _ => True

/-- What an event adds to the vruntime of `e`: a charge, or the gain of an exchange. -/
def Event.gain (e : EntId) : Event → Nat
  | .charge _ x _ w _ => if x = e then w else 0
  | .swap x gain => if x = e then gain.toNat else 0
  | _ => 0

/-- What events add to the vruntime of `e`. -/
def earned (e : EntId) : List Event → Nat
  | [] => 0
  | ev :: events => ev.gain e + earned e events

@[simp] theorem earned_nil (e : EntId) : earned e [] = 0 := rfl

@[simp] theorem earned_cons (e : EntId) (ev : Event) (events : List Event) :
    earned e (ev :: events) = ev.gain e + earned e events := rfl

@[simp] theorem earned_append (e : EntId) (newer older : List Event) :
    earned e (newer ++ older) = earned e newer + earned e older := by
  induction newer with
  | nil => simp
  | cons ev newer ih => simp [ih, Nat.add_assoc]

theorem earned_zero {e : EntId} {events : List Event} (idle : ∀ ev ∈ events, ev.gain e = 0) : earned e events = 0 := by
  induction events with
  | nil => rfl
  | cons ev events ih =>
    rw [List.forall_mem_cons] at idle
    rw [earned_cons, idle.1, ih idle.2]

/-- What a step enters into the books while `c` tells who may be charged on which queue and `n` whose
vruntime may be written anew: charges, insertions, and whatever else leaves the times of the current
entities alone and, if `o` is asked for, the vruntimes in all timelines. Other vruntimes change by what
was written down, and only those of current entities. -/
inductive Entries (o : Prop) (c : Gid → Option EntId) (n : EntId → Prop) : State → State → Prop
  | trans {s s' s'' : State} : Entries o c n s s' → Entries o c n s' s'' → Entries o c n s s''
  | still {s s' : State} (fresh : List Event) (written : s'.books.journal = fresh ++ s.books.journal)
      (quiet : ∀ ev ∈ fresh, ev.Quiet) (seq : ∀ q, (s'.books.seq q).Sublist (s.books.seq q))
      (vruntime : o → ∀ q, ∀ e ∈ s'.books.seq q, s'.books.vruntime e = s.books.vruntime e)
      (times : ∀ q e, c q = some e → s'.books.timingStart e = s.books.timingStart e ∧ s'.books.sumExec e = s.books.sumExec e)
      (gains : ∀ e, ¬n e → s'.books.vruntime e = s.books.vruntime e + BitVec.ofNat 64 (earned e fresh) ∧
        (o → (∀ q, c q ≠ some e) → earned e fresh = 0))
      (clock : s'.books.clock = s.books.clock) : Entries o c n s s'
  | charge {s s' : State} (q : Gid) (e : EntId) (w : Nat) (current : c q = some e) (out : ∀ p, e ∉ s.view.timeline p)
      (paid : s'.books = s.books.charge q e w) : Entries o c n s s'
  | insert {s s' : State} (q : Gid) (e : EntId) (run : rawEnqueueEntity s q e = some s') (out : ∀ p, e ∉ s.view.timeline p) :
      Entries o c n s s'

/-- In between the entity was taken off a queue. -/
def Left (s s' : State) (e : EntId) : Prop :=
  ∃ q older, Event.leave q e :: older <:+ s'.books.journal ∧ s.books.journal <:+ older

/-- The current entities are those that may be charged, and none of them is in a timeline. -/
def View.Clear (v : View) (c : Gid → Option EntId) : Prop :=
  ∀ q e, v.curr q = some e → c q = some e ∧ ∀ p, e ∉ v.timeline p

theorem View.Clear.mono {v v' : View} {c : Gid → Option EntId} (clear : v.Clear c) (curr : v'.curr = v.curr)
    (timeline : ∀ p e, e ∈ v'.timeline p → e ∈ v.timeline p) : v'.Clear c :=
  fun q e current =>
    ⟨(clear q e (curr ▸ current)).1, fun p member => (clear q e (curr ▸ current)).2 p (timeline p e member)⟩

theorem Inv.clear {C : Conds} {s : State} {L : List EntId} {d : Option EntId} (inv : Inv C s L d)
    (positive : C.positive) : s.view.Clear s.view.curr :=
  fun q e current => ⟨current, inv.core.out ((inv.tight positive).apart q e current)⟩

/-- The three times the books keep: of the last charges, of all charges, and the clock. -/
def Books.times (b : Books) : (EntId → BitVec 64) × (EntId → BitVec 64) × BitVec 64 := (b.timingStart, b.sumExec, b.clock)

namespace Entries
variable {o : Prop} {c : Gid → Option EntId} {n : EntId → Prop} {s s' : State} {q : Gid} {e : EntId}

theorem quiet (fresh : List Event) (written : s'.books.journal = fresh ++ s.books.journal)
    (quiet : ∀ ev ∈ fresh, ev.Quiet ∧ ∀ e, ev.gain e = 0) (seq : s'.books.seq = s.books.seq)
    (vruntime : s'.books.vruntime = s.books.vruntime) (times : s'.books.times = s.books.times) : Entries o c n s s' := by
  simp only [Books.times, Prod.mk.injEq] at times
  have idle (e : EntId) : earned e fresh = 0 := earned_zero fun ev member => (quiet ev member).2 e
  refine .still fresh written (fun ev member => (quiet ev member).1) (fun q => ?_) (fun _ q e _ => ?_) (fun q e _ => ?_)
    (fun e _ => ⟨?_, fun _ _ => idle e⟩) times.2.2
  · rw [seq]
  · rw [vruntime]
  · rw [times.1, times.2.1]
    exact ⟨rfl, rfl⟩
  · rw [vruntime, idle, BitVec.add_zero]

/-- One event that charges, inserts, picks and ends nothing. -/
theorem one (ev : Event) (written : s'.books.journal = ev :: s.books.journal) (silent : ev.Quiet ∧ ∀ e, ev.gain e = 0)
    (seq : s'.books.seq = s.books.seq) (vruntime : s'.books.vruntime = s.books.vruntime)
    (times : s'.books.times = s.books.times) : Entries o c n s s' :=
  .quiet [ev] written (fun _ member => List.mem_singleton.mp member ▸ silent) seq vruntime times

theorem books (same : s'.books = s.books) : Entries o c n s s' := by
  refine .quiet [] ?_ (by simp) ?_ ?_ ?_ <;> rw [same]
  rfl

theorem refl (s : State) : Entries o c n s s := .books rfl

theorem marked {ok : Gid → EntId → Prop} (h : s.books.Marked ok s'.books) : Entries o c n s s' := by
  refine .quiet [] ?_ (by simp) ?_ ?_ ?_ <;> rw [h.rest] <;> rfl

/-- Nothing is ever struck out. -/
theorem suffix (h : Entries o c n s s') : s.books.journal <:+ s'.books.journal := by
  induction h with
  | trans _ _ ih ih' => exact ih.trans ih'
  | still fresh written => exact ⟨fresh, written.symm⟩
  | charge q e w _ _ paid =>
    rw [paid]
    exact List.suffix_cons ..
  | insert q e run =>
    obtain ⟨_, _, _, _, _, new, _⟩ := rawEnqueueEntity_spec _ _ _ run
    rw [new]
    exact List.suffix_cons ..

/-- A vruntime is written outside all timelines. -/
theorem write (fresh : List Event) (w : BitVec 64) (new : n e) (out : o → ∀ q, e ∉ s.view.timeline q)
    (written : s'.books.journal = fresh ++ s.books.journal) (quiet : ∀ ev ∈ fresh, ev.Quiet ∧ ∀ e, ev.gain e = 0)
    (seq : s'.books.seq = s.books.seq) (vruntime : s'.books.vruntime = update s.books.vruntime e w)
    (times : s'.books.times = s.books.times) : Entries o c n s s' := by
  simp only [Books.times, Prod.mk.injEq] at times
  have idle (x : EntId) : earned x fresh = 0 := earned_zero fun ev member => (quiet ev member).2 x
  refine .still fresh written (fun ev member => (quiet ev member).1) (fun q => ?_) (fun ordered q x member => ?_)
    (fun q x _ => ?_) (fun x old => ⟨?_, fun _ _ => idle x⟩) times.2.2
  · rw [seq]
  · rw [seq] at member
    have other : x ≠ e := by
      rintro rfl
      exact out ordered q (Multiset.mem_coe.mpr member)
    rw [vruntime, update_of_ne other]
  · rw [times.1, times.2.1]
    exact ⟨rfl, rfl⟩
  · have other : x ≠ e := by
      rintro rfl
      exact old new
    rw [vruntime, update_of_ne other, idle, BitVec.add_zero]

/-- A removal takes an entity out of the sequence. -/
theorem remove (run : rawDequeueEntity s q e = some s') : Entries o c n s s' := by
  obtain ⟨_, _, new⟩ := rawDequeueEntity_spec _ _ _ run
  refine .still [] (by rw [new]; rfl) (by simp) (fun p => ?_) (fun _ p x _ => by rw [new]) (fun p x _ => ?_)
    (fun x _ => ⟨by simp [new], fun _ _ => rfl⟩) (by rw [new])
  · rw [new]
    by_cases here : p = q
    · subst here
      simp only [update_self]
      exact List.erase_sublist
    · simp only [update_of_ne here, List.Sublist.refl]
  · rw [new]
    exact ⟨rfl, rfl⟩

end Entries

section entities
variable {C : Conds} {o : Prop} {c : Gid → Option EntId} {n : EntId → Prop} {s s' : State} {L : List EntId} {d : Option EntId}
  {q : Gid} {e : EntId}
  {flags : Nat}

theorem updateCurr_entries (q : Gid) (clear : s.view.Clear c) : Entries o c n s (updateCurr s q) := by
  rcases updateCurr_books s q with ⟨same, _⟩ | ⟨x, w, current, _, paid⟩
  · exact .books same
  · obtain ⟨charged, out⟩ := clear q x current
    exact .charge q x w charged out paid

theorem placeEntity_entries (q : Gid) (new : n e) (out : ∀ p, e ∉ s.view.timeline p) :
    Entries o c n s (placeEntity s q e) := by
  obtain ⟨_, placed⟩ := placeEntity_books s q e
  exact .write [_] _ new (fun _ => out) (by rw [placed]; rfl) (by simp [Event.Quiet, Event.gain]) (by rw [placed]) (by rw [placed])
    (by rw [placed]; rfl)

theorem addVtime_entries (q : Gid) (new : n e) (out : ∀ p, e ∉ s.view.timeline p) : Entries o c n s (addVtime s q e) := by
  have added := addVtime_books s q e
  exact .write [_] _ new (fun _ => out) (by rw [added]; rfl) (by simp [Event.Quiet, Event.gain]) (by rw [added]) (by rw [added])
    (by rw [added]; rfl)

theorem subVtime_entries (q : Gid) (new : n e) (out : ∀ p, e ∉ s.view.timeline p) : Entries o c n s (subVtime s q e) := by
  have taken := subVtime_books s q e
  exact .write [_] _ new (fun _ => out) (by rw [taken]; rfl) (by simp [Event.Quiet, Event.gain]) (by rw [taken]) (by rw [taken])
    (by rw [taken]; rfl)

theorem accountEntityDequeue_entries (s : State) (q : Gid) (e : EntId) : Entries o c n s (accountEntityDequeue s q e) := by
  have books := accountEntityDequeue_books s q e
  refine .quiet (s.view.subtractions q e) (by rw [books]) (fun ev member => ?_) (by rw [books]) (by rw [books])
    (by rw [books]; rfl)
  simp only [View.subtractions, List.mem_cons, List.mem_append, List.not_mem_nil, or_false] at member
  rcases member with rfl | rest | rfl
  · exact ⟨trivial, fun _ => rfl⟩
  · split at rest
    · cases List.mem_singleton.mp rest
      exact ⟨trivial, fun _ => rfl⟩
    · cases rest
  · exact ⟨trivial, fun _ => rfl⟩

theorem updateEntityWeight_entries (w : Nat) (clear : s.view.Clear c) : Entries o c n s (updateEntityWeight s q e w) := by
  have first : Entries o c n s (if (s.sfq q).curr = some e then updateCurr s q else s) := by
    split
    · exact updateCurr_entries q clear
    · exact .refl s
  have store (s : State) : Entries o c n s (s.modEnt e fun ent => { ent with load := loadSet w }) :=
    .books (by simp [books_modEnt])
  have counted (s : State) : Entries o c n s (accountEntityEnqueue s q e) := .books (accountEntityEnqueue_books ..)
  unfold updateEntityWeight
  split
  · exact first.trans ((accountEntityDequeue_entries ..).trans ((store _).trans (counted _)))
  · exact store s

theorem updateSfqShares_entries (q : Gid) (clear : s.view.Clear c) : Entries o c n s (updateSfqShares s q) := by
  unfold updateSfqShares
  dsimp only
  split
  · exact .refl s
  · split
    · exact .refl s
    · exact updateEntityWeight_entries _ clear

/-- `enqueue_entity` writes the vruntime of an entity that is not yet in its timeline. -/
theorem enqueueEntity_entries (core : s.view.Core L) (clear : s.view.Clear c) (new : n e)
    (away : ∀ p, s.view.curr p ≠ some e) (run : enqueueEntity s q e flags = some s') : Entries o c n s s' := by
  obtain ⟨apart, a, b, first, second, rfl⟩ := enqueueEntity_parts run
  have out := core.out (core.off apart)
  have before : Entries o c n s (enqueueVruntime s q e flags) := by
    unfold enqueueVruntime
    by_cases wakeup : flags &&& enqueueWakeup = 0
    · simp only [wakeup, if_true, ne_eq, not_true_eq_false, if_false]
      exact (addVtime_entries q new out).trans (updateCurr_entries q (by simpa using clear))
    · simp only [wakeup, if_false, ne_eq, not_false_eq_true, if_true]
      exact (updateCurr_entries q clear).trans (placeEntity_entries q new (by simpa using out))
  obtain ⟨⟨_, _, look⟩, books⟩ := setRunq_spec (by simpa using core.hier) first
  obtain ⟨_, look', _⟩ := rawEnqueueEntity_spec _ _ _ second
  have enters : Entries o c n a b := .insert q e second (by rw [look, enqueueVruntime_view]; exact out)
  have clear' : b.view.Clear c := by
    intro p x current
    rw [look', look, enqueueVruntime_view] at current
    have other : x ≠ e := by
      rintro rfl
      exact away p current
    obtain ⟨charged, outside⟩ := clear p x current
    refine ⟨charged, fun r member => outside r ?_⟩
    rw [look', look, enqueueVruntime_view] at member
    by_cases here : r = q
    · subst here
      simpa [View.runnable, other] using member
    · simpa [View.runnable, here] using member
  have after : Entries o c n b (enqueueAccount b q e) := by
    have counted : Entries o c n b (accountEntityEnqueue b q e) := .books (accountEntityEnqueue_books ..)
    have shares : Entries o c n (accountEntityEnqueue b q e) (updateSfqShares (accountEntityEnqueue b q e) q) := by
      refine updateSfqShares_entries q ?_
      rw [accountEntityEnqueue_view]
      exact clear'
    have listed (s : State) : Entries o c n s (if (s.sfq q).nrRunning = 1 then addLeafSfq s q else s) := by
      split
      · exact .books (addLeafSfq_books ..)
      · exact .refl s
    have joins (s : State) : Entries o c n s ((s.emit (.join q e)).modEnt e fun ent => { ent with joined := true }) :=
      .one (.join q e) (by simp [books_modEnt, books_emit]) ⟨trivial, fun _ => rfl⟩
        (by simp [books_modEnt, books_emit]) (by simp [books_modEnt, books_emit]) (by simp [Books.times, books_modEnt, books_emit])
    exact counted.trans (shares.trans ((listed _).trans (joins _)))
  exact (before.trans (.books books)).trans (enters.trans after)

theorem dequeueLeave_journal (s : State) (q : Gid) (e : EntId) (flags : Nat) :
    ∃ older, Event.leave q e :: older <:+ (dequeueLeave s q e flags).books.journal ∧ s.books.journal <:+ older := by
  refine ⟨(accountEntityDequeue s q e).books.journal, ?_, ?_⟩
  · unfold dequeueLeave
    dsimp only
    split
    · rw [subVtime_books]
      exact List.suffix_cons ..
    · exact List.suffix_rfl
  · rw [accountEntityDequeue_books]
    exact List.suffix_append ..

/-- The entity is outside all timelines when `dequeue_entity` takes it out of the accounts. -/
theorem dequeueEntity_halves (core : s.view.Core L) (clear : s.view.Clear c) (joined : s.view.joined e)
    (run : dequeueEntity s (s.view.sfq e) e flags = some s') :
    ∃ a, Entries o c n (updateCurr s (s.view.sfq e)) a ∧ (∀ p, e ∉ a.view.timeline p) ∧
      Entries o c n (dequeueLeave a (s.view.sfq e) e flags) s' := by
  obtain ⟨a, first, rfl⟩ := dequeueEntity_parts run joined
  have look : a.view = (s.view.unboosted e).withdraw (s.view.sfq e) e := dequeueClear_off core first
  have before : Entries o c n (updateCurr s (s.view.sfq e)) (dequeueClear s (s.view.sfq e) e) := by
    have off (s : State) : Entries o c n s (runqDequeueEntity s e) := .books (runqDequeueEntity_books ..)
    exact (off _).trans (.marked (clearCandidates_marked (r := fun _ _ => False) ..))
  have middle : Entries o c n (dequeueClear s (s.view.sfq e) e) a := by
    split at first
    · exact .remove first
    · cases first
      exact .refl _
  have fewer (p : Gid) (x : EntId) (member : x ∈ a.view.timeline p) : x ∈ s.view.timeline p := by
    rw [look] at member
    by_cases here : p = s.view.sfq e
    · subst here
      simp only [View.withdraw, View.unboosted, update_self] at member
      exact Multiset.mem_of_mem_erase member
    · simpa [View.withdraw, View.unboosted, here] using member
  refine ⟨a, before.trans middle, fun p member => ?_, ?_⟩
  · have place : s.view.sfq e = p := (core.member p e (fewer p e member)).2.2
    rw [look, ← place] at member
    simp only [View.withdraw, View.unboosted, update_self] at member
    exact (core.nodup _).notMem_erase member
  · have moved (s : State) (q : Gid) : Entries o c n s (updateSfqVtime s q) := .books (updateSfqVtime_books ..)
    refine (moved ..).trans (updateSfqShares_entries _ ?_)
    rw [updateSfqVtime_view, dequeueLeave_view]
    refine clear.mono ?_ fewer
    rw [look]
    rfl

theorem dequeueEntity_left (core : s.view.Core L) (clear : s.view.Clear c) (joined : s.view.joined e)
    (run : dequeueEntity s (s.view.sfq e) e flags = some s') : Left s s' e := by
  obtain ⟨a, before, _, after⟩ := dequeueEntity_halves (o := True) (n := fun _ => True) core clear joined run
  obtain ⟨older, written, above⟩ := dequeueLeave_journal a (s.view.sfq e) e flags
  have charges : Entries True c (fun _ => True) s (updateCurr s (s.view.sfq e)) := updateCurr_entries _ clear
  exact ⟨_, older, written.trans after.suffix, (charges.trans before).suffix.trans above⟩

/-- `dequeue_entity` writes the vruntime of an entity that has left its timeline. -/
theorem dequeueEntity_after (core : s.view.Core L) (clear : s.view.Clear c) (new : Left s s' e → n e)
    (joined : s.view.joined e) (run : dequeueEntity s (s.view.sfq e) e flags = some s') :
    Entries o c n (updateCurr s (s.view.sfq e)) s' := by
  obtain ⟨a, before, out, after⟩ := dequeueEntity_halves core clear joined run
  have leaves : Entries o c n a (dequeueLeave a (s.view.sfq e) e flags) := by
    have left (a : State) (q : Gid) : Entries o c n a ((a.emit (.leave q e)).modEnt e fun ent => { ent with joined := false }) :=
      .one (.leave q e) (by simp [books_modEnt, books_emit]) ⟨trivial, fun _ => rfl⟩
        (by simp [books_modEnt, books_emit]) (by simp [books_modEnt, books_emit])
        (by simp [Books.times, books_modEnt, books_emit])
    have parts := (accountEntityDequeue_entries a (s.view.sfq e) e).trans (left _ (s.view.sfq e))
    unfold dequeueLeave
    dsimp only
    split
    · refine parts.trans (subVtime_entries _ (new (dequeueEntity_left core clear joined run)) ?_)
      simpa [view_modEnt, accountEntityDequeue_view] using out
    · exact parts
  exact before.trans (leaves.trans after)

theorem dequeueEntity_entries (core : s.view.Core L) (clear : s.view.Clear c) (new : Left s s' e → n e)
    (run : dequeueEntity s (s.view.sfq e) e flags = some s') : Entries o c n s s' := by
  by_cases joined : s.view.joined e
  · exact (updateCurr_entries _ clear).trans (dequeueEntity_after core clear new joined run)
  · rw [dequeueEntity_apart run (by simpa using joined)]
    exact .refl s

/-- `put_prev_entity` charges an entity before it goes back into its timeline. -/
theorem putPrevEntity_entries (hier : s.view.Hier) (clear : s.view.Clear c) (current : s.view.curr q = some e)
    (run : putPrevEntity s q e flags = some s') : Entries o c n s s' := by
  have releases (s : State) : Entries o c n s (putPrevRelease s q e) :=
    .one (.release q e s.rq.clockThread) (by simp [putPrevRelease, books_modSfq, books_emit]) ⟨trivial, fun _ => rfl⟩
      (by simp [putPrevRelease, books_modSfq, books_emit]) (by simp [putPrevRelease, books_modSfq, books_emit])
      (by simp [Books.times, putPrevRelease, books_modSfq, books_emit])
  rcases putPrevEntity_parts run with ⟨_, rfl⟩ | ⟨_, a, b, first, second, rfl⟩
  · exact releases s
  · have charges : Entries o c n s (putPrevCharge s q e flags) := by
      unfold putPrevCharge
      split
      · exact (Entries.marked (setSkipWalk_marked ..)).trans (updateCurr_entries q (by simpa [setSkipCandidate] using clear))
      · exact updateCurr_entries q clear
    obtain ⟨⟨_, _, look⟩, books⟩ := setRunq_spec (by simpa using hier) first
    have enters : Entries o c n a b := .insert q e second (by rw [look, putPrevCharge_view]; exact (clear q e current).2)
    exact charges.trans ((Entries.books books).trans (enters.trans (releases b)))

/-- An activation charges nobody and starts the times of the entity. -/
theorem activateEntity_entries (run : activateEntity s q e = some s') : Entries o (fun _ => none) n s s' := by
  obtain ⟨_, a, first, _, rfl⟩ := activateEntity_parts run
  have off : Entries o (fun _ => none) n s (runqDequeueEntity s e) := .books (runqDequeueEntity_books ..)
  have starts : Entries o (fun _ => none) n a (activateStart a q e) := by
    refine .still [.activate q e a.rq.clockThread] ?_ (by simp [Event.Quiet]) (fun p => ?_) (fun _ p x _ => ?_) nofun
      (fun x _ => ⟨?_, fun _ _ => rfl⟩) ?_
    all_goals simp [activateStart, books_modEnt, books_modSfq, books_emit, Event.gain]
  exact off.trans ((Entries.remove first).trans starts)

theorem pssPutPrevWalk_entries {chain : List EntId} (positive : C.positive) (inv : Inv C s chain d) (nodup : chain.Nodup)
    (pss : ∀ e ∈ chain, e.pss s.view.cls) (within : ∀ q e, s.view.curr q = some e → c q = some e)
    (run : pssPutPrevWalk s chain flags = some s') : Entries o c n s s' := by
  induction chain generalizing s with
  | nil =>
    cases run
    exact .refl _
  | cons e rest ih =>
    obtain ⟨others, nodup⟩ := List.nodup_cons.mp nodup
    unfold pssPutPrevWalk at run
    split at run
    · cases run
    · rename_i a step
      obtain ⟨inv', roster, _⟩ := putPrevEntity_inv inv others (pss e (List.mem_cons_self ..)) step
      have cls : a.view.cls = s.view.cls := (congrArg Roster.cls roster).trans (Roster.putBack_cls ..)
      have current : s.view.curr (s.view.sfq e) = some e := (inv.core.curr _ e).mpr ⟨List.mem_cons_self .., rfl⟩
      have clear : s.view.Clear c := fun q x there => ⟨within q x there, (inv.clear positive q x there).2⟩
      have fewer : a.view.curr = update s.view.curr (s.view.sfq e) none := by
        rcases putPrevEntity_view inv.core.hier step with ⟨_, look⟩ | ⟨_, _, _, _, look⟩ <;> rw [look] <;> rfl
      refine (putPrevEntity_entries inv.core.hier clear current step).trans
        (ih inv' nodup (fun x member => cls ▸ pss x (List.mem_cons_of_mem _ member)) (fun q x there => ?_) run)
      rw [fewer] at there
      by_cases here : q = s.view.sfq e
      · rw [here, update_self] at there
        cases there
      · rw [update_of_ne here] at there
        exact within q x there

theorem pssActivateWalk_entries {chain : List EntId} (run : pssActivateWalk s chain = some s') : Entries o (fun _ => none) n s s' := by
  induction chain generalizing s with
  | nil =>
    cases run
    exact .refl _
  | cons se rest ih =>
    unfold pssActivateWalk at run
    split at run
    · cases run
    · rename_i step
      exact (activateEntity_entries step).trans (ih run)

/-- `pick_next_entity` writes down its choice, the first entity or one close to it. -/
theorem pickNextEntity_written (run : pickNextEntity s q = some (e, s')) :
    ∃ first gran, s.books.leftmost q = some first ∧ (e = first ∨ s.books.close gran e first) ∧
      s'.books =
        { s.books with
          skip := s'.books.skip
          next := s'.books.next
          last := s'.books.last
          journal := .pick q (s.books.seq q) first gran e :: s.books.journal } := by
  obtain ⟨first, gran, a, isFirst, _, books, _, rfl, which⟩ := pickNextEntity_spec run
  refine ⟨first, gran, isFirst, which.imp id fun near => near.2, ?_⟩
  rw [(clearCandidates_marked (r := fun _ _ => False) ..).rest, books_emit, books]

end entities

section fork
variable {o : Prop} {c : Gid → Option EntId} {n : EntId → Prop} {s : State} {parent child : Tid}

theorem pssForkPlace_entries (clear : s.view.Clear c) (new : n (.thread child)) (out : ∀ p, .thread child ∉ s.view.timeline p) :
    Entries o c n (updateRqClock s) (pssForkPlace s parent child) := by
  unfold pssForkPlace
  dsimp only
  have charges : Entries o c n (updateRqClock s) (updateCurr (updateRqClock s) (s.ent (.thread parent)).sfq) :=
    updateCurr_entries _ clear
  refine charges.trans ?_
  have look : (updateCurr (updateRqClock s) (s.ent (.thread parent)).sfq).view = s.view := by simp
  generalize updateCurr (updateRqClock s) (s.ent (.thread parent)).sfq = a at look ⊢
  have inherits : Entries o c n a
      (a.modEnt (.thread child) fun se2 => { se2 with vruntime := (a.ent (.thread parent)).vruntime }) :=
    .write [] _ new (fun _ => look ▸ out) rfl (by simp) rfl (by simp [books_modEnt]; rfl) (by simp [Books.times, books_modEnt])
  obtain ⟨w, placed⟩ := placeEntityInitial_books
    (a.modEnt (.thread child) fun se2 => { se2 with vruntime := (a.ent (.thread parent)).vruntime })
    (s.ent (.thread parent)).sfq (.thread child)
  refine inherits.trans
    (.write [] w new (fun _ p => ?_) (by rw [placed]; rfl) (by simp) (by rw [placed]) (by rw [placed]) (by rw [placed]; rfl))
  rw [view_modEnt, look]
  exact out p

/-- An exchange writes down what the parent gains. -/
theorem pssForkSwap_entries (new : n (.thread child)) (known : o → n (.thread parent) ∨ ∃ q, c q = some (.thread parent))
    (outer : o → ∀ p, .thread parent ∉ s.view.timeline p) (out : ∀ p, .thread child ∉ s.view.timeline p) :
    Entries o c n s (pssForkSwap s parent child) := by
  have gains (a : State) (v w : BitVec 64) (has : a.books.vruntime (.thread parent) = v) (look : a.view = s.view) :
      Entries o c n a ((a.modEnt (.thread parent) fun se => { se with vruntime := w }).emit (.swap (.thread parent) (w - v))) := by
    refine .still [.swap (.thread parent) (w - v)] rfl (by simp [Event.Quiet]) (fun _ => .refl _) (fun ordered q e member => ?_)
      (fun q e _ => ?_) (fun e old => ?_) rfl
    · have other : e ≠ .thread parent := by
        rintro rfl
        exact outer ordered q (look ▸ Multiset.mem_coe.mpr member)
      simp [books_emit, books_modEnt, update_of_ne other]
    · simp [books_emit, books_modEnt]
    · simp only [books_emit, books_modEnt, earned_cons, earned_nil, Event.gain]
      by_cases here : e = .thread parent
      · subst here
        refine ⟨?_, fun ordered idle => ?_⟩
        · rw [update_self, has, if_pos rfl, Nat.add_zero, BitVec.ofNat_toNat, BitVec.setWidth_eq, BitVec.add_comm,
            BitVec.sub_add_cancel]
        · obtain ⟨q, current⟩ := (known ordered).resolve_left old
          exact absurd current (idle q)
      · simp [update_of_ne here, Ne.symm here]
  have store (a : State) (w : BitVec 64) (look : a.view = s.view) :
      Entries o c n a (a.modEnt (.thread child) fun se => { se with vruntime := w }) :=
    .write [] w new (fun _ => look ▸ out) rfl (by simp) rfl (by simp [books_modEnt]) (by simp [Books.times, books_modEnt])
  unfold pssForkSwap
  dsimp only
  refine (gains s _ _ rfl rfl).trans ((store _ _ ?_).trans (.books rfl))
  simp [view_modEnt]

theorem pssForkThread_entries (clear : s.view.Clear c) (new : n (.thread child))
    (out : ∀ p, .thread child ∉ s.view.timeline p)
    (known : o → forkSwaps (pssForkPlace s parent child) parent child → n (.thread parent) ∨ ∃ q, c q = some (.thread parent))
    (outer : o → forkSwaps (pssForkPlace s parent child) parent child → ∀ p, .thread parent ∉ s.view.timeline p) :
    Entries o c n (updateRqClock s) (pssForkThread s parent child) := by
  have place : (pssForkPlace s parent child).view = s.view := by
    simp [pssForkPlace, view_modEnt]
  have debits (a : State) (w : BitVec 64) (look : a.view = s.view) :
      Entries o c n a ((a.modEnt (.thread child) fun se2 => { se2 with vruntime := w }).emit (.born child w true)) :=
    .write [.born child w true] w new (fun _ => look ▸ out) rfl (by simp [Event.Quiet, Event.gain]) rfl
      (by simp [books_emit, books_modEnt])
      (by simp [Books.times, books_emit, books_modEnt])
  have placed : Entries o c n (updateRqClock s) (pssForkPlace s parent child) := pssForkPlace_entries clear new out
  unfold pssForkThread
  dsimp only
  split
  · rename_i swaps
    have swapped : Entries o c n (pssForkPlace s parent child) (pssForkSwap (pssForkPlace s parent child) parent child) :=
      pssForkSwap_entries new (fun ordered => known ordered swaps) (fun ordered => place ▸ outer ordered swaps) (place ▸ out)
    refine (placed.trans swapped).trans (debits _ _ ?_)
    rw [← place]
    simp [pssForkSwap, view_modEnt]
  · exact placed.trans (debits _ _ place)

/-- A fork enters the child and, for a thread of `pss_class`, what follows one reading of the clock. -/
theorem fork_entries {C : Conds} {L : List EntId} {d : Option EntId} {newProc : Bool} {stale : SchedEntity}
    (positive : C.positive) (inv : Inv C s L d) (inside : parent < s.view.nthreads)
    (new : ∀ e, s.view.joined e = false → n e) (swap : o → ¬forkSwapsQueued s parent newProc stale)
    (away : ∀ q, s.view.curr q ≠ some (.thread s.view.nthreads)) :
    ∃ a b, Entries o s.view.curr n s a ∧ (b = a ∨ b = updateRqClock a) ∧
      Entries o s.view.curr n b (fork s parent newProc stale) := by
  have core := inv.core
  have out := core.out core.unborn.onSfq
  have child : n (.thread s.nthreads) := new _ core.unborn.joined
  have look := schedForkInit_view core inside newProc stale
  have alloc : Entries o s.view.curr n s (forkAlloc s parent newProc) := by cases newProc <;> exact .books rfl
  have still : (forkAlloc s parent newProc).view.timeline = s.view.timeline := by rw [forkAlloc_view]
  have init (a : State) (same : a.view.timeline = s.view.timeline) :
      Entries o s.view.curr n a (schedForkInit a parent s.nthreads stale) := by
    have books : (schedForkInit a parent s.nthreads stale).books =
        { a.books with
          vruntime := update a.books.vruntime (.thread s.nthreads) stale.vruntime
          timingStart := update a.books.timingStart (.thread s.nthreads) stale.timingStart
          sumExec := update a.books.sumExec (.thread s.nthreads) stale.sumExecTime } := by
      simp [schedForkInit, setThreadRq, books_modEnt]
    refine .still [] (by rw [books]; rfl) (by simp) (fun q => by rw [books]) (fun _ q e member => ?_) (fun q e there => ?_)
      (fun e old => ⟨?_, fun _ _ => rfl⟩) (by rw [books])
    · have other : e ≠ .thread s.nthreads := by
        rintro rfl
        rw [books] at member
        have listed : EntId.thread s.nthreads ∈ a.view.timeline q := Multiset.mem_coe.mpr member
        rw [same] at listed
        exact out q listed
      rw [books]
      exact update_of_ne other ..
    · have other : e ≠ .thread s.nthreads := by
        rintro rfl
        exact away q there
      rw [books]
      exact ⟨update_of_ne other .., update_of_ne other ..⟩
    · have other : e ≠ .thread s.nthreads := by
        rintro rfl
        exact old child
      rw [books, earned_nil, BitVec.add_zero]
      exact update_of_ne other ..
  have blank := alloc.trans (init _ still)
  have cls : ((schedForkInit (forkAlloc s parent newProc) parent s.nthreads stale).td parent).cls = s.view.cls parent := by
    have same := congrFun (congrArg View.cls look) parent
    rw [View.born] at same
    exact same.trans (update_of_ne inside.ne ..)
  unfold fork schedForkThread
  dsimp only
  rw [cls]
  split
  · rename_i pss
    have off (ordered : o) (swaps : forkSwaps (pssForkPlace (schedForkInit (forkAlloc s parent newProc) parent s.nthreads
        stale) parent s.nthreads) parent s.nthreads) : s.view.onSfq (.thread parent) = false := by
      by_contra there
      exact swap ordered ⟨pss, by simpa using there, swaps⟩
    refine ⟨_, _, blank, .inr rfl, pssForkThread_entries ?_ child ?_ (fun ordered swaps => ?_) fun ordered swaps => ?_⟩
    · rw [look]
      exact inv.clear positive
    · rw [look]
      exact out
    · by_cases joined : s.view.joined (.thread parent)
      · refine .inr ⟨_, (core.covered _ joined pss).resolve_left fun queued => ?_⟩
        exact Bool.noConfusion ((off ordered swaps).symm.trans ((core.onSfq _).mpr queued))
      · exact .inl (new _ (by simpa using joined))
    · rw [look]
      exact core.out (off ordered swaps)
  · exact ⟨_, _, blank, .inl rfl, .one _ rfl ⟨trivial, fun _ => rfl⟩ rfl rfl rfl⟩

end fork

section micro
variable {C : Conds} {o : Prop} {c : Gid → Option EntId} {n : EntId → Prop} {s s' : State} {L : List EntId} {d : Option EntId}

/-- A new group begins with an empty timeline. -/
theorem schedGroupCreate_entries (core : s.view.Core L) (away : ∀ q, c q ≠ some (.group s.view.ngroups))
    (new : ∀ e, s.view.joined e = false → n e) (parent : Gid) (shares : Nat) : Entries o c n s (schedGroupCreate s parent shares) := by
  have unborn : s.view.joined (.group s.ngroups) = false := by
    by_contra there
    have valid := core.valid _ (by simpa using there)
    exact lt_irrefl _ ((EntId.valid_group ..).mp valid).2
  have out (p : Gid) : EntId.group s.ngroups ∉ s.view.timeline p := core.out (core.off unborn) p
  have seq (q : Gid) : ((schedGroupCreate s parent shares).books.seq q).Sublist (s.books.seq q) := by
    change List.Sublist (update s.sfq s.ngroups { group := s.ngroups } q).timeline.seq (s.sfq q).timeline.seq
    by_cases new : q = s.ngroups
    · subst new
      simp
    · rw [update_of_ne new]
  have kept (e : EntId) (other : e ≠ .group s.ngroups) : (schedGroupCreate s parent shares).ent e = s.ent e :=
    update_of_ne other ..
  refine .still [] rfl (by simp) seq (fun _ q e member => ?_) (fun q e there => ?_) (fun e old => ⟨?_, fun _ _ => rfl⟩) rfl
  · have other : e ≠ .group s.ngroups := by
      rintro rfl
      exact out q (Multiset.mem_coe.mpr ((seq q).subset member))
    exact congrArg SchedEntity.vruntime (kept e other)
  · have other : e ≠ .group s.ngroups := by
      rintro rfl
      exact away q there
    exact ⟨congrArg SchedEntity.timingStart (kept e other), congrArg SchedEntity.sumExecTime (kept e other)⟩
  · have other : e ≠ .group s.ngroups := by
      rintro rfl
      exact old (new _ unborn)
    rw [earned_nil, BitVec.add_zero]
    exact congrArg SchedEntity.vruntime (kept e other)

end micro

end SfqSched
