import SfqSched.SeatSched
import SfqSched.UserPriRun

namespace SfqSched
open State Function

namespace Seat

/-- What holds of a thread whatever its state is. -/
structure Sound (x : Seat) : Prop where
  leaf : x.myQ = none
  listed : x.onRunq ∧ (∃ i, x.slots = [i]) ∨ x.onRunq = false ∧ x.slots = []
  realtime : x.cls = .realtime → x.onSfq = false ∧ (x.joined = false → x.onRunq = false)
  idle : x.cls = .idle → x.joined = false ∧ x.onSfq = false ∧ x.onRunq = false

/-- The two run queues agree about a thread between operations. -/
structure Fits (x : Seat) : Prop extends Sound x where
  joined : x.cls ≠ .idle → (x.joined ↔ x.tdState = .runq ∨ x.tdState = .running)
  queued : x.cls = .pss → (x.onSfq ↔ x.tdState = .runq)
  boosted : x.cls = .pss → x.onRunq → x.onSfq
  urgent : x.cls = .pss → x.onSfq → x.priority < normalPri → ∃ i ∈ x.slots, i ≤ x.priority / 4
  waiting : x.cls = .realtime → (x.onRunq ↔ x.tdState = .runq)

/-- On no queue. -/
structure Out (x : Seat) : Prop where
  leaf : x.myQ = none
  joined : x.joined = false
  onSfq : x.onSfq = false
  onRunq : x.onRunq = false
  slots : x.slots = []

variable {x y z : Seat}

/-- Two seats that differ at most in where the thread is queued. -/
def Alike (x y : Seat) : Prop := y.cls = x.cls ∧ y.priority = x.priority ∧ y.onCpu = x.onCpu ∧ y.born = x.born

theorem Alike.trans (h : Alike x y) (h' : Alike y z) : Alike x z :=
  ⟨h'.1.trans h.1, h'.2.1.trans h.2.1, h'.2.2.1.trans h.2.2.1, h'.2.2.2.trans h.2.2.2⟩

theorem Sound.unboosted (sound : x.Sound) : x.unboosted = { x with onRunq := false, slots := [] } := by
  unfold Seat.unboosted
  rcases sound.listed with ⟨queued, _⟩ | ⟨off, none⟩
  · rw [if_pos queued]
  · rw [if_neg (by simp [off])]
    ext <;> simp_all

theorem Out.sound (out : x.Out) : x.Sound where
  leaf := out.leaf
  listed := .inr ⟨out.onRunq, out.slots⟩
  realtime _ := ⟨out.onSfq, fun _ => out.onRunq⟩
  idle _ := ⟨out.joined, out.onSfq, out.onRunq⟩

theorem Out.fits (out : x.Out) (rests : x.tdState ≠ .runq ∧ x.tdState ≠ .running) : x.Fits where
  toSound := out.sound
  joined _ := by simp [out.joined, rests]
  queued _ := by simp [out.onSfq, rests]
  boosted _ queued := by simp [out.onRunq] at queued
  urgent _ queued := by simp [out.onSfq] at queued
  waiting _ := by simp [out.onRunq, rests]

theorem Out.idle (out : x.Out) (cls : x.cls = .idle) : x.Fits where
  toSound := out.sound
  joined other := absurd cls other
  queued pss := by simp [cls] at pss
  boosted pss := by simp [cls] at pss
  urgent pss := by simp [cls] at pss
  waiting rt := by simp [cls] at rt

theorem Fits.out (fits : x.Fits) (rests : x.tdState ≠ .runq ∧ x.tdState ≠ .running) : x.Out := by
  have listed := fits.listed
  cases cls : x.cls with
  | idle =>
    obtain ⟨joined, onSfq, onRunq⟩ := fits.idle cls
    exact ⟨fits.leaf, joined, onSfq, onRunq, by simpa [onRunq] using listed⟩
  | pss =>
    have joined := fits.joined (by simp [cls])
    have queued := fits.queued cls
    have boosted := fits.boosted cls
    have onSfq : x.onSfq = false := by simpa [rests] using queued
    have onRunq : x.onRunq = false := by simpa [onSfq] using boosted
    exact ⟨fits.leaf, by simpa [rests] using joined, onSfq, onRunq, by simpa [onRunq] using listed⟩
  | realtime =>
    have joined := fits.joined (by simp [cls])
    have waiting := fits.waiting cls
    have onRunq : x.onRunq = false := by simpa [rests] using waiting
    exact ⟨fits.leaf, by simpa [rests] using joined, (fits.realtime cls).1, onRunq, by simpa [onRunq] using listed⟩

theorem Dequeued.out (sound : x.Sound) (step : x.Dequeued y) : y.Out ∧ Alike x y ∧ y.tdState = x.tdState := by
  have listed := sound.listed
  unfold Dequeued at step
  cases cls : x.cls with
  | idle =>
    simp only [cls] at step
    subst step
    obtain ⟨joined, onSfq, onRunq⟩ := sound.idle cls
    exact ⟨⟨sound.leaf, joined, onSfq, onRunq, by simpa [onRunq] using listed⟩, ⟨rfl, rfl, rfl, rfl⟩, rfl⟩
  | pss =>
    simp only [cls, Leaves, sound.unboosted] at step
    rcases step with ⟨_, rfl⟩ | ⟨joined, onSfq, onRunq, rfl⟩
    · exact ⟨⟨sound.leaf, rfl, rfl, rfl, rfl⟩, ⟨cls.symm, rfl, rfl, rfl⟩, rfl⟩
    · exact ⟨⟨sound.leaf, joined, onSfq, onRunq, by simpa [onRunq] using listed⟩, ⟨rfl, rfl, rfl, rfl⟩, rfl⟩
  | realtime =>
    simp only [cls, sound.unboosted] at step
    rcases step with ⟨_, onSfq, rfl⟩ | ⟨joined, rfl⟩
    · exact ⟨⟨sound.leaf, rfl, onSfq, rfl, rfl⟩, ⟨cls.symm, rfl, rfl, rfl⟩, rfl⟩
    · obtain ⟨onSfq, onRunq⟩ := sound.realtime cls
      exact ⟨⟨sound.leaf, joined, onSfq, onRunq joined, by simpa [onRunq joined] using listed⟩, ⟨rfl, rfl, rfl, rfl⟩, rfl⟩

theorem Released.out (out : x.Out) (step : x.Released y) :
    y.Out ∧ Alike x y ∧ (y.tdState = x.tdState ∨ y.tdState = .canRun) := by
  unfold Released at step
  cases cls : x.cls with
  | idle =>
    simp only [cls] at step
    subst step
    exact ⟨⟨out.leaf, out.joined, out.onSfq, out.onRunq, out.slots⟩, ⟨cls.symm, rfl, rfl, rfl⟩, .inr rfl⟩
  | pss =>
    simp only [cls, PutBack, out.joined] at step
    rcases step with ⟨never, _⟩ | ⟨_, rfl⟩
    · exact absurd never (by simp)
    · exact ⟨out, ⟨rfl, rfl, rfl, rfl⟩, .inl rfl⟩
  | realtime =>
    simp only [cls, out.joined] at step
    rcases step with ⟨never, _⟩ | ⟨_, rfl⟩
    · exact absurd never (by simp)
    · exact ⟨out, ⟨rfl, rfl, rfl, rfl⟩, .inl rfl⟩

/-- A queued thread of `pss_class` that was on no slot before. -/
theorem Queued.fits (fresh : x.slots = []) (off : x.onRunq = false) (leaf : x.myQ = none) (cls : x.cls = .pss)
    (step : x.Queued z) (same : y = { z with onSfq := true, joined := true }) :
    y.Fits ∧ Alike x y ∧ y.tdState = .runq := by
  obtain ⟨head, rfl⟩ := step
  subst same
  by_cases urgent : x.priority < normalPri
  · rw [if_pos urgent]
    refine ⟨⟨⟨leaf, .inl ⟨rfl, x.priority / 4, ?_⟩, ?_, ?_⟩, ?_, ?_, ?_, ?_, ?_⟩, ⟨rfl, rfl, rfl, rfl⟩, rfl⟩
    · cases head <;> simp [Seat.boosted, added, fresh]
    all_goals simp [Seat.boosted, added, cls]
    intro _
    cases head <;> simp
  · rw [if_neg urgent]
    refine ⟨⟨⟨leaf, .inr ⟨off, fresh⟩, ?_, ?_⟩, ?_, ?_, ?_, ?_, ?_⟩, ⟨rfl, rfl, rfl, rfl⟩, rfl⟩
    all_goals simp [cls]
    exact fun below => absurd below urgent

/-- A thread of a realtime class that takes a slot. -/
theorem boosted_fits {head : Bool} (fresh : x.slots = []) (leaf : x.myQ = none) (off : x.onSfq = false)
    (cls : x.cls = .realtime) (same : y = { x.boosted head with tdState := .runq, joined := true }) :
    y.Fits ∧ Alike x y ∧ y.tdState = .runq := by
  subst same
  refine ⟨⟨⟨leaf, .inl ⟨rfl, x.priority / 4, ?_⟩, ?_, ?_⟩, ?_, ?_, ?_, ?_, ?_⟩, ⟨rfl, rfl, rfl, rfl⟩, rfl⟩
  · cases head <;> simp [Seat.boosted, added, fresh]
  all_goals simp [Seat.boosted, added, cls, off]

theorem Enqueued.fits (out : x.Out) (step : x.Enqueued y) :
    y.Fits ∧ Alike x y ∧ (x.cls ≠ .idle → y.tdState = .runq) ∧ (x.cls = .idle → y = x) := by
  unfold Enqueued at step
  cases cls : x.cls with
  | idle =>
    simp only [cls] at step
    subst step
    exact ⟨out.idle cls, ⟨rfl, rfl, rfl, rfl⟩, by simp, fun _ => rfl⟩
  | pss =>
    simp only [cls, Enters, out.joined] at step
    rcases step with ⟨_, _, z, queued, same⟩ | ⟨never, _⟩
    · obtain ⟨fits, alike, runq⟩ := queued.fits out.slots out.onRunq out.leaf cls same
      exact ⟨fits, alike, fun _ => runq, by simp⟩
    · exact absurd never (by simp)
  | realtime =>
    simp only [cls] at step
    obtain ⟨_, _, _, head, same⟩ := step
    obtain ⟨fits, alike, runq⟩ := boosted_fits out.slots out.leaf out.onSfq cls same
    exact ⟨fits, alike, fun _ => runq, by simp⟩

/-- Only a thread with a priority above the normal ones takes a slot besides its place on a timeline. -/
theorem Enqueued.urgent (out : x.Out) (step : x.Enqueued y) (cls : x.cls = .pss) (listed : y.slots ≠ []) :
    x.priority < normalPri := by
  simp only [Enqueued, cls, Enters, out.joined] at step
  rcases step with ⟨_, _, z, queued, same⟩ | ⟨never, _⟩
  · obtain ⟨head, rfl⟩ := queued
    by_contra calm
    rw [if_neg calm] at same
    subst same
    exact listed out.slots
  · exact absurd never (by simp)

/-- What `y` has kept of `x`, whose thread has been taken off its queue and put back. -/
structure Stays (x y : Seat) : Prop where
  cls : y.cls = x.cls
  priority : y.priority = x.priority
  listed : y.slots ≠ [] → x.slots ≠ []

theorem Stays.refl (x : Seat) : x.Stays x := ⟨rfl, rfl, id⟩

theorem Stays.trans (first : x.Stays y) (second : y.Stays z) : x.Stays z :=
  ⟨second.cls.trans first.cls, second.priority.trans first.priority, fun listed => first.listed (second.listed listed)⟩

/-- A thread of `pss_class` has a slot only while it waits. -/
theorem Fits.slots_queued (fits : x.Fits) (cls : x.cls = .pss) (listed : x.slots ≠ []) : x.tdState = .runq := by
  rcases fits.listed with ⟨onRunq, _⟩ | ⟨_, empty⟩
  · exact (fits.queued cls).mp (fits.boosted cls onRunq)
  · exact absurd empty listed

/-- The running thread is put back. -/
theorem Released.fits (fits : x.Fits) (running : x.tdState = .running) (step : x.Released y) : y.Fits ∧ Alike x y := by
  have listed := fits.listed
  unfold Released at step
  cases cls : x.cls with
  | idle =>
    simp only [cls] at step
    subst step
    obtain ⟨joined, onSfq, onRunq⟩ := fits.idle cls
    have out : Seat.Out { x with tdState := .canRun, cls := .idle } :=
      ⟨fits.leaf, joined, onSfq, onRunq, by simpa [onRunq] using listed⟩
    exact ⟨out.idle rfl, cls.symm, rfl, rfl, rfl⟩
  | pss =>
    have joined : x.joined := (fits.joined (by simp [cls])).mpr (.inr running)
    have onSfq : x.onSfq = false := by simpa [running] using fits.queued cls
    have onRunq : x.onRunq = false := by simpa [onSfq] using fits.boosted cls
    have slots : x.slots = [] := by simpa [onRunq] using listed
    simp only [cls, PutBack, joined] at step
    rcases step with ⟨_, _, z, queued, same⟩ | ⟨never, _⟩
    · have stays : z.joined = true := by
        obtain ⟨head, rfl⟩ := queued
        split
        · exact joined
        · exact joined
      have same' : y = { z with onSfq := true, joined := true } := by rw [same, ← stays]
      exact ⟨(queued.fits slots onRunq fits.leaf cls same').1, (queued.fits slots onRunq fits.leaf cls same').2.1⟩
    · exact absurd never (by simp)
  | realtime =>
    have joined : x.joined := (fits.joined (by simp [cls])).mpr (.inr running)
    have onRunq : x.onRunq = false := by simpa [running] using fits.waiting cls
    have slots : x.slots = [] := by simpa [onRunq] using listed
    simp only [cls, joined] at step
    rcases step with ⟨_, _, head, same⟩ | ⟨never, _⟩
    · have same' : y = { x.boosted head with tdState := .runq, joined := true } := by
        rw [same]
        ext <;> simp [Seat.boosted, added, joined]
      have done := boosted_fits slots fits.leaf (fits.realtime cls).1 cls same'
      exact ⟨done.1, done.2.1⟩
    · exact absurd never (by simp)

theorem Activated.fits (fits : x.Fits) (step : x.Activated y) : y.Fits ∧ Alike x y ∧ y.tdState = .running := by
  have listed := fits.listed
  unfold Activated at step
  cases cls : x.cls with
  | idle =>
    simp only [cls] at step
    subst step
    obtain ⟨joined, onSfq, onRunq⟩ := fits.idle cls
    have out : Seat.Out { x with tdState := .running, cls := .idle } :=
      ⟨fits.leaf, joined, onSfq, onRunq, by simpa [onRunq] using listed⟩
    exact ⟨out.idle rfl, ⟨cls.symm, rfl, rfl, rfl⟩, rfl⟩
  | pss =>
    simp only [cls, fits.toSound.unboosted] at step
    obtain ⟨joined, _, rfl⟩ := step
    refine ⟨⟨⟨fits.leaf, .inr ⟨rfl, rfl⟩, ?_, ?_⟩, ?_, ?_, ?_, ?_, ?_⟩, ⟨cls.symm, rfl, rfl, rfl⟩, rfl⟩
    all_goals simp [joined]
  | realtime =>
    simp only [cls] at step
    obtain ⟨joined, _, onSfq, rfl⟩ := step
    refine ⟨⟨⟨fits.leaf, .inr ⟨rfl, rfl⟩, ?_, ?_⟩, ?_, ?_, ?_, ?_, ?_⟩, ⟨cls.symm, rfl, rfl, rfl⟩, rfl⟩
    all_goals simp [joined, onSfq]

/-- A store to the priority of a thread that is not queued, or one that does not raise it. -/
theorem Fits.setPriority (fits : x.Fits) {prio : Nat} (late : x.tdState = .runq → x.priority ≤ prio) :
    Fits { x with priority := prio } where
  leaf := fits.leaf
  listed := fits.listed
  realtime := fits.realtime
  idle := fits.idle
  joined := fits.joined
  queued := fits.queued
  boosted := fits.boosted
  urgent cls queued below := by
    have behind := late ((fits.queued cls).mp queued)
    obtain ⟨i, member, early⟩ := fits.urgent cls queued (Nat.lt_of_le_of_lt behind below)
    exact ⟨i, member, Nat.le_trans early (Nat.div_le_div_right behind)⟩
  waiting := fits.waiting

end Seat
end SfqSched
