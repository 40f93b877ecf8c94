import SfqSched.Hierarchy

namespace SfqSched
open Function

/-- The threads as the classes see them. -/
@[ext]
structure Roster where
  nthreads : Nat
  curthread : Nat
  idlethread : Nat
  joined : Nat → Bool
  initial : Nat → Bool
  tdState : Nat → TdState
  cls : Nat → SchedClass
  exited : Nat → Bool
  noLoad : Nat → Bool
  idleTd : Nat → Bool
  nrRunning : Nat
  nrSysrunning : Nat

namespace View

def roster (v : View) : Roster where
  nthreads := v.nthreads
  curthread := v.curthread
  idlethread := v.idlethread
  joined t := v.joined (.thread t)
  initial t := v.initial (.thread t)
  tdState := v.tdState
  cls := v.cls
  exited := v.exited
  noLoad := v.noLoad
  idleTd := v.idleTd
  nrRunning := v.nrRunning
  nrSysrunning := v.nrSysrunning

/-- What fixes the chain of every entity. -/
structure Frame where
  ngroups : Nat
  parent : EntId → Option EntId
  sfq : EntId → Nat
  tdGroup : Nat → Nat
  shares : Nat → Nat

def frame (v : View) : Frame where
  ngroups := v.ngroups
  parent := v.parent
  sfq := v.sfq
  tdGroup := v.tdGroup
  shares := v.shares

end View

namespace Roster

def setState (r : Roster) (t : Nat) (st : TdState) : Roster := { r with tdState := update r.tdState t st }

/-- Enqueued by its class and counted. -/
def attach (r : Roster) (t : Nat) : Roster :=
  { r with
    joined := update r.joined t true
    tdState := update r.tdState t .runq
    nrRunning := r.nrRunning + 1
    nrSysrunning := if r.noLoad t then r.nrSysrunning else r.nrSysrunning + 1 }

/-- Dequeued by its class and no longer counted. -/
def detach (r : Roster) (t : Nat) : Roster :=
  { r with
    joined := update r.joined t false
    nrRunning := r.nrRunning - 1
    nrSysrunning := if r.noLoad t then r.nrSysrunning else r.nrSysrunning - 1 }

/-- The run queue counts the joined threads, and apart those that load it. -/
def Counted (r : Roster) : Prop :=
  ∃ m : Finset Nat, (∀ t, t ∈ m ↔ r.joined t) ∧ r.nrRunning = m.card ∧
    r.nrSysrunning = (m.filter fun t => r.noLoad t = false).card

/-- What the state, the class and the membership of a live thread say about each
other while `cpu` is on the CPU. Threads `0` and `1` are there from the start. -/
structure Fits (r : Roster) (cpu : Option Nat) (t : Nat) : Prop where
  running : r.tdState t = .running ↔ cpu = some t
  idle : r.cls t = .idle → r.joined t = false
  joined : r.cls t ≠ .idle → (r.joined t ↔ r.tdState t = .runq ∨ r.tdState t = .running)
  started : 2 ≤ t → r.joined t → r.initial t = false
  only : r.cls t = .idle → t = 1
  idleTd : r.idleTd t → t = 1

structure Ok (r : Roster) (cpu : Option Nat) : Prop where
  counted : r.Counted
  live : ∀ t, t < r.nthreads → r.exited t = false → r.Fits cpu t
  dead : ∀ t, t < r.nthreads → r.exited t → r.joined t = false
  unborn : ∀ t, r.nthreads ≤ t → r.joined t = false ∧ r.cls t = .pss ∧ r.exited t = false
  current : ∀ t, cpu = some t → t < r.nthreads ∧ r.exited t = false
  idle : r.idlethread = 1 ∧ 1 < r.nthreads ∧ r.exited 1 = false ∧ r.idleTd 1

/-- Two rosters that differ only in what they say about `t` and in the counts. -/
structure Beside (r r' : Roster) (t : Nat) : Prop where
  nthreads : r'.nthreads = r.nthreads
  idlethread : r'.idlethread = r.idlethread
  noLoad : r'.noLoad = r.noLoad
  idleTd : r'.idleTd = r.idleTd
  joined : ∀ u, u ≠ t → r'.joined u = r.joined u
  initial : ∀ u, u ≠ t → r'.initial u = r.initial u
  tdState : ∀ u, u ≠ t → r'.tdState u = r.tdState u
  cls : ∀ u, u ≠ t → r'.cls u = r.cls u
  exited : ∀ u, u ≠ t → r'.exited u = r.exited u

namespace Beside
variable {r r' r'' : Roster} {t : Nat}

theorem refl (r : Roster) (t : Nat) : Beside r r t := by constructor <;> intros <;> rfl

theorem trans (h : Beside r r' t) (h' : Beside r' r'' t) : Beside r r'' t where
  nthreads := h'.nthreads.trans h.nthreads
  idlethread := h'.idlethread.trans h.idlethread
  noLoad := h'.noLoad.trans h.noLoad
  idleTd := h'.idleTd.trans h.idleTd
  joined u other := (h'.joined u other).trans (h.joined u other)
  initial u other := (h'.initial u other).trans (h.initial u other)
  tdState u other := (h'.tdState u other).trans (h.tdState u other)
  cls u other := (h'.cls u other).trans (h.cls u other)
  exited u other := (h'.exited u other).trans (h.exited u other)

end Beside

section beside
variable (r : Roster) (t : Nat)

theorem setState_beside (st : TdState) : Beside r (r.setState t st) t := by
  constructor <;> intros <;> simp_all [setState]

theorem attach_beside : Beside r (r.attach t) t := by
  constructor <;> intros <;> simp_all [attach]

theorem detach_beside : Beside r (r.detach t) t := by
  constructor <;> intros <;> simp_all [detach]

end beside

/-- A roster stays right if a live thread changes and fits again, and the others
find the CPU taken from it or given to it only. -/
theorem Ok.replace {r r' : Roster} {cpu cpu' : Option Nat} {t : Nat} (ok : r.Ok cpu) (beside : Beside r r' t)
    (counted : r'.Counted) (inside : t < r.nthreads) (fits : r'.exited t = false → r'.Fits cpu' t)
    (dead : r'.exited t → r'.joined t = false ∧ t ≠ 1 ∧ cpu' ≠ some t)
    (others : ∀ u, u ≠ t → (cpu' = some u ↔ cpu = some u)) : r'.Ok cpu' where
  counted := counted
  live u below live := by
    by_cases same : u = t
    · subst same
      exact fits live
    · rw [beside.nthreads] at below
      rw [beside.exited u same] at live
      have old := ok.live u below live
      constructor <;> simp only [beside.joined u same, beside.initial u same, beside.tdState u same,
        beside.cls u same, beside.idleTd, others u same]
      · exact old.running
      · exact old.idle
      · exact old.joined
      · exact old.started
      · exact old.only
      · exact old.idleTd
  dead u below gone := by
    by_cases same : u = t
    · subst same
      exact (dead gone).1
    · rw [beside.joined u same]
      exact ok.dead u (beside.nthreads ▸ below) (beside.exited u same ▸ gone)
  unborn u above := by
    rw [beside.nthreads] at above
    have same : u ≠ t := by omega
    rw [beside.joined u same, beside.cls u same, beside.exited u same]
    exact ok.unborn u above
  current u taken := by
    rw [beside.nthreads]
    by_cases same : u = t
    · subst same
      refine ⟨inside, ?_⟩
      by_contra gone
      exact (dead (by simpa using gone)).2.2 taken
    · rw [beside.exited u same]
      exact ok.current u ((others u same).mp taken)
  idle := by
    rw [beside.nthreads, beside.idlethread, beside.idleTd]
    obtain ⟨one, below, live, idleTd⟩ := ok.idle
    refine ⟨one, below, ?_, idleTd⟩
    by_cases same : 1 = t
    · subst same
      by_contra gone
      exact (dead (by simpa using gone)).2.1 rfl
    · rw [beside.exited 1 same]
      exact live

theorem Counted.enough {r : Roster} {t : Nat} (counted : r.Counted) (joined : r.joined t) :
    0 < r.nrRunning ∧ (r.noLoad t = false → 0 < r.nrSysrunning) := by
  obtain ⟨m, mem, count, loaded⟩ := counted
  have inside : t ∈ m := (mem t).mpr joined
  refine ⟨?_, fun loads => ?_⟩
  · rw [count]
    exact Finset.card_pos.mpr ⟨t, inside⟩
  · rw [loaded]
    exact Finset.card_pos.mpr ⟨t, Finset.mem_filter.mpr ⟨inside, loads⟩⟩

theorem Counted.attach {r : Roster} {t : Nat} (counted : r.Counted) (new : r.joined t = false) :
    (r.attach t).Counted := by
  obtain ⟨m, mem, count, loaded⟩ := counted
  have fresh : t ∉ m := by simp [mem, new]
  refine ⟨insert t m, fun u => ?_, ?_, ?_⟩
  · by_cases same : u = t
    · simp [Roster.attach, same]
    · simp [Roster.attach, same, mem]
  · simp [Roster.attach, Finset.card_insert_of_notMem fresh, count]
  · cases loads : r.noLoad t
    · rw [Finset.filter_insert]
      simp [Roster.attach, loads, Finset.card_insert_of_notMem, fresh, loaded]
    · rw [Finset.filter_insert]
      simp [Roster.attach, loads, loaded]

theorem Counted.detach {r : Roster} {t : Nat} (counted : r.Counted) (old : r.joined t) :
    (r.detach t).Counted := by
  obtain ⟨m, mem, count, loaded⟩ := counted
  have inside : t ∈ m := (mem t).mpr old
  refine ⟨m.erase t, fun u => ?_, ?_, ?_⟩
  · by_cases same : u = t
    · simp [Roster.detach, same]
    · simp [Roster.detach, same, mem]
  · simp [Roster.detach, Finset.card_erase_of_mem inside, count]
  · cases loads : r.noLoad t
    · rw [Finset.filter_erase, Finset.card_erase_of_mem (Finset.mem_filter.mpr ⟨inside, loads⟩)]
      simp [Roster.detach, loads, loaded]
    · rw [Finset.filter_erase, Finset.erase_eq_of_notMem (by simp [Roster.detach, loads])]
      simp [Roster.detach, loads, loaded]

theorem Counted.congr {r r' : Roster} (counted : r.Counted) (joined : r'.joined = r.joined)
    (noLoad : r'.noLoad = r.noLoad) (running : r'.nrRunning = r.nrRunning)
    (sysrunning : r'.nrSysrunning = r.nrSysrunning) : r'.Counted := by
  unfold Roster.Counted
  rw [joined, noLoad, running, sysrunning]
  exact counted

/-- On a run queue or on the CPU. -/
def queued (r : Roster) (t : Nat) : Prop := r.tdState t = .runq ∨ r.tdState t = .running

instance (r : Roster) (t : Nat) : Decidable (r.queued t) := inferInstanceAs (Decidable (_ ∨ _))

def setClass (r : Roster) (t : Nat) (cls : SchedClass) : Roster := { r with cls := update r.cls t cls }

/-- A queued thread is dequeued and, if it runs, leaves the CPU. -/
def takeOff (r : Roster) (t : Nat) : Roster :=
  if r.queued t then
    if r.cls t ≠ .idle then r.detach t
    else if r.tdState t = .running then r.setState t .canRun
    else r
  else r

/-- The way back of a thread that was queued, or running. -/
def putOn (r : Roster) (t : Nat) (queued running : Prop) [Decidable queued] [Decidable running] : Roster :=
  let r := if queued ∧ r.cls t ≠ .idle then r.attach t else r
  if running then r.setState t .running else r

section takeOff
variable {r : Roster} {cpu : Option Nat} {t : Nat}

theorem takeOff_beside (r : Roster) (t : Nat) : Beside r (r.takeOff t) t := by
  unfold takeOff
  split
  · split
    · exact detach_beside r t
    · split
      · exact setState_beside r t _
      · exact .refl r t
  · exact .refl r t

theorem takeOff_self (r : Roster) (t : Nat) :
    (r.takeOff t).cls t = r.cls t ∧ (r.takeOff t).initial t = r.initial t ∧ (r.takeOff t).exited t = r.exited t := by
  unfold takeOff
  split_ifs <;> exact ⟨rfl, rfl, rfl⟩

/-- A thread that was taken off is not joined; its state stays as it was, or it is idle. -/
theorem Ok.takeOff (ok : r.Ok cpu) (inside : t < r.nthreads) (live : r.exited t = false) :
    (r.takeOff t).Counted ∧ (r.takeOff t).joined t = false ∧
      (r.cls t ≠ .idle → (r.takeOff t).tdState t = r.tdState t) := by
  have fits := ok.live t inside live
  unfold Roster.takeOff
  split
  · rename_i queued
    split
    · rename_i other
      exact ⟨ok.counted.detach ((fits.joined other).mpr queued), by simp [Roster.detach], fun _ => rfl⟩
    · rename_i idle
      have out := fits.idle (by simpa using idle)
      split
      · exact ⟨ok.counted.congr rfl rfl rfl rfl, out, fun other => absurd other idle⟩
      · exact ⟨ok.counted, out, fun other => absurd other idle⟩
  · rename_i free
    refine ⟨ok.counted, ?_, fun _ => rfl⟩
    by_cases idle : r.cls t = .idle
    · exact fits.idle idle
    · by_contra joined
      exact free ((fits.joined idle).mp (by simpa using joined))

theorem putOn_beside (r : Roster) (t : Nat) (queued running : Prop) [Decidable queued] [Decidable running] :
    Beside r (r.putOn t queued running) t := by
  unfold putOn
  dsimp only
  split_ifs
  · exact (attach_beside r t).trans (setState_beside _ t _)
  · exact setState_beside r t _
  · exact attach_beside r t
  · exact .refl r t

/-- What is then known about the thread itself. -/
theorem putOn_self (r : Roster) (t : Nat) (queued running : Prop) [Decidable queued] [Decidable running] :
    (r.putOn t queued running).joined t = (decide (queued ∧ r.cls t ≠ .idle) || r.joined t) ∧
      (r.putOn t queued running).tdState t =
        (if running then .running else if queued ∧ r.cls t ≠ .idle then .runq else r.tdState t) ∧
      (r.putOn t queued running).cls t = r.cls t ∧ (r.putOn t queued running).initial t = r.initial t ∧
      (r.putOn t queued running).exited t = r.exited t ∧ (r.putOn t queued running).idleTd = r.idleTd := by
  unfold putOn
  dsimp only
  split_ifs <;> simp_all [attach, setState]

theorem setClass_beside (r : Roster) (t : Nat) (cls : SchedClass) : Beside r (r.setClass t cls) t := by
  constructor <;> intros <;> simp_all [setClass]

theorem setClass_self (r : Roster) (t : Nat) : r.setClass t (r.cls t) = r := by
  simp [setClass]

/-- A live thread may be taken off, change its class and be put on again. -/
theorem Ok.recast (ok : r.Ok cpu) (inside : t < r.nthreads) (live : r.exited t = false) {cls : SchedClass}
    (idleTd : cls = .idle → r.idleTd t ∨ r.cls t = .idle) :
    (((r.takeOff t).setClass t cls).putOn t (r.queued t) (r.tdState t = .running)).Ok cpu := by
  have fits := ok.live t inside live
  obtain ⟨counted, out, state⟩ := ok.takeOff inside live
  obtain ⟨cls', initial, exited⟩ := takeOff_self r t
  have counted' : ((r.takeOff t).setClass t cls).Counted := counted.congr rfl rfl rfl rfl
  have out' : ((r.takeOff t).setClass t cls).joined t = false := out
  obtain ⟨joined', state', cls'', initial', exited', idleTd'⟩ :=
    putOn_self ((r.takeOff t).setClass t cls) t (r.queued t) (r.tdState t = .running)
  have alive : (((r.takeOff t).setClass t cls).putOn t (r.queued t) (r.tdState t = .running)).exited t = false :=
    exited'.trans (exited.trans live)
  refine ok.replace ((takeOff_beside r t).trans ((setClass_beside _ t cls).trans (putOn_beside ..))) ?_ inside
    (fun _ => ?_) (fun gone => by simp [alive] at gone) (fun _ _ => Iff.rfl)
  · unfold putOn
    dsimp only
    split_ifs
    · exact (counted'.attach out').congr rfl rfl rfl rfl
    · exact counted'.congr rfl rfl rfl rfl
    · exact counted'.attach out'
    · exact counted'
  · have idle : (r.takeOff t).idleTd = r.idleTd := (takeOff_beside r t).idleTd
    have now : ((r.takeOff t).setClass t cls).cls t = cls := update_self ..
    have out' : ((r.takeOff t).setClass t cls).joined t = false := out
    have state'' : ((r.takeOff t).setClass t cls).tdState t = (r.takeOff t).tdState t := rfl
    have started : ((r.takeOff t).setClass t cls).initial t = r.initial t := initial
    have rest : r.tdState t ≠ .running → (r.takeOff t).tdState t = r.tdState t := by
      intro away
      by_cases other : r.cls t = .idle
      · simp [Roster.takeOff, other, away]
      · exact state other
    have idleTd'' : ((r.takeOff t).setClass t cls).idleTd = r.idleTd := idle
    obtain ⟨running, unjoined, member, fresh, only, idle'⟩ := fits
    unfold queued at *
    constructor <;> grind

end takeOff

end Roster
end SfqSched
