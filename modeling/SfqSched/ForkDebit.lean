import SfqSched.UnstartedRun
import SfqSched.RunQueues

namespace SfqSched
open State Function

section slices
variable (s : State) (q : Gid) (e : EntId)

theorem scaleByWeight_le (d w : Nat) (lw : LoadWeight) : (scaleByWeight d w lw).1 ≤ longMax := Nat.min_le_right ..

theorem schedSliceLevel_le (slice : Nat) : (schedSliceLevel slice s e).1 ≤ longMax := by
  unfold schedSliceLevel
  dsimp only
  split <;> exact scaleByWeight_le ..

theorem schedSliceFold_le (chain : List EntId) (acc : Nat × State) (le : acc.1 ≤ longMax) :
    (chain.foldl (fun acc se => schedSliceLevel acc.1 acc.2 se) acc).1 ≤ longMax := by
  induction chain generalizing acc with
  | nil => exact le
  | cons se rest ih => exact ih _ (schedSliceLevel_le ..)

theorem scaleDelta_le {d : Nat} (le : d ≤ longMax) : (scaleDelta s d e).1 ≤ longMax := by
  unfold scaleDelta
  split
  · exact le
  · exact scaleByWeight_le ..

/-- A slice that was scaled at least once is a `long`. -/
theorem schedVslice_le : (schedVslice s q e).1 ≤ longMax := by
  unfold schedVslice
  refine scaleDelta_le _ _ ?_
  exact schedSliceFold_le _ _ (schedSliceLevel_le ..)

theorem schedSliceLevel_vtime (slice : Nat) (x : Gid) :
    ((schedSliceLevel slice s e).2.sfq x).vtime = (s.sfq x).vtime := by
  unfold schedSliceLevel
  dsimp only
  split
  · by_cases here : x = (s.ent e).sfq
    · simp [State.modSfq, here]
    · simp only [State.modSfq, update_of_ne here]
  · rfl

theorem schedSliceFold_vtime (chain : List EntId) (acc : Nat × State) (x : Gid) :
    ((chain.foldl (fun acc se => schedSliceLevel acc.1 acc.2 se) acc).2.sfq x).vtime = (acc.2.sfq x).vtime := by
  induction chain generalizing acc with
  | nil => rfl
  | cons se rest ih => exact (ih _).trans (schedSliceLevel_vtime ..)

theorem schedVslice_vtime (x : Gid) : ((schedVslice s q e).2.sfq x).vtime = (s.sfq x).vtime := by
  have scaled (s : State) (d : Nat) : ((scaleDelta s d e).2.sfq x).vtime = (s.sfq x).vtime := by
    unfold scaleDelta
    split <;> rfl
  unfold schedVslice
  exact (scaled ..).trans ((schedSliceFold_vtime ..).trans (schedSliceLevel_vtime ..))

end slices

/-- The larger of two vruntimes is no less than the second, unless the first is so far
behind that it seems to be ahead. -/
theorem maxVruntime_ahead {x vtime : BitVec 64} {vslice : Nat} (le : vslice ≤ longMax) :
    (vslice : Int) ≤ sdiff (maxVruntime x (vtime + BitVec.ofNat 64 vslice)) vtime ↔
      (vslice : Int) - 2 ^ 63 < sdiff x vtime := by
  have short : vslice < 2 ^ 63 := by
    unfold longMax at le
    omega
  have w : (BitVec.ofNat 64 vslice).toInt = vslice := by
    rw [BitVec.toInt_ofNat']
    unfold Int.bmod
    dsimp only
    split <;> omega
  have least : -2 ^ 63 ≤ sdiff x vtime := BitVec.le_toInt _
  have most : sdiff x vtime < 2 ^ 63 := BitVec.toInt_lt
  have self : sdiff (vtime + BitVec.ofNat 64 vslice) vtime = vslice := by
    unfold sdiff
    rw [show vtime + BitVec.ofNat 64 vslice - vtime = BitVec.ofNat 64 vslice by grind, w]
  have past : sdiff (vtime + BitVec.ofNat 64 vslice) x = (vslice - sdiff x vtime).bmod (2 ^ 64) := by
    have regroup : vtime + BitVec.ofNat 64 vslice - x = BitVec.ofNat 64 vslice - (x - vtime) := by grind
    unfold sdiff
    rw [regroup, BitVec.toInt_sub, w]
  -- the difference of the two wraps exactly if the first is too far behind
  have wrap : (vslice - sdiff x vtime).bmod (2 ^ 64) =
      if (vslice : Int) - 2 ^ 63 < sdiff x vtime then vslice - sdiff x vtime else vslice - sdiff x vtime - 2 ^ 64 := by
    unfold Int.bmod
    dsimp only
    split <;> split <;> omega
  unfold maxVruntime
  rw [past, wrap]
  by_cases near : (vslice : Int) - 2 ^ 63 < sdiff x vtime
  · simp only [near, if_true, iff_true]
    split
    · exact self.ge
    · omega
  · simp only [near, if_false, iff_false]
    rw [if_neg (by omega)]
    omega

/-- The queue of the forking thread, on which `pss_fork_thread` places the child. -/
def forkQueue (s : State) (p : Tid) : Gid := (s.ent (.thread p)).sfq

/-- The state in which `pss_fork_thread` calls `place_entity`. -/
def forkStart (s : State) (p : Tid) (newProc : Bool) (stale : SchedEntity) : State :=
  let child := s.nthreads
  let q := forkQueue s p
  let s := schedForkInit (forkAlloc s p newProc) p child stale
  let s := updateCurr (updateRqClock s) q
  s.modEnt (.thread child) fun se2 => { se2 with vruntime := (s.ent (.thread p)).vruntime }

/-- The child's `sched_vslice` at the fork. -/
def forkVslice (s : State) (p : Tid) (newProc : Bool) (stale : SchedEntity) : Nat :=
  (schedVslice (forkStart s p newProc stale) (forkQueue s p) (.thread s.nthreads)).1

/-- When a fork leaves the child behind its queue: a timeshare parent is not so far behind the
queue that its vruntime seems to be ahead, and another parent's child is given enough by chance. -/
def Debited (s : State) (p : Tid) (newProc : Bool) (stale : SchedEntity) : Prop :=
  if (s.td p).cls = .pss then
    (forkVslice s p newProc stale : Int) - 2 ^ 63 <
      sdiff ((forkStart s p newProc stale).ent (.thread p)).vruntime
        ((forkStart s p newProc stale).sfq (forkQueue s p)).vtime
  else (forkVslice s p newProc stale : Int) ≤ stale.vruntime.toInt

instance (s : State) (p : Tid) (newProc : Bool) (stale : SchedEntity) : Decidable (Debited s p newProc stale) := by
  unfold Debited
  infer_instance

section fork
variable {s : State} {p : Tid} {newProc : Bool} {stale : SchedEntity}

variable (newProc) in
theorem forkAlloc_parent (inside : p < s.nthreads) :
    (forkAlloc s p newProc).td p = s.td p ∧ (forkAlloc s p newProc).ent = s.ent := by
  have other : p ≠ s.view.nthreads := inside.ne
  cases newProc <;> simp [forkAlloc, State.modTd, State.modProc, other]

variable (newProc stale) in
/-- The parent's own records at the fork, and what is left in the child's vruntime. -/
theorem schedForkInit_parent (inside : p < s.nthreads) :
    ((schedForkInit (forkAlloc s p newProc) p s.nthreads stale).td p).cls = (s.td p).cls ∧
      (schedForkInit (forkAlloc s p newProc) p s.nthreads stale).ent (.thread p) = s.ent (.thread p) ∧
      ((schedForkInit (forkAlloc s p newProc) p s.nthreads stale).ent (.thread s.nthreads)).vruntime = stale.vruntime ∧
      (schedForkInit (forkAlloc s p newProc) p s.nthreads stale).tun = s.tun := by
  have other : p ≠ s.view.nthreads := inside.ne
  obtain ⟨td, ent⟩ := forkAlloc_parent newProc inside
  have tun : (forkAlloc s p newProc).tun = s.tun := by cases newProc <;> rfl
  simp [schedForkInit, setThreadRq, State.modTd, State.modGrp, State.modEnt, other, td, ent, tun]

theorem pssForkPlace_eq (inside : p < s.nthreads) :
    pssForkPlace (schedForkInit (forkAlloc s p newProc) p s.nthreads stale) p s.nthreads =
      placeEntityInitial (forkStart s p newProc stale) (forkQueue s p) (.thread s.nthreads) := by
  obtain ⟨_, ent, _, _⟩ := schedForkInit_parent newProc stale inside
  unfold pssForkPlace forkStart forkQueue
  rw [ent]

variable (newProc stale) in
theorem forkStart_steady (inside : p < s.nthreads) :
    (forkStart s p newProc stale).tun = s.tun ∧
      ((forkStart s p newProc stale).ent (.thread s.nthreads)).vruntime =
        ((forkStart s p newProc stale).ent (.thread p)).vruntime := by
  obtain ⟨_, _, _, tun⟩ := schedForkInit_parent newProc stale inside
  have other : p ≠ s.view.nthreads := inside.ne
  refine ⟨(updateCurr_steady ..).tun.trans tun, ?_⟩
  simp [forkStart, State.modEnt, other]

/-- `pss_fork_thread` leaves the child's distance from the queue. -/
theorem fork_relative (inside : p < s.nthreads) (pss : (s.td p).cls = .pss) (debit : s.tun.startDebit = true)
    (last : s.tun.childRunsFirst = false) :
    ((fork s p newProc stale).ent (.thread s.nthreads)).vruntime =
      maxVruntime ((forkStart s p newProc stale).ent (.thread p)).vruntime
          (((forkStart s p newProc stale).sfq (forkQueue s p)).vtime + BitVec.ofNat 64 (forkVslice s p newProc stale)) -
        ((forkStart s p newProc stale).sfq (forkQueue s p)).vtime := by
  obtain ⟨cls, ent, _, _⟩ := schedForkInit_parent newProc stale inside
  obtain ⟨tun, twin⟩ := forkStart_steady newProc stale inside
  have queue : ((schedForkInit (forkAlloc s p newProc) p s.nthreads stale).ent (.thread p)).sfq = forkQueue s p := by
    rw [ent]
    rfl
  have stays : forkSwaps (placeEntityInitial (forkStart s p newProc stale) (forkQueue s p) (.thread s.nthreads)) p
      s.nthreads = false := by
    unfold forkSwaps
    rw [(placeEntityInitial_steady ..).tun, tun, last]
    rfl
  unfold fork schedForkThread
  dsimp only
  rw [if_pos (cls.trans pss)]
  unfold pssForkThread
  dsimp only
  rw [pssForkPlace_eq inside, stays, queue, if_neg Bool.false_ne_true]
  unfold placeEntityInitial
  rw [tun, debit, if_pos rfl, ← twin]
  -- place_entity writes nothing else that the subtraction reads
  have old : ((schedVslice (forkStart s p newProc stale) (forkQueue s p) (.thread s.nthreads)).2.ent
      (.thread s.nthreads)).vruntime = ((forkStart s p newProc stale).ent (.thread s.nthreads)).vruntime :=
    congrFun (congrArg Books.vruntime (schedVslice_books ..)) _
  have vtime := schedVslice_vtime (forkStart s p newProc stale) (forkQueue s p) (.thread s.nthreads) (forkQueue s p)
  simp only [State.emit, State.modEnt, update_self]
  rw [old, vtime]
  rfl

/-- Another class leaves what was there. -/
theorem fork_stale (inside : p < s.nthreads) (other : (s.td p).cls ≠ .pss) :
    ((fork s p newProc stale).ent (.thread s.nthreads)).vruntime = stale.vruntime := by
  obtain ⟨cls, _, old, _⟩ := schedForkInit_parent newProc stale inside
  unfold fork schedForkThread
  dsimp only
  rw [if_neg (by rw [cls]; exact other)]
  exact old

/-- What a fork leaves in the child's vruntime is at least its slice exactly when the child is debited. -/
theorem fork_debited (inside : p < s.nthreads) (debit : s.tun.startDebit = true) (last : s.tun.childRunsFirst = false) :
    (forkVslice s p newProc stale : Int) ≤ ((fork s p newProc stale).ent (.thread s.nthreads)).vruntime.toInt ↔
      Debited s p newProc stale := by
  unfold Debited
  by_cases pss : (s.td p).cls = .pss
  · rw [if_pos pss, fork_relative inside pss debit last]
    exact maxVruntime_ahead (schedVslice_le ..)
  · rw [if_neg pss, fork_stale inside pss]

end fork

section child
variable {s s' : State} {p : Tid} {newProc : Bool} {stale : SchedEntity}

/-- A child starts its life apart from the queues. -/
theorem View.unstarted_born {L : List EntId} {cpu : Option Tid} (core : s.view.Core L) (roster : s.view.roster.Ok cpu)
    (groups : Groups s) (inside : p < s.view.nthreads) (live : s.view.exited p = false) (notIdle : s.view.idleTd p = false)
    (away : EntId.thread s.view.nthreads ∉ L) : (s.view.born p).Unstarted s.view.nthreads := by
  have busy : s.view.cls p ≠ .idle := fun idle => by
    have one := (roster.live p inside live).only idle
    have idleTd : s.view.idleTd 1 = true := roster.idle.2.2.2
    rw [one, idleTd] at notIdle
    cases notIdle
  have upper : seOf (s.view.tdGroup p) ≠ some (.thread s.view.nthreads) := by
    unfold seOf
    split <;> simp
  refine ⟨⟨fun q current => ?_, fun e => ?_, fun g up => ?_⟩, Nat.lt_succ_self _, ?_, core.unborn.joined, ?_, ?_, ?_⟩
  · exact away ((core.curr q _).mp current).1
  · by_cases new : e = .thread s.view.nthreads
    · simpa [View.born, new] using upper
    · intro up
      have old : s.view.parent e = some (.thread s.view.nthreads) := by simpa [View.born, new] using up
      obtain ⟨_, never⟩ := groups.parent e _ old
      cases never
  · obtain ⟨_, never⟩ := groups.se g _ up
    cases never
  · simp [View.born]
  · simp [View.born, View.resting]
  · simpa [View.born] using busy
  · simp [View.born]

end child

/-- The operations that change the class or the group of `t`. -/
def Op.moves (t : Tid) : Op → Prop
  | .schedClass u _ => u = t
  | .groupMove u _ => u = t
  | _ => False

theorem Op.moves_not_starts {t : Tid} {op : Op} (moves : op.moves t) : ¬op.starts t := by
  cases op <;> first | exact id | exact moves.elim

/-- A new thread starts at least its slice behind the vtime of the queue it is added to exactly
when its fork debited it, whatever happens in between. -/
theorem child_starts_behind (k : Kernel) (tun : Tunables) (ops : List Op) (s : State) (ran : run k tun ops = some s)
    (p : Tid) (newProc : Bool) (stale : SchedEntity) (debit : s.tun.startDebit = true)
    (last : s.tun.childRunsFirst = false) (others : List Op) (alone : ∀ op ∈ others, ¬op.starts s.nthreads) (a b : State)
    (waited : runFrom s (.fork p newProc stale :: others) = some a) (pss : (a.td s.nthreads).cls = .pss)
    (added : step a (.add s.nthreads) = some b) :
    (forkVslice s p newProc stale : Int) ≤
        sdiff (b.ent (.thread s.nthreads)).vruntime (a.sfq (a.ent (.thread s.nthreads)).sfq).vtime ↔
      Debited s p newProc stale := by
  have settled := (run_free ran).settled
  have groups := (run_seated ops ran).1.groups
  unfold runFrom at waited
  rw [List.foldlM_cons] at waited
  obtain ⟨c, forked, waited⟩ := Option.bind_eq_some_iff.mp waited
  have settled' := step_settled settled (Op.meets_free ..) forked
  unfold step at forked
  split at forked
  · rename_i enabled
    simp only [Op.enabled, State.live, Bool.and_eq_true, decide_eq_true_eq, Bool.not_eq_true'] at enabled
    obtain ⟨⟨inside, live⟩, notIdle⟩ := enabled
    cases forked
    have core := settled.stands.inv.core
    have there := settled.stands.roster.current s.curthread rfl
    have off : some s.curthread ≠ some s.view.nthreads := fun same => there.1.ne (Option.some.inj same)
    have born : (fork s p newProc stale).view.Unstarted s.nthreads := by
      rw [fork_view core inside]
      exact View.unstarted_born core settled.stands.roster groups inside live notIdle (settled.stands.away off)
    obtain ⟨_, spares⟩ := runFrom_spares settled' alone waited
    obtain ⟨unstarted, vruntime⟩ := spares.unstarted born
    have kept : (a.ent (.thread s.nthreads)).vruntime = ((fork s p newProc stale).ent (.thread s.nthreads)).vruntime :=
      vruntime
    have back (x y : BitVec 64) : sdiff (x + y) y = x.toInt := by
      unfold sdiff
      rw [show x + y - y = x by grind]
    rw [add_unstarted unstarted pss added, back, kept]
    exact fork_debited inside debit last
  · cases forked

theorem child_starts_behind_timeshare :
    ∃ s a b, run plainKernel {} [] = some s ∧
      runFrom s [.fork 0 false {}, .schedClass 2 .realtime, .groupMove 2 0, .schedClass 2 .timeshare] = some a ∧
      step a (.add 2) = some b ∧
      ((forkVslice s 0 false {} : Int) ≤ sdiff (b.ent (.thread 2)).vruntime (a.sfq (a.ent (.thread 2)).sfq).vtime ↔
        Debited s 0 false {}) := by
  have ends : ((run plainKernel {} []).bind fun s =>
      (runFrom s [.fork 0 false {}, .schedClass 2 .realtime, .groupMove 2 0, .schedClass 2 .timeshare]).bind fun a =>
        (step a (.add 2)).map fun _ => (s.nthreads, s.tun.startDebit, s.tun.childRunsFirst, (a.td 2).cls)) =
      some (2, true, false, .pss) := by decide +kernel
  obtain ⟨s, ran, ends⟩ := Option.bind_eq_some_iff.mp ends
  obtain ⟨a, waited, ends⟩ := Option.bind_eq_some_iff.mp ends
  obtain ⟨b, added, ends⟩ := Option.map_eq_some_iff.mp ends
  simp only [Prod.mk.injEq] at ends
  obtain ⟨two, debit, last, pss⟩ := ends
  refine ⟨s, a, b, ran, waited, added, ?_⟩
  have moves : ∀ op ∈ [Op.schedClass 2 .realtime, .groupMove 2 0, .schedClass 2 .timeshare], ¬op.starts s.nthreads := by
    rw [two]
    intro op member
    refine Op.moves_not_starts ?_
    simp only [List.mem_cons, List.not_mem_nil, or_false] at member
    rcases member with rfl | rfl | rfl <;> rfl
  have behind := child_starts_behind plainKernel {} [] s ran 0 false {} debit last _ moves a b waited
  rw [two] at behind
  exact behind pss added

/-- A realtime thread runs, and so may its children. -/
def realtimeParent : List Op := [.fork 0 false {}, .schedClass 2 .realtime]

/-- The child of a realtime thread that becomes a timeshare thread owes nothing. -/
theorem child_of_realtime :
    ¬ ∀ (k : Kernel) (tun : Tunables) (ops : List Op) (s : State), run k tun ops = some s →
      ∀ (p : Tid) (newProc : Bool) (stale : SchedEntity), s.tun.startDebit = true → s.tun.childRunsFirst = false →
      ∀ moves : List Op, (∀ op ∈ moves, op.moves s.nthreads) → ∀ a b : State,
      runFrom s (.fork p newProc stale :: moves) = some a → (a.td s.nthreads).cls = .pss →
      step a (.add s.nthreads) = some b →
      (forkVslice s p newProc stale : Int) ≤
        sdiff (b.ent (.thread s.nthreads)).vruntime (a.sfq (a.ent (.thread s.nthreads)).sfq).vtime := by
  intro claimed
  have ends : ((run plainKernel {} realtimeParent).bind fun s =>
      (runFrom s [.fork 2 false {}, .schedClass 3 .timeshare]).bind fun a => (step a (.add 3)).map fun b =>
        ((s.nthreads, s.tun.startDebit, s.tun.childRunsFirst, (a.td 3).cls),
          forkVslice s 2 false {}, sdiff (b.ent (.thread 3)).vruntime (a.sfq (a.ent (.thread 3)).sfq).vtime)) =
      some ((3, true, false, .pss), 3000000, 0) := by decide +kernel
  obtain ⟨s, ran, ends⟩ := Option.bind_eq_some_iff.mp ends
  obtain ⟨a, waited, ends⟩ := Option.bind_eq_some_iff.mp ends
  obtain ⟨b, added, ends⟩ := Option.map_eq_some_iff.mp ends
  simp only [Prod.mk.injEq] at ends
  obtain ⟨⟨three, debit, last, pss⟩, vslice, none⟩ := ends
  have moves : ∀ op ∈ [Op.schedClass 3 .timeshare], op.moves s.nthreads := by
    rw [three]
    simp [Op.moves]
  have behind := claimed _ _ _ s ran 2 false {} debit last _ moves a b waited
  rw [three] at behind
  have credit := behind pss added
  rw [vslice, none] at credit
  exact absurd credit (by decide)

end SfqSched
