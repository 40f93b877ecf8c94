import SfqSched.BasisPath
import SfqSched.Settings
import SfqSched.Membership

namespace SfqSched
open State Function

section paths
variable {C : Conds} {t : Tid} {s s' : State} {L : List EntId} {d : Option EntId}

/-- Threads stay, and nobody returns from an exit. -/
structure Grown (s s' : State) : Prop where
  nthreads : s.view.nthreads ≤ s'.view.nthreads
  exited : ∀ t, t < s.view.nthreads → s'.view.exited t = false → s.view.exited t = false

theorem Staffed.grown (h : Staffed s s') : Grown s s' := ⟨h.nthreads.ge, fun t _ live => (h.exited t).symm.trans live⟩

theorem Grown.trans {s'' : State} (h : Grown s s') (h' : Grown s' s'') : Grown s s'' where
  nthreads := h.nthreads.trans h'.nthreads
  exited t inside live := h.exited t inside (h'.exited t (inside.trans_le h.nthreads) live)

theorem Micro.grown (inv : Inv C s L d) (step : Micro C s s') : Grown s s' := by
  cases step with
  | flow step => exact (step.steady inv).staffed.grown
  | recast t priClass cls run =>
    rw [run]
    exact (recast_staffed ..).grown
  | switchedFrom t priClass cls run =>
    rw [run]
    exact ((recast_staffed ..).trans (pssSwitchedFrom_steady ..).staffed).grown
  | switchedTo t priClass run =>
    rw [run]
    exact ((recast_staffed ..).trans (addVtime_steady ..).staffed).grown
  | weigh t run =>
    rw [run]
    exact (Staffed.modEnt ..).grown
  | nice p nice range run =>
    rw [run]
    exact ⟨le_rfl, fun _ _ live => live⟩
  | move t onRq run =>
    rw [run]
    exact (pssSchedGroupMove_steady ..).staffed.grown
  | fork parent newProc stale run inside =>
    have look := fork_view inv.core inside newProc stale
    refine ⟨?_, fun t old live => ?_⟩
    · rw [run, look]
      exact Nat.le_succ _
    · rw [run, look] at live
      exact (update_of_ne old.ne ..).symm.trans live
  | exit t run =>
    have look : s'.view.exited = update s.view.exited t true := by
      rw [run, view_modProc, view_modTd]
    refine ⟨by rw [run, view_modProc, view_modTd], fun u _ live => ?_⟩
    rw [look] at live
    by_cases here : u = t
    · rw [here, update_self] at live
      cases live
    · rwa [update_of_ne here] at live
  | setShares g shares run =>
    rw [run]
    exact (Steady.modGrp ..).staffed.grown
  | create parent shares run =>
    rw [run]
    exact ⟨le_rfl, fun _ _ live => live⟩
  | sysctl write tun new run =>
    rw [run]
    exact ⟨le_rfl, fun _ _ live => live⟩

theorem Path.grown (h : Path C s s') : Grown s s' := by
  induction h with
  | refl => exact ⟨le_rfl, fun _ _ live => live⟩
  | step inv micro _ ih => exact (micro.grown inv).trans ih

/-- No operation but a fork makes a vruntime known or loses track of it. -/
theorem Path.followed (h : Path C s s') (unforked : s'.nthreads = s.nthreads)
    (live : t < s.view.nthreads → s'.view.exited t = false) (before : Followed t s) : Followed t s' := by
  induction h with
  | refl => exact before
  | @step a b c _ _ inv micro rest ih =>
    have first := (micro.grown inv).nthreads
    have later := rest.grown
    have same : b.view.nthreads = a.view.nthreads := le_antisymm (later.nthreads.trans unforked.le) first
    have alive (inside : t < a.view.nthreads) : b.view.exited t = false :=
      later.exited t (inside.trans_le first) (live inside)
    exact ih (unforked.trans same.symm) (fun inside => live (same ▸ inside)) (micro.followed inv same alive before)

end paths

section fork
variable {C : Conds} {t p child : Tid} {b : Basis} {s s' : State} {L : List EntId} {newProc : Bool} {stale : SchedEntity}

theorem Follows.silent (h : Follows t .unborn s) (same : s'.books.journal = s.books.journal) : Follows t .unborn s' :=
  ⟨by rw [same]; exact h.read, fun _ _ => .inl (.inl rfl)⟩

/-- A write to a vruntime of which nothing is known, or of another entity. -/
theorem Follows.write (h : Follows t b s) (new : t = child → b = .unborn) {v : BitVec 64}
    (books : s'.books = { s.books with vruntime := update s.books.vruntime (.thread child) v })
    (curr : s'.view.curr = s.view.curr) : Follows t b s' := by
  by_cases here : t = child
  · rw [new here] at h ⊢
    exact h.silent (by rw [books])
  · have other : EntId.thread t ≠ .thread child := fun same => here (EntId.thread.inj same)
    refine h.still [] (by rw [books]; rfl) (by simp) ?_ (by rw [books]) (by rw [books]) fun q there => curr ▸ there
    rw [books]
    exact update_of_ne other ..

theorem schedForkInit_follows (h : Follows t b s) (core : s.view.Core L) (inside : p < s.view.nthreads)
    (new : t = s.nthreads → b = .unborn) : Follows t b (schedForkInit (forkAlloc s p newProc) p s.nthreads stale) := by
  have look := schedForkInit_view core inside newProc stale
  have alloc : (forkAlloc s p newProc).books = s.books := by cases newProc <;> rfl
  have books : (schedForkInit (forkAlloc s p newProc) p s.nthreads stale).books =
      { s.books with
        vruntime := update s.books.vruntime (.thread s.nthreads) stale.vruntime
        timingStart := update s.books.timingStart (.thread s.nthreads) stale.timingStart
        sumExec := update s.books.sumExec (.thread s.nthreads) stale.sumExecTime } := by
    rw [← alloc]
    simp [schedForkInit, setThreadRq, books_modEnt]
  by_cases here : t = s.nthreads
  · rw [new here] at h ⊢
    exact h.silent (by rw [books])
  · have other : EntId.thread t ≠ .thread s.nthreads := fun same => here (EntId.thread.inj same)
    refine h.still [] (by rw [books]; rfl) (by simp) ?_ ?_ (by rw [books]) fun q there => by rwa [look] at there
    · rw [books]
      exact update_of_ne other ..
    · rw [books]
      exact update_of_ne other ..

/-- `pss_fork_thread` without the exchange: the vruntime of the child is relative from its birth. -/
theorem pssForkThread_follows (h : Follows t b s) (first : s.tun.childRunsFirst = false) (new : t = child → b = .unborn)
    (time : ∀ q, s.view.curr q = some (.thread t) → b.On q) (away : ∀ q, s.view.curr q ≠ some (.thread child)) :
    Follows t (if t = child then .relative else b) (pssForkThread s p child) := by
  have place : Follows t b (pssForkPlace s p child) := by
    unfold pssForkPlace
    dsimp only
    have charged := (h.clock time).charge (s.ent (.thread p)).sfq
    generalize updateCurr (updateRqClock s) (s.ent (.thread p)).sfq = a at charged
    have inherits : Follows t b (a.modEnt (.thread child) fun se2 => { se2 with vruntime := (a.ent (.thread p)).vruntime }) :=
      charged.write new (by simp [books_modEnt]; rfl) (by rw [view_modEnt])
    generalize (a.modEnt (.thread child) fun se2 => { se2 with vruntime := (a.ent (.thread p)).vruntime }) = c at inherits
    obtain ⟨w, placed⟩ := placeEntityInitial_books c (s.ent (.thread p)).sfq (.thread child)
    exact inherits.write new placed (by rw [placeEntityInitial_view])
  have tun : (pssForkPlace s p child).tun = s.tun := by
    unfold pssForkPlace
    dsimp only
    refine (placeEntityInitial_steady ..).tun.trans ?_
    exact (updateCurr_steady ..).tun.trans (updateRqClock_steady s).tun
  have look : (pssForkPlace s p child).view = s.view := by simp [pssForkPlace, view_modEnt]
  have unswapped : forkSwaps (pssForkPlace s p child) p child = false := by
    unfold forkSwaps
    rw [tun, first]
    rfl
  unfold pssForkThread
  dsimp only
  rw [unswapped]
  generalize (((if false = true then pssForkSwap (pssForkPlace s p child) p child else pssForkPlace s p child).ent
    (.thread child)).vruntime - _) = v
  change Follows t _
    (((pssForkPlace s p child).modEnt (.thread child) fun se2 => { se2 with vruntime := v }).emit (.born child v true))
  by_cases here : t = child
  · subst here
    rw [if_pos rfl]
    obtain rfl := new rfl
    refine ⟨?_, fun q there => ?_⟩
    · change (reading t (pssForkPlace s p t).books.journal).next t _ = _
      rw [place.read]
      simp [Reading.next, Event.touches, Basis.read, books_emit, books_modEnt]
    · rw [view_emit, view_modEnt] at there
      exact absurd (look ▸ there) (away q)
  · rw [if_neg here]
    have written : Follows t b ((pssForkPlace s p child).modEnt (.thread child) fun se2 => { se2 with vruntime := v }) :=
      place.write new (by simp [books_modEnt]; rfl) (by rw [view_modEnt])
    exact written.emit _ (decide_eq_false (Ne.symm here))

/-- A fork of a thread of `pss_class` makes the child known, with a relative vruntime. -/
theorem fork_followed {cpu : Option Tid} (stands : Stands C s cpu) (inside : p < s.view.nthreads)
    (first : s.tun.childRunsFirst = false) (h : Followed t s) : Followed t (fork s p newProc stale) := by
  obtain ⟨b, h, fits⟩ := h
  have core := stands.inv.core
  have look := fork_view core inside newProc stale
  have grows : s.view.nthreads ≤ (s.view.born p).nthreads := Nat.le_succ _
  have joined := core.unborn.joined
  have time := stands.busy.time stands.inv
  have new : t = s.nthreads → b = .unborn := by
    intro here
    by_contra known
    exact absurd (fits.known known).2 (by rw [here]; exact lt_irrefl _)
  have away (q : Gid) : s.view.curr q ≠ some (.thread s.view.nthreads) := fun there =>
    Bool.noConfusion (joined.symm.trans (time q _ there (.inr ⟨_, rfl⟩)))
  have timed (q : Gid) (there : s.view.curr q = some (.thread t)) : b.On q := by
    have based := fits.on_queue (View.absolute_joined (time q _ there (.inr ⟨t, rfl⟩)) (core.currPss q _ there))
    rwa [((core.curr q _).mp there).2] at based
  have init : Follows t b (schedForkInit (forkAlloc s p newProc) p s.nthreads stale) := schedForkInit_follows h core inside new
  have place := schedForkInit_view core inside newProc stale
  have tun : (schedForkInit (forkAlloc s p newProc) p s.nthreads stale).tun = s.tun := by cases newProc <;> rfl
  have others (here : t ≠ s.view.nthreads) : b.Fits (s.view.born p) t := by
    have bearing : (s.view.born p).bearing t = s.view.bearing t := by simp [View.bearing, View.born, here]
    have alike : b.Fits { s.view.born p with nthreads := s.view.nthreads } t := fits.same rfl bearing
    refine ⟨fun known => ⟨(fits.known known).1, (fits.known known).2.trans_le grows⟩, ?_, ?_⟩
    · exact alike.relative
    · exact alike.absolute
  have result : ∃ b', Follows t b' (fork s p newProc stale) ∧ (b' = .unborn ∨ (t = s.view.nthreads ∧ b' = .relative) ∨
      (t ≠ s.view.nthreads ∧ b' = b)) := by
    unfold fork schedForkThread
    dsimp only
    split
    · refine ⟨_, pssForkThread_follows init (by rw [tun]; exact first) new ?_ ?_, ?_⟩
      · rw [place]
        exact timed
      · rw [place]
        exact away
      · by_cases here : t = s.nthreads
        · exact .inr (.inl ⟨here, if_pos here⟩)
        · exact .inr (.inr ⟨here, if_neg here⟩)
    · by_cases here : t = s.nthreads
      · rw [new here] at init
        exact ⟨_, init.unknown _ rfl (by simp), .inl rfl⟩
      · exact ⟨b, init.emit _ (decide_eq_false (Ne.symm here)), .inr (.inr ⟨here, rfl⟩)⟩
  obtain ⟨b', follows, rfl | ⟨here, rfl⟩ | ⟨here, rfl⟩⟩ := result
  · exact ⟨_, follows, .of_unborn⟩
  · have two : 1 < s.view.nthreads := stands.roster.idle.2.1
    refine ⟨_, follows, .of_relative ?_ fun absolute => ?_⟩
    · rw [look, here]
      exact ⟨two, Nat.lt_succ_self _⟩
    · rw [look, here] at absolute
      rcases absolute.2 with there | ⟨started, _⟩
      · exact Bool.noConfusion (joined.symm.trans there)
      · exact Bool.noConfusion ((update_self ..).symm.trans started)
  · exact ⟨_, follows, look ▸ others here⟩

end fork

section protocol
variable {k : Kernel} {tun : Tunables} {ops : List Op} {s : State}

theorem sysctlWrite_first {tun' : Tunables} {write : Sysctl} (new : sysctlWrite tun write = some tun')
    (kept : write ≠ .childRunsFirst true) (first : tun.childRunsFirst = false) : tun'.childRunsFirst = false := by
  cases write with
  | childRunsFirst v =>
    cases new
    cases v with
    | false => rfl
    | true => exact absurd rfl kept
  | schedLatency v =>
    simp only [sysctlWrite, sysctlSchedLatency] at new
    split at new
    · cases new
      exact first
    · split at new
      · cases new
      · cases new
        exact first
  | schedMinGranularity v =>
    simp only [sysctlWrite, sysctlSchedMinGranularity] at new
    split at new
    · cases new
      exact first
    · split at new
      · cases new
      · cases new
        exact first
  | _ =>
    cases new
    exact first

theorem fork_tun (s : State) (p : Tid) (newProc : Bool) (stale : SchedEntity) : (fork s p newProc stale).tun = s.tun := by
  have init : (schedForkInit (forkAlloc s p newProc) p s.nthreads stale).tun = s.tun := by cases newProc <;> rfl
  unfold fork schedForkThread
  dsimp only
  split
  · exact (pssForkThread_steady ..).tun.trans init
  · exact init

/-- While no fork exchanges vruntimes, those of all threads can be followed. -/
theorem Runs.followed {C : Conds} (runs : Runs C k tun ops s) (first : tun.childRunsFirst = false)
    (kept : Op.sysctl (.childRunsFirst true) ∉ ops) :
    s.tun.childRunsFirst = false ∧ ∀ t, (t < s.view.nthreads → s.view.exited t = false) → Followed t s := by
  induction runs with
  | @boot s start =>
    have path : Path C (bootQueues k tun) s := (schedSetup_settled k tun start).1
    have settings : s.settings = (bootQueues k tun).settings := by
      unfold schedSetup at start
      obtain ⟨a, enq, act⟩ := Option.bind_eq_some_iff.mp start
      exact start_settings enq act
    have tunables := congrArg Settings.tun settings
    have threads := congrArg Settings.nthreads settings
    refine ⟨(congrArg Tunables.childRunsFirst tunables).trans first, fun t live => ?_⟩
    refine path.followed threads (fun inside => ?_) ?_
    · exact live (inside.trans_eq threads.symm)
    · exact ⟨.unborn, ⟨rfl, fun _ _ => .inl (.inl rfl)⟩, .of_unborn⟩
  | @op ops s s' op before meets step ih =>
    obtain ⟨earlier, followed⟩ := ih fun member => kept (List.mem_append_left _ member)
    have path := (step_reached before.settled meets step).1
    have grown := path.grown
    have alive {t : Tid} (live : t < s'.view.nthreads → s'.view.exited t = false) (inside : t < s.view.nthreads) :
        s'.view.exited t = false := live (inside.trans_le grown.nthreads)
    have known {t : Tid} (live : t < s'.view.nthreads → s'.view.exited t = false) : Followed t s :=
      followed t fun inside => grown.exited t inside (alive live inside)
    have steady (same : s'.tun = s.tun) (threads : s'.nthreads = s.nthreads) : s'.tun.childRunsFirst = false ∧
        ∀ t, (t < s'.view.nthreads → s'.view.exited t = false) → Followed t s' :=
      ⟨(congrArg Tunables.childRunsFirst same).trans earlier, fun t live =>
        path.followed threads (alive live) (known live)⟩
    by_cases modest : op.modest
    · have settings := step_settings modest step
      exact steady (congrArg Settings.tun settings) (congrArg Settings.nthreads settings)
    · unfold SfqSched.step at step
      split at step
      · rename_i enabled
        cases op with
        | fork p newProc stale =>
          simp only [Op.enabled, State.live, Bool.and_eq_true, decide_eq_true_eq] at enabled
          cases step
          refine ⟨(congrArg Tunables.childRunsFirst (fork_tun ..)).trans earlier, fun t live => ?_⟩
          exact fork_followed before.settled.stands enabled.1.1 earlier (known live)
        | sysctl write =>
          obtain ⟨tun', new, rfl⟩ := Option.map_eq_some_iff.mp step
          refine ⟨sysctlWrite_first new ?_ earlier, fun t live => ?_⟩
          · rintro rfl
            exact kept (by simp)
          · exact (known live).still rfl rfl rfl rfl
        | groupMove t g =>
          have settings := sysctlMoveThread_settings step
          split at settings
          · exact steady (congrArg Settings.tun settings) (congrArg Settings.nthreads settings)
          · exact steady (congrArg Settings.tun settings) (congrArg Settings.nthreads settings)
        | throw =>
          have settings := schedThrow_settings step
          exact steady (congrArg Settings.tun settings) (congrArg Settings.nthreads settings)
        | exitThread t =>
          cases step
          exact steady rfl rfl
        | groupCreate g shares =>
          cases step
          exact steady rfl rfl
        | _ => exact absurd rfl modest
      · cases step

/-- The vruntime of a thread forked by a thread of `pss_class` alternates between relative and absolute, and whether
it is absolute can be seen of the thread between any two operations. -/
theorem vruntime_protocol (k : Kernel) (tun : Tunables) (ops : List Op) (s : State) (ran : run k tun ops = some s)
    (first : tun.childRunsFirst = false) (kept : Op.sysctl (.childRunsFirst true) ∉ ops) (t : Tid) (v : BitVec 64)
    (born : .born t v true ∈ s.journal) (live : (s.td t).exited = false) :
    Alternates t (.born t v true) s.journal ∧
      (s.view.absolute t → reading t s.journal = .absolute (s.ent (.thread t)).sfq (s.ent (.thread t)).vruntime) ∧
      (¬s.view.absolute t → reading t s.journal = .relative (s.ent (.thread t)).vruntime) := by
  obtain ⟨b, follows, fits⟩ := ((run_free ran).followed first kept).2 t fun _ => live
  have read : reading t s.journal = b.read (s.ent (.thread t)).vruntime := follows.read
  have known := reading_born born
  rw [read] at known
  refine ⟨alternates ?_, fun absolute => ?_, fun apart => ?_⟩
  · rw [read]
    cases b <;> simp [Basis.read]
  · rcases fits.on_queue absolute with rfl | rfl
    · exact absurd rfl known
    · exact read
  · rcases fits.off_queue apart with rfl | rfl
    · exact absurd rfl known
    · exact read

/-- A child is moved to another group while it waits, runs and falls asleep there; the sleeper becomes a realtime thread,
then a timeshare thread again, and wakes up. -/
def wanderer : List Op :=
  [.groupCreate 0 0, .fork 0 false {}, .add 2, .groupMove 2 1, .switch 0, .sleep 0, .schedClass 2 .realtime,
    .schedClass 2 .timeshare, .add 2]

theorem vruntime_protocol_wanderer :
    ∃ s v, run plainKernel {} wanderer = some s ∧ .born 2 v true ∈ s.journal ∧ Alternates 2 (.born 2 v true) s.journal ∧
      reading 2 s.journal = .absolute 1 (s.ent (.thread 2)).vruntime := by
  have ends : ((run plainKernel {} wanderer).map fun s =>
      (decide (reading 2 s.journal = .unborn), (s.td 2).exited, (s.td 2).cls, (s.ent (.thread 2)).joined,
        (s.ent (.thread 2)).sfq)) = some (false, false, .pss, true, 1) := by decide +kernel
  obtain ⟨s, ran, ends⟩ := Option.map_eq_some_iff.mp ends
  simp only [Prod.mk.injEq, decide_eq_false_iff_not] at ends
  obtain ⟨known, live, pss, joined, place⟩ := ends
  obtain ⟨v, born⟩ := reading_known known
  obtain ⟨alternates, absolute, _⟩ :=
    vruntime_protocol plainKernel {} wanderer s ran rfl (by simp [wanderer]) 2 v born live
  refine ⟨s, v, ran, born, alternates, ?_⟩
  rw [absolute (View.absolute_joined joined pss), place]

end protocol

end SfqSched
