import SfqSched.WakeupSwitch

namespace SfqSched
open State Function

/-- `sched_switch` of a running thread up to the choice of the next one. -/
def switchOut (s : State) (flags : Nat) : Option State :=
  putPrevThread (s.modTd s.curthread fun td => { td with needResched := false, owePreempt := false }) s.curthread flags

theorem schedSwitch_switchOut {s : State} (flags : Nat) (running : (s.td s.curthread).tdState = .running) :
    schedSwitch s s.curthread flags = (switchOut s flags).bind chooseThread := by
  have same : ((s.modTd s.curthread fun td => { td with needResched := false, owePreempt := false }).td s.curthread).tdState =
      .running := by
    simp only [State.modTd, update_self]
    exact running
  unfold schedSwitch switchOut
  dsimp only
  rw [if_pos same]
  rfl

section skip
variable {s s' : State} {e : EntId} {flags : Nat}

/-- The skip marks of a yield go up to the first queue with other entities. -/
theorem setSkipWalk_skip {low up : List EntId} (apart : (low ++ e :: up).Pairwise fun a b => s.view.sfq a ≠ s.view.sfq b)
    (alone : ∀ x ∈ low, s.view.nr (s.view.sfq x) ≤ 1) (crowded : 1 < s.view.nr (s.view.sfq e)) :
    (setSkipWalk s (low ++ e :: up)).books.skip (s.view.sfq e) = some e := by
  induction low generalizing s with
  | nil =>
    rw [List.nil_append]
    unfold setSkipWalk
    dsimp only
    have others : (s.sfq (s.ent e).sfq).nrRunning > 1 := crowded
    rw [if_pos others]
    change ((s.modSfq (s.ent e).sfq _).sfq (s.ent e).sfq).skip = _
    simp [State.modSfq, Sfq.setCandidate]
  | cons x low ih =>
    rw [List.cons_append]
    unfold setSkipWalk
    dsimp only
    have single : ¬(s.sfq (s.ent x).sfq).nrRunning > 1 := Nat.not_lt.mpr (alone x (List.mem_cons_self ..))
    rw [if_neg single]
    have view : (s.modSfq (s.ent x).sfq fun sfq => sfq.setCandidate .skip (some x)).view = s.view := by simp
    have rest := ih (s := s.modSfq (s.ent x).sfq fun sfq => sfq.setCandidate .skip (some x))
    rw [view] at rest
    exact rest (List.pairwise_cons.mp apart).2 (fun y member => alone y (List.mem_cons_of_mem _ member)) crowded

theorem updateCurr_skip (s : State) (q : Gid) : (updateCurr s q).books.skip = s.books.skip := by
  rcases updateCurr_books s q with ⟨same, _⟩ | ⟨_, _, _, _, paid⟩
  · rw [same]
  · rw [paid]
    rfl

/-- Putting an entity back keeps the skip marks that are there after those of a yield. -/
theorem putPrevEntity_skip (hier : s.view.Hier) {q : Gid} (joined : s.view.joined e) (run : putPrevEntity s q e flags = some s') :
    s'.books.skip =
      (if (seToTd s e).isSome ∧ flags &&& swTypeMask = swtRelinquish then setSkipCandidate s e else s).books.skip := by
  rcases putPrevEntity_parts run with ⟨apart, _⟩ | ⟨_, a, b, first, second, rfl⟩
  · exact Bool.noConfusion (apart.symm.trans joined)
  · obtain ⟨_, queued⟩ := setRunq_spec (by simpa using hier) first
    obtain ⟨_, _, _, _, _, inserted, _⟩ := rawEnqueueEntity_spec _ _ _ second
    have release : (putPrevRelease b q e).books.skip = b.books.skip := by
      simp [putPrevRelease, books_modSfq, books_emit]
    rw [release, inserted, queued]
    exact updateCurr_skip ..

theorem putPrevEntity_skip_group (hier : s.view.Hier) {q : Gid} {g : Gid} (run : putPrevEntity s q (.group g) flags = some s') :
    s'.books.skip = s.books.skip := by
  by_cases joined : s.view.joined (.group g)
  · rw [putPrevEntity_skip hier joined run, seToTd_group, if_neg (by simp)]
  · rcases putPrevEntity_parts run with ⟨_, rfl⟩ | ⟨there, _⟩
    · simp [putPrevRelease, books_modSfq, books_emit]
    · exact absurd there joined

theorem pssPutPrevWalk_skip {chain : List EntId} (hier : s.view.Hier) (groups : ∀ e ∈ chain, ∃ g, e = .group g)
    (run : pssPutPrevWalk s chain flags = some s') : s'.books.skip = s.books.skip := by
  induction chain generalizing s with
  | nil =>
    cases run
    rfl
  | cons x rest ih =>
    unfold pssPutPrevWalk at run
    split at run
    · cases run
    · rename_i a step
      obtain ⟨g, rfl⟩ := groups x (List.mem_cons_self ..)
      have hier' : a.view.Hier := by
        rcases putPrevEntity_view hier step with ⟨_, look⟩ | ⟨_, _, b, _, look⟩ <;> rw [look] <;> exact { hier with }
      exact (ih hier' (fun y member => groups y (List.mem_cons_of_mem _ member)) run).trans
        (putPrevEntity_skip_group hier step)

/-- A yield marks the thread's entity on the lowest queue with other entities. -/
theorem pssPutPrevThread_skip {t : Tid} {low up : List EntId} (hier : s.view.Hier) (joined : s.view.joined (.thread t))
    (yields : flags &&& swTypeMask = swtRelinquish) (chain : walkup s (some (.thread t)) = low ++ e :: up)
    (alone : ∀ x ∈ low, s.view.nr (s.view.sfq x) ≤ 1) (crowded : 1 < s.view.nr (s.view.sfq e))
    (run : pssPutPrevThread s t flags = some s') : s'.books.skip (s.view.sfq e) = some e := by
  obtain ⟨a, walk, rfl⟩ := Option.map_eq_some_iff.mp run
  obtain ⟨rest, eq, _, _, groups⟩ := thread_chain hier t
  have apart := hier.queues_apart (hier.chain (e := .thread t) (Nat.lt_succ_self _))
  rw [eq] at walk
  unfold pssPutPrevWalk at walk
  split at walk
  · cases walk
  · rename_i b step
    have hier' : b.view.Hier := by
      rcases putPrevEntity_view hier step with ⟨_, look⟩ | ⟨_, _, c, _, look⟩ <;> rw [look] <;> exact { hier with }
    have later : a.books.skip = b.books.skip := pssPutPrevWalk_skip hier' groups walk
    have marks := putPrevEntity_skip hier joined step
    rw [if_pos ⟨by rw [seToTd_thread hier]; rfl, yields⟩] at marks
    change a.books.skip _ = _
    rw [later, marks]
    unfold setSkipCandidate
    rw [chain] at apart ⊢
    exact setSkipWalk_skip apart alone crowded

end skip

section yield
variable {s s' : State} {q : Gid} {e first : EntId}

theorem rbNext_ne {seq : List EntId} (nodup : seq.Nodup) {n : EntId} (next : rbNext seq e = some n) : n ≠ e := by
  induction seq with
  | nil => cases next
  | cons a rest ih =>
    obtain ⟨fresh, nodup⟩ := List.nodup_cons.mp nodup
    unfold rbNext at next
    split at next
    · rename_i here
      rintro rfl
      exact fresh (here ▸ List.mem_of_mem_head? next)
    · exact ih nodup next

/-- A skipped entity that is no candidate is picked only as the first one that nothing near follows. -/
theorem Picked.skipped {b : State} (picked : Picked b q first e) (nodup : (b.sfq q).seq.Nodup)
    (skip : (b.sfq q).skip = some e) (next : (b.sfq q).next ≠ some e) (last : (b.sfq q).last ≠ some e) :
    first = e ∧ ∀ n, rbNext (b.sfq q).seq e = some n → ¬b.near n e := by
  rcases picked.origin with ⟨rfl, far⟩ | ⟨marked | marked | second, _⟩
  · refine ⟨rfl, fun n follows => far n ?_⟩
    unfold secondEntity
    rw [if_pos skip]
    exact follows
  · exact absurd marked next
  · exact absurd marked last
  · unfold secondEntity at second
    rw [skip] at second
    split at second
    · rename_i same
      cases same
      exact absurd rfl (rbNext_ne nodup second)
    · cases second

/-- The yield of a running thread that is on its queues: the skip mark keeps it from being picked again. -/
theorem pssPutPrevThread_yields {C : Conds} {t : Tid} {low up : List EntId} {s₃ : State} {flags : Nat}
    (inv : Inv C s (walkup s (some (.thread t))) none) (led : s'.led) (placed : s.candidatesPlaced)
    (pss : s.view.cls t = .pss) (joined : s.view.joined (.thread t)) (yields : flags &&& swTypeMask = swtRelinquish)
    (put : pssPutPrevThread s t flags = some s') (chain : walkup s (some (.thread t)) = low ++ e :: up)
    (alone : ∀ x ∈ low, s.view.nr (s.view.sfq x) ≤ 1) (crowded : 1 < s.view.nr (s.view.sfq e))
    (gives : (∃ x, x ≠ e ∧ [x, e].Sublist (s'.books.seq (s.view.sfq e))) ∨
      ∃ n, rbNext (s'.books.seq (s.view.sfq e)) e = some n ∧ s'.near n e)
    (next : s.books.next (s.view.sfq e) ≠ some e) (last : s.books.last (s.view.sfq e) ≠ some e) :
    pssPickNextThread s' ≠ some (some t, s₃) := by
  intro pick
  have reaches := pssPutPrevThread_reaches inv pss put
  have returned := pssPutPrevThread_returned inv pss put
  have skip := pssPutPrevThread_skip inv.core.hier joined yields chain alone crowded put
  have walk : walkup s' (some (.thread t)) = low ++ e :: up := (View.chain_congr returned.frame _).trans chain
  have sfq : s'.view.sfq = s.view.sfq := congrArg View.Frame.sfq returned.frame
  obtain ⟨b, b', down, picks⟩ := pssPickNextThread_trace reaches.inv.core led
    (placed.congr returned.frame returned.next returned.last) pick e (by rw [walk]; simp)
  rw [sfq] at down picks
  obtain ⟨first, _, isFirst, _, _, _, _, picked⟩ := pickNextEntity_picked picks
  have mark (c : Candidate) : (b.sfq (s.view.sfq e)).candidate c = s'.books.candidate c (s.view.sfq e) := by
    rw [books_candidate]
    exact down.below c _ (Nat.le_refl _)
  have seq : (b.sfq (s.view.sfq e)).seq = s'.books.seq (s.view.sfq e) := congrFun down.seq _
  have nodup : (s'.books.seq (s.view.sfq e)).Nodup := Multiset.coe_nodup.mp (reaches.inv.core.nodup _)
  have next' : (b.sfq (s.view.sfq e)).next ≠ some e := by
    rw [show (b.sfq (s.view.sfq e)).next = s'.books.next (s.view.sfq e) from mark .next, returned.next]
    exact next
  have last' : (b.sfq (s.view.sfq e)).last ≠ some e := by
    rw [show (b.sfq (s.view.sfq e)).last = s'.books.last (s.view.sfq e) from mark .last, returned.last]
    exact last
  obtain ⟨rfl, far⟩ := picked.skipped (by rw [seq]; exact nodup) ((mark .skip).trans skip) next' last'
  rw [seq] at far
  rcases gives with ⟨x, other, before⟩ | ⟨n, follows, near⟩
  · -- the first entity of the timeline has none before it
    have head : (s'.books.seq (s.view.sfq first)).head? = some first := by
      rw [down.leftmost] at isFirst
      exact (led _).symm.trans isFirst
    cases list : s'.books.seq (s.view.sfq first) with
    | nil =>
      rw [list] at head
      cases head
    | cons a rest =>
      rw [list] at head before nodup
      cases head
      cases before with
      | cons _ both => exact (List.nodup_cons.mp nodup).1 (both.subset (by simp))
      | cons_cons _ one => exact other rfl
  · exact far n follows ((down.near n first).mpr near)

/-- A yield takes effect if neither the next nor the last candidate of the queue is the yielding entity. -/
theorem yield_takes_effect (k : Kernel) (tun : Tunables) (ops : List Op) (s s₂ : State) (flags : Nat) (e : EntId)
    (low up : List EntId) (ran : run k tun ops = some s) (pss : (s.td s.curthread).cls = .pss)
    (yields : flags &&& swTypeMask = swtRelinquish) (put : switchOut s flags = some s₂)
    (chain : walkup s (some (.thread s.curthread)) = low ++ e :: up)
    (alone : ∀ x ∈ low, (s.sfq (s.ent x).sfq).nrRunning ≤ 1) (crowded : 1 < (s.sfq (s.ent e).sfq).nrRunning)
    (gives : (∃ x, x ≠ e ∧ [x, e].Sublist (s₂.sfq (s.ent e).sfq).seq) ∨
      ∃ n, rbNext (s₂.sfq (s.ent e).sfq).seq e = some n ∧ s₂.near n e)
    (placed : s.candidatesPlaced) (next : (s.sfq (s.ent e).sfq).next ≠ some e) (last : (s.sfq (s.ent e).sfq).last ≠ some e) :
    ∀ s₃, pssPickNextThread s₂ ≠ some (some s.curthread, s₃) := by
  intro s₃
  have runs := run_free ran
  have stands := runs.settled.stands
  have unseen := clearResched_unseen s s.curthread
  have cleared := unseen.reaches stands.inv
  obtain ⟨inside, live⟩ := stands.roster.current s.curthread rfl
  have fits := stands.roster.live s.curthread inside live
  have pss' : s.view.cls s.curthread = .pss := pss
  have running : s.view.tdState s.curthread = .running := fits.running.mpr rfl
  have joined : s.view.joined (.thread s.curthread) :=
    (fits.joined fun idle => by cases pss'.symm.trans idle).mpr (.inr running)
  unfold switchOut at put
  generalize (s.modTd s.curthread fun td => { td with needResched := false, owePreempt := false }) = a at unseen cleared put
  have look : (updateRqClock a).view = s.view := unseen.1
  have books : ∃ clock, (updateRqClock a).books = { s.books with clock := clock } := by
    obtain ⟨clock, same⟩ := updateRqClock_books a
    exact ⟨clock, by rw [same, unseen.2.1]⟩
  obtain ⟨clock, books⟩ := books
  unfold putPrevThread at put
  have joined' : (a.ent (.thread s.curthread)).joined = true := by
    rw [view_joined, unseen.1]
    exact joined
  rw [if_pos joined'] at put
  have cls : ((updateRqClock a).td s.curthread).cls = .pss := by
    rw [view_cls, look]
    exact pss'
  dsimp only at put
  rw [cls] at put
  have walk (o : Option EntId) : walkup (updateRqClock a) o = walkup s o := View.chain_congr (congrArg View.frame look) o
  have inv : Inv .free (updateRqClock a) (walkup (updateRqClock a) (some (.thread s.curthread))) none := by
    rw [walk]
    have here := stands.inv
    rw [currentOn, cpuChain, if_pos pss'] at here
    exact here.of_bones (by rw [look])
  have led : s₂.led := by
    have started : (updateRqClock a).led := (Leads.books (s := s) (by rw [books]) (by rw [books])).kept runs.led
    exact (pssPutPrevThread_reaches inv cls put).path.leads.kept started
  have placed' : (updateRqClock a).candidatesPlaced :=
    placed.congr (congrArg View.frame look) (by rw [books]) (by rw [books])
  refine pssPutPrevThread_yields inv led placed' cls ?_ yields put ((walk _).trans chain) ?_ ?_ ?_ ?_ ?_
  · rw [look]
    exact joined
  · rw [look]
    exact alone
  · rw [look]
    exact crowded
  · rw [look]
    exact gives
  · rw [look, books]
    exact next
  · rw [look, books]
    exact last

end yield

/-- The running thread, its chain and its root queue before a yield, and the timeline and the pick after it. -/
def yieldPick (ops : List Op) :
    Option (((Bool × Bool) × List EntId × Gid) × (Nat × Option EntId × Option EntId) × Tid × List EntId × Option Tid) := do
  let s ← run slowKernel {} ops
  let s₂ ← switchOut s swtRelinquish
  let (r, _) ← pssPickNextThread s₂
  let q := (s.ent (.thread s.curthread)).sfq
  some ((((s.td s.curthread).cls = .pss, s.candidatesPlaced), walkup s (some (.thread s.curthread)), q),
    ((s.sfq q).nrRunning, (s.sfq q).next, (s.sfq q).last), s.curthread, (s₂.sfq q).seq, r)

theorem yieldPick_spec {ops : List Op} {n : Nat} {next last : Option EntId} {placed : Bool} {t : Tid} {seq : List EntId}
    {r : Option Tid}
    (picks : yieldPick ops = some (((true, placed), [.thread t], 0), (n, next, last), t, seq, r)) :
    ∃ s s₂ s₃, run slowKernel {} ops = some s ∧ s.curthread = t ∧ (s.td s.curthread).cls = .pss ∧
      switchOut s swtRelinquish = some s₂ ∧ pssPickNextThread s₂ = some (r, s₃) ∧
      walkup s (some (.thread s.curthread)) = [] ++ .thread t :: [] ∧ (s.ent (.thread t)).sfq = 0 ∧
      (s.sfq 0).nrRunning = n ∧ (s.sfq 0).next = next ∧ (s.sfq 0).last = last ∧ (s₂.sfq 0).seq = seq ∧
      (placed = true → s.candidatesPlaced) := by
  unfold yieldPick at picks
  obtain ⟨s, ran, picks⟩ := Option.bind_eq_some_iff.mp picks
  obtain ⟨s₂, put, picks⟩ := Option.bind_eq_some_iff.mp picks
  obtain ⟨⟨r', s₃⟩, picked, picks⟩ := Option.bind_eq_some_iff.mp picks
  simp only [Option.some.injEq, Prod.mk.injEq, decide_eq_true_eq] at picks
  obtain ⟨⟨⟨pss, isPlaced⟩, chain, sfq⟩, ⟨count, isNext, isLast⟩, rfl, isSeq, rfl⟩ := picks
  rw [sfq] at count isNext isLast isSeq
  exact ⟨s, s₂, s₃, ran, rfl, pss, put, picked, chain, sfq, count, isNext, isLast, isSeq,
    fun is => of_decide_eq_true (isPlaced.trans is)⟩

/-- Two threads, one of which has just been added. -/
def twoThreads : List Op := [.sysctl (.startDebit false), .fork 0 false {}, .add 2]

set_option synthInstance.maxSize 512 in
theorem yield_takes_effect_two : ∃ s s₂ s₃ r, run slowKernel {} twoThreads = some s ∧
    switchOut s swtRelinquish = some s₂ ∧ pssPickNextThread s₂ = some (r, s₃) ∧ r ≠ some s.curthread := by
  have picks : yieldPick twoThreads = some (((true, true), [.thread 0], 0), (2, some (.thread 2), none), 0,
      [.thread 2, .thread 0], some 2) := by decide +kernel
  obtain ⟨s, s₂, s₃, ran, current, pss, put, picked, chain, sfq, count, next, last, seq, placed⟩ := yieldPick_spec picks
  refine ⟨s, s₂, s₃, some 2, ran, put, picked, fun same => ?_⟩
  have other := yield_takes_effect _ _ _ s s₂ _ (.thread 0) [] [] ran pss (by decide) put chain
    (fun x never => by cases never) (by rw [sfq, count]; decide)
    (.inl ⟨.thread 2, by decide, by rw [sfq, seq]⟩) (placed rfl) (by rw [sfq, next]; decide) (by rw [sfq, last]; decide) s₃
  rw [← same] at other
  exact other picked

/-- Thread `2` wakes, which makes it the next candidate, and is dispatched from the realtime queue, which clears no mark. -/
def markedYield : List Op :=
  [.sysctl (.startDebit false), .tick, .tick, .tick, .fork 0 false {}, .add 2, .switch 0, .tick]

set_option synthInstance.maxSize 512 in
theorem yield_without_effect :
    ¬ ∀ (k : Kernel) (tun : Tunables) (ops : List Op) (s s₂ : State) (flags : Nat) (e : EntId) (low up : List EntId),
      run k tun ops = some s → (s.td s.curthread).cls = .pss → flags &&& swTypeMask = swtRelinquish →
      switchOut s flags = some s₂ → walkup s (some (.thread s.curthread)) = low ++ e :: up →
      (∀ x ∈ low, (s.sfq (s.ent x).sfq).nrRunning ≤ 1) → 1 < (s.sfq (s.ent e).sfq).nrRunning →
      ((∃ x, x ≠ e ∧ [x, e].Sublist (s₂.sfq (s.ent e).sfq).seq) ∨
        ∃ n, rbNext (s₂.sfq (s.ent e).sfq).seq e = some n ∧ s₂.near n e) →
      ∀ s₃, pssPickNextThread s₂ ≠ some (some s.curthread, s₃) := by
  intro claimed
  have picks : yieldPick markedYield = some (((true, true), [.thread 2], 0), (2, some (.thread 2), none), 2,
      [.thread 0, .thread 2], some 2) := by decide +kernel
  obtain ⟨s, s₂, s₃, ran, current, pss, put, picked, chain, sfq, count, next, last, seq, placed⟩ := yieldPick_spec picks
  have other := claimed _ _ _ s s₂ _ (.thread 2) [] [] ran pss (by decide) put chain
    (fun x never => by cases never) (by rw [sfq, count]; decide)
    (.inl ⟨.thread 0, by decide, by rw [sfq, seq]⟩) s₃
  rw [current] at other
  exact other picked

end SfqSched
