import SfqSched.PutBack
import SfqSched.LastCandidate
import SfqSched.CommonAncestor

namespace SfqSched
open State Function

/-- The entities that `pss_check_preempt_curr` compares, if it takes its wakeup branch: the
current chain's and the waking thread's at their common queue. -/
def wakeupBranch (s : State) (t : Tid) : Option (EntId × EntId) :=
  let ctd := s.curthread
  if (s.td ctd).needResched ∨ ((s.td ctd).tdPriClass = .idle ∧ (s.td t).tdPriClass ≠ .idle) then none
  else
    (findCommonAncestor s (.thread ctd) (.thread t)).filter fun (curr, se) =>
      decide ((wakeupPreemptEntity (updateCurr s (s.ent curr).sfq) curr se).1 > 0)

/-- The timeline, the current entity and the next candidate of `q` have their vruntimes within half the range. -/
def State.windowed (s : State) (q : Gid) : Prop :=
  ∃ base : BitVec 64, ∀ e, e ∈ (s.sfq q).seq ∨ (s.sfq q).curr = some e ∨ (s.sfq q).next = some e →
    SchedTime.since base (s.ent e).vruntime < 2 ^ 63

section check
variable {s s' : State} {t : Tid} {c se : EntId}

theorem setCandidateWalk_books_next (chain : List EntId) : (setCandidateWalk .last s chain).books.next = s.books.next := by
  induction chain generalizing s with
  | nil => rfl
  | cons x rest ih =>
    have one := setCandidate_candidate s (s.ent x).sfq .last .next (some x)
    unfold setCandidateWalk
    exact (ih (s := s.modSfq _ _)).trans one

theorem setLastCandidate_next (e : EntId) : (setLastCandidate s e).books.next = s.books.next := by
  unfold setLastCandidate
  split
  · rfl
  · exact setCandidateWalk_books_next ..

/-- An entity that counts as a thread of another class than `PRI_IDLE` becomes the next candidate of its queue. -/
theorem setNextCandidate_next (hier : s.view.Hier) {e : EntId} (counted : idleThreadEntity s e = false)
    (low : e.rank s.view.ngroups < s.view.ngroups + 1) : (setNextCandidate s e).books.next (s.view.sfq e) = some e := by
  have links := hier.chain low
  have apart := hier.queues_apart links
  unfold setNextCandidate
  rw [counted, if_neg Bool.false_ne_true]
  cases walk : walkup s (some e) with
  | nil =>
    rw [walk] at links
    cases links
  | cons x rest =>
    rw [walk] at links apart
    cases links
    exact setCandidateWalk_first .next apart

theorem wakeupPreemptEntity_ahead {first : EntId} (ahead : (wakeupPreemptEntity s c first).1 > 0) :
    0 < sdiff (s.books.vruntime c) (s.books.vruntime first) := by
  unfold wakeupPreemptEntity at ahead
  dsimp only at ahead
  split at ahead
  · assumption
  · exact absurd ahead (Int.not_lt.mpr (Int.le_of_lt (Int.negSucc_lt_zero 0)))

/-- The end of `pss_check_preempt_curr` writes nothing but marks, and no next one. -/
theorem preemptCurr_marked (a : State) (ctd : Tid) (e : EntId) (scale : Prop) [Decidable scale] :
    (preemptCurr a ctd e (decide scale)).view = a.view ∧
      a.books.Marked (onChain a.view (walkup a (some e))) (preemptCurr a ctd e (decide scale)).books ∧
      (preemptCurr a ctd e (decide scale)).books.next = a.books.next := by
  have walk : walkup (reschedThread a ctd) (some e) = walkup a (some e) := rfl
  unfold preemptCurr
  dsimp only
  split
  · refine ⟨?_, ?_, ?_⟩
    · unfold setLastCandidate
      split <;> simp
    · have marked := setLastCandidate_marked (s := reschedThread a ctd) e
      rw [walk] at marked
      simpa using marked
    · exact (setLastCandidate_next ..).trans (by simp)
  · exact ⟨by simp, (reschedThread_books (s := a) ctd) ▸ .refl _, by simp⟩

/-- What the wakeup branch leaves behind. -/
structure Preempted (s s' : State) (c se : EntId) : Prop where
  curr : c ∈ walkup s (some (.thread s.curthread))
  same : s.view.sfq c = s.view.sfq se
  view : s'.view = s.view
  next : s'.books.next (s.view.sfq c) = some se
  ahead : 0 < sdiff (s'.books.vruntime c) (s'.books.vruntime se)
  charged : s.view.curr (s.view.sfq c) = some c → s'.books.timingStart c = s'.books.clock
  placed : s.candidatesPlaced → s'.candidatesPlaced

theorem walkup_valid (hier : s.view.Hier) {e : EntId} (above : e ∈ walkup s (some (.thread t))) :
    (∀ g, e = .group g → 0 < g ∧ g < s.view.ngroups) ∧ e.rank s.view.ngroups < s.view.ngroups + 1 := by
  have links := hier.chain (e := .thread t) (Nat.lt_succ_self _)
  refine links.all (p := fun e => (∀ g, e = .group g → 0 < g ∧ g < s.view.ngroups) ∧
    e.rank s.view.ngroups < s.view.ngroups + 1) ?_ ?_ e above
  · rintro e ⟨⟩
    exact ⟨fun g never => (by cases never), Nat.lt_succ_self _⟩
  · intro x y _ up
    obtain ⟨pos, inside, rfl⟩ := hier.parent_some up
    refine ⟨?_, Nat.lt_succ_of_lt inside⟩
    rintro g ⟨⟩
    exact ⟨pos, inside⟩

/-- The chain of an entity of a chain is its upper part. -/
theorem walkup_above (hier : s.view.Hier) {e x : EntId} (above : e ∈ walkup s (some (.thread t)))
    (member : x ∈ walkup s (some e)) : x ∈ walkup s (some (.thread t)) := by
  have links := hier.chain (e := .thread t) (Nat.lt_succ_self _)
  obtain ⟨low, up, split⟩ := List.append_of_mem above
  have rest := links
  rw [split] at rest
  have own : Chain s.view.parent (some e) (e :: up) := .link rest.after
  rw [(hier.chain (walkup_valid hier above).2).unique own] at member
  rw [split]
  exact List.mem_append_right _ member

theorem pssCheckPreemptCurr_wakeup (hier : s.view.Hier) (awake : (s.td t).tdPriClass ≠ .idle)
    (branch : wakeupBranch s t = some (c, se)) (run : pssCheckPreemptCurr s t = some s') : Preempted s s' c se := by
  unfold wakeupBranch at branch
  dsimp only at branch
  split at branch
  · cases branch
  rename_i busy
  rw [not_or] at busy
  obtain ⟨found, ahead⟩ := Option.filter_eq_some_iff.mp branch
  replace ahead := of_decide_eq_true ahead
  obtain ⟨inC, inSe⟩ := findCommonAncestor_mem found
  have same := (climbTogether_split found).1
  unfold pssCheckPreemptCurr at run
  dsimp only at run
  rw [if_neg busy.1, if_neg busy.2, found] at run
  simp only [Option.map_some, if_pos ahead, Option.some.injEq] at run
  have look : (wakeupPreemptEntity (updateCurr s (s.ent c).sfq) c se).2.view = s.view := by simp
  have charged := updateCurr_books s (s.ent c).sfq
  have gap := wakeupPreemptEntity_ahead ahead
  have books : (wakeupPreemptEntity (updateCurr s (s.ent c).sfq) c se).2.books = (updateCurr s (s.ent c).sfq).books := by simp
  have steady : Steady s (wakeupPreemptEntity (updateCurr s (s.ent c).sfq) c se).2 :=
    (updateCurr_steady ..).trans (wakeupPreemptEntity_steady ..)
  generalize (wakeupPreemptEntity (updateCurr s (s.ent c).sfq) c se).2 = a at *
  have hier' : a.view.Hier := look ▸ hier
  have walk (o : Option EntId) : walkup a o = walkup s o := View.chain_congr (congrArg View.frame look) o
  -- a thread on the chain is the waking one, which is not of class `PRI_IDLE`
  have counted : idleThreadEntity a se = false := by
    cases se with
    | thread u =>
      obtain rfl := walkup_thread hier inSe
      rw [idleThreadEntity, seToTd_view, hier'.threadQ]
      have kept := steady.priClass u
      simpa [kept] using awake
    | group g => rw [idleThreadEntity, seToTd_group]
  have rank := (walkup_valid hier inSe).2
  have first := setNextCandidate_next hier' counted (by rw [look]; exact rank)
  have marked₁ := setNextCandidate_marked (s := a) se
  have view₁ : (setNextCandidate a se).view = a.view := by simp
  have finish := preemptCurr_marked (setNextCandidate a se) s.curthread se
    (s.tun.schedNrLatency ≤ (s.sfq (s.ent (.thread s.curthread)).sfq).nrRunning)
  rw [run] at finish
  obtain ⟨view₂, marked₂, next₂⟩ := finish
  have walk₂ : walkup (setNextCandidate a se) (some se) = walkup s (some se) :=
    (View.chain_congr (congrArg View.frame view₁) _).trans (walk _)
  rw [walk₂, view₁, look] at marked₂
  rw [walk, look] at marked₁
  have marked := marked₁.trans marked₂
  have time : s'.books.vruntime = (updateCurr s (s.ent c).sfq).books.vruntime ∧
      s'.books.timingStart = (updateCurr s (s.ent c).sfq).books.timingStart ∧
      s'.books.clock = (updateCurr s (s.ent c).sfq).books.clock := by
    rw [marked.rest, ← books]
    exact ⟨rfl, rfl, rfl⟩
  refine ⟨inC, same, view₂.trans (view₁.trans look), ?_, ?_, fun current => ?_, fun placed => ?_⟩
  · rw [next₂, show s.view.sfq c = a.view.sfq se by rw [look]; exact same]
    exact first
  · rw [time.1]
    exact gap
  · rw [time.2.1, time.2.2]
    rcases charged with ⟨same', still⟩ | ⟨e, w, current', _, paid⟩
    · rw [same']
      exact still c current
    · cases current.symm.trans current'
      rw [paid]
      exact update_self ..
  · have frame : s'.view.frame = s.view.frame := congrArg View.frame (view₂.trans (view₁.trans look))
    have sfq : s'.view.sfq = s.view.sfq := congrArg View.Frame.sfq frame
    have ngroups : s'.view.ngroups = s.view.ngroups := congrArg View.Frame.ngroups frame
    have old (cand : Candidate) (q : Gid) (low : q < s.ngroups) (e : EntId) (there : a.books.candidate cand q = some e)
        (which : cand ≠ .skip) : (∀ g, e = .group g → 0 < g ∧ g < s.ngroups) ∧ s.view.sfq e = q := by
      have before : s.books.candidate cand q = some e := by
        rw [books] at there
        rcases charged with ⟨same', _⟩ | ⟨_, _, _, _, paid⟩
        · rwa [same'] at there
        · rw [paid] at there
          cases cand <;> exact there
      cases cand with
      | skip => exact absurd rfl which
      | next => exact candidatesPlaced_iff.mp placed q low e (.inl before)
      | last => exact candidatesPlaced_iff.mp placed q low e (.inr before)
    have stands (cand : Candidate) (q : Gid) (low : q < s.ngroups) (e : EntId) (which : cand ≠ .skip)
        (there : s'.books.candidate cand q = some e) : (∀ g, e = .group g → 0 < g ∧ g < s.ngroups) ∧ s.view.sfq e = q := by
      rcases marked.pointer cand q e there with before | ⟨member, place⟩
      · exact old cand q low e before which
      · exact ⟨(walkup_valid hier (walkup_above hier inSe member)).1, place⟩
    refine candidatesPlaced_iff.mpr fun q low e which => ?_
    replace low := lt_of_lt_of_eq low ngroups
    have both : (∀ g, e = .group g → 0 < g ∧ g < s.ngroups) ∧ s.view.sfq e = q := by
      rcases which with next | last
      · exact stands .next q low e (by simp) next
      · exact stands .last q low e (by simp) last
    exact ⟨fun g is => ⟨(both.1 g is).1, lt_of_lt_of_eq (both.1 g is).2 ngroups.symm⟩, (congrFun sfq e).trans both.2⟩

/-- In a window differences add up. -/
theorem sdiff_window {base x y : BitVec 64} (hx : SchedTime.since base x < 2 ^ 63) (hy : SchedTime.since base y < 2 ^ 63) :
    sdiff x y = (SchedTime.since base x : Int) - SchedTime.since base y :=
  SchedTime.toInt_sub (by omega) (by omega)

end check

section switch
variable {C : Conds} {s s₁ s₂ s₃ : State} {t : Tid} {c se : EntId} {flags : Nat}

/-- Against a next candidate that it is ahead of, an entity is not picked. -/
theorem Picked.not_ahead {b : State} {q : Gid} {first e : EntId} (base : BitVec 64) (picked : Picked b q first e)
    (next : (b.sfq q).next = some se) (ahead : 0 < sdiff (b.books.vruntime c) (b.books.vruntime se))
    (windowed : ∀ x, x = c ∨ x = se ∨ x = first → SchedTime.since base (b.books.vruntime x) < 2 ^ 63) : e ≠ c := by
  have wc := windowed c (.inl rfl)
  have wse := windowed se (.inr (.inl rfl))
  have wf := windowed first (.inr (.inr rfl))
  rintro rfl
  rw [sdiff_window wc wse] at ahead
  by_cases near : b.near se first
  · have same := picked.next se next near
    subst same
    omega
  · -- the next candidate is too far from the first entity, and this one is even further
    have close : b.near e first := by
      rcases picked.origin with ⟨rfl, _⟩ | ⟨_, near⟩
      · unfold State.near Books.close
        rw [sdiff_window wc wf]
        omega
      · exact near
    unfold State.near Books.close at near close
    rw [sdiff_window wse wf] at near
    rw [sdiff_window wc wf] at close
    omega

/-- The thread that the wakeup branch preempts is not the next one to run. -/
theorem Preempted.switches (inv : Inv C s (walkup s (some (.thread s.curthread))) none) (led : s₁.led)
    (placed : s.candidatesPlaced) (pss : s.view.cls s.curthread = .pss) (preempted : Preempted s s₁ c se)
    (window : s₁.windowed (s.view.sfq c)) (put : pssPutPrevThread s₁ s.curthread flags = some s₂) :
    pssPickNextThread s₂ ≠ some (some s.curthread, s₃) := by
  intro pick
  have walk₁ : walkup s₁ (some (.thread s.curthread)) = walkup s (some (.thread s.curthread)) :=
    View.chain_congr (congrArg View.frame preempted.view) _
  have inv₁ : Inv C s₁ (walkup s₁ (some (.thread s.curthread))) none := by
    rw [walk₁]
    exact inv.of_bones (by rw [preempted.view])
  have pss₁ : s₁.view.cls s.curthread = .pss := by
    rw [preempted.view]
    exact pss
  have reaches := pssPutPrevThread_reaches inv₁ pss₁ put
  have returned := pssPutPrevThread_returned inv₁ pss₁ put
  have led₂ := reaches.path.leads.kept led
  have walk₂ : walkup s₂ (some (.thread s.curthread)) = walkup s (some (.thread s.curthread)) :=
    (View.chain_congr returned.frame _).trans walk₁
  have sfq₂ : s₂.view.sfq = s.view.sfq := (congrArg View.Frame.sfq returned.frame).trans (congrArg View.sfq preempted.view)
  have placed₂ := (preempted.placed placed).congr returned.frame returned.next returned.last
  obtain ⟨b, b', down, picks⟩ := pssPickNextThread_trace reaches.inv.core led₂ placed₂ pick c
    (by rw [walk₂]; exact preempted.curr)
  rw [sfq₂] at down picks
  obtain ⟨first, _, isFirst, _, _, _, _, picked⟩ := pickNextEntity_picked picks
  -- the current entity of the common queue is the only one of the chain there
  have current : s.view.curr (s.view.sfq c) = some c := (inv.core.curr _ c).mpr ⟨preempted.curr, rfl⟩
  have only (x : EntId) (member : x ∈ walkup s₁ (some (.thread s.curthread))) (place : s.view.sfq x = s.view.sfq c) :
      x = c := by
    rw [walk₁] at member
    exact Option.some.inj (((inv.core.curr _ x).mpr ⟨member, place⟩).symm.trans current)
  have kept (x : EntId) (place : s.view.sfq x = s.view.sfq c) : b.books.vruntime x = s₁.books.vruntime x := by
    rw [down.vruntime]
    refine returned.vruntime x fun member => ?_
    obtain rfl := only x member place
    exact preempted.charged current
  have listed : first = c ∨ first ∈ s₁.view.timeline (s.view.sfq c) := by
    have there : first ∈ s₂.view.timeline (s.view.sfq c) := by
      rw [down.leftmost] at isFirst
      have cached : s₂.books.leftmost (s.view.sfq c) = (s₂.books.seq (s.view.sfq c)).head? := led₂ _
      exact Multiset.mem_coe.mpr (List.mem_of_mem_head? (cached.symm.trans isFirst))
    rcases returned.timeline _ _ there with old | ⟨member, place⟩
    · exact .inr old
    · rw [preempted.view] at place
      exact .inl (only first member place)
  have next : (b.sfq (s.view.sfq c)).next = some se := by
    have same : b.books.next (s.view.sfq c) = s₂.books.next (s.view.sfq c) := down.below .next _ (Nat.le_refl _)
    refine same.trans ?_
    rw [returned.next]
    exact preempted.next
  obtain ⟨base, inside⟩ := window
  have curr₁ : s₁.view.curr (s.view.sfq c) = some c := by rw [preempted.view]; exact current
  refine picked.not_ahead base next ?_ (fun x which => ?_) rfl
  · rw [kept c rfl, kept se preempted.same.symm]
    exact preempted.ahead
  · rcases which with rfl | rfl | rfl
    · rw [kept _ rfl]
      exact inside _ (.inr (.inl curr₁))
    · rw [kept _ preempted.same.symm]
      exact inside _ (.inr (.inr preempted.next))
    · rcases listed with rfl | member
      · rw [kept _ rfl]
        exact inside _ (.inr (.inl curr₁))
      · have place : s.view.sfq x = s.view.sfq c := by
          have inThere := (inv₁.core.member _ _ member).2.2
          rw [preempted.view] at inThere
          exact inThere
        rw [kept _ place]
        exact inside _ (.inl (Multiset.mem_coe.mp member))

/-- When `sched_add` takes the wakeup branch of `pss_check_preempt_curr`, the current thread goes back on its
queue and another one is picked, provided that candidates stand on the queues whose candidates they are. -/
theorem wakeup_switches (k : Kernel) (tun : Tunables) (ops : List Op) (s a s₁ s₂ : State) (t : Tid) (c se : EntId)
    (flags : Nat) (ran : run k tun ops = some s) (enabled : (Op.add t).enabled s)
    (queued : queuedState (setTdState s t .canRun) t = some a) (pss : (a.td a.curthread).cls = .pss)
    (awake : (a.td t).tdPriClass ≠ .idle) (branch : wakeupBranch (checkPriorityPreempt a t) t = some (c, se))
    (checked : pssCheckPreemptCurr (checkPriorityPreempt a t) t = some s₁) (window : s₁.windowed (a.ent c).sfq)
    (put : pssPutPrevThread s₁ a.curthread flags = some s₂) (placed : a.candidatesPlaced) :
    ∀ s₃, pssPickNextThread s₂ ≠ some (some a.curthread, s₃) := by
  intro s₃
  have runs := run_free ran
  have stands := runs.settled.stands
  unfold Op.enabled at enabled
  simp only [Bool.and_eq_true, decide_eq_true_eq] at enabled
  obtain ⟨⟨⟨there, notIdle⟩, notRunq⟩, notRunning⟩ := enabled
  unfold State.live at there
  simp only [Bool.and_eq_true, Bool.not_eq_true'] at there
  have inside : t < s.view.nthreads := of_decide_eq_true there.1
  have other : t ≠ 1 := by
    rw [← show s.idlethread = 1 from stands.roster.idle.1]
    exact notIdle
  have first := queuedState_reaches stands inside there.2 other ⟨notRunq, notRunning⟩ queued
  have unseen := checkPriorityPreempt_unseen a t
  have second := unseen.reaches first.inv
  have third := pssCheckPreemptCurr_reaches second.inv (fun never => never.elim) checked
  have current : a.curthread = s.curthread := congrArg Roster.curthread first.roster
  have frame₂ : (checkPriorityPreempt a t).view.frame = a.view.frame := congrArg View.frame unseen.1
  have current₂ : (checkPriorityPreempt a t).curthread = a.curthread := congrArg View.curthread unseen.1
  have pss₂ : (checkPriorityPreempt a t).view.cls (checkPriorityPreempt a t).curthread = .pss := by
    rw [current₂, unseen.1]
    exact pss
  have cls : s.view.cls s.curthread = .pss := by
    have same : a.view.cls = s.view.cls := congrArg Roster.cls first.roster
    rw [← current, ← same]
    exact pss
  have chain : currentOn s (some s.curthread) =
      walkup (checkPriorityPreempt a t) (some (.thread (checkPriorityPreempt a t).curthread)) := by
    rw [current₂, current]
    refine Eq.trans ?_ (View.chain_congr (frame₂.trans first.frame) _).symm
    rw [currentOn, cpuChain, if_pos cls]
  have inv := second.inv
  rw [chain] at inv
  have led := third.path.leads.kept (second.path.leads.kept (first.path.leads.kept runs.led))
  have placed₂ : (checkPriorityPreempt a t).candidatesPlaced :=
    placed.congr frame₂ (congrArg Books.next unseen.2.1) (congrArg Books.last unseen.2.1)
  have awake₂ : ((checkPriorityPreempt a t).td t).tdPriClass ≠ .idle := by
    rw [unseen.2.2.priClass t]
    exact awake
  have preempted := pssCheckPreemptCurr_wakeup inv.core.hier awake₂ branch checked
  have sfq : (checkPriorityPreempt a t).view.sfq c = (a.ent c).sfq := congrFun (congrArg View.Frame.sfq frame₂) c
  rw [← current₂] at put ⊢
  exact preempted.switches inv led placed₂ pss₂ (by rw [sfq]; exact window) put

end switch

/-- A machine whose clock shows a millisecond more at every reading. -/
def slowKernel : Kernel := { plainKernel with schedTimeCpu := fun n => BitVec.ofNat 64 (n * 1000000) }

/-- What `wakeup_switches` asks of the waking of `t`, and the thread that is picked when the current one has gone back. -/
def wakeupPick (ops : List Op) (t : Tid) : Option (((Bool × Bool × Bool) × Bool × Bool) × (EntId × EntId) × Tid × Option Tid) := do
  let s ← run slowKernel {} ops
  let a ← queuedState (setTdState s t .canRun) t
  let (c, se) ← wakeupBranch (checkPriorityPreempt a t) t
  let s₁ ← pssCheckPreemptCurr (checkPriorityPreempt a t) t
  let s₂ ← pssPutPrevThread s₁ a.curthread 0
  let (r, _) ← pssPickNextThread s₂
  let q := (a.ent c).sfq
  let near := ((s₁.sfq q).seq ++ (s₁.sfq q).curr.toList ++ (s₁.sfq q).next.toList).all fun e =>
    decide (SchedTime.since 0 (s₁.ent e).vruntime < 2 ^ 63)
  some ((((Op.add t).enabled s, (a.td a.curthread).cls = .pss, (a.td t).tdPriClass ≠ .idle), near, a.candidatesPlaced),
    (c, se), a.curthread, r)

theorem wakeupPick_spec {ops : List Op} {t : Tid} {placed : Bool} {c se : EntId} {ctd : Tid} {r : Option Tid}
    (picks : wakeupPick ops t = some (((true, true, true), true, placed), (c, se), ctd, r)) :
    ∃ s a s₁ s₂ s₃, run slowKernel {} ops = some s ∧ (Op.add t).enabled s ∧
      queuedState (setTdState s t .canRun) t = some a ∧ (a.td a.curthread).cls = .pss ∧ (a.td t).tdPriClass ≠ .idle ∧
      wakeupBranch (checkPriorityPreempt a t) t = some (c, se) ∧
      pssCheckPreemptCurr (checkPriorityPreempt a t) t = some s₁ ∧ s₁.windowed (a.ent c).sfq ∧
      pssPutPrevThread s₁ a.curthread 0 = some s₂ ∧ pssPickNextThread s₂ = some (r, s₃) ∧ a.curthread = ctd ∧
      (placed = true → a.candidatesPlaced) := by
  unfold wakeupPick at picks
  obtain ⟨s, ran, picks⟩ := Option.bind_eq_some_iff.mp picks
  obtain ⟨a, queued, picks⟩ := Option.bind_eq_some_iff.mp picks
  obtain ⟨⟨c', se'⟩, branch, picks⟩ := Option.bind_eq_some_iff.mp picks
  obtain ⟨s₁, checked, picks⟩ := Option.bind_eq_some_iff.mp picks
  obtain ⟨s₂, put, picks⟩ := Option.bind_eq_some_iff.mp picks
  obtain ⟨⟨r', s₃⟩, picked, picks⟩ := Option.bind_eq_some_iff.mp picks
  simp only [Option.some.injEq, Prod.mk.injEq, decide_eq_true_eq] at picks
  obtain ⟨⟨⟨enabled, pss, awake⟩, near, placed⟩, ⟨rfl, rfl⟩, current, rfl⟩ := picks
  refine ⟨s, a, s₁, s₂, s₃, ran, enabled, queued, pss, awake, branch, checked, ⟨0, fun e there => ?_⟩, put, picked, current,
    fun is => of_decide_eq_true (placed.trans is)⟩
  refine of_decide_eq_true (List.all_eq_true.mp near e ?_)
  rcases there with listed | curr | next
  · exact List.mem_append_left _ (List.mem_append_left _ listed)
  · exact List.mem_append_left _ (List.mem_append_right _ (Option.mem_toList.mpr curr))
  · exact List.mem_append_right _ (Option.mem_toList.mpr next)

/-- A thread wakes after the running one has run for some time. -/
def lateWaker : List Op :=
  [.sysctl (.startDebit false), .tick, .tick, .tick, .prio 0 200, .fork 0 false {}, .prio 2 200]

theorem wakeup_switches_late : ∃ s a s₁ s₂ s₃ r, run slowKernel {} lateWaker = some s ∧ a.curthread = 0 ∧
    queuedState (setTdState s 2 .canRun) 2 = some a ∧ pssCheckPreemptCurr (checkPriorityPreempt a 2) 2 = some s₁ ∧
    pssPutPrevThread s₁ 0 0 = some s₂ ∧ pssPickNextThread s₂ = some (r, s₃) ∧ r ≠ some 0 := by
  have picks : wakeupPick lateWaker 2 = some (((true, true, true), true, true), (.thread 0, .thread 2), 0, some 2) := by
    decide +kernel
  obtain ⟨s, a, s₁, s₂, s₃, ran, enabled, queued, pss, awake, branch, checked, window, put, picked, current, placed⟩ :=
    wakeupPick_spec picks
  refine ⟨s, a, s₁, s₂, s₃, some 2, ran, current, queued, checked, current ▸ put, picked, fun same => ?_⟩
  have other := wakeup_switches _ _ _ s a s₁ s₂ 2 _ _ 0 ran enabled queued pss awake branch checked window put
    (placed rfl) s₃
  rw [current, ← same] at other
  exact other picked

/-- Thread `4` is made a candidate by `pss_switched_to` before it was ever queued, and then moves to group `1`:
the mark stays on the root's queue. -/
def staleLast : List Op :=
  [.sysctl (.schedMinGranularity 6000000), .sysctl (.startDebit false), .prio 0 200, .fork 0 false {}, .prio 2 200,
    .add 2, .switch 6, .sleep 0] ++ List.replicate 30 .tick ++
  [.groupCreate 0 0, .fork 0 false {}, .prio 3 200, .groupMove 3 1, .add 3, .switch 0, .sleep 0, .fork 0 false {},
    .prio 4 200, .schedClass 4 .realtime, .schedClass 4 .timeshare, .sysctl (.schedLast false), .add 2, .groupMove 4 1,
    .add 4, .switch 0, .tick, .tick, .tick]

theorem wakeup_does_not_switch :
    ¬ ∀ (k : Kernel) (tun : Tunables) (ops : List Op) (s a s₁ s₂ : State) (t : Tid) (c se : EntId) (flags : Nat),
      run k tun ops = some s → (Op.add t).enabled s → queuedState (setTdState s t .canRun) t = some a →
      (a.td a.curthread).cls = .pss → (a.td t).tdPriClass ≠ .idle →
      wakeupBranch (checkPriorityPreempt a t) t = some (c, se) →
      pssCheckPreemptCurr (checkPriorityPreempt a t) t = some s₁ → s₁.windowed (a.ent c).sfq →
      pssPutPrevThread s₁ a.curthread flags = some s₂ → ∀ s₃, pssPickNextThread s₂ ≠ some (some a.curthread, s₃) := by
  intro claimed
  have picks : wakeupPick staleLast 3 = some (((true, true, true), true, false), (.thread 4, .thread 3), 4, some 4) := by
    decide +kernel
  obtain ⟨s, a, s₁, s₂, s₃, ran, enabled, queued, pss, awake, branch, checked, window, put, picked, current, _⟩ :=
    wakeupPick_spec picks
  rw [← current] at picked
  exact claimed _ _ _ s a s₁ s₂ 3 _ _ 0 ran enabled queued pss awake branch checked window put s₃ picked

end SfqSched
