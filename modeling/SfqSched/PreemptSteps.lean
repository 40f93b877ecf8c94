import SfqSched.ChooseSteps

namespace SfqSched
open State Function

section priority
variable (s : State) (t : Tid)

/-- A store that neither the view nor the books show. -/
def Unseen (s s' : State) : Prop := s'.view = s.view ∧ s'.books = s.books ∧ Steady s s'

theorem Unseen.refl : Unseen s s := ⟨rfl, rfl, .refl s⟩

theorem Unseen.trans {s s' s'' : State} (h : Unseen s s') (h' : Unseen s' s'') : Unseen s s'' :=
  ⟨h'.1.trans h.1, h'.2.1.trans h.2.1, h.2.2.trans h'.2.2⟩

/-- What is unseen keeps all that can be seen. -/
theorem Unseen.reaches {C : Conds} {s s' : State} {L : List EntId} (h : Unseen s s') (inv : Inv C s L none) :
    Reaches C s s' L s.view.roster :=
  ⟨.quiet inv (.of_view h.1 h.2.1 h.2.2), inv.of_bones (by rw [h.1]), by rw [h.1], by rw [h.1]⟩

/-- A store to a thread that leaves what the view shows of it. -/
theorem Unseen.modTd (f : Thread → Thread)
    (same : (f (s.td t)).tdState = (s.td t).tdState ∧ (f (s.td t)).cls = (s.td t).cls ∧
      (f (s.td t)).exited = (s.td t).exited ∧ (f (s.td t)).noLoad = (s.td t).noLoad ∧
      (f (s.td t)).idleTd = (s.td t).idleTd ∧ (f (s.td t)).group = (s.td t).group)
    (proc : (f (s.td t)).proc = (s.td t).proc) (priClass : (f (s.td t)).tdPriClass = (s.td t).tdPriClass) :
    Unseen s (s.modTd t f) := by
  obtain ⟨state, cls, exited, noLoad, idleTd, group⟩ := same
  refine ⟨?_, rfl, .modTd _ _ _ proc priClass exited⟩
  simp [view_modTd, state, cls, exited, noLoad, idleTd, group]

/-- The lists of threads are nobody's business here. -/
theorem threads_unseen (s : State) (g : Gid) (f : List Tid → List Tid) :
    Unseen s (s.modGrp g fun sg => { sg with threads := f sg.threads }) := by
  refine ⟨?_, rfl, .modGrp ..⟩
  rw [view_modGrp]
  simp

/-- Whether a thread is asked cannot be seen. -/
theorem reschedThread_unseen : Unseen s (reschedThread s t) := ⟨by simp, by simp, reschedThread_steady ..⟩

/-- By its priority a thread only asks. -/
theorem checkPriorityPreempt_unseen : Unseen s (checkPriorityPreempt s t) := by
  unfold checkPriorityPreempt
  dsimp only
  split
  · exact .refl s
  · split
    · exact reschedThread_unseen ..
    · split
      · refine (reschedThread_unseen s _).trans (.modTd _ _ _ ?_ rfl rfl)
        exact ⟨rfl, rfl, rfl, rfl, rfl, rfl⟩
      · exact reschedThread_unseen ..

theorem wakeupPreemptEntity_unseen (c e : EntId) : Unseen s (wakeupPreemptEntity s c e).2 :=
  ⟨by simp, by simp, wakeupPreemptEntity_steady ..⟩

end priority

section reaches
variable {C : Conds} {s s' : State} {L : List EntId}

/-- A charge is a step of its own. -/
theorem updateCurr_reaches (inv : Inv C s L none) (q : Gid) : Reaches C s (updateCurr s q) L s.view.roster :=
  ⟨.flow inv (.charge q rfl), inv.of_bones (by simp), by simp, by simp⟩

/-- An operation's part that only writes candidates, along the chain of a joined entity. -/
theorem marks_reaches {e : EntId} (inv : Inv C s L none) (rank : e.rank s.view.ngroups < s.view.ngroups + 1)
    (seated : C.positive → C.marks → s.view.seated e) (view : s'.view = s.view)
    (marked : s.books.Marked (onChain s.view (walkup s (some e))) s'.books) (steady : Steady s s') :
    Reaches C s s' L s.view.roster :=
  ⟨marks_path inv rank seated view marked steady, inv.of_bones (by rw [view]), by rw [view], by rw [view]⟩

/-- Clearing candidates is a step of its own. -/
theorem clearCandidates_reaches (inv : Inv C s L none) (q : Gid) (e : EntId) :
    Reaches C s (clearCandidates s q e) L s.view.roster := by
  have marked : s.books.Marked (fun _ _ => False) (clearCandidates s q e).books := clearCandidates_marked ..
  exact ⟨.flow inv (.mark _ (by simp) marked (clearCandidates_steady ..) (by simp)), inv.of_bones (by simp), by simp,
    by simp⟩

theorem walkup_rank (hier : s.view.Hier) (t : Tid) :
    ∀ e ∈ walkup s (some (.thread t)), e.rank s.view.ngroups < s.view.ngroups + 1 := by
  refine (hier.chain (e := .thread t) (Nat.lt_succ_self _)).all ?_ fun a b below up => ?_
  · rintro a ⟨⟩
    exact Nat.lt_succ_self _
  · have falls := hier.rank_falls a b up
    omega

/-- The only thread on the chain of a thread is this thread. -/
theorem walkup_thread (hier : s.view.Hier) {t u : Tid} (member : EntId.thread u ∈ walkup s (some (.thread t))) :
    u = t := by
  obtain ⟨rest, eq, _, _, groups⟩ := thread_chain hier t
  rw [eq] at member
  rcases List.mem_cons.mp member with same | above
  · cases same
    rfl
  · obtain ⟨g, never⟩ := groups _ above
    cases never

/-- What two climbs meet at is on both. -/
theorem climbTogether_mem {as bs : List EntId} {a b : EntId} (h : climbTogether s as bs = some (a, b)) :
    a ∈ as ∧ b ∈ bs := by
  fun_induction climbTogether s as bs with
  | case1 x as y bs same =>
    cases h
    exact ⟨List.mem_cons_self .., List.mem_cons_self ..⟩
  | case2 x as y bs other ih =>
    obtain ⟨inA, inB⟩ := ih h
    exact ⟨List.mem_cons_of_mem _ inA, List.mem_cons_of_mem _ inB⟩
  | case3 => cases h

/-- The two entities that are compared are on the chains of the two threads. -/
theorem findCommonAncestor_mem {x y a b : EntId} (h : findCommonAncestor s x y = some (a, b)) :
    a ∈ walkup s (some x) ∧ b ∈ walkup s (some y) := by
  obtain ⟨inA, inB⟩ := climbTogether_mem h
  exact ⟨List.mem_of_mem_drop inA, List.mem_of_mem_drop inB⟩

end reaches

/-- The entity `pss_check_preempt_curr` makes a candidate, if it makes one. -/
def preemptCandidate (s : State) (t : Tid) : Option EntId :=
  let ctd := s.curthread
  if (s.td ctd).needResched then none
  else if (s.td ctd).tdPriClass = .idle ∧ (s.td t).tdPriClass ≠ .idle then
    if s.tun.schedLast ∧ s.tun.schedNrLatency ≤ (s.sfq (s.ent (.thread ctd)).sfq).nrRunning then some (.thread t)
    else none
  else
    (findCommonAncestor s (.thread ctd) (.thread t)).bind fun (curr, se) =>
      if (wakeupPreemptEntity (updateCurr s (s.ent curr).sfq) curr se).1 > 0 ∧ !idleThreadEntity s se then some se
      else none

/-- The same for `check_preempt_curr`. -/
def preemptMark (s : State) (t : Tid) : Option EntId :=
  let s := checkPriorityPreempt s t
  if (s.td s.curthread).cls = (s.td t).cls ∧ (s.td t).cls = .pss then preemptCandidate s t else none

section preempt
variable {C : Conds} {s s' : State} {L : List EntId} {t : Tid}

theorem idleThreadEntity_congr (myQ : s'.view.myQ = s.view.myQ)
    (priClass : ∀ t, (s'.td t).tdPriClass = (s.td t).tdPriClass) (e : EntId) :
    idleThreadEntity s' e = idleThreadEntity s e := by
  have same : seToTd s' e = seToTd s e := by
    rw [seToTd_view, seToTd_view, myQ]
  unfold idleThreadEntity
  rw [same]
  split <;> simp [priClass]

/-- Marking a seated chain is a step of its own. -/
theorem setNextCandidate_reaches {e : EntId} (inv : Inv C s L none)
    (rank : e.rank s.view.ngroups < s.view.ngroups + 1)
    (seated : C.positive → C.marks → idleThreadEntity s e = false → s.view.seated e) :
    Reaches C s (setNextCandidate s e) L s.view.roster := by
  by_cases idle : idleThreadEntity s e
  · have same : setNextCandidate s e = s := by simp [setNextCandidate, idle]
    rw [same]
    exact .refl inv
  · exact marks_reaches inv rank (fun positive marks => seated positive marks (by simpa using idle)) (by simp)
      (setNextCandidate_marked _) (setNextCandidate_steady ..)

theorem setLastCandidate_reaches {e : EntId} (inv : Inv C s L none)
    (rank : e.rank s.view.ngroups < s.view.ngroups + 1)
    (seated : C.positive → C.marks → idleThreadEntity s e = false → s.view.seated e) :
    Reaches C s (setLastCandidate s e) L s.view.roster := by
  by_cases idle : idleThreadEntity s e
  · have same : setLastCandidate s e = s := by simp [setLastCandidate, idle]
    rw [same]
    exact .refl inv
  · exact marks_reaches inv rank (fun positive marks => seated positive marks (by simpa using idle)) (by simp)
      (setLastCandidate_marked _) (setLastCandidate_steady ..)

/-- The thread that runs is asked, and the other one may become the last candidate. -/
theorem preemptCurr_reaches {e : EntId} {c : Tid} {b : Bool} (inv : Inv C s L none)
    (rank : e.rank s.view.ngroups < s.view.ngroups + 1)
    (seated : C.positive → C.marks → s.tun.schedLast ∧ b → idleThreadEntity s e = false → s.view.seated e) :
    Reaches C s (preemptCurr s c e b) L s.view.roster := by
  have first := (reschedThread_unseen s c).reaches inv
  have same : idleThreadEntity (reschedThread s c) e = idleThreadEntity s e :=
    idleThreadEntity_congr (by simp) (reschedThread_steady ..).priClass e
  unfold preemptCurr
  dsimp only
  split
  · rename_i both
    have second := setLastCandidate_reaches (e := e) first.inv (by simpa using rank) (fun positive marks idle => by
      simpa using seated positive marks ⟨both.1, both.2.1⟩ (same ▸ idle))
    rw [first.roster] at second
    exact first.trans second
  · exact first

/-- The check within `pss_class`, from its charge to its marks. -/
theorem pssCheckPreemptCurr_reaches (inv : Inv C s L none)
    (seated : C.positive → C.marks → ∀ e, preemptCandidate s t = some e → s.view.seated e)
    (run : pssCheckPreemptCurr s t = some s') : Reaches C s s' L s.view.roster := by
  unfold pssCheckPreemptCurr at run
  unfold preemptCandidate at seated
  dsimp only at run seated
  split at run
  · cases run
    exact .refl inv
  · rename_i free
    rw [if_neg free] at seated
    split at run
    · rename_i idle
      rw [if_pos idle] at seated
      cases run
      refine preemptCurr_reaches inv (Nat.lt_succ_self _) fun positive marks both _ => ?_
      exact seated positive marks (.thread t) (if_pos ⟨both.1, of_decide_eq_true both.2⟩)
    · rename_i busy
      rw [if_neg busy] at seated
      obtain ⟨⟨curr, se⟩, found, done⟩ := Option.map_eq_some_iff.mp run
      rw [found] at seated
      have rank := walkup_rank inv.core.hier t se (findCommonAncestor_mem found).2
      have first := updateCurr_reaches inv (s.view.sfq curr)
      have unseen := wakeupPreemptEntity_unseen (updateCurr s (s.view.sfq curr)) curr se
      have second := unseen.reaches first.inv
      rw [first.roster] at second
      have both := first.trans second
      have view : (wakeupPreemptEntity (updateCurr s (s.view.sfq curr)) curr se).2.view = s.view := by simp
      have steady : Steady s (wakeupPreemptEntity (updateCurr s (s.view.sfq curr)) curr se).2 :=
        (updateCurr_steady ..).trans unseen.2.2
      dsimp only at done
      split at done
      · rename_i preempts
        have mark (positive : C.positive) (marks : C.marks) (other : idleThreadEntity s se = false) : s.view.seated se :=
          seated positive marks se (if_pos ⟨preempts, by simp [other]⟩)
        have third := setNextCandidate_reaches (e := se) both.inv (by rw [view]; exact rank) (fun positive marks idle => by
          rw [view]
          refine mark positive marks ?_
          rw [← idle]
          exact (idleThreadEntity_congr (by rw [view]) steady.priClass se).symm)
        have fourth := preemptCurr_reaches (e := se) (c := s.curthread)
          (b := s.tun.schedNrLatency ≤ (s.sfq (s.ent (.thread s.curthread)).sfq).nrRunning) third.inv
          (by rw [setNextCandidate_view, view]; exact rank) (fun positive marks _ idle => by
            rw [setNextCandidate_view, view]
            refine mark positive marks ?_
            rw [← idle]
            refine (idleThreadEntity_congr ?_ ?_ se).symm
            · rw [setNextCandidate_view, view]
            · exact (steady.trans (setNextCandidate_steady ..)).priClass)
        rw [third.roster] at fourth
        have both' := third.trans fourth
        rw [both.roster] at both'
        rw [← done]
        exact both.trans both'
      · rw [← done]
        exact both

/-- The check of a thread that wakes up or changes its class. -/
theorem checkPreemptCurr_reaches (inv : Inv C s L none)
    (joined : C.positive → C.marks → ∀ e, preemptMark s t = some e → s.view.joined e)
    (run : checkPreemptCurr s t = some s') : Reaches C s s' L s.view.roster := by
  have unseen := checkPriorityPreempt_unseen s t
  have first := unseen.reaches inv
  unfold checkPreemptCurr at run
  unfold preemptMark at joined
  dsimp only at run joined
  split at run
  · rename_i both
    rw [if_pos both] at joined
    have pss : s.view.cls t = .pss := by
      rw [← unseen.1]
      exact both.2
    have second := pssCheckPreemptCurr_reaches first.inv (fun positive marks e mark => ?_) run
    · rw [first.roster] at second
      exact first.trans second
    · rw [unseen.1]
      refine ⟨joined positive marks e mark, ?_⟩
      cases e with
      | group g => trivial
      | thread u =>
        have same : u = t := by
          unfold preemptCandidate at mark
          dsimp only at mark
          split at mark
          · cases mark
          · split at mark
            · split at mark
              · cases mark
                rfl
              · cases mark
            · obtain ⟨⟨curr, se⟩, found, mark⟩ := Option.bind_eq_some_iff.mp mark
              dsimp only at mark
              split at mark
              · cases mark
                exact walkup_thread first.inv.core.hier (findCommonAncestor_mem found).2
              · cases mark
        rw [same]
        exact pss
  · cases run
    exact first

end preempt
end SfqSched
