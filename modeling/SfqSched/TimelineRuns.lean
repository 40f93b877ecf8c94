import SfqSched.Leftmost
import SfqSched.Membership
import SfqSched.ThreadWeights
import SfqSched.TimelineCalls
import Mathlib.Algebra.BigOperators.Group.Finset.Basic
import Mathlib.Algebra.Order.BigOperators.Group.Finset

namespace SfqSched
open State SearchTree Function

section astray
variable {flags : EntId → Bool} {trees : Gid → Timeline} {e : EntId} {k : Kernel}

/-- Each entity is in one timeline at most, and in one exactly while `SEF_ONSFQ` says so. -/
structure Filed (flags : EntId → Bool) (trees : Gid → Timeline) : Prop where
  distinct : ∀ q, (trees q).seq.Nodup
  apart : ∀ p q e, e ∈ (trees p).seq → e ∈ (trees q).seq → p = q
  flag : ∀ e, flags e = true ↔ ∃ q, e ∈ (trees q).seq

/-- Some timelines hold `e` more often than `SEF_ONSFQ` says. -/
def Astray (flags : EntId → Bool) (trees : Gid → Timeline) (e : EntId) : Prop :=
  ∃ F : Finset Gid, (flags e).toNat < ∑ q ∈ F, (trees q).seq.count e

theorem Filed.not_astray (filed : Filed flags trees) (e : EntId) : ¬Astray flags trees e := by
  rintro ⟨F, more⟩
  by_cases there : ∃ q, e ∈ (trees q).seq
  · obtain ⟨q, member⟩ := there
    rw [(filed.flag e).mpr ⟨q, member⟩] at more
    have elsewhere (p : Gid) (other : p ≠ q) : (trees p).seq.count e = 0 :=
      List.count_eq_zero.mpr fun again => other (filed.apart p q e again member)
    have once : (trees q).seq.count e ≤ 1 := List.nodup_iff_count_le_one.mp (filed.distinct q) e
    have all : ∑ p ∈ F, (trees p).seq.count e ≤ (trees q).seq.count e := by
      by_cases inside : q ∈ F
      · exact (Finset.sum_eq_single_of_mem q inside fun p _ other => elsewhere p other).le
      · rw [Finset.sum_eq_zero fun p within => elsewhere p fun eq => inside (eq ▸ within)]
        exact Nat.zero_le _
    exact absurd more (not_lt.mpr (all.trans once))
  · refine absurd more (not_lt.mpr ?_)
    rw [Finset.sum_eq_zero fun p _ => List.count_eq_zero.mpr fun member => there ⟨p, member⟩]
    exact Nat.zero_le _

/-- What one timeline gains or loses, all timelines together do. -/
theorem sum_count_update (F : Finset Gid) (trees : Gid → Timeline) (q : Gid) (t : Timeline) (e : EntId) :
    ∑ p ∈ insert q F, (update trees q t p).seq.count e + (trees q).seq.count e =
      ∑ p ∈ insert q F, (trees p).seq.count e + t.seq.count e := by
  have inside : q ∈ insert q F := Finset.mem_insert_self q F
  have others : ∑ p ∈ (insert q F).erase q, (update trees q t p).seq.count e =
      ∑ p ∈ (insert q F).erase q, (trees p).seq.count e :=
    Finset.sum_congr rfl fun p member => by rw [update_of_ne (Finset.ne_of_mem_erase member)]
  rw [← Finset.sum_erase_add _ _ inside, ← Finset.sum_erase_add (insert q F) (fun p => (trees p).seq.count e) inside,
    others, update_self]
  omega

/-- No call brings an entity back that has gone astray. -/
theorem Astray.call (astray : Astray flags trees e) (call : TimelineCall) (asserts : call.Asserts flags) :
    Astray (call.mark flags) (call.apply k trees) e := by
  obtain ⟨F, more⟩ := astray
  have wider (q : Gid) : ∑ p ∈ F, (trees p).seq.count e ≤ ∑ p ∈ insert q F, (trees p).seq.count e :=
    Finset.sum_le_sum_of_subset (Finset.subset_insert q F)
  cases call with
  | enqueue before q x =>
    have sum := sum_count_update F trees q (k.insertColor ((trees q).insertLeaf before true x) x) e
    rw [k.insertColor_seq, (insertLeaf_perm ..).count_eq, List.count_cons] at sum
    refine ⟨insert q F, ?_⟩
    show (update flags x true e).toNat < ∑ p ∈ insert q F, (update trees q _ p).seq.count e
    have := wider q
    by_cases here : e = x
    · subst here
      rw [show flags e = false from asserts, Bool.toNat_false] at more
      rw [update_self, Bool.toNat_true]
      simp only [beq_self_eq_true, if_true] at sum
      omega
    · rw [update_of_ne here]
      omega
  | dequeue q x =>
    have sum := sum_count_update F trees q (k.remove (trees q) x) e
    rw [k.remove_seq, List.count_erase] at sum
    refine ⟨insert q F, ?_⟩
    show (update flags x false e).toNat < ∑ p ∈ insert q F, (update trees q _ p).seq.count e
    have := wider q
    by_cases here : e = x
    · subst here
      rw [show flags e = true from asserts, Bool.toNat_true] at more
      rw [update_self, Bool.toNat_false]
      simp only [beq_self_eq_true, if_true] at sum
      omega
    · rw [update_of_ne here]
      rw [if_neg (by simpa using Ne.symm here)] at sum
      omega

theorem Astray.calls (astray : Astray flags trees e) (calls : List TimelineCall) (asserted : AssertedCalls flags calls) :
    Astray (calls.foldl TimelineCall.mark flags) (calls.foldl (TimelineCall.apply k) trees) e := by
  induction calls generalizing flags trees with
  | nil => exact astray
  | cons call calls ih => exact ih (astray.call call asserted.1) asserted.2

end astray

namespace Tlinks
variable {l l' : Tlinks} {trees : Gid → Timeline} {fuel : Nat} {clock : Nat → BitVec 64}

theorem Sound.filed (sound : l.Sound trees) : Filed l.onSfq trees :=
  ⟨fun q => (sound.represents q).distinct, sound.apart, sound.onSfq⟩

theorem exec_onSfq (call : TimelineCall) (run : call.exec fuel l = some l') : l'.onSfq = call.mark l.onSfq := by
  cases call with
  | enqueue before q se =>
    unfold TimelineCall.exec enqueueEntity at run
    dsimp only at run
    split at run
    · cases run
    · obtain ⟨done, _, rfl⟩ := Option.map_eq_some_iff.mp run
      rfl
  | dequeue q se =>
    unfold TimelineCall.exec dequeueEntity at run
    dsimp only at run
    split at run
    · obtain ⟨first, _, run⟩ := Option.bind_eq_some_iff.mp run
      obtain ⟨h, _, rfl⟩ := Option.map_eq_some_iff.mp run
      rfl
    · cases run

/-- Between two states in which every entity is filed, no entity was dequeued
from a timeline that did not hold it. -/
theorem Sound.calls (sound : l.Sound trees) (calls : List TimelineCall) (asserted : AssertedCalls l.onSfq calls)
    (filed : Filed (calls.foldl TimelineCall.mark l.onSfq) (calls.foldl (TimelineCall.apply (treeKernel clock)) trees))
    (enough : ∀ q, (trees q).seq.length + calls.length ≤ fuel) :
    ∃ l', calls.foldlM (TimelineCall.exec fuel) l = some l' ∧
      l'.Sound (calls.foldl (TimelineCall.apply (treeKernel clock)) trees) ∧
      l'.onSfq = calls.foldl TimelineCall.mark l.onSfq ∧ LegalCalls (treeKernel clock) trees calls := by
  induction calls generalizing l trees with
  | nil => exact ⟨l, rfl, sound, rfl, trivial⟩
  | cons call calls ih =>
    obtain ⟨asserts, asserted⟩ := asserted
    rw [List.length_cons] at enough
    have legal : call.Legal trees := by
      cases call with
      | enqueue before q se =>
        intro p member
        have queued := (sound.onSfq se).mpr ⟨p, member⟩
        rw [show l.onSfq se = false from asserts] at queued
        exact Bool.noConfusion queued
      | dequeue q se =>
        by_contra missed
        -- The flag is off now, but the entity is still where it was.
        refine filed.not_astray se (Astray.calls ?_ calls asserted)
        obtain ⟨p, member⟩ := (sound.onSfq se).mp asserts
        have other : p ≠ q := fun eq => missed (eq ▸ member)
        refine ⟨{p}, ?_⟩
        show (Function.update l.onSfq se false se).toNat < ∑ x ∈ {p}, (Function.update trees q _ x).seq.count se
        rw [update_self, Finset.sum_singleton, update_of_ne other]
        exact List.count_pos_iff.mpr member
    have now (q : Gid) : (trees q).seq.length < fuel := by
      have := enough q
      omega
    have later (q : Gid) : (call.apply (treeKernel clock) trees q).seq.length + calls.length ≤ fuel := by
      have := enough q
      have := call.apply_length clock trees q
      omega
    obtain ⟨l₁, run, sound₁⟩ := sound.call clock call legal now
    have marked : l₁.onSfq = call.mark l.onSfq := exec_onSfq call run
    rw [← marked] at asserted
    rw [List.foldl_cons, List.foldl_cons, ← marked] at filed
    obtain ⟨l', runs, sound', flags, rest⟩ := ih sound₁ asserted filed later
    refine ⟨l', ?_, sound', by rw [List.foldl_cons, flags, marked], legal, rest⟩
    rw [List.foldlM_cons, run]
    exact runs

end Tlinks

section runs
variable {C : Conds} {s s' : State} {L : List EntId} {d : Option EntId}

theorem fork_calls (core : s.view.Core L) (parent : Tid) (newProc : Bool) (stale : SchedEntity) :
    Calls s (fork s parent newProc stale) := by
  have off : s.flags (.thread s.nthreads) = false := by
    by_contra there
    have queued := (core.onSfq (.thread s.nthreads)).mp (Bool.not_eq_false _ ▸ there)
    exact absurd (core.valid _ (core.member _ _ queued).1) (lt_irrefl s.nthreads)
  have alloc : Calls s (forkAlloc s parent newProc) := by
    cases newProc <;> exact .still rfl rfl rfl
  have same : (forkAlloc s parent newProc).flags (.thread s.nthreads) = false := by
    cases newProc <;> exact off
  have init (s : State) (child : Tid) (off : s.flags (.thread child) = false) :
      Calls s (schedForkInit s parent child stale) := by
    refine .still rfl rfl (funext fun e => ?_)
    by_cases here : e = .thread child
    · subst here
      rw [off]
      simp [State.flags, schedForkInit, setThreadRq, State.modEnt, State.modTd, State.modGrp]
    · simp [here, State.flags, schedForkInit, setThreadRq, State.modEnt, State.modTd, State.modGrp]
  have first := alloc.trans (init _ s.nthreads same)
  unfold fork schedForkThread
  dsimp only
  split
  · exact first.trans (pssForkThread_steady ..).calls
  · exact first.trans (Steady.emit ..).calls

/-- Every step changes timelines by calls only. -/
theorem Micro.calls (inv : Inv C s L d) (step : Micro C s s') : Calls s s' := by
  cases step with
  | flow step => exact (step.steady inv).calls
  | recast t priClass cls run =>
    rw [run]
    exact .still rfl rfl rfl
  | switchedFrom t priClass cls run =>
    rw [run]
    refine Calls.trans ?_ (pssSwitchedFrom_steady ..).calls
    exact .still rfl rfl rfl
  | switchedTo t priClass run =>
    rw [run]
    refine Calls.trans ?_ (addVtime_steady ..).calls
    exact .still rfl rfl rfl
  | weigh t run =>
    rw [run]
    exact .modEnt _ _ _ rfl
  | nice p nice range run =>
    rw [run]
    exact .still rfl rfl rfl
  | move t onRq run =>
    rw [run]
    exact (pssSchedGroupMove_steady ..).calls
  | fork parent newProc stale run =>
    rw [run]
    exact fork_calls inv.core parent newProc stale
  | exit t run =>
    rw [run]
    exact .still rfl rfl rfl
  | setShares g shares run =>
    rw [run]
    exact .still rfl rfl rfl
  | create parent shares run =>
    rw [run]
    exact schedGroupCreate_calls inv.core parent shares
  | sysctl write tun new run =>
    rw [run]
    exact .still rfl rfl rfl

theorem Path.calls (h : Path C s s') : Calls s s' := by
  induction h with
  | refl => exact .refl _
  | step inv micro _ ih => exact (micro.calls inv).trans ih

theorem filed_of_core (core : s.view.Core L) : Filed s.flags s.trees where
  distinct := core.nodup
  apart p q e member member' := (core.member p e member).2.2.symm.trans (core.member q e member').2.2
  flag e := by
    refine (core.onSfq e).trans ⟨fun there => ⟨_, there⟩, fun there => ?_⟩
    obtain ⟨q, member⟩ := there
    have own : s.view.sfq e = q := (core.member q e member).2.2
    rwa [own]

/-- A timeline is no longer than `nr_running`. -/
theorem timeline_length_le (core : s.view.Core L) (q : Gid) : (s.trees q).seq.length ≤ (s.sfq q).nrRunning := by
  obtain ⟨joined, mem, _, nr⟩ := core.accounts q
  have inside : (s.trees q).seq.toFinset ⊆ joined := fun e there =>
    (mem e).mpr (core.member q e (List.mem_toFinset.mp there))
  have size := Finset.card_le_card inside
  rw [List.toFinset_card_of_nodup (l := (s.trees q).seq) (core.nodup q)] at size
  exact size.trans nr.ge

/-- In a run on the code of `tree.h`, the pointers of all timelines are those of
red-black trees after every operation, no call of `__enqueue_entity` or
`__dequeue_entity` follows a null pointer or loops on, and a descent passes no
more entities than twice the logarithm of the number of runnable ones. -/
theorem timelines_run (clock : Nat → BitVec 64) (tun : Tunables) (ops : List Op) (s : State)
    (ran : run (treeKernel clock) tun ops = some s) : ∃ calls l,
      LegalCalls (treeKernel clock) (fun _ => .leaf) calls ∧
      calls.foldlM (TimelineCall.exec calls.length) {} = some l ∧ l.Sound s.trees ∧ l.onSfq = s.flags ∧
      (∀ q, l.leftmost q = (s.sfq q).leftmost) ∧
      ∀ q, (s.trees q).height ≤ 2 * Nat.log 2 ((s.sfq q).nrRunning + 1) := by
  have runs := run_free ran
  have core := runs.settled.stands.inv.core
  obtain ⟨_, calls, asserted, trees, flags⟩ := runs.path.calls
  have empty : (bootQueues (treeKernel clock) tun).trees = fun _ => .leaf := rfl
  have none : (bootQueues (treeKernel clock) tun).flags = ({} : Tlinks).onSfq :=
    funext fun e => (bootQueues_bare (treeKernel clock) tun e).2.1
  have kernel : (bootQueues (treeKernel clock) tun).kernel = treeKernel clock := rfl
  rw [empty, kernel] at trees
  rw [none] at flags asserted
  have filed := filed_of_core core
  rw [trees, flags] at filed
  obtain ⟨l, run, sound, marks, legal⟩ :=
    Tlinks.sound_empty.calls calls asserted filed (show ∀ q : Gid, _ ≤ calls.length from fun _ => (Nat.zero_add _).le)
  rw [← trees] at sound
  refine ⟨calls, l, legal, run, sound, marks.trans flags.symm, fun q => ?_, fun q => ?_⟩
  · rw [sound.leftmost, runs.led]
    rfl
  · refine (sound.proper q).height_le.trans (Nat.mul_le_mul_left 2 (Nat.log_mono_right ?_))
    exact Nat.succ_le_succ (timeline_length_le core q)

/-- A thread forks two children, which wait. -/
theorem timelines_run_children : ∃ s, run (treeKernel fun _ => 0) {} [.prio 0 200, .fork 0 false {}, .add 2,
      .fork 0 false {}, .add 3] = some s ∧ (s.sfq 0).nrRunning = 3 ∧ ∃ l : Tlinks, l.Sound s.trees ∧
      l.leftmost 0 = (s.sfq 0).leftmost ∧ (s.trees 0).height ≤ 4 := by
  have result : (run (treeKernel fun _ => 0) {} [.prio 0 200, .fork 0 false {}, .add 2, .fork 0 false {}, .add 3]).map
      (fun s => (s.sfq 0).nrRunning) = some 3 := by decide +kernel
  obtain ⟨s, ran, three⟩ := Option.map_eq_some_iff.mp result
  obtain ⟨_, l, _, _, sound, _, leftmost, low⟩ := timelines_run (fun _ => 0) {} _ s ran
  refine ⟨s, ran, three, l, sound, leftmost 0, ?_⟩
  have low := low 0
  rw [three] at low
  exact low.trans (by decide)

end runs

end SfqSched
