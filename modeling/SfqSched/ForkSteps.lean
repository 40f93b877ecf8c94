import SfqSched.CreateSteps

namespace SfqSched
open State Function

namespace View
variable {v : View} {L : List EntId} {d : Option EntId} {p : Tid}

/-- What a new thread, forked by `p`, adds to the hierarchy. -/
def born (v : View) (p : Tid) : View :=
  { v with
    nthreads := v.nthreads + 1
    parent := update v.parent (.thread v.nthreads) (seOf (v.tdGroup p))
    sfq := update v.sfq (.thread v.nthreads) (v.tdGroup p)
    initial := update v.initial (.thread v.nthreads) true
    weight := update v.weight (.thread v.nthreads) (v.weight (.thread p))
    tdState := update v.tdState v.nthreads .inactive
    cls := update v.cls v.nthreads (v.cls p)
    exited := update v.exited v.nthreads false
    noLoad := update v.noLoad v.nthreads false
    idleTd := update v.idleTd v.nthreads false
    tdGroup := update v.tdGroup v.nthreads (v.tdGroup p) }

/-- The thread that comes next is on no queue. -/
structure Unborn (v : View) : Prop where
  joined : v.joined (.thread v.nthreads) = false
  onSfq : v.onSfq (.thread v.nthreads) = false
  onRunq : v.onRunq (.thread v.nthreads) = false

theorem Core.unborn (core : v.Core L) : v.Unborn := by
  have joined : v.joined (.thread v.nthreads) = false := by
    by_contra there
    have valid : (EntId.thread v.nthreads).valid v.nthreads v.ngroups := core.valid _ (by simpa using there)
    exact lt_irrefl _ valid
  refine ⟨joined, core.off joined, ?_⟩
  by_contra there
  have both := core.onRunq _ (by simpa using there)
  exact Bool.noConfusion (joined.symm.trans both.1)

theorem Hier.born (hier : v.Hier) (p : Tid) : (v.born p).Hier where
  positive := hier.positive
  groupSe := hier.groupSe
  groupSfq := hier.groupSfq
  owner := hier.owner
  threadQ := hier.threadQ
  groupQ := hier.groupQ
  lower g := by simpa [View.born] using hier.lower g
  inside e := by
    by_cases new : e = .thread v.nthreads
    · simpa [View.born, new] using hier.tdGroup p
    · simpa [View.born, new] using hier.inside e
  link e := by
    by_cases new : e = .thread v.nthreads
    · simp [View.born, new]
    · simpa [View.born, new] using hier.link e
  tdGroup t := by
    by_cases new : t = v.nthreads
    · simpa [View.born, new] using hier.tdGroup p
    · simpa [View.born, new] using hier.tdGroup t

theorem born_pss {e : EntId} (other : e ≠ .thread v.nthreads) : e.pss (v.born p).cls ↔ e.pss v.cls := by
  cases e with
  | group g => exact Iff.rfl
  | thread u =>
    have apart : u ≠ v.nthreads := by
      rintro rfl
      exact other rfl
    simp [View.born, apart]

/-- A new thread, which no queue has as its current entity. -/
theorem Core.born (core : v.Core L) (inside : p < v.nthreads) (away : EntId.thread v.nthreads ∉ L) :
    (v.born p).Core L := by
  have unborn := core.unborn
  have joins {e : EntId} (joined : v.joined e) : e ≠ .thread v.nthreads := by
    rintro rfl
    exact Bool.noConfusion (unborn.joined.symm.trans joined)
  have same {e : EntId} (other : e ≠ .thread v.nthreads) : (v.born p).sfq e = v.sfq e := update_of_ne other ..
  have out (q : Nat) : EntId.thread v.nthreads ∉ v.timeline q := fun member => joins (core.member q _ member).1 rfl
  exact {
    hier := core.hier.born p
    valid := fun e joined => by
      have old := core.valid e joined
      cases e with
      | thread t => exact Nat.lt_succ_of_lt old
      | group g => exact old
    member := fun q e member => by
      obtain ⟨joined, pss, place⟩ := core.member q e member
      exact ⟨joined, (born_pss (joins joined)).mpr pss, (same (joins joined)).trans place⟩
    nodup := core.nodup
    onSfq := fun e => by
      by_cases new : e = .thread v.nthreads
      · subst new
        exact iff_of_false (by simp [View.born, unborn.onSfq]) (out _)
      · rw [same new]
        exact core.onSfq e
    covered := fun e joined pss => by
      rw [same (joins joined)]
      exact core.covered e joined ((born_pss (joins joined)).mp pss)
    curr := fun q e => by
      by_cases new : e = .thread v.nthreads
      · subst new
        exact iff_of_false (fun current => away ((core.curr q _).mp current).1) (fun both => away both.1)
      · rw [same new]
        exact core.curr q e
    currPss := fun q e current => by
      have other : e ≠ .thread v.nthreads := by
        rintro rfl
        exact away ((core.curr q _).mp current).1
      exact (born_pss other).mpr (core.currPss q e current)
    realtime := core.realtime
    onRunq := core.onRunq
    accounts := fun q => by
      refine (core.accounts q).same (fun e => ?_) (fun e joined _ _ => update_of_ne (joins joined) ..) rfl rfl
      constructor
      · rintro ⟨joined, pss, place⟩
        exact ⟨joined, (born_pss (joins joined)).mp pss, (same (joins joined)).symm.trans place⟩
      · rintro ⟨joined, pss, place⟩
        exact ⟨joined, (born_pss (joins joined)).mpr pss, (same (joins joined)).trans place⟩
    rqWeight := core.rqWeight
    threadWeight := fun t below => by
      by_cases new : t = v.nthreads
      · simpa [View.born, new] using core.threadWeight p inside
      · simpa [View.born, new] using core.threadWeight t (by simp [View.born] at below; omega) }

theorem Tight.born (tight : v.Tight d) (core : v.Core L) (p : Tid) : (v.born p).Tight d where
  shares := tight.shares
  weight e joined pss := by
    have other : e ≠ .thread v.nthreads := by
      rintro rfl
      exact Bool.noConfusion (core.unborn.joined.symm.trans joined)
    have old := tight.weight e joined ((born_pss other).mp pss)
    simpa [View.born, other] using old
  groups := tight.groups
  apart := tight.apart

end View

/-- A new thread is in no class's way. -/
theorem Roster.Ok.born {r r' : Roster} {cpu : Option Nat} {p : Nat} (ok : r.Ok cpu) (other : r.cls p ≠ .idle)
    (same : r' = { r with
      nthreads := r.nthreads + 1, initial := update r.initial r.nthreads true
      tdState := update r.tdState r.nthreads .inactive, cls := update r.cls r.nthreads (r.cls p)
      exited := update r.exited r.nthreads false, noLoad := update r.noLoad r.nthreads false
      idleTd := update r.idleTd r.nthreads false }) : r'.Ok cpu := by
  subst same
  have out : r.joined r.nthreads = false := (ok.unborn _ le_rfl).1
  have below (t : Nat) (taken : cpu = some t) : t ≠ r.nthreads := (ok.current t taken).1.ne
  refine ⟨?_, fun t inside live => ?_, fun t inside gone => ?_, fun t above => ?_, fun t taken => ?_, ?_⟩
  · obtain ⟨m, mem, count, loaded⟩ := ok.counted
    refine ⟨m, mem, count, loaded.trans (congrArg Finset.card (Finset.filter_congr fun t there => ?_))⟩
    have apart : t ≠ r.nthreads := by
      rintro rfl
      exact Bool.noConfusion (out.symm.trans ((mem _).mp there))
    simp [apart]
  · by_cases new : t = r.nthreads
    · subst new
      have free : cpu ≠ some r.nthreads := fun taken => below _ taken rfl
      constructor <;> simp [out, free, other]
    · have fits := ok.live t (by simp at inside; omega) (by simpa [new] using live)
      constructor <;> simp only [update_of_ne new]
      · exact fits.running
      · exact fits.idle
      · exact fits.joined
      · exact fits.started
      · exact fits.only
      · exact fits.idleTd
  · by_cases new : t = r.nthreads
    · simp [new] at gone
    · exact ok.dead t (by simp at inside; omega) (by simpa [new] using gone)
  · have new : t ≠ r.nthreads := by
      simp only at above
      omega
    have old := ok.unborn t (by simp only at above; omega)
    simpa [new] using old
  · obtain ⟨inside, live⟩ := ok.current t taken
    exact ⟨Nat.lt_succ_of_lt inside, by simpa [below t taken] using live⟩
  · obtain ⟨one, inside, live, idleTd⟩ := ok.idle
    have new : 1 ≠ r.nthreads := inside.ne
    exact ⟨one, Nat.lt_succ_of_lt inside, by simpa [new] using live, by simpa [new] using idleTd⟩

section fork
variable {C : Conds} {s s' : State} {L : List EntId} {p : Tid}

theorem forkAlloc_view (s : State) (p : Tid) (newProc : Bool) :
    (forkAlloc s p newProc).view =
      { s.view with
        nthreads := s.view.nthreads + 1
        tdState := update s.view.tdState s.view.nthreads .inactive
        cls := update s.view.cls s.view.nthreads .pss
        exited := update s.view.exited s.view.nthreads false
        noLoad := update s.view.noLoad s.view.nthreads false
        idleTd := update s.view.idleTd s.view.nthreads false
        tdGroup := update s.view.tdGroup s.view.nthreads 0 } := by
  have base (a : State) (t : Tid) (pid : Pid) : (a.modTd t fun _ => forkThread (s.td p) pid).view =
      { a.view with
        tdState := update a.view.tdState t .inactive
        cls := update a.view.cls t .pss
        exited := update a.view.exited t false
        noLoad := update a.view.noLoad t false
        idleTd := update a.view.idleTd t false
        tdGroup := update a.view.tdGroup t 0 } := by
    rw [view_modTd]
    rfl
  cases newProc <;> exact base _ s.nthreads _

theorem schedForkInit_view (core : s.view.Core L) (inside : p < s.view.nthreads) (newProc : Bool) (stale : SchedEntity) :
    (schedForkInit (forkAlloc s p newProc) p s.nthreads stale).view = s.view.born p := by
  have unborn := core.unborn
  have still {α β : Type} [DecidableEq α] {f : α → β} {a : α} {b : β} (same : f a = b) : update f a b = f := by
    rw [← same, update_eq_self]
  have lists (a : State) (h : Gid) : (a.modGrp h fun sg => { sg with threads := sg.threads ++ [s.nthreads] }).view = a.view := by
    rw [view_modGrp]
    simp
  have parent : (forkAlloc s p newProc).td p = s.td p := by
    cases newProc <;> exact update_of_ne inside.ne ..
  obtain ⟨pid, fresh⟩ : ∃ pid, (forkAlloc s p newProc).td s.view.nthreads = forkThread (s.td p) pid := by
    cases newProc <;> exact ⟨_, update_self ..⟩
  have load : ((forkAlloc s p newProc).ent (.thread p)).load = (s.ent (.thread p)).load := by cases newProc <;> rfl
  have groupSe : s.view.groupSe (s.td p).group = seOf (s.view.tdGroup p) := core.hier.groupSe _ (core.hier.tdGroup p)
  have groupSfq : s.view.groupSfq (s.td p).group = s.view.tdGroup p := core.hier.groupSfq _ (core.hier.tdGroup p)
  unfold schedForkInit
  dsimp only
  rw [setThreadRq_view, lists, view_modTd, view_modEnt, load]
  simp only [State.modEnt, parent, fresh, forkAlloc_view, view_nthreads, update_self, update_idem, groupSe, groupSfq]
  ext1
  case myQ => exact still (core.hier.threadQ _)
  case joined => exact still unborn.joined
  case onSfq => exact still unborn.onSfq
  case onRunq => exact still unborn.onRunq
  all_goals rfl

theorem pssForkThread_view (s : State) (p child : Tid) : (pssForkThread s p child).view = s.view := by
  have store (a : State) (e : EntId) (w : BitVec 64) :
      (a.modEnt e fun se => { se with vruntime := w }).view = a.view := by
    rw [view_modEnt]
    simp
  have place (a : State) : (pssForkPlace a p child).view = a.view := by
    unfold pssForkPlace
    dsimp only
    rw [placeEntityInitial_view, store, updateCurr_view]
    rfl
  have swap (a : State) : (pssForkSwap a p child).view = a.view := by
    unfold pssForkSwap
    dsimp only
    rw [(reschedThread_unseen _ p).1, store, view_emit, store]
  unfold pssForkThread
  dsimp only
  rw [view_emit, store]
  split
  · exact (swap _).trans (place s)
  · exact place s

theorem fork_view (core : s.view.Core L) (inside : p < s.view.nthreads) (newProc : Bool) (stale : SchedEntity) :
    (fork s p newProc stale).view = s.view.born p := by
  have init := schedForkInit_view core inside newProc stale
  unfold fork schedForkThread
  dsimp only
  split
  · exact (pssForkThread_view ..).trans init
  · exact init

theorem fork_reached {newProc : Bool} {stale : SchedEntity} (stands : Stands C s (some s.curthread))
    (inside : p < s.view.nthreads) (live : s.view.exited p = false) (notIdle : s.view.idleTd p = false)
    (swap : C.forks → ¬forkSwapsQueued s p newProc stale) : Reached C s (fork s p newProc stale) := by
  have core := stands.inv.core
  have view := fork_view core inside newProc stale
  have other : s.view.roster.cls p ≠ .idle := fun idle => by
    have one := (stands.roster.live p inside live).only idle
    have idleTd : s.view.idleTd 1 = true := stands.roster.idle.2.2.2
    rw [one, idleTd] at notIdle
    cases notIdle
  have there := stands.roster.current s.curthread rfl
  have off : some s.curthread ≠ some s.view.nthreads := fun same => there.1.ne (Option.some.inj same)
  have away := stands.away off
  have inv : Inv C (fork s p newProc stale) (currentOn s (some s.curthread)) none := by
    refine ⟨?_, fun positive => ?_, ?_⟩
    · rw [view]
      exact core.born inside away
    · rw [view]
      exact (stands.inv.tight positive).born core p
    · rw [view]
      exact stands.inv.filled
  have current : (fork s p newProc stale).curthread = s.curthread := congrArg View.curthread view
  have chain : currentOn (fork s p newProc stale) (some s.curthread) = currentOn s (some s.curthread) := by
    refine currentOn_kept core.hier inv.core.hier (fun u taken => ?_) fun e member => ?_
    · rw [view]
      refine update_of_ne ?_ ..
      rintro rfl
      exact off taken
    · rw [view]
      refine update_of_ne ?_ ..
      rintro rfl
      exact away member
  refine ⟨.one stands.inv (.fork p newProc stale rfl inside live (stands.busy.time stands.inv) swap), ?_, ?_⟩
  · rw [current, chain]
    exact inv
  · rw [current, view]
    refine stands.roster.born other ?_
    simp [View.roster, View.born, update_thread]

end fork
end SfqSched
