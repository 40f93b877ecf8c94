import SfqSched.SwitchSteps

namespace SfqSched
open State Function

namespace View
variable {v : View} {L : List EntId} {d : Option EntId} {t : Tid}

/-- The weight of a thread outside the accounts may change. -/
theorem Core.weigh (core : v.Core L) (apart : ¬v.seated (.thread t)) {w : Nat} (pos : 0 < w) :
    ({ v with weight := update v.weight (.thread t) w } : View).Core L where
  hier := { core.hier with }
  valid := core.valid
  member := core.member
  nodup := core.nodup
  onSfq := core.onSfq
  covered := core.covered
  curr := core.curr
  currPss := core.currPss
  realtime := core.realtime
  onRunq := core.onRunq
  accounts q := by
    refine (core.accounts q).same (fun _ => Iff.rfl) (fun e joined pss _ => ?_) rfl rfl
    have other : e ≠ .thread t := by
      rintro rfl
      exact apart ⟨joined, pss⟩
    exact update_of_ne other ..
  rqWeight := core.rqWeight
  threadWeight u inside := by
    by_cases same : u = t
    · subst same
      simpa using pos
    · simpa [same] using core.threadWeight u inside

theorem Tight.weigh (tight : v.Tight d) (apart : ¬v.seated (.thread t)) {w : Nat} :
    ({ v with weight := update v.weight (.thread t) w } : View).Tight d where
  shares := tight.shares
  weight e joined pss := by
    have other : e ≠ .thread t := by
      rintro rfl
      exact apart ⟨joined, pss⟩
    simpa [other] using tight.weight e joined pss
  groups := tight.groups
  apart := tight.apart

def setClass (v : View) (t : Tid) (cls : SchedClass) : View := { v with cls := update v.cls t cls }

theorem setClass_pss {cls : SchedClass} {e : EntId} (other : e ≠ .thread t) :
    e.pss (v.setClass t cls).cls ↔ e.pss v.cls := by
  cases e with
  | group g => exact Iff.rfl
  | thread u =>
    have apart : u ≠ t := by
      rintro rfl
      exact other rfl
    simp [setClass, apart]

/-- A detached thread may change its class. -/
theorem Core.setClass (core : v.Core L) (apart : Detached v t) (cls : SchedClass) : (v.setClass t cls).Core L := by
  have joins {e : EntId} (joined : v.joined e) : e ≠ .thread t := by
    rintro rfl
    exact Bool.noConfusion (apart.apart.symm.trans joined)
  exact {
    hier := { core.hier with }
    valid := core.valid
    member := fun q e member => by
      obtain ⟨joined, pss, place⟩ := core.member q e member
      exact ⟨joined, (setClass_pss (joins joined)).mpr pss, place⟩
    nodup := core.nodup
    onSfq := core.onSfq
    covered := fun e joined pss => core.covered e joined ((setClass_pss (joins joined)).mp pss)
    curr := core.curr
    currPss := fun q e current => by
      have other : e ≠ .thread t := by
        rintro rfl
        exact apart.away q current
      exact (setClass_pss other).mpr (core.currPss q e current)
    realtime := core.realtime
    onRunq := core.onRunq
    accounts := fun q => by
      refine (core.accounts q).same (fun e => ?_) (fun _ _ _ _ => rfl) rfl rfl
      constructor
      · rintro ⟨joined, pss, place⟩
        exact ⟨joined, (setClass_pss (joins joined)).mp pss, place⟩
      · rintro ⟨joined, pss, place⟩
        exact ⟨joined, (setClass_pss (joins joined)).mpr pss, place⟩
    rqWeight := core.rqWeight
    threadWeight := core.threadWeight }

theorem Tight.setClass (tight : v.Tight d) (apart : Detached v t) (cls : SchedClass) : (v.setClass t cls).Tight d where
  shares := tight.shares
  weight e joined pss := by
    have other : e ≠ .thread t := by
      rintro rfl
      exact Bool.noConfusion (apart.apart.symm.trans joined)
    exact tight.weight e joined ((setClass_pss other).mp pss)
  groups := tight.groups
  apart := tight.apart

/-- The thread's place in the hierarchy after `set_thread_rq`. -/
def place (v : View) (t : Tid) (g : Nat) : View :=
  { v with
    tdGroup := update v.tdGroup t g
    sfq := update v.sfq (.thread t) g
    parent := update v.parent (.thread t) (seOf g) }

theorem Hier.place (hier : v.Hier) {g : Nat} (inside : g < v.ngroups) : (v.place t g).Hier where
  positive := hier.positive
  groupSe := hier.groupSe
  groupSfq := hier.groupSfq
  owner := hier.owner
  threadQ := hier.threadQ
  groupQ := hier.groupQ
  lower := hier.lower
  inside := fun e => by
    by_cases here : e = .thread t
    · simpa [View.place, here] using inside
    · simpa [View.place, here] using hier.inside e
  link := fun e => by
    by_cases here : e = .thread t
    · simp [View.place, here]
    · simpa [View.place, here] using hier.link e
  tdGroup := fun u => by
    by_cases here : u = t
    · simpa [View.place, here] using inside
    · simpa [View.place, here] using hier.tdGroup u

/-- A detached thread may move to another group. -/
theorem Core.place (core : v.Core L) (apart : Detached v t) {g : Nat} (inside : g < v.ngroups) :
    (v.place t g).Core L := by
  have joins {e : EntId} (joined : v.joined e) : e ≠ .thread t := by
    rintro rfl
    exact Bool.noConfusion (apart.apart.symm.trans joined)
  have off : v.onSfq (.thread t) = false := core.off apart.apart
  have out (q : Nat) : EntId.thread t ∉ v.timeline q := core.out off q
  have same {e : EntId} (other : e ≠ .thread t) : (v.place t g).sfq e = v.sfq e := update_of_ne other ..
  have away : EntId.thread t ∉ L := fun member =>
    apart.away (v.sfq (.thread t)) ((core.curr _ _).mpr ⟨member, rfl⟩)
  exact {
    hier := core.hier.place inside
    valid := core.valid
    member := fun q e member => by
      obtain ⟨joined, pss, place⟩ := core.member q e member
      exact ⟨joined, pss, (same (joins joined)).trans place⟩
    nodup := core.nodup
    onSfq := fun e => by
      by_cases here : e = .thread t
      · subst here
        exact iff_of_false (by simp [View.place, off]) (out _)
      · rw [same here]
        exact core.onSfq e
    covered := fun e joined pss => by
      rw [same (joins joined)]
      exact core.covered e joined pss
    curr := fun q e => by
      by_cases here : e = .thread t
      · subst here
        exact iff_of_false (apart.away q) (fun both => away both.1)
      · rw [same here]
        exact core.curr q e
    currPss := core.currPss
    realtime := core.realtime
    onRunq := core.onRunq
    accounts := fun q => by
      refine (core.accounts q).same (fun e => ?_) (fun _ _ _ _ => rfl) rfl rfl
      constructor
      · rintro ⟨joined, pss, place⟩
        exact ⟨joined, pss, (same (joins joined)).symm.trans place⟩
      · rintro ⟨joined, pss, place⟩
        exact ⟨joined, pss, (same (joins joined)).trans place⟩
    rqWeight := core.rqWeight
    threadWeight := core.threadWeight }

theorem Tight.place (tight : v.Tight d) (g : Nat) : (v.place t g).Tight d := { tight with }

end View

section detached
variable {C : Conds} {s s' a b : State} {cpu : Option Tid} {t : Tid} {L : List EntId}

theorem Detached.congr {v v' : View} (h : Detached v t) (nthreads : v'.nthreads = v.nthreads)
    (exited : v'.exited = v.exited) (joined : v'.joined = v.joined) (curr : v'.curr = v.curr) : Detached v' t :=
  ⟨nthreads ▸ h.inside, exited ▸ h.live, joined ▸ h.apart, curr ▸ h.away⟩

/-- A thread that was taken off is detached, and what else is on the CPU stays there. -/
theorem takenOff_detached (stands : Stands C s cpu) (inside : t < s.view.nthreads) (live : s.view.exited t = false)
    (off : Reaches C s b (if cpu = some t then [] else currentOn s cpu) (s.view.roster.takeOff t)) :
    Detached b.view t ∧ Busy b (if cpu = some t then [] else currentOn s cpu) := by
  have beside := off.roster ▸ Roster.takeOff_beside s.view.roster t
  have away : EntId.thread t ∉ (if cpu = some t then [] else currentOn s cpu) := by
    split
    · simp
    · rename_i other
      exact stands.away other
  refine ⟨⟨?_, ?_, ?_, fun q current => away ((off.inv.core.curr q _).mp current).1⟩, ?_⟩
  · have same : b.view.nthreads = s.view.nthreads := beside.nthreads
    rw [same]
    exact inside
  · have same : b.view.roster.exited t = s.view.roster.exited t := by
      rw [off.roster]
      exact (Roster.takeOff_self s.view.roster t).2.2
    exact same.trans live
  · have out := (stands.roster.takeOff inside live).2.1
    rw [← off.roster] at out
    exact out
  · split
    · exact .inl rfl
    · rename_i other
      refine stands.busy.congr off.frame fun u member seated => ?_
      have apart : u ≠ t := by
        rintro rfl
        exact stands.away other member
      have joined : b.view.joined (.thread u) = s.view.joined (.thread u) := beside.joined u apart
      have cls : b.view.cls u = s.view.cls u := beside.cls u apart
      exact ⟨joined.trans seated.1, cls.trans seated.2⟩

/-- Chains are the same where the parents on them are. -/
theorem walkup_same (hier : s.view.Hier) (hier' : s'.view.Hier) {u : Tid}
    (same : ∀ e ∈ walkup s (some (.thread u)), s'.view.parent e = s.view.parent e) :
    walkup s' (some (.thread u)) = walkup s (some (.thread u)) := by
  have old := (hier.chain (e := .thread u) (Nat.lt_succ_self _)).frame same
  have new := hier'.chain (e := .thread u) (Nat.lt_succ_self _)
  exact new.unique old

/-- Only the parent of thread `t` has changed, which is not on the chain of what is on the CPU. -/
theorem currentOn_same (hier : s.view.Hier) (hier' : s'.view.Hier) (cls : s'.view.cls = s.view.cls)
    (parent : ∀ e, e ≠ .thread t → s'.view.parent e = s.view.parent e)
    (other : cpu ≠ some t) : currentOn s' cpu = currentOn s cpu := by
  cases cpu with
  | none => rfl
  | some u =>
    simp only [currentOn, cpuChain, cls]
    split
    · refine walkup_same hier hier' fun e member => parent e ?_
      rintro rfl
      have same := walkup_thread hier member
      exact other (by rw [same])
    · rfl

theorem Busy.same (busy : Busy s L) (joined : s'.view.joined = s.view.joined)
    (cls : ∀ u, EntId.thread u ∈ L → s'.view.cls u = s.view.cls u)
    (chain : ∀ u, L = walkup s (some (.thread u)) → walkup s' (some (.thread u)) = walkup s (some (.thread u))) :
    Busy s' L := by
  rcases busy with rfl | ⟨u, rfl, seated⟩
  · exact .inl rfl
  · refine .inr ⟨u, (chain u rfl).symm, ?_, ?_⟩
    · rw [joined]
      exact seated.1
    · have member : EntId.thread u ∈ walkup s (some (.thread u)) := by
        rw [show walkup s (some (.thread u)) = .thread u :: _ from rfl]
        exact List.mem_cons_self ..
      exact (cls u member).trans seated.2

/-- A live thread is taken off, something about it is changed, and it is put on again. -/
theorem reattach {c d : State} {cls : SchedClass} {clock : State → State} (stands : Stands C s cpu)
    (inside : t < s.view.nthreads) (live : s.view.exited t = false)
    (off : Reaches C s b (if cpu = some t then [] else currentOn s cpu) (s.view.roster.takeOff t))
    (inv : Inv C c (if cpu = some t then [] else currentOn s cpu) none)
    (busy : Busy c (if cpu = some t then [] else currentOn s cpu))
    (roster : c.view.roster = (s.view.roster.takeOff t).setClass t cls)
    (same : cpu ≠ some t → currentOn c cpu = currentOn s cpu)
    (idleTd : cls = .idle → s.view.idleTd t ∨ s.view.cls t = .idle) (clocks : Clocks clock)
    (enq : (if s.view.tdState t = .runq ∨ s.view.tdState t = .running
      then classEnqueueThread (c.view.cls t) (clock c) t 0 else some c) = some a)
    (act : (if s.view.tdState t = .running then (activateThread a t).map fun s => setTdState s t .running
      else some a) = some d) :
    Path C c d ∧ Stands C d cpu ∧ d.view.curthread = s.view.curthread ∧ d.view.frame = c.view.frame ∧
      d.view.roster = ((s.view.roster.takeOff t).setClass t cls).putOn t (s.view.roster.queued t)
        (s.view.roster.tdState t = .running) := by
  have fits := stands.roster.live t inside live
  have beside := (Roster.takeOff_beside s.view.roster t).trans (Roster.setClass_beside _ t cls)
  rw [← roster] at beside
  have inside' : t < c.view.nthreads := by
    have same : c.view.nthreads = s.view.nthreads := beside.nthreads
    rw [same]
    exact inside
  obtain ⟨_, out, state⟩ := stands.roster.takeOff inside live
  have apart : c.view.roster.joined t = false := by
    rw [roster]
    exact out
  have form (queued : s.view.tdState t = .runq ∨ s.view.tdState t = .running) (_ : c.view.cls t = .pss)
      (isForked : forked t) : ¬c.view.absolute t := by
    have other : s.view.roster.cls t ≠ .idle := fun idle => not_forked_one (fits.only idle ▸ isForked)
    have kept : c.view.roster.tdState t = s.view.roster.tdState t := by
      rw [roster]
      exact state other
    rintro ⟨_, joined | ⟨_, notRunq, notRunning⟩⟩
    · exact Bool.noConfusion (apart.symm.trans joined)
    · rcases queued with runq | running
      · exact notRunq (kept.trans runq)
      · exact notRunning (kept.trans running)
  have back := putOn_reaches inv busy clocks inside' apart form
    (fun running => ⟨.inr running, if_pos (fits.running.mp running)⟩) enq act
  have final := stands.roster.recast inside live idleTd
  have eq : d.view.roster =
      ((s.view.roster.takeOff t).setClass t cls).putOn t (s.view.roster.queued t)
        (s.view.roster.tdState t = .running) := by
    rw [back.roster, roster]
    rfl
  refine ⟨back.path, ⟨?_, by rw [eq]; exact final⟩, ?_, back.frame, eq⟩
  · by_cases running : s.view.tdState t = .running
    · have onCpu : cpu = some t := fits.running.mp running
      have inv' := back.inv
      rw [if_pos running] at inv'
      rw [onCpu]
      exact inv'
    · have offCpu : cpu ≠ some t := fun onCpu => running (fits.running.mpr onCpu)
      have inv' := back.inv
      rw [if_neg running, if_neg offCpu, ← same offCpu] at inv'
      rw [currentOn_congr back.frame fun u taken => ?_]
      · exact inv'
      · have other : u ≠ t := by
          rintro rfl
          exact offCpu taken
        have kept := (Roster.putOn_beside c.view.roster t (s.view.tdState t = .runq ∨ s.view.tdState t = .running)
          (s.view.tdState t = .running)).cls u other
        rw [← back.roster] at kept
        exact kept
  · have kept : ∀ r : Roster, ∀ q k : Prop, ∀ [Decidable q] [Decidable k],
        ((r.takeOff t).setClass t cls |>.putOn t q k).curthread = r.curthread := by
      intro r q k _ _
      unfold Roster.putOn Roster.takeOff
      dsimp only
      split_ifs <;> rfl
    exact (congrArg Roster.curthread eq).trans (kept ..)

end detached
end SfqSched
