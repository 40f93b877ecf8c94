import SfqSched.Frame
import SfqSched.Step

namespace SfqSched
open State Function

/-- The parts of the scheduler's memory that its functions write, field by field where it matters who writes what. -/
inductive Cell
  | tun | reads | curthread | ngroups | nthreads | nprocs | journal
  | onSfq | onRunq | vruntime | times | initial | joined | weight | invWeight | place | myQ
  | timeline | curr | candidates | vtime | nr | sfqLoad | owner | onLeafList
  | tree | members | shares
  | tdState | priority | userPri | cls | asked | tdGroup | exited | identity
  | proc
  | realtime | rtCurr | clock | counts | rqLoad | leafSfqList
  deriving DecidableEq

variable (w : Cell → Bool)

/-- A value, or nothing if it is covered. -/
def blank {α : Type} (covered : Bool) (nothing value : α) : α := bif covered then nothing else value

/-- To hide less first does not matter. -/
theorem blank_blank {α : Type} {a b : Bool} (le : a ≤ b) (nothing value : α) :
    blank b nothing (blank a nothing value) = blank b nothing value := by
  cases a <;> cases b <;> first | rfl | exact absurd le (by decide)

def SchedEntity.hide (x : SchedEntity) : SchedEntity where
  onSfq := blank (w .onSfq) false x.onSfq
  onRunq := blank (w .onRunq) false x.onRunq
  vruntime := blank (w .vruntime) 0 x.vruntime
  timingStart := blank (w .times) 0 x.timingStart
  sumExecTime := blank (w .times) 0 x.sumExecTime
  prevSumExecTime := blank (w .times) 0 x.prevSumExecTime
  initial := blank (w .initial) false x.initial
  joined := blank (w .joined) false x.joined
  load := ⟨blank (w .weight) 0 x.load.weight, blank (w .invWeight) 0 x.load.invWeight⟩
  parent := blank (w .place) none x.parent
  sfq := blank (w .place) 0 x.sfq
  myQ := blank (w .myQ) none x.myQ

def Sfq.hide (x : Sfq) : Sfq where
  timeline := blank (w .timeline) .leaf x.timeline
  leftmost := blank (w .timeline) none x.leftmost
  curr := blank (w .curr) none x.curr
  skip := blank (w .candidates) none x.skip
  next := blank (w .candidates) none x.next
  last := blank (w .candidates) none x.last
  vtime := blank (w .vtime) 0 x.vtime
  nrRunning := blank (w .nr) 0 x.nrRunning
  load := ⟨blank (w .sfqLoad) 0 x.load.weight, blank (w .invWeight) 0 x.load.invWeight⟩
  group := blank (w .owner) 0 x.group
  onLeafList := blank (w .onLeafList) false x.onLeafList

def SchedGroup.hide (x : SchedGroup) : SchedGroup where
  se := blank (w .tree) none x.se
  sfq := blank (w .tree) 0 x.sfq
  shares := blank (w .shares) 0 x.shares
  parent := blank (w .tree) none x.parent
  children := blank (w .tree) [] x.children
  threads := blank (w .members) [] x.threads

def Thread.hide (x : Thread) : Thread where
  tdState := blank (w .tdState) .inactive x.tdState
  tdPriority := blank (w .priority) 0 x.tdPriority
  tdBasePri := blank (w .priority) 0 x.tdBasePri
  tdUserPri := blank (w .userPri) 0 x.tdUserPri
  tdBaseUserPri := blank (w .userPri) 0 x.tdBaseUserPri
  tdLendUserPri := blank (w .userPri) 0 x.tdLendUserPri
  tdPriClass := blank (w .cls) .timeshare x.tdPriClass
  needResched := blank (w .asked) false x.needResched
  owePreempt := blank (w .asked) false x.owePreempt
  borrowing := blank (w .priority) false x.borrowing
  noLoad := blank (w .identity) false x.noLoad
  idleTd := blank (w .identity) false x.idleTd
  proc := blank (w .identity) 0 x.proc
  cls := blank (w .cls) .pss x.cls
  group := blank (w .tdGroup) 0 x.group
  exited := blank (w .exited) false x.exited

def Rq.hide (x : Rq) : Rq where
  nrRunning := blank (w .counts) 0 x.nrRunning
  nrSysrunning := blank (w .counts) 0 x.nrSysrunning
  realtime := blank (w .realtime) [] x.realtime
  rtCurr := blank (w .rtCurr) none x.rtCurr
  load := ⟨blank (w .rqLoad) 0 x.load.weight, blank (w .rqLoad) 0 x.load.invWeight⟩
  clock := blank (w .clock) 0 x.clock
  clockThread := blank (w .clock) 0 x.clockThread
  leafSfqList := blank (w .leafSfqList) [] x.leafSfqList

/-- The `Kernel` and the idle thread are never written. -/
def State.hide (s : State) : State where
  kernel := s.kernel
  tun := blank (w .tun) {} s.tun
  ent e := (s.ent e).hide w
  sfq q := (s.sfq q).hide w
  grp g := (s.grp g).hide w
  td t := (s.td t).hide w
  proc p := blank (w .proc) {} (s.proc p)
  rq := s.rq.hide w
  reads := blank (w .reads) 0 s.reads
  curthread := blank (w .curthread) 0 s.curthread
  idlethread := s.idlethread
  ngroups := blank (w .ngroups) 0 s.ngroups
  nthreads := blank (w .nthreads) 0 s.nthreads
  nprocs := blank (w .nprocs) 0 s.nprocs
  journal := blank (w .journal) [] s.journal

def cells : Cover Cell State where
  hide := State.hide
  hide_hide le s := by
    simp only [State.hide, SchedEntity.hide, Sfq.hide, SchedGroup.hide, Thread.hide, Rq.hide, blank_blank (le _)]

/-- The operation writes no more than what is in `w`. -/
abbrev Changes (s s' : State) : Prop := cells.Within w s s'

variable {w} {s : State}

namespace Cover.Within

/-- A store to an entity is within a footprint if it keeps the rest of the entity. -/
theorem modEnt (s : State) (e : EntId) (f : SchedEntity → SchedEntity) (kept : (f (s.ent e)).hide w = (s.ent e).hide w) :
    Changes w s (s.modEnt e f) := by
  have ent : (fun x => (update s.ent e (f (s.ent e)) x).hide w) = fun x => (s.ent x).hide w := by
    funext x
    by_cases here : x = e
    · rw [here, update_self, kept]
    · rw [update_of_ne here]
  exact congrArg (fun ent => { s.hide w with ent := ent }) ent

/-- A store to a queue, likewise. -/
theorem modSfq (s : State) (q : Gid) (f : Sfq → Sfq) (kept : (f (s.sfq q)).hide w = (s.sfq q).hide w) :
    Changes w s (s.modSfq q f) := by
  have sfq : (fun x => (update s.sfq q (f (s.sfq q)) x).hide w) = fun x => (s.sfq x).hide w := by
    funext x
    by_cases here : x = q
    · rw [here, update_self, kept]
    · rw [update_of_ne here]
  exact congrArg (fun sfq => { s.hide w with sfq := sfq }) sfq

theorem modGrp (s : State) (g : Gid) (f : SchedGroup → SchedGroup) (kept : (f (s.grp g)).hide w = (s.grp g).hide w) :
    Changes w s (s.modGrp g f) := by
  have grp : (fun x => (update s.grp g (f (s.grp g)) x).hide w) = fun x => (s.grp x).hide w := by
    funext x
    by_cases here : x = g
    · rw [here, update_self, kept]
    · rw [update_of_ne here]
  exact congrArg (fun grp => { s.hide w with grp := grp }) grp

/-- A store to a thread, likewise. -/
theorem modTd (s : State) (t : Tid) (f : Thread → Thread) (kept : (f (s.td t)).hide w = (s.td t).hide w) :
    Changes w s (s.modTd t f) := by
  have td : (fun x => (update s.td t (f (s.td t)) x).hide w) = fun x => (s.td x).hide w := by
    funext x
    by_cases here : x = t
    · rw [here, update_self, kept]
    · rw [update_of_ne here]
  exact congrArg (fun td => { s.hide w with td := td }) td

/-- The processes are one cell. -/
theorem modProc (s : State) (p : Pid) (f : Proc → Proc) (covered : w .proc = true) : Changes w s (s.modProc p f) := by
  have proc : (fun x => blank (w .proc) {} (update s.proc p (f (s.proc p)) x)) = fun x => blank (w .proc) {} (s.proc x) := by
    rw [covered]
    rfl
  exact congrArg (fun proc => { s.hide w with proc := proc }) proc

theorem modRq (s : State) (f : Rq → Rq) (kept : (f s.rq).hide w = s.rq.hide w) : Changes w s (s.modRq f) :=
  congrArg (fun rq : Rq => ({ s.hide w with rq := rq } : State)) kept

/-- The journal is one cell. -/
theorem emit (s : State) (ev : Event) (covered : w .journal = true) : Changes w s (s.emit ev) := by
  have journal : blank (w .journal) [] (ev :: s.journal) = blank (w .journal) [] s.journal := by
    rw [covered]
    rfl
  exact congrArg (fun journal => { s.hide w with journal := journal }) journal

theorem setReads (s : State) (n : Nat) (covered : w .reads = true) : Changes w s { s with reads := n } := by
  have reads : blank (w .reads) 0 n = blank (w .reads) 0 s.reads := by
    rw [covered]
    rfl
  exact congrArg (fun reads => { s.hide w with reads := reads }) reads

theorem setCurthread (s : State) (t : Tid) (covered : w .curthread = true) : Changes w s { s with curthread := t } := by
  have curthread : blank (w .curthread) 0 t = blank (w .curthread) 0 s.curthread := by
    rw [covered]
    rfl
  exact congrArg (fun curthread => { s.hide w with curthread := curthread }) curthread

end Cover.Within
end SfqSched
