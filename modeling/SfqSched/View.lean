import SfqSched.Step
import Mathlib.Data.Multiset.Basic
import Mathlib.Data.Multiset.AddSub

namespace SfqSched

/-- What decides who is queued where: hierarchy, memberships, weights, counts
and thread states. Times, candidates and the trees' shapes are left out. -/
@[ext]
structure View where
  ngroups : Nat
  nthreads : Nat
  curthread : Nat
  idlethread : Nat
  parent : EntId → Option EntId
  sfq : EntId → Nat
  myQ : EntId → Option Nat
  joined : EntId → Bool
  onSfq : EntId → Bool
  onRunq : EntId → Bool
  initial : EntId → Bool
  weight : EntId → Nat
  timeline : Nat → Multiset EntId
  curr : Nat → Option EntId
  nr : Nat → Nat
  qweight : Nat → Nat
  owner : Nat → Nat
  groupSe : Nat → Option EntId
  groupSfq : Nat → Nat
  shares : Nat → Nat
  tdState : Nat → TdState
  cls : Nat → SchedClass
  exited : Nat → Bool
  noLoad : Nat → Bool
  idleTd : Nat → Bool
  tdGroup : Nat → Nat
  realtime : Nat → Prop
  rqWeight : Nat
  nrRunning : Nat
  nrSysrunning : Nat

/-- Times, orders and pointers, and what was written down about them. -/
@[ext]
structure Books where
  vruntime : EntId → BitVec 64
  timingStart : EntId → BitVec 64
  sumExec : EntId → BitVec 64
  clock : BitVec 64
  seq : Nat → List EntId
  leftmost : Nat → Option EntId
  skip : Nat → Option EntId
  next : Nat → Option EntId
  last : Nat → Option EntId
  journal : List Event

/-- A thread is on the realtime `struct runq`. -/
def queuedIn (realtime : List RunqEntry) (t : Tid) : Prop := ∃ entry ∈ realtime, entry.tid = t

namespace State

def view (s : State) : View where
  ngroups := s.ngroups
  nthreads := s.nthreads
  curthread := s.curthread
  idlethread := s.idlethread
  parent e := (s.ent e).parent
  sfq e := (s.ent e).sfq
  myQ e := (s.ent e).myQ
  joined e := (s.ent e).joined
  onSfq e := (s.ent e).onSfq
  onRunq e := (s.ent e).onRunq
  initial e := (s.ent e).initial
  weight e := (s.ent e).load.weight
  timeline q := ((s.sfq q).timeline.seq : Multiset EntId)
  curr q := (s.sfq q).curr
  nr q := (s.sfq q).nrRunning
  qweight q := (s.sfq q).load.weight
  owner q := (s.sfq q).group
  groupSe g := (s.grp g).se
  groupSfq g := (s.grp g).sfq
  shares g := (s.grp g).shares
  tdState t := (s.td t).tdState
  cls t := (s.td t).cls
  exited t := (s.td t).exited
  noLoad t := (s.td t).noLoad
  idleTd t := (s.td t).idleTd
  tdGroup t := (s.td t).group
  realtime := queuedIn s.rq.realtime
  rqWeight := s.rq.load.weight
  nrRunning := s.rq.nrRunning
  nrSysrunning := s.rq.nrSysrunning

def books (s : State) : Books where
  vruntime e := (s.ent e).vruntime
  timingStart e := (s.ent e).timingStart
  sumExec e := (s.ent e).sumExecTime
  clock := s.rq.clockThread
  seq q := (s.sfq q).timeline.seq
  leftmost q := (s.sfq q).leftmost
  skip q := (s.sfq q).skip
  next q := (s.sfq q).next
  last q := (s.sfq q).last
  journal := s.journal

section readings
variable (s : State) (e : EntId) (q : Gid) (t : Tid)

/-- A field that the view shows is read from the view from here on; the simp set rewrites to it. -/
@[simp] theorem view_ngroups : s.ngroups = s.view.ngroups := rfl
@[simp] theorem view_nthreads : s.nthreads = s.view.nthreads := rfl
@[simp] theorem view_curthread : s.curthread = s.view.curthread := rfl
@[simp] theorem view_idlethread : s.idlethread = s.view.idlethread := rfl

/-- The fields of an entity that the view shows. -/
@[simp] theorem view_parent : (s.ent e).parent = s.view.parent e := rfl
@[simp] theorem view_sfq : (s.ent e).sfq = s.view.sfq e := rfl
@[simp] theorem view_myQ : (s.ent e).myQ = s.view.myQ e := rfl
@[simp] theorem view_joined : (s.ent e).joined = s.view.joined e := rfl
@[simp] theorem view_onSfq : (s.ent e).onSfq = s.view.onSfq e := rfl
@[simp] theorem view_onRunq : (s.ent e).onRunq = s.view.onRunq e := rfl
@[simp] theorem view_initial : (s.ent e).initial = s.view.initial e := rfl

/-- Of a load the view shows the weight, not the inverse that is kept beside it. -/
@[simp] theorem view_weight : (s.ent e).load.weight = s.view.weight e := rfl

/-- The fields of a queue that the view shows. -/
@[simp] theorem view_curr : (s.sfq q).curr = s.view.curr q := rfl
@[simp] theorem view_nr : (s.sfq q).nrRunning = s.view.nr q := rfl

/-- The load of a queue, as far as the view shows it. -/
@[simp] theorem view_qweight : (s.sfq q).load.weight = s.view.qweight q := rfl
@[simp] theorem view_owner : (s.sfq q).group = s.view.owner q := rfl

/-- The entity and the queue of a group, and its shares. -/
@[simp] theorem view_groupSe : (s.grp q).se = s.view.groupSe q := rfl
@[simp] theorem view_groupSfq : (s.grp q).sfq = s.view.groupSfq q := rfl
@[simp] theorem view_shares : (s.grp q).shares = s.view.shares q := rfl

/-- The fields of a thread that the view shows. -/
@[simp] theorem view_tdState : (s.td t).tdState = s.view.tdState t := rfl
@[simp] theorem view_cls : (s.td t).cls = s.view.cls t := rfl
@[simp] theorem view_exited : (s.td t).exited = s.view.exited t := rfl
@[simp] theorem view_noLoad : (s.td t).noLoad = s.view.noLoad t := rfl
@[simp] theorem view_idleTd : (s.td t).idleTd = s.view.idleTd t := rfl
@[simp] theorem view_tdGroup : (s.td t).group = s.view.tdGroup t := rfl

/-- The counts of the CPU. -/
@[simp] theorem view_rqWeight : s.rq.load.weight = s.view.rqWeight := rfl

/-- Of the realtime queue the view shows who is in it, not the order. -/
@[simp] theorem view_realtime : queuedIn s.rq.realtime = s.view.realtime := rfl
@[simp] theorem view_nrRunning : s.rq.nrRunning = s.view.nrRunning := rfl
@[simp] theorem view_nrSysrunning : s.rq.nrSysrunning = s.view.nrSysrunning := rfl

/-- What the books keep of an entity: its time on the queue and its time on the CPU. -/
@[simp] theorem books_vruntime : (s.ent e).vruntime = s.books.vruntime e := rfl
@[simp] theorem books_timingStart : (s.ent e).timingStart = s.books.timingStart e := rfl
@[simp] theorem books_sumExec : (s.ent e).sumExecTime = s.books.sumExec e := rfl

/-- The books are kept by the thread clock. -/
@[simp] theorem books_clock : s.rq.clockThread = s.books.clock := rfl

/-- Of a timeline the books keep the order, not the tree. -/
@[simp] theorem books_seq : (s.sfq q).timeline.seq = s.books.seq q := rfl
@[simp] theorem books_leftmost : (s.sfq q).leftmost = s.books.leftmost q := rfl

/-- The candidates of a queue are in the books too. -/
@[simp] theorem books_skip : (s.sfq q).skip = s.books.skip q := rfl
@[simp] theorem books_next : (s.sfq q).next = s.books.next q := rfl
@[simp] theorem books_last : (s.sfq q).last = s.books.last q := rfl
@[simp] theorem books_journal : s.journal = s.books.journal := rfl

end readings

section updates
open Function
variable (s : State)

/-- A store to an entity, as the view shows it: field by field, at that entity. -/
theorem view_modEnt (e : EntId) (f : SchedEntity → SchedEntity) :
    (s.modEnt e f).view =
      { s.view with
        parent := update s.view.parent e (f (s.ent e)).parent
        sfq := update s.view.sfq e (f (s.ent e)).sfq
        myQ := update s.view.myQ e (f (s.ent e)).myQ
        joined := update s.view.joined e (f (s.ent e)).joined
        onSfq := update s.view.onSfq e (f (s.ent e)).onSfq
        onRunq := update s.view.onRunq e (f (s.ent e)).onRunq
        initial := update s.view.initial e (f (s.ent e)).initial
        weight := update s.view.weight e (f (s.ent e)).load.weight } := by
  ext1 <;> first | rfl | (funext a; simp only [view, modEnt, update_apply]; split <;> rfl)

/-- The same store in the books. -/
theorem books_modEnt (e : EntId) (f : SchedEntity → SchedEntity) :
    (s.modEnt e f).books =
      { s.books with
        vruntime := update s.books.vruntime e (f (s.ent e)).vruntime
        timingStart := update s.books.timingStart e (f (s.ent e)).timingStart
        sumExec := update s.books.sumExec e (f (s.ent e)).sumExecTime } := by
  ext1 <;> first | rfl | (funext a; simp only [books, modEnt, update_apply]; split <;> rfl)

/-- A store to a queue, as the view shows it. -/
theorem view_modSfq (q : Gid) (f : Sfq → Sfq) :
    (s.modSfq q f).view =
      { s.view with
        timeline := update s.view.timeline q (f (s.sfq q)).timeline.seq
        curr := update s.view.curr q (f (s.sfq q)).curr
        nr := update s.view.nr q (f (s.sfq q)).nrRunning
        qweight := update s.view.qweight q (f (s.sfq q)).load.weight
        owner := update s.view.owner q (f (s.sfq q)).group } := by
  ext1 <;> first | rfl | (funext a; simp only [view, modSfq, update_apply]; split <;> rfl)

/-- A store to a queue, in the books. -/
theorem books_modSfq (q : Gid) (f : Sfq → Sfq) :
    (s.modSfq q f).books =
      { s.books with
        seq := update s.books.seq q (f (s.sfq q)).timeline.seq
        leftmost := update s.books.leftmost q (f (s.sfq q)).leftmost
        skip := update s.books.skip q (f (s.sfq q)).skip
        next := update s.books.next q (f (s.sfq q)).next
        last := update s.books.last q (f (s.sfq q)).last } := by
  ext1 <;> first | rfl | (funext a; simp only [books, modSfq, update_apply]; split <;> rfl)

/-- A store to a group. -/
theorem view_modGrp (g : Gid) (f : SchedGroup → SchedGroup) :
    (s.modGrp g f).view =
      { s.view with
        groupSe := update s.view.groupSe g (f (s.grp g)).se
        groupSfq := update s.view.groupSfq g (f (s.grp g)).sfq
        shares := update s.view.shares g (f (s.grp g)).shares } := by
  ext1 <;> first | rfl | (funext a; simp only [view, modGrp, update_apply]; split <;> rfl)

/-- A store to a thread. -/
theorem view_modTd (t : Tid) (f : Thread → Thread) :
    (s.modTd t f).view =
      { s.view with
        tdState := update s.view.tdState t (f (s.td t)).tdState
        cls := update s.view.cls t (f (s.td t)).cls
        exited := update s.view.exited t (f (s.td t)).exited
        noLoad := update s.view.noLoad t (f (s.td t)).noLoad
        idleTd := update s.view.idleTd t (f (s.td t)).idleTd
        tdGroup := update s.view.tdGroup t (f (s.td t)).group } := by
  ext1 <;> first | rfl | (funext a; simp only [view, modTd, update_apply]; split <;> rfl)

/-- The view shows nothing of a process. -/
@[simp] theorem view_modProc (p : Pid) (f : Proc → Proc) : (s.modProc p f).view = s.view := rfl

/-- The books are about entities and queues: groups, threads and processes are not in them. -/
@[simp] theorem books_modGrp (g : Gid) (f : SchedGroup → SchedGroup) : (s.modGrp g f).books = s.books := rfl
@[simp] theorem books_modTd (t : Tid) (f : Thread → Thread) : (s.modTd t f).books = s.books := rfl
@[simp] theorem books_modProc (p : Pid) (f : Proc → Proc) : (s.modProc p f).books = s.books := rfl

/-- A store to the CPU, as the view shows it. -/
theorem view_modRq (f : Rq → Rq) :
    (s.modRq f).view =
      { s.view with
        realtime := queuedIn (f s.rq).realtime
        rqWeight := (f s.rq).load.weight
        nrRunning := (f s.rq).nrRunning
        nrSysrunning := (f s.rq).nrSysrunning } := rfl

/-- Of the CPU the books keep the thread clock. -/
theorem books_modRq (f : Rq → Rq) : (s.modRq f).books = { s.books with clock := (f s.rq).clockThread } := rfl

/-- The journal is in the books, not in the view. -/
@[simp] theorem view_emit (ev : Event) : (s.emit ev).view = s.view := rfl

theorem books_emit (ev : Event) : (s.emit ev).books = { s.books with journal := ev :: s.books.journal } := rfl

/-- The timeline the view shows is the one of the books without its order. -/
@[simp] theorem view_timeline (q : Gid) : ((s.books.seq q : List EntId) : Multiset EntId) = s.view.timeline q := rfl

end updates
end State
end SfqSched
