import SfqSched.Climb
import Mathlib.Data.List.Induction
import Mathlib.Data.List.Nodup
import Mathlib.Data.List.Flatten
import Mathlib.Logic.Function.Basic
import Mathlib.Tactic.Common

namespace SfqSched
open Function

/-- The fields of `struct thread` and `struct td_sched` that `prio_list.c` uses, for all
threads, and the list itself. Threads are named by numbers; `prev` is `TAILQ_PREV` on `qlink`. -/
structure PrioList where
  head : List Nat := []
  qhead : Nat → List Nat := fun _ => []
  prev : Nat → Option Nat := fun _ => none
  prio : Nat → Int := fun _ => 0
  tdPriority : Nat → Int := fun _ => 0

/-- `TAILQ_NEXT`. -/
def tailqNext : List Nat → Nat → Option Nat
  | [], _ => none
  | a :: rest, t => if a = t then rest.head? else tailqNext rest t

/-- `TAILQ_INSERT_BEFORE`. -/
def tailqInsertBefore (at_ new : Nat) : List Nat → List Nat
  | [] => []
  | a :: rest => if a = at_ then new :: a :: rest else a :: tailqInsertBefore at_ new rest

namespace PrioList

/-- `TAILQ_INSERT_TAIL(&owner->qhead, ts, qlink)`. -/
def insertTail (l : PrioList) (owner ts : Nat) : PrioList :=
  { l with
    qhead := update l.qhead owner (l.qhead owner ++ [ts])
    prev := update l.prev ts (l.qhead owner).getLast? }

/-- `TAILQ_INSERT_HEAD(&owner->qhead, ts, qlink)`. -/
def insertHead (l : PrioList) (owner ts : Nat) : PrioList :=
  { l with
    qhead := update l.qhead owner (ts :: l.qhead owner)
    prev := update (match (l.qhead owner).head? with
      | some first => update l.prev first (some ts)
      | none => l.prev) ts none }

/-- `TAILQ_REMOVE(&owner->qhead, ts, qlink)`. -/
def remove (l : PrioList) (owner ts : Nat) : PrioList :=
  { l with
    qhead := update l.qhead owner ((l.qhead owner).erase ts)
    prev := match tailqNext (l.qhead owner) ts with
      | some next => update l.prev next (l.prev ts)
      | none => l.prev }

/-- `TAILQ_SWAP` of two `qhead`s. -/
def swap (l : PrioList) (a b : Nat) : PrioList :=
  { l with qhead := update (update l.qhead a (l.qhead b)) b (l.qhead a) }

/-- The per-priority queues one after the other. -/
def seq (l : PrioList) : List Nat := l.head.flatMap l.qhead

end PrioList

/-- `prio_list_first`. -/
def prioListFirst (l : PrioList) : Option Nat := l.head.head?

/-- `prio_list_empty`. -/
def prioListEmpty (l : PrioList) : Bool := l.head.isEmpty

/-- The loop of `prio_list_add` over the rest of the list, and what follows it. -/
def prioListAddFrom (l : PrioList) (ts : Nat) : List Nat → PrioList
  | [] => ({ l with head := l.head ++ [ts] } : PrioList).insertHead ts ts
  | ts2 :: rest =>
    if l.prio ts2 = l.prio ts then l.insertTail ts2 ts
    else if l.prio ts2 > l.prio ts then
      ({ l with head := tailqInsertBefore ts2 ts l.head } : PrioList).insertHead ts ts
    else prioListAddFrom l ts rest

/-- `prio_list_add`. -/
def prioListAdd (l : PrioList) (ts : Nat) : PrioList :=
  let l := { l with prio := update l.prio ts (l.tdPriority ts), qhead := update l.qhead ts [] }
  prioListAddFrom l ts l.head

/-- The loop of `prio_list_del`: the first of the queue `ts` is on. There are
no more steps back than threads on the list. -/
def prioListHead (l : PrioList) (ts : Nat) : Nat :=
  ((climb l.prev (l.seq.length + 1) (some ts)).getLast?).getD ts

/-- `prio_list_del`; `none` is its failed assertion or a null pointer. -/
def prioListDel (l : PrioList) (ts : Nat) : Option PrioList :=
  let head := prioListHead l ts
  let l := l.remove head ts
  if l.qhead head = [] then
    if head = ts then some { l with head := l.head.erase head } else none
  else if ts = head then
    (l.qhead head).head?.map fun next =>
      let l := l.swap head next
      let l := { l with head := tailqInsertBefore head next l.head }
      { l with head := l.head.erase head }
  else some l

inductive PrioOp
  | add (ts : Nat)
  | del (ts : Nat)
  /-- Somebody else stores a `td_priority`, also that of a thread on the list. -/
  | change (ts : Nat) (tdPriority : Int)

def prioListStep (l : PrioList) : PrioOp → Option PrioList
  | .add ts => some (prioListAdd l ts)
  | .del ts => prioListDel l ts
  | .change ts tdPriority => some { l with tdPriority := update l.tdPriority ts tdPriority }

/-- What the operations ask for: the priorities at the time, and the threads on the list with
the priority each had when it was added, in the order in which they were added. -/
structure Arrivals where
  tdPriority : Nat → Int
  listed : List (Int × Nat) := []

def Arrivals.step (a : Arrivals) : PrioOp → Arrivals
  | .add ts => { a with listed := a.listed ++ [(a.tdPriority ts, ts)] }
  | .del ts => { a with listed := a.listed.filter fun entry => entry.2 ≠ ts }
  | .change ts tdPriority => { a with tdPriority := update a.tdPriority ts tdPriority }

def Arrivals.run (a : Arrivals) (ops : List PrioOp) : Arrivals := ops.foldl Arrivals.step a

/-- A thread is added only when it is not on the list, and deleted only when it is. -/
def PrioOp.proper (a : Arrivals) : PrioOp → Prop
  | .add ts => ∀ entry ∈ a.listed, entry.2 ≠ ts
  | .del ts => ∃ entry ∈ a.listed, entry.2 = ts
  | .change _ _ => True

def Arrivals.proper (a : Arrivals) : List PrioOp → Prop
  | [] => True
  | op :: ops => op.proper a ∧ (a.step op).proper ops

namespace PrioList

/-- All threads of one priority: the one on the outer list and those behind it. -/
structure Class where
  prio : Int
  first : Nat
  rest : List Nat

def Class.queue (c : Class) : List Nat := c.first :: c.rest

/-- Every element points back to the one before it. -/
def linked (prev : Nat → Option Nat) : Option Nat → List Nat → Prop
  | _, [] => True
  | o, a :: rest => prev a = o ∧ linked prev (some a) rest

/-- The list of lists stands for these classes. -/
structure Rep (l : PrioList) (classes : List Class) : Prop where
  head : l.head = classes.map Class.first
  queue : ∀ c ∈ classes, l.qhead c.first = c.queue
  linked : ∀ c ∈ classes, linked l.prev none c.queue
  prio : ∀ c ∈ classes, ∀ t ∈ c.queue, l.prio t = c.prio
  sorted : classes.Pairwise fun a b => a.prio < b.prio
  nodup : (classes.flatMap Class.queue).Nodup

section linked
variable {prev prev' : Nat → Option Nat} {o : Option Nat} {q : List Nat} {t : Nat}

theorem linked_congr (h : linked prev o q) (same : ∀ a ∈ q, prev' a = prev a) : linked prev' o q := by
  induction q generalizing o with
  | nil => trivial
  | cons a rest ih =>
    refine ⟨(same a (List.mem_cons_self ..)).trans h.1, ih h.2 fun b member => ?_⟩
    exact same b (List.mem_cons_of_mem _ member)

theorem linked_append {a : List Nat} : linked prev o (a ++ q) ↔
    linked prev o a ∧ linked prev (a.getLast?.or o) q := by
  induction a generalizing o with
  | nil => simp [linked]
  | cons x rest ih =>
    simp only [List.cons_append, linked, ih, and_assoc]
    have last : (x :: rest).getLast?.or o = rest.getLast?.or (some x) := by
      cases rest with
      | nil => simp
      | cons y rest => simp [List.getLast?_cons]
    rw [last]

/-- Taking an element out and linking its neighbours keeps the links. -/
theorem linked_remove {a b : List Nat} (h : linked prev o (a ++ t :: b)) (fresh : (a ++ t :: b).Nodup)
    (prev_eq : prev' = match b.head? with
      | some next => update prev next (prev t)
      | none => prev) : linked prev' o (a ++ b) := by
  obtain ⟨first, at_t, second⟩ := linked_append.mp h
  rw [List.nodup_append] at fresh
  obtain ⟨_, tail, apart⟩ := fresh
  obtain ⟨_, nodupB⟩ := List.nodup_cons.mp tail
  cases b with
  | nil =>
    simp only [List.head?_nil] at prev_eq
    rw [prev_eq, List.append_nil]
    exact first
  | cons next rest =>
    simp only [List.head?_cons] at prev_eq
    obtain ⟨_, third⟩ := second
    refine linked_append.mpr ⟨linked_congr first fun x member => ?_, ?_, linked_congr third fun x member => ?_⟩
    · have other : x ≠ next := apart x member next (by simp)
      rw [prev_eq, update_of_ne other]
    · rw [prev_eq, update_self, at_t]
    · have other : x ≠ next := by
        rintro rfl
        exact (List.nodup_cons.mp nodupB).1 member
      rw [prev_eq, update_of_ne other]

theorem tailqNext_append {a b : List Nat} (fresh : t ∉ a) : tailqNext (a ++ t :: b) t = b.head? := by
  induction a with
  | nil => simp [tailqNext]
  | cons x rest ih =>
    simp only [List.mem_cons, not_or] at fresh
    simp [tailqNext, Ne.symm fresh.1, ih fresh.2]

theorem tailqInsertBefore_append {a b : List Nat} {x new : Nat} (fresh : x ∉ a) :
    tailqInsertBefore x new (a ++ x :: b) = a ++ new :: x :: b := by
  induction a with
  | nil => simp [tailqInsertBefore]
  | cons y rest ih =>
    simp only [List.mem_cons, not_or] at fresh
    simp [tailqInsertBefore, Ne.symm fresh.1, ih fresh.2]

/-- Walking back from an element of a linked queue ends at its first. -/
theorem climb_linked {first : Nat} {rest a b : List Nat} (h : linked prev none (first :: rest))
    (split : first :: rest = a ++ t :: b) (fuel : Nat) (enough : a.length < fuel) :
    (climb prev fuel (some t)).getLast? = some first := by
  induction a using List.reverseRecOn generalizing t b fuel with
  | nil =>
    obtain ⟨rfl, rfl⟩ := List.cons.inj split
    obtain ⟨fuel, rfl⟩ := Nat.exists_eq_succ_of_ne_zero (Nat.ne_of_gt enough)
    have stop : climb prev fuel none = [] := by cases fuel <;> rfl
    simp [climb, h.1, stop]
  | append_singleton a u ih =>
    obtain ⟨fuel, rfl⟩ := Nat.exists_eq_succ_of_ne_zero (Nat.ne_of_gt (Nat.lt_of_le_of_lt (Nat.zero_le _) enough))
    have back : prev t = some u := by
      rw [split] at h
      have at_t := (linked_append.mp h).2.1
      simpa using at_t
    have shorter : a.length < fuel := by
      simp at enough
      omega
    have further := ih (b := t :: b) (by simpa using split) fuel shorter
    simp only [climb, back]
    rw [List.getLast?_cons, further]
    rfl

end linked

section rep
variable {l : PrioList} {classes front back : List Class} {c : Class} {t : Nat}

theorem Rep.seq (rep : Rep l classes) : l.seq = classes.flatMap Class.queue := by
  unfold PrioList.seq
  rw [rep.head, List.flatMap_map]
  exact List.flatMap_congr rep.queue

theorem mem_listed {x : Nat} : x ∈ classes.flatMap Class.queue ↔ ∃ c ∈ classes, x ∈ c.queue := List.mem_flatMap

/-- The queues of two places of the list have nothing in common. -/
theorem Rep.apart (rep : Rep l (front ++ c :: back)) {d : Class} (member : d ∈ front ++ back) :
    ∀ x ∈ c.queue, x ∉ d.queue := by
  intro x here there
  have nodup := rep.nodup
  simp only [List.flatMap_append, List.flatMap_cons] at nodup
  rcases List.mem_append.mp member with inFront | inBack
  · have both := (List.nodup_append.mp nodup).2.2 x (mem_listed.mpr ⟨d, inFront, there⟩) x
    exact both (by simp [here]) rfl
  · have both := (List.nodup_append.mp (List.nodup_append.mp nodup).2.1).2.2 x here x
    exact both (mem_listed.mpr ⟨d, inBack, there⟩) rfl

/-- A thread not on the list becomes a class of its own between two others. -/
theorem Rep.newClass {p : Int} (rep : Rep l (front ++ back)) (fresh : t ∉ (front ++ back).flatMap Class.queue)
    (prio : l.prio t = p) (empty : l.qhead t = []) (below : ∀ c ∈ front, c.prio < p) (above : ∀ c ∈ back, p < c.prio) :
    Rep (({ l with head := front.map Class.first ++ t :: back.map Class.first } : PrioList).insertHead t t)
      (front ++ ⟨p, t, []⟩ :: back) := by
  have other (c : Class) (member : c ∈ front ++ back) (x : Nat) (inside : x ∈ c.queue) : x ≠ t := by
    rintro rfl
    exact fresh (mem_listed.mpr ⟨c, member, inside⟩)
  have split (c : Class) (member : c ∈ front ++ ⟨p, t, []⟩ :: back) : c = ⟨p, t, []⟩ ∨ c ∈ front ++ back := by
    simp only [List.mem_append, List.mem_cons] at member ⊢
    tauto
  have sorted := List.pairwise_append.mp rep.sorted
  exact {
    head := by simp [insertHead]
    queue := fun c member => by
      rcases split c member with rfl | old
      · simp [insertHead, empty, Class.queue]
      · have apart := other c old c.first (List.mem_cons_self ..)
        simpa [insertHead, apart] using rep.queue c old
    linked := fun c member => by
      rcases split c member with rfl | old
      · simp [insertHead, empty, Class.queue, PrioList.linked]
      · refine linked_congr (rep.linked c old) fun x inside => ?_
        simp [insertHead, empty, other c old x inside]
    prio := fun c member x inside => by
      rcases split c member with rfl | old
      · simp only [Class.queue, List.mem_singleton] at inside
        subst inside
        exact prio
      · exact rep.prio c old x inside
    sorted := by
      refine List.pairwise_append.mpr ⟨sorted.1, List.pairwise_cons.mpr ⟨above, sorted.2.1⟩, fun a inFront b later => ?_⟩
      rcases List.mem_cons.mp later with rfl | inBack
      · exact below a inFront
      · exact sorted.2.2 a inFront b inBack
    nodup := by
      have perm : ((front ++ ⟨p, t, []⟩ :: back).flatMap Class.queue).Perm (t :: (front ++ back).flatMap Class.queue) := by
        simp only [List.flatMap_append, List.flatMap_cons, Class.queue, List.singleton_append]
        exact List.perm_middle
      exact perm.nodup_iff.mpr (List.nodup_cons.mpr ⟨fresh, rep.nodup⟩) }

/-- A thread not on the list goes to the end of a class. -/
theorem Rep.joinClass (rep : Rep l (front ++ c :: back)) (fresh : t ∉ (front ++ c :: back).flatMap Class.queue)
    (prio : l.prio t = c.prio) : Rep (l.insertTail c.first t) (front ++ ⟨c.prio, c.first, c.rest ++ [t]⟩ :: back) := by
  have here : c ∈ front ++ c :: back := by simp
  have other (d : Class) (member : d ∈ front ++ c :: back) (x : Nat) (inside : x ∈ d.queue) : x ≠ t := by
    rintro rfl
    exact fresh (mem_listed.mpr ⟨d, member, inside⟩)
  have split (d : Class) (member : d ∈ front ++ ⟨c.prio, c.first, c.rest ++ [t]⟩ :: back) :
      d = ⟨c.prio, c.first, c.rest ++ [t]⟩ ∨ d ∈ front ++ back := by
    simp only [List.mem_append, List.mem_cons] at member ⊢
    tauto
  have old (d : Class) (member : d ∈ front ++ back) : d ∈ front ++ c :: back := by
    simp only [List.mem_append, List.mem_cons] at member ⊢
    tauto
  have queue := rep.queue c here
  have sorted := List.pairwise_append.mp rep.sorted
  exact {
    head := by simpa [insertTail] using rep.head
    queue := fun d member => by
      rcases split d member with rfl | inside
      · simp [insertTail, queue, Class.queue]
      · have apart : d.first ≠ c.first := fun same =>
          rep.apart inside c.first (List.mem_cons_self ..) (same ▸ List.mem_cons_self ..)
        simpa [insertTail, apart] using rep.queue d (old d inside)
    linked := fun d member => by
      rcases split d member with rfl | inside
      · have same (x : Nat) (inside : x ∈ c.queue) : (l.insertTail c.first t).prev x = l.prev x := by
          simp [insertTail, other c here x inside]
        have first := linked_congr (rep.linked c here) same
        refine (linked_append (a := c.queue) (q := [t])).mpr ⟨first, ?_⟩
        simp [PrioList.linked, insertTail, queue]
      · refine linked_congr (rep.linked d (old d inside)) fun x member => ?_
        simp [insertTail, other d (old d inside) x member]
    prio := fun d member x inside => by
      rcases split d member with rfl | inOld
      · rcases List.mem_append.mp (show x ∈ c.queue ++ [t] from inside) with before | last
        · exact rep.prio c here x before
        · obtain rfl := List.mem_singleton.mp last
          exact prio
      · exact rep.prio d (old d inOld) x inside
    sorted := by
      refine List.pairwise_append.mpr ⟨sorted.1, ?_, fun a inFront b later => ?_⟩
      · exact List.pairwise_cons.mpr (List.pairwise_cons.mp sorted.2.1)
      · rcases List.mem_cons.mp later with rfl | inBack
        · exact sorted.2.2 a inFront c (by simp)
        · exact sorted.2.2 a inFront b (by simp [inBack])
    nodup := by
      have perm : ((front ++ ⟨c.prio, c.first, c.rest ++ [t]⟩ :: back).flatMap Class.queue).Perm
          (t :: (front ++ c :: back).flatMap Class.queue) := by
        simp only [List.flatMap_append, List.flatMap_cons, Class.queue, ← List.cons_append, List.append_assoc,
          List.singleton_append]
        rw [← List.append_assoc, ← List.append_assoc]
        exact List.perm_middle
      exact perm.nodup_iff.mpr (List.nodup_cons.mpr ⟨fresh, rep.nodup⟩) }

/-- Where a new thread comes in: behind all that are as urgent, before all that are less so. -/
structure Placed (l l' : PrioList) (t : Nat) (before after : List Nat) : Prop where
  old : l.seq = before ++ after
  new : l'.seq = before ++ t :: after
  prio : l'.prio = l.prio
  tdPriority : l'.tdPriority = l.tdPriority
  behind : ∀ a ∈ before, l.prio a ≤ l.prio t
  ahead : ∀ b ∈ after, l.prio t < l.prio b

theorem addFrom_rep (rep : Rep l (front ++ back)) (fresh : t ∉ (front ++ back).flatMap Class.queue)
    (empty : l.qhead t = []) (below : ∀ c ∈ front, c.prio < l.prio t) :
    ∃ classes, Rep (prioListAddFrom l t (back.map Class.first)) classes ∧
      ∃ before after, Placed l (prioListAddFrom l t (back.map Class.first)) t before after := by
  have prios (classes : List Class) (rep : Rep l classes) (d : Class) (member : d ∈ classes) (x : Nat) (inside : x ∈ d.queue) :
      l.prio x = d.prio := rep.prio d member x inside
  induction back generalizing front with
  | nil =>
    have new := rep.newClass fresh rfl empty below (by simp)
    rw [List.append_nil] at rep
    have eq : prioListAddFrom l t (([] : List Class).map Class.first) =
        ({ l with head := front.map Class.first ++ t :: ([] : List Class).map Class.first } : PrioList).insertHead t t := by
      simp [prioListAddFrom, rep.head]
    rw [eq]
    refine ⟨_, new, l.seq, [], by simp, ?_, rfl, rfl, fun a member => ?_, by simp⟩
    · rw [new.seq, rep.seq]
      simp [Class.queue]
    · obtain ⟨d, inFront, inside⟩ := mem_listed.mp (rep.seq ▸ member)
      rw [rep.prio d inFront a inside]
      exact Int.le_of_lt (below d inFront)
  | cons c rest ih =>
    have here : c ∈ front ++ c :: rest := by simp
    have first : l.prio c.first = c.prio := rep.prio c here _ (List.mem_cons_self ..)
    have sorted := List.pairwise_append.mp rep.sorted
    have later := List.pairwise_cons.mp sorted.2.1
    simp only [List.map_cons, prioListAddFrom, first]
    by_cases same : c.prio = l.prio t
    · rw [if_pos same]
      have new := rep.joinClass fresh same.symm
      refine ⟨_, new, front.flatMap Class.queue ++ c.queue, rest.flatMap Class.queue, ?_, ?_, rfl, rfl, fun a member => ?_,
        fun b member => ?_⟩
      · rw [rep.seq]
        simp
      · rw [new.seq]
        simp [Class.queue]
      · rcases List.mem_append.mp member with inFront | inside
        · obtain ⟨d, there, inside⟩ := mem_listed.mp inFront
          rw [rep.prio d (by simp [there]) a inside]
          exact Int.le_of_lt (below d there)
        · exact Int.le_of_eq ((rep.prio c here a inside).trans same)
      · obtain ⟨d, there, inside⟩ := mem_listed.mp member
        rw [rep.prio d (by simp [there]) b inside, ← same]
        exact later.1 d there
    · rw [if_neg same]
      by_cases above : c.prio > l.prio t
      · rw [if_pos above]
        have new := rep.newClass fresh rfl empty below (fun d member => by
          rcases List.mem_cons.mp member with rfl | there
          · exact above
          · have := later.1 d there
            omega)
        have out : c.first ∉ front.map Class.first := by
          intro there
          obtain ⟨d, inFront, same⟩ := List.mem_map.mp there
          exact rep.apart (d := d) (by simp [inFront]) c.first (List.mem_cons_self ..) (same ▸ List.mem_cons_self ..)
        have eq : tailqInsertBefore c.first t l.head = front.map Class.first ++ t :: (c :: rest).map Class.first := by
          rw [rep.head, List.map_append, List.map_cons, tailqInsertBefore_append out]
        rw [eq]
        refine ⟨_, new, front.flatMap Class.queue, (c :: rest).flatMap Class.queue, ?_, ?_, rfl, rfl, fun a member => ?_,
          fun b member => ?_⟩
        · rw [rep.seq, List.flatMap_append]
        · rw [new.seq]
          simp [Class.queue]
        · obtain ⟨d, there, inside⟩ := mem_listed.mp member
          rw [rep.prio d (by simp [there]) a inside]
          exact Int.le_of_lt (below d there)
        · obtain ⟨d, there, inside⟩ := mem_listed.mp member
          rw [rep.prio d (List.mem_append_right _ there) b inside]
          rcases List.mem_cons.mp there with rfl | inRest
          · exact above
          · have := later.1 d inRest
            omega
      · rw [if_neg above]
        have shifted : front ++ c :: rest = (front ++ [c]) ++ rest := by simp
        rw [shifted] at rep fresh
        exact ih rep fresh fun d member => by
          rcases List.mem_append.mp member with inFront | last
          · exact below d inFront
          · obtain rfl := List.mem_singleton.mp last
            omega

theorem prioListAdd_rep (rep : Rep l classes) (fresh : t ∉ l.seq) :
    ∃ classes', Rep (prioListAdd l t) classes' ∧ ∃ before after,
      Placed { l with prio := update l.prio t (l.tdPriority t) } (prioListAdd l t) t before after := by
  have out : t ∉ classes.flatMap Class.queue := by rwa [← rep.seq]
  have other (c : Class) (member : c ∈ classes) (x : Nat) (inside : x ∈ c.queue) : x ≠ t := by
    rintro rfl
    exact out (mem_listed.mpr ⟨c, member, inside⟩)
  have start : Rep { l with prio := update l.prio t (l.tdPriority t), qhead := update l.qhead t [] } classes := {
    head := rep.head
    queue := fun c member => by
      simpa [other c member c.first (List.mem_cons_self ..)] using rep.queue c member
    linked := rep.linked
    prio := fun c member x inside => by
      simpa [other c member x inside] using rep.prio c member x inside
    sorted := rep.sorted
    nodup := rep.nodup }
  have seq : ({ l with prio := update l.prio t (l.tdPriority t), qhead := update l.qhead t [] } : PrioList).seq =
      ({ l with prio := update l.prio t (l.tdPriority t) } : PrioList).seq := start.seq.trans rep.seq.symm
  have start' : Rep { l with prio := update l.prio t (l.tdPriority t), qhead := update l.qhead t [] } ([] ++ classes) :=
    start
  obtain ⟨classes', rep', before, after, placed⟩ := addFrom_rep (t := t) start' out (by simp) (by simp)
  have eq : prioListAdd l t = prioListAddFrom { l with prio := update l.prio t (l.tdPriority t), qhead := update l.qhead t [] } t
      (classes.map Class.first) := by
    rw [← rep.head]
    rfl
  rw [eq]
  exact ⟨classes', rep', before, after, seq ▸ placed.old, placed.new, placed.prio, placed.tdPriority, placed.behind, placed.ahead⟩

/-- One class is replaced by a part of it, and nothing else changes. -/
theorem Rep.shrink {l' : PrioList} {c' : Class} (rep : Rep l (front ++ c :: back))
    (head : l'.head = front.map Class.first ++ c'.first :: back.map Class.first)
    (prio : l'.prio = l.prio) (same : c'.prio = c.prio) (part : c'.queue.Sublist c.queue)
    (queue : l'.qhead c'.first = c'.queue) (linked : PrioList.linked l'.prev none c'.queue)
    (others : ∀ d ∈ front ++ back, l'.qhead d.first = l.qhead d.first ∧ ∀ x ∈ d.queue, l'.prev x = l.prev x) :
    Rep l' (front ++ c' :: back) := by
  have here : c ∈ front ++ c :: back := by simp
  have split (d : Class) (member : d ∈ front ++ c' :: back) : d = c' ∨ d ∈ front ++ back := by
    simp only [List.mem_append, List.mem_cons] at member ⊢
    tauto
  have old (d : Class) (member : d ∈ front ++ back) : d ∈ front ++ c :: back := by
    simp only [List.mem_append, List.mem_cons] at member ⊢
    tauto
  have sorted := List.pairwise_append.mp rep.sorted
  have later := List.pairwise_cons.mp sorted.2.1
  exact {
    head := by simp [head]
    queue := fun d member => by
      rcases split d member with rfl | inside
      · exact queue
      · exact (others d inside).1.trans (rep.queue d (old d inside))
    linked := fun d member => by
      rcases split d member with rfl | inside
      · exact linked
      · exact linked_congr (rep.linked d (old d inside)) (others d inside).2
    prio := fun d member x inside => by
      rcases split d member with rfl | inOld
      · rw [prio, same]
        exact rep.prio c here x (part.subset inside)
      · rw [prio]
        exact rep.prio d (old d inOld) x inside
    sorted := by
      refine List.pairwise_append.mpr ⟨sorted.1, List.pairwise_cons.mpr ⟨fun d inBack => ?_, later.2⟩, fun a inFront b after => ?_⟩
      · rw [same]
        exact later.1 d inBack
      · rcases List.mem_cons.mp after with rfl | inBack
        · rw [same]
          exact sorted.2.2 a inFront c (by simp)
        · exact sorted.2.2 a inFront b (by simp [inBack])
    nodup := by
      refine rep.nodup.sublist ?_
      simp only [List.flatMap_append, List.flatMap_cons]
      exact (List.Sublist.refl _).append (part.append (List.Sublist.refl _)) }

/-- A class goes. -/
theorem Rep.drop {l' : PrioList} (rep : Rep l (front ++ c :: back))
    (head : l'.head = front.map Class.first ++ back.map Class.first) (prio : l'.prio = l.prio)
    (others : ∀ d ∈ front ++ back, l'.qhead d.first = l.qhead d.first ∧ ∀ x ∈ d.queue, l'.prev x = l.prev x) :
    Rep l' (front ++ back) := by
  have part : (front ++ back).Sublist (front ++ c :: back) :=
    (List.Sublist.refl _).append (List.sublist_cons_self ..)
  exact {
    head := by simp [head]
    queue := fun d inside => (others d inside).1.trans (rep.queue d (part.subset inside))
    linked := fun d inside => linked_congr (rep.linked d (part.subset inside)) (others d inside).2
    prio := fun d inside x member => by
      rw [prio]
      exact rep.prio d (part.subset inside) x member
    sorted := rep.sorted.sublist part
    nodup := by
      refine rep.nodup.sublist ?_
      simp only [List.flatMap_append, List.flatMap_cons]
      exact (List.Sublist.refl _).append (List.sublist_append_right ..) }

theorem Rep.find (rep : Rep l classes) (member : t ∈ l.seq) :
    ∃ front c back a b, classes = front ++ c :: back ∧ c.queue = a ++ t :: b := by
  rw [rep.seq] at member
  obtain ⟨c, inside, at_t⟩ := mem_listed.mp member
  obtain ⟨front, back, rfl⟩ := List.append_of_mem inside
  obtain ⟨a, b, split⟩ := List.append_of_mem at_t
  exact ⟨front, c, back, a, b, rfl, split⟩

/-- The walk back finds the head of the class. -/
theorem prioListHead_eq {a b : List Nat} (rep : Rep l (front ++ c :: back)) (split : c.queue = a ++ t :: b) :
    prioListHead l t = c.first := by
  have here : c ∈ front ++ c :: back := by simp
  have enough : a.length < l.seq.length + 1 := by
    rw [rep.seq]
    simp only [List.flatMap_append, List.flatMap_cons, split, List.length_append, List.length_cons]
    omega
  unfold prioListHead
  rw [climb_linked (rep.linked c here) split _ enough]
  rfl

/-- `TAILQ_REMOVE` touches the class of the thread only. -/
theorem remove_class {a b : List Nat} (rep : Rep l (front ++ c :: back)) (split : c.queue = a ++ t :: b) :
    (l.remove c.first t).qhead c.first = a ++ b ∧
    linked (l.remove c.first t).prev none (a ++ b) ∧
    ∀ d ∈ front ++ back, (l.remove c.first t).qhead d.first = l.qhead d.first ∧
      ∀ x ∈ d.queue, (l.remove c.first t).prev x = l.prev x := by
  have here : c ∈ front ++ c :: back := by simp
  have nodup : (a ++ t :: b).Nodup := by
    have all := rep.nodup
    simp only [List.flatMap_append, List.flatMap_cons] at all
    exact split ▸ (List.nodup_append.mp (List.nodup_append.mp all).2.1).1
  have out : t ∉ a := fun member => (List.nodup_append.mp nodup).2.2 t member t (by simp) rfl
  have next : tailqNext (l.qhead c.first) t = b.head? := by
    rw [rep.queue c here, split, tailqNext_append out]
  have prev : (l.remove c.first t).prev = match b.head? with
      | some next => update l.prev next (l.prev t)
      | none => l.prev := by
    simp only [remove, next]
  refine ⟨?_, linked_remove (split ▸ rep.linked c here) nodup prev, fun d member => ⟨?_, fun x inside => ?_⟩⟩
  · simp only [remove, update_self, rep.queue c here, split]
    rw [List.erase_append_right _ out, List.erase_cons_head]
  · have apart : d.first ≠ c.first := fun same =>
      rep.apart member c.first (List.mem_cons_self ..) (same ▸ List.mem_cons_self ..)
    simp [remove, apart]
  · rw [prev]
    cases b with
    | nil => rfl
    | cons behind rest =>
      have other : x ≠ behind := by
        rintro rfl
        exact rep.apart member x (by simp [split]) inside
      simp [other]

theorem prioListDel_rep (rep : Rep l classes) (member : t ∈ l.seq) :
    ∃ l', prioListDel l t = some l' ∧ (∃ classes', Rep l' classes') ∧
      l'.prio = l.prio ∧ l'.tdPriority = l.tdPriority ∧
      ∃ before after, l.seq = before ++ t :: after ∧ l'.seq = before ++ after := by
  obtain ⟨front, c, back, a, b, rfl, split⟩ := rep.find member
  obtain ⟨queue, linked, others⟩ := remove_class rep split
  have old : l.seq = front.flatMap Class.queue ++ a ++ t :: (b ++ back.flatMap Class.queue) := by
    rw [rep.seq]
    simp [split]
  have heads : (l.remove c.first t).head = front.map Class.first ++ c.first :: back.map Class.first := by
    simp [remove, rep.head]
  have out : c.first ∉ front.map Class.first := by
    intro there
    obtain ⟨d, inFront, same⟩ := List.mem_map.mp there
    exact rep.apart (d := d) (by simp [inFront]) c.first (List.mem_cons_self ..) (same ▸ List.mem_cons_self ..)
  simp only [prioListDel, prioListHead_eq rep split, queue]
  cases a with
  | nil =>
    obtain ⟨first, rest⟩ := List.cons.inj (show c.first :: c.rest = t :: b from split)
    cases b with
    | nil =>
      -- the only one of its class
      rw [if_pos (by rfl), if_pos first]
      have new : Rep { l.remove c.first t with head := (l.remove c.first t).head.erase c.first } (front ++ back) :=
        rep.drop (by rw [heads, List.erase_append_right _ out, List.erase_cons_head]) rfl others
      exact ⟨_, rfl, ⟨_, new⟩, rfl, rfl, _, _, old, by simp [new.seq]⟩
    | cons next rest' =>
      -- the next one takes the place of the head
      have apart : next ≠ c.first := by
        have nodup := rep.nodup
        simp only [List.flatMap_append, List.flatMap_cons] at nodup
        have inClass := (List.nodup_append.mp (List.nodup_append.mp nodup).2.1).1
        rw [split] at inClass
        rintro rfl
        simp_all
      rw [if_neg (by simp), if_pos first.symm]
      simp only [List.nil_append, List.head?_cons, Option.map_some]
      have inserted : tailqInsertBefore c.first next (l.remove c.first t).head =
          (front.map Class.first ++ [next]) ++ c.first :: back.map Class.first := by
        rw [heads, tailqInsertBefore_append out, List.append_assoc]
        rfl
      have out' : c.first ∉ front.map Class.first ++ [next] := by
        simp only [List.mem_append, List.mem_singleton, not_or]
        exact ⟨out, apart.symm⟩
      have new : Rep { (l.remove c.first t).swap c.first next with
          head := (tailqInsertBefore c.first next (l.remove c.first t).head).erase c.first }
          (front ++ ⟨c.prio, next, rest'⟩ :: back) := by
        refine rep.shrink ?_ rfl rfl ?_ ?_ linked fun d member => ⟨?_, (others d member).2⟩
        · rw [inserted, List.erase_append_right _ out', List.erase_cons_head, List.append_assoc]
          rfl
        · rw [split]
          exact List.sublist_cons_self ..
        · simpa [swap, Class.queue] using queue
        · have other : d.first ≠ c.first := fun same =>
            rep.apart member c.first (List.mem_cons_self ..) (same ▸ List.mem_cons_self ..)
          have other' : d.first ≠ next := fun same =>
            rep.apart member next (by simp [split]) (same ▸ List.mem_cons_self ..)
          simpa [swap, other, other'] using (others d member).1
      exact ⟨_, rfl, ⟨_, new⟩, rfl, rfl, _, _, old, new.seq.trans (by simp [Class.queue])⟩
  | cons x a =>
    obtain ⟨first, rest⟩ := List.cons.inj (show c.first :: c.rest = x :: (a ++ t :: b) from split)
    have apart : t ≠ c.first := by
      have nodup := rep.nodup
      simp only [List.flatMap_append, List.flatMap_cons] at nodup
      have inClass := (List.nodup_append.mp (List.nodup_append.mp nodup).2.1).1
      rw [split] at inClass
      rintro rfl
      simp_all
    rw [if_neg (by simp), if_neg apart]
    have left : (⟨c.prio, c.first, a ++ b⟩ : Class).queue = x :: a ++ b := by simp [Class.queue, first]
    have new : Rep (l.remove c.first t) (front ++ ⟨c.prio, c.first, a ++ b⟩ :: back) := by
      refine rep.shrink heads rfl rfl ?_ (queue.trans left.symm) (left.symm ▸ linked) others
      rw [split, left]
      exact .cons_cons x ((List.Sublist.refl a).append (List.sublist_cons_self ..))
    exact ⟨_, rfl, ⟨_, new⟩, rfl, rfl, _, _, old, new.seq.trans (by simp [left])⟩

end rep

/-- The threads of the list with the priorities they came with. -/
def entries (l : PrioList) : List (Int × Nat) := l.seq.map fun t => (l.prio t, t)

/-- The list is a stable sort, by priority, of what has been added and not deleted. -/
structure Stable (l : PrioList) (listed : List (Int × Nat)) : Prop where
  sorted : l.entries.Pairwise fun a b => a.1 ≤ b.1
  arrival : ∀ p, (l.entries.filter fun entry => entry.1 = p) = listed.filter fun entry => entry.1 = p
  once : l.seq.Nodup
  members : ∀ t, t ∈ l.seq ↔ ∃ entry ∈ listed, entry.2 = t
  /-- One head for each priority, and behind it all threads of that priority. -/
  heads : (l.head.map l.prio).Pairwise (· < ·)
  queues : ∀ h ∈ l.head, (l.qhead h).head? = some h ∧ ∀ t ∈ l.qhead h, l.prio t = l.prio h
  first : prioListFirst l = l.seq.head?
  empty : prioListEmpty l = true ↔ l.seq = []

theorem mem_arrived {l : PrioList} {listed : List (Int × Nat)}
    (arrival : ∀ p, (l.entries.filter fun entry => entry.1 = p) = listed.filter fun entry => entry.1 = p)
    (entry : Int × Nat) : entry ∈ l.entries ↔ entry ∈ listed := by
  have both : entry ∈ (l.entries.filter fun e => e.1 = entry.1) ↔ entry ∈ listed.filter fun e => e.1 = entry.1 := by
    rw [arrival]
  simpa using both

theorem mem_seq {l : PrioList} {listed : List (Int × Nat)}
    (arrival : ∀ p, (l.entries.filter fun entry => entry.1 = p) = listed.filter fun entry => entry.1 = p)
    (t : Nat) : t ∈ l.seq ↔ ∃ entry ∈ listed, entry.2 = t := by
  constructor
  · intro member
    exact ⟨(l.prio t, t), (mem_arrived arrival _).mp (List.mem_map.mpr ⟨t, member, rfl⟩), rfl⟩
  · rintro ⟨entry, member, rfl⟩
    obtain ⟨u, inside, rfl⟩ := List.mem_map.mp ((mem_arrived arrival _).mpr member)
    exact inside

theorem Rep.stable {l : PrioList} {classes : List Class} {listed : List (Int × Nat)} (rep : Rep l classes)
    (sorted : l.entries.Pairwise fun a b => a.1 ≤ b.1)
    (arrival : ∀ p, (l.entries.filter fun entry => entry.1 = p) = listed.filter fun entry => entry.1 = p) :
    Stable l listed where
  sorted := sorted
  arrival := arrival
  once := rep.seq ▸ rep.nodup
  members := mem_seq arrival
  heads := by
    have same : l.head.map l.prio = classes.map Class.prio := by
      rw [rep.head, List.map_map]
      exact List.map_congr_left fun c member => rep.prio c member _ (List.mem_cons_self ..)
    rw [same, List.pairwise_map]
    exact rep.sorted
  queues := fun h member => by
    rw [rep.head] at member
    obtain ⟨c, inside, rfl⟩ := List.mem_map.mp member
    rw [rep.queue c inside]
    exact ⟨rfl, fun t there => (rep.prio c inside t there).trans (rep.prio c inside _ (List.mem_cons_self ..)).symm⟩
  first := by
    rw [rep.seq, prioListFirst, rep.head]
    cases classes <;> rfl
  empty := by
    rw [rep.seq, prioListEmpty, rep.head]
    cases classes <;> simp [Class.queue]

/-- What every step keeps: the representation, and the order it stands for. -/
structure Faithful (l : PrioList) (a : Arrivals) : Prop where
  rep : ∃ classes, Rep l classes
  sorted : l.entries.Pairwise fun x y => x.1 ≤ y.1
  arrival : ∀ p, (l.entries.filter fun entry => entry.1 = p) = a.listed.filter fun entry => entry.1 = p
  tdPriority : l.tdPriority = a.tdPriority

section step
variable {l : PrioList} {a : Arrivals} {t : Nat}

theorem entries_congr {l' : PrioList} {q : List Nat} (same : ∀ x ∈ q, l'.prio x = l.prio x) :
    (q.map fun x => (l'.prio x, x)) = q.map fun x => (l.prio x, x) :=
  List.map_congr_left fun x member => by rw [same x member]

theorem Faithful.add (h : Faithful l a) (proper : (PrioOp.add t).proper a) :
    Faithful (prioListAdd l t) (a.step (.add t)) := by
  obtain ⟨classes, rep⟩ := h.rep
  have fresh : t ∉ l.seq := by
    intro member
    obtain ⟨entry, inside, same⟩ := (mem_seq h.arrival t).mp member
    exact proper entry inside same
  obtain ⟨classes', rep', before, after, placed⟩ := prioListAdd_rep rep fresh
  have old : l.seq = before ++ after := placed.old
  have prio : (prioListAdd l t).prio = update l.prio t (l.tdPriority t) := placed.prio
  have other (x : Nat) (member : x ∈ before ++ after) : x ≠ t := by
    rintro rfl
    exact fresh (old ▸ member)
  have same (q : List Nat) (part : q ⊆ before ++ after) :
      (q.map fun x => ((prioListAdd l t).prio x, x)) = q.map fun x => (l.prio x, x) :=
    entries_congr fun x member => by rw [prio, update_of_ne (other x (part member))]
  have split : l.entries = (before.map fun x => (l.prio x, x)) ++ after.map fun x => (l.prio x, x) := by
    rw [entries, old, List.map_append]
  have new : (prioListAdd l t).entries =
      (before.map fun x => (l.prio x, x)) ++ (l.tdPriority t, t) :: after.map fun x => (l.prio x, x) := by
    rw [entries, placed.new, List.map_append, List.map_cons, same before (List.subset_append_left ..),
      same after (List.subset_append_right ..), prio, update_self]
  have behind (x : Nat) (member : x ∈ before) : l.prio x ≤ l.tdPriority t := by
    simpa [other x (List.mem_append_left _ member)] using placed.behind x member
  have ahead (x : Nat) (member : x ∈ after) : l.tdPriority t < l.prio x := by
    simpa [other x (List.mem_append_right _ member)] using placed.ahead x member
  refine ⟨⟨classes', rep'⟩, ?_, fun p => ?_, placed.tdPriority.trans h.tdPriority⟩
  · have sorted := List.pairwise_append.mp (split ▸ h.sorted)
    rw [new]
    refine List.pairwise_append.mpr ⟨sorted.1, List.pairwise_cons.mpr ⟨fun y later => ?_, sorted.2.1⟩,
      fun x earlier y later => ?_⟩
    · obtain ⟨u, inside, rfl⟩ := List.mem_map.mp later
      exact Int.le_of_lt (ahead u inside)
    · rcases List.mem_cons.mp later with rfl | later
      · obtain ⟨u, inside, rfl⟩ := List.mem_map.mp earlier
        exact behind u inside
      · exact sorted.2.2 x earlier y later
  · have arrival := h.arrival p
    rw [split, List.filter_append] at arrival
    rw [new, List.filter_append, Arrivals.step, List.filter_append, ← arrival, ← h.tdPriority]
    by_cases same : l.tdPriority t = p
    · have none : (after.map fun x => (l.prio x, x)).filter (fun entry => entry.1 = p) = [] := by
        refine List.filter_eq_nil_iff.mpr fun entry later => ?_
        obtain ⟨u, inside, rfl⟩ := List.mem_map.mp later
        have := ahead u inside
        simp
        omega
      simp [none, same]
    · simp [same]

theorem Faithful.del (h : Faithful l a) (proper : (PrioOp.del t).proper a) :
    ∃ l', prioListDel l t = some l' ∧ Faithful l' (a.step (.del t)) := by
  obtain ⟨classes, rep⟩ := h.rep
  obtain ⟨l', run, rep', prio, tdPriority, before, after, old, new⟩ :=
    prioListDel_rep rep ((mem_seq h.arrival t).mpr proper)
  have nodup : (before ++ t :: after).Nodup := old ▸ rep.seq ▸ rep.nodup
  have out : ∀ x ∈ before ++ after, x ≠ t := by
    rintro x member rfl
    exact (List.nodup_cons.mp (List.perm_middle.nodup_iff.mp nodup)).1 member
  have entries_eq : l'.entries = l.entries.filter fun entry => entry.2 ≠ t := by
    have kept (q : List Nat) (part : q ⊆ before ++ after) :
        (q.map fun x => (l.prio x, x)).filter (fun entry => entry.2 ≠ t) = q.map fun x => (l.prio x, x) := by
      refine List.filter_eq_self.mpr fun entry member => ?_
      obtain ⟨x, inside, rfl⟩ := List.mem_map.mp member
      simpa using out x (part inside)
    rw [entries, entries, new, old, prio]
    simp only [List.map_append, List.map_cons, List.filter_append]
    rw [kept before (List.subset_append_left ..), List.filter_cons_of_neg (by simp),
      kept after (List.subset_append_right ..)]
  refine ⟨l', run, rep', ?_, fun p => ?_, tdPriority.trans h.tdPriority⟩
  · rw [entries_eq]
    exact h.sorted.filter _
  · rw [entries_eq, Arrivals.step, List.filter_comm, h.arrival p, List.filter_comm]

theorem Faithful.step (h : Faithful l a) (op : PrioOp) (proper : op.proper a) :
    ∃ l', prioListStep l op = some l' ∧ Faithful l' (a.step op) := by
  cases op with
  | add t => exact ⟨_, rfl, h.add proper⟩
  | del t => exact h.del proper
  | change t p =>
    obtain ⟨classes, rep⟩ := h.rep
    have same : l.tdPriority = a.tdPriority := h.tdPriority
    refine ⟨_, rfl, ⟨classes, ⟨rep.head, rep.queue, rep.linked, rep.prio, rep.sorted, rep.nodup⟩⟩, h.sorted,
      h.arrival, ?_⟩
    simp [Arrivals.step, same]

theorem Faithful.run (h : Faithful l a) (ops : List PrioOp) (proper : a.proper ops) :
    ∃ l', ops.foldlM prioListStep l = some l' ∧ Faithful l' (a.run ops) := by
  induction ops generalizing l a with
  | nil => exact ⟨l, rfl, h⟩
  | cons op ops ih =>
    obtain ⟨mid, run, next⟩ := h.step op proper.1
    obtain ⟨l', rest, last⟩ := ih next proper.2
    refine ⟨l', ?_, last⟩
    rw [List.foldlM_cons, run]
    exact rest

/-- Whatever is added and deleted, no assertion fails and the list is the stable priority queue. -/
theorem prio_list_stable (tdPriority : Nat → Int) (ops : List PrioOp) (proper : Arrivals.proper ⟨tdPriority, []⟩ ops) :
    ∃ l, ops.foldlM prioListStep { tdPriority } = some l ∧ Stable l (Arrivals.run ⟨tdPriority, []⟩ ops).listed := by
  have start : Faithful { tdPriority } ⟨tdPriority, []⟩ := by
    refine ⟨⟨[], rfl, by simp, by simp, by simp, List.Pairwise.nil, by simp⟩, ?_, fun p => ?_, rfl⟩ <;>
      simp [entries, PrioList.seq]
  obtain ⟨l, run, last⟩ := start.run ops proper
  obtain ⟨classes, rep⟩ := last.rep
  exact ⟨l, run, rep.stable last.sorted last.arrival⟩

/-- The test at the end of `prio_list.c`, without its second addition of a thread that is still there. -/
theorem prio_list_stable_test :
    ∃ l, [PrioOp.add 1, .add 2, .add 3, .add 4, .del 1, .change 4 0, .del 2, .del 3].foldlM prioListStep
      { tdPriority := fun t => [0, 1, 3, 1, 2].getD t 0 } = some l ∧ Stable l [(2, 4)] :=
  prio_list_stable (fun t => [0, 1, 3, 1, 2].getD t 0) _ (by simp [Arrivals.proper, PrioOp.proper, Arrivals.step])

end step
end PrioList
end SfqSched
