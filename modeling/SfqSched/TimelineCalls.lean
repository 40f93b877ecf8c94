import SfqSched.RbNext
import SfqSched.Timelines

namespace SfqSched
open SearchTree Function

/-- What `__enqueue_entity` and `__dequeue_entity` read and write: the heads of
all timelines with `sfq->leftmost`, and `tlink` and `SEF_ONSFQ` of all entities. -/
structure Tlinks where
  root : Gid → Option EntId := fun _ => none
  leftmost : Gid → Option EntId := fun _ => none
  entry : EntId → RbEntry EntId := fun _ => {}
  onSfq : EntId → Bool := fun _ => false

namespace Tlinks

/-- `&sfq->timeline`. -/
def timeline (l : Tlinks) (q : Gid) : RbStore EntId := ⟨l.root q, l.entry⟩

/-- The pointers of one timeline, its `leftmost` and the flag of one entity are stored. -/
def put (l : Tlinks) (q : Gid) (h : RbStore EntId) (first : Option EntId) (se : EntId) (flag : Bool) : Tlinks where
  root := update l.root q h.root
  leftmost := update l.leftmost q first
  entry := h.entry
  onSfq := update l.onSfq se flag

/-- `__enqueue_entity`, with `before` for a negative `vtime_cmp`. -/
def enqueueEntity (fuel : Nat) (l : Tlinks) (before : EntId → EntId → Bool) (q : Gid) (se : EntId) : Option Tlinks :=
  if l.onSfq se then none
  else
    ((l.timeline q).enqueue fuel before se).map fun done =>
      l.put q done.1 (if done.2 then some se else l.leftmost q) se true

/-- `__dequeue_entity`. -/
def dequeueEntity (fuel : Nat) (l : Tlinks) (q : Gid) (se : EntId) : Option Tlinks :=
  if l.onSfq se then
    (if l.leftmost q = some se then (l.timeline q).next fuel se else some (l.leftmost q)).bind fun first =>
      ((l.timeline q).remove fuel se).map fun h => l.put q h first se false
  else none

end Tlinks

/-- The rest of the kernel as `tree.h` is, with any clock. -/
def treeKernel (clock : Nat → BitVec 64) : Kernel where
  insertColor := SearchTree.insertColor
  insertColor_seq := insertColor_seq
  remove := SearchTree.remove
  remove_seq := remove_seq
  schedTimeCpu := clock

namespace TimelineCall

/-- The call on the pointers. -/
def exec (fuel : Nat) (l : Tlinks) : TimelineCall → Option Tlinks
  | .enqueue before q se => l.enqueueEntity fuel before q se
  | .dequeue q se => l.dequeueEntity fuel q se

/-- Only an entity outside all timelines is enqueued, and it is dequeued where it is. -/
def Legal (trees : Gid → Timeline) : TimelineCall → Prop
  | .enqueue _ _ se => ∀ p, se ∉ (trees p).seq
  | .dequeue q se => se ∈ (trees q).seq

end TimelineCall

/-- The calls one after the other are legal. -/
def LegalCalls (k : Kernel) (trees : Gid → Timeline) : List TimelineCall → Prop
  | [] => True
  | call :: calls => call.Legal trees ∧ LegalCalls k (call.apply k trees) calls

/-- The pointers are those of red-black trees that share no entity. -/
structure Tlinks.Sound (l : Tlinks) (trees : Gid → Timeline) : Prop where
  represents : ∀ q, (l.timeline q).Represents (trees q)
  proper : ∀ q, (trees q).Proper
  leftmost : ∀ q, l.leftmost q = (trees q).seq.head?
  apart : ∀ p q e, e ∈ (trees p).seq → e ∈ (trees q).seq → p = q
  onSfq : ∀ e, l.onSfq e = true ↔ ∃ q, e ∈ (trees q).seq

theorem Tlinks.sound_empty : Tlinks.Sound {} fun _ => .leaf where
  represents _ := ⟨rfl, trivial, List.nodup_nil⟩
  proper _ := ⟨rfl, 0, rfl⟩
  leftmost _ := rfl
  apart _ _ _ member := absurd member (List.not_mem_nil)
  onSfq e := by simp

namespace Tlinks.Sound
variable {l : Tlinks} {trees : Gid → Timeline} {q : Gid} {e : EntId} {fuel : Nat} (clock : Nat → BitVec 64)

/-- What one timeline does to its own entries leaves the others alone. -/
theorem elsewhere (sound : l.Sound trees) {h' : RbStore EntId} {within : List EntId} (off : RbStore.Off within (l.timeline q) h')
    (own : ∀ x ∈ within, ∀ p, x ∈ (trees p).seq → p = q) {p : Gid} (other : p ≠ q) :
    (⟨l.root p, h'.entry⟩ : RbStore EntId).Represents (trees p) := by
  have before := sound.represents p
  refine ⟨before.root, before.links.congr fun z member => off z fun inside => ?_, before.distinct⟩
  exact other (own z inside p member)

/-- Nothing else changes when the sequence of one timeline gains or loses one entity. -/
theorem update (sound : l.Sound trees) {h' : RbStore EntId} {t : Timeline} {first : Option EntId} {flag : Bool}
    (represents : h'.Represents t) (proper : t.Proper) {within : List EntId} (off : RbStore.Off within (l.timeline q) h')
    (own : ∀ x ∈ within, ∀ p, x ∈ (trees p).seq → p = q) (isFirst : first = t.seq.head?)
    (new : ∀ x ∈ t.seq, ∀ p, p ≠ q → x ∉ (trees p).seq)
    (flags : ∀ x, Function.update l.onSfq e flag x = true ↔ x ∈ t.seq ∨ ∃ p, p ≠ q ∧ x ∈ (trees p).seq) :
    (l.put q h' first e flag).Sound (Function.update trees q t) where
  represents p := by
    by_cases here : p = q
    · subst here
      rw [update_self]
      exact ⟨(update_self ..).trans represents.root, represents.links.congr fun _ _ => rfl, represents.distinct⟩
    · rw [update_of_ne here]
      have kept := sound.elsewhere off own here
      exact ⟨(update_of_ne here ..).trans kept.root, kept.links.congr fun _ _ => rfl, kept.distinct⟩
  proper p := by
    by_cases here : p = q
    · subst here
      rwa [update_self]
    · rw [update_of_ne here]
      exact sound.proper p
  leftmost p := by
    by_cases here : p = q
    · subst here
      rw [update_self]
      exact (update_self ..).trans isFirst
    · rw [update_of_ne here]
      exact (update_of_ne here ..).trans (sound.leftmost p)
  apart p p' x member member' := by
    by_cases here : p = q <;> by_cases here' : p' = q
    · rw [here, here']
    · subst here
      rw [update_self] at member
      rw [update_of_ne here'] at member'
      exact absurd member' (new x member p' here')
    · subst here'
      rw [update_self] at member'
      rw [update_of_ne here] at member
      exact absurd member (new x member' p here)
    · rw [update_of_ne here] at member
      rw [update_of_ne here'] at member'
      exact sound.apart p p' x member member'
  onSfq x := by
    refine (flags x).trans ⟨fun there => ?_, fun there => ?_⟩
    · rcases there with member | ⟨p, other, member⟩
      · exact ⟨q, by rwa [update_self]⟩
      · exact ⟨p, by rwa [update_of_ne other]⟩
    · obtain ⟨p, member⟩ := there
      by_cases here : p = q
      · subst here
        rw [update_self] at member
        exact .inl member
      · rw [update_of_ne here] at member
        exact .inr ⟨p, here, member⟩

theorem enqueue (sound : l.Sound trees) (before : EntId → EntId → Bool) (new : ∀ p, e ∉ (trees p).seq)
    (enough : (trees q).seq.length < fuel) :
    ∃ l', l.enqueueEntity fuel before q e = some l' ∧
      l'.Sound ((TimelineCall.enqueue before q e).apply (treeKernel clock) trees) := by
  have off : l.onSfq e = false := by
    by_contra there
    obtain ⟨p, member⟩ := (sound.onSfq e).mp (by simpa using there)
    exact new p member
  obtain ⟨h', run, spans⟩ := RbStore.enqueue_spec (sound.represents q) (sound.proper q) before (new q) enough
  obtain ⟨front, back, old, grown, path, _⟩ := (trees q).insertLeaf_seq before true e
  have member (x : EntId) : x ∈ ((trees q).insertLeaf before true e).seq ↔ x = e ∨ x ∈ (trees q).seq := by
    rw [(insertLeaf_perm ..).mem_iff, List.mem_cons]
  refine ⟨l.put q h' (if (trees q).leftmostPath before e then some e else l.leftmost q) e true, ?_,
    sound.update spans.all ((sound.proper q).insert before (new q)) spans.off ?_ ?_ ?_ ?_⟩
  · unfold enqueueEntity
    rw [off, run]
    rfl
  · intro x inside p there
    rcases (member x).mp inside with rfl | mine
    · exact absurd there (new p)
    · exact sound.apart p q x there mine
  · rw [Kernel.insertColor_seq, grown, sound.leftmost, old]
    by_cases first : (trees q).leftmostPath before e
    · rw [path.mp first, if_pos first]
      rfl
    · have filled : front ≠ [] := fun empty => first (path.mpr empty)
      obtain ⟨x, front, rfl⟩ := List.exists_cons_of_ne_nil filled
      rw [if_neg first]
      rfl
  · intro x inside p other there
    rw [Kernel.insertColor_seq] at inside
    rcases (member x).mp inside with rfl | mine
    · exact new p there
    · exact other (sound.apart p q x there mine)
  · intro x
    rw [Kernel.insertColor_seq, member]
    by_cases here : x = e
    · simp [here]
    · rw [update_of_ne here, sound.onSfq]
      simp only [here, false_or]
      constructor
      · rintro ⟨p, there⟩
        by_cases mine : p = q
        · exact .inl (mine ▸ there)
        · exact .inr ⟨p, mine, there⟩
      · rintro (there | ⟨p, _, there⟩)
        · exact ⟨q, there⟩
        · exact ⟨p, there⟩

theorem dequeue (sound : l.Sound trees) (there : e ∈ (trees q).seq) (enough : (trees q).seq.length < fuel) :
    ∃ l', l.dequeueEntity fuel q e = some l' ∧
      l'.Sound ((TimelineCall.dequeue q e).apply (treeKernel clock) trees) := by
  have queued : l.onSfq e = true := (sound.onSfq e).mpr ⟨q, there⟩
  obtain ⟨⟨place, k, left, right⟩, found⟩ : ∃ found, (trees q).locate e [] = some found :=
    Option.ne_none_iff_exists'.mp fun missed => locate_eq_none.mp missed there
  obtain ⟨whole, least, early⟩ := locate_eq_some found
  have whole : trees q = plug place (node k left e right) := whole
  have all := sound.represents q
  obtain ⟨h', run, represents, off⟩ := RbStore.remove_spec all (sound.proper q) there enough
  -- What `leftmost` becomes is what the sequence without `e` begins with.
  have first : (if l.leftmost q = some e then (l.timeline q).next fuel e else some (l.leftmost q)) =
      some ((trees q).seq.erase e).head? := by
    rw [sound.leftmost]
    by_cases isFirst : (trees q).seq.head? = some e
    · rw [if_pos isFirst, RbStore.next_spec (whole ▸ all) (whole ▸ enough), whole, plug_seq, seq_node]
      rw [whole, plug_seq, seq_node] at isFirst
      have empty : front place = [] ∧ left.seq = [] := by
        cases before : front place with
        | nil =>
          cases lower : left.seq with
          | nil => exact ⟨rfl, rfl⟩
          | cons x rest =>
            rw [before, lower] at isFirst
            cases isFirst
            exact absurd (lower ▸ List.mem_cons_self ..) least
        | cons x rest =>
          rw [before] at isFirst
          cases isFirst
          exact absurd (before ▸ List.mem_cons_self ..) (early (List.not_mem_nil))
      rw [empty.1, empty.2]
      simp
    · rw [if_neg isFirst]
      cases seq : (trees q).seq with
      | nil => rfl
      | cons x rest =>
        have other : x ≠ e := fun eq => isFirst (by rw [seq, eq]; rfl)
        rw [List.erase_cons_tail (by simpa using other)]
        rfl
  have member (x : EntId) : x ∈ (trees q).seq.erase e ↔ x ≠ e ∧ x ∈ (trees q).seq := all.distinct.mem_erase_iff
  refine ⟨l.put q h' ((trees q).seq.erase e).head? e false, ?_,
    sound.update represents ((sound.proper q).remove e) off ?_ ?_ ?_ ?_⟩
  · unfold dequeueEntity
    rw [if_pos queued, first, Option.bind_some, run]
    rfl
  · exact fun x inside p mine => sound.apart p q x mine inside
  · rw [Kernel.remove_seq]
  · intro x inside p other mine
    rw [Kernel.remove_seq, member] at inside
    exact other (sound.apart p q x mine inside.2)
  · intro x
    rw [Kernel.remove_seq, member]
    by_cases here : x = e
    · subst here
      rw [update_self]
      simp only [Bool.false_eq_true, ne_eq, not_true_eq_false, false_and, false_or, false_iff, not_exists, not_and]
      exact fun p other mine => other (sound.apart p q x mine there)
    · rw [update_of_ne here, sound.onSfq]
      constructor
      · rintro ⟨p, mine⟩
        by_cases same : p = q
        · exact .inl ⟨here, same ▸ mine⟩
        · exact .inr ⟨p, same, mine⟩
      · rintro (⟨_, mine⟩ | ⟨p, _, mine⟩)
        · exact ⟨q, mine⟩
        · exact ⟨p, mine⟩

/-- One call keeps pointers and trees together. -/
theorem call (sound : l.Sound trees) (call : TimelineCall) (legal : call.Legal trees)
    (enough : ∀ q, (trees q).seq.length < fuel) : ∃ l', call.exec fuel l = some l' ∧
      l'.Sound (call.apply (treeKernel clock) trees) := by
  cases call with
  | enqueue before q se => exact sound.enqueue clock before legal (enough q)
  | dequeue q se => exact sound.dequeue clock legal (enough q)

end Tlinks.Sound

section calls
variable (clock : Nat → BitVec 64)

/-- No timeline gets longer than by one entity. -/
theorem TimelineCall.apply_length (trees : Gid → Timeline) (call : TimelineCall) (q : Gid) :
    (call.apply (treeKernel clock) trees q).seq.length ≤ (trees q).seq.length + 1 := by
  cases call with
  | enqueue before p se =>
    show (update trees p _ q).seq.length ≤ _
    by_cases here : q = p
    · subst here
      rw [update_self, Kernel.insertColor_seq, (insertLeaf_perm ..).length_eq, List.length_cons]
    · rw [update_of_ne here]
      exact Nat.le_succ _
  | dequeue p se =>
    show (update trees p _ q).seq.length ≤ _
    by_cases here : q = p
    · subst here
      rw [update_self, Kernel.remove_seq]
      exact List.length_erase_le.trans (Nat.le_succ _)
    · rw [update_of_ne here]
      exact Nat.le_succ _

theorem timeline_calls_from {l : Tlinks} {trees : Gid → Timeline} (sound : l.Sound trees) (calls : List TimelineCall)
    (legal : LegalCalls (treeKernel clock) trees calls) {fuel : Nat}
    (enough : ∀ q, (trees q).seq.length + calls.length ≤ fuel) :
    ∃ l', calls.foldlM (TimelineCall.exec fuel) l = some l' ∧
      l'.Sound (calls.foldl (TimelineCall.apply (treeKernel clock)) trees) := by
  induction calls generalizing l trees with
  | nil => exact ⟨l, rfl, sound⟩
  | cons call calls ih =>
    obtain ⟨first, rest⟩ := legal
    rw [List.length_cons] at enough
    have now (q : Gid) : (trees q).seq.length < fuel := by
      have := enough q
      omega
    have later (q : Gid) : (call.apply (treeKernel clock) trees q).seq.length + calls.length ≤ fuel := by
      have := enough q
      have := call.apply_length clock trees q
      omega
    obtain ⟨l₁, run, sound₁⟩ := sound.call clock call first now
    obtain ⟨l', runs, sound'⟩ := ih sound₁ rest later
    refine ⟨l', ?_, sound'⟩
    rw [List.foldlM_cons, run]
    exact runs

/-- Whatever the order of the calls, no loop runs on and no null pointer is
followed, and all timelines stay red-black and logarithmically low. -/
theorem timeline_calls (calls : List TimelineCall) (legal : LegalCalls (treeKernel clock) (fun _ => .leaf) calls)
    {fuel : Nat} (enough : calls.length ≤ fuel) :
    ∃ l, calls.foldlM (TimelineCall.exec fuel) {} = some l ∧
      l.Sound (calls.foldl (TimelineCall.apply (treeKernel clock)) fun _ => .leaf) ∧
      ∀ q, (calls.foldl (TimelineCall.apply (treeKernel clock)) (fun _ => .leaf) q).height ≤
        2 * Nat.log 2 ((calls.foldl (TimelineCall.apply (treeKernel clock)) (fun _ => .leaf) q).seq.length + 1) := by
  have room : ∀ q : Gid, (leaf : Timeline).seq.length + calls.length ≤ fuel := fun _ => by simpa using enough
  obtain ⟨l, run, sound⟩ := timeline_calls_from clock Tlinks.sound_empty calls legal room
  exact ⟨l, run, sound, fun q => (sound.proper q).height_le⟩

/-- Three threads come, and the first goes. -/
theorem timeline_calls_three : ∃ l,
    [TimelineCall.enqueue (fun _ _ => false) 0 (.thread 0), .enqueue (fun _ _ => false) 0 (.thread 1),
      .enqueue (fun _ _ => false) 0 (.thread 2), .dequeue 0 (.thread 0)].foldlM (TimelineCall.exec 4) {} = some l ∧
    l.leftmost 0 = some (.thread 1) ∧ l.root 0 = some (.thread 1) := by
  have absent (trees : Gid → Timeline) (t e : EntId) (p : Gid) (off : e ∉ (trees p).seq)
      (new : e ∉ (((trees 0).insertLeaf (fun _ _ => false) true t).insertColor t).seq) :
      e ∉ (TimelineCall.apply (treeKernel fun _ => 0) trees (.enqueue (fun _ _ => false) 0 t) p).seq := by
    show e ∉ (update trees 0 _ p).seq
    by_cases here : p = 0
    · subst here
      rwa [update_self]
    · rwa [update_of_ne here]
  have legal : LegalCalls (treeKernel fun _ => 0) (fun _ => .leaf)
      [.enqueue (fun _ _ => false) 0 (.thread 0), .enqueue (fun _ _ => false) 0 (.thread 1),
        .enqueue (fun _ _ => false) 0 (.thread 2), .dequeue 0 (.thread 0)] := by
    refine ⟨fun p => List.not_mem_nil, fun p => absent _ _ _ _ List.not_mem_nil ?_,
      fun p => absent _ _ _ _ (absent _ _ _ _ List.not_mem_nil ?_) ?_, ?_, trivial⟩
    · decide
    · decide
    · decide
    · show EntId.thread 0 ∈ SearchTree.seq _
      decide
  obtain ⟨l, run, sound, _⟩ := timeline_calls (fun _ => 0) _ legal (show 4 ≤ 4 from le_rfl)
  exact ⟨l, run, sound.leftmost 0, (sound.represents 0).root⟩

end calls

end SfqSched
