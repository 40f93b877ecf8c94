import SfqSched.SgfsRun

namespace SfqSched.Sgfs
open Function

/-- What happens to the vnode allocation inside `sgfs_mkdir`: `found` says that a lookup of the new name has
given the directory a vnode before the first search, the others are the errors of what `sgfs_allocv` calls. -/
structure Allocation where
  found : Bool := false
  getnewvnode : Option Errno := none
  insmntque : Option Errno := none
  vget : Option Errno := none
  deriving DecidableEq, Repr

/-- The allocation gives the directory a vnode. -/
def Allocation.succeeds (a : Allocation) : Bool :=
  if a.found then a.vget.isNone else a.getnewvnode.isNone && a.insmntque.isNone

/-- `sgfs_allocv` with the errors of what it calls. -/
def allocvCalls (s : Fs) (mp : MountId) (node : NodeId) (a : Allocation) : Except Errno VnodeId × Fs :=
  match (s.node node).vnodes.find? fun v => (s.vnode v).mount = mp with
  | some v =>
    match a.vget with
    | some error => (.error error, s)
    | none => (.ok v, s)
  | none =>
    match a.getnewvnode, a.insmntque with
    | some error, _ => (.error error, s)
    | none, some error => (.error error, s)
    | none, none => allocv s mp node true

/-- `sgfs_mkdir`, with what can happen once its lock is released. -/
def sgfsMkdirCalls (s : Fs) (dvp : VnodeId) (name : String) (a : Allocation) : Option (Reply × Fs) := do
  let pd ← (s.vnode dvp).data
  let mp := (s.vnode dvp).mount
  if !s.isDir pd then some (.error .enotdir, s)
  else
    let (pn, s) := mkdirEntry s pd name
    let s := if a.found then (allocv s mp pn true).2 else s
    let (error, s) := allocvCalls s mp pn a
    some (.ofExcept error, release s pn)

/-- The nodes that were there have their places in the tree and their counts. -/
def Untouched (s s' : Fs) : Prop :=
  ∀ n < s.nnodes, (s'.node n).children = (s.node n).children ∧ (s'.node n).parent = (s.node n).parent ∧
    (s'.node n).refcount = (s.node n).refcount

theorem allocvCalls_avail (s : Fs) (mp : MountId) (node : NodeId) (avail : Bool) :
    allocvCalls s mp node { getnewvnode := if avail then none else some .enfile } = allocv s mp node avail := by
  unfold allocvCalls
  split
  · rename_i v search
    simp only [allocv, search]
  · rename_i search
    cases avail
    · simp only [Bool.false_eq_true, if_false, allocv, search]
    · rfl

/-- Without a lookup in between, this is the `sgfs_mkdir` of the sequences of calls. -/
theorem sgfsMkdirCalls_avail (s : Fs) (dvp : VnodeId) (name : String) (avail : Bool) :
    sgfsMkdirCalls s dvp name { getnewvnode := if avail then none else some .enfile } = sgfsMkdir s dvp name avail := by
  unfold sgfsMkdirCalls sgfsMkdir
  simp only [allocvCalls_avail, Bool.false_eq_true, if_false]
  rfl

section failure
variable {s : Fs} {pd n : Nat} {a : Allocation}

/-- `sgfs_mkdir` has four references to the new directory: the one it was created with, those of its two
entries, and its own. -/
theorem mkdirEntry_new (old : pd < s.nnodes) (name : String) : (mkdirEntry s pd name).2.node s.nnodes =
    { name := name, type := .dir, refcount := 4, parent := some pd, children := [s.nnodes + 2, s.nnodes + 1] } := by
  have counted : (mkdirEntry s pd name).2.node s.nnodes = { (createDir s pd name).2.node s.nnodes with
      refcount := ((createDir s pd name).2.node s.nnodes).refcount + 1 } := update_self ..
  rw [counted, createDir_node name old, if_pos rfl]

theorem mkdirEntry_parent (old : pd < s.nnodes) (name : String) :
    ((mkdirEntry s pd name).2.node pd).children = s.nnodes :: (s.node pd).children := by
  have kept : (mkdirEntry s pd name).2.node pd = (createDir s pd name).2.node pd := update_of_ne (Nat.ne_of_lt old) ..
  have apart : ¬pd = s.nnodes ∧ ¬pd = s.nnodes + 1 ∧ ¬pd = s.nnodes + 2 := by omega
  rw [kept, createDir_node name old, if_neg apart.1, if_neg apart.2.1, if_neg apart.2.2, if_pos rfl]

/-- A release that is not the last one takes one reference and nothing else. -/
theorem release_many (dir : s.isDir n) (many : (s.node n).refcount ≠ 3) :
    release s n = s.modNode n fun m => { m with refcount := m.refcount - 1 } := by
  have still : (s.modNode n fun m => { m with refcount := m.refcount - 1 }).isDir n := by
    simpa [Fs.isDir, Fs.modNode] using dir
  simp only [release, still, if_true, many, if_false]

/-- `sgfs_allocv` returns an error exactly if what it comes to calls does, and then has changed nothing. -/
theorem allocvCalls_cases {mp : MountId}
    (found : ((s.node n).vnodes.find? fun v => (s.vnode v).mount = mp).isSome = a.found) :
    (a.succeeds = true ∧ ∃ v s', allocvCalls s mp n a = (.ok v, s')) ∨
      (a.succeeds = false ∧ ∃ error, allocvCalls s mp n a = (.error error, s)) := by
  unfold allocvCalls Allocation.succeeds
  rw [← found]
  cases search : (s.node n).vnodes.find? fun v => (s.vnode v).mount = mp with
  | some v =>
    cases a.vget with
    | none => exact .inl ⟨rfl, v, s, rfl⟩
    | some error => exact .inr ⟨rfl, error, rfl⟩
  | none =>
    cases a.getnewvnode with
    | some error => exact .inr ⟨rfl, error, rfl⟩
    | none =>
      cases a.insmntque with
      | some error => exact .inr ⟨rfl, error, rfl⟩
      | none =>
        have made : (allocv s mp n true).1 = .ok s.nvnodes := by
          simp only [allocv, search, if_true]
        exact .inl ⟨rfl, s.nvnodes, (allocv s mp n true).2, Prod.ext made rfl⟩

/-- When `sgfs_allocv` starts, the new directory is the first of its parent, has a vnode if a lookup
found it, and more references than its entry and its two own entries account for. -/
theorem mkdirEntry_found (old : pd < s.nnodes) (name : String) (mp : MountId) (found : Bool) {t : Fs}
    (now : t = if found then (allocv (mkdirEntry s pd name).2 mp s.nnodes true).2 else (mkdirEntry s pd name).2) :
    t.isDir s.nnodes ∧ 3 < (t.node s.nnodes).refcount ∧ (t.node pd).children = s.nnodes :: (s.node pd).children ∧
      ((t.node s.nnodes).vnodes.find? fun v => (t.vnode v).mount = mp).isSome = found := by
  have new := mkdirEntry_new old name
  have parent := mkdirEntry_parent old name
  have apart : pd ≠ s.nnodes := Nat.ne_of_lt old
  generalize (mkdirEntry s pd name).2 = m at new parent now
  cases found with
  | false =>
    rw [now]
    simp [Fs.isDir, new, parent, NodeType.isDir]
  | true =>
    rw [now]
    simp [allocv, addref, Fs.modNode, Fs.isDir, new, parent, apart, NodeType.isDir]

/-- `sgfs_mkdir` leaves the tree as it was with its error exactly if the vnode allocation does not fail. -/
theorem mkdir_untouched (s : Fs) (dvp : VnodeId) (pd : Nat) (name : String) (a : Allocation)
    (data : (s.vnode dvp).data = some pd) (old : pd < s.nnodes) :
    ∃ reply s', sgfsMkdirCalls s dvp name a = some (reply, s') ∧
      (((∃ error, reply = .error error) → Untouched s s') ↔ (s.isDir pd → a.succeeds)) := by
  unfold sgfsMkdirCalls
  simp only [data, Option.bind_eq_bind, Option.bind_some]
  cases dir : s.isDir pd with
  | false => exact ⟨_, _, rfl, iff_of_true (fun _ n _ => ⟨rfl, rfl, rfl⟩) nofun⟩
  | true =>
    simp only [Bool.not_true, Bool.false_eq_true, if_false]
    obtain ⟨t, now⟩ : ∃ t, t = if a.found then (allocv (mkdirEntry s pd name).2 (s.vnode dvp).mount s.nnodes true).2
      else (mkdirEntry s pd name).2 := ⟨_, rfl⟩
    have new : (mkdirEntry s pd name).1 = s.nnodes := rfl
    rw [new, ← now]
    obtain ⟨isDir, many, children, found⟩ := mkdirEntry_found old name (s.vnode dvp).mount a.found now
    refine ⟨_, _, rfl, ?_⟩
    obtain ⟨succeeds, v, t', made⟩ | ⟨fails, error, failed⟩ := allocvCalls_cases found
    · rw [made, succeeds]
      exact iff_of_true (fun ⟨error, is⟩ => Reply.noConfusion is) fun _ => rfl
    · rw [failed, fails]
      refine iff_of_false (fun untouched => ?_) fun none => Bool.noConfusion (none trivial)
      -- The first entry of the parent is still the new directory.
      have kept := (untouched ⟨error, rfl⟩ pd old).1
      have apart : pd ≠ s.nnodes := Nat.ne_of_lt old
      simp only [release_many isDir (Nat.ne_of_gt many), Fs.modNode, update_of_ne apart, children] at kept
      exact List.cons_ne_self _ _ kept

end failure

/-- The root directory is open. -/
def rootOpen : List Op := [.root 0 true]

theorem mkdir_untouched_made :
    ∃ x reply s', run plainVfs rootOpen = some x ∧ sgfsMkdirCalls x.fs 0 "a" {} = some (reply, s') ∧
      ((∃ error, reply = .error error) → Untouched x.fs s') := by
  have result : (run plainVfs rootOpen).map (fun x => ((x.fs.vnode 0).data, decide (0 < x.fs.nnodes))) =
      some (some 0, true) := by decide +kernel
  obtain ⟨x, ran, values⟩ := Option.map_eq_some_iff.mp result
  obtain ⟨data, old⟩ := Prod.mk.inj values
  obtain ⟨reply, s', made, untouched⟩ := mkdir_untouched x.fs 0 0 "a" {} data (of_decide_eq_true old)
  exact ⟨x, reply, s', ran, made, untouched.mpr fun _ => rfl⟩

/-- After a failed `getnewvnode` the root directory has an entry more. -/
theorem mkdir_leaves_entry :
    ¬ ∀ (K : VfsKernel) (ops : List Op) (x : Sys) (dvp : VnodeId) (name : String) (a : Allocation) (error : Errno) (s' : Fs),
      run K ops = some x → sgfsMkdirCalls x.fs dvp name a = some (.error error, s') → Untouched x.fs s' := by
  intro claimed
  have result : ((run plainVfs rootOpen).bind fun x => (sgfsMkdirCalls x.fs 0 "a" { getnewvnode := some .enfile }).map
      fun made => (made.1, decide (0 < x.fs.nnodes), (x.fs.node 0).children, (made.2.node 0).children)) =
      some (.error .enfile, true, [2, 1], [3, 2, 1]) := by decide +kernel
  obtain ⟨x, ran, values⟩ := Option.bind_eq_some_iff.mp result
  obtain ⟨⟨reply, s'⟩, failed, both⟩ := Option.map_eq_some_iff.mp values
  simp only [Prod.mk.injEq] at both
  obtain ⟨rfl, old, before, after⟩ := both
  have kept := (claimed _ _ x 0 "a" _ _ s' ran failed 0 (of_decide_eq_true old)).1
  rw [before, after] at kept
  exact absurd kept (by decide)

end SfqSched.Sgfs
