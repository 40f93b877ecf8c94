import SfqSched.SgfsRemoved

namespace SfqSched.Sgfs
open Function

/-- The file numbers of a tree: those of directories are in use, each by one of them, and
the entries `.` and `..` have borrowed theirs. -/
structure Filed (s : Fs) : Prop where
  lower : ∀ c p : Nat, (s.node c).parent = some p → p < c
  used : ∀ n, s.alive n → s.isDir n → s.fileno n ≠ 0 → s.fileno n ∈ s.unr
  apart : ∀ n m, s.alive n → s.isDir n → s.alive m → s.isDir m → s.fileno n ≠ 0 → s.fileno n = s.fileno m → n = m
  dot : ∀ c p, s.alive c → (s.node c).type = .this → (s.node c).parent = some p → s.fileno c ≠ 0 → s.fileno c = s.fileno p
  dotdot : ∀ c p, s.alive c → (s.node c).type = .parent → (s.node c).parent = some p → s.fileno c ≠ 0 →
    (p = s.root → s.fileno c = s.fileno p) ∧ ∀ g, p ≠ s.root → (s.node p).parent = some g → s.fileno c = s.fileno g
  root : s.fileno s.root ≠ 0
  above : ∀ n p, s.alive n → (s.node n).parent = some p → s.fileno n ≠ 0 → s.fileno p ≠ 0

/-- A change of the tree that numbers nothing: it may make nodes, which have no number, unlink
some, and free some, whose numbers are then given back. -/
structure Sheds (s s' : Fs) : Prop where
  root : s'.root = s.root
  grows : s.nnodes ≤ s'.nnodes
  alive : ∀ n, n < s.nnodes → s'.alive n → s.alive n
  type : ∀ n, n < s.nnodes → (s'.node n).type = (s.node n).type
  parent : ∀ n p, n < s.nnodes → (s'.node n).parent = some p → (s.node n).parent = some p
  fileno : ∀ n, n < s.nnodes → s'.fileno n = s.fileno n
  fresh : ∀ n, s.nnodes ≤ n → s'.alive n → s'.fileno n = 0
  lower : ∀ n p : Nat, s.nnodes ≤ n → (s'.node n).parent = some p → (s.node n).parent = some p ∨ p < n
  unr : ∀ k ∈ s.unr, k ∈ s'.unr ∨ ∃ n, s.alive n ∧ s.isDir n ∧ ¬s'.alive n ∧ s.fileno n = k ∧ k ≠ 0

namespace Sheds
variable {s s' s'' : Fs} {held : List NodeId} {n p : Nat}

/-- Nothing the numbers depend on differs. -/
theorem same (root : s'.root = s.root) (nnodes : s'.nnodes = s.nnodes) (freed : s'.freed = s.freed)
    (type : ∀ n, (s'.node n).type = (s.node n).type) (parent : ∀ n p, (s'.node n).parent = some p → (s.node n).parent = some p)
    (fileno : s'.fileno = s.fileno) (unr : s'.unr = s.unr) : Sheds s s' where
  root := root
  grows := Nat.le_of_eq nnodes.symm
  alive n _ there := by rwa [Fs.alive, nnodes, freed] at there
  type n _ := type n
  parent n p _ := parent n p
  fileno n _ := congrFun fileno n
  fresh n large there := absurd there.1 (by rw [nnodes]; exact Nat.not_lt.mpr large)
  lower n p _ up := .inl (parent n p up)
  unr k member := .inl (by rwa [unr])

theorem refl (s : Fs) : Sheds s s := same rfl rfl rfl (fun _ => rfl) (fun _ _ up => up) rfl rfl

theorem trans (h : Sheds s s') (h' : Sheds s' s'') : Sheds s s'' where
  root := h'.root.trans h.root
  grows := Nat.le_trans h.grows h'.grows
  alive n small there := h.alive n small (h'.alive n (Nat.lt_of_lt_of_le small h.grows) there)
  type n small := (h'.type n (Nat.lt_of_lt_of_le small h.grows)).trans (h.type n small)
  parent n p small up := h.parent n p small (h'.parent n p (Nat.lt_of_lt_of_le small h.grows) up)
  fileno n small := (h'.fileno n (Nat.lt_of_lt_of_le small h.grows)).trans (h.fileno n small)
  fresh n large there := by
    by_cases small : n < s'.nnodes
    · rw [h'.fileno n small]
      exact h.fresh n large (h'.alive n small there)
    · exact h'.fresh n (Nat.not_lt.mp small) there
  lower n p large up := by
    by_cases small : n < s'.nnodes
    · exact h.lower n p large (h'.parent n p small up)
    · rcases h'.lower n p (Nat.not_lt.mp small) up with before | below
      · exact h.lower n p large before
      · exact .inr below
  unr k member := by
    rcases h.unr k member with kept | ⟨n, alive, dir, dead, number, pos⟩
    · rcases h'.unr k kept with kept' | ⟨n, alive, dir, dead, number, pos⟩
      · exact .inl kept'
      · by_cases small : n < s.nnodes
        · refine .inr ⟨n, h.alive n small alive, ?_, dead, (h.fileno n small).symm.trans number, pos⟩
          rw [Fs.isDir, ← h.type n small]
          exact dir
        · exact absurd (number.symm.trans (h.fresh n (Nat.not_lt.mp small) alive)) pos
    · refine .inr ⟨n, alive, dir, fun there => dead ?_, number, pos⟩
      exact h'.alive n (Nat.lt_of_lt_of_le alive.1 h.grows) there

theorem addref (s : Fs) (n : NodeId) : Sheds s (addref s n) := by
  rw [Fits.addref_eq]
  exact same rfl rfl rfl (fun _ => rfl) (fun _ _ up => up) rfl rfl

/-- A change of a node that leaves its type alone and sets its parent to `NULL` at most. -/
theorem modNode (s : Fs) (n : NodeId) (f : Node → Node) (type : ∀ x, (f x).type = x.type)
    (parent : ∀ x p, (f x).parent = some p → x.parent = some p) : Sheds s (s.modNode n f) := by
  rw [Fits.modNode_eq]
  refine same rfl rfl rfl (fun m => ?_) (fun m p up => ?_) rfl rfl
  · dsimp only
    split
    · exact type _
    · rfl
  · dsimp only at up
    split at up
    · exact parent _ _ up
    · exact up

theorem allocv (s : Fs) (mp : MountId) (n : NodeId) (avail : Bool) : Sheds s (allocv s mp n avail).2 := by
  unfold Sgfs.allocv
  split
  · exact refl s
  · split
    · have opened : Sheds s { s with
          vnode := update s.vnode s.nvnodes ⟨mp, some n, decide ((s.node n).type = NodeType.root)⟩
          nvnodes := s.nvnodes + 1 } := same rfl rfl rfl (fun _ => rfl) (fun _ _ up => up) rfl rfl
      have linked := modNode { s with
          vnode := update s.vnode s.nvnodes ⟨mp, some n, decide ((s.node n).type = NodeType.root)⟩
          nvnodes := s.nvnodes + 1 } n (fun x => { x with vnodes := s.nvnodes :: x.vnodes }) (fun _ => rfl) (fun _ _ up => up)
      exact (opened.trans linked).trans (addref _ n)
    · exact refl s

theorem release (fits : Fits s (n :: held)) : Sheds s (release s n) := by
  obtain ⟨alive, dir⟩ := fits.holds n (List.mem_cons_self ..)
  rcases fits.release_cases with ⟨_, same⟩ | ⟨up, dot, deleted, children, vnodes, unheld, same⟩
  · rw [same]
    exact modNode _ _ _ (fun _ => rfl) (fun _ _ up => up)
  · rw [same]
    have fields (m : NodeId) :
        (if m = n then { s.node n with children := [], refcount := 2 } else s.node m).type = (s.node m).type ∧
        (if m = n then { s.node n with children := [], refcount := 2 } else s.node m).parent = (s.node m).parent := by
      by_cases eq : m = n
      · rw [eq, if_pos rfl]
        exact ⟨rfl, rfl⟩
      · rw [if_neg eq]
        exact ⟨rfl, rfl⟩
    refine ⟨rfl, Nat.le_refl _, fun m small there => ?_, fun m _ => (fields m).1, fun m p _ up => (fields m).2.symm.trans up,
      fun m _ => rfl, fun m large there => absurd there.1 (Nat.not_lt.mpr large),
      fun m p _ up => .inl ((fields m).2.symm.trans up), fun k member => ?_⟩
    · refine ⟨small, fun freed => there.2 ?_⟩
      simp [freed]
    · by_cases numbered : s.fileno n ≠ 0
      · by_cases eq : k = s.fileno n
        · refine .inr ⟨n, alive, dir, fun there => there.2 (by simp), eq.symm, eq ▸ numbered⟩
        · left
          dsimp only
          rw [if_pos numbered]
          exact (List.mem_erase_of_ne eq).mpr member
      · left
        dsimp only
        rw [if_neg numbered]
        exact member

theorem createDir (s : Fs) {p : Nat} (below : p < s.nnodes) (name : String) : Sheds s (createDir s p name).2 := by
  have nodes := createDir_node (s := s) name below
  have fileno (m : Nat) : (Sgfs.createDir s p name).2.fileno m =
      if m = s.nnodes + 2 then 0 else if m = s.nnodes + 1 then 0 else if m = s.nnodes then 0 else s.fileno m := by
    change update (update (update s.fileno s.nnodes 0) (s.nnodes + 1) 0) (s.nnodes + 2) 0 m = _
    simp only [update_apply]
  have same : (Sgfs.createDir s p name).2.freed = s.freed ∧ (Sgfs.createDir s p name).2.nnodes = s.nnodes + 3 ∧
    (Sgfs.createDir s p name).2.root = s.root ∧ (Sgfs.createDir s p name).2.unr = s.unr := ⟨rfl, rfl, rfl, rfl⟩
  generalize (Sgfs.createDir s p name).2 = s' at nodes fileno same
  obtain ⟨freed, nnodes, root, unr⟩ := same
  have old (m : Nat) (small : m < s.nnodes) : (s'.node m).type = (s.node m).type ∧ (s'.node m).parent = (s.node m).parent := by
    rw [nodes, if_neg (by omega), if_neg (by omega), if_neg (by omega)]
    by_cases eq : m = p
    · rw [if_pos eq, eq]
      exact ⟨rfl, rfl⟩
    · rw [if_neg eq]
      exact ⟨rfl, rfl⟩
  refine ⟨root, by omega, fun m small there => ⟨small, by rw [← freed]; exact there.2⟩, fun m small => (old m small).1,
    fun m q small up => (old m small).2.symm.trans up, fun m small => ?_, fun m large there => ?_, fun m q large up => ?_,
    fun k member => .inl (by rwa [unr])⟩
  · rw [fileno, if_neg (by omega), if_neg (by omega), if_neg (by omega)]
  · have small := there.1
    rw [nnodes] at small
    rw [fileno]
    split
    · rfl
    · split
      · rfl
      · rw [if_pos (by omega)]
  · rw [nodes] at up
    split at up
    · cases up
      right
      omega
    · split at up
      · cases up
        right
        omega
      · split at up
        · cases up
          right
          omega
        · left
          rwa [if_neg (by omega)] at up

end Sheds

namespace Filed
variable {K : VfsKernel} {s s' : Fs} {held : List NodeId} {n p : Nat}

theorem shed (filed : Filed s) (fits : Fits s held) (sheds : Sheds s s') : Filed s' := by
  -- a node with a number is not new
  have old (n : NodeId) (there : s'.alive n) (numbered : s'.fileno n ≠ 0) :
      n < s.nnodes ∧ s.alive n ∧ s.fileno n ≠ 0 ∧ s'.fileno n = s.fileno n := by
    by_cases small : n < s.nnodes
    · have same := sheds.fileno n small
      exact ⟨small, sheds.alive n small there, same ▸ numbered, same⟩
    · exact absurd (sheds.fresh n (Nat.not_lt.mp small) there) numbered
  have dir (n : NodeId) (small : n < s.nnodes) (isDir : s'.isDir n) : s.isDir n := by
    rw [Fs.isDir, ← sheds.type n small]
    exact isDir
  have rootSmall := fits.root.1.1
  constructor
  · intro c p up
    by_cases small : c < s.nnodes
    · exact filed.lower c p (sheds.parent c p small up)
    · rcases sheds.lower c p (Nat.not_lt.mp small) up with before | below
      · exact filed.lower c p before
      · exact below
  · intro n there isDir numbered
    obtain ⟨small, alive, numbered', same⟩ := old n there numbered
    have member := filed.used n alive (dir n small isDir) numbered'
    rw [same]
    rcases sheds.unr _ member with kept | ⟨m, aliveM, dirM, dead, number, _⟩
    · exact kept
    · have eq := filed.apart n m alive (dir n small isDir) aliveM dirM numbered' number.symm
      exact absurd (eq ▸ there) dead
  · intro n m there isDir thereM isDirM numbered number
    obtain ⟨small, alive, numbered', same⟩ := old n there numbered
    obtain ⟨smallM, aliveM, _, sameM⟩ := old m thereM (number ▸ numbered)
    exact filed.apart n m alive (dir n small isDir) aliveM (dir m smallM isDirM) numbered' (same.symm.trans (number.trans sameM))
  · intro c p there type up numbered
    obtain ⟨small, alive, numbered', same⟩ := old c there numbered
    have up' := sheds.parent c p small up
    have below := filed.lower c p up'
    rw [same, sheds.fileno p (Nat.lt_trans below small)]
    exact filed.dot c p alive (by rw [← sheds.type c small, type]) up' numbered'
  · intro c p there type up numbered
    obtain ⟨small, alive, numbered', same⟩ := old c there numbered
    have up' := sheds.parent c p small up
    have smallP := Nat.lt_trans (filed.lower c p up') small
    obtain ⟨atRoot, atOther⟩ := filed.dotdot c p alive (by rw [← sheds.type c small, type]) up' numbered'
    rw [same, sheds.root]
    refine ⟨fun isRoot => ?_, fun g other above => ?_⟩
    · rw [sheds.fileno p smallP]
      exact atRoot isRoot
    · have above' := sheds.parent p g smallP above
      rw [sheds.fileno g (Nat.lt_trans (filed.lower p g above') smallP)]
      exact atOther g other above'
  · rw [sheds.root, sheds.fileno _ rootSmall]
    exact filed.root
  · intro n p there up numbered
    obtain ⟨small, alive, numbered', same⟩ := old n there numbered
    have up' := sheds.parent n p small up
    rw [sheds.fileno p (Nat.lt_trans (filed.lower n p up') small)]
    exact filed.above n p alive up' numbered'

/-- An entry `.` or `..` borrows its number. -/
theorem borrow (filed : Filed s) (fits : Fits s held) (other : s.isDir n = false) {k : Nat}
    (dot : (s.node n).type = .this → ∀ p, (s.node n).parent = some p → k = s.fileno p)
    (dotdot : (s.node n).type = .parent → ∀ p, (s.node n).parent = some p →
      (p = s.root → k = s.fileno p) ∧ ∀ g, p ≠ s.root → (s.node p).parent = some g → k = s.fileno g)
    (parent : ∀ p, (s.node n).parent = some p → s.fileno p ≠ 0) : Filed { s with fileno := update s.fileno n k } := by
  have away (m : NodeId) (isDir : s.isDir m) : m ≠ n := fun same => Bool.noConfusion ((same ▸ other).symm.trans isDir)
  have number (m : NodeId) (apart : m ≠ n) : update s.fileno n k m = s.fileno m := update_of_ne apart ..
  have dirRoot : s.isDir s.root := by simp [Fs.isDir, fits.root.2.1, NodeType.isDir]
  refine ⟨filed.lower, fun m there isDir numbered => ?_, fun m l there isDir thereL isDirL numbered same => ?_,
    fun c p there type up numbered => ?_, fun c p there type up numbered => ?_, ?_, fun m p there up numbered => ?_⟩
  · replace isDir : s.isDir m := isDir
    simp only [number m (away m isDir)] at numbered ⊢
    exact filed.used m there isDir numbered
  · replace isDir : s.isDir m := isDir
    replace isDirL : s.isDir l := isDirL
    simp only [number m (away m isDir), number l (away l isDirL)] at numbered same
    exact filed.apart m l there isDir thereL isDirL numbered same
  · obtain ⟨_, dirP⟩ := fits.above c p there up
    dsimp only at numbered ⊢
    rw [number p (away p dirP)]
    by_cases same : c = n
    · rw [same, update_self]
      exact dot (same ▸ type) p (same ▸ up)
    · rw [number c same] at numbered ⊢
      exact filed.dot c p there type up numbered
  · obtain ⟨aliveP, dirP⟩ := fits.above c p there up
    dsimp only at numbered ⊢
    have known : (p = s.root → update s.fileno n k c = s.fileno p) ∧
        ∀ g, p ≠ s.root → (s.node p).parent = some g → update s.fileno n k c = s.fileno g := by
      by_cases same : c = n
      · rw [same, update_self]
        exact dotdot (same ▸ type) p (same ▸ up)
      · rw [number c same] at numbered ⊢
        exact filed.dotdot c p there type up numbered
    refine ⟨fun isRoot => ?_, fun g notRoot above => ?_⟩
    · rw [number p (away p dirP)]
      exact known.1 isRoot
    · rw [number g (away g (fits.above p g aliveP above).2)]
      exact known.2 g notRoot above
  · dsimp only
    rw [number _ (away _ dirRoot)]
    exact filed.root
  · obtain ⟨_, dirP⟩ := fits.above m p there up
    dsimp only at numbered ⊢
    rw [number p (away p dirP)]
    by_cases same : m = n
    · exact parent p (same ▸ up)
    · rw [number m same] at numbered
      exact filed.above m p there up numbered

/-- A directory gets a number that no other directory has. -/
theorem enter (filed : Filed s) (unnumbered : s.fileno n = 0) {k c : Nat} (pos : k ≠ 0)
    (fresh : k ∉ s.unr) (dir : s.isDir n) (parent : ∀ p, (s.node n).parent = some p → s.fileno p ≠ 0) :
    Filed { s with fileno := update s.fileno n k, unr := k :: s.unr, calls := c } := by
  have number (m : NodeId) (apart : m ≠ n) : update s.fileno n k m = s.fileno m := update_of_ne apart ..
  have away (m : NodeId) (numbered : s.fileno m ≠ 0) : m ≠ n := fun same => numbered (same ▸ unnumbered)
  have entry (c : NodeId) (type : (s.node c).type = .this ∨ (s.node c).type = .parent) : c ≠ n := by
    rintro rfl
    rcases type with type | type <;> simp [Fs.isDir, type, NodeType.isDir] at dir
  refine ⟨filed.lower, fun m there isDir numbered => ?_, fun m l there isDir thereL isDirL numbered same => ?_,
    fun c p there type up numbered => ?_, fun c p there type up numbered => ?_, ?_, fun m p there up numbered => ?_⟩
  · dsimp only at numbered ⊢
    by_cases same : m = n
    · rw [same, update_self]
      exact List.mem_cons_self ..
    · rw [number m same] at numbered ⊢
      exact List.mem_cons_of_mem _ (filed.used m there isDir numbered)
  · dsimp only at numbered same
    by_cases eq : m = n
    · by_cases eqL : l = n
      · rw [eq, eqL]
      · rw [eq, update_self, number l eqL] at same
        exact absurd (same ▸ filed.used l thereL isDirL (same ▸ pos)) fresh
    · rw [number m eq] at numbered same
      by_cases eqL : l = n
      · rw [eqL, update_self] at same
        exact absurd (same ▸ filed.used m there isDir numbered) fresh
      · rw [number l eqL] at same
        exact filed.apart m l there isDir thereL isDirL numbered same
  · dsimp only at numbered ⊢
    rw [number c (entry c (.inl type))] at numbered ⊢
    have known := filed.dot c p there type up numbered
    rw [number p (away p (known ▸ numbered))]
    exact known
  · dsimp only at numbered ⊢
    rw [number c (entry c (.inr type))] at numbered ⊢
    obtain ⟨atRoot, atOther⟩ := filed.dotdot c p there type up numbered
    refine ⟨fun isRoot => ?_, fun g notRoot above => ?_⟩
    · rw [number p (away p (atRoot isRoot ▸ numbered))]
      exact atRoot isRoot
    · have known := atOther g notRoot above
      rw [number g (away g (known ▸ numbered))]
      exact known
  · dsimp only
    rw [number _ (away _ filed.root)]
    exact filed.root
  · dsimp only at numbered ⊢
    have known : s.fileno p ≠ 0 := by
      by_cases same : m = n
      · exact parent p (same ▸ up)
      · rw [number m same] at numbered
        exact filed.above m p there up numbered
    rw [number p (away p known)]
    exact known

/-- A node below a numbered parent gets a number of its own, or the one it borrows. -/
theorem own (filed : Filed s) (fits : Fits s held) (alive : s.alive n) (unnumbered : s.fileno n = 0)
    (parent : ∀ p, (s.node n).parent = some p → s.fileno p ≠ 0) (run : filenoOwn K s n = some s') :
    Filed s' ∧ s'.fileno n ≠ 0 ∧ ∀ m, m ≠ n → s'.fileno m = s.fileno m := by
  have kind : (s.node n).type ≠ .file ∧ (s.node n).type ≠ .symlink := by
    by_cases isRoot : n = s.root
    · rw [isRoot, fits.root.2.1]
      exact ⟨nofun, nofun⟩
    · rcases fits.kind n alive isRoot with type | type | type <;> rw [type] <;> exact ⟨nofun, nofun⟩
  have others (k : Nat) (m : NodeId) (apart : m ≠ n) : update s.fileno n k m = s.fileno m := update_of_ne apart ..
  have pos := (Nat.pos_iff_ne_zero.mp (K.allocUnr_pos s.calls s.unr))
  have dirRoot : s.isDir s.root := by simp [Fs.isDir, fits.root.2.1, NodeType.isDir]
  unfold filenoOwn at run
  split at run
  case h_1 type | h_2 type =>
    cases run
    have dir : s.isDir n := by simp [Fs.isDir, type, NodeType.isDir]
    refine ⟨filed.enter unnumbered pos (K.allocUnr_fresh _ _) dir parent, ?_, others _⟩
    dsimp only
    rw [update_self]
    exact pos
  case h_3 type => exact absurd type kind.1
  case h_4 type => exact absurd type kind.2
  case h_5 type up =>
    cases run
    have numbered := parent _ up
    have leaf : s.isDir n = false := by simp [Fs.isDir, type, NodeType.isDir]
    refine ⟨filed.borrow fits leaf (fun _ p up' => ?_) (fun is => ?_) parent, ?_, others _⟩
    · rw [up] at up'
      cases up'
      rfl
    · cases type.symm.trans is
    · dsimp only
      rw [update_self]
      exact numbered
  case h_6 p type up =>
    have numbered := parent _ up
    have aliveP := (fits.above n p alive up).1
    have leaf : s.isDir n = false := by simp [Fs.isDir, type, NodeType.isDir]
    split at run
    · rename_i isRoot
      cases run
      refine ⟨filed.borrow fits leaf (fun is => ?_) (fun _ q up' => ?_) parent, ?_, others _⟩
      · cases type.symm.trans is
      · rw [up] at up'
        cases up'
        exact ⟨fun _ => rfl, fun g notRoot => absurd isRoot notRoot⟩
      · dsimp only
        rw [update_self]
        exact numbered
    · rename_i notRoot
      split at run
      · rename_i g above
        cases run
        have numberedG := filed.above p g aliveP above numbered
        refine ⟨filed.borrow fits leaf (fun is => ?_) (fun _ q up' => ?_) parent, ?_, others _⟩
        · cases type.symm.trans is
        · rw [up] at up'
          cases up'
          refine ⟨fun isRoot => absurd isRoot notRoot, fun g' _ above' => ?_⟩
          rw [above] at above'
          cases above'
          rfl
        · dsimp only
          rw [update_self]
          exact numberedG
      · cases run
  all_goals cases run

/-- `sgfs_fileno_alloc` numbers a node and what is above it, and nothing else. -/
theorem alloc {fuel : Nat} (filed : Filed s) (fits : Fits s held) (alive : s.alive n) (unnumbered : s.fileno n = 0)
    (run : filenoAlloc K fuel s n = some s') :
    Filed s' ∧ s'.fileno n ≠ 0 ∧ (∀ m, s.fileno m ≠ 0 → s'.fileno m = s.fileno m) ∧
      ∀ m : Nat, n < m → s'.fileno m = s.fileno m := by
  induction fuel generalizing s s' n with
  | zero => cases run
  | succ fuel ih =>
    -- the last step, once the parent has its number
    have last (a : Fs) (filed' : Filed a) (fits' : Fits a held) (alive' : a.alive n) (unnumbered' : a.fileno n = 0)
        (parent : ∀ p, (a.node n).parent = some p → a.fileno p ≠ 0) (run : filenoOwn K a n = some s') :
        Filed s' ∧ s'.fileno n ≠ 0 ∧ (∀ m, a.fileno m ≠ 0 → s'.fileno m = a.fileno m) ∧
          ∀ m : Nat, n < m → s'.fileno m = a.fileno m := by
      obtain ⟨result, numbered, others⟩ := filed'.own fits' alive' unnumbered' parent run
      refine ⟨result, numbered, fun m numbered' => others m ?_, fun m above => others m (Nat.ne_of_gt above)⟩
      rintro rfl
      exact numbered' unnumbered'
    unfold filenoAlloc at run
    split at run
    · rename_i p up
      split at run
      · rename_i zero
        obtain ⟨a, first, run⟩ := Option.bind_eq_some_iff.mp run
        have aliveP := (fits.above n p alive up).1
        have below := filed.lower n p up
        obtain ⟨filed', numbered, kept, others⟩ := ih filed fits aliveP zero first
        have same := Numbered.filenoAlloc first
        have aliveA : a.alive n := by
          rw [Fs.alive, same.nnodes, same.freed]
          exact alive
        obtain ⟨result, numbered', kept', others'⟩ := last a filed' (same.fits fits) aliveA
          ((others n below).trans unnumbered) (fun q up' => by
            rw [same.node, up] at up'
            cases up'
            exact numbered) run
        refine ⟨result, numbered', fun m before => ?_, fun m above => ?_⟩
        · have first := kept m before
          rw [kept' m (first ▸ before), first]
        · rw [others' m above, others m (Nat.lt_trans below above)]
      · rename_i numbered
        exact last s filed fits alive unnumbered (fun q up' => by
          rw [up] at up'
          cases up'
          exact numbered) run
    · rename_i top
      exact last s filed fits alive unnumbered (fun q up' => by rw [top] at up'; cases up') run

theorem entry (filed : Filed s) (fits : Fits s held) (alive : s.alive n) (run : numberEntry K s n = some s') :
    Filed s' ∧ s'.fileno n ≠ 0 ∧ ∀ m, s.fileno m ≠ 0 → s'.fileno m = s.fileno m := by
  unfold numberEntry at run
  split at run
  · rename_i zero
    obtain ⟨result, numbered, kept, _⟩ := filed.alloc fits alive zero run
    exact ⟨result, numbered, kept⟩
  · rename_i numbered
    cases run
    exact ⟨filed, numbered, fun _ _ => rfl⟩

/-- A listing numbers what it lists. -/
theorem walk (filed : Filed s) (fits : Fits s held) {uioOffset resid offset last : Nat} {children : List NodeId}
    {entries : List Dirent} (there : ∀ c ∈ children, s.alive c)
    (run : readdirWalk K s uioOffset resid offset children = some (s', entries, last)) :
    Filed s' ∧ (∀ m, s.fileno m ≠ 0 → s'.fileno m = s.fileno m) ∧
      ∀ e ∈ entries, e.node ∈ children ∧ e.fileno = s'.fileno e.node ∧ e.fileno ≠ 0 := by
  induction children generalizing s s' uioOffset resid offset last entries with
  | nil =>
    cases run
    exact ⟨filed, fun _ _ => rfl, by simp⟩
  | cons pn rest ih =>
    obtain ⟨a, number, run⟩ := Option.bind_eq_some_iff.mp run
    obtain ⟨filed', numbered, kept⟩ := filed.entry fits (there pn (List.mem_cons_self ..)) number
    have same := Numbered.numberEntry number
    have rest' : ∀ c ∈ rest, a.alive c := fun c member => by
      rw [Fs.alive, same.nnodes, same.freed]
      exact there c (List.mem_cons_of_mem _ member)
    split at run
    · cases run
      exact ⟨filed', kept, by simp⟩
    split at run
    · obtain ⟨⟨b, entries', last'⟩, later, done⟩ := Option.map_eq_some_iff.mp run
      cases done
      obtain ⟨result, kept', listed⟩ := ih filed' (same.fits fits) rest' later
      refine ⟨result, fun m before => ?_, fun e member => ?_⟩
      · rw [kept' m (kept m before ▸ before), kept m before]
      · rcases List.mem_cons.mp member with rfl | member
        · exact ⟨List.mem_cons_self .., (kept' pn numbered).symm, numbered⟩
        · obtain ⟨inside, number⟩ := listed e member
          exact ⟨List.mem_cons_of_mem _ inside, number⟩
    · obtain ⟨result, kept', listed⟩ := ih filed' (same.fits fits) rest' run
      refine ⟨result, fun m before => ?_, fun e member => ?_⟩
      · rw [kept' m (kept m before ▸ before), kept m before]
      · obtain ⟨inside, number⟩ := listed e member
        exact ⟨List.mem_cons_of_mem _ inside, number⟩

end Filed

section steps
variable {K : VfsKernel} {s s' : Fs} {held : List NodeId} {n p v : Nat} {name : String} {avail : Bool} {r : Reply}

theorem sgfsReclaim_sheds (fits : Fits s held) (run : sgfsReclaim s v = some s') : Sheds s s' := by
  obtain ⟨n, data, done⟩ := Option.bind_eq_some_iff.mp run
  cases done
  refine Sheds.trans ?_ (.release (fits.detach data))
  have cleared : Sheds s { s with vnode := update s.vnode v { s.vnode v with data := none } } :=
    .same rfl rfl rfl (fun _ => rfl) (fun _ _ up => up) rfl rfl
  exact cleared.trans (.modNode _ _ _ (fun _ => rfl) (fun _ _ up => up))

theorem mkdirEntry_sheds (small : p < s.nnodes) (name : String) : Sheds s (mkdirEntry s p name).2 :=
  (Sheds.createDir s small name).trans (.addref ..)

theorem sgfsMkdir_sheds (fits : Fits s held) (run : sgfsMkdir s v name avail = some (r, s')) : Sheds s s' := by
  obtain ⟨p, data, done⟩ := Option.bind_eq_some_iff.mp run
  obtain ⟨_, alive, dir⟩ := fits.opened v p data
  rw [dir] at done
  have same : release (allocv (mkdirEntry s p name).2 ((mkdirEntry s p name).2.vnode v).mount
      (mkdirEntry s p name).1 avail).2 (mkdirEntry s p name).1 = s' := congrArg Prod.snd (Option.some.inj done)
  obtain ⟨made, there, isDir⟩ := mkdirEntry_fits fits alive dir name
  rw [← same]
  exact ((mkdirEntry_sheds alive.1 name).trans (.allocv ..)).trans (.release (allocv_fits made there isDir _ avail))

theorem sgfsLookupx_sheds {cnp : Componentname} (fits : Fits s held) (run : sgfsLookupx s v cnp avail = some (r, s')) :
    Sheds s s' := by
  obtain ⟨p, data, done⟩ := Option.bind_eq_some_iff.mp run
  obtain ⟨_, alive, dir⟩ := fits.opened v p data
  split at done
  · cases done
    exact .refl s
  split at done
  · cases done
    exact .refl s
  split at done
  · split at done
    all_goals
      cases done
      exact .refl s
  rename_i dot
  split at done
  · split at done
    · cases done
      exact .refl s
    split at done
    · cases done
      exact .refl s
    obtain ⟨above, parent, done⟩ := Option.bind_eq_some_iff.mp done
    have same : (allocv s (s.vnode v).mount above avail).2 = s' := congrArg Prod.snd (Option.some.inj done)
    rw [← same]
    exact .allocv ..
  rename_i dotdot
  unfold lookupEntry at done
  cases found : search s p cnp.name with
  | none =>
    rw [found] at done
    dsimp only at done
    repeat' split at done
    all_goals
      cases done
      exact .refl s
  | some n =>
    obtain ⟨aliveN, dirN, _⟩ := search_fits fits alive dot dotdot found
    have holds := fits.hold aliveN dirN
    have there := holds.holds n (List.mem_cons_self ..)
    rw [found] at done
    dsimp only at done
    split at done
    · have same : release (addref s n) n = s' := congrArg Prod.snd (Option.some.inj done)
      rw [← same]
      exact (Sheds.addref s n).trans (.release holds)
    · have same : release (allocv (addref s n) ((addref s n).vnode v).mount n avail).2 n = s' :=
        congrArg Prod.snd (Option.some.inj done)
      rw [← same]
      exact ((Sheds.addref s n).trans (.allocv ..)).trans (.release (allocv_fits holds there.1 there.2 _ avail))

theorem sgfsRmdir_sheds (fits : Fits s held) (run : sgfsRmdir s v = some (r, s')) : Sheds s s' := by
  obtain ⟨n, data, done⟩ := Option.bind_eq_some_iff.mp run
  obtain ⟨_, alive, dir⟩ := fits.opened v n data
  split at done
  · cases done
    exact .refl s
  split at done
  · cases done
    exact .refl s
  rename_i isDir _
  split at done
  · rename_i first second children
    obtain ⟨p, parent, done⟩ := Option.bind_eq_some_iff.mp done
    have same : release (release ((s.modNode n fun x => { x with parent := none, deleted := true }).modNode p
      fun x => { x with children := x.children.erase n }) n) p = s' := congrArg Prod.snd (Option.some.inj done)
    rw [← same]
    have unlinked := fits.unlink alive (not_not.mp isDir) parent (by rw [children]; rfl)
    refine Sheds.trans (Sheds.trans ?_ (.release unlinked)) (.release unlinked.drop)
    refine Sheds.trans (.modNode s n (fun x => { x with parent := none, deleted := true }) (fun _ => rfl) ?_)
      (.modNode _ p (fun x => { x with children := x.children.erase n }) (fun _ => rfl) (fun _ _ up => up))
    exact nofun
  · cases done
    exact .refl s
  · cases done

end steps

/-- An operation other than a listing numbers nothing. -/
theorem step_sheds {K : VfsKernel} {x x' : Sys} {op : Op} {r : Reply} (fits : Fits x.fs x.held)
    (other : ∀ v uioOffset resid, op ≠ .readdir v uioOffset resid) (run : step K x op = some (r, x')) : Sheds x.fs x'.fs := by
  unfold step at run
  split at run
  · rename_i enabled
    cases op with
    | mkdir v name avail =>
      obtain ⟨⟨r', s⟩, done, same⟩ := Option.map_eq_some_iff.mp run
      cases same
      exact sgfsMkdir_sheds fits done
    | rmdir v =>
      obtain ⟨⟨r', s⟩, done, same⟩ := Option.map_eq_some_iff.mp run
      cases same
      exact sgfsRmdir_sheds fits done
    | lookup v cnp avail =>
      obtain ⟨⟨r', s⟩, done, same⟩ := Option.map_eq_some_iff.mp run
      cases same
      exact sgfsLookupx_sheds fits done
    | root mp avail =>
      cases run
      exact .allocv ..
    | getattr v =>
      obtain ⟨r', done, same⟩ := Option.map_eq_some_iff.mp run
      cases same
      exact .refl _
    | readdir v uioOffset resid => exact absurd rfl (other v uioOffset resid)
    | reclaim v =>
      obtain ⟨s, done, same⟩ := Option.map_eq_some_iff.mp run
      cases same
      exact sgfsReclaim_sheds fits done
    | create v name =>
      obtain ⟨p, data, same⟩ := Option.map_eq_some_iff.mp run
      obtain ⟨_, alive, dir⟩ := fits.opened v p data
      rw [dir] at same
      cases same
      exact mkdirEntry_sheds alive.1 name
    | search v name =>
      obtain ⟨p, data, same⟩ := Option.map_eq_some_iff.mp run
      unfold lookupEntry at same
      cases found : search x.fs p name with
      | none =>
        rw [found] at same
        cases same
        exact .refl _
      | some n =>
        rw [found] at same
        cases same
        exact .addref ..
    | allocv mp n avail =>
      cases run
      exact .allocv ..
    | release n =>
      cases run
      have member : n ∈ x.held := by simpa [Op.enabled] using enabled
      exact .release (fits.perm (List.perm_cons_erase member))
  · cases run

/-- The file numbers that an operation reports for directories: those of `sgfs_getattr`, and in a listing
those of the subdirectories, for `.` that of the directory, for `..` that of its parent, or of the root itself. -/
def Op.reports (x : Sys) : Op → Reply → List (NodeId × Nat)
  | .getattr v, .attr fileno => (x.fs.vnode v).data.toList.map fun n => (n, fileno)
  | .readdir _ _ _, .entries es _ => es.flatMap fun e =>
    match (x.fs.node e.node).type with
    | .root | .dir => [(e.node, e.fileno)]
    | .this => (x.fs.node e.node).parent.toList.map fun p => (p, e.fileno)
    | .parent => (x.fs.node e.node).parent.toList.flatMap fun p =>
      if p = x.fs.root then [(p, e.fileno)] else (x.fs.node p).parent.toList.map fun g => (g, e.fileno)
    | _ => []
  | _, _ => []

/-- A run with all that it reports. -/
def traceFrom (K : VfsKernel) : Sys → List Op → Option (List (NodeId × Nat) × Sys)
  | x, [] => some ([], x)
  | x, op :: ops => (step K x op).bind fun (r, x') =>
    (traceFrom K x' ops).map fun (reports, y) => (op.reports x r ++ reports, y)

/-- Whether the operation reads no attributes of a directory that has no number yet. -/
def Op.asksNumbered (x : Sys) : Op → Bool
  | .getattr v => (x.fs.vnode v).data.all fun n => x.fs.fileno n ≠ 0
  | _ => true

/-- The same for all operations of a run. -/
def asksNumbered (K : VfsKernel) : Sys → List Op → Bool
  | _, [] => true
  | x, op :: ops => op.asksNumbered x && (step K x op).all fun (_, x') => asksNumbered K x' ops

section run
variable {K : VfsKernel} {x x' : Sys} {op : Op} {ops : List Op} {r : Reply}

/-- One step: no number is lost, and what is reported is the number of the directory. -/
theorem step_filed (fits : Fits x.fs x.held) (filed : Filed x.fs)
    (asks : op.asksNumbered x) (run : step K x op = some (r, x')) :
    Filed x'.fs ∧ x.fs.nnodes ≤ x'.fs.nnodes ∧
    (∀ n, n < x.fs.nnodes → x.fs.fileno n ≠ 0 → x'.fs.fileno n = x.fs.fileno n) ∧
    (∀ n, n < x.fs.nnodes → x'.fs.isDir n = x.fs.isDir n) ∧
    ∀ n k, (n, k) ∈ op.reports x r → n < x'.fs.nnodes ∧ x'.fs.isDir n ∧ k = x'.fs.fileno n ∧ k ≠ 0 := by
  by_cases listing : ∃ v uioOffset resid, op = .readdir v uioOffset resid
  · obtain ⟨v, uioOffset, resid, rfl⟩ := listing
    unfold step at run
    split at run
    swap
    · cases run
    obtain ⟨⟨r', s⟩, done, same⟩ := Option.map_eq_some_iff.mp run
    cases same
    have numbered := sgfsReaddir_numbered done
    obtain ⟨p, data, done⟩ := Option.bind_eq_some_iff.mp done
    obtain ⟨⟨a, entries, last⟩, walked, done⟩ := Option.bind_eq_some_iff.mp done
    cases done
    obtain ⟨_, alive, dir⟩ := fits.opened v p data
    have below (c : NodeId) (member : c ∈ (x.fs.node p).children) := (fits.linked p c alive).mp member
    obtain ⟨result, kept, listed⟩ := filed.walk fits (fun c member => (below c member).1) walked
    have dirs (m : NodeId) : s.isDir m = x.fs.isDir m := by rw [Fs.isDir, numbered.node]; rfl
    have live (m : NodeId) (there : x.fs.alive m) : s.alive m := by
      rw [Fs.alive, numbered.nnodes, numbered.freed]
      exact there
    refine ⟨result, Nat.le_of_eq numbered.nnodes.symm, fun m _ => kept m, fun m _ => dirs m, fun n k reported => ?_⟩
    obtain ⟨e, member, reported⟩ := List.mem_flatMap.mp reported
    obtain ⟨inside, number, pos⟩ := listed e member
    obtain ⟨aliveE, up⟩ := below e.node inside
    have fields (m : NodeId) (there : x.fs.alive m) (isDir : x.fs.isDir m) (same : e.fileno = s.fileno m) :
        m < s.nnodes ∧ s.isDir m ∧ e.fileno = s.fileno m ∧ e.fileno ≠ 0 :=
      ⟨(live m there).1, by rw [dirs, isDir], same, pos⟩
    have upS : (s.node e.node).parent = some p := by rw [numbered.node, up]
    split at reported
    case h_1 type | h_2 type =>
      simp only [List.mem_cons, List.not_mem_nil, or_false, Prod.mk.injEq] at reported
      obtain ⟨rfl, rfl⟩ := reported
      exact fields _ aliveE (by simp [Fs.isDir, type, NodeType.isDir]) number
    case h_3 type =>
      rw [up] at reported
      simp only [Option.toList_some, List.map_cons, List.map_nil, List.mem_cons, List.not_mem_nil, or_false,
        Prod.mk.injEq] at reported
      obtain ⟨rfl, rfl⟩ := reported
      refine fields _ alive dir ?_
      rw [number]
      exact result.dot e.node _ (live _ aliveE) (by rw [numbered.node, type]) upS (number ▸ pos)
    case h_4 type =>
      rw [up] at reported
      simp only [Option.toList_some, List.flatMap_cons, List.flatMap_nil, List.append_nil] at reported
      obtain ⟨atRoot, atOther⟩ := result.dotdot e.node p (live _ aliveE) (by rw [numbered.node, type]) upS (number ▸ pos)
      split at reported
      · rename_i isRoot
        simp only [List.mem_cons, List.not_mem_nil, or_false, Prod.mk.injEq] at reported
        obtain ⟨rfl, rfl⟩ := reported
        refine fields _ alive dir ?_
        rw [number]
        exact atRoot (numbered.root ▸ isRoot)
      · rename_i notRoot
        cases above : (x.fs.node p).parent with
        | none =>
          rw [above] at reported
          cases reported
        | some g =>
          rw [above] at reported
          simp only [Option.toList_some, List.map_cons, List.map_nil, List.mem_cons, List.not_mem_nil, or_false,
            Prod.mk.injEq] at reported
          obtain ⟨rfl, rfl⟩ := reported
          obtain ⟨aliveG, dirG⟩ := fits.above p _ alive above
          refine fields _ aliveG dirG ?_
          rw [number]
          exact atOther _ (numbered.root ▸ notRoot) (by rw [numbered.node, above])
    case h_5 => cases reported
  · have sheds := step_sheds fits (fun v o l is => listing ⟨v, o, l, is⟩) run
    refine ⟨filed.shed fits sheds, sheds.grows, fun n small _ => sheds.fileno n small,
      fun n small => congrArg NodeType.isDir (sheds.type n small), fun n k reported => ?_⟩
    cases op with
    | getattr v =>
      unfold step at run
      split at run
      swap
      · cases run
      obtain ⟨r', done, same⟩ := Option.map_eq_some_iff.mp run
      cases same
      obtain ⟨m, data, done⟩ := Option.bind_eq_some_iff.mp done
      cases done
      unfold Op.reports at reported
      dsimp only at reported
      rw [data] at reported
      simp only [Option.toList_some, List.map_cons, List.map_nil, List.mem_cons, List.not_mem_nil, or_false,
        Prod.mk.injEq] at reported
      obtain ⟨rfl, rfl⟩ := reported
      obtain ⟨_, alive, dir⟩ := fits.opened v _ data
      have asks : (x.fs.vnode v).data.all (fun n => x.fs.fileno n ≠ 0) := asks
      rw [data] at asks
      exact ⟨alive.1, dir, rfl, of_decide_eq_true asks⟩
    | readdir v uioOffset resid => exact absurd ⟨v, uioOffset, resid, rfl⟩ listing
    | _ => cases reported

/-- Over a run the numbers that directories have stay theirs, and are what is reported. -/
theorem traceFrom_filed {reports : List (NodeId × Nat)} (fits : Fits x.fs x.held) (filed : Filed x.fs)
    (asks : asksNumbered K x ops) (ran : traceFrom K x ops = some (reports, x')) :
    Fits x'.fs x'.held ∧ Filed x'.fs ∧ x.fs.nnodes ≤ x'.fs.nnodes ∧
    (∀ n, n < x.fs.nnodes → x.fs.fileno n ≠ 0 → x'.fs.fileno n = x.fs.fileno n) ∧
    (∀ n, n < x.fs.nnodes → x'.fs.isDir n = x.fs.isDir n) ∧
    ∀ n k, (n, k) ∈ reports → n < x'.fs.nnodes ∧ x'.fs.isDir n ∧ k = x'.fs.fileno n ∧ k ≠ 0 := by
  induction ops generalizing x reports with
  | nil =>
    cases ran
    exact ⟨fits, filed, Nat.le_refl _, fun _ _ _ => rfl, fun _ _ => rfl, by simp⟩
  | cons op ops ih =>
    obtain ⟨⟨r, y⟩, first, ran⟩ := Option.bind_eq_some_iff.mp ran
    obtain ⟨⟨later, z⟩, rest, same⟩ := Option.map_eq_some_iff.mp ran
    cases same
    unfold asksNumbered at asks
    rw [first, Bool.and_eq_true] at asks
    obtain ⟨filed', grows, kept, dirs, reported⟩ := step_filed fits filed asks.1 first
    obtain ⟨fits', result, grows', kept', dirs', reported'⟩ := ih (step_fits fits first) filed' asks.2 rest
    refine ⟨fits', result, Nat.le_trans grows grows', fun n small numbered => ?_, fun n small => ?_, fun n k member => ?_⟩
    · have one := kept n small numbered
      rw [kept' n (Nat.lt_of_lt_of_le small grows) (one ▸ numbered), one]
    · rw [dirs' n (Nat.lt_of_lt_of_le small grows), dirs n small]
    · rcases List.mem_append.mp member with now | later
      · obtain ⟨small, dir, number, pos⟩ := reported n k now
        refine ⟨Nat.lt_of_lt_of_le small grows', by rw [dirs' n small, dir], ?_, pos⟩
        rw [number, kept' n small (number ▸ pos)]
      · exact reported' n k later

theorem sgfsInit_filed {s : Fs} (init : sgfsInit K = some s) : Filed s := by
  obtain ⟨s', init', zero, one, two, nnodes, vnode, nvnodes, root, freed, unr, numberRoot, numberOne, numberTwo,
    beyond⟩ := sgfsInit_eq K
  cases init.symm.trans init'
  have small (n : Nat) (there : s.alive n) : n = 0 ∨ n = 1 ∨ n = 2 := by
    have below := there.1
    rw [nnodes] at below
    omega
  -- only the root has a number
  have numbered (n : Nat) (there : s.alive n) (number : s.fileno n ≠ 0) : n = 0 := by
    rcases small n there with rfl | rfl | rfl
    · rfl
    · exact absurd numberOne number
    · exact absurd numberTwo number
  have up (n p : Nat) (parent : (s.node n).parent = some p) : p < n := by
    have which : n = 0 ∨ n = 1 ∨ n = 2 ∨ 3 ≤ n := by omega
    rcases which with rfl | rfl | rfl | large
    · rw [zero] at parent
      cases parent
    · rw [one] at parent
      cases parent
      exact Nat.one_pos
    · rw [two] at parent
      cases parent
      exact Nat.two_pos
    · rw [beyond n large] at parent
      cases parent
  refine ⟨up, fun n there _ number => ?_, fun n m there _ thereM _ number same => ?_, fun c p there type _ number => ?_,
    fun c p there type _ number => ?_, ?_, fun n p there parent number => ?_⟩
  · rw [numbered n there number, numberRoot, unr]
    exact List.mem_cons_self ..
  · rw [numbered n there number, numbered m thereM (same ▸ number)]
  · rw [numbered c there number, zero] at type
    cases type
  · rw [numbered c there number, zero] at type
    cases type
  · rw [root, numberRoot]
    exact Nat.pos_iff_ne_zero.mp (K.allocUnr_pos ..)
  · rw [numbered n there number, zero] at parent
    cases parent

/-- As long as attributes are only read of directories that have their number, what is reported for a directory is
always the same, and for two directories that are both alive different. -/
theorem file_numbers (K : VfsKernel) (s : Fs) (ops : List Op) (reports : List (NodeId × Nat)) (x : Sys)
    (init : sgfsInit K = some s) (asks : asksNumbered K ⟨s, []⟩ ops) (ran : traceFrom K ⟨s, []⟩ ops = some (reports, x)) :
    (∀ n k k', (n, k) ∈ reports → (n, k') ∈ reports → k = k') ∧
    (∀ n m k, (n, k) ∈ reports → (m, k) ∈ reports → x.fs.alive n → x.fs.alive m → n = m) ∧
    ∀ n k, (n, k) ∈ reports → k = x.fs.fileno n ∧ k ≠ 0 := by
  obtain ⟨_, filed, _, _, _, reported⟩ :=
    traceFrom_filed (x := ⟨s, []⟩) (sgfsInit_fits init) (sgfsInit_filed init) asks ran
  refine ⟨fun n k k' one two => ?_, fun n m k one two alive aliveM => ?_, fun n k one => (reported n k one).2.2⟩
  · rw [(reported n k one).2.2.1, (reported n k' two).2.2.1]
  · obtain ⟨_, dir, number, pos⟩ := reported n k one
    obtain ⟨_, dirM, numberM, _⟩ := reported m k two
    exact filed.apart n m alive dir aliveM dirM (number ▸ pos) (number.symm.trans numberM)

end run

/-- A directory is made, and the root listed before its attributes are read. -/
def listedFirst : List Op := [.root 0 true, .mkdir 0 "a" true, .readdir 0 0 1000, .getattr 1]

theorem file_numbers_listed_first :
    ∃ s reports x, sgfsInit plainVfs = some s ∧ traceFrom plainVfs ⟨s, []⟩ listedFirst = some (reports, x) ∧
      (3, 2) ∈ reports ∧ x.fs.fileno 3 = 2 := by
  have result : (sgfsInit plainVfs).bind (fun s => (traceFrom plainVfs ⟨s, []⟩ listedFirst).map fun (reports, _) =>
      (asksNumbered plainVfs ⟨s, []⟩ listedFirst, reports)) = some (true, [(3, 2), (0, 1), (0, 1), (3, 2)]) := by
    decide +kernel
  obtain ⟨s, init, result⟩ := Option.bind_eq_some_iff.mp result
  obtain ⟨⟨reports, x⟩, ran, values⟩ := Option.map_eq_some_iff.mp result
  simp only [Prod.mk.injEq] at values
  obtain ⟨asks, reported⟩ := values
  have inside : (3, 2) ∈ reports := by simp [reported]
  exact ⟨s, reports, x, init, ran, inside, ((file_numbers _ s _ reports x init asks ran).2.2 3 2 inside).1.symm⟩

/-- Read before and after the listing, the attributes of a directory show two file numbers. -/
theorem file_numbers_change :
    ¬ ∀ (K : VfsKernel) (s : Fs) (ops : List Op) (reports : List (NodeId × Nat)) (x : Sys), sgfsInit K = some s →
      traceFrom K ⟨s, []⟩ ops = some (reports, x) → ∀ n k k', (n, k) ∈ reports → (n, k') ∈ reports → k = k' := by
  intro claimed
  have result : (sgfsInit plainVfs).bind (fun s => (traceFrom plainVfs ⟨s, []⟩
      [.root 0 true, .mkdir 0 "a" true, .getattr 1, .readdir 0 0 1000]).map fun (reports, _) => reports) =
      some [(3, 0), (3, 2), (0, 1), (0, 1)] := by decide +kernel
  obtain ⟨s, init, result⟩ := Option.bind_eq_some_iff.mp result
  obtain ⟨⟨reports, x⟩, ran, reported⟩ := Option.map_eq_some_iff.mp result
  have same := claimed _ s _ reports x init ran 3 0 2 (by simp [reported]) (by simp [reported])
  cases same

end SfqSched.Sgfs
