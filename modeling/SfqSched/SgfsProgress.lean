import SfqSched.SgfsRefines
import SfqSched.SgfsRemoved

namespace SfqSched.Sgfs
open Function

/-- Whether a listing that skips `skip` bytes of entries and has a buffer of `resid` bytes
comes to the entry after the first `k`. -/
def comesTo (reclen skip resid k : Nat) : Prop :=
  k = 0 ∨ reclen ≤ resid ∧ k * reclen ≤ (skip + (reclen - 1)) / reclen * reclen + resid

/-- An operation on a removed directory that goes for the parent: a search for `..` that is not
refused, or a listing that comes to an entry `..` which has no number yet. -/
def Op.climbs (K : VfsKernel) (x : Sys) : Op → Prop
  | .lookup v cnp _ => ∃ n, (x.fs.vnode v).data = some n ∧ (x.fs.node n).deleted = true ∧
    cnp.name = ".." ∧ cnp.exec = true ∧ (cnp.isLast = true → cnp.nameiop = .lookup)
  | .readdir v uioOffset resid => ∃ n, (x.fs.vnode v).data = some n ∧ (x.fs.node n).deleted = true ∧
    (∃ c ∈ (x.fs.node n).children, (x.fs.node c).type = .parent ∧ x.fs.fileno c = 0) ∧
    comesTo K.reclen uioOffset resid ((x.fs.node n).children.length - 2)
  | _ => False

section listing
variable {reclen skip resid k : Nat}

/-- An entry that is copied takes its bytes of the buffer. -/
theorem comesTo_copy (pos : 0 < reclen) :
    comesTo reclen 0 resid (k + 1) ↔ reclen ≤ resid ∧ comesTo reclen 0 (resid - reclen) k := by
  have none : (0 + (reclen - 1)) / reclen = 0 := Nat.div_eq_of_lt (by omega)
  unfold comesTo
  rw [none, Nat.zero_mul, Nat.succ_mul]
  cases k with
  | zero => omega
  | succ k =>
    rw [Nat.succ_mul]
    omega

/-- An entry that is skipped only asks for a buffer that could hold it. -/
theorem comesTo_skip (pos : 0 < reclen) (more : 0 < skip) :
    comesTo reclen skip resid (k + 1) ↔ reclen ≤ resid ∧ comesTo reclen (skip - reclen) resid k := by
  have one : (skip + (reclen - 1)) / reclen = (skip - reclen + (reclen - 1)) / reclen + 1 := by
    by_cases whole : reclen ≤ skip
    · have split : skip + (reclen - 1) = skip - reclen + (reclen - 1) + reclen := by omega
      rw [split, Nat.add_div_right _ pos]
    · have split : skip + (reclen - 1) = skip - 1 + reclen := by omega
      have last : skip - reclen + (reclen - 1) = reclen - 1 := by omega
      rw [split, last, Nat.add_div_right _ pos, Nat.div_eq_of_lt (by omega), Nat.div_eq_of_lt (by omega)]
  unfold comesTo
  rw [one, Nat.succ_mul, Nat.succ_mul]
  cases k with
  | zero => omega
  | succ k => omega

variable {K : VfsKernel} {P : Fs → Prop} {s : Fs} {uioOffset offset : Nat}

theorem readdirWalk_total (uioOffset resid offset : Nat) {children : List NodeId}
    (good : ∀ a, P a → ∀ c ∈ children, ∃ b, numberEntry K a c = some b ∧ P b) (start : P s) :
    ∃ out, readdirWalk K s uioOffset resid offset children = some out := by
  induction children generalizing s uioOffset resid offset with
  | nil => exact ⟨_, rfl⟩
  | cons c rest ih =>
    obtain ⟨b, number, next⟩ := good s start c (List.mem_cons_self ..)
    have later := fun a at_a d member => good a at_a d (List.mem_cons_of_mem c member)
    rw [readdirWalk, number, Option.bind_some]
    split
    · exact ⟨_, rfl⟩
    · split
      · obtain ⟨out, walk⟩ := ih _ _ _ later next
        rw [walk]
        exact ⟨_, rfl⟩
      · exact ih _ _ _ later next

/-- The loop fails at an entry that cannot be numbered, if it comes to it. -/
theorem readdirWalk_stuck {before after : List NodeId} {c : NodeId}
    (good : ∀ a, P a → ∀ d ∈ before, ∃ b, numberEntry K a d = some b ∧ P b)
    (stuck : ∀ a, P a → numberEntry K a c = none) (start : P s) :
    readdirWalk K s uioOffset resid offset (before ++ c :: after) = none ↔
      comesTo K.reclen (uioOffset - offset) resid before.length := by
  induction before generalizing s uioOffset resid offset with
  | nil =>
    rw [List.nil_append, readdirWalk, stuck s start]
    exact iff_of_true rfl (.inl rfl)
  | cons d rest ih =>
    obtain ⟨b, number, next⟩ := good s start d (List.mem_cons_self ..)
    have later := fun a at_a e member => good a at_a e (List.mem_cons_of_mem d member)
    rw [List.cons_append, readdirWalk, number, Option.bind_some, List.length_cons]
    by_cases small : K.reclen > resid
    · rw [if_pos small]
      refine iff_of_false (Option.some_ne_none _) fun comes => ?_
      rcases comes with none | ⟨room, _⟩
      · exact Nat.succ_ne_zero _ none
      · omega
    rw [if_neg small]
    by_cases copy : offset ≥ uioOffset
    · have gone : uioOffset - offset = 0 := by omega
      have still : uioOffset + K.reclen - (offset + K.reclen) = 0 := by omega
      rw [if_pos copy, Option.map_eq_none_iff, ih later next, gone, still, comesTo_copy K.reclen_pos]
      exact (and_iff_right (by omega)).symm
    · have less : uioOffset - (offset + K.reclen) = uioOffset - offset - K.reclen := by omega
      rw [if_neg copy, ih later next, less, comesTo_skip K.reclen_pos (by omega)]
      exact (and_iff_right (by omega)).symm

end listing

/-- A directory is made in one that is there already. -/
def Fs.Older (s : Fs) : Prop := ∀ n p, s.alive n → s.isDir n → (s.node n).parent = some p → p < n

def Tree.Older (t : Tree) : Prop := ∀ n p, (t.dir n).parent = some p → p < n

namespace Tree.Older
variable {t t' : Tree} {d p : NodeId} {name : String}

theorem same (older : t.Older) (dir : t'.dir = t.dir) : t'.Older := by
  intro n p up
  rw [dir] at up
  exact older n p up

theorem make (older : t.Older) (below : d < t.next) : (t.make d name).Older := by
  intro n p up
  change (update (update t.dir t.next _) d _ n).parent = some p at up
  by_cases here : n = d
  · subst here
    rw [update_self] at up
    exact older n p up
  rw [update_of_ne here] at up
  by_cases new : n = t.next
  · subst new
    rw [update_self] at up
    cases up
    exact below
  · rw [update_of_ne new] at up
    exact older n p up

theorem unlink (older : t.Older) : (t.unlink d p).Older := by
  intro n q up
  change (update (update t.dir d _) p _ n).parent = some q at up
  by_cases above : n = p
  · subst above
    rw [update_self] at up
    exact older n q up
  rw [update_of_ne above] at up
  by_cases here : n = d
  · subst here
    rw [update_self] at up
    cases up
  · rw [update_of_ne here] at up
    exact older n q up

theorem visit_dir (t : Tree) (mp : MountId) (d : NodeId) (avail : Bool) : (t.visit mp d avail).2.dir = t.dir := by
  unfold Tree.visit
  split
  · rfl
  · split <;> rfl

theorem lookup_dir {vp : VnodeId} {mp : MountId} {cnp : Componentname} {avail : Bool} {a : Answer}
    (run : t.lookup vp mp d cnp avail = some (a, t')) : t'.dir = t.dir := by
  unfold Tree.lookup at run
  have visited (n : NodeId) (run : some (Answer.ofExcept (t.visit mp n avail).1, (t.visit mp n avail).2) = some (a, t')) :
      t'.dir = t.dir := by
    cases run
    exact visit_dir t mp n avail
  split at run
  · cases run
    rfl
  split at run
  · cases run
    rfl
  split at run
  · split at run <;> cases run <;> rfl
  split at run
  · split at run
    · cases run
      rfl
    split at run
    · cases run
      rfl
    obtain ⟨n, _, run⟩ := Option.map_eq_some_iff.mp run
    exact visited n (congrArg some run)
  split at run
  · split at run
    · cases run
      rfl
    · exact visited _ run
  · split at run
    · split at run <;> cases run <;> rfl
    · cases run
      rfl

theorem step {reclen : Nat} {op : Op} {a : Answer} (older : t.Older)
    (below : ∀ v place, t.opened v = some place → place.2 < t.next) (run : t.step reclen op = some (a, t')) : t'.Older := by
  cases op with
  | mkdir v name avail =>
    obtain ⟨place, there, done⟩ := Option.map_eq_some_iff.mp run
    cases done
    exact (older.make (below v place there)).same (visit_dir ..)
  | rmdir v =>
    obtain ⟨place, there, done⟩ := Option.bind_eq_some_iff.mp run
    unfold Tree.rmdir at done
    split at done
    · cases done
      exact older
    split at done
    · cases done
      exact older
    split at done
    · cases done
      exact older
    obtain ⟨p, _, done⟩ := Option.map_eq_some_iff.mp done
    cases done
    exact older.unlink
  | lookup v cnp avail =>
    obtain ⟨place, there, done⟩ := Option.bind_eq_some_iff.mp run
    exact older.same (lookup_dir done)
  | root mp avail | allocv mp n avail =>
    cases run
    exact older.same (visit_dir ..)
  | getattr v | readdir v uioOffset resid | reclaim v =>
    obtain ⟨place, there, done⟩ := Option.map_eq_some_iff.mp run
    cases done
    exact older
  | create v name =>
    obtain ⟨place, there, done⟩ := Option.map_eq_some_iff.mp run
    cases done
    exact (older.make (below v place there)).same rfl
  | search v name =>
    obtain ⟨place, there, done⟩ := Option.map_eq_some_iff.mp run
    split at done <;> cases done <;> exact older
  | release n =>
    cases run
    exact older

end Tree.Older

section numbers
variable {K : VfsKernel} {s s' : Fs} {held : List NodeId} {n m c : Nat}

theorem filenoOwn_dir (dir : s.isDir n) : ∃ s', filenoOwn K s n = some s' := by
  unfold filenoOwn
  cases type : (s.node n).type with
  | root | dir => exact ⟨_, rfl⟩
  | none | this | parent | file | symlink => simp [Fs.isDir, type, NodeType.isDir] at dir

theorem filenoOwn_other (other : m ≠ n) (run : filenoOwn K s n = some s') : s'.fileno m = s.fileno m := by
  unfold filenoOwn at run
  split at run
  case h_6 =>
    split at run
    · cases run
      exact update_of_ne other ..
    · split at run
      · cases run
        exact update_of_ne other ..
      · cases run
  case h_7 | h_8 | h_9 => cases run
  all_goals
    cases run
    exact update_of_ne other ..

/-- A directory gets its number after those above it, which are older. -/
theorem filenoAlloc_dir {fuel : Nat} (fits : Fits s held) (older : s.Older) (alive : s.alive n) (dir : s.isDir n)
    (enough : n < fuel) : ∃ s', filenoAlloc K fuel s n = some s' := by
  induction fuel generalizing n with
  | zero => exact absurd enough (Nat.not_lt_zero n)
  | succ fuel ih =>
    unfold filenoAlloc
    split
    · rename_i p parent
      split
      · obtain ⟨aliveP, dirP⟩ := fits.above n p alive parent
        have below := older n p alive dir parent
        obtain ⟨a, above⟩ := ih aliveP dirP (Nat.lt_of_lt_of_le below (Nat.le_of_lt_succ enough))
        rw [above, Option.bind_some]
        exact filenoOwn_dir (by rw [Fs.isDir, (Numbered.filenoAlloc above).node]; exact dir)
      · exact filenoOwn_dir dir
    · exact filenoOwn_dir dir

/-- An entry `.` or `..` only gets a number of its own. -/
theorem filenoAlloc_leaf {fuel : Nat} (fits : Fits s held) (alive : s.alive n) (leaf : s.isDir m = false) (other : m ≠ n)
    (run : filenoAlloc K fuel s n = some s') : s'.fileno m = s.fileno m := by
  induction fuel generalizing s' n with
  | zero => cases run
  | succ fuel ih =>
    unfold filenoAlloc at run
    split at run
    · rename_i p parent
      split at run
      · obtain ⟨aliveP, dirP⟩ := fits.above n p alive parent
        obtain ⟨a, above, own⟩ := Option.bind_eq_some_iff.mp run
        have apart : m ≠ p := by
          rintro rfl
          cases leaf.symm.trans dirP
        rw [filenoOwn_other other own, ih aliveP apart above]
      · exact filenoOwn_other other run
    · exact filenoOwn_other other run

/-- An entry of a directory gets its number, unless it is the `..` of a removed one. -/
theorem numberEntry_total (fits : Fits s held) (older : s.Older) (alive : s.alive n) (dir : s.isDir n)
    (member : c ∈ (s.node n).children)
    (way : (s.node c).type = .parent → s.fileno c = 0 → (s.node n).deleted = false) :
    ∃ s', numberEntry K s c = some s' := by
  obtain ⟨aliveC, parent⟩ := (fits.linked n c alive).mp member
  unfold numberEntry
  split
  · rename_i unnumbered
    cases leaf : s.isDir c with
    | true => exact filenoAlloc_dir fits older aliveC leaf (Nat.lt_succ_of_lt aliveC.1)
    | false =>
      have own (a : Fs) (same : Numbered s a) : ∃ b, filenoOwn K a c = some b := by
        have other : c ≠ s.root := by
          rintro rfl
          simp [Fs.isDir, fits.root.2.1, NodeType.isDir] at leaf
        unfold filenoOwn
        rw [same.node, same.root, parent]
        rcases fits.kind c aliveC other with type | type | type
        · simp [Fs.isDir, type, NodeType.isDir] at leaf
        · rw [type]
          exact ⟨_, rfl⟩
        · rw [type]
          dsimp only
          split
          · exact ⟨_, rfl⟩
          · rename_i notRoot
            have isDir : (s.node n).type = .dir := by
              rcases fits.kind n alive notRoot with is | is | is
              · exact is
              all_goals simp [Fs.isDir, is, NodeType.isDir] at dir
            cases above : (s.node n).parent with
            | some g => exact ⟨_, rfl⟩
            | none => cases (way type unnumbered).symm.trans ((fits.removed n alive isDir).mpr above)
      rw [filenoAlloc, parent]
      dsimp only
      split
      · obtain ⟨a, above⟩ := filenoAlloc_dir (K := K) fits older alive dir alive.1
        rw [above]
        exact own a (.filenoAlloc above)
      · exact own s (.refl s)
  · exact ⟨s, rfl⟩

/-- The same after other entries got theirs; the `..` keeps what it has. -/
theorem numberEntry_later {a : Fs} {up : Nat} (fits : Fits s held) (older : s.Older) (alive : s.alive n) (dir : s.isDir n)
    (same : Numbered s a) (member : c ∈ (s.node n).children) (leaf : s.isDir up = false)
    (way : (s.node c).type = .parent → a.fileno c = 0 → (s.node n).deleted = false) :
    ∃ b, numberEntry K a c = some b ∧ Numbered s b ∧ (up ≠ c → b.fileno up = a.fileno up) := by
  have aliveA (m : Nat) : a.alive m ↔ s.alive m := by rw [Fs.alive, Fs.alive, same.nnodes, same.freed]
  have dirA (m : Nat) : a.isDir m = s.isDir m := by rw [Fs.isDir, Fs.isDir, same.node]
  have olderA : a.Older := by
    intro m p there isDir parent
    rw [same.node] at parent
    exact older m p ((aliveA m).mp there) ((dirA m).symm.trans isDir) parent
  have aliveC := ((fits.linked n c alive).mp member).1
  rw [← same.node] at member way
  obtain ⟨b, number⟩ :=
    numberEntry_total (K := K) (same.fits fits) olderA ((aliveA n).mpr alive) ((dirA n).trans dir) member way
  refine ⟨b, number, same.trans (.numberEntry number), fun other => ?_⟩
  unfold numberEntry at number
  split at number
  · exact filenoAlloc_leaf (same.fits fits) ((aliveA c).mpr aliveC) ((dirA up).trans leaf) other number
  · cases number
    rfl

/-- A listing fails when it comes to the entry `..` of a removed directory, and that has no number. -/
theorem readdirWalk_none {uioOffset resid : Nat} (fits : Fits s held) (older : s.Older) (alive : s.alive n) (dir : s.isDir n) :
    readdirWalk K s uioOffset resid 0 (s.node n).children = none ↔ (s.node n).deleted = true ∧
      (∃ c ∈ (s.node n).children, (s.node c).type = .parent ∧ s.fileno c = 0) ∧
      comesTo K.reclen uioOffset resid ((s.node n).children.length - 2) := by
  obtain ⟨dirs, up, dot, children, typeDirs, typeUp, typeDot⟩ := fits.shape n alive dir
  have parentUp := ((fits.linked n up alive).mp (by simp [children])).2
  have leaf : s.isDir up = false := by simp [Fs.isDir, typeUp, NodeType.isDir]
  have only (c : Nat) (member : c ∈ (s.node n).children) (type : (s.node c).type = .parent) : c = up := by
    rw [children] at member
    rcases List.mem_append.mp member with inDirs | rest
    · cases type.symm.trans (typeDirs c inDirs)
    · rcases List.mem_cons.mp rest with is | rest
      · exact is
      · cases List.mem_singleton.mp rest
        cases type.symm.trans typeDot
  by_cases lost : (s.node n).deleted = true ∧ s.fileno up = 0
  · obtain ⟨deleted, unnumbered⟩ := lost
    have notRoot : n ≠ s.root := by
      rintro rfl
      cases deleted.symm.trans fits.root.2.2.1
    have loose := (fits.loose alive dir deleted).2
    have good (a : Fs) (at_a : Numbered s a ∧ a.fileno up = 0) (c : Nat) (inDirs : c ∈ dirs) :
        ∃ b, numberEntry K a c = some b ∧ Numbered s b ∧ b.fileno up = 0 := by
      have type := typeDirs c inDirs
      have other : up ≠ c := by
        rintro rfl
        cases typeUp.symm.trans type
      have member : c ∈ (s.node n).children := by simp [children, inDirs]
      obtain ⟨b, number, next, still⟩ := numberEntry_later (K := K) fits older alive dir at_a.1 member leaf fun is => by
        cases type.symm.trans is
      exact ⟨b, number, next, (still other).trans at_a.2⟩
    have stuck (a : Fs) (at_a : Numbered s a ∧ a.fileno up = 0) : numberEntry K a up = none := by
      obtain ⟨same, none⟩ := at_a
      rw [← same.node] at typeUp parentUp loose
      exact numberEntry_up typeUp parentUp (by rw [same.root]; exact notRoot) loose none
    have length : (dirs ++ [up, dot]).length - 2 = dirs.length := by simp
    rw [children, length, readdirWalk_stuck good stuck ⟨.refl s, unnumbered⟩, Nat.sub_zero]
    exact ⟨fun comes => ⟨deleted, ⟨up, by simp, typeUp, unnumbered⟩, comes⟩, fun goes => goes.2.2⟩
  · have way : (s.node n).deleted = false ∨ s.fileno up ≠ 0 := by
      by_cases deleted : (s.node n).deleted = true
      · exact .inr fun unnumbered => lost ⟨deleted, unnumbered⟩
      · exact .inl (by simpa using deleted)
    have good (a : Fs) (at_a : Numbered s a ∧ ((s.node n).deleted = false ∨ a.fileno up ≠ 0)) (c : Nat)
        (member : c ∈ (s.node n).children) :
        ∃ b, numberEntry K a c = some b ∧ Numbered s b ∧ ((s.node n).deleted = false ∨ b.fileno up ≠ 0) := by
      obtain ⟨same, way⟩ := at_a
      have wayC (type : (s.node c).type = .parent) (unnumbered : a.fileno c = 0) : (s.node n).deleted = false := by
        obtain rfl := only c member type
        exact way.resolve_right fun numbered => numbered unnumbered
      obtain ⟨b, number, next, still⟩ := numberEntry_later (K := K) fits older alive dir same member leaf wayC
      refine ⟨b, number, next, way.imp_right fun numbered => ?_⟩
      by_cases here : up = c
      · subst here
        rw [numberEntry, if_neg numbered] at number
        cases number
        exact numbered
      · rw [still here]
        exact numbered
    obtain ⟨out, walk⟩ := readdirWalk_total uioOffset resid 0 good ⟨.refl s, way⟩
    rw [walk]
    refine iff_of_false (Option.some_ne_none _) ?_
    rintro ⟨deleted, ⟨c, member, type, unnumbered⟩, _⟩
    obtain rfl := only c member type
    exact lost ⟨deleted, unnumbered⟩

end numbers

section progress
variable {K : VfsKernel} {x x' : Sys} {t : Tree} {op : Op} {r : Reply}

theorem step_older (fits : Fits x.fs x.held) (shows : Shows x t) (older : t.Older) (run : step K x op = some (r, x')) :
    ∃ t', Shows x' t' ∧ t'.Older := by
  have answered : answerStep K x op = some (r.answer, x') := by
    rw [answerStep, run]
    rfl
  obtain ⟨t', done, after⟩ := step_shows fits shows answered
  refine ⟨t', after, older.step (fun v place there => ?_) done⟩
  have alive := (fits.opened v place.2 (shows.opened.data there).1).2.1
  rw [← shows.planted.next]
  exact alive.1

theorem runFrom_older {ops : List Op} (fits : Fits x.fs x.held) (shows : Shows x t) (older : t.Older)
    (ran : runFrom K x ops = some x') : ∃ t', Shows x' t' ∧ t'.Older := by
  induction ops generalizing x t with
  | nil =>
    cases ran
    exact ⟨t, shows, older⟩
  | cons op ops ih =>
    obtain ⟨a, first, rest⟩ := Option.bind_eq_some_iff.mp ran
    obtain ⟨⟨r, b⟩, done, same⟩ := Option.map_eq_some_iff.mp first
    cases same
    obtain ⟨t', shows', older'⟩ := step_older fits shows older done
    exact ih (step_fits fits done) shows' older' rest

theorem run_older {ops : List Op} (ran : run K ops = some x) : ∃ t, Shows x t ∧ t.Older := by
  obtain ⟨s, init, rest⟩ := Option.bind_eq_some_iff.mp ran
  refine runFrom_older (x := ⟨s, []⟩) (sgfsInit_fits init) (sgfsInit_shows init) (fun n p up => ?_) rest
  by_cases root : n = 0 <;> simp [root] at up

theorem Shows.older (shows : Shows x t) (older : t.Older) : x.fs.Older := fun n p alive dir parent =>
  older n p ((shows.planted.dir n alive dir).2.2.1.symm.trans parent)

/-- A search fails when it goes for the parent of a removed directory. -/
theorem sgfsLookupx_none {v : VnodeId} {n : NodeId} {cnp : Componentname} {avail : Bool} (fits : Fits x.fs x.held)
    (shows : Shows x t) (data : (x.fs.vnode v).data = some n) :
    sgfsLookupx x.fs v cnp avail = none ↔ (x.fs.node n).deleted = true ∧ cnp.name = ".." ∧ cnp.exec = true ∧
      (cnp.isLast = true → cnp.nameiop = .lookup) := by
  obtain ⟨_, alive, dir⟩ := fits.opened v n data
  have flag := shows.opened.flag v n data
  have root := shows.planted.root
  unfold sgfsLookupx
  rw [data]
  simp only [Option.bind_eq_bind, Option.bind_some]
  by_cases exec : cnp.exec = true
  swap
  · rw [if_pos (by simpa using exec)]
    exact iff_of_false (Option.some_ne_none _) fun goes => exec goes.2.2.1
  rw [if_neg (by simp [exec])]
  by_cases up : cnp.name = ".."
  swap
  · refine iff_of_false ?_ fun goes => up goes.2.1
    repeat' split
    all_goals exact Option.some_ne_none _
  rw [if_neg (by rw [up]; decide), if_neg (by rw [up]; decide), if_pos up, flag]
  by_cases top : n = 0
  · rw [if_pos (by simpa using top)]
    have live : (x.fs.node n).deleted = false := by
      rw [top, ← root]
      exact fits.root.2.2.1
    refine iff_of_false (Option.some_ne_none _) fun goes => ?_
    cases live.symm.trans goes.1
  rw [if_neg (by simpa using top)]
  by_cases refused : cnp.isLast = true ∧ cnp.nameiop ≠ .lookup
  · rw [if_pos refused]
    exact iff_of_false (Option.some_ne_none _) fun goes => refused.2 (goes.2.2.2 refused.1)
  rw [if_neg refused]
  have plain (last : cnp.isLast = true) : cnp.nameiop = .lookup := by
    by_contra other
    exact refused ⟨last, other⟩
  have type : (x.fs.node n).type = .dir := by
    rcases fits.kind n alive (by rw [root]; exact top) with is | is | is
    · exact is
    all_goals simp [Fs.isDir, is, NodeType.isDir] at dir
  rw [fits.removed n alive type]
  cases (x.fs.node n).parent with
  | none => exact iff_of_true rfl ⟨rfl, up, exec, plain⟩
  | some p => exact iff_of_false (Option.some_ne_none _) fun goes => Option.some_ne_none p goes.1

/-- A removal finds the two entries and the parent that it works on. -/
theorem sgfsRmdir_some {v : VnodeId} {n : NodeId} (fits : Fits x.fs x.held) (data : (x.fs.vnode v).data = some n) :
    sgfsRmdir x.fs v ≠ none := by
  obtain ⟨_, alive, dir⟩ := fits.opened v n data
  obtain ⟨dirs, up, dot, children, _⟩ := fits.shape n alive dir
  obtain ⟨first, second, rest, split⟩ : ∃ first second rest, dirs ++ [up, dot] = first :: second :: rest := by
    match dirs with
    | [] => exact ⟨up, dot, [], rfl⟩
    | [c] => exact ⟨c, up, [dot], rfl⟩
    | c :: d :: dirs => exact ⟨c, d, dirs ++ [up, dot], rfl⟩
  unfold sgfsRmdir
  rw [data]
  simp only [Option.bind_eq_bind, Option.bind_some]
  by_cases type : (x.fs.node n).type = .dir
  swap
  · rw [if_pos type]
    exact Option.some_ne_none _
  rw [if_neg (not_not.mpr type)]
  by_cases deleted : (x.fs.node n).deleted = true
  · rw [if_pos deleted]
    exact Option.some_ne_none _
  rw [if_neg deleted, children, split]
  cases parent : (x.fs.node n).parent with
  | none => exact absurd ((fits.removed n alive type).mpr parent) deleted
  | some p => cases rest <;> exact Option.some_ne_none _

theorem step_none (fits : Fits x.fs x.held) (shows : Shows x t) (older : t.Older) (enabled : op.enabled x) :
    step K x op = none ↔ op.climbs K x := by
  rw [step, if_pos enabled]
  cases op with
  | lookup v cnp avail =>
    obtain ⟨n, data⟩ := Option.isSome_iff_exists.mp enabled
    rw [Op.exec, Option.map_eq_none_iff, sgfsLookupx_none fits shows data]
    simp only [Op.climbs, data, Option.some.injEq, exists_eq_left']
  | readdir v uioOffset resid =>
    obtain ⟨n, data⟩ := Option.isSome_iff_exists.mp enabled
    obtain ⟨_, alive, dir⟩ := fits.opened v n data
    have fails : sgfsReaddir K x.fs v uioOffset resid = none ↔
        readdirWalk K x.fs uioOffset resid 0 (x.fs.node n).children = none := by
      unfold sgfsReaddir
      rw [data]
      simp only [Option.bind_eq_bind, Option.bind_some]
      cases readdirWalk K x.fs uioOffset resid 0 (x.fs.node n).children with
      | none => exact iff_of_true rfl rfl
      | some out => exact iff_of_false (Option.some_ne_none _) (Option.some_ne_none _)
    rw [Op.exec, Option.map_eq_none_iff, fails, readdirWalk_none fits (shows.older older) alive dir]
    simp only [Op.climbs, data, Option.some.injEq, exists_eq_left']
  | mkdir v name avail =>
    obtain ⟨n, data⟩ := Option.isSome_iff_exists.mp enabled
    obtain ⟨_, alive, dir⟩ := fits.opened v n data
    refine iff_of_false ?_ not_false
    rw [Op.exec, sgfsMkdir, data]
    simp [dir]
  | rmdir v =>
    obtain ⟨n, data⟩ := Option.isSome_iff_exists.mp enabled
    exact iff_of_false (fun fails => sgfsRmdir_some fits data (Option.map_eq_none_iff.mp fails)) not_false
  | getattr v | reclaim v | create v name =>
    obtain ⟨n, data⟩ := Option.isSome_iff_exists.mp enabled
    refine iff_of_false ?_ not_false
    simp [Op.exec, sgfsGetattr, sgfsReclaim, data]
  | search v name =>
    simp only [Op.enabled, Bool.and_eq_true] at enabled
    obtain ⟨n, data⟩ := Option.isSome_iff_exists.mp enabled.1.1
    refine iff_of_false ?_ not_false
    simp [Op.exec, data]
  | root mp avail | allocv mp n avail | release n => exact iff_of_false (Option.some_ne_none _) not_false

/-- The file system starts, and whatever was called since, a call follows no `NULL` and fails
no assertion unless it goes for the parent of a removed directory. The assertions on types are those of `nodes_typed`. -/
theorem sgfs_progress (K : VfsKernel) : (∃ s, sgfsInit K = some s) ∧ ∀ ops x, run K ops = some x →
    ∀ op, op.enabled x → (step K x op = none ↔ op.climbs K x) := by
  obtain ⟨s, init, _⟩ := sgfsInit_eq K
  refine ⟨⟨s, init⟩, fun ops x ran op enabled => ?_⟩
  obtain ⟨t, shows, older⟩ := run_older ran
  exact step_none (run_fits ran) shows older enabled

/-- What the assertions and panics on a node's `type` ask for, which the model leaves out: a node is a directory or an
entry `.` or `..`, nodes are made and destroyed in directories, and only directories have vnodes and are in use. -/
theorem nodes_typed {K : VfsKernel} {ops : List Op} {x : Sys} (ran : run K ops = some x) :
    (∀ n, x.fs.alive n → x.fs.isDir n ∨ (x.fs.node n).type = .this ∨ (x.fs.node n).type = .parent) ∧
      (∀ c p, x.fs.alive c → (x.fs.node c).parent = some p → x.fs.isDir p) ∧
      (∀ v n, (x.fs.vnode v).data = some n → x.fs.isDir n) ∧ ∀ n ∈ x.held, x.fs.isDir n := by
  have fits := run_fits ran
  refine ⟨fun n alive => ?_, fun c p alive up => (fits.above c p alive up).2, fun v n data => (fits.opened v n data).2.2,
    fun n held => (fits.holds n held).2⟩
  by_cases isRoot : n = x.fs.root
  · exact .inl (by simp [Fs.isDir, isRoot, fits.root.2.1, NodeType.isDir])
  · rcases fits.kind n alive isRoot with dir | entry | entry
    · exact .inl (by simp [Fs.isDir, dir, NodeType.isDir])
    · exact .inr (.inl entry)
    · exact .inr (.inr entry)

/-- A directory is removed while its vnode is open, before anything was listed. -/
def removedAndOpen : List Op := [.root 0 true, .mkdir 0 "a" true, .rmdir 1]

theorem sgfs_progress_removed :
    ∃ x, run plainVfs removedAndOpen = some x ∧ step plainVfs x (.readdir 1 0 1000) = none ∧
      step plainVfs x (.readdir 0 0 1000) ≠ none := by
  have result : (run plainVfs removedAndOpen).map (fun x =>
      (((x.fs.vnode 1).data, (x.fs.node 3).deleted, (x.fs.node 3).children), ((x.fs.node 5).type, x.fs.fileno 5),
        (x.fs.vnode 0).data, (x.fs.node 0).deleted)) =
      some ((some 3, true, [5, 4]), (.parent, 0), some 0, false) := by decide +kernel
  obtain ⟨x, ran, values⟩ := Option.map_eq_some_iff.mp result
  simp only [Prod.mk.injEq] at values
  obtain ⟨⟨removed, deleted, children⟩, ⟨type, number⟩, top, live⟩ := values
  have ends := (sgfs_progress plainVfs).2 removedAndOpen x ran
  refine ⟨x, ran, (ends (.readdir 1 0 1000) (by simp [Op.enabled, removed])).mpr ?_, fun fails => ?_⟩
  · refine ⟨3, removed, deleted, ⟨5, by simp [children], type, number⟩, .inl ?_⟩
    rw [children]
    rfl
  · obtain ⟨n, data, deleted, _⟩ := (ends (.readdir 0 0 1000) (by simp [Op.enabled, top])).mp fails
    cases top.symm.trans data
    cases live.symm.trans deleted

end progress

end SfqSched.Sgfs
