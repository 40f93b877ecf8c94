import SfqSched.SgfsRemoved
import Mathlib.Data.List.Nodup

namespace SfqSched.Sgfs
open Function

/-- Whether the operation makes a directory in `d`. -/
def Op.createsIn (x : Sys) (d : NodeId) : Op → Prop
  | .mkdir v _ _ | .create v _ => (x.fs.vnode v).data = some d
  | _ => False

/-- Whether the operation may remove one of the first `passed` entries of `d`. -/
def Op.removesFrom (x : Sys) (d : NodeId) (passed : Nat) : Op → Prop
  | .rmdir v => ∃ e ∈ (x.fs.node d).children.take passed, (x.fs.vnode v).data = some e
  | _ => False

/-- A scan of the directory `d` through its vnode `v`, while the entry `c` exists: calls of `sgfs_readdir`
that each continue from the offset of the one before, and operations in between, with the offset
and the entries returned so far. `noCreate` asks that nothing is created in `d` once the offset is positive,
`noRemove` that no entry is removed that the scan has passed. -/
inductive Scan (K : VfsKernel) (v d c : Nat) (noCreate noRemove : Prop) : Sys → Nat → List NodeId → Prop
  | start {ops x} : run K ops = some x → (x.fs.vnode v).data = some d → c ∈ (x.fs.node d).children →
      Scan K v d c noCreate noRemove x 0 []
  | call {x x' offset offset' resid seen es} : Scan K v d c noCreate noRemove x offset seen → K.reclen ≤ resid →
      step K x (.readdir v offset resid) = some (.entries es offset', x') →
      Scan K v d c noCreate noRemove x' offset' (seen ++ es.map Dirent.node)
  | change {x x' offset seen op r} : Scan K v d c noCreate noRemove x offset seen → op ≠ .reclaim v →
      step K x op = some (r, x') → c ∈ (x'.fs.node d).children →
      (noCreate → 0 < offset → ¬op.createsIn x d) → (noRemove → ¬op.removesFrom x d (offset / K.reclen)) →
      Scan K v d c noCreate noRemove x' offset seen

section entries
variable {K : VfsKernel} {s s' : Fs} {held : List NodeId} {x x' : Sys} {v d n p : Nat} {op : Op} {r : Reply}

theorem Fits.release_open (fits : Fits s (n :: held)) (data : (s.vnode v).data = some d) :
    ((release s n).node d).children = (s.node d).children ∧ (release s n).vnode = s.vnode := by
  refine ⟨?_, fits.release_vnode⟩
  by_cases same : d = n
  · subst same
    obtain ⟨_, alive, _⟩ := fits.opened v d data
    rw [fits.release_kept (.inr (List.ne_nil_of_mem ((fits.vnodes d v alive).mpr data)))]
  · rw [fits.release_other same]

/-- The new entry of `sgfs_mkdir` is the first one of its directory. -/
theorem mkdirEntry_children (alive : s.alive p) (aliveD : s.alive d) (name : String) :
    ((mkdirEntry s p name).2.node d).children = if d = p then s.nnodes :: (s.node d).children else (s.node d).children := by
  have other : d ≠ s.nnodes := Nat.ne_of_lt aliveD.1
  have node := createDir_node name alive.1 d
  rw [if_neg other, if_neg (Nat.ne_of_lt (Nat.lt_succ_of_lt aliveD.1)),
    if_neg (Nat.ne_of_lt (Nat.lt_succ_of_lt (Nat.lt_succ_of_lt aliveD.1)))] at node
  have kept : (mkdirEntry s p name).2.node d = (createDir s p name).2.node d := update_of_ne other ..
  rw [kept, node]
  split
  · rename_i same
    rw [same]
  · rfl

theorem sgfsLookupx_open {cnp : Componentname} {avail : Bool} {v' : Nat} (fits : Fits s held)
    (data : (s.vnode v).data = some d) (run : sgfsLookupx s v' cnp avail = some (r, s')) :
    s'.vnode v = s.vnode v ∧ (s'.node d).children = (s.node d).children := by
  obtain ⟨p, data', done⟩ := Option.bind_eq_some_iff.mp run
  obtain ⟨_, alive, dir⟩ := fits.opened v' p data'
  split at done
  · cases done
    exact ⟨rfl, rfl⟩
  split at done
  · cases done
    exact ⟨rfl, rfl⟩
  split at done
  · split at done
    all_goals
      cases done
      exact ⟨rfl, rfl⟩
  rename_i dot
  split at done
  · split at done
    · cases done
      exact ⟨rfl, rfl⟩
    split at done
    · cases done
      exact ⟨rfl, rfl⟩
    obtain ⟨above, parent, done⟩ := Option.bind_eq_some_iff.mp done
    have same : (allocv s (s.vnode v').mount above avail).2 = s' := congrArg Prod.snd (Option.some.inj done)
    rw [← same]
    exact ⟨allocv_vnode fits _ above avail data, (allocv_keeps ..).1⟩
  rename_i dotdot
  unfold lookupEntry at done
  cases found : search s p cnp.name with
  | none =>
    rw [found] at done
    dsimp only at done
    repeat' split at done
    all_goals
      cases done
      exact ⟨rfl, rfl⟩
  | some n =>
    obtain ⟨aliveN, dirN, _⟩ := search_fits fits alive dot dotdot found
    have holds := fits.hold aliveN dirN
    have there := holds.holds n (List.mem_cons_self ..)
    have kept : ((addref s n).node d).children = (s.node d).children := by rw [Fits.addref_eq]
    rw [found] at done
    dsimp only at done
    split at done
    · have same : release (addref s n) n = s' := congrArg Prod.snd (Option.some.inj done)
      have released := holds.release_open (v := v) (d := d) data
      rw [← same, released.1, released.2, kept]
      exact ⟨rfl, rfl⟩
    · have same : release (allocv (addref s n) ((addref s n).vnode v').mount n avail).2 n = s' :=
        congrArg Prod.snd (Option.some.inj done)
      have opened := allocv_fits holds there.1 there.2 ((addref s n).vnode v').mount avail
      have vnode := allocv_vnode holds ((addref s n).vnode v').mount n avail (v := v) (n := d) data
      have released := opened.release_open (v := v) (d := d) (by rw [vnode]; exact data)
      rw [← same, released.1, released.2, vnode, (allocv_keeps ..).1, kept]
      exact ⟨rfl, rfl⟩

/-- What an operation does to the entries of an open directory. -/
theorem step_children (fits : Fits x.fs x.held) (data : (x.fs.vnode v).data = some d) (open_ : op ≠ .reclaim v)
    (run : step K x op = some (r, x')) :
    (x'.fs.vnode v).data = some d ∧
    ((x'.fs.node d).children = (x.fs.node d).children ∨
      (op.createsIn x d ∧ (x'.fs.node d).children = x.fs.nnodes :: (x.fs.node d).children) ∨
      ∃ v' e, op = .rmdir v' ∧ (x.fs.vnode v').data = some e ∧ e ∈ (x.fs.node d).children ∧
        (x'.fs.node d).children = (x.fs.node d).children.erase e) := by
  obtain ⟨_, aliveD, _⟩ := fits.opened v d data
  unfold step at run
  split at run
  swap
  · cases run
  rename_i enabled
  cases op with
  | mkdir v' name avail =>
    obtain ⟨⟨r', s⟩, done, same⟩ := Option.map_eq_some_iff.mp run
    cases same
    obtain ⟨p, data', done⟩ := Option.bind_eq_some_iff.mp done
    obtain ⟨_, alive, dir⟩ := fits.opened v' p data'
    rw [dir] at done
    have same : release (allocv (mkdirEntry x.fs p name).2 ((mkdirEntry x.fs p name).2.vnode v').mount
        (mkdirEntry x.fs p name).1 avail).2 (mkdirEntry x.fs p name).1 = s := congrArg Prod.snd (Option.some.inj done)
    obtain ⟨made, there, isDir⟩ := mkdirEntry_fits fits alive dir name
    have later := allocv_fits made there isDir ((mkdirEntry x.fs p name).2.vnode v').mount avail
    have vnode := allocv_vnode made ((mkdirEntry x.fs p name).2.vnode v').mount (mkdirEntry x.fs p name).1 avail
      (v := v) (n := d) data
    have children := mkdirEntry_children alive aliveD name
    have released := later.release_open (v := v) (d := d) (by rw [vnode]; exact data)
    dsimp only
    rw [← same, released.2, vnode, released.1, (allocv_keeps ..).1, children]
    refine ⟨data, ?_⟩
    split
    · rename_i same
      exact .inr (.inl ⟨by rw [same]; exact data', rfl⟩)
    · exact .inl rfl
  | rmdir v' =>
    obtain ⟨⟨r', s⟩, done, same⟩ := Option.map_eq_some_iff.mp run
    cases same
    obtain ⟨n, data', done⟩ := Option.bind_eq_some_iff.mp done
    obtain ⟨_, alive, dir⟩ := fits.opened v' n data'
    split at done
    · cases done
      exact ⟨data, .inl rfl⟩
    split at done
    · cases done
      exact ⟨data, .inl rfl⟩
    rename_i isDir _
    split at done
    · rename_i first second children
      obtain ⟨p, parent, done⟩ := Option.bind_eq_some_iff.mp done
      have unlinked := fits.unlink alive (not_not.mp isDir) parent (by rw [children]; rfl)
      have apart := fits.not_own_parent alive (not_not.mp isDir) parent (by rw [children]; rfl)
      have same : release (release ((x.fs.modNode n fun x => { x with parent := none, deleted := true }).modNode p
        fun x => { x with children := x.children.erase n }) n) p = s := congrArg Prod.snd (Option.some.inj done)
      have one := unlinked.release_open (v := v) (d := d) data
      have two := unlinked.drop.release_open (v := v) (d := d) (by rw [one.2]; exact data)
      dsimp only
      rw [← same, two.2, one.2, two.1, one.1]
      refine ⟨data, ?_⟩
      by_cases isP : d = p
      · refine .inr (.inr ⟨v', n, rfl, data', ?_, ?_⟩)
        · rw [isP]
          exact (fits.linked p n (isP ▸ aliveD)).mpr ⟨alive, parent⟩
        · rw [isP]
          simp [Fs.modNode, Ne.symm apart]
      · left
        by_cases isN : d = n
        · simp [Fs.modNode, isN, apart]
        · simp [Fs.modNode, isP, isN]
    · cases done
      exact ⟨data, .inl rfl⟩
    · cases done
  | lookup v' cnp avail =>
    obtain ⟨⟨r', s⟩, done, same⟩ := Option.map_eq_some_iff.mp run
    cases same
    obtain ⟨vnode, children⟩ := sgfsLookupx_open fits data done
    dsimp only
    rw [vnode]
    exact ⟨data, .inl children⟩
  | root mp avail | allocv mp n avail =>
    cases run
    refine ⟨?_, .inl (allocv_keeps ..).1⟩
    exact (congrArg Vnode.data (allocv_vnode fits _ _ avail data)).trans data
  | getattr v' =>
    obtain ⟨r', done, same⟩ := Option.map_eq_some_iff.mp run
    cases same
    exact ⟨data, .inl rfl⟩
  | readdir v' uioOffset resid =>
    obtain ⟨⟨r', s⟩, done, same⟩ := Option.map_eq_some_iff.mp run
    cases same
    have numbered := sgfsReaddir_numbered done
    dsimp only
    rw [numbered.vnode, numbered.node]
    exact ⟨data, .inl rfl⟩
  | reclaim v' =>
    obtain ⟨s, done, same⟩ := Option.map_eq_some_iff.mp run
    cases same
    obtain ⟨n, data', done⟩ := Option.bind_eq_some_iff.mp done
    have other : v ≠ v' := fun eq => open_ (by rw [eq])
    have same : release (Fs.modNode { x.fs with vnode := update x.fs.vnode v' { x.fs.vnode v' with data := none } } n
      fun m => { m with vnodes := m.vnodes.erase v' }) n = s := Option.some.inj done
    have kept : (update x.fs.vnode v' { x.fs.vnode v' with data := none } v).data = some d := by
      rw [update_of_ne other]
      exact data
    have released := (fits.detach data').release_open (v := v) (d := d) kept
    dsimp only
    rw [← same, released.1, released.2]
    refine ⟨kept, .inl ?_⟩
    by_cases isN : d = n
    · simp [Fs.modNode, isN]
    · simp [Fs.modNode, isN]
  | create v' name =>
    obtain ⟨p, data', same⟩ := Option.map_eq_some_iff.mp run
    obtain ⟨_, alive, dir⟩ := fits.opened v' p data'
    rw [dir] at same
    have made : (⟨(mkdirEntry x.fs p name).2, (mkdirEntry x.fs p name).1 :: x.held⟩ : Sys) = x' := congrArg Prod.snd same
    rw [← made]
    dsimp only
    rw [mkdirEntry_children alive aliveD name]
    refine ⟨data, ?_⟩
    split
    · rename_i same
      exact .inr (.inl ⟨by rw [same]; exact data', rfl⟩)
    · exact .inl rfl
  | search v' name =>
    obtain ⟨p, data', same⟩ := Option.map_eq_some_iff.mp run
    unfold lookupEntry at same
    cases found : Sgfs.search x.fs p name with
    | none =>
      rw [found] at same
      cases same
      exact ⟨data, .inl rfl⟩
    | some n =>
      rw [found] at same
      cases same
      refine ⟨data, .inl ?_⟩
      dsimp only
      rw [Fits.addref_eq]
  | release n =>
    cases run
    have member : n ∈ x.held := by simpa [Op.enabled] using enabled
    have released := (fits.perm (List.perm_cons_erase member)).release_open (v := v) (d := d) data
    dsimp only
    rw [released.1, released.2]
    exact ⟨data, .inl rfl⟩

end entries
section listing
variable {K : VfsKernel} {s s' : Fs} {entries : List Dirent} {children : List NodeId} {i j resid last : Nat}

/-- Once the offset is reached, entries are returned as long as the buffer has room. -/
theorem readdirWalk_take (run : readdirWalk K s (j * K.reclen) resid (j * K.reclen) children = some (s', entries, last)) :
    ∃ k, entries.map Dirent.node = children.take k ∧ k ≤ children.length ∧ last = (j + k) * K.reclen ∧
      (K.reclen ≤ resid → children ≠ [] → 0 < k) := by
  induction children generalizing s resid j entries with
  | nil =>
    cases run
    exact ⟨0, rfl, Nat.le_refl _, rfl, fun _ some_left => absurd rfl some_left⟩
  | cons pn rest ih =>
    obtain ⟨a, number, run⟩ := Option.bind_eq_some_iff.mp run
    split at run
    · rename_i full
      cases run
      exact ⟨0, rfl, Nat.zero_le _, rfl, fun room => absurd room (Nat.not_le.mpr full)⟩
    · rw [if_pos (Nat.le_refl _)] at run
      obtain ⟨⟨b, later, last'⟩, walk, same⟩ := Option.map_eq_some_iff.mp run
      cases same
      have next : j * K.reclen + K.reclen = (j + 1) * K.reclen := (Nat.succ_mul j K.reclen).symm
      rw [next] at walk
      obtain ⟨k, nodes, bound, place, _⟩ := ih walk
      refine ⟨k + 1, ?_, Nat.succ_le_succ bound, ?_, fun _ _ => Nat.succ_pos k⟩
      · rw [List.map_cons, nodes, List.take_succ_cons]
      · rw [place]
        congr 1
        omega

/-- A call with room for an entry returns a part of what lies beyond its offset, and not nothing if there is something. -/
theorem readdirWalk_from (below : j ≤ i) (room : K.reclen ≤ resid)
    (run : readdirWalk K s (i * K.reclen) resid (j * K.reclen) children = some (s', entries, last)) :
    ∃ k, entries.map Dirent.node = (children.drop (i - j)).take k ∧ k ≤ (children.drop (i - j)).length ∧
      last = (min i (j + children.length) + k) * K.reclen ∧ (children.drop (i - j) ≠ [] → 0 < k) := by
  induction children generalizing s j with
  | nil =>
    cases run
    exact ⟨0, by simp, by simp, by simp [Nat.min_eq_right below], by simp⟩
  | cons pn rest ih =>
    by_cases reached : j = i
    · subst reached
      obtain ⟨k, nodes, bound, place, some_room⟩ := readdirWalk_take run
      rw [Nat.sub_self, List.drop_zero]
      refine ⟨k, nodes, bound, ?_, some_room room⟩
      rw [place, Nat.min_eq_left (Nat.le_add_right ..)]
    · obtain ⟨a, number, run⟩ := Option.bind_eq_some_iff.mp run
      have skipped : ¬j * K.reclen ≥ i * K.reclen := by
        refine Nat.not_le.mpr (Nat.mul_lt_mul_of_pos_right ?_ K.reclen_pos)
        omega
      rw [if_neg (Nat.not_lt.mpr room), if_neg skipped] at run
      have next : j * K.reclen + K.reclen = (j + 1) * K.reclen := (Nat.succ_mul j K.reclen).symm
      rw [next] at run
      obtain ⟨k, nodes, bound, place, some_room⟩ := ih (by omega) run
      have cut : (pn :: rest).drop (i - j) = rest.drop (i - (j + 1)) := by
        rw [show i - j = (i - (j + 1)) + 1 by omega, List.drop_succ_cons]
      rw [cut]
      refine ⟨k, nodes, bound, ?_, some_room⟩
      rw [place, List.length_cons]
      congr 2
      omega

end listing

section scan
variable {K : VfsKernel} {v d c offset : Nat} {noCreate noRemove : Prop} {x : Sys} {seen : List NodeId}

/-- A call returns the part of the list that begins at its offset, as far as there is room. -/
theorem step_readdir {x' : Sys} {i resid offset' : Nat} {es : List Dirent} (data : (x.fs.vnode v).data = some d)
    (place : offset = i * K.reclen) (room : K.reclen ≤ resid)
    (run : step K x (.readdir v offset resid) = some (.entries es offset', x')) :
    ∃ k, es.map Dirent.node = ((x.fs.node d).children.drop i).take k ∧
      offset' = (min i (x.fs.node d).children.length + k) * K.reclen ∧
      ((x.fs.node d).children.drop i ≠ [] → 0 < k) ∧ (x'.fs.node d).children = (x.fs.node d).children := by
  unfold step at run
  split at run
  swap
  · cases run
  obtain ⟨⟨r, s⟩, done, same⟩ := Option.map_eq_some_iff.mp run
  cases same
  have numbered := sgfsReaddir_numbered done
  obtain ⟨p, data', done⟩ := Option.bind_eq_some_iff.mp done
  obtain ⟨⟨a, entries, last⟩, walked, done⟩ := Option.bind_eq_some_iff.mp done
  cases done
  cases data'.symm.trans data
  obtain ⟨k, nodes, _, last, progress⟩ := readdirWalk_from (j := 0) (i := i) (Nat.zero_le i) room
    (by rw [Nat.zero_mul, ← place]; exact walked)
  rw [Nat.sub_zero] at nodes progress
  rw [Nat.zero_add] at last
  exact ⟨k, nodes, last, progress, by rw [numbered.node]⟩

theorem mem_drop_cons {α : Type} {l : List α} {a b : α} {i : Nat} (member : a ∈ l.drop i) : a ∈ (b :: l).drop i := by
  cases i with
  | zero => exact List.mem_cons_of_mem _ member
  | succ i =>
    rw [List.drop_succ_cons]
    exact (List.drop_sublist_drop_left l (Nat.le_succ i)).mem member

/-- What lies beyond a position still does when something beyond it is taken away. -/
theorem mem_drop_erase {l : List NodeId} {a e : NodeId} {i : Nat} (member : a ∈ l.drop i) (other : a ≠ e)
    (beyond : e ∉ l.take i) : a ∈ (l.erase e).drop i := by
  have small : i < l.length := by
    have pos := List.length_pos_of_mem member
    rw [List.length_drop] at pos
    omega
  have split : l.erase e = l.take i ++ (l.drop i).erase e := by
    rw [← List.erase_append_right _ beyond, List.take_append_drop]
  rw [split, List.drop_left' (List.length_take_of_le (Nat.le_of_lt small))]
  exact (List.mem_erase_of_ne other).mpr member

/-- What lies before a position still does when something is taken away. -/
theorem mem_take_erase {l : List NodeId} {a e : NodeId} {i : Nat} (member : a ∈ l.take i) (other : a ≠ e) :
    a ∈ (l.erase e).take i := by
  by_cases before : e ∈ l.take i
  · have split : l.erase e = (l.take i).erase e ++ l.drop i := by
      rw [← List.erase_append_left _ before, List.take_append_drop]
    have fewer : ((l.take i).erase e).length ≤ i :=
      Nat.le_trans List.length_erase_le (List.length_take_le ..)
    rw [split, List.take_append, List.take_of_length_le fewer]
    exact List.mem_append_left _ ((List.mem_erase_of_ne other).mpr member)
  · have split : l.erase e = l.take i ++ (l.drop i).erase e := by
      rw [← List.erase_append_right _ before, List.take_append_drop]
    rw [split, List.take_append, List.take_of_length_le (List.length_take_le ..)]
    exact List.mem_append_left _ member

/-- What a scan keeps to: its offset is a number of entries; unless an entry it passed was removed, `c` was
returned or lies ahead; unless an entry was made behind it, `c` was returned once at most, and lies behind if it was. -/
structure Along (K : VfsKernel) (v d c : Nat) (noCreate noRemove : Prop) (x : Sys) (offset : Nat) (seen : List NodeId) : Prop where
  fits : Fits x.fs x.held
  data : (x.fs.vnode v).data = some d
  there : c ∈ (x.fs.node d).children
  place : offset = offset / K.reclen * K.reclen
  ahead : noRemove → c ∈ seen ∨ c ∈ (x.fs.node d).children.drop (offset / K.reclen)
  behind : noCreate → seen.count c ≤ 1 ∧ (c ∈ seen → c ∈ (x.fs.node d).children.take (offset / K.reclen))

theorem Scan.along (scan : Scan K v d c noCreate noRemove x offset seen) : Along K v d c noCreate noRemove x offset seen := by
  induction scan with
  | start ran data there =>
    refine ⟨run_fits ran, data, there, by simp, fun _ => .inr ?_, fun _ => ⟨by simp, by simp⟩⟩
    rwa [Nat.zero_div, List.drop_zero]
  | @call x x' offset offset' resid seen es _ room run ih =>
    have nodup := ih.fits.nodup d (ih.fits.opened v d ih.data).2.1
    have fits' := step_fits ih.fits run
    obtain ⟨data, _⟩ := step_children ih.fits ih.data (by simp) run
    obtain ⟨k, nodes, last, progress, children⟩ := step_readdir ih.data ih.place room run
    have ahead := ih.ahead
    have behind := ih.behind
    have there := ih.there
    generalize offset / K.reclen = i at *
    generalize (x.fs.node d).children = l at nodup nodes last progress children ahead behind there
    have position' : offset' / K.reclen = min i l.length + k := by rw [last, Nat.mul_div_cancel _ K.reclen_pos]
    -- where something lies beyond the offset, this is a position of the list
    have inside (member : c ∈ l.drop i) : min i l.length = i := by
      have pos := List.length_pos_of_mem member
      rw [List.length_drop] at pos
      omega
    refine ⟨fits', data, by rw [children]; exact there, by rw [position', last], fun removes => ?_, fun creates => ?_⟩
    · rw [position', children, nodes]
      rcases ahead removes with before | beyond
      · exact .inl (List.mem_append_left _ before)
      · rw [inside beyond, ← List.drop_drop]
        rw [← List.take_append_drop k (l.drop i)] at beyond
        rcases List.mem_append.mp beyond with now | later
        · exact .inl (List.mem_append_right _ now)
        · exact .inr later
    · obtain ⟨once, passed⟩ := behind creates
      rw [position', children, nodes, List.count_append]
      by_cases before : c ∈ seen
      · have early := passed before
        have notNow : c ∉ (l.drop i).take k := fun now =>
          List.disjoint_take_drop nodup (Nat.le_refl i) early (List.mem_of_mem_take now)
        rw [List.count_eq_zero.mpr notNow]
        refine ⟨once, fun _ => ?_⟩
        rw [List.take_eq_take_min] at early
        exact (List.take_sublist_take_left (Nat.le_add_right ..)).mem early
      · rw [List.count_eq_zero.mpr before, Nat.zero_add]
        have part : ((l.drop i).take k).Nodup := (nodup.sublist (List.drop_sublist ..)).sublist (List.take_sublist ..)
        refine ⟨List.nodup_iff_count_le_one.mp part c, fun member => ?_⟩
        have now := (List.mem_append.mp member).resolve_left before
        rw [inside (List.mem_of_mem_take now), List.take_add]
        exact List.mem_append_right _ now
  | @change x x' offset seen op r _ open_ run there noCreate' noRemove' ih =>
    have nodup := ih.fits.nodup d (ih.fits.opened v d ih.data).2.1
    obtain ⟨data, turns⟩ := step_children ih.fits ih.data open_ run
    refine ⟨step_fits ih.fits run, data, there, ih.place, fun removes => ?_, fun creates => ?_⟩
    · refine (ih.ahead removes).imp id fun beyond => ?_
      rcases turns with same | ⟨_, made⟩ | ⟨v', e, is, data', _, erased⟩
      · rwa [same]
      · rw [made]
        exact mem_drop_cons beyond
      · rw [erased] at there ⊢
        refine mem_drop_erase beyond (fun eq => ?_) fun before => ?_
        · exact (nodup.mem_erase_iff.mp there).1 eq
        · rw [is] at noRemove'
          exact noRemove' removes ⟨e, before, data'⟩
    · obtain ⟨once, passed⟩ := ih.behind creates
      refine ⟨once, fun before => ?_⟩
      have early := passed before
      rcases turns with same | ⟨makes, made⟩ | ⟨v', e, is, data', _, erased⟩
      · rwa [same]
      · have zero : offset = 0 := Nat.eq_zero_of_not_pos fun pos => noCreate' creates pos makes
        rw [zero, Nat.zero_div, List.take_zero] at early
        cases early
      · rw [erased] at there ⊢
        exact mem_take_erase early fun eq => (nodup.mem_erase_iff.mp there).1 eq

/-- An entry that exists all the time is returned at most once if no entry is made behind the scan, and
before a call returns nothing if none is removed behind it. -/
theorem scan_complete (K : VfsKernel) (v d c : Nat) (noCreate noRemove : Prop) (x : Sys) (offset : Nat)
    (seen : List NodeId) (scan : Scan K v d c noCreate noRemove x offset seen) :
    (noCreate → seen.count c ≤ 1) ∧
    (noRemove → ∀ resid offset' x', K.reclen ≤ resid →
      step K x (.readdir v offset resid) = some (.entries [] offset', x') → c ∈ seen) := by
  have along := scan.along
  refine ⟨fun creates => (along.behind creates).1, fun removes resid offset' x' room run => ?_⟩
  refine (along.ahead removes).resolve_right fun beyond => ?_
  obtain ⟨k, nodes, _, progress, _⟩ := step_readdir along.data along.place room run
  have pos := progress (List.ne_nil_of_mem beyond)
  rcases List.take_eq_nil_iff.mp nodes.symm with zero | empty
  · exact absurd zero (Nat.pos_iff_ne_zero.mp pos)
  · exact List.ne_nil_of_mem beyond empty

end scan

/-- Two directories are made in the root. -/
def twoMade : List Op := [.root 0 true, .mkdir 0 "a" true, .mkdir 0 "b" true]

/-- A scan in two calls and a closing one: `"c"` is made before the first call, which returns it, and `"b"`,
still ahead, is removed before the second. -/
theorem scan_complete_changing : ∃ x₀ x₁ x₂ x₃ x₄ x₅ es es' r r', run plainVfs twoMade = some x₀ ∧
    (step plainVfs x₀ (.mkdir 0 "c" true) = some (r, x₁) ∧ step plainVfs x₁ (.readdir 0 0 264) = some (.entries es 264, x₂) ∧
      step plainVfs x₂ (.rmdir 2) = some (r', x₃)) ∧
    (step plainVfs x₃ (.readdir 0 264 792) = some (.entries es' 1056, x₄) ∧
      step plainVfs x₄ (.readdir 0 1056 264) = some (.entries [] 1056, x₅)) ∧
    (es.map Dirent.node ++ es'.map Dirent.node).count 3 ≤ 1 ∧ 3 ∈ es.map Dirent.node ++ es'.map Dirent.node := by
  have result : (run plainVfs twoMade).bind (fun x => (step plainVfs x (.mkdir 0 "c" true)).bind fun r₁ =>
      (step plainVfs r₁.2 (.readdir 0 0 264)).bind fun r₂ => (step plainVfs r₂.2 (.rmdir 2)).bind fun r₃ =>
        (step plainVfs r₃.2 (.readdir 0 264 792)).bind fun r₄ => (step plainVfs r₄.2 (.readdir 0 1056 264)).map fun r₅ =>
          ([(x.fs.vnode 0).data, (r₂.2.fs.vnode 2).data], [x, r₁.2, r₂.2, r₃.2].map fun y => (y.fs.node 0).children,
            [r₂.1, r₄.1, r₅.1])) =
      some ([some 0, some 6], [[6, 3, 2, 1], [9, 6, 3, 2, 1], [9, 6, 3, 2, 1], [9, 3, 2, 1]],
        [.entries [⟨2, "c", 9⟩] 264, .entries [⟨4, "a", 3⟩, ⟨1, "..", 2⟩, ⟨1, ".", 1⟩] 1056, .entries [] 1056]) := by
    decide +kernel
  obtain ⟨x₀, ran, result⟩ := Option.bind_eq_some_iff.mp result
  obtain ⟨⟨r₁, x₁⟩, made, result⟩ := Option.bind_eq_some_iff.mp result
  obtain ⟨⟨r₂, x₂⟩, first, result⟩ := Option.bind_eq_some_iff.mp result
  obtain ⟨⟨r₃, x₃⟩, removed, result⟩ := Option.bind_eq_some_iff.mp result
  obtain ⟨⟨r₄, x₄⟩, second, result⟩ := Option.bind_eq_some_iff.mp result
  obtain ⟨⟨r₅, x₅⟩, last, values⟩ := Option.map_eq_some_iff.mp result
  simp only [Prod.mk.injEq, List.map_cons, List.map_nil, List.cons.injEq, and_true] at values
  obtain ⟨⟨data, victim⟩, ⟨before, later, read, rest⟩, rfl, rfl, rfl⟩ := values
  have start : Scan plainVfs 0 0 3 True True x₀ 0 [] := .start ran data (by rw [before]; decide)
  have grown := start.change (by simp) made (by rw [later]; decide) (fun _ late => absurd late (by decide)) fun _ => id
  have one := grown.call (by decide) first
  have two := one.change (by simp) removed (by rw [rest]; decide) (fun _ _ => id) fun _ removes => by
    obtain ⟨e, passed, data'⟩ := removes
    have is : e = 6 := Option.some.inj (data'.symm.trans victim)
    rw [is, read] at passed
    exact absurd passed (by decide)
  have three := two.call (by decide) second
  have complete := scan_complete _ _ _ _ _ _ _ _ _ three
  exact ⟨x₀, x₁, x₂, x₃, x₄, x₅, _, _, _, _, ran, ⟨made, first, removed⟩, ⟨second, last⟩, complete.1 trivial,
    complete.2 trivial 264 1056 x₅ (by decide) last⟩

/-- The entry that was returned first is removed, and the one behind it is passed over. -/
theorem scan_loses :
    ¬ ∀ (K : VfsKernel) (v d c : Nat) (x : Sys) (offset : Nat) (seen : List NodeId), Scan K v d c False False x offset seen →
      seen.count c ≤ 1 ∧ ∀ resid offset' x', K.reclen ≤ resid →
        step K x (.readdir v offset resid) = some (.entries [] offset', x') → c ∈ seen := by
  intro claimed
  have result : (run plainVfs twoMade).bind (fun x => (step plainVfs x (.readdir 0 0 264)).bind fun r₁ =>
      (step plainVfs r₁.2 (.rmdir 2)).bind fun r₂ => (step plainVfs r₂.2 (.readdir 0 264 792)).bind fun r₃ =>
        (step plainVfs r₃.2 (.readdir 0 792 264)).map fun r₄ =>
          (((x.fs.vnode 0).data, (x.fs.node 0).children, (r₂.2.fs.node 0).children), r₁.1, r₃.1, r₄.1)) =
      some ((some 0, [6, 3, 2, 1], [3, 2, 1]), .entries [⟨2, "b", 6⟩] 264, .entries [⟨1, "..", 2⟩, ⟨1, ".", 1⟩] 792,
        .entries [] 792) := by
    decide +kernel
  obtain ⟨x, ran, result⟩ := Option.bind_eq_some_iff.mp result
  obtain ⟨⟨r, x₁⟩, first, result⟩ := Option.bind_eq_some_iff.mp result
  obtain ⟨⟨r₂, x₂⟩, removed, result⟩ := Option.bind_eq_some_iff.mp result
  obtain ⟨⟨r₃, x₃⟩, rest, result⟩ := Option.bind_eq_some_iff.mp result
  obtain ⟨⟨r₄, x₄⟩, last, values⟩ := Option.map_eq_some_iff.mp result
  simp only [Prod.mk.injEq] at values
  obtain ⟨⟨data, children, later⟩, rfl, rfl, rfl⟩ := values
  have start : Scan plainVfs 0 0 3 False False x 0 [] := .start ran data (by rw [children]; decide)
  have one := start.call (by decide) first
  have two := one.change (by simp) removed (by rw [later]; decide) False.elim False.elim
  have three := two.call (by decide) rest
  have found := (claimed _ _ _ _ _ _ _ three).2 264 792 x₄ (by decide) last
  simp at found

end SfqSched.Sgfs
