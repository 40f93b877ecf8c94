import SfqSched.Sgfs

namespace SfqSched.Sgfs

/-- `enum vtype`, as far as the file system uses it. -/
inductive Vtype
  | vnon | vreg | vdir | vlnk
  deriving DecidableEq, Repr

/-- `struct timespec`. -/
structure Timespec where
  tvSec : BitVec 64
  tvNsec : BitVec 64
  deriving DecidableEq, Repr

/-- `VNOVAL`, at the width of each field. -/
def vnoval {w : Nat} : BitVec w := .allOnes w

/-- What `sgfs_setattr` reads of a `struct vattr`; by default nothing is requested. -/
structure Vattr where
  vaType : Vtype := .vnon
  vaMode : BitVec 16 := vnoval
  vaNlink : BitVec 16 := vnoval
  vaUid : BitVec 32 := vnoval
  vaGid : BitVec 32 := vnoval
  vaFsid : BitVec 32 := vnoval
  vaFileid : BitVec 64 := vnoval
  vaBlocksize : BitVec 64 := vnoval
  vaAtime : Timespec := ⟨vnoval, vnoval⟩
  vaMtime : Timespec := ⟨vnoval, vnoval⟩
  vaGen : BitVec 64 := vnoval
  vaFlags : BitVec 64 := vnoval
  vaRdev : BitVec 32 := vnoval
  vaBytes : BitVec 64 := vnoval
  vaVaflags : BitVec 32 := 0

/-- The attributes of a `struct sgfs_node` that can be set, and `ctime`. -/
structure Attrs where
  uid : BitVec 32
  gid : BitVec 32
  mode : BitVec 32
  atime : Timespec
  mtime : Timespec
  ctime : Timespec
  deriving DecidableEq, Repr

inductive Accmode
  | vadmin | vwrite
  deriving DecidableEq, Repr

inductive Priv
  | vfsChown
  deriving DecidableEq, Repr

/-- `EINVAL`. -/
def einval : Int := 22

/-- `VA_UTIMES_NULL`. -/
def vaUtimesNull : BitVec 32 := 1

/-- What is asked about a credential: `vaccess` sees the type of the vnode and the mode, the owner and
the group of the node. An `int` that is not `0` is an error. -/
structure CredKernel (Cred : Type) where
  vaccess : Vtype → BitVec 16 → BitVec 32 → BitVec 32 → Accmode → Cred → Int
  privCheck : Cred → Priv → Int
  groupmember : BitVec 32 → Cred → Bool
  crUid : Cred → BitVec 32

section setattr
variable {Cred : Type} (K : CredKernel Cred) (vType : Vtype) (pn : Attrs) (vap : Vattr) (aCred td : Cred)

/-- `sgfs_access`; the `VOP_GETATTR` before it does not fail and copies the mode into a `u_short`. -/
def sgfsAccess (accmode : Accmode) (cred : Cred) : Int :=
  K.vaccess vType (pn.mode.setWidth 16) pn.uid pn.gid accmode cred

/-- The attributes that cannot be set are not requested. -/
def settable : Bool :=
  vap.vaType = .vnon && vap.vaNlink = vnoval && vap.vaFsid = vnoval && vap.vaFileid = vnoval &&
    vap.vaBlocksize = vnoval && (vap.vaFlags = vnoval || vap.vaFlags = 0) && vap.vaRdev = vnoval &&
    vap.vaBytes.setWidth 32 = vnoval && vap.vaGen = vnoval

/-- The local `uid`. -/
def reqUid : BitVec 32 := if vap.vaUid = vnoval then pn.uid else vap.vaUid

/-- The local `gid`. -/
def reqGid : BitVec 32 := if vap.vaGid = vnoval then pn.gid else vap.vaGid

/-- The first group of `sgfs_setattr`: the error it returns with, the node and `c`. -/
def setattrOwner : Int × Attrs × Bool :=
  let uid := reqUid pn vap
  let gid := reqGid pn vap
  if uid ≠ pn.uid ∨ gid ≠ pn.gid then
    let error := sgfsAccess K vType pn .vadmin aCred
    if error ≠ 0 then (error, pn, false)
    else
      let error := K.privCheck td .vfsChown
      if (K.crUid aCred ≠ pn.uid ∨ uid ≠ pn.uid ∨ (gid ≠ pn.gid ∧ !K.groupmember gid aCred)) ∧ error ≠ 0 then
        (error, pn, false)
      else (0, { pn with uid := uid, gid := gid }, true)
  else (0, pn, false)

/-- The second group, which reads the owner that the first one left. -/
def setattrMode (c : Bool) : Int × Attrs × Bool :=
  if vap.vaMode ≠ vnoval then
    let error := K.privCheck td .vfsChown
    if K.crUid aCred ≠ pn.uid ∧ error ≠ 0 then (error, pn, c)
    else (0, { pn with mode := vap.vaMode.setWidth 32 }, true)
  else (0, pn, c)

/-- What the third group stores. -/
def storeTimes : Attrs :=
  let pn := if vap.vaAtime.tvSec ≠ vnoval then { pn with atime := vap.vaAtime } else pn
  if vap.vaMtime.tvSec ≠ vnoval then { pn with mtime := vap.vaMtime } else pn

/-- The third group. An accepted `VWRITE` replaces the error of `VADMIN`. -/
def setattrTimes (c : Bool) : Int × Attrs × Bool :=
  if vap.vaAtime.tvSec ≠ vnoval ∨ vap.vaMtime.tvSec ≠ vnoval then
    let admin := sgfsAccess K vType pn .vadmin aCred
    let write := sgfsAccess K vType pn .vwrite aCred
    if admin ≠ 0 ∧ vap.vaVaflags &&& vaUtimesNull = 0 then (admin, pn, c)
    else if admin ≠ 0 ∧ write ≠ 0 then (write, pn, c)
    else (0, storeTimes pn vap, true)
  else (0, pn, c)

/-- `sgfs_setattr`; `now` is what `vfs_timestamp` stores. -/
def sgfsSetattr (now : Timespec) : Int × Attrs :=
  if !settable vap then (einval, pn)
  else
    let (error, pn, c) := setattrOwner K vType pn vap aCred td
    if error ≠ 0 then (error, pn)
    else
      let (error, pn, c) := setattrMode K pn vap aCred td c
      if error ≠ 0 then (error, pn)
      else
        let (error, pn, c) := setattrTimes K vType pn vap aCred c
        if error ≠ 0 then (error, pn)
        else (0, if c then { pn with ctime := now } else pn)

/-- The mode that a node has after an accepted request. -/
def reqMode : BitVec 32 := if vap.vaMode = vnoval then pn.mode else vap.vaMode.setWidth 32

def reqAtime : Timespec := if vap.vaAtime.tvSec = vnoval then pn.atime else vap.vaAtime

def reqMtime : Timespec := if vap.vaMtime.tvSec = vnoval then pn.mtime else vap.vaMtime

/-- The node with the requested owner, group and mode. -/
def reassigned : Attrs := { pn with uid := reqUid pn vap, gid := reqGid pn vap, mode := reqMode pn vap }

/-- An error comes with an unchanged node, and success with exactly the requested attributes. -/
def AllOrNothing (result : Int × Attrs) : Prop :=
  (result.1 ≠ 0 → result.2 = pn) ∧
  (result.1 = 0 → result.2.uid = reqUid pn vap ∧ result.2.gid = reqGid pn vap ∧ result.2.mode = reqMode pn vap ∧
    result.2.atime = reqAtime pn vap ∧ result.2.mtime = reqMtime pn vap)

/-- The owner and the group stay as they are, or the credentials allow the change. -/
def MayChown : Prop :=
  (reqUid pn vap = pn.uid ∧ reqGid pn vap = pn.gid) ∨
    (sgfsAccess K vType pn .vadmin aCred = 0 ∧
      (K.privCheck td .vfsChown = 0 ∨
        (K.crUid aCred = pn.uid ∧ reqUid pn vap = pn.uid ∧ (reqGid pn vap = pn.gid ∨ K.groupmember (reqGid pn vap) aCred))))

/-- No mode is requested, or the credentials allow it for this owner. -/
def MayChmod (uid : BitVec 32) : Prop :=
  vap.vaMode = vnoval ∨ K.crUid aCred = uid ∨ K.privCheck td .vfsChown = 0

/-- No time is requested, or the credentials allow it for the node. -/
def MayTouch : Prop :=
  (vap.vaAtime.tvSec = vnoval ∧ vap.vaMtime.tvSec = vnoval) ∨ sgfsAccess K vType pn .vadmin aCred = 0 ∨
    (vap.vaVaflags &&& vaUtimesNull ≠ 0 ∧ sgfsAccess K vType pn .vwrite aCred = 0)

/-- The owner, the group or the mode is changed, and under the new ones the times are refused. -/
def LateRefusal : Prop :=
  settable vap ∧ MayChown K vType pn vap aCred td ∧ MayChmod K vap aCred td (reqUid pn vap) ∧
    reassigned pn vap ≠ pn ∧ ¬MayTouch K vType (reassigned pn vap) vap aCred

/-- The first group refuses, or leaves the requested owner and group. -/
theorem setattrOwner_cases :
    (¬MayChown K vType pn vap aCred td ∧ ∃ e, e ≠ 0 ∧ setattrOwner K vType pn vap aCred td = (e, pn, false)) ∨
    (MayChown K vType pn vap aCred td ∧ ∃ c, setattrOwner K vType pn vap aCred td =
      (0, { pn with uid := reqUid pn vap, gid := reqGid pn vap }, c)) := by
  unfold setattrOwner MayChown
  dsimp only
  split_ifs with differs refused denied
  · refine .inl ⟨?_, _, refused, rfl⟩
    rintro (same | ⟨granted, _⟩)
    · exact differs.elim (fun other => other same.1) fun other => other same.2
    · exact refused granted
  · refine .inl ⟨?_, _, denied.2, rfl⟩
    rintro (same | ⟨_, allowed | ⟨owner, kept, group⟩⟩)
    · exact differs.elim (fun other => other same.1) fun other => other same.2
    · exact denied.2 allowed
    · rcases denied.1 with other | other | ⟨moved, outside⟩
      · exact other owner
      · exact other kept
      · rcases group with same | inside
        · exact moved same
        · simp [inside] at outside
  · refine .inr ⟨.inr ⟨not_not.mp refused, ?_⟩, true, rfl⟩
    by_cases allowed : K.privCheck td .vfsChown = 0
    · exact .inl allowed
    · have own := not_and'.mp denied allowed
      simp only [not_or, not_not, not_and, Bool.not_eq_true', Bool.not_eq_false] at own
      obtain ⟨owner, kept, group⟩ := own
      exact .inr ⟨owner, kept, or_iff_not_imp_left.mpr group⟩
  · simp only [not_or, not_not] at differs
    refine .inr ⟨.inl differs, false, ?_⟩
    rw [differs.1, differs.2]

/-- The second group refuses, or leaves the requested mode. -/
theorem setattrMode_cases (c : Bool) :
    (¬MayChmod K vap aCred td pn.uid ∧ ∃ e, e ≠ 0 ∧ setattrMode K pn vap aCred td c = (e, pn, c)) ∨
    (MayChmod K vap aCred td pn.uid ∧ ∃ c', setattrMode K pn vap aCred td c = (0, { pn with mode := reqMode pn vap }, c')) := by
  unfold setattrMode MayChmod
  dsimp only
  split_ifs with requested denied
  · refine .inl ⟨?_, _, denied.2, rfl⟩
    rintro (absent | owner | allowed)
    · exact requested absent
    · exact denied.1 owner
    · exact denied.2 allowed
  · refine .inr ⟨.inr ?_, true, ?_⟩
    · by_cases owner : K.crUid aCred = pn.uid
      · exact .inl owner
      · exact .inr (not_not.mp (not_and.mp denied owner))
    · rw [reqMode, if_neg requested]
  · have absent := not_not.mp requested
    exact .inr ⟨.inl absent, c, by rw [reqMode, if_pos absent]⟩

theorem storeTimes_eq : storeTimes pn vap = { pn with atime := reqAtime pn vap, mtime := reqMtime pn vap } := by
  unfold storeTimes reqAtime reqMtime
  by_cases atime : vap.vaAtime.tvSec = vnoval <;> by_cases mtime : vap.vaMtime.tvSec = vnoval <;> simp [atime, mtime]

/-- The third group refuses, or leaves the requested times. -/
theorem setattrTimes_cases (c : Bool) :
    (¬MayTouch K vType pn vap aCred ∧ ∃ e, e ≠ 0 ∧ setattrTimes K vType pn vap aCred c = (e, pn, c)) ∨
    (MayTouch K vType pn vap aCred ∧ ∃ c', setattrTimes K vType pn vap aCred c =
      (0, { pn with atime := reqAtime pn vap, mtime := reqMtime pn vap }, c')) := by
  unfold setattrTimes MayTouch
  dsimp only
  split_ifs with requested admin write
  · refine .inl ⟨?_, _, admin.1, rfl⟩
    rintro (absent | granted | ⟨now, _⟩)
    · exact requested.elim (fun other => other absent.1) fun other => other absent.2
    · exact admin.1 granted
    · exact now admin.2
  · refine .inl ⟨?_, _, write.2, rfl⟩
    rintro (absent | granted | ⟨_, granted⟩)
    · exact requested.elim (fun other => other absent.1) fun other => other absent.2
    · exact write.1 granted
    · exact write.2 granted
  · refine .inr ⟨.inr ?_, true, ?_⟩
    · by_cases granted : sgfsAccess K vType pn .vadmin aCred = 0
      · exact .inl granted
      · exact .inr ⟨not_and.mp admin granted, not_not.mp (not_and.mp write granted)⟩
    · rw [storeTimes_eq]
  · simp only [not_or, not_not] at requested
    refine .inr ⟨.inl requested, c, ?_⟩
    rw [reqAtime, reqMtime, if_pos requested.1, if_pos requested.2]

/-- A mode is refused after the first group only if that left the node as it was. -/
theorem mayChmod_of_chown (chown : MayChown K vType pn vap aCred td)
    (denied : ¬MayChmod K vap aCred td (reqUid pn vap)) : reqUid pn vap = pn.uid ∧ reqGid pn vap = pn.gid := by
  simp only [MayChmod, not_or] at denied
  obtain ⟨_, other, refused⟩ := denied
  rcases chown with same | ⟨_, allowed | ⟨owner, kept, _⟩⟩
  · exact same
  · exact absurd allowed refused
  · exact absurd (owner.trans kept.symm) other

/-- How `sgfs_setattr` ends: with the node as it was, with the times refused, or with everything stored. -/
theorem sgfsSetattr_cases (now : Timespec) :
    (∃ e, e ≠ 0 ∧ sgfsSetattr K vType pn vap aCred td now = (e, pn) ∧ ¬LateRefusal K vType pn vap aCred td) ∨
    (∃ e, e ≠ 0 ∧ sgfsSetattr K vType pn vap aCred td now = (e, reassigned pn vap) ∧
      (LateRefusal K vType pn vap aCred td ↔ reassigned pn vap ≠ pn)) ∨
    (∃ ctime, sgfsSetattr K vType pn vap aCred td now =
      (0, { reassigned pn vap with atime := reqAtime pn vap, mtime := reqMtime pn vap, ctime := ctime }) ∧
      ¬LateRefusal K vType pn vap aCred td) := by
  unfold sgfsSetattr
  by_cases valid : settable vap
  · rw [if_neg (by simp [valid])]
    obtain ⟨denied, e, error, owner⟩ | ⟨chown, c, owner⟩ := setattrOwner_cases K vType pn vap aCred td
    · refine .inl ⟨e, error, ?_, fun late => denied late.2.1⟩
      simp only [owner, if_pos error]
    · obtain ⟨denied, e, error, mode⟩ | ⟨chmod, c', mode⟩ :=
        setattrMode_cases K { pn with uid := reqUid pn vap, gid := reqGid pn vap } vap aCred td c
      · have kept := mayChmod_of_chown K vType pn vap aCred td chown denied
        refine .inl ⟨e, error, ?_, fun late => denied late.2.2.1⟩
        simp only [owner, mode, ne_eq, not_true_eq_false, if_false, if_pos error]
        rw [kept.1, kept.2]
      · have mode' : setattrMode K { pn with uid := reqUid pn vap, gid := reqGid pn vap } vap aCred td c =
            (0, reassigned pn vap, c') := mode
        obtain ⟨denied, e, error, times⟩ | ⟨touch, c'', times⟩ :=
          setattrTimes_cases K vType (reassigned pn vap) vap aCred c'
        · refine .inr (.inl ⟨e, error, ?_, fun late => late.2.2.2.1, fun moved => ⟨valid, chown, chmod, moved, denied⟩⟩)
          simp only [owner, mode', times, ne_eq, not_true_eq_false, if_false, if_pos error]
        · refine .inr (.inr ⟨if c'' then now else pn.ctime, ?_, fun late => late.2.2.2.2 touch⟩)
          simp only [owner, mode', times, ne_eq, not_true_eq_false, if_false]
          cases c'' <;> rfl
  · refine .inl ⟨einval, by decide, ?_, fun late => valid late.1⟩
    rw [if_pos (by simp [valid])]

/-- A request is carried out in full or not at all, unless it is refused late. -/
theorem setattr_atomic (now : Timespec) :
    AllOrNothing pn vap (sgfsSetattr K vType pn vap aCred td now) ↔ ¬LateRefusal K vType pn vap aCred td := by
  have refused {e : Int} (error : e ≠ 0) (n : Attrs) : AllOrNothing pn vap (e, n) ↔ n = pn :=
    ⟨fun all => all.1 error, fun same => ⟨fun _ => same, fun none => absurd none error⟩⟩
  obtain ⟨e, error, result, early⟩ | ⟨e, error, result, late⟩ | ⟨ctime, result, done⟩ :=
    sgfsSetattr_cases K vType pn vap aCred td now
  · rw [result, refused error]
    exact iff_of_true rfl early
  · rw [result, refused error, late, not_not]
  · rw [result]
    exact iff_of_true ⟨fun error => absurd rfl error, fun _ => ⟨rfl, rfl, rfl, rfl, rfl⟩⟩ done

end setattr

/-- Credentials that may give any node away, but set the times of their own nodes only. -/
def chownKernel : CredKernel (BitVec 32) where
  vaccess _ _ uid _ _ cred := if cred = uid then 0 else 1
  privCheck _ _ := 0
  groupmember _ _ := false
  crUid cred := cred

/-- A node of user `5`. -/
def ownNode : Attrs := ⟨5, 5, 0o755, ⟨0, 0⟩, ⟨0, 0⟩, ⟨0, 0⟩⟩

/-- The node gets another owner and a new `mtime`. -/
def givenAway : Vattr := { vaUid := 7, vaMtime := ⟨1, 0⟩ }

/-- The old owner is refused the `mtime` of a node that is no longer theirs. -/
theorem setattr_given_away :
    ¬ ∀ (K : CredKernel (BitVec 32)) (vType : Vtype) (pn : Attrs) (vap : Vattr) (aCred td : BitVec 32) (now : Timespec),
      AllOrNothing pn vap (sgfsSetattr K vType pn vap aCred td now) := by
  intro claimed
  have result : sgfsSetattr chownKernel .vdir ownNode givenAway 5 5 ⟨1, 0⟩ = (1, { ownNode with uid := 7 }) := by decide
  have all := claimed chownKernel .vdir ownNode givenAway 5 5 ⟨1, 0⟩
  rw [result] at all
  exact absurd (all.1 (by decide)) (by decide)

end SfqSched.Sgfs
