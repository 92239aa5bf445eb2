import GoAfp.Entry
import GoAfp.ReadModifyWrite
import Mathlib.Data.UInt

/-! `Chmod` and `Chown` on one file. Both stat the file and then set owner,
group and mode together, so each writes back what it read of the others. -/

namespace GoAfp

def sIFMT : UInt32 := 0o170000

/-- Go's conversion of an `int` to `uint32`. -/
def uint32 (v : Int) : UInt32 := UInt32.ofNat (v % 2 ^ 32).toNat

def chmodPrivs (mode : UInt32) (e : UnixPrivs) : UnixPrivs :=
  { e with permissions := (mode &&& 0o7777) ||| (e.permissions &&& sIFMT) }

def chownPrivs (uid gid : Int) (e : UnixPrivs) : UnixPrivs :=
  { e with
    uid := if 0 ≤ uid then uint32 uid else e.uid
    gid := if 0 ≤ gid then uint32 gid else e.gid }

inductive AttrOp
  | chmod
  | chown
  deriving DecidableEq, Repr

def attrUpdate (mode : UInt32) (uid gid : Int) : AttrOp → UnixPrivs → UnixPrivs
  | .chmod => chmodPrivs mode
  | .chown => chownPrivs uid gid

/-- One `Chmod` and one `Chown` of a file with attributes `v`. -/
def attrSystem (v : UnixPrivs) (mode : UInt32) (uid gid : Int) :
    System (RMW.State AttrOp UnixPrivs) (RMW.Label AttrOp) :=
  RMW.system (attrUpdate mode uid gid) v

def AttrsApplied (v : UnixPrivs) (mode : UInt32) (uid gid : Int) (w : UnixPrivs) : Prop :=
  w.permissions &&& 0o7777 = mode &&& 0o7777 ∧ (w.uid.toNat : Int) = uid ∧
    (w.gid.toNat : Int) = gid ∧
    w.permissions &&& sIFMT = v.permissions &&& sIFMT

theorem uint32_toNat {v : Int} (h : 0 ≤ v) (hlt : v < 2 ^ 32) : ((uint32 v).toNat : Int) = v := by
  have hmod : v % 2 ^ 32 = v := Int.emod_eq_of_lt h hlt
  have hnat : v.toNat % 2 ^ 32 = v.toNat := Nat.mod_eq_of_lt (by omega)
  rw [uint32, hmod, UInt32.toNat_ofNat', hnat, Int.toNat_of_nonneg h]

theorem uint32_or_and (a b c : UInt32) : (a ||| b) &&& c = (a &&& c) ||| (b &&& c) := by
  apply UInt32.toBitVec_inj.mp
  exact BitVec.and_or_distrib_right

theorem chmodPrivs_bits (mode : UInt32) (e : UnixPrivs) :
    (chmodPrivs mode e).permissions &&& 0o7777 = mode &&& 0o7777 ∧
      (chmodPrivs mode e).permissions &&& sIFMT = e.permissions &&& sIFMT := by
  have hdisj : (0o170000 : UInt32) &&& 0o7777 = 0 := by decide
  have hdisj' : (0o7777 : UInt32) &&& 0o170000 = 0 := by decide
  constructor
  · rw [chmodPrivs, sIFMT, uint32_or_and, UInt32.and_assoc, UInt32.and_assoc,
      UInt32.and_self, hdisj, UInt32.and_zero, UInt32.or_zero]
  · rw [chmodPrivs, sIFMT, uint32_or_and, UInt32.and_assoc, UInt32.and_assoc,
      UInt32.and_self, hdisj', UInt32.and_zero, UInt32.zero_or]

/-- What is in place once the operation has succeeded. -/
def AttrOp.Done (mode : UInt32) (uid gid : Int) : AttrOp → UnixPrivs → Prop
  | .chmod, w => w.permissions &&& 0o7777 = mode &&& 0o7777
  | .chown, w => w.uid = uint32 uid ∧ w.gid = uint32 gid

theorem AttrOp.done_self {mode : UInt32} {uid gid : Int} (huid : 0 ≤ uid) (hgid : 0 ≤ gid)
    (i : AttrOp) (v : UnixPrivs) : i.Done mode uid gid (attrUpdate mode uid gid i v) := by
  cases i with
  | chmod => exact (chmodPrivs_bits mode v).1
  | chown => simp [AttrOp.Done, attrUpdate, chownPrivs, huid, hgid]

theorem AttrOp.done_other {mode : UInt32} {uid gid : Int} (huid : 0 ≤ uid) (hgid : 0 ≤ gid)
    (i j : AttrOp) (v : UnixPrivs) (h : i.Done mode uid gid v) :
    i.Done mode uid gid (attrUpdate mode uid gid j v) := by
  cases i <;> cases j
  · exact (chmodPrivs_bits mode v).1
  · exact h
  · exact h
  · exact AttrOp.done_self huid hgid .chown v

/-- No update is lost when each `SetUnixPrivs` carries along only attributes
that are still the file's. -/
theorem attrs_not_lost {v : UnixPrivs} {mode : UInt32} {uid gid : Int}
    {tr : List (RMW.Label AttrOp)} {s : RMW.State AttrOp UnixPrivs} (huid : 0 ≤ uid ∧ uid < 2 ^ 32)
    (hgid : 0 ≤ gid ∧ gid < 2 ^ 32)
    (h : (attrSystem v mode uid gid).Reach (RMW.Fresh (attrUpdate mode uid gid)) tr s)
    (hchmod : s.phases .chmod = .returned true) (hchown : s.phases .chown = .returned true) :
    AttrsApplied v mode uid gid s.value := by
  have hdone := RMW.established (Q := AttrOp.Done mode uid gid) h (AttrOp.done_self huid.1 hgid.1)
    (AttrOp.done_other huid.1 hgid.1)
  have htype : s.value.permissions &&& sIFMT = v.permissions &&& sIFMT := by
    refine RMW.value_invariant
      (I := fun w => w.permissions &&& sIFMT = v.permissions &&& sIFMT) h rfl ?_
    intro i w hw
    cases i with
    | chmod => exact (chmodPrivs_bits mode w).2.trans hw
    | chown => exact hw
  obtain ⟨hu, hg⟩ := hdone .chown hchown
  refine ⟨hdone .chmod hchmod, ?_, ?_, htype⟩
  · rw [hu, uint32_toNat huid.1 huid.2]
  · rw [hg, uint32_toNat hgid.1 hgid.2]

def regularFile : UnixPrivs := ⟨0, 0, 0o100644⟩

def oneByOne : List (RMW.Label AttrOp) :=
  [.enter .chmod true, .enter .chown true, .read .chmod, .write .chmod, .read .chown, .write .chown]

theorem attrs_not_lost_oneByOne :
    ∃ s, (attrSystem regularFile 0o755 501 20).Reach
      (RMW.Fresh (attrUpdate 0o755 501 20)) oneByOne s ∧
      AttrsApplied regularFile 0o755 501 20 s.value := by
  have hrun : ∃ s, (attrSystem regularFile 0o755 501 20).exec
      (attrSystem regularFile 0o755 501 20).init oneByOne = some s ∧
      s.phases .chmod = .returned true ∧ s.phases .chown = .returned true := ⟨_, rfl, rfl, rfl⟩
  have hadm : (attrSystem regularFile 0o755 501 20).Admits (RMW.Fresh (attrUpdate 0o755 501 20))
      (attrSystem regularFile 0o755 501 20).init oneByOne := by
    refine ⟨rfl, rfl, trivial, fun r e he => ?_, trivial, fun r e he => ?_, trivial⟩
    · cases he
      rfl
    · cases he
      rfl
  obtain ⟨s, hs, hchmod, hchown⟩ := hrun
  have h := System.Reach.nil.exec hadm hs
  exact ⟨s, h, attrs_not_lost (by decide) (by decide) h hchmod hchown⟩

/-- Both operations stat the file before either of them sets anything. -/
def crossing : List (RMW.Label AttrOp) :=
  [.enter .chmod true, .enter .chown true, .read .chmod, .read .chown, .write .chmod, .write .chown]

theorem attrs_lost :
    ¬ ∀ v mode uid gid tr s, 0 ≤ uid → 0 ≤ gid →
      (attrSystem v mode uid gid).Reach System.free tr s →
      s.phases .chmod = .returned true → s.phases .chown = .returned true →
        AttrsApplied v mode uid gid s.value := by
  intro hall
  have hrun : ∃ s, (attrSystem regularFile 0o755 501 20).exec
      (attrSystem regularFile 0o755 501 20).init crossing = some s ∧
      s.phases .chmod = .returned true ∧ s.phases .chown = .returned true ∧
      s.value = ⟨501, 20, 0o100644⟩ := ⟨_, rfl, rfl, rfl, rfl⟩
  obtain ⟨s, hs, hchmod, hchown, hv⟩ := hrun
  have h := System.Reach.nil.exec (System.admits_of_forall fun _ _ _ => trivial) hs
  have hmode := (hall _ _ _ _ _ s (by decide) (by decide) h hchmod hchown).1
  rw [hv] at hmode
  exact absurd hmode (by decide)

end GoAfp
