import GoAfp.Attributes
import GoAfp.DoCalls
import GoAfp.FS
import GoAfp.Keeper

/-! `Chmod`, `Chown` and `Chtimes` of one object, and the `Stat` of it that
follows, as calls of `do` among those of others. The first two ask for the
volume's capability by a call of its own, whose error is not looked at. -/

namespace GoAfp

open Proc

structure FileInfo where
  name : Bytes
  size : Int := 0
  mode : UInt32
  modTime : Option Int := none
  isDir : Bool
  deriving DecidableEq, Repr

def modeDir : UInt32 := 0x80000000
def modeSymlink : UInt32 := 0x08000000

def entryInfo (name : Bytes) (e : DirEntry) : FileInfo :=
  let perm := e.unixPrivs.permissions &&& 0o777
  let mode := if perm = 0 then (if e.isDir then 0o755 else 0o644) else perm
  { name := name
    size := wrap64 e.size.toNat
    mode := if e.isSymlink then mode ||| modeSymlink else if e.isDir then mode ||| modeDir else mode
    modTime := e.modTime
    isDir := e.isDir }

/-- `path.Base`. -/
def pathBase (p : Bytes) : Bytes :=
  let stem := p.rdropWhile (· = slash)
  if p = [] then ascii "." else if stem = [] then [slash] else stem.rtakeWhile (· ≠ slash)

def rootInfo : FileInfo where
  name := [slash]
  mode := modeDir ||| 0o755
  isDir := true

/-- Times are Unix seconds. -/
inductive AttrCall
  | chmod (mode : UInt32)
  | chown (uid gid : Int)
  | chtimes (mtime : Int)
  deriving DecidableEq, Repr

section Bodies

variable {σ : Type} (command : Bytes → Proc σ AfpErr (Bytes × Result)) (v : AfpVolume) (p : Bytes)

def mapped {α : Type} (x : Proc σ AfpErr α) : Proc σ OsErr α :=
  adapt (fun e => mapErr (.afp e)) x

def changePrivs (f : UnixPrivs → UnixPrivs) : Proc σ OsErr Unit := do
  let e ← mapped (v.statVia command rootDirID p)
  mapped (v.setUnixPrivs command rootDirID p (f e.unixPrivs))

/-- The closure that makes the change. -/
def AttrCall.body : AttrCall → Proc σ OsErr Unit
  | .chmod mode => changePrivs command v p (chmodPrivs mode)
  | .chown uid gid => changePrivs command v p (chownPrivs uid gid)
  | .chtimes mtime => mapped (v.setModTime command rootDirID p mtime)

end Bodies

def Params.privs (p : Params) : UnixPrivs := ⟨p.uid, p.gid, p.permissions⟩

namespace AttrCall

/-- Only done on a volume with unix privileges. -/
def needsPrivs : AttrCall → Bool
  | .chmod _ => true
  | .chown _ _ => true
  | .chtimes _ => false

/-- What the server is to store in the place of `p`. -/
def change (p : Params) : AttrCall → AttrChange
  | .chmod mode => .unixPrivs (chmodPrivs mode p.privs) 0
  | .chown uid gid => .unixPrivs (chownPrivs uid gid p.privs) 0
  | .chtimes mtime => .modDate (modDate mtime)

def apply (op : AttrCall) (p : Params) : Params := (op.change p).apply p

/-- The server made the change. -/
def Took (op : AttrCall) (q : Path) (k k' : Keeper) : Prop :=
  ∃ x, k.held q = some x ∧ k' = k.setAttr q (op.change x.2)

theorem Took.held {op : AttrCall} {q : Path} {k k' : Keeper} (h : op.Took q k k') :
    ∃ x, k.held q = some x ∧ k'.held q = some (x.1, op.apply x.2) := by
  obtain ⟨x, hx, rfl⟩ := h
  refine ⟨x, hx, ?_⟩
  rw [Keeper.held_setAttr, hx]
  rfl

theorem Took.serves {op : AttrCall} {q : Path} {k k' : Keeper} {v : AfpVolume} (h : op.Took q k k')
    (hs : k.Serves v) :
    k'.Serves v := by
  obtain ⟨x, -, rfl⟩ := h
  exact hs.setAttr q _

end AttrCall

theorem entryOf_unixPrivs {v : AfpVolume} (h : v.supportsUnixPrivs = true) (x : Bool × Params) :
    (v.entryOf x).unixPrivs = x.2.privs := by
  have hbits : v.entryBitmaps.1 &&& kFPUnixPrivsBit ≠ 0 ∧
      v.entryBitmaps.2 &&& kFPUnixPrivsBit ≠ 0 := by
    rw [VolumeRef.entryBitmaps, if_pos h]
    exact ⟨by decide, by decide⟩
  obtain ⟨isDir, p⟩ := x
  cases isDir with
  | false => exact if_pos hbits.1
  | true => exact if_pos hbits.2

theorem entryOf_modTime (v : AfpVolume) (x : Bool × Params) :
    (v.entryOf x).modTime = afpDate x.2.modDate := by
  have hbits : v.entryBitmaps.1 &&& kFPModDateBit ≠ 0 ∧ v.entryBitmaps.2 &&& kFPModDateBit ≠ 0 := by
    rw [VolumeRef.entryBitmaps]
    split_ifs <;> exact ⟨by decide, by decide⟩
  obtain ⟨isDir, p⟩ := x
  cases isDir with
  | false => exact if_pos hbits.1
  | true => exact if_pos hbits.2

section Closure

variable {v : AfpVolume} {p : Bytes} {q : Path} {l : KeeperLink} (hs : l.keeper.Serves v)
  (hw : (wirePath v.nfd p).length < 65536) (hq : wireNames (wirePath v.nfd p) = some q)

include hs hw hq

theorem setUnixPrivs_cases (privs : UnixPrivs) :
    let r := (v.setUnixPrivs KeeperLink.command rootDirID p privs).on l
    r.2.keeper = l.keeper ∧ (∃ e, r.1 = .error e) ∨
      (l.keeper.held q).isSome ∧ r.2.keeper = l.keeper.setAttr q (.unixPrivs privs 0) :=
  codeOnly_attr hs hw hq (reads_unixPrivs privs) _

theorem changePrivs_cases (hprivs : v.supportsUnixPrivs = true) (f : UnixPrivs → UnixPrivs) :
    let r := (changePrivs KeeperLink.command v p f).on l
    r.2.keeper = l.keeper ∧ (∃ e, r.1 = .error e) ∨
      ∃ x, l.keeper.held q = some x ∧
        r.2.keeper = l.keeper.setAttr q (.unixPrivs (f x.2.privs) 0) := by
  intro r
  have hkeeps : ((v.statVia KeeperLink.command rootDirID p).on l).2.keeper = l.keeper :=
    statVia_keeps hs l rfl
  rcases hstat : (v.statVia KeeperLink.command rootDirID p).on l with ⟨e | e, mid⟩
  · have hon : r = (.error (mapErr (.afp e)), mid) := by
      apply on_bind_error
      rw [mapped, on_adapt, hstat]
      rfl
    rw [hstat] at hkeeps
    rw [hon]
    exact .inl ⟨hkeeps, _, rfl⟩
  · rw [hstat] at hkeeps
    obtain ⟨x, hx, rfl⟩ := statVia_ok hs hw hq hstat
    have hon :
        r = (mapped (v.setUnixPrivs KeeperLink.command rootDirID p (f (v.entryOf x).unixPrivs))).on
          mid := by
      apply on_bind_ok
      rw [mapped, on_adapt, hstat]
      rfl
    have hmid : mid.keeper = l.keeper := hkeeps
    rw [← hmid] at hs hx ⊢
    rw [hon, entryOf_unixPrivs hprivs, mapped, on_adapt]
    rcases setUnixPrivs_cases hs hw hq (f x.2.privs) with ⟨hkept, e, he⟩ | ⟨-, hset⟩
    · exact .inl ⟨hkept, mapErr (.afp e), by rw [he]; rfl⟩
    · exact .inr ⟨x, hx, hset⟩

/-- A closure that succeeds made the change, and one that fails may have. -/
theorem AttrCall.body_cases (op : AttrCall)
    (hprivs : op.needsPrivs = true → v.supportsUnixPrivs = true) :
    let r := (op.body KeeperLink.command v p).on l
    r.2.keeper = l.keeper ∧ (∃ e, r.1 = .error e) ∨ op.Took q l.keeper r.2.keeper := by
  cases op with
  | chmod mode => exact changePrivs_cases hs hw hq (hprivs rfl) (chmodPrivs mode)
  | chown uid gid => exact changePrivs_cases hs hw hq (hprivs rfl) (chownPrivs uid gid)
  | chtimes mtime =>
    intro r
    have hon : r = (mapped (v.setModTime KeeperLink.command rootDirID p mtime)).on l := rfl
    rw [hon, mapped, on_adapt]
    rcases codeOnly_attr hs hw hq (reads_modDate (modDate mtime)) ("set mod time " ++ goText p) with
      ⟨hkept, e, he⟩ | ⟨hheld, hset⟩
    · refine .inl ⟨hkept, mapErr (.afp e), ?_⟩
      exact congrArg (Except.mapError _) he
    · obtain ⟨x, hx⟩ := Option.isSome_iff_exists.mp hheld
      exact .inr ⟨x, hx, hset⟩

end Closure

abbrev RequestScript := List (Fate × Option ErrCode)

/-- The server, and the variables that the closures of the calls set. -/
structure Scene where
  keeper : Keeper
  su : Bool := false
  entry : Option DirEntry := none

abbrev probeCall : Nat := 0
abbrev changeCall : Nat := 1
abbrev statCall : Nat := 2

/-- An attribute call on a volume, and what the closures of the calls that are
not its own do to the server. -/
structure AttrRun where
  fs : FS
  name : Bytes
  op : AttrCall
  vol : AfpVolume
  other : Nat → Nat → RequestScript → Keeper → Bool × Keeper

namespace AttrRun

variable (a : AttrRun)

def path : Bytes := a.fs.resolve a.name

/-- The volume that the dial `d` opened. -/
def volAt (d : Nat) : AfpVolume := { a.vol with gen := d }

def probeFn (d : Nat) (x : Scene) : Bool × Scene :=
  (true, { x with su := (a.volAt d).supportsUnixPrivs })

def changeFn (d : Nat) (w : RequestScript) (x : Scene) : Bool × Scene :=
  let (r, l) := (a.op.body KeeperLink.command (a.volAt d) a.path).on ⟨x.keeper, w⟩
  ((errOf r).isNone, { x with keeper := l.keeper })

def statFn (d : Nat) (w : RequestScript) (x : Scene) : Bool × Scene :=
  match ((a.volAt d).statVia KeeperLink.command rootDirID a.path).on ⟨x.keeper, w⟩ with
  | (.ok e, l) => (true, { x with keeper := l.keeper, entry := some e })
  | (.error _, l) => (false, { x with keeper := l.keeper })

def closures : Closures Scene RequestScript (Keeper → Keeper) where
  fn
    | 0, d, _, x => a.probeFn d x
    | 1, d, w, x => a.changeFn d w x
    | 2, d, w, x => a.statFn d w x
    | g, d, w, x => ((a.other g d w x.keeper).1, { x with keeper := (a.other g d w x.keeper).2 })
  env f x := { x with keeper := f x.keeper }

def system (init : Keeper) : System (DoState Scene) (DoLabel RequestScript (Keeper → Keeper)) :=
  a.closures.system { keeper := init }

/-- The attribute call has returned nil: its capability was not found, or the
change succeeded. -/
def ReturnedNil (s : DoState Scene) : Prop :=
  (a.op.needsPrivs = true ∧ (∃ r, s.mgr.calls probeCall = .returned r) ∧ s.world.su = false) ∨
    s.mgr.calls changeCall = .returned .ok

/-- What `Stat` reports once its call has succeeded. -/
def reported (s : DoState Scene) : Option FileInfo :=
  if a.path = [] then some rootInfo
  else if s.mgr.calls statCall = .returned .ok then s.world.entry.map (entryInfo (pathBase a.path))
  else none

end AttrRun

/-- Two servers that are the same to a client of the object at `q`. -/
structure Keeper.SameAt (q : Path) (k k' : Keeper) : Prop where
  held : k'.held q = k.held q
  volID : k'.site.volID = k.site.volID
  dirID : k'.site.dirID = k.site.dirID

theorem Keeper.SameAt.refl (q : Path) (k : Keeper) : SameAt q k k := ⟨rfl, rfl, rfl⟩

theorem Keeper.SameAt.serves {q : Path} {k k' : Keeper} {v : AfpVolume} (h : SameAt q k k')
    (hs : k.Serves v) :
    k'.Serves v :=
  ⟨h.volID.trans hs.volID, h.dirID.trans hs.dirID⟩

/-- The calls are made in their order, and others leave the object alone. -/
def AttrRun.Orderly (a : AttrRun) (q : Path) (s : DoState Scene) :
    DoLabel RequestScript (Keeper → Keeper) → Prop
  | .mgr (.sample g) =>
    (g = changeCall → a.op.needsPrivs = true →
      (∃ r, s.mgr.calls probeCall = .returned r) ∧ s.world.su = true) ∧
    (g = statCall → a.ReturnedNil s)
  | .run g w => 3 ≤ g → ∀ d, Keeper.SameAt q s.world.keeper (a.other g d w s.world.keeper).2
  | .env f => Keeper.SameAt q s.world.keeper (f s.world.keeper)
  | _ => True

section Closures

variable {a : AttrRun} {q : Path} (hw : (wirePath a.vol.nfd a.path).length < 65536)
  (hq : wireNames (wirePath a.vol.nfd a.path) = some q)

include hw hq in
theorem AttrRun.changeFn_cases {d : Nat} {w : RequestScript} {x y : Scene} {r : Bool}
    (hs : x.keeper.Serves a.vol) (hprivs : a.op.needsPrivs = true → a.vol.supportsUnixPrivs = true)
    (h : a.changeFn d w x = (r, y)) :
    (y.keeper = x.keeper ∧ r = false) ∨ a.op.Took q x.keeper y.keeper := by
  have hserves : (⟨x.keeper, w⟩ : KeeperLink).keeper.Serves (a.volAt d) := ⟨hs.volID, hs.dirID⟩
  have hcases := AttrCall.body_cases hserves hw hq a.op hprivs
  unfold AttrRun.changeFn at h
  rcases hon : (a.op.body KeeperLink.command (a.volAt d) a.path).on ⟨x.keeper, w⟩ with ⟨res, l⟩
  rw [hon] at h hcases
  cases h
  rcases hcases with ⟨hkept, e, rfl⟩ | htook
  · exact .inl ⟨hkept, rfl⟩
  · exact .inr htook

theorem AttrRun.statFn_keeper {d : Nat} {w : RequestScript} {x y : Scene} {r : Bool}
    (hs : x.keeper.Serves a.vol) (h : a.statFn d w x = (r, y)) : y.keeper = x.keeper := by
  have hserves : x.keeper.Serves (a.volAt d) := ⟨hs.volID, hs.dirID⟩
  have hkeeps :
      (((a.volAt d).statVia KeeperLink.command rootDirID a.path).on ⟨x.keeper, w⟩).2.keeper =
        x.keeper :=
    statVia_keeps hserves ⟨x.keeper, w⟩ rfl
  unfold AttrRun.statFn at h
  rcases hon : ((a.volAt d).statVia KeeperLink.command rootDirID a.path).on ⟨x.keeper, w⟩
      with ⟨e | e, l⟩
  all_goals
    rw [hon] at h hkeeps
    cases h
    exact hkeeps

include hw hq in
theorem AttrRun.statFn_ok {d : Nat} {w : RequestScript} {x y : Scene} (hs : x.keeper.Serves a.vol)
    (h : a.statFn d w x = (true, y)) :
    ∃ z, x.keeper.held q = some z ∧ y.entry = some (a.vol.entryOf z) := by
  have hserves : (⟨x.keeper, w⟩ : KeeperLink).keeper.Serves (a.volAt d) := ⟨hs.volID, hs.dirID⟩
  unfold AttrRun.statFn at h
  rcases hon : ((a.volAt d).statVia KeeperLink.command rootDirID a.path).on ⟨x.keeper, w⟩
      with ⟨e | e, l⟩
  · rw [hon] at h
    cases h
  · rw [hon] at h
    cases h
    obtain ⟨z, hz, rfl⟩ := statVia_ok hserves hw hq hon
    exact ⟨z, hz, rfl⟩

end Closures

end GoAfp
