import GoAfp.AttrCalls
import GoAfp.HostFS

/-! What attribute calls that report success have done, in every run of the
connection manager, and what a stat reports after them. -/

namespace GoAfp

namespace AttrRun

/-- What a step does to the scene. -/
inductive Turn (a : AttrRun) (q : Path) (x : Scene) :
    DoLabel RequestScript (Keeper → Keeper) → Scene → Prop
  | mgr (m : ManagerLabel) : Turn a q x (.mgr m) x
  | probe (w : RequestScript) : Turn a q x (.run probeCall w)
    { x with su := a.vol.supportsUnixPrivs }
  | change {d : Nat} {w : RequestScript} {r : Bool} {y : Scene} (h : a.changeFn d w x = (r, y)) :
    Turn a q x (.run changeCall w) y
  | stat {d : Nat} {w : RequestScript} {r : Bool} {y : Scene} (h : a.statFn d w x = (r, y)) :
    Turn a q x (.run statCall w) y
  | other {b : DoLabel RequestScript (Keeper → Keeper)} {k : Keeper}
    (hb : ∀ g w, b = .run g w → 3 ≤ g)
      (h : Keeper.SameAt q x.keeper k) : Turn a q x b { x with keeper := k }

variable {a : AttrRun} {q : Path}

theorem turn_of_step {s t : DoState Scene} {b : DoLabel RequestScript (Keeper → Keeper)}
    (hok : a.Orderly q s b) (h : a.closures.step s b = some t) : Turn a q s.world b t.world := by
  cases Closures.step_effect h with
  | mgr hnot hm => exact .mgr _
  | env f => exact .other nofun hok
  | @run g d w r world m hfn hm =>
    match g, hok, hfn with
    | 0, _, hfn =>
      cases hfn
      exact .probe w
    | 1, _, hfn => exact .change hfn
    | 2, _, hfn => exact .stat hfn
    | g + 3, hok, hfn =>
      cases hfn
      refine .other ?_ (hok (Nat.le_add_left 3 g) d)
      rintro g' w' ⟨⟩
      exact Nat.le_add_left 3 g

theorem changeFn_frame {d : Nat} {w : RequestScript} {x y : Scene} {r : Bool}
    (h : a.changeFn d w x = (r, y)) :
    y.su = x.su ∧ y.entry = x.entry := by
  cases h
  exact ⟨rfl, rfl⟩

theorem statFn_su {d : Nat} {w : RequestScript} {x y : Scene} {r : Bool}
    (h : a.statFn d w x = (r, y)) : y.su = x.su := by
  unfold statFn at h
  split at h
  all_goals
    cases h
    rfl

/-- The pathname is read as a whole, as the path `q`, and the call keeps `R`. -/
structure Setting (a : AttrRun) (q : Path) (R : Bool × Params → Prop) : Prop where
  fits : (wirePath a.vol.nfd a.path).length < 65536
  names : wireNames (wirePath a.vol.nfd a.path) = some q
  stable : ∀ x, R x → R (x.1, a.op.apply x.2)

/-- The server knows the volume, and what it holds of the object is in `R`. -/
structure Ready (a : AttrRun) (q : Path) (R : Bool × Params → Prop) (k : Keeper) : Prop where
  serves : k.Serves a.vol
  kept : ∀ x, k.held q = some x → R x

/-- The server holds the object as the call leaves it. -/
def Made (a : AttrRun) (q : Path) (R : Bool × Params → Prop) (k : Keeper) : Prop :=
  ∃ x, R x ∧ k.held q = some (x.1, a.op.apply x.2)

variable {R : Bool × Params → Prop} {k k' : Keeper} {x y : Scene}

theorem Ready.same (h : a.Ready q R k) (hsame : Keeper.SameAt q k k') : a.Ready q R k' where
  serves := hsame.serves h.serves
  kept := by
    rw [hsame.held]
    exact h.kept

theorem Made.same (h : a.Made q R k) (hsame : Keeper.SameAt q k k') : a.Made q R k' := by
  rw [Made, hsame.held]
  exact h

theorem Ready.took (hset : a.Setting q R) (h : a.Ready q R k) (htook : a.op.Took q k k') :
    a.Ready q R k' ∧ a.Made q R k' := by
  obtain ⟨z, hz, hz'⟩ := htook.held
  have hR := h.kept z hz
  refine ⟨⟨htook.serves h.serves, fun z' hz'' => ?_⟩, z, hR, hz'⟩
  rw [hz', Option.some.injEq] at hz''
  rw [← hz'']
  exact hset.stable z hR

/-- The requests of a change are sent only to a volume that takes them. -/
def Capable (a : AttrRun) : Prop :=
  a.op.needsPrivs = true → a.vol.supportsUnixPrivs = true

theorem Ready.change (hset : a.Setting q R) (h : a.Ready q R x.keeper) (hcap : a.Capable) {d : Nat}
    {w : RequestScript} {r : Bool} (hfn : a.changeFn d w x = (r, y)) :
    a.Ready q R y.keeper ∧ (y.keeper = x.keeper ∧ r = false ∨ a.Made q R y.keeper) := by
  rcases changeFn_cases hset.fits hset.names h.serves hcap hfn with ⟨hkept, hr⟩ | htook
  · exact ⟨hkept ▸ h, .inl ⟨hkept, hr⟩⟩
  · obtain ⟨hready, hmade⟩ := h.took hset htook
    exact ⟨hready, .inr hmade⟩

/-- Only the change itself is seen at the object. -/
theorem Turn.same {b : DoLabel RequestScript (Keeper → Keeper)} (h : Turn a q x b y)
    (hs : x.keeper.Serves a.vol) (hb : ∀ w, b ≠ .run changeCall w) :
    Keeper.SameAt q x.keeper y.keeper := by
  cases h with
  | mgr => exact .refl q _
  | probe => exact .refl q _
  | change => exact absurd rfl (hb _)
  | stat hfn =>
    rw [statFn_keeper hs hfn]
    exact .refl q _
  | other _ hsame => exact hsame

theorem Turn.su {b : DoLabel RequestScript (Keeper → Keeper)} (h : Turn a q x b y) :
    y.su = x.su ∨ (∃ w, b = .run probeCall w) ∧ y.su = a.vol.supportsUnixPrivs := by
  cases h with
  | mgr => exact .inl rfl
  | probe w => exact .inr ⟨⟨w, rfl⟩, rfl⟩
  | change hfn => exact .inl (changeFn_frame hfn).1
  | stat hfn => exact .inl (statFn_su hfn)
  | other => exact .inl rfl

section Runs

variable {init : Keeper} {ok : DoState Scene → DoLabel RequestScript (Keeper → Keeper) → Prop}
  {tr : List (DoLabel RequestScript (Keeper → Keeper))} {s : DoState Scene}

section Invariant

variable (hset : a.Setting q R) (hinit : a.Ready q R init) (hok : ∀ s b, ok s b → a.Orderly q s b)

include hset hinit hok

theorem ready_of_reach (h : (a.system init).Reach ok tr s) :
    a.Ready q R s.world.keeper ∧ (s.world.su = true → a.vol.supportsUnixPrivs = true) ∧
      (s.mgr.calls changeCall ≠ .idle → a.Capable) := by
  induction h with
  | nil => exact ⟨hinit, nofun, fun hne => absurd rfl hne⟩
  | @snoc tr s t b hreach hb hs ih =>
    obtain ⟨hready, hsu, hcap⟩ := ih
    replace hs : a.closures.step s b = some t := hs
    have hturn := turn_of_step (hok s b hb) hs
    have hcap' : t.mgr.calls changeCall ≠ .idle → a.Capable := by
      intro hne
      cases Closures.step_effect hs with
      | mgr hnot hm =>
        rcases (Manager.moves hm changeCall).started hne with hactive | rfl
        · exact hcap hactive
        · exact fun hneeds => hsu (((hok s _ hb).1 rfl hneeds).2)
      | run hfn hm =>
        rcases (Manager.moves hm changeCall).started hne with hactive | he
        · exact hcap hactive
        · cases he
      | env f => exact hcap hne
    refine ⟨?_, ?_, hcap'⟩
    · by_cases hchange : ∃ w, b = .run changeCall w
      · obtain ⟨w, rfl⟩ := hchange
        cases Closures.step_effect hs with
        | run hfn hm =>
          have hactive := (Manager.moves hm changeCall).of_fnReturn.1.1
          exact (hready.change hset (hcap hactive) hfn).1
      · exact hready.same (hturn.same hready.serves fun w he => hchange ⟨w, he⟩)
    · rcases hturn.su with he | ⟨-, he⟩
      · rw [he]
        exact hsu
      · rw [he]
        exact id

theorem change_contract : a.closures.Contract { keeper := init } ok changeCall
    (fun x => a.Ready q R x.keeper ∧ a.Capable) (fun x => a.Ready q R x.keeper ∧
      a.Made q R x.keeper) where
  start tr s hreach hsample := by
    obtain ⟨hready, hsu, -⟩ := ready_of_reach hset hinit hok hreach
    exact ⟨hready, fun hneeds => hsu (((hok s _ hsample).1 rfl hneeds).2)⟩
  others s b t hb hs hne := by
    have hturn := turn_of_step (hok s b hb) hs
    constructor
    · rintro ⟨hready, hcap⟩
      exact ⟨hready.same (hturn.same hready.serves hne), hcap⟩
    · rintro ⟨hready, hmade⟩
      have hsame := hturn.same hready.serves hne
      exact ⟨hready.same hsame, hmade.same hsame⟩
  fails d w x y hx hfn := ⟨(hx.1.change hset hx.2 hfn).1, hx.2⟩
  succeeds d w x y hx hfn := by
    obtain ⟨hready, ⟨-, hr⟩ | hmade⟩ := hx.1.change hset hx.2 hfn
    · cases hr
    · exact ⟨hready, hmade⟩

theorem stat_contract
    (hnil : ∀ tr s, (a.system init).Reach ok tr s → a.ReturnedNil s →
      s.mgr.calls changeCall = .returned .ok) :
    a.closures.Contract { keeper := init } ok statCall
      (fun x => a.Ready q R x.keeper ∧ a.Capable ∧ a.Made q R x.keeper)
      (fun x => ∃ z, R z ∧ x.entry = some (a.vol.entryOf (z.1, a.op.apply z.2))) where
  start tr s hreach hsample := by
    have hdone := hnil tr s hreach ((hok s _ hsample).2 rfl)
    obtain ⟨hready, hmade⟩ := ((change_contract hset hinit hok).keeping hreach).2 hdone
    refine ⟨hready, (ready_of_reach hset hinit hok hreach).2.2 ?_, hmade⟩
    rw [hdone]
    exact nofun
  others s b t hb hs hne := by
    have hturn := turn_of_step (hok s b hb) hs
    generalize s.world = x at hturn ⊢
    generalize t.world = y at hturn ⊢
    cases hturn with
    | mgr => exact ⟨id, id⟩
    | probe => exact ⟨id, id⟩
    | change hfn =>
      constructor
      · rintro ⟨hready, hcap, hmade⟩
        obtain ⟨hready', ⟨hkept, -⟩ | hmade'⟩ := hready.change hset hcap hfn
        · exact ⟨hready', hcap, hkept ▸ hmade⟩
        · exact ⟨hready', hcap, hmade'⟩
      · rw [(changeFn_frame hfn).2]
        exact id
    | stat => exact absurd rfl (hne _)
    | other _ hsame => exact ⟨fun h => ⟨h.1.same hsame, h.2.1, h.2.2.same hsame⟩, id⟩
  fails d w x y hx hfn := by
    have hkeeper : y.keeper = x.keeper := statFn_keeper hx.1.serves hfn
    rw [hkeeper]
    exact hx
  succeeds d w x y hx hfn := by
    obtain ⟨hready, -, z, hz, hheld⟩ := hx
    obtain ⟨z', hz', hentry⟩ := statFn_ok hset.fits hset.names hready.serves hfn
    rw [hheld, Option.some.injEq] at hz'
    exact ⟨z, hz, hz' ▸ hentry⟩

end Invariant

theorem probe_contract (hok : ∀ s b, ok s b → a.Orderly q s b) :
    a.closures.Contract { keeper := init } ok probeCall
    (fun _ => True) (fun x => x.su = a.vol.supportsUnixPrivs) where
  start _ _ _ _ := trivial
  others s b t hb hs hne := by
    refine ⟨fun _ => trivial, ?_⟩
    rcases (turn_of_step (hok s b hb) hs).su with he | ⟨⟨w, rfl⟩, -⟩
    · rw [he]
      exact id
    · exact absurd rfl (hne w)
  fails _ _ _ _ _ _ := trivial
  succeeds d w x y _ hfn := by
    cases hfn
    rfl

/-- Without a failed dial for the probe, nil means that the volume lacks what
the call needs or that the change succeeded. -/
theorem returnedNil_cases (hok : ∀ s b, ok s b → a.Orderly q s b)
    (h : (a.system init).Reach ok tr s) (hdial : .mgr (.dialReturn probeCall false) ∉ tr)
    (hnil : a.ReturnedNil s) :
    a.op.needsPrivs = true ∧ a.vol.supportsUnixPrivs = false ∨
      s.mgr.calls changeCall = .returned .ok := by
  rcases hnil with ⟨hneeds, ⟨r, hr⟩, hsu⟩ | hdone
  · rcases Closures.returned_cases (fun _ _ _ => rfl) h hr with rfl | hmem
    · rw [((probe_contract hok).keeping h).2 hr] at hsu
      exact .inl ⟨hneeds, hsu⟩
    · exact absurd hmem hdial
  · exact .inr hdone

/-- What a stat reports of an object below the root, after the change. -/
theorem reported_made (hset : a.Setting q R) (hinit : a.Ready q R init)
    (hok : ∀ s b, ok s b → a.Orderly q s b)
    (hnil : ∀ tr s, (a.system init).Reach ok tr s → a.ReturnedNil s →
      s.mgr.calls changeCall = .returned .ok)
    (h : (a.system init).Reach ok tr s) (hpath : a.path ≠ []) {info : FileInfo}
    (hinfo : a.reported s = some info) :
    ∃ z, R z ∧ info = entryInfo (pathBase a.path) (a.vol.entryOf (z.1, a.op.apply z.2)) := by
  rw [reported, if_neg hpath] at hinfo
  split_ifs at hinfo with hdone
  obtain ⟨e, he, rfl⟩ := Option.map_eq_some_iff.mp hinfo
  obtain ⟨z, hz, hentry⟩ := ((stat_contract hset hinit hok hnil).keeping h).2 hdone
  rw [he, Option.some.injEq] at hentry
  exact ⟨z, hz, congrArg _ hentry⟩

end Runs

end AttrRun

namespace AttrCall

/-- The numbers of the call fit in the fields of the request. -/
def Fits : AttrCall → Prop
  | .chown uid gid => uid < 2 ^ 32 ∧ gid < 2 ^ 32
  | _ => True

/-- The parameters are as the call asks. A negative owner or group is none. -/
def Requested (p : Params) : AttrCall → Prop
  | .chmod mode => p.permissions &&& 0o7777 = mode &&& 0o7777
  | .chown uid gid => (0 ≤ uid → (p.uid.toNat : Int) = uid) ∧ (0 ≤ gid → (p.gid.toNat : Int) = gid)
  | .chtimes mtime => p.modDate = modDate mtime

theorem requested_apply {op : AttrCall} (h : op.Fits) (p : Params) : op.Requested (op.apply p) := by
  cases op with
  | chmod mode => exact (chmodPrivs_bits mode p.privs).1
  | chtimes mtime => rfl
  | chown uid gid =>
    constructor
    · intro huid
      show ((if 0 ≤ uid then uint32 uid else p.uid).toNat : Int) = uid
      rw [if_pos huid, uint32_toNat huid h.1]
    · intro hgid
      show ((if 0 ≤ gid then uint32 gid else p.gid).toNat : Int) = gid
      rw [if_pos hgid, uint32_toNat hgid h.2]

end AttrCall

section Results

variable {a : AttrRun} {q : Path} {init : Keeper}
  {tr : List (DoLabel RequestScript (Keeper → Keeper))} {s : DoState Scene}

/-- In every run in which the dial for the probe does not fail, an attribute
call that returns nil found a volume without unix privileges or leaves the
object as it was asked to. -/
theorem attr_took_effect (hfits : (wirePath a.vol.nfd a.path).length < 65536)
    (hq : wireNames (wirePath a.vol.nfd a.path) = some q) (hop : a.op.Fits)
    (hinit : init.Serves a.vol) (h : (a.system init).Reach (a.Orderly q) tr s)
    (hdial : .mgr (.dialReturn probeCall false) ∉ tr) (hnil : a.ReturnedNil s) :
    a.vol.supportsUnixPrivs = false ∨ ∃ x, s.world.keeper.held q = some x ∧ a.op.Requested x.2 := by
  have hset : a.Setting q fun _ => True := ⟨hfits, hq, fun _ _ => trivial⟩
  rcases AttrRun.returnedNil_cases (fun _ _ => id) h hdial hnil with ⟨-, hlacks⟩ | hdone
  · exact .inl hlacks
  · have hcontract := AttrRun.change_contract hset ⟨hinit, fun _ _ => trivial⟩ fun _ _ => id
    obtain ⟨-, x, -, hheld⟩ := (hcontract.keeping h).2 hdone
    exact .inr ⟨_, hheld, AttrCall.requested_apply hop x.2⟩

/-- A call for the file `a` of a server, and other calls whose closures fail. -/
def callOnFile (op : AttrCall) (attributes : UInt16) : AttrRun where
  fs := ⟨[]⟩
  name := ascii "a"
  op := op
  vol := { plainVolume with attributes := attributes }
  other := fun _ _ _ k => (false, k)

def fileKeeper : Keeper := ⟨plainSite, fileServer⟩

/-- The call `g` finds the volume, and its closure runs to the end. -/
def straight (g : Nat) : List (DoLabel RequestScript (Keeper → Keeper)) :=
  [.mgr (.sample g), .run g []]

/-- The state after such calls in a row. -/
def AttrRun.after (a : AttrRun) (calls : List Nat) : DoState Scene :=
  calls.foldl (fun s g => ((a.system fileKeeper).exec s (straight g)).getD s)
    (a.system fileKeeper).init

theorem AttrRun.reach_after (calls : List Nat) (g : Nat)
    (h : (a.system fileKeeper).Reach (a.Orderly q) (calls.flatMap straight) (a.after calls))
    (hg : g < 3) (hsample : a.Orderly q (a.after calls) (.mgr (.sample g)))
    (hsome : ((a.system fileKeeper).exec (a.after calls) (straight g)).isSome) :
    (a.system fileKeeper).Reach (a.Orderly q) ((calls ++ [g]).flatMap straight)
      (a.after (calls ++ [g])) := by
  have hadmits : (a.system fileKeeper).Admits (a.Orderly q) (a.after calls) (straight g) := by
    apply System.admits_cons hsample
    intro b hb s
    rw [List.mem_singleton.mp hb]
    exact fun hle => absurd hle (Nat.not_le.mpr hg)
  rw [List.flatMap_append, List.flatMap_singleton, AttrRun.after, List.foldl_append]
  exact h.exec_isSome hadmits hsome

def modeFile (mode : UInt32) : AttrRun := callOnFile (.chmod mode) volAttrSupportsUnix

theorem reach_modeFile {mode : UInt32}
    (hrun : (((modeFile mode).system fileKeeper).exec ((modeFile mode).after [probeCall])
      (straight changeCall)).isSome) :
    ((modeFile mode).system fileKeeper).Reach ((modeFile mode).Orderly [ascii "a"])
      ([probeCall, changeCall].flatMap straight)
        ((modeFile mode).after [probeCall, changeCall]) := by
  have hprobe : ((modeFile mode).system fileKeeper).Reach ((modeFile mode).Orderly [ascii "a"])
      ([probeCall].flatMap straight) ((modeFile mode).after [probeCall]) :=
    AttrRun.reach_after [] probeCall .nil (by decide) ⟨nofun, nofun⟩ rfl
  have hvol : (modeFile mode).volAt 0 =
      { plainVolume with attributes := volAttrSupportsUnix, gen := 0 } := rfl
  have hsu : ((modeFile mode).after [probeCall]).world.su = true := calc
    _ = ((modeFile mode).volAt 0).supportsUnixPrivs := rfl
    _ = true := by rw [hvol]; decide
  exact AttrRun.reach_after [probeCall] changeCall hprobe (by decide)
    ⟨fun _ _ => ⟨⟨.ok, rfl⟩, hsu⟩, nofun⟩ hrun

theorem attr_took_effect_private : ∃ x,
    ((modeFile 0o600).after [probeCall, changeCall]).world.keeper.held [ascii "a"] = some x ∧
      (modeFile 0o600).op.Requested x.2 := by
  have hreach : ((modeFile 0o600).system fileKeeper).Reach _ _ _ :=
    reach_modeFile (by decide +kernel)
  rcases attr_took_effect (a := modeFile 0o600) (by decide +kernel) (by decide +kernel) trivial
    ⟨rfl, rfl⟩ hreach (by simp [straight]) (.inr (by decide +kernel)) with hlacks | hheld
  · exact absurd hlacks (by decide)
  · exact hheld

/-- Another call finds the link dead and cannot dial, and neither can the probe. -/
def unreachable : List (DoLabel RequestScript (Keeper → Keeper)) :=
  [.mgr (.sample 3), .run 3 [], .mgr (.linkDies 0), .mgr (.check 3), .mgr (.reconnect 3),
    .mgr (.dialReturn 3 false), .mgr (.sample probeCall), .mgr (.reconnect probeCall),
    .mgr (.dialReturn probeCall false)]

theorem orderly_unreachable : ∀ b ∈ unreachable, ∀ s, (modeFile 0o600).Orderly [ascii "a"] s b := by
  simp only [unreachable, List.forall_mem_cons]
  refine ⟨?_, ?_, ?_, ?_, ?_, ?_, ?_, ?_, ?_, List.forall_mem_nil _⟩
  · exact fun _ => ⟨nofun, nofun⟩
  · exact fun s _ d => .refl _ _
  · exact fun _ => trivial
  · exact fun _ => trivial
  · exact fun _ => trivial
  · exact fun _ => trivial
  · exact fun _ => ⟨nofun, nofun⟩
  · exact fun _ => trivial
  · exact fun _ => trivial

/-- The probe's error is taken for a volume without privileges: the call returns
nil, and the mode is left as it was. -/
theorem chmod_unreachable : ∃ s,
    ((modeFile 0o600).system fileKeeper).Reach
      ((modeFile 0o600).Orderly [ascii "a"]) unreachable s ∧
    (modeFile 0o600).ReturnedNil s ∧ (modeFile 0o600).vol.supportsUnixPrivs = true ∧
    ∃ x, s.world.keeper.held [ascii "a"] = some x ∧ ¬ (modeFile 0o600).op.Requested x.2 := by
  have hadmits :
      ((modeFile 0o600).system fileKeeper).Admits _ ((modeFile 0o600).system fileKeeper).init
        unreachable :=
    System.admits_of_forall orderly_unreachable
  have hreach := System.Reach.nil.exec_isSome hadmits (by decide +kernel)
  refine ⟨_, hreach, .inl ⟨rfl, ⟨.dialErr, by decide +kernel⟩, by decide +kernel⟩, by decide, ?_⟩
  refine ⟨(false, plainSite.described [ascii "a"] newFile.attrs.finder newFile.content.length), ?_,
    ?_⟩
  · rfl
  · show ¬ ((0 : UInt32) &&& 0o7777 = 0o600 &&& 0o7777)
    decide

theorem afpDate_modDate (mtime : Int) : afpDate (modDate mtime) = some mtime ↔
    -2 ^ 31 ≤ mtime - afpEpochDelta ∧ mtime - afpEpochDelta < 2 ^ 31 := by
  have hdate : (modDate mtime).toInt32.toInt = (mtime - afpEpochDelta).bmod (2 ^ 32) := by
    show (Int32.ofInt (wrap64 (mtime - afpEpochDelta))).toInt = _
    rw [Int32.toInt_ofInt, wrap64]
    exact Int.bmod_bmod_of_dvd (by decide)
  rw [afpDate, hdate, Option.some.injEq]
  constructor
  · intro h
    have hlo : -(2 ^ 32 / 2) ≤ (mtime - afpEpochDelta).bmod (2 ^ 32) := Int.le_bmod (by decide)
    have hhi : (mtime - afpEpochDelta).bmod (2 ^ 32) < (2 ^ 32 + 1) / 2 := Int.bmod_lt (by decide)
    omega
  · rintro ⟨hlo, hhi⟩
    rw [Int.bmod_eq_of_le (by omega) (by omega)]
    omega

/-- A date that does not fit in 32 bits comes back as another one, and the root
has none. -/
theorem chtimes_stat_iff {mtime : Int} (hop : a.op = .chtimes mtime)
    (hfits : (wirePath a.vol.nfd a.path).length < 65536)
    (hq : wireNames (wirePath a.vol.nfd a.path) = some q) (hinit : init.Serves a.vol)
    (h : (a.system init).Reach (a.Orderly q) tr s) (hnil : a.ReturnedNil s)
    {info : FileInfo} (hinfo : a.reported s = some info) :
    (∃ x, s.world.keeper.held q = some x ∧ x.2.modDate = modDate mtime) ∧
    (info.modTime = some mtime ↔
      a.path ≠ [] ∧ -2 ^ 31 ≤ mtime - afpEpochDelta ∧ mtime - afpEpochDelta < 2 ^ 31) := by
  have hset : a.Setting q fun _ => True := ⟨hfits, hq, fun _ _ => trivial⟩
  have hready : a.Ready q (fun _ => True) init := ⟨hinit, fun _ _ => trivial⟩
  have hdone (tr : List (DoLabel RequestScript (Keeper → Keeper))) (s : DoState Scene)
      (_ : (a.system init).Reach (a.Orderly q) tr s) (hnil : a.ReturnedNil s) :
      s.mgr.calls changeCall = .returned .ok := by
    rcases hnil with ⟨hneeds, -⟩ | hdone
    · rw [hop] at hneeds
      cases hneeds
    · exact hdone
  obtain ⟨-, x, -, hheld⟩ :=
    ((AttrRun.change_contract hset hready fun _ _ => id).keeping h).2 (hdone tr s h hnil)
  rw [hop] at hheld
  refine ⟨⟨_, hheld, rfl⟩, ?_⟩
  by_cases hpath : a.path = []
  · rw [AttrRun.reported, if_pos hpath, Option.some.injEq] at hinfo
    subst hinfo
    exact iff_of_false nofun fun hrange => hrange.1 hpath
  · obtain ⟨z, -, rfl⟩ := AttrRun.reported_made hset hready (fun _ _ => id) hdone h hpath hinfo
    show (a.vol.entryOf (z.1, a.op.apply z.2)).modTime = some mtime ↔ _
    rw [entryOf_modTime, hop, and_iff_right hpath]
    exact afpDate_modDate mtime

def datedFile (mtime : Int) : AttrRun := callOnFile (.chtimes mtime) 0

theorem reach_datedFile {mtime : Int}
    (hrun : (((datedFile mtime).system fileKeeper).exec ((datedFile mtime).after [])
      (straight changeCall)).isSome)
    (hdone : ((datedFile mtime).after [changeCall]).mgr.calls changeCall = .returned .ok)
    (hstat : (((datedFile mtime).system fileKeeper).exec ((datedFile mtime).after [changeCall])
      (straight statCall)).isSome) :
    ((datedFile mtime).system fileKeeper).Reach ((datedFile mtime).Orderly [ascii "a"])
      ([changeCall, statCall].flatMap straight)
        ((datedFile mtime).after [changeCall, statCall]) := by
  have hchange : ((datedFile mtime).system fileKeeper).Reach ((datedFile mtime).Orderly [ascii "a"])
      ([changeCall].flatMap straight) ((datedFile mtime).after [changeCall]) :=
    AttrRun.reach_after [] changeCall .nil (by decide) ⟨nofun, nofun⟩ hrun
  exact AttrRun.reach_after [changeCall] statCall hchange (by decide)
    ⟨nofun, fun _ => .inr hdone⟩ hstat

theorem chtimes_stat_iff_near : ∃ info,
    (datedFile 1000000000).reported ((datedFile 1000000000).after [changeCall, statCall]) =
      some info ∧
      info.modTime = some 1000000000 := by
  have hreach : ((datedFile 1000000000).system fileKeeper).Reach _ _ _ :=
    reach_datedFile (by decide +kernel) (by decide +kernel) (by decide +kernel)
  obtain ⟨info, hinfo⟩ : ∃ info, (datedFile 1000000000).reported
      ((datedFile 1000000000).after [changeCall, statCall]) = some info :=
    Option.isSome_iff_exists.mp (by decide +kernel)
  have h :=
    chtimes_stat_iff (a := datedFile 1000000000) rfl (by decide +kernel) (by decide +kernel)
      ⟨rfl, rfl⟩ hreach
    (.inr (by decide +kernel)) hinfo
  exact ⟨info, hinfo, h.2.mpr ⟨by decide +kernel, by decide⟩⟩

/-- A file dated 2 ^ 31 seconds after the epoch of the protocol is said to be
2 ^ 32 seconds older. -/
theorem chtimes_wraps : ∃ s,
    ((datedFile (afpEpochDelta + 2 ^ 31)).system fileKeeper).Reach
      ((datedFile (afpEpochDelta + 2 ^ 31)).Orderly [ascii "a"])
        ([changeCall, statCall].flatMap straight) s ∧
    (datedFile (afpEpochDelta + 2 ^ 31)).ReturnedNil s ∧
    ((datedFile (afpEpochDelta + 2 ^ 31)).reported s).map FileInfo.modTime = some
      (some (afpEpochDelta - 2 ^ 31)) := by
  refine ⟨_, reach_datedFile ?_ ?_ ?_, .inr ?_, ?_⟩
  all_goals decide +kernel

theorem entryInfo_perm (name : Bytes) (e : DirEntry) : (entryInfo name e).mode &&& 0o777 =
    if e.unixPrivs.permissions &&& 0o777 = 0 then (if e.isDir then 0o755 else 0o644)
    else e.unixPrivs.permissions &&& 0o777 := by
  have htype (m : UInt32) :
      (if e.isSymlink then m ||| modeSymlink else if e.isDir then m ||| modeDir else m) &&& 0o777 =
        m &&& 0o777 := by
    have hsymlink : modeSymlink &&& 0o777 = 0 := by decide
    have hdir : modeDir &&& 0o777 = 0 := by decide
    split_ifs
    · rw [uint32_or_and, hsymlink, UInt32.or_zero]
    · rw [uint32_or_and, hdir, UInt32.or_zero]
    · rfl
  rw [entryInfo, htype]
  split_ifs
  · rfl
  · rfl
  · rw [UInt32.and_assoc, UInt32.and_self]

theorem chmodPrivs_perm (mode : UInt32) (e : UnixPrivs) :
    (chmodPrivs mode e).permissions &&& 0o777 = mode &&& 0o777 := by
  have hmask : (0o7777 : UInt32) &&& 0o777 = 0o777 := by decide
  rw [← hmask, ← UInt32.and_assoc, (chmodPrivs_bits mode e).1, UInt32.and_assoc]

/-- The owner, group and type of an object, which a change of mode leaves. -/
def SameOwner (x y : Bool × Params) : Prop :=
  y.1 = x.1 ∧ y.2.uid = x.2.uid ∧ y.2.gid = x.2.gid ∧
    y.2.permissions &&& sIFMT = x.2.permissions &&& sIFMT

theorem SameOwner.chmod {x y : Bool × Params} (h : SameOwner x y) (mode : UInt32) :
    SameOwner x (y.1, (AttrCall.chmod mode).apply y.2) :=
  ⟨h.1, h.2.1, h.2.2.1, (chmodPrivs_bits mode y.2.privs).2.trans h.2.2.2⟩

/-- A mode without permission bits is reported as the default of its kind. -/
theorem chmod_stat_iff {mode : UInt32} (hop : a.op = .chmod mode)
    (hunix : a.vol.supportsUnixPrivs = true) (hfits : (wirePath a.vol.nfd a.path).length < 65536)
    (hq : wireNames (wirePath a.vol.nfd a.path) = some q) (hpath : a.path ≠ [])
    (hinit : init.Serves a.vol) (h : (a.system init).Reach (a.Orderly q) tr s)
    (hdial : .mgr (.dialReturn probeCall false) ∉ tr) (hnil : a.ReturnedNil s)
    {info : FileInfo} (hinfo : a.reported s = some info) :
    (info.mode &&& 0o777 = mode &&& 0o777 ↔ mode &&& 0o777 ≠ 0) ∧
      ∃ x y, init.held q = some x ∧ s.world.keeper.held q = some y ∧ SameOwner x y := by
  have hset : a.Setting q fun y => ∃ x, init.held q = some x ∧ SameOwner x y := by
    refine ⟨hfits, hq, ?_⟩
    rintro y ⟨x, hx, hsame⟩
    rw [hop]
    exact ⟨x, hx, hsame.chmod mode⟩
  have hready : a.Ready q (fun y => ∃ x, init.held q = some x ∧ SameOwner x y) init :=
    ⟨hinit, fun x hx => ⟨x, hx, rfl, rfl, rfl, rfl⟩⟩
  have hreach := h.without hdial
  have hdone (tr : List (DoLabel RequestScript (Keeper → Keeper))) (s : DoState Scene)
      (h : (a.system init).Reach (fun s b => a.Orderly q s b ∧
        b ≠ .mgr (.dialReturn probeCall false)) tr s)
      (hnil : a.ReturnedNil s) : s.mgr.calls changeCall = .returned .ok := by
    have hnot : .mgr (.dialReturn probeCall false) ∉ tr := h.not_mem fun _ hok => hok.2 rfl
    rcases AttrRun.returnedNil_cases (fun _ _ hok => hok.1) h hnot hnil with ⟨-, hlacks⟩ | hdone
    · rw [hunix] at hlacks
      cases hlacks
    · exact hdone
  constructor
  · obtain ⟨z, -, rfl⟩ :=
      AttrRun.reported_made hset hready (fun _ _ hok => hok.1) hdone hreach hpath hinfo
    have hperm :
        (a.vol.entryOf (z.1, a.op.apply z.2)).unixPrivs.permissions &&& 0o777 = mode &&& 0o777 := by
      rw [entryOf_unixPrivs hunix, hop]
      exact chmodPrivs_perm mode z.2.privs
    rw [entryInfo_perm, hperm]
    by_cases hzero : mode &&& 0o777 = 0
    · rw [if_pos hzero, hzero]
      refine iff_of_false ?_ fun hne => hne rfl
      split_ifs <;> decide
    · rw [if_neg hzero]
      exact iff_of_true rfl hzero
  · have hcontract := AttrRun.change_contract hset hready fun (s : DoState Scene) b
      (hok : a.Orderly q s b ∧ b ≠ .mgr (.dialReturn probeCall false)) => hok.1
    obtain ⟨-, y, ⟨x, hx, hsame⟩, hheld⟩ := (hcontract.keeping hreach).2 (hdone tr s hreach hnil)
    rw [hop] at hheld
    exact ⟨x, _, hx, hheld, hsame.chmod mode⟩

theorem reach_modeFile_stat {mode : UInt32}
    (hrun : (((modeFile mode).system fileKeeper).exec ((modeFile mode).after [probeCall])
      (straight changeCall)).isSome)
    (hdone : ((modeFile mode).after [probeCall, changeCall]).mgr.calls changeCall = .returned .ok)
    (hstat :
      (((modeFile mode).system fileKeeper).exec ((modeFile mode).after [probeCall, changeCall])
      (straight statCall)).isSome) :
    ((modeFile mode).system fileKeeper).Reach ((modeFile mode).Orderly [ascii "a"])
      ([probeCall, changeCall, statCall].flatMap straight)
        ((modeFile mode).after [probeCall, changeCall, statCall]) :=
  AttrRun.reach_after [probeCall, changeCall] statCall (reach_modeFile hrun) (by decide)
    ⟨nofun, fun _ => .inr hdone⟩ hstat

theorem chmod_stat_iff_private : ∃ info,
    (modeFile 0o600).reported ((modeFile 0o600).after [probeCall, changeCall, statCall]) =
      some info ∧
      info.mode &&& 0o777 = 0o600 := by
  have hreach : ((modeFile 0o600).system fileKeeper).Reach _ _ _ :=
    reach_modeFile_stat (by decide +kernel) (by decide +kernel) (by decide +kernel)
  obtain ⟨info, hinfo⟩ : ∃ info, (modeFile 0o600).reported
      ((modeFile 0o600).after [probeCall, changeCall, statCall]) = some info :=
    Option.isSome_iff_exists.mp (by decide +kernel)
  have h :=
    chmod_stat_iff (a := modeFile 0o600) rfl (by decide) (by decide +kernel) (by decide +kernel)
      (by decide +kernel)
    ⟨rfl, rfl⟩ hreach (by simp [straight]) (.inr (by decide +kernel)) hinfo
  exact ⟨info, hinfo, h.1.mpr (by decide)⟩

/-- A file that is closed to all is said to be readable by all. -/
theorem chmod_none : ∃ s,
    ((modeFile 0).system fileKeeper).Reach ((modeFile 0).Orderly [ascii "a"])
      ([probeCall, changeCall, statCall].flatMap straight) s ∧
    .mgr (.dialReturn probeCall false) ∉ [probeCall, changeCall, statCall].flatMap straight ∧
    (modeFile 0).ReturnedNil s ∧ ((modeFile 0).reported s).map FileInfo.mode = some 0o644 := by
  refine ⟨_, reach_modeFile_stat ?_ ?_ ?_, by simp [straight], .inr ?_, ?_⟩
  all_goals decide +kernel

end Results

end GoAfp
