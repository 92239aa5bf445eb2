import GoAfp.BridgeCalls

/-! Calls that must create an object: `OpenFile` with `O_CREATE` and `O_EXCL`,
which `TempFile` is, and `Symlink`. As long as nobody removes the object, one of
them at most succeeds, although replies are lost and closures run again. -/

namespace GoAfp

/-- The name in a request to create a file that is not there. -/
def softCreate (block : Bytes) : Option Bytes :=
  if block.headD 0 = cmdCreateFile then
    match Reader.parse (readPathCall 0) block with
    | .ok call => if call.flag = createHard then none else some call.path
    | .error _ => none
  else none

/-- An answer that the object `q` has been created. -/
def Created (q : Path) (block : Bytes) (r : Answer) : Prop :=
  (∃ w, softCreate block = some w ∧ named w = .ok q) ∧ ∃ payload, r = .ok (payload, resNoErr)

theorem softCreate_createFileBlock (v : AfpVolume) (path : Bytes) :
    softCreate (v.createFileBlock rootDirID path false) = some (sentPath v.nfd path) := by
  have hparse : Reader.parse (readPathCall 0) (v.createFileBlock rootDirID path false) =
      .ok ⟨createSoft, v.id, rootDirID, [], kFPUTF8Name, sentPath v.nfd path⟩ := by
    rw [createFileBlock_eq]
    exact parse_pathCall cmdCreateFile createSoft v.id rootDirID []
      (sentPath_length_lt v.nfd path) rfl _
  have hhead : (v.createFileBlock rootDirID path false).headD 0 = cmdCreateFile := rfl
  rw [softCreate, if_pos hhead, hparse]
  rfl

/-- The server says that it has created an object only if it was not there. -/
theorem receive_softCreate {site : Site} {s : VolServer} {block w : Bytes} {q : Path}
    (hblock : softCreate block = some w) (hw : named w = .ok q)
    (hcode : (site.receive s block).1.2 = resNoErr) :
    s.tree.find q = none ∧ ((site.receive s block).2.tree.find q).isSome := by
  unfold softCreate at hblock
  split_ifs at hblock with hhead
  have hdecode : site.decode block = _ := Site.decode_createFile hhead
  unfold Site.pathCall at hdecode
  generalize Reader.parse (readPathCall 0) block = r at hblock hdecode
  cases r with
  | error e => cases hblock
  | ok call =>
    simp only at hblock hdecode
    split_ifs at hblock with hflag
    cases hblock
    by_cases hknows : site.knows call
    · rw [if_pos hknows] at hdecode
      rw [Site.receive_vol hdecode fun _ _ => Request.noConfusion] at hcode ⊢
      have hhandle : s.handle (.createFile (decide (call.flag = createHard)) call.path) =
          s.tree.createFile false q >>= fun t => pure ({}, { s with tree := t }) := by
        simp only [VolServer.handle, hw, decide_eq_false hflag]
        rfl
      rw [VolServer.serve, hhandle] at hcode ⊢
      cases hcreate : s.tree.createFile false q with
      | error e =>
        rw [hcreate] at hcode
        exact absurd hcode e.code_ne_noErr
      | ok t =>
        obtain ⟨dir, x, a, es, hq, hdir, hnone, rfl⟩ := VTree.createFile_ok hcreate
        refine ⟨hnone, ?_⟩
        rw [leafOf_eq_some hq]
        show ((s.tree.set dir x (some (.file newFile))).find (dir ++ [x])).isSome
        rw [Tree.find_set_leaf hdir]
        rfl
    · rw [if_neg hknows] at hdecode
      rw [Site.receive, hdecode] at hcode
      have hparam : resParamErr = resNoErr := hcode
      exact absurd hparam (by decide)

namespace Bridge

open Job

variable (b : Bridge)

/-- The call succeeds only if it creates `q`. -/
def Exclusive (q : Path) (g : Nat) : Prop :=
  match b.ops g with
  | .openFile filename flag => flag.create = true ∧ flag.excl = true ∧
    ∀ d, named (sentPath (b.vol d).nfd (b.fs.resolve filename)) = .ok q
  | .symlink _ link => ∀ d, named (sentPath (b.vol d).nfd (b.fs.resolve link)) = .ok q
  | _ => False

variable {b} {q : Path}

theorem earns_createFile {L : Type} {v : AfpVolume} {path : Bytes}
    (h : named (sentPath v.nfd path) = .ok q) :
    (Requests.createFile v path false : VolJob L AfpErr Unit).Earns (Created q) := by
  intro l r
  rcases r with e | ⟨payload, code⟩
  · exact .inr fun hok => Bool.noConfusion hok
  · by_cases hcode : code = resNoErr
    · exact .inl ⟨⟨_, softCreate_createFileBlock v path, h⟩, payload, by rw [hcode]⟩
    · right
      show Prog.Earns _ _ (.ret (resultErr _ code, l))
      rw [resultErr, if_neg hcode]
      exact fun hok => Bool.noConfusion hok

theorem earns_createStep {v : AfpVolume} {path filename : Bytes} {flag : OpenFlags}
    (hcreate : flag.create = true) (hexcl : flag.excl = true)
    (h : named (sentPath v.nfd path) = .ok q) :
    (Requests.createStep v path filename flag).Earns (Created q) := by
  rw [Requests.createStep, if_pos hcreate]
  apply (earns_createFile h).observe_bind
  intro e
  simp only [if_pos hexcl]
  split
  · exact Earns.throw _
  · exact Earns.throw _

theorem earns_body {g : Nat} (hg : b.Exclusive q g) (d : Nat) : (b.body g d).Earns (Created q) := by
  apply Earns.bind
  cases hop : b.ops g with
  | openFile filename flag =>
    simp only [Exclusive, hop] at hg
    simp only [closure, hop]
    obtain ⟨hcreate, hexcl, hname⟩ := hg
    apply Earns.adapt
    apply Earns.zoom
    exact (earns_createStep hcreate hexcl (hname d)).bind _
  | symlink target link =>
    simp only [Exclusive, hop] at hg
    simp only [closure, hop]
    apply Earns.adapt
    exact (earns_createFile (hg d)).bind _
  | _ =>
    simp only [Exclusive, hop] at hg

end Bridge

section Record

variable {b : Bridge} {q : Path}

/-- Nobody removes the object `q`. -/
def Stays (b : Bridge) (q : Path) (s : Mount Bytes Answer CallVars BridgeErr Nat Share)
    (a : MountLabel RequestFate (VTree → VTree)) : Prop :=
  ∀ t, s.step b.workload b.backend a = some t → (s.world.tree.find q).isSome →
    (t.world.tree.find q).isSome

instance (b : Bridge) (q : Path) (s : Mount Bytes Answer CallVars BridgeErr Nat Share)
    (a : MountLabel RequestFate (VTree → VTree)) : Decidable (Stays b q s a) :=
  decidable_of_iff ((s.step b.workload b.backend a).all (fun t =>
      !(s.world.tree.find q).isSome || (t.world.tree.find q).isSome) = true) (by
    rw [Option.all_eq_true]
    simp only [Stays, Bool.or_eq_true, Bool.not_eq_true', ← Bool.not_eq_true, ← imp_iff_not_or])

/-- One answer at most says that `q` has been created, and then it is there. -/
structure CreatedOnce (q : Path) (s : Mount Bytes Answer CallVars BridgeErr Nat Share) : Prop where
  once : s.log.Pairwise fun x y => ¬ (Created q x.2.1 x.2.2 ∧ Created q y.2.1 y.2.2)
  present : ∀ x ∈ s.log, Created q x.2.1 x.2.2 → (s.world.tree.find q).isSome

theorem serve_created {fate : RequestFate} {o d : Nat} {block : Bytes} {s : Share}
    (h : Created q block (b.serve fate o d block s).1) :
    s.tree.find q = none ∧ ((b.serve fate o d block s).2.tree.find q).isSome := by
  obtain ⟨⟨w, hblock, hw⟩, payload, hr⟩ := h
  cases fate with
  | unanswered applied err => cases hr
  | answered refusal =>
    cases refusal with
    | some code => exact absurd (Prod.mk.inj (Except.ok.inj hr)).2 code.property
    | none => exact receive_softCreate hblock hw (congrArg Prod.snd (Except.ok.inj hr))

theorem CreatedOnce.step {s t : Mount Bytes Answer CallVars BridgeErr Nat Share}
    {a : MountLabel RequestFate (VTree → VTree)} (h : CreatedOnce q s) (ha : Stays b q s a)
    (hs : s.step b.workload b.backend a = some t) : CreatedOnce q t := by
  have hpresent : ∀ x ∈ s.log, Created q x.2.1 x.2.2 → (t.world.tree.find q).isSome :=
    fun x hx hc => ha t hs (h.present x hx hc)
  cases Mount.fires_of_step hs with
  | @ask g w d i k hrun =>
    constructor
    · refine List.pairwise_append.mpr ⟨h.once, List.pairwise_singleton _ _, fun x hx y hy => ?_⟩
      rw [List.mem_singleton] at hy
      subst hy
      rintro ⟨hold, hnew⟩
      have hnone := (serve_created hnew).1
      have hsome := h.present x hx hold
      rw [hnone] at hsome
      cases hsome
    · intro x hx hc
      rcases List.mem_append.mp hx with hx | hx
      · exact hpresent x hx hc
      · rw [List.mem_singleton] at hx
        subst hx
        exact (serve_created hc).2
  | _ => exact ⟨h.once, hpresent⟩

end Record

/-- However the requests of the calls come, are lost or are sent again, of all
calls on a mount that must create one object at most one succeeds, as long as
nobody removes the object. -/
theorem exclusive_create_once {b : Bridge} {q : Path} {tree : VTree}
    {tr : List (MountLabel RequestFate (VTree → VTree))}
    {s : Mount Bytes Answer CallVars BridgeErr Nat Share}
    (h : (b.system tree).Reach (Stays b q) tr s) :
    {g | b.Exclusive q g ∧ s.mgr.calls g = .returned .ok}.Subsingleton := by
  rintro g ⟨hg, hgret⟩ k ⟨hk, hkret⟩
  have honce : CreatedOnce q s := by
    refine h.invariant ⟨List.Pairwise.nil, fun x hx => ?_⟩ fun hi ha hs => hi.step ha hs
    cases hx
  obtain ⟨i, r, hi, hwon⟩ := Mount.won_of_returned (fun d l => Bridge.earns_body hg d l) h hgret
  obtain ⟨j, t, hj, hwon'⟩ := Mount.won_of_returned (fun d l => Bridge.earns_body hk d l) h hkret
  by_contra hne
  have hdistinct : (g, i, r) ≠ (k, j, t) := fun he => hne (Prod.mk.inj he).1
  have hsymm : Std.Symm fun x y : Nat × Bytes × Answer =>
      ¬ (Created q x.2.1 x.2.2 ∧ Created q y.2.1 y.2.2) :=
    ⟨fun x y hxy hyx => hxy hyx.symm⟩
  exact honce.once.forall hi hj hdistinct ⟨hwon, hwon'⟩

/-- Two calls that must create one file. -/
def racingBridge : Bridge where
  fs := ⟨[]⟩
  volume := fun _ => plainVolume
  site := fun _ => plainSite
  ops := fun _ => .openFile (ascii "n") { rdwr := true, create := true, excl := true }
  sched := fun _ _ => inOrder

/-- The link dies before the second call's request is answered, and the request
that it sends again is too late. -/
def createRace : List (MountLabel RequestFate (VTree → VTree)) :=
  [.mgr (.sample 0), .mgr (.sample 1), .ask 0 (.answered none), .ask 0 (.answered none), .finish 0,
    .ask 1 (.unanswered false .cancelled), .finish 1, .mgr (.linkDies 0), .mgr (.check 1),
      .mgr (.reconnect 1),
    .mgr (.dialReturn 1 true), .mgr (.reread 1), .ask 1 (.answered none), .finish 1]

theorem exclusive_create_once_race :
    ∃ s, (racingBridge.system fileServer.tree).Reach (Stays racingBridge [ascii "n"]) createRace s ∧
    (∀ g, racingBridge.Exclusive [ascii "n"] g) ∧ s.mgr.calls 0 = .returned .ok ∧
      s.mgr.calls 1 ≠ .returned .ok := by
  have hexec :
      (((racingBridge.system fileServer.tree).exec
        (racingBridge.system fileServer.tree).init createRace).map
      fun s => s.mgr.calls 0) = some (.returned .ok) := by
    decide +kernel
  have hadmits : (racingBridge.system fileServer.tree).Admits (Stays racingBridge [ascii "n"])
      (racingBridge.system fileServer.tree).init createRace := by
    decide +kernel
  obtain ⟨s, hs, hret⟩ := Option.map_eq_some_iff.mp hexec
  have hreach := System.Reach.nil.exec hadmits hs
  have hname : named (sentPath id ((FS.mk []).resolve (ascii "n"))) = .ok [ascii "n"] := by
    decide +kernel
  have hexclusive (g : Nat) : racingBridge.Exclusive [ascii "n"] g := ⟨rfl, rfl, fun _ => hname⟩
  refine ⟨s, hreach, hexclusive, hret, fun hret' => ?_⟩
  exact absurd (exclusive_create_once hreach ⟨hexclusive 0, hret⟩ ⟨hexclusive 1, hret'⟩) (by decide)

end GoAfp
