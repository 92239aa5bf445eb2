import GoAfp.FileRefine
import GoAfp.OpenFile

/-! What `OpenFile` hands out: a file whose fork is open on the connection of
the run that succeeded, with the length of the fork as its size. -/

namespace GoAfp

open Proc

section Inversion

variable {h h' : Host}

theorem Host.command_ok {block : Bytes} {r : Bytes × Result}
    (hon : (Host.command block).on h = (.ok r, h')) :
    Host.answer h.site h.codes h.srv block = (r, h'.srv) := by
  have hsend : h.send block = (.ok r, h') := hon
  obtain ⟨hfate, hr⟩ := Fate.answered_of_ok (congrArg Prod.fst hsend)
  have hsrv := congrArg (fun x => x.2.srv) hsend
  simp only [Host.send, hfate] at hsrv
  exact Prod.ext (Except.ok.inj hr) hsrv

theorem Host.answer_ok {site : Site} {codes : List (Option ErrCode)} {s s' : VolServer}
    {block payload : Bytes} (h : Host.answer site codes s block = ((payload, resNoErr), s')) :
    site.receive s block = ((payload, resNoErr), s') := by
  by_cases hcode : codes.headD none = none
  · rwa [Conduct.answer_served hcode] at h
  · exact absurd (congrArg (fun x => x.1.2) h) (Conduct.answer_refused hcode s block).1

theorem Host.codeOnly_ok {op : String} {block : Bytes}
    (hon : (codeOnly Host.command op block).on h = (.ok (), h')) :
    ∃ payload, h.site.receive h.srv block = ((payload, resNoErr), h'.srv) := by
  obtain ⟨⟨payload, code⟩, mid, hcommand, hcode⟩ := ok_of_on_bind hon
  have hanswer := Host.command_ok hcommand
  rw [on_lift] at hcode
  obtain ⟨hresult, rfl⟩ := Prod.mk.inj hcode
  rw [resultErr_eq_ok.mp hresult] at hanswer
  exact ⟨payload, Host.answer_ok hanswer⟩

end Inversion

/-- The fork `o` is open on the file `d` at `p`, on a connection of generation
`gen`. -/
structure ForkOn (gen : Nat) (o : OpenFork) (p : Path) (d : FileData) (s : VolServer) : Prop where
  file : s.tree.find p = some (.file d)
  opened : ∃ write, s.forks.lookup o.id = some ⟨p, write⟩
  id_lt : o.id < 65536
  vol : o.vol = gen

section Steps

variable {v : AfpVolume} {path filename : Bytes} {flag : OpenFlags} {h h' : Host}

theorem openForkMode_ok {mode : UInt16} {o : OpenFork} (hvol : h.site.volID = v.id)
    (hdirID : h.site.dirID = rootDirID)
    (hon : (v.openForkMode rootDirID path mode).on h = (.ok o, h')) :
    ∃ p d, named (sentPath v.nfd path) = .ok p ∧ ForkOn v.gen o p d h'.srv ∧
      o.size = (UInt64.ofNat d.content.length).toNat := by
  obtain ⟨⟨payload, code⟩, mid, hcommand, hrest⟩ := ok_of_on_bind hon
  have hanswer := Host.command_ok hcommand
  obtain ⟨u, mid', hcode, hrest⟩ := ok_of_on_bind hrest
  rw [on_lift] at hcode
  obtain ⟨hresult, rfl⟩ := Prod.mk.inj hcode
  have hok : code = resNoErr := resultErr_eq_ok.mp hresult
  subst hok
  have hreceive := Host.answer_ok hanswer
  rw [Site.receive_of_decode (decode_openForkBlock hvol hdirID path mode), Site.respond] at hreceive
  rcases Site.openFork_cases h.srv (mode &&& forkWrite ≠ 0) (sentPath v.nfd path) with
    ⟨hno, -⟩ | ⟨id, p, d, hid, hp, hd, hopen⟩
  · exact absurd (congrArg (fun x => x.1.2) hreceive) hno
  · rw [hopen] at hreceive
    obtain ⟨hpayload, hsrv⟩ := Prod.mk.inj hreceive
    obtain ⟨rfl, -⟩ := Prod.mk.inj hpayload
    simp only [openForkReply_ok] at hrest
    cases hrest
    refine ⟨p, d, hp, ⟨?_, ⟨mode &&& forkWrite ≠ 0, ?_⟩, UInt16.toNat_lt _, rfl⟩, rfl⟩
    · rw [← hsrv]
      exact hd
    · rw [← hsrv, toNat_forkID hid]
      exact List.lookup_cons_self

theorem truncate_ok {gen : Nat} {o : OpenFork} {p : Path} {d : FileData}
    (ho : ForkOn gen o p d h.srv) (hon : (Host.truncate o 0).on h = (.ok (), h')) :
    ForkOn gen o p { d with content := [] } h'.srv := by
  obtain ⟨payload, hreceive⟩ := Host.codeOnly_ok hon
  rw [Site.receive_vol (decode_truncateBlock _ 0) fun _ _ => Request.noConfusion,
    toNat_forkID ho.id_lt] at hreceive
  rw [VolServer.serve] at hreceive
  cases hh : h.srv.handle (.setForkLen o.id (File.truncateLen 0)) with
  | error r =>
    rw [hh] at hreceive
    exact absurd (congrArg (fun x => x.1.2) hreceive) r.code_ne_noErr
  | ok r =>
    obtain ⟨info, s'⟩ := r
    rw [hh] at hreceive
    have hsrv : s' = h'.srv := congrArg Prod.snd hreceive
    obtain ⟨hedit, htree⟩ := VolServer.setTree_ok hh
    obtain ⟨write, hopened⟩ := ho.opened
    rw [VolServer.editFork, hopened] at hedit
    simp only at hedit
    split_ifs at hedit
    obtain ⟨d', hd', hfind⟩ := VTree.find_editFile hedit
    cases ho.file.symm.trans hd'
    have hempty : setLength 0 d.content (File.truncateLen 0) = [] :=
      List.eq_nil_of_length_eq_zero (length_setLength d.content 0)
    rw [hempty] at hfind
    rw [← hsrv]
    refine ⟨hfind, ⟨write, ?_⟩, ho.id_lt, ho.vol⟩
    rw [htree]
    exact hopened

/-- The file's fork is open on what is at `p`, and its size is the length that
the server gave, as a signed integer. -/
structure File.OpenOn (f : File) (gen : Nat) (p : Path) (s : VolServer) : Prop where
  fork : ∃ o d, f.fork = some o ∧ ForkOn gen o p d s ∧
    f.size = wrap64 (UInt64.ofNat d.content.length).toNat
  forkVol : f.forkVol = some gen

theorem truncateStep_ok {f f' : File} {o : OpenFork} {p : Path} {d : FileData}
    (ho : ForkOn v.gen o p d h.srv) (hfork : f.fork = some o) (hvol : f.forkVol = some v.gen)
    (hsize : f.size = wrap64 (UInt64.ofNat d.content.length).toNat)
    (hon : (v.forkOps.truncateStep filename flag o).on (f, h) = (.ok (), f', h')) :
    f'.OpenOn v.gen p h'.srv ∧ f'.cursor = f.cursor := by
  rw [ForkOps.truncateStep] at hon
  split_ifs at hon with hflag
  · rw [on_bind_ok (on_observe _ _), onConn_on] at hon
    rcases htr : (Host.truncate o 0).on h with ⟨e | ⟨⟩, mid⟩
    · have hfail : (v.forkOps.truncate o 0).on h = (.error e, mid) := htr
      simp only [hfail] at hon
      cases hon
    · have hdone : (v.forkOps.truncate o 0).on h = (.ok (), mid) := htr
      simp only [hdone] at hon
      cases hon
      have hzero : wrap64 (UInt64.ofNat 0).toNat = 0 := by decide
      exact ⟨⟨⟨o, _, hfork, truncate_ok ho htr, hzero.symm⟩, hvol⟩, rfl⟩
  · cases hon
    exact ⟨⟨⟨o, d, hfork, ho, hsize⟩, hvol⟩, rfl⟩

theorem forkStep_ok {f f' : File} (hvol : h.site.volID = v.id) (hdirID : h.site.dirID = rootDirID)
    (hf : f.forkVol ≠ some v.gen)
    (hon : (v.forkOps.forkStep path filename flag).on (f, h) = (.ok (), f', h')) :
    ∃ p, named (sentPath v.nfd path) = .ok p ∧ f'.OpenOn v.gen p h'.srv ∧ f'.cursor = f.cursor := by
  rw [ForkOps.forkStep, on_bind_ok (on_observe _ _), openOn_stale hf] at hon
  rcases hopen : (v.openForkMode rootDirID path (openMode flag.writable)).on h with ⟨e | o, mid⟩
  · rw [hopen] at hon
    cases hon
  · rw [hopen] at hon
    obtain ⟨p, d, hp, ho, hsize⟩ := openForkMode_ok hvol hdirID hopen
    have hrun := (on_bind_ok (inFile_on _ _)).symm.trans hon
    obtain ⟨hopened, hcursor⟩ := truncateStep_ok
      (f := { f with fork := some o, forkVol := some v.gen, size := wrap64 o.size }) ho rfl rfl
        (by rw [hsize]) hrun
    exact ⟨p, hp, hopened, hcursor⟩

theorem createStep_keeps (v : AfpVolume) (path filename : Bytes) (flag : OpenFlags) (f : File)
    (site : Site) :
    Keeps (fun s : File × Host => s.1 = f ∧ s.2.site = site)
      (v.forkOps.createStep path filename flag) := by
  have hcreate : Keeps (fun h : Host => h.site = site) (v.forkOps.createFile path false) :=
    Keeps.bind (fun _ hs => hs) fun r => Keeps.lift _
  rw [ForkOps.createStep]
  by_cases hflag : flag.create = true
  · rw [if_pos hflag]
    refine Keeps.bind (Keeps.observe fun s hs => ⟨hs.1, hcreate s.2 hs.2⟩) fun r => ?_
    cases r with
    | ok u => exact Keeps.pure _
    | error e =>
      simp only
      split
      · split
        · exact fun _ hs => hs
        · exact Keeps.pure _
      · exact fun _ hs => hs
  · rw [if_neg hflag]
    exact Keeps.pure _

theorem openBody_ok {f f' : File} (hvol : h.site.volID = v.id) (hdirID : h.site.dirID = rootDirID)
    (hf : f.forkVol ≠ some v.gen)
    (hon : (v.forkOps.openBody path filename flag).on (f, h) = (.ok (), f', h')) :
    ∃ p, named (sentPath v.nfd path) = .ok p ∧ f'.OpenOn v.gen p h'.srv ∧ f'.cursor = f.cursor := by
  obtain ⟨u, mid, hcreate, hfork⟩ := ok_of_on_bind hon
  obtain ⟨hfile, hsite⟩ := createStep_keeps v path filename flag f h.site (f, h) ⟨rfl, rfl⟩
  rw [hcreate] at hfile hsite
  obtain ⟨f₀, h₀⟩ := mid
  simp only at hfile hsite
  subst hfile
  rw [← hsite] at hvol hdirID
  exact forkStep_ok hvol hdirID hf hfork

/-- The file as the runs of `OpenFile` may leave it. -/
def File.Unmoved (gen : Nat) (f : File) : Prop :=
  f.cursor = 0 ∧ (f.forkVol = none ∨ f.forkVol = some gen)

theorem File.Unmoved.setSize {gen : Nat} {f : File} (hf : f.Unmoved gen) (size : Int) :
    ({ f with size := size } : File).Unmoved gen :=
  hf

theorem File.Unmoved.stale {gen gen' : Nat} {f : File} (hf : f.Unmoved gen) (hgen : gen' ≠ gen) :
    f.forkVol ≠ some gen' := by
  rcases hf.2 with hvol | hvol
  · rw [hvol]
    exact fun heq => by cases heq
  · rw [hvol]
    exact fun heq => hgen (Option.some.inj heq).symm

theorem inFile_keeps {σ ε : Type} {P : File → Prop} {k : File → File} (hk : ∀ f, P f → P (k f)) :
    Keeps (fun s : File × σ => P s.1) (inFile k : Proc (File × σ) ε Unit) :=
  Keeps.modify fun s hs => hk s.1 hs

theorem openOn_keeps :
    Keeps (fun s : File × Host => s.1.Unmoved v.gen) (v.forkOps.openOn path flag.writable) := by
  have hreopen : Keeps (fun s : File × Host => s.1.Unmoved v.gen)
      (v.forkOps.reopen path flag.writable) :=
    Keeps.bind (fun _ hs => hs) fun o =>
      Keeps.bind (inFile_keeps fun _ hf => ⟨hf.1, Or.inr rfl⟩) fun _ => Keeps.pure o
  exact ForkOps.keeps_openOn hreopen

theorem truncateStep_keeps (o : OpenFork) :
    Keeps (fun s : File × Host => s.1.Unmoved v.gen) (v.forkOps.truncateStep filename flag o) := by
  rw [ForkOps.truncateStep]
  split
  · refine Keeps.bind (Keeps.observe fun _ hs => hs) fun r => ?_
    cases r with
    | error e => exact fun _ hs => hs
    | ok u => exact inFile_keeps fun _ hf => hf.setSize 0
  · exact Keeps.pure _

theorem openBody_keeps :
    Keeps (fun s : File × Host => s.1.Unmoved v.gen) (v.forkOps.openBody path filename flag) := by
  refine Keeps.bind (fun s hs => ?_) fun _ => Keeps.bind (Keeps.observe openOn_keeps) fun r => ?_
  · obtain ⟨hfile, -⟩ := createStep_keeps v path filename flag s.1 s.2.site s ⟨rfl, rfl⟩
    rw [hfile]
    exact hs
  · cases r with
    | error e => exact fun _ hs => hs
    | ok o => exact Keeps.bind (inFile_keeps fun _ hf => hf.setSize _) fun _ => truncateStep_keeps o

end Steps

/-- The server knows the volume in both runs of `do`, and the second is on a
connection of its own. -/
structure HostNet.Reaches (net : HostNet) (v : AfpVolume) : Prop where
  volID : net.conduct.site.volID = v.id
  dirID : net.conduct.site.dirID = rootDirID
  volID_again : net.again.site.volID = v.id
  dirID_again : net.again.site.dirID = rootDirID
  fresh : net.newGen ≠ v.gen

theorem Conduct.attempt_openBody {c : Conduct} {v : AfpVolume} {path filename : Bytes}
    {flag : OpenFlags} {f f' : File} {s s' : VolServer} (hvol : c.site.volID = v.id)
    (hdirID : c.site.dirID = rootDirID) (hf : f.forkVol ≠ some v.gen)
    (h : c.attempt (v.forkOps.openBody path filename flag) (f, s) = (none, f', s')) :
    ∃ p, named (sentPath v.nfd path) = .ok p ∧ f'.OpenOn v.gen p s' ∧ f'.cursor = f.cursor := by
  rcases hon : (v.forkOps.openBody path filename flag).on (f, c.host s) with ⟨e | ⟨⟩, f₁, h₁⟩
  · simp only [attempt, hon] at h
    cases h
  · simp only [attempt, hon] at h
    cases h
    exact openBody_ok hvol hdirID hf hon

theorem FS.openFileOn_ok (fs : FS) {net : HostNet} {v : AfpVolume} (hnet : net.Reaches v)
    {filename : Bytes} {flag : OpenFlags} {s s' : VolServer} {f : File}
    (h : fs.openFileOn net v filename flag s = (.ok f, s')) :
    ∃ gen p, named (sentPath v.nfd (fs.resolve filename)) = .ok p ∧ f.OpenOn gen p s' ∧
      (f.cursor = 0 ∨ f.cursor = f.size) := by
  obtain ⟨f₀, hdo, hf⟩ :
      ∃ f₀, net.do v (fun v => v.forkOps.openBody (fs.resolve filename) filename flag) ({}, s) =
      (none, f₀, s') ∧ f = if flag.append then { f₀ with cursor := f₀.size } else f₀ := by
    rw [openFileOn] at h
    split at h
    · cases h
    · rename_i f₀ srv hdo
      cases h
      exact ⟨f₀, hdo, rfl⟩
  have hopened : ∃ gen p, named (sentPath v.nfd (fs.resolve filename)) = .ok p ∧
      f₀.OpenOn gen p s' ∧ f₀.cursor = 0 := by
    rcases doRetry_eq (net.conduct.attempt (v.forkOps.openBody (fs.resolve filename) filename flag))
      (fun s => net.again.attempt (({ v with gen := net.newGen, quantum := net.newQuantum } :
        AfpVolume).forkOps.openBody (fs.resolve filename) filename flag)
          (s.1, s.2.reconnected)) net.alive ({}, s) with
      hrun | hrun
    · exact ⟨v.gen, Conduct.attempt_openBody hnet.volID hnet.dirID (by simp) (hrun.symm.trans hdo)⟩
    · have hfirst : File.Unmoved v.gen
          (net.conduct.attempt (v.forkOps.openBody (fs.resolve filename) filename flag)
            ({}, s)).2.1 :=
        openBody_keeps ({}, net.conduct.host s) ⟨rfl, Or.inl rfl⟩
      obtain ⟨p, hp, hon, hsame⟩ :=
        Conduct.attempt_openBody (v := { v with gen := net.newGen, quantum := net.newQuantum })
        hnet.volID_again hnet.dirID_again (hfirst.stale hnet.fresh) (hrun.symm.trans hdo)
      exact ⟨net.newGen, p, hp, hon, hsame.trans hfirst.1⟩
  obtain ⟨gen, p, hp, hon, hcursor⟩ := hopened
  subst hf
  split_ifs
  · exact ⟨gen, p, hp, ⟨hon.fork, hon.forkVol⟩, Or.inr rfl⟩
  · exact ⟨gen, p, hp, hon, Or.inl hcursor⟩

/-- The server as a file sees it once it is open: the contents at the path, and
the connection on which the file was opened. -/
def VolServer.forkServer (s : VolServer) (wire : Bytes) (f : File) : ForkServer where
  content := match named wire with
    | .ok p => match s.tree.find p with
      | some (.file d) => d.content
      | _ => []
    | .error _ => []
  opened := f.forkVol.toList

theorem FS.openFileOn_held (fs : FS) {net : HostNet} {v : AfpVolume} (hnet : net.Reaches v)
    {filename : Bytes} {flag : OpenFlags} {s s' : VolServer} {f : File}
    (h : fs.openFileOn net v filename flag s = (.ok f, s'))
    (hlen : (s'.forkServer (sentPath v.nfd (fs.resolve filename)) f).content.length ≤ maxForkLen) :
    f.Held (s'.forkServer (sentPath v.nfd (fs.resolve filename)) f) ∧
      f.size = (s'.forkServer (sentPath v.nfd (fs.resolve filename)) f).content.length ∧
      (f.cursor = 0 ∨ f.cursor = f.size) := by
  obtain ⟨gen, p, hp, ⟨⟨o, d, hfork, ho, hsize⟩, hvol⟩, hcursor⟩ := fs.openFileOn_ok hnet h
  have hsrv : s'.forkServer (sentPath v.nfd (fs.resolve filename)) f = ⟨d.content, [gen]⟩ := by
    simp only [VolServer.forkServer, hp, ho.file, hvol, Option.toList_some]
  rw [hsrv] at hlen ⊢
  have hlt : d.content.length < 2 ^ 63 := by
    have hle : d.content.length ≤ maxForkLen := hlen
    rw [maxForkLen] at hle
    omega
  refine ⟨fun o' ho' => ?_, ?_, hcursor⟩
  · cases hfork.symm.trans ho'
    rw [ho.vol]
    exact ⟨hvol, List.mem_singleton_self gen⟩
  · rw [hsize, UInt64.toNat_ofNat_of_lt' (lt_trans hlt (by decide))]
    exact wrap64_of_nonneg (Int.natCast_nonneg _) (Int.ofNat_le.mpr hlen)

end GoAfp
