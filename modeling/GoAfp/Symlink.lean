import GoAfp.CreateRetry
import GoAfp.HostRules

/-! Symlinks: what a failed `Symlink` leaves behind, and what `ReadLink` and
`Stat` say of a link that was made. -/

namespace GoAfp

open Proc

namespace Conduct

/-- The next `n` requests are answered and none is refused. -/
def AcceptsNext (c : Conduct) : Nat → Prop
  | 0 => True
  | n + 1 => c.Accepts ∧ c.tail.AcceptsNext n

instance (c : Conduct) (n : Nat) : Decidable (c.AcceptsNext n) :=
  match n with
  | 0 => inferInstanceAs (Decidable True)
  | n + 1 =>
    have := instDecidableAcceptsNext c.tail n
    inferInstanceAs (Decidable (_ ∧ _))

/-- The file can be created, and the server does so. -/
def Creates (c : Conduct) (v : AfpVolume) (link : Bytes) (s : VolServer) : Prop :=
  c.Accepts ∧ ∃ t, (named (sentPath v.nfd link) >>= s.tree.createFile false) = .ok t

/-- All that `Symlink` asks for once the file is there. -/
structure Fills (c : Conduct) (v : AfpVolume) (forks : List (Nat × ForkRef)) (target : Bytes) :
    Prop where
  free : (freeFork forks 65536 0).isSome
  accepts : c.AcceptsNext 3
  serves : c.Serves ((defaultFork v.quantum).pieces target)

end Conduct

namespace AfpVolume

def fillLink (v : AfpVolume) (dirID : UInt32) (link target : Bytes) : Proc Host AfpErr Unit := do
  let o ← v.openForkRW dirID link
  writeOrClose o target
  Host.close o
  v.setFinderInfo Host.command dirID link symlinkFinderInfo

theorem symlink_eq (v : AfpVolume) (dirID : UInt32) (link target : Bytes) :
    v.symlink dirID link target =
    v.createFile Host.command dirID link false >>= fun _ => v.fillLink dirID link target := rfl

end AfpVolume

theorem filter_ne_of_lookup {forks : List (Nat × ForkRef)} {id : Nat} (h : forks.lookup id = none) :
    forks.filter (·.1 ≠ id) = forks := by
  refine List.filter_eq_self.mpr fun q hq => decide_eq_true fun heq => ?_
  have hne := List.lookup_eq_none_iff.mp h q hq
  simp [heq] at hne

section Fill

variable {t : VTree} {p dir : Path} {x : Bytes} {F : List (Nat × ForkRef)} {c : Conduct}
  {v : AfpVolume} {dirID : UInt32}
  {link target : Bytes}

/-- The file that `Symlink` makes is marked as a link if its pathname is read
as a whole. -/
def LinkMade (v : AfpVolume) (link target : Bytes) (t : VTree) (dir : Path) (x : Bytes)
    (s : VolServer) : Prop :=
  ∃ info, (unsentPath v.nfd link = [] → info = symlinkFinderInfo) ∧
    s.tree = t.set dir x (some (.file ⟨⟨true, info⟩, target⟩))

variable (hslot : Slot t (sentPath v.nfd link) p dir x) (hvol : c.site.volID = v.id)
  (hdirID : c.site.dirID = dirID)

include hslot hvol hdirID

theorem meets_openNew {id : Nat} (hid : freeFork F 65536 0 = some id) :
    Meets c.Accepts (c.With fun s => s.tree = t.set dir x (some (.file newFile)) ∧ s.forks = F)
      (v.openForkRW dirID link) fun o h => o = ⟨defaultFork v.quantum, v.gen, id, 0⟩ ∧
        c.tail.With (fun s => HasFork t p dir x id newFile s ∧
          s.forks = (id, ⟨p, true⟩) :: F) h := by
  obtain ⟨a, es, hdir⟩ := hslot.parent
  have hlt : id < 65536 := by
    have := (freeFork_eq_some hid).2
    omega
  have hopen :=
    meets_openForkMode (c := c) v dirID link (forkRead ||| forkWrite) (UInt16.ofNat id)
      (UInt64.ofNat 0)
    (P := fun s => s.tree = t.set dir x (some (.file newFile)) ∧ s.forks = F)
    (Q := fun s => HasFork t p dir x id newFile s ∧ s.forks = (id, ⟨p, true⟩) :: F) ?_
  · rwa [toNat_forkID hlt] at hopen
  · rintro s ⟨htree, rfl⟩
    have hreceive := receive_openFork hvol hdirID (forkRead ||| forkWrite) true rfl hslot.wire
      (find_of_tree hslot.leaf hdir htree) rfl hid
    exact ⟨_, hreceive, ⟨htree, by simp⟩, rfl⟩

omit hslot in
theorem openNew_full (link : Bytes) (hid : freeFork F 65536 0 = none) {s : VolServer}
    (hs : s.forks = F) :
    ∃ e h', (v.openForkRW dirID link).on (c.host s) = (.error e, h') := by
  subst hs
  by_cases hk : c.crash.next = .answered
  · have hcode :
        (Host.answer c.site c.codes s (v.openForkBlock dirID link (forkRead ||| forkWrite))).1.2 ≠
          resNoErr := by
      by_cases hnone : c.codes.headD none = none
      · rw [Conduct.answer_served hnone, receive_openFork_full hvol hdirID link _ hid]
        change resTooManyFilesOpen ≠ resNoErr
        decide
      · exact (Conduct.answer_refused hnone s _).1
    exact ⟨_, _, openForkMode_refused hk hcode⟩
  · exact ⟨_, openForkMode_unanswered hk⟩

theorem meets_fillNew {id : Nat} (hid : freeFork F 65536 0 = some id)
    (hlen : target.length < 2 ^ 63) :
    Meets (c.Serves ((defaultFork v.quantum).pieces target) ∧ c.Accepts ∧ c.tail.Accepts)
      (c.With fun s => HasFork t p dir x id newFile s ∧ s.forks = (id, ⟨p, true⟩) :: F)
      (AfpVolume.writeOrClose ⟨defaultFork v.quantum, v.gen, id, 0⟩ target >>= fun _ =>
        Host.close ⟨defaultFork v.quantum, v.gen, id, 0⟩ >>= fun _ =>
          v.setFinderInfo Host.command dirID link symlinkFinderInfo)
      fun _ => c.tail.tail.With fun s => LinkMade v link target t dir x s ∧ s.forks = F := by
  obtain ⟨a, es, hdir⟩ := hslot.parent
  obtain ⟨hlookup, hlt⟩ := freeFork_eq_some hid
  rw [Nat.zero_add] at hlt
  have hforks : ((id, ⟨p, true⟩) :: F : List (Nat × ForkRef)).filter (·.1 ≠ id) = F := by
    rw [List.filter_cons_of_neg (by simp), filter_ne_of_lookup hlookup]
  have hcontent : overlay 0 newFile.content 0 target = target := overlay_length [] target
  have hinfo :=
    Host.meets_setFinderInfo (c := c.tail) (f := ⟨newAttrs, target⟩)
      (F := F) hslot.leaf hdir rfl hvol hdirID
    hslot.wire symlinkFinderInfo rfl
  have hwrite := Host.meets_writeOrClose (c := c) (f := newFile) (F := (id, ⟨p, true⟩) :: F)
    (o := ⟨defaultFork v.quantum, v.gen, id, 0⟩) hslot.leaf hdir hlt hlen
  rw [hcontent] at hwrite
  exact hwrite.bind fun _ => (Host.meets_close hlt hforks).bind fun _ => hinfo

theorem AfpVolume.meets_fillLink (hlen : target.length < 2 ^ 63) :
    Meets (c.Fills v F target) (c.With fun s => s.tree = t.set dir x (some (.file newFile)) ∧
      s.forks = F) (v.fillLink dirID link target)
      fun _ => c.tail.tail.tail.With fun s => LinkMade v link target t dir x s ∧ s.forks = F := by
  cases hid : freeFork F 65536 0 with
  | none =>
    rintro _ ⟨s, rfl, -, hs⟩
    obtain ⟨e, h', hon⟩ := openNew_full hvol hdirID link hid hs
    refine Or.inr ⟨fun hfills => ?_, e, h', on_bind_error hon⟩
    have hfree := hfills.free
    rw [hid] at hfree
    cases hfree
  | some id =>
    have hrest (o : OpenFork) : Meets
        (c.Serves ((defaultFork v.quantum).pieces target) ∧ c.tail.Accepts ∧ c.tail.tail.Accepts)
        (fun h => o = ⟨defaultFork v.quantum, v.gen, id, 0⟩ ∧
          c.tail.With (fun s => HasFork t p dir x id newFile s ∧ s.forks = (id, ⟨p, true⟩) :: F) h)
        (AfpVolume.writeOrClose o target >>= fun _ => Host.close o >>= fun _ =>
          v.setFinderInfo Host.command dirID link symlinkFinderInfo)
        fun _ => c.tail.tail.tail.With fun s => LinkMade v link target t dir x s ∧ s.forks = F := by
      rintro h ⟨rfl, hh⟩
      exact meets_fillNew (c := c.tail) hslot hvol hdirID hid hlen h hh
    refine ((meets_openNew hslot hvol hdirID hid).bind hrest).of_iff fun _ _ => ⟨?_, ?_⟩
    · rintro ⟨hopen, hserves, hclose, hinfo⟩
      exact ⟨by rw [hid]; rfl, ⟨hopen, hclose, hinfo, trivial⟩, hserves⟩
    · rintro ⟨-, ⟨hopen, hclose, hinfo, -⟩, hserves⟩
      exact ⟨hopen, hserves, hclose, hinfo⟩

omit hslot in
theorem AfpVolume.keeps_fillLink (link : Bytes) (q : Path) (hlen : target.length < 2 ^ 63) :
    Keeps (Present c.site q) (v.fillLink dirID link target) := by
  obtain ⟨info, hinfo, -⟩ := decode_setFinderInfoBlock hvol hdirID link
    (show symlinkFinderInfo.length = 32 from rfl)
  exact (AfpVolume.keeps_openForkMode hvol hdirID link _).bind fun o =>
    (Host.keeps_writeOrClose o hlen).bind fun _ =>
    (Host.keeps_close o).bind fun _ => Host.keeps_codeOnly _ hinfo trivial

end Fill

section Create

variable {c : Conduct} {v : AfpVolume} {dirID : UInt32} {link target : Bytes} {s : VolServer}
  (hvol : c.site.volID = v.id) (hdirID : c.site.dirID = dirID)

include hvol hdirID

theorem createFile_made (hacc : c.Accepts) {t : VTree}
    (h : (named (sentPath v.nfd link) >>= s.tree.createFile false) = .ok t) :
    (v.createFile Host.command dirID link false).on (c.host s) =
      (.ok (), c.tail.host { s with tree := t }) := by
  rw [AfpVolume.createFile, Conduct.codeOnly_host hacc.1, Conduct.answer_served hacc.2,
    Site.receive_vol (decode_createFileBlock hvol hdirID link false) fun _ _ => Request.noConfusion,
    (treeOnly_create _).serve_ok h, resultErr_noErr]

theorem createFile_refused (hk : c.crash.next = .answered) (h : ¬ c.Creates v link s) :
    ∃ e, (v.createFile Host.command dirID link false).on (c.host s) =
      (.error e, c.tail.host s) := by
  have hanswer : (Host.answer c.site c.codes s (v.createFileBlock dirID link false)).1.2 ≠
      resNoErr ∧
      (Host.answer c.site c.codes s (v.createFileBlock dirID link false)).2 = s := by
    by_cases hcode : c.codes.headD none = none
    · rw [Conduct.answer_served hcode,
        Site.receive_vol (decode_createFileBlock hvol hdirID link false) fun _ _ =>
          Request.noConfusion]
      cases hr : named (sentPath v.nfd link) >>= s.tree.createFile false with
      | ok t => exact absurd ⟨⟨hk, hcode⟩, t, hr⟩ h
      | error r =>
        rw [(treeOnly_create _).serve_error hr]
        exact ⟨r.code_ne_noErr, rfl⟩
    · exact Conduct.answer_refused hcode s _
  have hon := Conduct.codeOnly_refused hk ("create " ++ goText link) hanswer.1
  rw [hanswer.2] at hon
  exact ⟨_, hon⟩

theorem meets_createFile : Meets (c.Creates v link s) (fun h => h = c.host s)
    (v.createFile Host.command dirID link false) fun _ h => ∃ p dir x,
      Slot s.tree (sentPath v.nfd link) p dir x ∧
      h = c.tail.host { s with tree := s.tree.set dir x (some (.file newFile)) } := by
  rintro _ rfl
  by_cases hcreates : c.Creates v link s
  · obtain ⟨hacc, t, hmade⟩ := hcreates
    obtain ⟨p, dir, x, hslot, rfl⟩ := slot_of_create hmade
    exact Or.inl
      ⟨⟨hacc, _, hmade⟩, (), _, createFile_made hvol hdirID hacc hmade, p, dir, x, hslot, rfl⟩
  · refine Or.inr ⟨hcreates, ?_⟩
    by_cases hk : c.crash.next = .answered
    · obtain ⟨e, hon⟩ := createFile_refused hvol hdirID hk hcreates
      exact ⟨e, _, hon⟩
    · exact ⟨_, Conduct.codeOnly_unanswered hk _ s _⟩

theorem meets_symlink (hlen : target.length < 2 ^ 63) :
    Meets (c.Creates v link s ∧ c.tail.Fills v s.forks target) (fun h => h = c.host s)
      (v.symlink dirID link target)
      fun _ h => ∃ p dir x, Slot s.tree (sentPath v.nfd link) p dir x ∧
        LinkMade v link target s.tree dir x h.srv ∧
        h.srv.forks = s.forks := by
  refine (meets_createFile hvol hdirID).bind fun _ => ?_
  rintro _ ⟨p, dir, x, hslot, rfl⟩
  refine (AfpVolume.meets_fillLink (c := c.tail) hslot hvol hdirID hlen).weaken
    (fun _ h => h) ?_ _ ⟨_, rfl, rfl, rfl⟩
  rintro _ _ ⟨s', rfl, hmade, hforks⟩
  exact ⟨p, dir, x, hslot, hmade, hforks⟩

/-- While the connection is up, a failed `Symlink` leaves the server as it was
only if it failed at its first request. -/
theorem symlink_atomic_iff {sched : Schedule} (hup : c.crash = .never sched)
    (hlen : target.length < 2 ^ 63) :
    (∀ e h', (v.symlink dirID link target).on (c.host s) = (.error e, h') →
      h'.srv.tree = s.tree ∧ h'.srv.forks = s.forks) ↔
    (c.Creates v link s → c.tail.Fills v s.forks target) := by
  by_cases hcreates : c.Creates v link s
  · rw [imp_iff_right hcreates]
    rcases meets_symlink hvol hdirID hlen (c.host s) rfl
      with ⟨⟨-, hfills⟩, _, h', hon, -⟩ | ⟨hno, e, h', hon⟩
    · rw [hon]
      exact iff_of_true (fun e h' heq => by cases heq) hfills
    · refine iff_of_false (fun hsame => ?_) fun hfills => hno ⟨hcreates, hfills⟩
      -- the file of the first request is still there
      obtain ⟨hacc, t, hmade⟩ := hcreates
      obtain ⟨p, dir, x, hslot, rfl⟩ := slot_of_create hmade
      have hfound : ((s.tree.set dir x (some (.file newFile))).find p).isSome := by
        rw [hslot.find_set]
        rfl
      have hkeeps := AfpVolume.keeps_fillLink (c := c.tail) hvol hdirID link p hlen
        (c.tail.host { s with tree := s.tree.set dir x (some (.file newFile)) }) ⟨rfl, hfound⟩
      rw [← on_bind_ok (f := fun _ => v.fillLink dirID link target)
        (createFile_made hvol hdirID hacc hmade), ← v.symlink_eq, hon] at hkeeps
      exact ne_of_find hkeeps.2 hslot.free (hsame e h' hon).1.symm
  · have hk : c.crash.next = .answered := by rw [hup]; rfl
    obtain ⟨e, hon⟩ := createFile_refused hvol hdirID hk hcreates
    rw [v.symlink_eq, on_bind_error hon]
    refine iff_of_true (fun e h' heq => ?_) fun h => absurd h hcreates
    cases heq
    exact ⟨rfl, rfl⟩

end Create

theorem symlink_atomic_iff_createRefused :
    ∃ h', (plainVolume.symlink rootDirID (ascii "l") (ascii "t")).on
      ((Conduct.refusing [some denied]).host emptyServer) =
        (.error (.result "create l" resAccessDenied), h') ∧
      h'.srv.tree = emptyServer.tree ∧ h'.srv.forks = emptyServer.forks := by
  have hvol : (Conduct.refusing [some denied]).site.volID = plainVolume.id := rfl
  have hdirID : (Conduct.refusing [some denied]).site.dirID = rootDirID := rfl
  have hlen : (ascii "t").length < 2 ^ 63 := by decide
  have hno : ¬ (Conduct.refusing [some denied]).Accepts := by decide
  have hon : (plainVolume.symlink rootDirID (ascii "l") (ascii "t")).on
      ((Conduct.refusing [some denied]).host emptyServer) =
        (.error (.result "create l" resAccessDenied),
          (Conduct.refusing [some denied]).tail.host emptyServer) := rfl
  exact ⟨_, hon, (symlink_atomic_iff hvol hdirID rfl hlen).mpr (fun h => absurd h.1 hno) _ _ hon⟩

/-- The open is refused, and an empty file stays behind. -/
theorem symlink_openRefused : emptyServer.tree.find [ascii "l"] = none ∧
    ∃ h', (plainVolume.symlink rootDirID (ascii "l") (ascii "t")).on
      ((Conduct.refusing [none, some denied]).host emptyServer) =
        (.error (.result "open l" resAccessDenied), h') ∧
      h'.srv.tree.find [ascii "l"] = some (.file newFile) := by
  have hvol : (Conduct.refusing [none, some denied]).site.volID = plainVolume.id := rfl
  have hdirID : (Conduct.refusing [none, some denied]).site.dirID = rootDirID := rfl
  have hacc : (Conduct.refusing [none, some denied]).Accepts := by decide
  have hmade :
      (named (sentPath plainVolume.nfd (ascii "l")) >>= emptyServer.tree.createFile false) =
      .ok (emptyServer.tree.set [] (ascii "l") (some (.file newFile))) := by rfl
  have hcreate := createFile_made hvol hdirID hacc hmade
  have hopen : (plainVolume.openForkRW rootDirID (ascii "l")).on
      ((Conduct.refusing [none, some denied]).tail.host
      { emptyServer with tree := emptyServer.tree.set [] (ascii "l") (some (.file newFile)) }) =
      (.error (.result ("open " ++ goText (ascii "l")) resAccessDenied), (Conduct.refusing []).host
        { emptyServer with tree := emptyServer.tree.set [] (ascii "l") (some (.file newFile)) }) :=
    openForkMode_refused rfl denied.property
  have hon : (plainVolume.symlink rootDirID (ascii "l") (ascii "t")).on
      ((Conduct.refusing [none, some denied]).host emptyServer) = _ :=
    (on_bind_ok hcreate).trans (on_bind_error hopen)
  exact ⟨rfl, _, hon, rfl⟩

section RoundTrip

variable {site : Site} {sched : Schedule} {s : VolServer} {v : AfpVolume} {dirID : UInt32}
  {path : Bytes} {p : Path}
  {f : FileData} (hvol : site.volID = v.id) (hdirID : site.dirID = dirID)
    (hw : named (sentPath v.nfd path) = .ok p)
  (hfind : s.tree.find p = some (.file f))

include hvol hdirID hw hfind

theorem openFork_calm (hf : f.attrs.writable = true) (hlen : f.content.length < 2 ^ 63) {id : Nat}
    (hid : freeFork s.forks 65536 0 = some id) :
    (v.openFork dirID path).on ((Conduct.calm site sched).host s) =
      (.ok ⟨defaultFork v.quantum, v.gen, id, f.content.length⟩,
        (Conduct.calm site sched).host
          { s with forks := (id, ⟨p, false⟩) :: s.forks, nextFork := id + 1 }) := by
  have hlt := (freeFork_eq_some hid).2
  have hanswer : Host.answer site [] s (v.openForkBlock dirID path forkRead) = _ :=
    (Conduct.answer_served rfl s _).trans
      (receive_openFork hvol hdirID forkRead false rfl hw hfind hf hid)
  have hopen := openForkMode_opened (c := Conduct.calm site sched) rfl hanswer
  rwa [toNat_forkID (by omega), UInt64.toNat_ofNat_of_lt' (hlen.trans (by decide))] at hopen

theorem readLink_calm (hf : f.attrs.writable = true) (hlen : f.content.length < 2 ^ 63)
    (hfree : (freeFork s.forks 65536 0).isSome) :
    ((v.readLink dirID path).on ((Conduct.calm site sched).host s)).1 = .ok f.content := by
  obtain ⟨id, hid⟩ := Option.isSome_iff_exists.mp hfree
  have hlt := (freeFork_eq_some hid).2
  have hopen : (Proc.adapt IoErr.afp (v.openFork dirID path)).on
      ((Conduct.calm site sched).host s) =
      (.ok ⟨defaultFork v.quantum, v.gen, id, f.content.length⟩,
        (Conduct.calm site sched).host
          { s with forks := (id, ⟨p, false⟩) :: s.forks, nextFork := id + 1 }) := by
    rw [on_adapt, openFork_calm hvol hdirID hw hfind hf hlen hid]
    rfl
  have hfork : List.lookup id ((id, ⟨p, false⟩) :: s.forks) = some (⟨p, false⟩ : ForkRef) :=
    List.lookup_cons_self
  have hread :=
    readTarget_calm site sched
      (s := { s with forks := (id, ⟨p, false⟩) :: s.forks, nextFork := id + 1 })
      (o := ⟨defaultFork v.quantum, v.gen, id, f.content.length⟩)
      (by change id < _; omega) hfork hfind rfl hlen
  rw [AfpVolume.readLink, on_bind_ok hopen, on_bind_ok (on_observe _ _), hread,
    on_bind_ok (on_observe _ _)]
  rfl

theorem stat_calm : ((v.stat dirID path).on ((Conduct.calm site sched).host s)).1 =
    .ok
      ((site.described p f.attrs.finder f.content.length).entry false v.entryBitmaps.1 v.nfc) := by
  have hparms : (named (sentPath v.nfd path) >>= site.parms s v.entryBitmaps.1 v.entryBitmaps.2) =
      .ok (putU16 v.entryBitmaps.1 ++ (putU16 v.entryBitmaps.2 ++ ([0] ++ ([0] ++
        (site.described p f.attrs.finder f.content.length).layout false v.entryBitmaps.1)))) := by
    rw [hw]
    change site.parms s _ _ p = _
    rw [Site.parms, hfind]
  have hanswer : Host.answer site [] s (v.statBlock dirID path) = _ :=
    (Conduct.answer_served rfl s _).trans
      (Site.receive_of_decode (decode_statBlock hvol hdirID path))
  rw [Site.respond, hparms] at hanswer
  have hcommand : (Host.command (v.statBlock dirID path)).on ((Conduct.calm site sched).host s) =
      (.ok (Host.answer site [] s (v.statBlock dirID path)).1,
        (Conduct.calm site sched).tail.host (Host.answer site [] s (v.statBlock dirID path)).2) :=
    Conduct.command_host rfl s _
  rw [hanswer] at hcommand
  have hreply := statReply_ok v.nfc false v.entryBitmaps.1 v.entryBitmaps.2
    (site.described p f.attrs.finder f.content.length)
  simp only [Bool.false_eq_true, if_false] at hreply
  rw [AfpVolume.stat, AfpVolume.statVia, AfpVolume.statBy, on_bind_ok hcommand]
  simp only [resultErr_noErr]
  rw [on_bind_ok (on_lift _ _), on_lift, hreply]
  rfl

end RoundTrip

theorem entryBitmaps_file (v : VolumeRef) :
    v.entryBitmaps.1 &&& kFPFinderInfoBit ≠ 0 ∧ v.entryBitmaps.1 &&& kFPExtDataForkLenBit ≠ 0 := by
  rw [VolumeRef.entryBitmaps]
  split_ifs <;> exact ⟨by decide, by decide⟩

theorem symlink_roundtrip {c : Conduct} {s : VolServer} {v : AfpVolume} {dirID : UInt32}
    {link target : Bytes} {h' : Host} (hvol : c.site.volID = v.id) (hdirID : c.site.dirID = dirID)
    (hwire : (wirePath v.nfd link).length < 65536) (hlen : target.length < 2 ^ 63)
    (hok : (v.symlink dirID link target).on (c.host s) = (.ok (), h')) (sched : Schedule) :
    ((v.readLink dirID link).on ((Conduct.calm c.site sched).host h'.srv)).1 = .ok target ∧
      ∃ e, ((v.stat dirID link).on ((Conduct.calm c.site sched).host h'.srv)).1 = .ok e ∧
        e.isSymlink = true ∧
        e.size.toNat = target.length := by
  rcases meets_symlink hvol hdirID hlen (c.host s) rfl
    with ⟨⟨-, hfills⟩, _, h'', hon, hpost⟩ | ⟨-, e, h'', hon⟩
  · cases hon.symm.trans hok
    obtain ⟨p, dir, x, hslot, ⟨info, hinfo, htree⟩, hforks⟩ := hpost
    have hfind : h'.srv.tree.find p = some (.file ⟨⟨true, symlinkFinderInfo⟩, target⟩) := by
      rw [htree, hinfo (unsentPath_eq_nil hwire), hslot.find_set]
    refine ⟨readLink_calm hvol hdirID hslot.wire hfind rfl hlen (hforks ▸ hfills.free), _,
      stat_calm hvol hdirID hslot.wire hfind, ?_, ?_⟩
    · obtain ⟨hfinder, -⟩ := entryBitmaps_file v.toVolumeRef
      exact decide_eq_true ⟨hfinder, rfl⟩
    · obtain ⟨-, hext⟩ := entryBitmaps_file v.toVolumeRef
      simp only [Params.entry, Site.described, if_pos hext]
      exact UInt64.toNat_ofNat_of_lt' (hlen.trans (by decide))
  · cases hon.symm.trans hok

theorem symlink_roundtrip_short : ∃ h', (plainVolume.symlink rootDirID (ascii "l") (ascii "t")).on
    ((Conduct.refusing []).host emptyServer) = (.ok (), h') ∧
    ((plainVolume.readLink rootDirID (ascii "l")).on
      ((Conduct.calm plainSite inOrder).host h'.srv)).1 = .ok (ascii "t") := by
  have hvol : (Conduct.refusing []).site.volID = plainVolume.id := rfl
  have hdirID : (Conduct.refusing []).site.dirID = rootDirID := rfl
  have hlen : (ascii "t").length < 2 ^ 63 := by decide
  have hwire : (wirePath plainVolume.nfd (ascii "l")).length < 65536 := by decide
  have hcreates : (Conduct.refusing []).Creates plainVolume (ascii "l") emptyServer :=
    ⟨by decide, _, rfl⟩
  have hfills : (Conduct.refusing []).tail.Fills plainVolume emptyServer.forks (ascii "t") :=
    ⟨rfl, by decide, fun _ _ => ⟨rfl, rfl⟩⟩
  rcases meets_symlink hvol hdirID hlen ((Conduct.refusing []).host emptyServer) rfl
    with ⟨-, _, h', hon, -⟩ | ⟨hno, -⟩
  · exact ⟨h', hon, (symlink_roundtrip hvol hdirID hwire hlen hon inOrder).1⟩
  · exact absurd ⟨hcreates, hfills⟩ hno

end GoAfp
