import GoAfp.CreateRetry

/-! Renaming, removing and creating across a reconnect. -/

namespace GoAfp

inductive NsOp
  | rename (oldpath newpath : Bytes)
  | remove (filename : Bytes)
  | symlink (target link : Bytes)
  | createExcl (filename : Bytes) (flag : OpenFlags)

def NsOp.run (fs : FS) (net : Net) (srv : VolServer) : NsOp → Option PathErr × VTree
  | .rename oldpath newpath =>
    let (err, srv) := fs.rename net oldpath newpath srv
    (err, srv.tree)
  | .remove filename =>
    let (err, srv) := fs.remove net filename srv
    (err, srv.tree)
  | .symlink target link =>
    let (err, srv) := fs.symlink net target link srv
    (err, srv.tree)
  | .createExcl filename flag =>
    let (r, srv) := fs.openFile net filename { flag with create := true, excl := true } srv
    (errOf r, srv.tree)

def moveEffect (a b c : Bytes) (t : VTree) : Except Refusal VTree := do
  t.moveAndRename (← named a) (← named b) (← named c)

/-- What the server does to the tree when it carries out the operation's first
request. -/
def NsOp.effect (fs : FS) (nfd : Bytes → Bytes) (op : NsOp) (t : VTree) : Except Refusal VTree :=
  match op with
  | .rename oldpath newpath =>
    let (dir, name) := splitPath (fs.resolve newpath)
    moveEffect (wirePath nfd (fs.resolve oldpath)) (wirePath nfd dir) (wirePath nfd name) t
  | .remove filename => named (wirePath nfd (fs.resolve filename)) >>= t.delete
  | .symlink _ link => named (wirePath nfd (fs.resolve link)) >>= t.createFile false
  | .createExcl filename _ => named (wirePath nfd (fs.resolve filename)) >>= t.createFile false

/-- The pathnames of the operation fit in the length fields of its requests. -/
def NsOp.Fits (fs : FS) (nfd : Bytes → Bytes) (op : NsOp) : Prop :=
  match op with
  | .rename oldpath newpath =>
    (wirePath nfd (fs.resolve oldpath)).length < 65536 ∧
      (wirePath nfd (splitPath (fs.resolve newpath)).1).length < 65536 ∧
      (wirePath nfd (splitPath (fs.resolve newpath)).2).length < 65536
  | .remove filename => (wirePath nfd (fs.resolve filename)).length < 65536
  | .symlink _ link => (wirePath nfd (fs.resolve link)).length < 65536
  | .createExcl filename _ => (wirePath nfd (fs.resolve filename)).length < 65536

/-- Every request of the operation is answered when `k` happens to the link. -/
def NsOp.Answered (op : NsOp) (quantum : Nat) (k : Crash) : Prop :=
  match op with
  | .rename _ _ => k.Answers 1
  | .remove _ => k.Answers 1
  | .symlink target _ =>
    k.Answers 4 ∧ ∀ c ∈ (defaultFork quantum).pieces target, k.piece c = .answered
  | .createExcl _ flag => k.Answers (if flag.trunc && flag.writable then 3 else 2)

theorem treeOnly_delete (w : Bytes) : TreeOnly (.delete w) fun t => named w >>= t.delete :=
  treeOnly_of_bind fun s => by simp only [VolServer.handle, bind_assoc]

theorem treeOnly_move (a b c : Bytes) : TreeOnly (.moveAndRename a b c) (moveEffect a b c) :=
  treeOnly_of_bind fun s => by simp only [VolServer.handle, moveEffect, bind_assoc]

theorem oneShot_remove (fs : FS) (nfd : Bytes → Bytes) (filename : Bytes)
    (hfits : (NsOp.remove filename).Fits fs nfd) :
    ∃ spec, OneShot nfd (fun v => onConn (v.delete (fs.resolve filename))) ()
      (fun e => ⟨"remove", filename, mapErr (.afp e)⟩) spec ((NsOp.remove filename).effect fs nfd)
      (NsOp.remove filename).Answered ⟨"remove", filename, .notExist⟩ := by
  have hsent := sentPath_eq_iff.mpr hfits
  refine ⟨_, oneShot_simple (fun v hv => by rw [Volume.delete, hv, hsent])
    (treeOnly_delete _) ?_ _ _⟩
  intro t t' h
  obtain ⟨p, hp, h⟩ := VolServer.named_bind_ok h
  obtain ⟨dir, x, hleaf, hsome, hnone⟩ := VTree.delete_ok h
  obtain ⟨r, hr, hmiss⟩ := VTree.delete_missing hleaf hnone
  exact Or.inr ⟨ne_of_find hsome hnone, r, by rw [hp]; exact hr, hmiss⟩

theorem oneShot_rename (fs : FS) (nfd : Bytes → Bytes) (oldpath newpath : Bytes)
    (hfits : (NsOp.rename oldpath newpath).Fits fs nfd) :
    ∃ spec, OneShot nfd (fun v => onConn (v.rename (fs.resolve oldpath) (fs.resolve newpath))) ()
      (fun e => ⟨"rename", oldpath, mapErr (.afp e)⟩) spec
        ((NsOp.rename oldpath newpath).effect fs nfd)
      (NsOp.rename oldpath newpath).Answered ⟨"rename", oldpath, .notExist⟩ := by
  obtain ⟨hold, hdir, hname⟩ := hfits
  obtain ⟨newDir, newName, hsplit⟩ :
      ∃ newDir newName, splitPath (fs.resolve newpath) = (newDir, newName) := ⟨_, _, rfl⟩
  rw [hsplit] at hdir hname
  have hx (v : Volume) (hv : v.nfd = nfd) : v.rename (fs.resolve oldpath) (fs.resolve newpath) =
      simpleCommand ("rename " ++ goText (fs.resolve oldpath))
        (.moveAndRename (wirePath nfd (fs.resolve oldpath)) (wirePath nfd newDir)
          (wirePath nfd newName)) := by
    rw [Volume.rename, hsplit, hv, ← sentPath_eq_iff.mpr hold, ← sentPath_eq_iff.mpr hdir,
      ← sentPath_eq_iff.mpr hname]
  have heffect : (NsOp.rename oldpath newpath).effect fs nfd =
      moveEffect (wirePath nfd (fs.resolve oldpath)) (wirePath nfd newDir)
        (wirePath nfd newName) := by
    funext t
    rw [NsOp.effect, hsplit]
  rw [heffect]
  refine ⟨_, oneShot_simple hx (treeOnly_move _ _ _) ?_ _ _⟩
  intro t t' h
  obtain ⟨p, hp, h⟩ := VolServer.named_bind_ok h
  obtain ⟨q, hq, h⟩ := VolServer.named_bind_ok h
  obtain ⟨n, hn, h⟩ := VolServer.named_bind_ok h
  obtain ⟨dir, x, hleaf, hsame | ⟨hsome, hnone⟩⟩ := VTree.moveAndRename_ok h
  · exact Or.inl hsame
  · obtain ⟨r, hr, hmiss⟩ := VTree.moveAndRename_missing hleaf hnone q n
    refine Or.inr ⟨ne_of_find hsome hnone, r, ?_, hmiss⟩
    simp only [moveEffect, hp, hq, hn]
    exact hr

theorem oneShot_symlink (fs : FS) (nfd : Bytes → Bytes) (target link : Bytes)
    (hfits : (NsOp.symlink target link).Fits fs nfd) :
    ∃ spec, OneShot nfd (fun v => onConn (v.symlink (fs.resolve link) target)) ()
      (fun e => ⟨"symlink", link, mapErr (.afp e)⟩) spec ((NsOp.symlink target link).effect fs nfd)
      (NsOp.symlink target link).Answered ⟨"symlink", link, .exist⟩ := by
  have h (v : Volume) (hv : v.nfd = nfd) :
      CreateFirst (onConn (v.symlink (fs.resolve link) target))
        (onConn (v.fillLink (fs.resolve link) target)) ("create " ++ goText (fs.resolve link))
        (wirePath nfd (fs.resolve link)) id () (linkFile target)
        fun k => k.Answers 3 ∧
          ∀ c ∈ (defaultFork v.quantum).pieces target, k.piece c = .answered := by
    rw [← sentPath_eq_iff.mpr hfits, ← hv]
    exact createFirst_symlink v (fs.resolve link) target
  exact ⟨_, oneShot_create
    (N := fun q k => k.Answers 3 ∧ ∀ c ∈ (defaultFork q).pieces target, k.piece c = .answered)
    h (fun _ _ => and_assoc) rfl⟩

theorem oneShot_open (fs : FS) (nfd : Bytes → Bytes) (filename : Bytes) (flag : OpenFlags)
    (hfits : (NsOp.createExcl filename flag).Fits fs nfd) :
    ∃ spec, OneShot nfd (fs.openBody filename { flag with create := true, excl := true }) {} id spec
      ((NsOp.createExcl filename flag).effect fs nfd) (NsOp.createExcl filename flag).Answered
      ⟨"open", filename, .exist⟩ := by
  have h (v : Volume) (hv : v.nfd = nfd) :
      CreateFirst (fs.openBody filename { flag with create := true, excl := true } v)
        (v.forkOps.forkStep (fs.resolve filename) filename
          { flag with create := true, excl := true })
        ("create " ++ goText (fs.resolve filename)) (wirePath nfd (fs.resolve filename))
        (fun e => ⟨"open", filename, mapErr (.afp e)⟩) {} newFile
        fun k => k.next = .answered ∧
          k.tail.Answers (if flag.trunc && flag.writable then 1 else 0) := by
    rw [← sentPath_eq_iff.mpr hfits, ← hv]
    exact createFirst_open fs v filename rfl rfl
  refine ⟨_, oneShot_create
    (N := fun _ k => k.next = .answered ∧
      k.tail.Answers (if flag.trunc && flag.writable then 1 else 0)) h ?_ rfl⟩
  intro q k
  simp only [NsOp.Answered]
  split_ifs <;> rfl

def NsOp.againErr : NsOp → PathErr
  | .rename oldpath _ => ⟨"rename", oldpath, .notExist⟩
  | .remove filename => ⟨"remove", filename, .notExist⟩
  | .symlink _ link => ⟨"symlink", link, .exist⟩
  | .createExcl filename _ => ⟨"open", filename, .exist⟩

theorem FS.pathDo_eq (op : String) (path : Bytes) (net : Net) (body : Volume → Vol Unit)
    (srv : VolServer) :
    pathDo op path net body srv =
      ((net.do (fun v => onConn (body v)) ((), srv)).1.map fun e => ⟨op, path, mapErr (.afp e)⟩,
        (net.do (fun v => onConn (body v)) ((), srv)).2.2) := by
  unfold pathDo
  rcases net.do (fun v => onConn (body v)) ((), srv) with ⟨err, _, srv'⟩
  rfl

theorem NsOp.run_eq (fs : FS) (op : NsOp) :
    ∃ (σ ε : Type) (body : Volume → Proc (σ × Link) ε Unit) (v₀ : σ) (g : ε → PathErr),
      (∀ nfd, op.Fits fs nfd →
        ∃ spec, OneShot nfd body v₀ g spec (op.effect fs nfd) op.Answered op.againErr) ∧
      ∀ net srv, op.run fs net srv =
        ((net.do body (v₀, srv)).1.map g, (net.do body (v₀, srv)).2.2.tree) := by
  cases op with
  | rename oldpath newpath =>
    refine ⟨Unit, AfpErr, _, (), _, fun nfd => oneShot_rename fs nfd oldpath newpath, ?_⟩
    intro net srv
    rw [NsOp.run, FS.rename, FS.pathDo_eq]
  | remove filename =>
    refine ⟨Unit, AfpErr, _, (), _, fun nfd => oneShot_remove fs nfd filename, ?_⟩
    intro net srv
    rw [NsOp.run, FS.remove, FS.pathDo_eq]
  | symlink target link =>
    refine ⟨Unit, AfpErr, _, (), _, fun nfd => oneShot_symlink fs nfd target link, ?_⟩
    intro net srv
    rw [NsOp.run, FS.symlink, FS.pathDo_eq]
  | createExcl filename flag =>
    refine ⟨File, PathErr, _, {}, id, fun nfd => oneShot_open fs nfd filename flag, ?_⟩
    intro net srv
    simp only [NsOp.run, FS.openFile]
    rcases hdo : net.do (fs.openBody filename { flag with create := true, excl := true }) ({}, srv)
      with ⟨_ | e, f, srv'⟩
    · rfl
    · rfl

/-- Across a reconnect, an operation on names has the outcome it would have had
without one exactly if the link died before the server saw the first request
or after it answered the last one, or that request has nothing to change. A
pathname that does not fit in its length field is not sent as it is. -/
theorem namespace_transparent_iff (fs : FS) (net : Net) (sched : Schedule) (srv : VolServer)
    {op : NsOp} (hfits : op.Fits fs net.nfd) :
    op.run fs net.cut srv = op.run fs (net.faultFree sched) srv ↔
      net.crash.next = .lost ∨ (∀ t, op.effect fs net.nfd srv.tree = .ok t → t = srv.tree) ∨
        op.Answered net.quantum net.crash := by
  obtain ⟨σ, ε, body, v₀, g, hone, hrun⟩ := op.run_eq fs
  obtain ⟨spec, h⟩ := hone net.nfd hfits
  have hfree : op.run fs (net.faultFree sched) srv =
      ((spec srv.tree).1.map g, (spec srv.tree).2) := by
    rw [hrun, ← h.faultFree srv sched]
    rfl
  rw [hfree, hrun]
  constructor
  · intro heq
    by_contra hno
    obtain ⟨hspec, e, he, -⟩ := h.retried_again hno
    have hmap := congrArg Prod.fst heq
    rw [he, hspec] at hmap
    cases hmap
  · intro hs
    rw [← h.transparent hs]
    rfl

def oneFile : VolServer := ⟨.dir newAttrs [(ascii "a", .file newFile)], [], 0⟩

/-- The link dies before the first request gets to the server. -/
def requestLost : Net :=
  ⟨id, 1, 0, ⟨[.lost], fun _ => .answered, inOrder⟩, false, 2, 0, inOrder⟩

theorem namespace_transparent_iff_requestLost :
    (NsOp.remove (ascii "a")).Fits ⟨[]⟩ requestLost.nfd ∧
      (NsOp.remove (ascii "a")).run ⟨[]⟩ requestLost.cut oneFile =
        (NsOp.remove (ascii "a")).run ⟨[]⟩ (requestLost.faultFree inOrder) oneFile := by
  have hfits : (NsOp.remove (ascii "a")).Fits ⟨[]⟩ requestLost.nfd := by
    change (wirePath id _).length < 65536
    decide
  exact ⟨hfits, (namespace_transparent_iff ⟨[]⟩ requestLost inOrder oneFile hfits).mpr (Or.inl rfl)⟩

/-- The server carries out the first request, and the reply is lost. -/
def replyLost : Net := ⟨id, 1, 0, ⟨[.applied], fun _ => .answered, inOrder⟩, false, 2, 0, inOrder⟩

theorem remove_replyLost : (NsOp.remove (ascii "a")).run ⟨[]⟩ replyLost.cut oneFile ≠
      (NsOp.remove (ascii "a")).run ⟨[]⟩ (replyLost.faultFree inOrder) oneFile ∧
    ((NsOp.remove (ascii "a")).run ⟨[]⟩ replyLost.cut oneFile).1 = some
      ⟨"remove", ascii "a", .notExist⟩ ∧
    ((NsOp.remove (ascii "a")).run ⟨[]⟩ (replyLost.faultFree inOrder) oneFile).1 = none := by
  have hcut : ((NsOp.remove (ascii "a")).run ⟨[]⟩ replyLost.cut oneFile).1 =
      some ⟨"remove", ascii "a", .notExist⟩ := by decide
  have hfree : ((NsOp.remove (ascii "a")).run ⟨[]⟩ (replyLost.faultFree inOrder) oneFile).1 =
      none := by decide
  refine ⟨fun heq => ?_, hcut, hfree⟩
  rw [heq, hfree] at hcut
  cases hcut

/-- Otherwise the operation was begun, and the caller is told that it could not
be. -/
theorem namespace_retried_error (fs : FS) (net : Net) (sched : Schedule) (srv : VolServer)
    {op : NsOp} (hfits : op.Fits fs net.nfd) {t : VTree}
    (hnext : net.crash.next ≠ .lost) (heff : op.effect fs net.nfd srv.tree = .ok t)
    (ht : t ≠ srv.tree) (hans : ¬ op.Answered net.quantum net.crash) :
    (op.run fs net.cut srv).1 = some op.againErr ∧
      (op.run fs (net.faultFree sched) srv).1 = none := by
  obtain ⟨σ, ε, body, v₀, g, hone, hrun⟩ := op.run_eq fs
  obtain ⟨spec, h⟩ := hone net.nfd hfits
  have hno :
      ¬ (net.crash.next = .lost ∨ (∀ t, op.effect fs net.nfd srv.tree = .ok t → t = srv.tree) ∨
      op.Answered net.quantum net.crash) := by
    rintro (hlost | hsame | hall)
    · exact hnext hlost
    · exact ht (hsame t heff)
    · exact hans hall
  obtain ⟨hspec, e, he, hg⟩ := h.retried_again hno
  constructor
  · rw [hrun, he]
    exact congrArg some hg
  · have hfree := congrArg Prod.fst (h.faultFree srv sched)
    rw [hspec] at hfree
    rw [hrun]
    exact Option.map_eq_none_iff.mpr hfree

end GoAfp
