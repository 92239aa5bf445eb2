import GoAfp.FS

/-! When the operations of a volume succeed and what they then have done, and
what they leave in place when they fail. -/

namespace GoAfp

open Proc

namespace Link

variable {l : Link}

/-- The link is up, and `k` will happen to it. -/
structure Ready (k : Crash) (l : Link) : Prop where
  alive : l.dead = false
  crash : l.crash = k

variable {k : Crash}

theorem ready_start (srv : VolServer) (k : Crash) : Link.Ready k ⟨srv, k, false⟩ := ⟨rfl, rfl⟩

theorem Ready.fate_eq (h : l.Ready k) : l.fate = k.next := by
  rw [fate, h.alive, h.crash]
  rfl

theorem Ready.send (h : l.Ready k) (hk : k.next = .answered) (req : Request) :
    (l.send req).2.Ready k.tail := by
  constructor
  · simp [Link.send, h.fate_eq, hk]
  · simp only [Link.send, h.crash]

theorem send_answered (h : l.fate = .answered) (req : Request) :
    (l.send req).1 = .ok (l.srv.serve req).1 ∧ (l.send req).2.srv = (l.srv.serve req).2 := by
  constructor
  · simp only [send, h, Fate.answer]
  · simp [send, h]

theorem send_unanswered (h : l.fate ≠ .answered) (req : Request) :
    (l.send req).1 = .error (.transport .closed) := by
  simp only [send]
  cases hf : l.fate with
  | answered => exact absurd hf h
  | applied => rfl
  | lost => rfl

theorem send_srv (l : Link) (req : Request) :
    (l.send req).2.srv = l.srv ∨ (l.send req).2.srv = (l.srv.serve req).2 := by
  by_cases h : l.fate = .lost
  · exact Or.inl (if_pos h)
  · exact Or.inr (if_neg h)

end Link

theorem VolServer.serve_ok {s s' : VolServer} {req : Request} {info : ForkInfo}
    (h : s.handle req = .ok (info, s')) :
    s.serve req = ((info, resNoErr), s') := by
  rw [serve, h]

theorem VolServer.serve_error {s : VolServer} {req : Request} {r : Refusal}
    (h : s.handle req = .error r) :
    s.serve req = (({}, r.code), s) := by
  rw [serve, h]

theorem simple_answered {l : Link} (h : l.fate = .answered) (op : String) (req : Request) :
    (simpleCommand op req).on l = (resultErr op (l.srv.serve req).1.2, (l.send req).2) := by
  have hc : (command req).on l = (.ok (l.srv.serve req).1, (l.send req).2) :=
    Prod.ext (Link.send_answered h req).1 rfl
  rw [simpleCommand, on_bind_ok hc]
  rfl

theorem simple_unanswered {l : Link} (h : l.fate ≠ .answered) (op : String) (req : Request) :
    (simpleCommand op req).on l = (.error (.transport .closed), (l.send req).2) := by
  have hc : (command req).on l = (.error (.transport .closed), (l.send req).2) :=
    Prod.ext (Link.send_unanswered h req) rfl
  rw [simpleCommand, on_bind_error hc]

theorem resultErr_refused (op : String) (r : Refusal) :
    resultErr op r.code = .error (.result op r.code) := by
  rw [resultErr, if_neg r.code_ne_noErr]

section Rules

variable {P : VolServer → Prop}

theorem meets_command (k : Crash) (req : Request) :
    Meets (k.next = .answered) (fun l => P l.srv ∧ l.Ready k) (command req)
      fun r l => (∃ s, P s ∧ s.serve req = (r, l.srv)) ∧ l.Ready k.tail := by
  rintro l ⟨hP, hl⟩
  by_cases hk : k.next = .answered
  · obtain ⟨hr, hs⟩ := Link.send_answered (hl.fate_eq.trans hk) req
    exact Or.inl ⟨hk, _, _, Prod.ext hr rfl, ⟨l.srv, hP, Prod.ext rfl hs.symm⟩, hl.send hk req⟩
  · have hf : l.fate ≠ .answered := fun hf => hk (hl.fate_eq.symm.trans hf)
    exact Or.inr ⟨hk, _, _, Prod.ext (Link.send_unanswered hf req) rfl⟩

theorem meets_simple (k : Crash) {op : String} {req : Request} {Q : VolServer → Prop}
    (h : ∀ s, P s → ∃ info s', s.handle req = .ok (info, s') ∧ Q s') :
    Meets (k.next = .answered) (fun l => P l.srv ∧ l.Ready k) (simpleCommand op req)
      fun _ l => Q l.srv ∧ l.Ready k.tail := by
  refine ((meets_command k req).bind fun r => Meets.lift ?_).of_iff fun _ _ => and_iff_left trivial
  rintro l ⟨⟨s, hs, hserve⟩, hl⟩
  obtain ⟨info, s', hh, hQ⟩ := h s hs
  rw [VolServer.serve_ok hh] at hserve
  obtain ⟨rfl, hsrv⟩ := Prod.mk.inj hserve
  exact ⟨(), rfl, hsrv ▸ hQ, hl⟩

theorem meets_openFork (k : Crash) (v : Volume) (path : Bytes) (write : Bool)
    {Q : OpenFork → VolServer → Prop}
    (h : ∀ s, P s → ∃ info s', s.handle (.openFork write (sentPath v.nfd path)) = .ok (info, s') ∧
      Q ⟨defaultFork v.quantum, v.gen, info.forkID, info.forkLen⟩ s') :
    Meets (k.next = .answered) (fun l => P l.srv ∧ l.Ready k) (v.openFork path write)
      fun o l => (o.fork = defaultFork v.quantum ∧ Q o l.srv) ∧ l.Ready k.tail := by
  refine Meets.of_iff ((meets_command k _).bind fun r => Meets.bind (m := fun _ l =>
    Q ⟨defaultFork v.quantum, v.gen, r.1.forkID, r.1.forkLen⟩ l.srv ∧
      l.Ready k.tail) (Meets.lift ?_)
    fun _ => Meets.pure fun _ h => ⟨⟨rfl, h.1⟩, h.2⟩) fun _ _ => and_iff_left ⟨trivial, trivial⟩
  rintro l ⟨⟨s, hs, hserve⟩, hl⟩
  obtain ⟨info, s', hh, hQ⟩ := h s hs
  rw [VolServer.serve_ok hh] at hserve
  obtain ⟨rfl, hsrv⟩ := Prod.mk.inj hserve
  exact ⟨(), rfl, hsrv ▸ hQ, hl⟩

end Rules

/-- The server's tree is `t` with the file `f` at `p`, and `id` is a fork open
for writing on it. -/
structure HasFork (t : VTree) (p dir : Path) (x : Bytes) (id : Nat) (f : FileData) (s : VolServer) :
    Prop where
  tree : s.tree = t.set dir x (some (.file f))
  fork : s.forks.lookup id = some ⟨p, true⟩

section NewFile

variable {t : VTree} {p dir : Path} {x : Bytes} {a : Attrs} {es : List (Bytes × VTree)}
  {f : FileData} {s : VolServer}
  {id : Nat}

theorem find_of_tree (hp : leafOf p = some (dir, x)) (hdir : t.find dir = some (.dir a es))
    (h : s.tree = t.set dir x (some (.file f))) : s.tree.find p = some (.file f) := by
  rw [h, leafOf_eq_some hp]
  exact Tree.find_set_leaf hdir x _

theorem handle_openFork (hp : leafOf p = some (dir, x)) (hdir : t.find dir = some (.dir a es))
    (h : s.tree = t.set dir x (some (.file f))) (hf : f.attrs.writable = true) {w : Bytes}
    (hw : named w = .ok p) (write : Bool) :
    ∃ info s', s.handle (.openFork write w) = .ok (info, s') ∧ s'.tree = s.tree ∧
      (write = true → HasFork t p dir x info.forkID f s') := by
  refine ⟨⟨s.nextFork, f.content.length⟩,
    { s with forks := (s.nextFork, ⟨p, write⟩) :: s.forks, nextFork := s.nextFork + 1 },
    ?_, rfl, ?_⟩
  · simp only [VolServer.handle, hw]
    change s.openFork write p = _
    rw [VolServer.openFork, find_of_tree hp hdir h]
    simp [hf]
  · rintro rfl
    exact ⟨h, by simp⟩

theorem HasFork.editFork (hp : leafOf p = some (dir, x)) (hdir : t.find dir = some (.dir a es))
    (h : HasFork t p dir x id f s) (k : FileData → FileData) :
    s.editFork id k = .ok (t.set dir x (some (.file (k f)))) := by
  rw [VolServer.editFork, h.fork]
  simp only [if_true, VTree.editFile, hp, find_of_tree hp hdir h.tree]
  rw [h.tree, Tree.set_set]

theorem HasFork.write (hp : leafOf p = some (dir, x)) (hdir : t.find dir = some (.dir a es))
    (h : HasFork t p dir x id f s) (off : Nat) (data : Bytes) :
    ∃ s', s.handle (.writeExt id off data) = .ok ({}, s') ∧
      HasFork t p dir x id { f with content := overlay 0 f.content off data } s' := by
  refine ⟨{ s with tree := _ }, ?_, rfl, h.fork⟩
  simp only [VolServer.handle, h.editFork hp hdir]
  rfl

theorem HasFork.truncate (hp : leafOf p = some (dir, x)) (hdir : t.find dir = some (.dir a es))
    (h : HasFork t p dir x id f s) (len : Nat) :
    ∃ s', s.handle (.setForkLen id len) = .ok ({}, s') ∧
      HasFork t p dir x id { f with content := setLength 0 f.content len } s' := by
  refine ⟨{ s with tree := _ }, ?_, rfl, h.fork⟩
  simp only [VolServer.handle, h.editFork hp hdir]
  rfl

theorem HasFork.pieces (hp : leafOf p = some (dir, x)) (hdir : t.find dir = some (.dir a es))
    (h : HasFork t p dir x id f s) (off : Nat) (data : Bytes) (cs : List (Nat × Nat)) :
    HasFork t p dir x id { f with content := overlayAll 0 f.content (cs.map (part off data)) }
      (cs.foldl (fun s c => (s.serve (Link.pieceRequest id off data c)).2) s) := by
  induction cs generalizing f s with
  | nil => exact h
  | cons c cs ih =>
    obtain ⟨s', hs', h'⟩ := h.write hp hdir (part off data c).1 (part off data c).2
    rw [List.foldl_cons, Link.pieceRequest, VolServer.serve_ok hs']
    exact ih h'

theorem overlayAll_of_mem {fork : Fork} {D data : Bytes} {off : Nat} {cs : List (Nat × Nat)}
    (h : ∀ c ∈ fork.pieces data, c ∈ cs) :
    overlayAll 0 D (cs.map (part off data)) = overlay 0 D off data := by
  by_cases hd : data = []
  · rw [hd, overlayAll_part_nil, overlay, if_pos rfl]
  · exact fork.overlayAll_pieces hd off D h

theorem Link.pieceFate_eq {l : Link} {k : Crash} (h : l.Ready k) (c : Nat × Nat) :
    l.pieceFate c = k.piece c := by
  rw [Link.pieceFate, h.alive, h.crash]
  rfl

theorem Link.writeRun_complete {l : Link} {o : OpenFork} {off : Nat} {data : Bytes}
    (hcode : ∀ c, (l.srv.serve (Link.pieceRequest o.id off data c)).1.2 = resNoErr)
    (hfate : ∀ c ∈ o.fork.pieces data, l.pieceFate c = .answered) :
    (o.fork.writeAt (l.writeRun o data off) data).2 = none := by
  refine Fork.writeAt_err fun c hc => ?_
  have hc : c ∈ o.fork.pieces data := (l.crash.sched.perm _).mem_iff.mp hc
  simp only [Link.writeRun, hfate c hc, hcode]
  rfl

theorem Link.pieceFate_of_reply {l : Link} {o : OpenFork} {off : Nat} {data : Bytes} {c : Nat × Nat}
    (h : (l.writeRun o data off).reply c = .ok resNoErr) : l.pieceFate c = .answered :=
  (Fate.answered_of_ok h).1

theorem meets_writeAt (hp : leafOf p = some (dir, x)) (hdir : t.find dir = some (.dir a es))
    (k : Crash) (o : OpenFork) (off : Nat) (data : Bytes) :
    Meets (∀ c ∈ o.fork.pieces data, k.piece c = .answered)
      (fun l => HasFork t p dir x o.id f l.srv ∧ l.Ready k) (o.writeAt data off)
      fun _ l => HasFork t p dir x o.id { f with content := overlay 0 f.content off data } l.srv ∧
        l.Ready k := by
  rintro l ⟨hl, hk⟩
  have hcode (c : Nat × Nat) : (l.srv.serve (Link.pieceRequest o.id off data c)).1.2 =
      resNoErr := by
    obtain ⟨s', hs', -⟩ := hl.write hp hdir (part off data c).1 (part off data c).2
    rw [Link.pieceRequest, VolServer.serve_ok hs']
  have hperm := l.crash.sched.perm (o.fork.pieces data)
  have hon : (o.writeAt data off).on l = l.sendPieces o data off := rfl
  cases herr : (o.fork.writeAt (l.writeRun o data off) data).2 with
  | some e =>
    refine Or.inr ⟨fun hall => ?_, e, (l.sendPieces o data off).2, ?_⟩
    · rw [Link.writeRun_complete hcode
        fun c hc => (Link.pieceFate_eq hk c).trans (hall c hc)] at herr
      cases herr
    · rw [hon]
      refine Prod.ext ?_ rfl
      simp only [Link.sendPieces, herr]
  | none =>
    have hfate (c : Nat × Nat) (hc : c ∈ o.fork.pieces data) : l.pieceFate c = .answered :=
      Link.pieceFate_of_reply (Fork.writeAt_replies hperm herr c hc)
    have happlied (c : Nat × Nat) (hc : c ∈ o.fork.pieces data) :
        c ∈ (l.writeRun o data off).applied :=
      List.mem_filter.mpr ⟨hperm.mem_iff.mpr hc, by simp [hfate c hc]⟩
    refine Or.inl ⟨fun c hc => (Link.pieceFate_eq hk c).symm.trans (hfate c hc),
      (o.fork.writeAt (l.writeRun o data off) data).1, (l.sendPieces o data off).2, ?_, ?_, ?_,
        hk.crash⟩
    · rw [hon]
      refine Prod.ext ?_ rfl
      simp only [Link.sendPieces, herr]
    · have h := hl.pieces hp hdir off data (l.writeRun o data off).applied
      rwa [overlayAll_of_mem happlied] at h
    · simp only [Link.sendPieces, hk.alive, Bool.false_or, List.any_eq_false]
      intro c hc
      simp [hfate c hc]

theorem meets_writeOrClose (hp : leafOf p = some (dir, x)) (hdir : t.find dir = some (.dir a es))
    (k : Crash) (o : OpenFork) (data : Bytes) :
    Meets (∀ c ∈ o.fork.pieces data, k.piece c = .answered)
      (fun l => HasFork t p dir x o.id f l.srv ∧ l.Ready k) (o.writeOrClose data)
      fun _ l => HasFork t p dir x o.id { f with content := overlay 0 f.content 0 data } l.srv ∧
        l.Ready k := by
  refine Meets.of_iff
    ((meets_writeAt hp hdir k o 0 data).observe_bind (fun _ => Meets.pure fun _ h => h)
      fun e l => ?_)
    fun _ _ => and_iff_left trivial
  exact ⟨e, (o.close.on l).2, rfl⟩

theorem handle_closeFork {ref : ForkRef} (h : s.forks.lookup id = some ref) :
    s.handle (.closeFork id) = .ok ({}, { s with forks := s.forks.filter (·.1 ≠ id) }) := by
  simp [VolServer.handle, h]

theorem meets_close (k : Crash) (o : OpenFork) :
    Meets (k.next = .answered) (fun l => HasFork t p dir x o.id f l.srv ∧ l.Ready k) o.close
      fun _ l => l.srv.tree = t.set dir x (some (.file f)) ∧ l.Ready k.tail := by
  refine meets_simple k (P := HasFork t p dir x o.id f)
    (Q := fun s => s.tree = t.set dir x (some (.file f))) fun s hs => ?_
  exact ⟨{}, _, handle_closeFork hs.fork, hs.tree⟩

theorem meets_truncate (hp : leafOf p = some (dir, x)) (hdir : t.find dir = some (.dir a es))
    (k : Crash) (o : OpenFork) :
    Meets (k.next = .answered) (fun l => HasFork t p dir x o.id newFile l.srv ∧ l.Ready k)
      (o.truncate 0)
      fun _ l => l.srv.tree = t.set dir x (some (.file newFile)) ∧ l.Ready k.tail := by
  refine meets_simple k (P := HasFork t p dir x o.id newFile)
    (Q := fun s => s.tree = t.set dir x (some (.file newFile))) fun s hs => ?_
  obtain ⟨s', hs', h'⟩ := hs.truncate hp hdir (File.truncateLen 0)
  exact ⟨{}, s', hs', h'.tree⟩

theorem handle_setFinderInfo (hp : leafOf p = some (dir, x)) (hdir : t.find dir = some (.dir a es))
    (hf : f.attrs.writable = true) (h : s.tree = t.set dir x (some (.file f))) {w : Bytes}
    (hw : named w = .ok p) (info : Bytes) : s.handle (.setFinderInfo w info) =
      .ok ({}, { s with tree := t.set dir x (some (.file { f with attrs.finder := info })) }) := by
  have hset : s.tree.setFinderInfo p info = .ok
      (t.set dir x (some (.file { f with attrs.finder := info }))) := by
    simp only [VTree.setFinderInfo, hp, find_of_tree hp hdir h, hf, if_true]
    rw [h, Tree.set_set]
  simp only [VolServer.handle, hw]
  change (s.tree.setFinderInfo p info >>= _) = _
  rw [hset]
  rfl

theorem meets_setFinderInfo (hp : leafOf p = some (dir, x)) (hdir : t.find dir = some (.dir a es))
    (hf : f.attrs.writable = true) (k : Crash) {v : Volume} {link : Bytes}
    (hw : named (sentPath v.nfd link) = .ok p) (info : Bytes) :
    Meets (k.next = .answered) (fun l => l.srv.tree = t.set dir x (some (.file f)) ∧ l.Ready k)
      (v.setFinderInfo link info)
      fun _ l => l.srv.tree = t.set dir x (some (.file { f with attrs.finder := info })) ∧
        l.Ready k.tail := by
  refine meets_simple k (P := fun s => s.tree = t.set dir x (some (.file f)))
    (Q := fun s => s.tree = t.set dir x (some (.file { f with attrs.finder := info })))
      fun s hs => ?_
  exact ⟨{}, _, handle_setFinderInfo hp hdir hf hs hw info, rfl⟩

end NewFile

def Volume.fillLink (v : Volume) (link target : Bytes) : Vol Unit := do
  let o ← v.openFork link true
  o.writeOrClose target
  o.close
  v.setFinderInfo link symlinkFinderInfo

theorem Volume.symlink_eq (v : Volume) (link target : Bytes) :
    v.symlink link target = v.createFile link false >>= fun _ => v.fillLink link target := rfl

def linkFile (target : Bytes) : FileData :=
  ⟨⟨true, symlinkFinderInfo⟩, target⟩

/-- The next `n` requests are answered. -/
def Crash.Answers (k : Crash) : Nat → Prop
  | 0 => True
  | n + 1 => k.next = .answered ∧ k.tail.Answers n

theorem meets_fillLink {t : VTree} {p dir : Path} {x : Bytes} {a : Attrs}
    {es : List (Bytes × VTree)} (hp : leafOf p = some (dir, x))
    (hdir : t.find dir = some (.dir a es)) (k : Crash) {v : Volume} {link : Bytes}
    (hw : named (sentPath v.nfd link) = .ok p) (target : Bytes) :
    Meets (k.Answers 3 ∧ ∀ c ∈ (defaultFork v.quantum).pieces target, k.piece c = .answered)
      (fun l => l.srv.tree = t.set dir x (some (.file newFile)) ∧ l.Ready k)
        (v.fillLink link target)
      fun _ l => l.srv.tree = t.set dir x (some (.file (linkFile target))) := by
  have hcontent : overlay 0 newFile.content 0 target = target := overlay_length [] target
  have hopen := meets_openFork k v link true
    (P := fun s => s.tree = t.set dir x (some (.file newFile)))
      (Q := fun o => HasFork t p dir x o.id newFile)
    fun s hs => by
      obtain ⟨info, s', hh, -, hfork⟩ := handle_openFork hp hdir hs rfl hw true
      exact ⟨info, s', hh, hfork rfl⟩
  have hfill (o : OpenFork) :=
    (meets_writeOrClose (f := newFile) hp hdir k.tail o target).bind fun _ =>
    (meets_close k.tail o).bind fun _ => by
      rw [hcontent]
      exact meets_setFinderInfo
        (f := ⟨newAttrs, target⟩) hp hdir rfl k.tail.tail hw symlinkFinderInfo
  have hrest (o : OpenFork) :
      Meets ((∀ c ∈ (defaultFork v.quantum).pieces target, k.piece c = .answered) ∧
      k.tail.Answers 2)
        (fun l => (o.fork = defaultFork v.quantum ∧ HasFork t p dir x o.id newFile l.srv) ∧
        l.Ready k.tail)
      (o.writeOrClose target >>=
        fun _ => o.close >>= fun _ => v.setFinderInfo link symlinkFinderInfo)
      fun _ l => l.srv.tree = t.set dir x (some (.file (linkFile target))) := by
    refine Meets.of_iff ((hfill o).weaken (fun l h => ⟨h.1.2, h.2⟩) fun _ _ h => h.1) fun l h => ?_
    rw [h.1.1]
    simp only [Crash.Answers, and_true]
    rfl
  refine (hopen.bind hrest).of_iff fun _ _ => ?_
  rw [and_comm (a := ∀ c ∈ (defaultFork v.quantum).pieces target, k.piece c = .answered),
    ← and_assoc]
  rfl

section Keeps

variable {q : Path}

theorem keeps_command (req : Request) (h : VolServer.InPlace req) :
    Keeps (fun l : Link => (l.srv.tree.find q).isSome) (command req) := by
  intro l hl
  change ((l.send req).2.srv.tree.find q).isSome
  rcases l.send_srv req with hs | hs
  · rwa [hs]
  · rw [hs]
    exact VolServer.serve_isSome h hl

theorem keeps_simple (op : String) (req : Request) (h : VolServer.InPlace req) :
    Keeps (fun l : Link => (l.srv.tree.find q).isSome) (simpleCommand op req) :=
  (keeps_command req h).bind fun _ => Keeps.lift _

theorem keeps_openFork (v : Volume) (path : Bytes) (write : Bool) :
    Keeps (fun l : Link => (l.srv.tree.find q).isSome) (v.openFork path write) :=
  (keeps_command (.openFork write _) trivial).bind fun _ => (Keeps.lift _).bind fun _ =>
    Keeps.pure _

theorem serve_pieces_isSome {s : VolServer} (id off : Nat) (data : Bytes) (cs : List (Nat × Nat))
    (h : (s.tree.find q).isSome) :
    ((cs.foldl (fun s c => (s.serve (Link.pieceRequest id off data c)).2) s).tree.find
      q).isSome := by
  induction cs generalizing s with
  | nil => exact h
  | cons c cs ih =>
    have hreq : VolServer.InPlace (Link.pieceRequest id off data c) := trivial
    exact ih (VolServer.serve_isSome hreq h)

theorem keeps_writeAt (o : OpenFork) (data : Bytes) (off : Nat) :
    Keeps (fun l : Link => (l.srv.tree.find q).isSome) (o.writeAt data off) :=
  fun l hl => serve_pieces_isSome o.id off data (l.writeRun o data off).applied hl

theorem keeps_writeOrClose (o : OpenFork) (data : Bytes) :
    Keeps (fun l : Link => (l.srv.tree.find q).isSome) (o.writeOrClose data) := by
  refine (keeps_writeAt o data 0).observe.bind fun r => ?_
  cases r with
  | ok n => exact Keeps.pure _
  | error e =>
    exact (keeps_simple "close fork" (.closeFork o.id) trivial).observe.bind fun _ =>
      Keeps.lift (.error e)

theorem keeps_fillLink (v : Volume) (link target : Bytes) :
    Keeps (fun l : Link => (l.srv.tree.find q).isSome) (v.fillLink link target) :=
  (keeps_openFork v link true).bind fun o => (keeps_writeOrClose o target).bind fun _ =>
    (keeps_simple "close fork" (.closeFork o.id) trivial).bind fun _ =>
      keeps_simple _ (.setFinderInfo _ _) trivial

end Keeps

end GoAfp
