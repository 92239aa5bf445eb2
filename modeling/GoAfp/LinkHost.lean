import GoAfp.CreateRetry
import GoAfp.OpenFile

/-! The operations of a volume send request blocks to a server. If the server
refuses nothing for reasons of its own, they do to it what the requests of
`Volume` do to the server at the end of a link. -/

namespace GoAfp

open Proc

namespace Host

/-- The host knows the volume and refuses nothing. -/
structure Plain (h : Host) (v : AfpVolume) : Prop where
  volID : h.site.volID = v.id
  dirID : h.site.dirID = rootDirID
  codes : h.codes = []
  turn : ∀ c, h.turn c = .served

def onLink (h : Host) (l : Link) : Host := { h with toLink := l }

variable {h : Host} {v : AfpVolume}

theorem Plain.onLink (hp : h.Plain v) (l : Link) : (h.onLink l).Plain v :=
  ⟨hp.volID, hp.dirID, hp.codes, hp.turn⟩

/-- A block that the server takes for the request. -/
theorem Plain.send (hp : h.Plain v) (payload : Bytes) {block : Bytes} {req : Request}
    (hreceive : h.site.receive h.srv block =
      ((payload, (h.srv.serve req).1.2), (h.srv.serve req).2)) :
    h.send block =
      ((h.toLink.send req).1.map fun r => (payload, r.2), h.onLink (h.toLink.send req).2) := by
  have hanswer : answer h.site h.codes h.srv block =
      ((payload, (h.srv.serve req).1.2), (h.srv.serve req).2) := by
    rw [hp.codes]
    exact hreceive
  have htail : h.codes.tail = h.codes := by rw [hp.codes, List.tail_nil]
  rw [Host.send, hanswer, htail, Link.send]
  refine Prod.ext ?_ rfl
  change h.fate.answer _ = (h.fate.answer _).map _
  cases h.fate <;> rfl

end Host

/-- The same volume at the end of a link. -/
def AfpVolume.volume (v : AfpVolume) : Volume := ⟨v.gen, v.quantum, v.nfd⟩

section Follows

variable {α β : Type} {v : AfpVolume}

/-- What `y` does on the host is what `x` does on its link. -/
def FollowsAt (h : Host) (x : Vol α) (y : Proc Host AfpErr α) : Prop :=
  y.on h = ((x.on h.toLink).1, h.onLink (x.on h.toLink).2)

def Follows (v : AfpVolume) (x : Vol α) (y : Proc Host AfpErr α) : Prop :=
  ∀ h : Host, h.Plain v → FollowsAt h x y

theorem FollowsAt.bind {h : Host} {x : Vol α} {y : Proc Host AfpErr α} {f : α → Vol β}
    {g : α → Proc Host AfpErr β} (hx : FollowsAt h x y)
    (hf : ∀ a l, x.on h.toLink = (.ok a, l) → FollowsAt (h.onLink l) (f a) (g a)) :
    FollowsAt h (x >>= f) (y >>= g) := by
  rw [FollowsAt] at hx ⊢
  rcases hon : x.on h.toLink with ⟨e | a, l⟩
  · rw [hon] at hx
    rw [on_bind_error hon, on_bind_error hx]
  · rw [hon] at hx
    rw [on_bind_ok hon, on_bind_ok hx]
    exact hf a l hon

theorem Follows.bind {x : Vol α} {y : Proc Host AfpErr α} {f : α → Vol β}
    {g : α → Proc Host AfpErr β} (hx : Follows v x y) (hf : ∀ a, Follows v (f a) (g a)) :
    Follows v (x >>= f) (y >>= g) :=
  fun h hp => (hx h hp).bind fun a l _ => hf a (h.onLink l) (hp.onLink l)

theorem Follows.lift (e : Except AfpErr α) : Follows v (liftM e) (liftM e) :=
  fun _ _ => rfl

theorem Follows.observe {x : Vol α} {y : Proc Host AfpErr α} (hx : Follows v x y) :
    Follows v (Proc.observe x : Vol (Except AfpErr α)) (Proc.observe y) := by
  intro h hp
  rw [FollowsAt, on_observe, on_observe, hx h hp]

theorem follows_codeOnly (op : String) {block : Bytes} {req : Request}
    (hdecode : ∀ site : Site, site.volID = v.id → site.dirID = rootDirID →
      site.decode block = .ok (.vol req))
    (hreq : ∀ write path, req ≠ .openFork write path) :
    Follows v (simpleCommand op req) (codeOnly Host.command op block) := by
  intro h hp
  have hsend := hp.send _ (Site.receive_vol (s := h.srv) (hdecode h.site hp.volID hp.dirID) hreq)
  have hhost : (Host.command block).on h = h.send block := rfl
  have hlink : (command req).on h.toLink = h.toLink.send req := rfl
  rw [FollowsAt, codeOnly, simpleCommand, on_bind, on_bind, hhost, hlink, hsend]
  rcases h.toLink.send req with ⟨e | r, l⟩ <;> rfl

end Follows

section Operations

variable (v : AfpVolume)

theorem follows_createFile (path : Bytes) (overwrite : Bool) :
    Follows v (v.volume.createFile path overwrite)
      (v.createFile Host.command rootDirID path overwrite) :=
  follows_codeOnly _ (fun _ hvol hdir => decode_createFileBlock hvol hdir path overwrite)
    fun _ _ => Request.noConfusion

theorem follows_delete (path : Bytes) :
    Follows v (v.volume.delete path) (v.delete Host.command rootDirID path) :=
  follows_codeOnly _ (fun _ hvol hdir => decode_deleteBlock hvol hdir path)
    fun _ _ => Request.noConfusion

/-- The pathnames of a rename must fit in their length fields. -/
theorem follows_rename {source dest : Bytes}
    (hfits : ∀ p ∈ [source, (splitPath dest).1, (splitPath dest).2],
      (wirePath v.nfd p).length < 65536) :
    Follows v (v.volume.rename source dest) (v.rename Host.command rootDirID source dest) :=
  follows_codeOnly _ (fun _ hvol hdir => decode_renameBlock hvol hdir hfits)
    fun _ _ => Request.noConfusion

theorem follows_setFinderInfo {path fi : Bytes} (hfits : (wirePath v.nfd path).length < 65536)
    (hfi : fi.length = 32) :
    Follows v (v.volume.setFinderInfo path fi)
      (v.setFinderInfo Host.command rootDirID path fi) := by
  refine follows_codeOnly _ (fun site hvol hdir => ?_) fun _ _ => Request.noConfusion
  obtain ⟨info, hdecode, hinfo⟩ := decode_setFinderInfoBlock hvol hdir path hfi
  rw [hdecode, hinfo (unsentPath_eq_nil hfits)]
  rfl

variable {o : OpenFork} (hid : o.id < 65536)

include hid

theorem follows_close : Follows v o.close (Host.close o) := by
  refine follows_codeOnly _ (fun site _ _ => ?_) fun _ _ => Request.noConfusion
  rw [decode_closeForkBlock, toNat_forkID hid]

theorem follows_truncate (size : Int) : Follows v (o.truncate size) (Host.truncate o size) := by
  refine follows_codeOnly _ (fun site _ _ => ?_) fun _ _ => Request.noConfusion
  rw [decode_truncateBlock, toNat_forkID hid]

theorem follows_writeAt {p : Bytes} {off : Nat} (hoff : off + p.length < 2 ^ 64) :
    Follows v (o.writeAt p off) (Host.writeAt o p off) := by
  intro h hp
  have hreceive (s : VolServer) {c : Nat × Nat} (hc : c ∈ o.fork.pieces p) :
      h.site.receive s (pieceRequestBytes (UInt16.ofNat o.id) p off c) =
        (([], (s.serve (Link.pieceRequest o.id off p c)).1.2),
          (s.serve (Link.pieceRequest o.id off p c)).2) := by
    rw [receive_piece _ hoff hc, toNat_forkID hid]
  have hperm := h.crash.sched.perm (o.fork.pieces p)
  have happlied : (h.writeRun o p off).applied = (h.toLink.writeRun o p off).applied := by
    refine List.filter_congr fun c _ => ?_
    simp [Host.pieceApplied, hp.turn c]
  have hreply (c : Nat × Nat) (hc : c ∈ o.fork.pieces p) :
      (h.writeRun o p off).reply c = (h.toLink.writeRun o p off).reply c := by
    change (h.pieceReply _ c).map Prod.snd = (h.pieceFate c).answer _
    rw [Host.pieceReply, hp.turn c, hreceive h.srv hc]
    cases h.pieceFate c <;> rfl
  have hresult : o.fork.writeAt (h.writeRun o p off) p =
      o.fork.writeAt (h.toLink.writeRun o p off) p :=
    o.fork.writeAt_congr rfl (fun c hc => hperm.mem_iff.mp hc) hreply
  have hsrv : (h.writeRun o p off).applied.foldl (fun s c =>
        (h.site.receive s (pieceRequestBytes (UInt16.ofNat o.id) p off c)).2) h.srv =
      (h.toLink.writeRun o p off).applied.foldl
        (fun s c => (s.serve (Link.pieceRequest o.id off p c)).2) h.srv := by
    rw [happlied]
    refine List.foldl_ext _ _ _ fun s c hc => ?_
    rw [hreceive s (hperm.mem_iff.mp (List.mem_of_mem_filter hc))]
  change h.sendPieces o p off =
    ((h.toLink.sendPieces o p off).1, h.onLink (h.toLink.sendPieces o p off).2)
  rw [Host.sendPieces, Link.sendPieces, hresult, hsrv]
  rfl

theorem follows_writeOrClose {p : Bytes} (hlen : p.length < 2 ^ 64) :
    Follows v (o.writeOrClose p) (AfpVolume.writeOrClose o p) := by
  have hlen' : 0 + p.length < 2 ^ 64 := by rwa [Nat.zero_add]
  refine (follows_writeAt v hid hlen').observe.bind fun r => ?_
  cases r with
  | ok n => exact Follows.lift (.ok ())
  | error e => exact (follows_close v hid).observe.bind fun _ => Follows.lift (.error e)

omit hid

theorem openFork_info {s s' : VolServer} {write : Bool} {w : Bytes} {info : ForkInfo}
    (h : s.handle (.openFork write w) = .ok (info, s')) :
    ∃ p f, named w = .ok p ∧ s.tree.find p = some (.file f) ∧
      info = ⟨s.nextFork, f.content.length⟩ := by
  obtain ⟨p, hp, h⟩ := VolServer.named_bind_ok h
  obtain ⟨f, hfind, hinfo, -⟩ := VolServer.openFork_ok h
  exact ⟨p, f, hp, hfind, hinfo⟩

/-- An open fork gets the ID that comes next, if the server would choose it. -/
theorem followsAt_openFork {h : Host} (hp : h.Plain v) {path : Bytes} (write : Bool)
    (hfree : freeFork h.srv.forks 65536 0 = some h.srv.nextFork)
    (hshort : ∀ p f, named (sentPath v.nfd path) = .ok p → h.srv.tree.find p = some (.file f) →
      f.content.length < 2 ^ 64) :
    FollowsAt h (v.volume.openFork path write)
      (v.openForkMode rootDirID path (if write then forkRead ||| forkWrite else forkRead)) := by
  have hmode : decide ((if write then forkRead ||| forkWrite else forkRead) &&& forkWrite ≠ 0) =
      write := by
    cases write <;> decide
  generalize (if write then forkRead ||| forkWrite else forkRead) = mode at hmode ⊢
  have hdecode := decode_openForkBlock hp.volID hp.dirID path mode
  rw [hmode] at hdecode
  have hsame : ({ h.srv with nextFork := h.srv.nextFork } : VolServer) = h.srv := rfl
  have hreceive := Site.receive_of_decode (s := h.srv) hdecode
  rw [Site.respond, Site.openFork, hfree] at hreceive
  simp only [hsame] at hreceive
  have hhost : (Host.command (v.openForkBlock rootDirID path mode)).on h =
      h.send (v.openForkBlock rootDirID path mode) := rfl
  have hlink : (command (.openFork write (sentPath v.volume.nfd path))).on h.toLink =
      h.toLink.send (.openFork write (sentPath v.nfd path)) := rfl
  rw [FollowsAt, AfpVolume.openForkMode, AfpVolume.openForkVia, AfpVolume.openForkBy,
    Volume.openFork, on_bind, on_bind, hhost, hlink]
  have hanswer : (h.toLink.send (.openFork write (sentPath v.nfd path))).1 =
      h.fate.answer (.ok (h.srv.serve (.openFork write (sentPath v.nfd path))).1) := rfl
  cases hhandle : h.srv.handle (.openFork write (sentPath v.nfd path)) with
  | error r =>
    have hserve := VolServer.serve_error hhandle
    rw [hhandle] at hreceive
    rw [hp.send [] (hreceive.trans (by rw [hserve]))]
    generalize h.toLink.send (.openFork write (sentPath v.nfd path)) = sent at hanswer
    obtain ⟨answer, l⟩ := sent
    simp only at hanswer
    rw [hanswer, hserve]
    cases h.fate with
    | answered =>
      simp only [Fate.answer, Except.map, resultErr_refused]
      rfl
    | _ => rfl
  | ok opened =>
    obtain ⟨info, s'⟩ := opened
    have hserve := VolServer.serve_ok hhandle
    obtain ⟨p, f, hnamed, hfind, rfl⟩ := openFork_info hhandle
    have hid : h.srv.nextFork < 65536 := by simpa using (freeFork_eq_some hfree).2
    have hlen : (UInt64.ofNat f.content.length).toNat = f.content.length :=
      UInt64.toNat_ofNat_of_lt' (hshort p f hnamed hfind)
    rw [hhandle] at hreceive
    rw [hp.send _ (hreceive.trans (by rw [hserve]))]
    generalize h.toLink.send (.openFork write (sentPath v.nfd path)) = sent at hanswer
    obtain ⟨answer, l⟩ := sent
    simp only at hanswer
    rw [hanswer, hserve]
    cases h.fate with
    | answered =>
      simp only [Fate.answer, Except.map, resultErr_noErr, openForkReply_ok]
      change (Except.ok (⟨defaultFork v.quantum, v.gen, (UInt16.ofNat h.srv.nextFork).toNat,
        (UInt64.ofNat f.content.length).toNat⟩ : OpenFork), h.onLink l) = _
      rw [toNat_forkID hid, hlen]
      rfl
    | _ => rfl

theorem create_srv {op : String} {w : Bytes} {l l' : Link}
    (h : (simpleCommand op (.createFile false w)).on l = (.ok (), l')) :
    l'.srv = { l.srv with tree := l'.srv.tree } := by
  have hfate : l.fate = .answered := fate_of_simple_ok (by rw [h]; rfl)
  have hlink := simple_link op (.createFile false w) l
  have hsrv := (Link.send_answered hfate (.createFile false w)).2
  rw [h] at hlink
  rw [(treeOnly_create w).serve_ok (create_ok h), ← hlink] at hsrv
  exact hsrv

/-- A symbolic link: the file is new, so its fork is the next one and empty. -/
theorem followsAt_symlink {h : Host} (hp : h.Plain v)
    (hfree : freeFork h.srv.forks 65536 0 = some h.srv.nextFork) {link target : Bytes}
    (hfits : (wirePath v.nfd link).length < 65536) (hlen : target.length < 2 ^ 64) :
    FollowsAt h (v.volume.symlink link target) (v.symlink rootDirID link target) := by
  refine (follows_createFile v link false h hp).bind fun _ l hcreate => ?_
  obtain ⟨q, dir, x, hslot, htree⟩ := slot_of_create (create_ok hcreate)
  have hsrv := create_srv hcreate
  have hopen : FollowsAt (h.onLink l) (v.volume.openFork link true)
      (v.openForkRW rootDirID link) := by
    refine followsAt_openFork v (hp.onLink l) true ?_ ?_
    · change freeFork l.srv.forks 65536 0 = some l.srv.nextFork
      rw [hsrv]
      exact hfree
    · intro p f hnamed hfind
      obtain rfl : p = q := by
        have hwire : named (sentPath v.nfd link) = .ok q := hslot.wire
        rw [hnamed] at hwire
        exact Except.ok.inj hwire
      have hnew : l.srv.tree.find p = some (.file newFile) := by
        rw [htree]
        exact hslot.find_set newFile
      obtain rfl : newFile = f := by
        have hfile := hnew.symm.trans hfind
        cases hfile
        rfl
      decide
  refine hopen.bind fun o l' ho => ?_
  have hid : o.id < 65536 := by
    have hhost : (v.openForkRW rootDirID link).on (h.onLink l) =
        (.ok o, (h.onLink l).onLink l') := by
      have hon : (v.volume.openFork link true).on (h.onLink l).toLink = (.ok o, l') := ho
      rw [hopen, hon]
    obtain ⟨r, _, -, hrest⟩ := ok_of_on_bind hhost
    obtain ⟨_, _, -, hrest⟩ := ok_of_on_bind hrest
    obtain ⟨f, _, -, hrest⟩ := ok_of_on_bind hrest
    cases hrest
    exact f.id.toNat_lt
  exact ((follows_writeOrClose v hid hlen).bind fun _ => (follows_close v hid).bind fun _ =>
    follows_setFinderInfo v hfits rfl) _ ((hp.onLink l).onLink l')

end Operations

end GoAfp
