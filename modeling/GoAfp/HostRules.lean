import GoAfp.ForkRead
import GoAfp.Host

/-! When the requests of a volume's operations are served and what they then
have done, and what they leave in place when they are not. -/

namespace GoAfp

open Proc

/-- What a server is going to do with the requests it gets. -/
structure Conduct where
  site : Site
  crash : Crash
  codes : List (Option ErrCode)
  turn : Nat × Nat → Turn

namespace Conduct

variable (c : Conduct)

def host (s : VolServer) : Host :=
  { srv := s, crash := c.crash, dead := false, site := c.site, codes := c.codes, turn := c.turn }

/-- Every request is served. -/
def calm (site : Site) (sched : Schedule) : Conduct :=
  ⟨site, .never sched, [], fun _ => .served⟩

/-- Requests are refused with the codes given. -/
def refusing (codes : List (Option ErrCode)) : Conduct :=
  ⟨plainSite, .never inOrder, codes, fun _ => .served⟩

def tail : Conduct :=
  { c with crash := c.crash.tail, codes := c.codes.tail }

/-- The next request gets to the server and back, and is not refused. -/
def Accepts : Prop :=
  c.crash.next = .answered ∧ c.codes.headD none = none

instance : Decidable c.Accepts := inferInstanceAs (Decidable (_ ∧ _))

/-- All requests of a read or write are served. -/
def Serves (cs : List (Nat × Nat)) : Prop :=
  ∀ p ∈ cs, c.crash.piece p = .answered ∧ c.turn p = .served

/-- A server of this conduct with `P`. -/
def With (P : VolServer → Prop) (h : Host) : Prop :=
  ∃ s, h = c.host s ∧ P s

theorem host_fate (s : VolServer) : (c.host s).fate = c.crash.next := rfl

theorem host_pieceFate (s : VolServer) (p : Nat × Nat) :
    (c.host s).pieceFate p = c.crash.piece p := rfl

variable {c}

theorem command_host (hk : c.crash.next = .answered) (s : VolServer) (block : Bytes) :
    (Host.command block).on (c.host s) =
      (.ok (Host.answer c.site c.codes s block).1, c.tail.host
        (Host.answer c.site c.codes s block).2) := by
  change (c.host s).send block = _
  rw [Host.send, host_fate, hk]
  rfl

theorem command_unanswered (hk : c.crash.next ≠ .answered) (s : VolServer) (block : Bytes) :
    ((Host.command block).on (c.host s)).1 = .error (.transport .closed) := by
  change ((c.host s).send block).1 = _
  rw [Host.send, host_fate]
  cases h : c.crash.next with
  | answered => exact absurd h hk
  | applied => rfl
  | lost => rfl

theorem answer_served {site : Site} {codes : List (Option ErrCode)} (h : codes.headD none = none)
    (s : VolServer) (block : Bytes) : Host.answer site codes s block = site.receive s block := by
  rw [Host.answer, h]

theorem answer_refused {site : Site} {codes : List (Option ErrCode)} (h : codes.headD none ≠ none)
    (s : VolServer) (block : Bytes) :
    (Host.answer site codes s block).1.2 ≠ resNoErr ∧ (Host.answer site codes s block).2 = s := by
  rw [Host.answer]
  cases hc : codes.headD none with
  | none => exact absurd hc h
  | some code => exact ⟨code.property, rfl⟩

theorem codeOnly_host (hk : c.crash.next = .answered) (op : String) (s : VolServer)
    (block : Bytes) :
    (codeOnly Host.command op block).on (c.host s) =
      (resultErr op (Host.answer c.site c.codes s block).1.2, c.tail.host
        (Host.answer c.site c.codes s block).2) := by
  rw [codeOnly, on_bind_ok (command_host hk s block)]
  rfl

theorem codeOnly_unanswered (hk : c.crash.next ≠ .answered) (op : String) (s : VolServer)
    (block : Bytes) :
    ∃ h', (codeOnly Host.command op block).on (c.host s) = (.error (.transport .closed), h') := by
  refine ⟨((Host.command block).on (c.host s)).2, ?_⟩
  rw [codeOnly, on_bind_error (Prod.ext (command_unanswered hk s block) rfl)]

theorem codeOnly_srv (op : String) (s : VolServer) (block : Bytes) :
    ((codeOnly Host.command op block).on (c.host s)).2.srv = s ∨
      ((codeOnly Host.command op block).on (c.host s)).2.srv =
        (Host.answer c.site c.codes s block).2 := by
  have hcommand : (Host.command block).on (c.host s) = (c.host s).send block := rfl
  have hsame : ((codeOnly Host.command op block).on (c.host s)).2 = ((c.host s).send block).2 := by
    rw [codeOnly, on_bind, hcommand]
    rcases (c.host s).send block with ⟨_ | r, h⟩ <;> rfl
  rw [hsame]
  change (if (c.host s).fate = .lost then s else (Host.answer c.site c.codes s block).2) = s ∨
    (if (c.host s).fate = .lost then s else (Host.answer c.site c.codes s block).2) = _
  by_cases hlost : (c.host s).fate = .lost
  · exact Or.inl (if_pos hlost)
  · exact Or.inr (if_neg hlost)

theorem codeOnly_refused (hk : c.crash.next = .answered) (op : String) {s : VolServer}
    {block : Bytes} (hcode : (Host.answer c.site c.codes s block).1.2 ≠ resNoErr) :
    (codeOnly Host.command op block).on (c.host s) =
      (.error (.result op (Host.answer c.site c.codes s block).1.2),
        c.tail.host (Host.answer c.site c.codes s block).2) := by
  rw [codeOnly_host hk, resultErr, if_neg hcode]

end Conduct

section Rules

variable {c : Conduct} {P : VolServer → Prop}

/-- A request that the server has no reason of its own to refuse. -/
theorem meets_codeOnly {op : String} {block : Bytes} {Q : VolServer → Prop}
    (h : ∀ s, P s → ∃ payload s', c.site.receive s block = ((payload, resNoErr), s') ∧ Q s') :
    Meets c.Accepts (c.With P) (codeOnly Host.command op block) fun _ => c.tail.With Q := by
  rintro _ ⟨s, rfl, hP⟩
  by_cases hk : c.crash.next = .answered
  · by_cases hcode : c.codes.headD none = none
    · obtain ⟨payload, s', hreceive, hQ⟩ := h s hP
      refine Or.inl ⟨⟨hk, hcode⟩, (), c.tail.host s', ?_, s', rfl, hQ⟩
      rw [Conduct.codeOnly_host hk, Conduct.answer_served hcode, hreceive, resultErr_noErr]
    · exact Or.inr ⟨fun hacc => hcode hacc.2, _, _,
        Conduct.codeOnly_refused hk op (Conduct.answer_refused hcode s block).1⟩
  · obtain ⟨h', hon⟩ := Conduct.codeOnly_unanswered hk op s block
    exact Or.inr ⟨fun hacc => hk hacc.1, _, h', hon⟩

theorem openForkReply_ok (id : UInt16) (size : UInt64) :
    openForkReply (putU16 kFPExtDataForkLenBit ++ (putU16 id ++ putU64 size)) = .ok ⟨id, size⟩ := by
  let fields : StateM Reader OpenedFork := do
    let _ ← Reader.u16 "open bitmap"
    let forkID ← Reader.u16 "fork id"
    let size ← Reader.u64 "fork length"
    return ⟨forkID, size⟩
  have hreads : Reader.Reads fields
      (putU16 kFPExtDataForkLenBit ++ (putU16 id ++ (putU64 size ++ []))) ⟨id, size⟩ :=
    (Reader.reads_u16 _ "open bitmap").bind <| (Reader.reads_u16 id "fork id").bind <|
    (Reader.reads_u64 size "fork length").bind (Reader.Reads.pure _)
  rw [List.append_nil] at hreads
  have hdecode : openForkReply (putU16 kFPExtDataForkLenBit ++ (putU16 id ++ putU64 size)) =
      (Reader.parse fields (putU16 kFPExtDataForkLenBit ++ (putU16 id ++ putU64 size))).mapError
        Fault.error := by
    refine Checked.decode_check ?_
    simp only [Checked.u16_eq, Checked.u64_eq]
    rfl
  rw [hdecode, parse_reads hreads]
  rfl

theorem statReply_ok (nfc : Bytes → Bytes) (isDir : Bool) (fileBitmap dirBitmap : UInt16)
    (params : Params) :
    statReply nfc (putU16 fileBitmap ++ (putU16 dirBitmap ++ ([if isDir then 0x80 else 0] ++ ([0] ++
        params.layout isDir (if isDir then dirBitmap else fileBitmap))))) =
      .ok (params.entry isDir (if isDir then dirBitmap else fileBitmap) nfc) := by
  have hparse :=
    parseEntryParams_laid nfc
      (params.laid_layout isDir (if isDir then dirBitmap else fileBitmap) [])
  have hflag : decide ((if isDir then 0x80 else 0 : UInt8) ≠ 0) = isDir := by cases isDir <;> rfl
  rw [List.append_nil] at hparse
  generalize params.layout isDir (if isDir then dirBitmap else fileBitmap) = block at hparse ⊢
  generalize (if isDir then 0x80 else 0 : UInt8) = kind at hflag ⊢
  generalize hpayload : putU16 fileBitmap ++
    (putU16 dirBitmap ++ ([kind] ++ ([0] ++ block))) = payload
  have hfile : (Reader.u16 "file bitmap").run ⟨payload, 0, none⟩ =
      (fileBitmap, ⟨payload, 2, none⟩) :=
    (Reader.reads_u16 fileBitmap _).run_at []
      (putU16 dirBitmap ++ ([kind] ++ ([0] ++ block))) hpayload.symm rfl
  have hdir : (Reader.u16 "dir bitmap").run ⟨payload, 2, none⟩ = (dirBitmap, ⟨payload, 4, none⟩) :=
    (Reader.reads_u16 dirBitmap _).run_at (putU16 fileBitmap)
      ([kind] ++ ([0] ++ block)) hpayload.symm rfl
  have hkind : (Reader.u8 "isdir").run ⟨payload, 4, none⟩ = (kind, ⟨payload, 5, none⟩) :=
    (Reader.reads_u8 kind _).run_at (putU16 fileBitmap ++ putU16 dirBitmap) ([0] ++ block)
      (by simp [← hpayload]) rfl
  have hpad : (Reader.u8 "pad").run ⟨payload, 5, none⟩ = (0, ⟨payload, 6, none⟩) :=
    (Reader.reads_u8 0 _).run_at (putU16 fileBitmap ++ putU16 dirBitmap ++ [kind]) block
      (by simp [← hpayload]) rfl
  have hcheck : (Checked.check id : CheckedM AfpErr Unit).on ⟨payload, 6, none⟩ =
      (.ok (), ⟨payload, 6, none⟩) := rfl
  have hslice : (Fault.slice payload 6 payload.length : Except (Fault AfpErr) Bytes) =
      .ok block := by
    have hlen : payload.length = 6 + block.length := by
      rw [← hpayload]
      simp
      omega
    have hdrop : payload.drop 6 = block := by
      rw [← hpayload]
      rfl
    rw [Fault.slice_eq (by omega) le_rfl, hdrop, List.take_of_length_le (by omega)]
  rw [statReply, Checked.decode]
  simp only [Checked.u16_eq, Checked.u8_eq]
  rw [on_bind_ok (Checked.on_read hfile), on_bind_ok (Checked.on_read hdir),
    on_bind_ok (Checked.on_read hkind), on_bind_ok (Checked.on_read hpad), on_bind_ok hcheck,
    on_bind_ok (on_get _), hslice]
  change Checked.parseEntryParams nfc block (decide (kind ≠ 0))
    (if decide (kind ≠ 0) then dirBitmap else fileBitmap) = _
  rw [hflag, Checked.parseEntryParams_eq, hparse]
  rfl

section OpenFork

variable {v : AfpVolume} {dirID : UInt32} {path : Bytes} {mode : UInt16} {s s' : VolServer}

theorem openForkMode_refused (hk : c.crash.next = .answered)
    (hcode : (Host.answer c.site c.codes s (v.openForkBlock dirID path mode)).1.2 ≠ resNoErr) :
    (v.openForkMode dirID path mode).on (c.host s) =
      (.error
        (.result ("open " ++ goText path)
          (Host.answer c.site c.codes s (v.openForkBlock dirID path mode)).1.2),
        c.tail.host (Host.answer c.site c.codes s (v.openForkBlock dirID path mode)).2) := by
  rw [AfpVolume.openForkMode, AfpVolume.openForkVia, AfpVolume.openForkBy,
    on_bind_ok (Conduct.command_host hk s _)]
  refine on_bind_error ?_
  rw [on_lift, resultErr, if_neg hcode]

theorem openForkMode_opened (hk : c.crash.next = .answered) {id : UInt16} {size : UInt64}
    (hanswer : Host.answer c.site c.codes s (v.openForkBlock dirID path mode) =
      ((putU16 kFPExtDataForkLenBit ++ (putU16 id ++ putU64 size), resNoErr), s')) :
    (v.openForkMode dirID path mode).on (c.host s) =
      (.ok ⟨defaultFork v.quantum, v.gen, id.toNat, size.toNat⟩, c.tail.host s') := by
  rw [AfpVolume.openForkMode, AfpVolume.openForkVia, AfpVolume.openForkBy,
    on_bind_ok (Conduct.command_host hk s _), hanswer]
  simp only [resultErr_noErr, openForkReply_ok]
  rfl

theorem openForkMode_unanswered (hk : c.crash.next ≠ .answered) :
    ∃ h', (v.openForkMode dirID path mode).on (c.host s) = (.error (.transport .closed), h') := by
  refine ⟨((Host.command (v.openForkBlock dirID path mode)).on (c.host s)).2, ?_⟩
  rw [AfpVolume.openForkMode, AfpVolume.openForkVia, AfpVolume.openForkBy,
    on_bind_error (Prod.ext (Conduct.command_unanswered hk s _) rfl)]

end OpenFork

theorem meets_openForkMode (v : AfpVolume) (dirID : UInt32) (path : Bytes) (mode id : UInt16)
    (size : UInt64) {Q : VolServer → Prop}
    (h : ∀ s, P s → ∃ s', c.site.receive s (v.openForkBlock dirID path mode) =
      ((putU16 kFPExtDataForkLenBit ++ (putU16 id ++ putU64 size), resNoErr), s') ∧ Q s') :
    Meets c.Accepts (c.With P) (v.openForkMode dirID path mode)
      fun o h => o = ⟨defaultFork v.quantum, v.gen, id.toNat, size.toNat⟩ ∧ c.tail.With Q h := by
  rintro _ ⟨s, rfl, hP⟩
  by_cases hk : c.crash.next = .answered
  · by_cases hcode : c.codes.headD none = none
    · obtain ⟨s', hreceive, hQ⟩ := h s hP
      have hanswer := (Conduct.answer_served hcode s _).trans hreceive
      exact Or.inl
        ⟨⟨hk, hcode⟩, _, c.tail.host s', openForkMode_opened hk hanswer, rfl, s', rfl, hQ⟩
    · exact Or.inr
        ⟨fun hacc => hcode hacc.2, _, _,
          openForkMode_refused hk (Conduct.answer_refused hcode s _).1⟩
  · obtain ⟨h', hon⟩ := openForkMode_unanswered hk
    exact Or.inr ⟨fun hacc => hk hacc.1, _, h', hon⟩

end Rules

section NewFile

variable {t : VTree} {p dir : Path} {x : Bytes} {a : Attrs} {es : List (Bytes × VTree)}
  {f : FileData} {s : VolServer}
  {id : Nat} {F : List (Nat × ForkRef)} {c : Conduct} {site : Site}

theorem toNat_forkID (h : id < 65536) : (UInt16.ofNat id).toNat = id :=
  UInt16.toNat_ofNat_of_lt' h

theorem receive_openFork {v : AfpVolume} {dirID : UInt32} {path : Bytes} (hvol : site.volID = v.id)
    (hdirID : site.dirID = dirID) (mode : UInt16) (write : Bool)
    (hmode : decide (mode &&& forkWrite ≠ 0) = write) (hw : named (sentPath v.nfd path) = .ok p)
    (hfind : s.tree.find p = some (.file f)) (hf : f.attrs.writable = true)
    (hid : freeFork s.forks 65536 0 = some id) : site.receive s (v.openForkBlock dirID path mode) =
      ((putU16 kFPExtDataForkLenBit ++
        (putU16 (UInt16.ofNat id) ++ putU64 (UInt64.ofNat f.content.length)), resNoErr),
        { s with forks := (id, ⟨p, write⟩) :: s.forks, nextFork := id + 1 }) := by
  rw [Site.receive_of_decode (decode_openForkBlock hvol hdirID path mode), hmode, Site.respond,
    Site.openFork, hid]
  simp only [VolServer.handle, hw]
  simp [bind, Except.bind, VolServer.openFork, hfind, hf]

theorem receive_openFork_full {v : AfpVolume} {dirID : UInt32} (hvol : site.volID = v.id)
    (hdirID : site.dirID = dirID) (path : Bytes) (mode : UInt16)
    (hid : freeFork s.forks 65536 0 = none) :
    site.receive s (v.openForkBlock dirID path mode) = (([], resTooManyFilesOpen), s) := by
  rw [Site.receive_of_decode (decode_openForkBlock hvol hdirID path mode), Site.respond,
    Site.openFork, hid]

theorem receive_piece (id : UInt16) {fork : Fork} {data : Bytes} {off : Nat}
    (hoff : off + data.length < 2 ^ 64) {pc : Nat × Nat} (hpc : pc ∈ fork.pieces data) :
    site.receive s (pieceRequestBytes id data off pc) =
      (([], (s.serve (Link.pieceRequest id.toNat off data pc)).1.2),
        (s.serve (Link.pieceRequest id.toNat off data pc)).2) := by
  have hend := chunks_end_le hpc
  have hlen : (part off data pc).2.length = pc.2 := part_length hend
  refine Site.receive_vol ?_ fun _ _ => Request.noConfusion
  exact decode_writeRequest id (by change off + pc.1 < _; omega) (by omega)

theorem receive_pieces (id : UInt16) {fork : Fork} {data : Bytes} {off : Nat}
    (hoff : off + data.length < 2 ^ 64) {cs : List (Nat × Nat)}
    (hcs : ∀ pc ∈ cs, pc ∈ fork.pieces data) :
    cs.foldl (fun s pc => (site.receive s (pieceRequestBytes id data off pc)).2) s =
      cs.foldl (fun s pc => (s.serve (Link.pieceRequest id.toNat off data pc)).2) s := by
  refine List.foldl_ext _ _ _ fun s pc hpc => ?_
  rw [receive_piece id hoff (hcs pc hpc)]

theorem serve_pieces_forks (off : Nat) (data : Bytes) (cs : List (Nat × Nat)) :
    (cs.foldl (fun s pc => (s.serve (Link.pieceRequest id off data pc)).2) s).forks = s.forks := by
  induction cs generalizing s with
  | nil => rfl
  | cons pc cs ih =>
    rw [List.foldl_cons, ih]
    exact VolServer.serve_setTree rfl

theorem pieceReply_iff {block : Bytes} {pc : Nat × Nat}
    (h : (c.site.receive s block).1.2 = resNoErr) :
    ((c.host s).pieceReply block pc).map Prod.snd = .ok resNoErr ↔
      c.crash.piece pc = .answered ∧ c.turn pc = .served := by
  have hturn : (c.host s).turn pc = c.turn pc := rfl
  have hreceive : (c.host s).site.receive (c.host s).srv block = c.site.receive s block := rfl
  rw [Host.pieceReply, Conduct.host_pieceFate, hturn, hreceive]
  cases hserved : c.turn pc with
  | served => cases hfate : c.crash.piece pc <;> simp [Fate.answer, Except.map, h]
  | refused code => cases hfate : c.crash.piece pc <;> simp [Fate.answer, Except.map, code.property]
  | givenUp applied => simp [Except.map]

theorem Host.writeAt_err_iff {o : OpenFork} {data : Bytes} {off : Nat}
    (h : ∀ pc ∈ o.fork.pieces data,
      (c.site.receive s (pieceRequestBytes (UInt16.ofNat o.id) data off pc)).1.2 = resNoErr) :
    (o.fork.writeAt ((c.host s).writeRun o data off) data).2 = none ↔
      c.Serves (o.fork.pieces data) := by
  have hperm := c.crash.sched.perm (o.fork.pieces data)
  constructor
  · intro herr pc hpc
    exact (pieceReply_iff (h pc hpc)).mp (Fork.writeAt_replies hperm herr pc hpc)
  · intro hserves
    refine Fork.writeAt_err fun pc hpc => ?_
    have hmem := hperm.mem_iff.mp hpc
    exact (pieceReply_iff (h pc hmem)).mpr (hserves pc hmem)

section Served

variable {o : OpenFork} {data : Bytes} (h : c.Serves (o.fork.pieces data)) (s : VolServer)
  (off : Nat)

include h

theorem Conduct.Serves.mem_applied (pc : Nat × Nat) :
    pc ∈ ((c.host s).writeRun o data off).applied ↔ pc ∈ o.fork.pieces data := by
  have hperm := c.crash.sched.perm (o.fork.pieces data)
  refine List.mem_filter.trans
    ⟨fun hpc => hperm.mem_iff.mp hpc.1, fun hpc => ⟨hperm.mem_iff.mpr hpc, ?_⟩⟩
  have hfate : (c.host s).pieceFate pc = .answered := (h pc hpc).1
  have hturn : (c.host s).turn pc = .served := (h pc hpc).2
  simp [Host.pieceApplied, hfate, hturn]

theorem Conduct.Serves.sendPieces :
    ((c.host s).sendPieces o data off).2 = c.host ((c.host s).sendPieces o data off).2.srv := by
  have hdead : ((o.fork.pieces data).any fun pc => (c.host s).pieceFate pc ≠ .answered) =
      false := by
    simp only [List.any_eq_false]
    intro pc hpc
    have hfate : (c.host s).pieceFate pc = .answered := (h pc hpc).1
    simp [hfate]
  simp only [Host.sendPieces, hdead]
  rfl

end Served

theorem Host.meets_writeAt (hp : leafOf p = some (dir, x)) (hdir : t.find dir = some (.dir a es))
    {o : OpenFork} (hid : o.id < 65536) {data : Bytes} {off : Nat}
    (hoff : off + data.length < 2 ^ 64) :
    Meets (c.Serves (o.fork.pieces data)) (c.With fun s => HasFork t p dir x o.id f s ∧ s.forks = F)
      (Host.writeAt o data off)
      fun _ => c.With fun s =>
        HasFork t p dir x o.id { f with content := overlay 0 f.content off data } s ∧
        s.forks = F := by
  rintro _ ⟨s, rfl, hs, hF⟩
  have hcode (pc : Nat × Nat) (hpc : pc ∈ o.fork.pieces data) :
      (c.site.receive s (pieceRequestBytes (UInt16.ofNat o.id) data off pc)).1.2 = resNoErr := by
    obtain ⟨s', hs', -⟩ := hs.write hp hdir (part off data pc).1 (part off data pc).2
    rw [receive_piece _ hoff hpc, toNat_forkID hid, Link.pieceRequest, VolServer.serve_ok hs']
  have hon : (Host.writeAt o data off).on (c.host s) = (c.host s).sendPieces o data off := rfl
  cases herr : (o.fork.writeAt ((c.host s).writeRun o data off) data).2 with
  | some e =>
    refine Or.inr ⟨fun hserves => ?_, e, ((c.host s).sendPieces o data off).2, ?_⟩
    · rw [(Host.writeAt_err_iff hcode).mpr hserves] at herr
      cases herr
    · rw [hon]
      refine Prod.ext ?_ rfl
      simp only [Host.sendPieces, herr]
  | none =>
    have hserves := (Host.writeAt_err_iff hcode).mp herr
    refine Or.inl ⟨hserves, (o.fork.writeAt ((c.host s).writeRun o data off) data).1,
      ((c.host s).sendPieces o data off).2, ?_, ((c.host s).sendPieces o data off).2.srv,
        hserves.sendPieces s off, ?_⟩
    · rw [hon]
      refine Prod.ext ?_ rfl
      simp only [Host.sendPieces, herr]
    · change HasFork t p dir x o.id _ (List.foldl _ s _) ∧ (List.foldl _ s _).forks = F
      rw [show (c.host s).site = c.site from rfl, receive_pieces _ hoff
        fun pc => (hserves.mem_applied s off pc).mp, toNat_forkID hid]
      have h := hs.pieces hp hdir off data ((c.host s).writeRun o data off).applied
      rw [overlayAll_of_mem fun pc => (hserves.mem_applied s off pc).mpr] at h
      exact ⟨h, (serve_pieces_forks off data _).trans hF⟩

theorem Host.meets_writeOrClose (hp : leafOf p = some (dir, x))
    (hdir : t.find dir = some (.dir a es)) {o : OpenFork} (hid : o.id < 65536) {data : Bytes}
    (hlen : data.length < 2 ^ 63) :
    Meets (c.Serves (o.fork.pieces data)) (c.With fun s => HasFork t p dir x o.id f s ∧ s.forks = F)
      (AfpVolume.writeOrClose o data)
      fun _ => c.With fun s =>
        HasFork t p dir x o.id { f with content := overlay 0 f.content 0 data } s ∧
        s.forks = F := by
  refine Meets.of_iff
    ((Host.meets_writeAt hp hdir hid (by omega)).observe_bind (fun _ => Meets.pure fun _ h => h)
    fun e h => ?_) fun _ _ => and_iff_left trivial
  exact ⟨e, ((Host.close o).on h).2, rfl⟩

theorem Host.meets_close {o : OpenFork} (hid : o.id < 65536) {F' : List (Nat × ForkRef)}
    (hF : F.filter (·.1 ≠ o.id) = F') :
    Meets c.Accepts (c.With fun s => HasFork t p dir x o.id f s ∧ s.forks = F) (Host.close o)
      fun _ => c.tail.With fun s => s.tree = t.set dir x (some (.file f)) ∧ s.forks = F' := by
  refine meets_codeOnly fun s hs => ?_
  have hdecode : c.site.decode (closeForkBlock (UInt16.ofNat o.id)) = .ok
      (.vol (.closeFork (UInt16.ofNat o.id).toNat)) :=
    decode_closeForkBlock _
  rw [toNat_forkID hid] at hdecode
  refine ⟨[], { s with forks := s.forks.filter (·.1 ≠ o.id) }, ?_, hs.1.tree, hs.2 ▸ hF⟩
  rw [Site.receive_vol hdecode fun _ _ => Request.noConfusion,
    VolServer.serve_ok (handle_closeFork hs.1.fork)]

theorem Host.meets_setFinderInfo (hp : leafOf p = some (dir, x))
    (hdir : t.find dir = some (.dir a es)) (hf : f.attrs.writable = true) {v : AfpVolume}
    {dirID : UInt32} (hvol : c.site.volID = v.id) (hdirID : c.site.dirID = dirID) {path : Bytes}
    (hw : named (sentPath v.nfd path) = .ok p) (fi : Bytes) (hfi : fi.length = 32) :
    Meets c.Accepts (c.With fun s => s.tree = t.set dir x (some (.file f)) ∧ s.forks = F)
      (v.setFinderInfo Host.command dirID path fi)
      fun _ => c.tail.With fun s => (∃ info, (unsentPath v.nfd path = [] → info = fi) ∧
        s.tree = t.set dir x (some (.file { f with attrs.finder := info }))) ∧ s.forks = F := by
  obtain ⟨info, hdecode, hinfo⟩ := decode_setFinderInfoBlock hvol hdirID path hfi
  refine meets_codeOnly fun s hs => ?_
  refine ⟨[], { s with tree := t.set dir x (some (.file { f with attrs.finder := info })) }, ?_,
    ⟨info, hinfo, rfl⟩, hs.2⟩
  rw [Site.receive_vol hdecode fun _ _ => Request.noConfusion,
    VolServer.serve_ok (handle_setFinderInfo hp hdir hf hs.1 hw info)]

end NewFile

section Calm

variable {site : Site} {sched : Schedule} {s : VolServer} {o : OpenFork} {ref : ForkRef}
  {f : FileData}

theorem receive_range (site : Site) (hid : o.id < 65536) (hfork : s.forks.lookup o.id = some ref)
    (hfind : s.tree.find ref.path = some (.file f)) {q : ReadRange} (hoff : q.offset < 2 ^ 64)
    (hcount : q.count < 2 ^ 64) :
    .ok (site.receive s (q.block (UInt16.ofNat o.id))).1 =
      readReply f.content site.exactEOF q.offset q.count := by
  rw [ReadRange.block, Site.receive_of_decode (decode_readChunkBlock _ hoff hcount),
    toNat_forkID hid, Site.respond, Site.readFork, hfork]
  simp only [hfind]
  rfl

/-- A server with the fork open answers the block of a chunk's request as
`ServerHolds` has it. -/
theorem serverHolds_receive (site : Site) (hid : o.id < 65536)
    (hfork : s.forks.lookup o.id = some ref) (hfind : s.tree.find ref.path = some (.file f))
    {p : Bytes} {off : Nat} (hoff : off + p.length < 2 ^ 64) {c : Nat × Nat}
    (hc : c ∈ chunks o.fork.chunkSize p.length) (g : ReadGroup) :
    ServerHolds f.content off g
      (.finish c (.ok (site.receive s ((chunkRange off c).block (UInt16.ofNat o.id))).1)) := by
  have hend := chunks_end_le hc
  have hstart : (chunkRange off c).offset < 2 ^ 64 := by
    change off + c.1 < _
    omega
  have hcount : (chunkRange off c).count < 2 ^ 64 := by
    change c.2 < _
    omega
  rw [receive_range site hid hfork hfind hstart hcount]
  exact answers_readReply f.content site.exactEOF (chunkRange off c)

theorem chunkReply_calm (hid : o.id < 65536) (hfork : s.forks.lookup o.id = some ref)
    (hfind : s.tree.find ref.path = some (.file f)) {off count : Nat} (hoff : off < 2 ^ 64)
    (hcount : count < 2 ^ 64) :
    ((Conduct.calm site sched).host s).chunkReply o off count =
      readReply f.content site.exactEOF off count :=
  receive_range (q := ⟨off, count⟩) site hid hfork hfind hoff hcount

theorem readChunks_calm (o : OpenFork) (p : Bytes) (off : Nat) :
    (((Conduct.calm site sched).host s).readChunks o p off).2 =
      (Conduct.calm site sched).host s := by
  have hdead : ((chunks o.fork.chunkSize p.length).any fun pc =>
      ((Conduct.calm site sched).host s).pieceFate (off + pc.1, pc.2) ≠ .answered) = false :=
    List.any_eq_false.mpr fun pc _ => Bool.false_ne_true
  simp only [Host.readChunks, hdead]
  rfl

theorem readAt_calm (hid : o.id < 65536) (hfork : s.forks.lookup o.id = some ref)
    (hfind : s.tree.find ref.path = some (.file f)) {p : Bytes} {off : Nat}
    (hoff : off + p.length < 2 ^ 64) :
    ReadOk f.content off p (((Conduct.calm site sched).host s).readChunks o p off).1 := by
  have hread : (((Conduct.calm site sched).host s).readChunks o p off).1 =
      o.fork.readAt sched.order (readReply f.content site.exactEOF) p off := by
    refine o.fork.readAt_congr (fun pc hpc => (sched.perm _).mem_iff.mp hpc) fun pc hpc => ?_
    have hend := chunks_end_le hpc
    exact chunkReply_calm hid hfork hfind (by omega) (by omega)
  rw [hread]
  exact o.fork.readAt_ok sched.order f.content site.exactEOF p off

variable (site sched)

theorem readTarget_calm (hid : o.id < 65536) (hfork : s.forks.lookup o.id = some ref)
    (hfind : s.tree.find ref.path = some (.file f)) (hsize : o.size = f.content.length)
    (hlen : f.content.length < 2 ^ 63) :
    (AfpVolume.readTarget o).on ((Conduct.calm site sched).host s) =
      (.ok f.content, (Conduct.calm site sched).host s) := by
  rw [AfpVolume.readTarget]
  by_cases hempty : o.size = 0
  · rw [if_pos hempty, List.length_eq_zero_iff.mp (hsize.symm.trans hempty)]
    rfl
  · rw [if_neg hempty]
    have hread : ReadOk f.content 0 (List.replicate o.size 0)
        (((Conduct.calm site sched).host s).readChunks o (List.replicate o.size 0) 0).1 :=
      readAt_calm hid hfork hfind (by rw [List.length_replicate]; omega)
    have hon : (Host.readAt o (List.replicate o.size 0) 0 : Proc Host IoErr _).on
        ((Conduct.calm site sched).host s) =
        (.ok (((Conduct.calm site sched).host s).readChunks o (List.replicate o.size 0) 0).1,
          (Conduct.calm site sched).host s) :=
      Prod.ext rfl (readChunks_calm o _ 0)
    rw [on_bind_ok hon]
    generalize (((Conduct.calm site sched).host s).readChunks o (List.replicate o.size 0) 0).1 = r
      at hread ⊢
    obtain ⟨buf, n, err⟩ := r
    have hn : n = f.content.length := by
      have hcount : n = min (List.replicate o.size (0 : UInt8)).length (f.content.length - 0) :=
        hread.count
      rw [List.length_replicate] at hcount
      omega
    have hbuf : buf = f.content.take n ++ (List.replicate o.size 0).drop n := hread.buffer
    have htake : buf.take n = f.content := by
      rw [hbuf, hn, List.take_length, List.take_left]
    have herr : err = none ∨ err = some .eof := hread.err
    rcases herr with rfl | rfl
    · rw [← htake]
      rfl
    · rw [← htake]
      rfl

end Calm

/-- The server is that one and has an object at `q`. -/
def Present (site : Site) (q : Path) (h : Host) : Prop :=
  h.site = site ∧ (h.srv.tree.find q).isSome

section Keeps

variable {site : Site} {q : Path}

theorem receive_isSome {s : VolServer} {block : Bytes} {req : Request}
    (h : site.decode block = .ok (.vol req)) (hreq : VolServer.InPlace req)
    (hq : (s.tree.find q).isSome) :
    ((site.receive s block).2.tree.find q).isSome := by
  by_cases hopen : ∃ write path, req = .openFork write path
  · obtain ⟨write, path, rfl⟩ := hopen
    rw [Site.receive_of_decode h, Site.respond, Site.openFork]
    cases freeFork s.forks 65536 0 with
    | none => exact hq
    | some id =>
      cases hh : ({ s with nextFork := id } : VolServer).handle (.openFork write path) with
      | error r => simpa only [hh] using hq
      | ok r =>
        obtain ⟨info, s'⟩ := r
        simp only [hh]
        exact VolServer.handle_isSome hreq hh hq
  · rw [Site.receive_vol h fun write path heq => hopen ⟨write, path, heq⟩]
    exact VolServer.serve_isSome hreq hq

theorem Host.keeps_command {block : Bytes} {req : Request} (h : site.decode block = .ok (.vol req))
    (hreq : VolServer.InPlace req) : Keeps (Present site q) (Host.command block) := by
  rintro host ⟨rfl, hq⟩
  refine ⟨rfl, ?_⟩
  change (Tree.find (if host.fate = .lost then host.srv
    else (Host.answer host.site host.codes host.srv block).2).tree q).isSome
  split_ifs
  · exact hq
  · by_cases hcode : host.codes.headD none = none
    · rw [Conduct.answer_served hcode]
      exact receive_isSome h hreq hq
    · rwa [(Conduct.answer_refused hcode _ _).2]

theorem Host.keeps_codeOnly {block : Bytes} {req : Request} (op : String)
    (h : site.decode block = .ok (.vol req)) (hreq : VolServer.InPlace req) :
    Keeps (Present site q) (codeOnly Host.command op block) :=
  (Host.keeps_command h hreq).bind fun _ => Keeps.lift _

theorem Host.keeps_close (o : OpenFork) : Keeps (Present site q) (Host.close o) :=
  Host.keeps_codeOnly _ (decode_closeForkBlock _) trivial

theorem Host.keeps_writeAt (o : OpenFork) {data : Bytes} {off : Nat}
    (hoff : off + data.length < 2 ^ 64) :
    Keeps (Present site q) (Host.writeAt o data off) := by
  rintro h ⟨rfl, hq⟩
  refine ⟨rfl, ?_⟩
  change (Tree.find (((h.writeRun o data off).applied.foldl
    (fun s pc => (h.site.receive s (pieceRequestBytes (UInt16.ofNat o.id) data off pc)).2)
      h.srv)).tree q).isSome
  have hmem (pc : Nat × Nat) (hpc : pc ∈ (h.writeRun o data off).applied) :
      pc ∈ o.fork.pieces data :=
    (h.crash.sched.perm _).mem_iff.mp (List.mem_of_mem_filter hpc)
  rw [receive_pieces _ hoff hmem]
  exact serve_pieces_isSome _ off data _ hq

theorem Host.keeps_writeOrClose (o : OpenFork) {data : Bytes} (hlen : data.length < 2 ^ 63) :
    Keeps (Present site q) (AfpVolume.writeOrClose o data) := by
  refine (Host.keeps_writeAt o (by omega)).observe.bind fun r => ?_
  cases r with
  | ok n => exact Keeps.pure _
  | error e => exact (Host.keeps_close o).observe.bind fun _ => Keeps.lift (.error e)

theorem AfpVolume.keeps_openForkMode {v : AfpVolume} {dirID : UInt32} (hvol : site.volID = v.id)
    (hdirID : site.dirID = dirID) (path : Bytes) (mode : UInt16) :
    Keeps (Present site q) (v.openForkMode dirID path mode) :=
  (Host.keeps_command (decode_openForkBlock hvol hdirID path mode) trivial).bind fun _ =>
    (Keeps.lift _).bind fun _ =>
    (Keeps.lift _).bind fun _ => Keeps.pure _

end Keeps

end GoAfp
