import GoAfp.VolumeJobs

/-! The jobs on a server that serves every request. A read or a write as a job
sends its requests one by one; the server gives the replies that it gives to
requests in flight together, and ends in the same state. -/

namespace GoAfp

open Proc Job

namespace VTree

variable {t t' : VTree} {p : Path}

/-- Whether a file can be edited does not depend on the edit. -/
theorem editFile_error {r : Refusal} {k : FileData → FileData} (h : t.editFile p k = .error r)
    (k' : FileData → FileData) : t.editFile p k' = .error r := by
  rw [editFile] at h ⊢
  cases hp : leafOf p with
  | none =>
    rw [hp] at h
    exact h
  | some leaf =>
    simp only [hp] at h ⊢
    split at h
    · cases h
    · exact h

theorem editFile_again {k : FileData → FileData} (h : t.editFile p k = .ok t')
    (k' : FileData → FileData) : ∃ t'', t'.editFile p k' = .ok t'' := by
  obtain ⟨f, -, hfind⟩ := find_editFile h
  obtain ⟨dir, x, -, hp, -, -⟩ := editFile_ok h
  rw [editFile]
  simp only [hp, hfind]
  exact ⟨_, rfl⟩

end VTree

namespace VolServer

variable {s : VolServer} {id : Nat}

/-- What a write to the fork is answered with. -/
def writeCode (s : VolServer) (id : Nat) : Result :=
  match s.editFork id fun f => f with
  | .ok _ => resNoErr
  | .error r => r.code

theorem editFork_error {r : Refusal} {k : FileData → FileData} (h : s.editFork id k = .error r)
    (k' : FileData → FileData) : s.editFork id k' = .error r := by
  rw [editFork] at h ⊢
  cases hlookup : s.forks.lookup id with
  | none =>
    rw [hlookup] at h
    exact h
  | some ref =>
    simp only [hlookup] at h ⊢
    split_ifs at h ⊢
    · exact VTree.editFile_error h k'
    · exact h

theorem editFork_again {t : VTree} {k : FileData → FileData} (h : s.editFork id k = .ok t)
    (k' : FileData → FileData) :
    ∃ t', ({ s with tree := t } : VolServer).editFork id k' = .ok t' := by
  rw [editFork] at h ⊢
  cases hlookup : s.forks.lookup id with
  | none =>
    rw [hlookup] at h
    cases h
  | some ref =>
    simp only [hlookup] at h ⊢
    split_ifs at h ⊢
    exact VTree.editFile_again h k'

/-- Writes to a fork are answered alike, whatever was written to it before. -/
theorem serve_writeExt (s : VolServer) (id off : Nat) (data : Bytes) :
    (s.serve (.writeExt id off data)).1.2 = s.writeCode id ∧
      (s.serve (.writeExt id off data)).2.writeCode id = s.writeCode id := by
  cases hedit : s.editFork id fun f => { f with content := overlay 0 f.content off data } with
  | error r =>
    have hserve : s.serve (.writeExt id off data) = (({}, r.code), s) := by
      rw [serve, handle, hedit]
      rfl
    rw [hserve, writeCode, editFork_error hedit]
    exact ⟨rfl, rfl⟩
  | ok t =>
    have hserve : s.serve (.writeExt id off data) = (({}, resNoErr), { s with tree := t }) := by
      rw [serve, handle, hedit]
      rfl
    obtain ⟨t', hagain⟩ := editFork_again hedit fun f => f
    have hfirst : s.writeCode id = resNoErr := by
      cases hid : s.editFork id fun f => f with
      | error r =>
        rw [editFork_error hid] at hedit
        cases hedit
      | ok t'' => rw [writeCode, hid]
    rw [hserve, hfirst, writeCode, hagain]
    exact ⟨rfl, rfl⟩

end VolServer

section Calm

variable {L ε α β : Type} {site : Site} {sched : Schedule}

theorem answerTo_map (reply : Nat × Nat → Answer) {cs : List (Nat × Nat)} {c : Nat × Nat}
    (hc : c ∈ cs) :
    Requests.answerTo (cs.map fun c => (c, reply c)) c = reply c := by
  have hlookup : (cs.map fun c => (c, reply c)).lookup c = some (reply c) := by
    induction cs with
    | nil => cases hc
    | cons d cs ih =>
      rw [List.map_cons, List.lookup_cons]
      by_cases hd : c = d
      · rw [hd, beq_self_eq_true]
      · rw [beq_false_of_ne hd]
        exact ih ((List.mem_cons.mp hc).resolve_left hd)
  rw [Requests.answerTo, hlookup]
  rfl

/-- Requests whose replies do not depend on those before them. -/
theorem askEach_calm (sched : Schedule) (block : Nat × Nat → Bytes)
    (reply : Nat × Nat → Bytes × Result) {P : VolServer → Prop} {cs : List (Nat × Nat)}
    (h : ∀ s c, P s → c ∈ cs →
      (site.receive s (block c)).1 = reply c ∧ P (site.receive s (block c)).2)
    (l : L) {s : VolServer} (hs : P s) :
    ((Requests.askEach block cs : VolJob L AfpErr _).interp byHost).on
        (l, (Conduct.calm site sched).host s) =
      (.ok (cs.map fun c => (c, .ok (reply c))), l,
        (Conduct.calm site sched).host (cs.foldl (fun s c => (site.receive s (block c)).2) s)) := by
  induction cs generalizing s with
  | nil => rfl
  | cons c cs ih =>
    obtain ⟨hreply, hnext⟩ := h s c hs (by simp)
    have hask : ((Job.ask (block c) : VolJob L AfpErr Answer).interp byHost).on
        (l, (Conduct.calm site sched).host s) =
          (.ok (.ok (reply c)), l, (Conduct.calm site sched).host
            (site.receive s (block c)).2) := by
      rw [← hreply]
      rfl
    have hrest := ih (fun s d hP hd => h s d hP (List.mem_cons_of_mem c hd)) hnext
    rw [Requests.askEach, interp_bind, on_bind_ok hask, interp_bind, on_bind_ok hrest]
    rfl

theorem Site.receive_readRange (site : Site) (s : VolServer) (q : ReadRange) (id : UInt16) :
    (site.receive s (q.block id)).2 = s := by
  have hcmd : (q.block id).headD 0 = cmdReadExt := rfl
  rw [Site.receive, Site.decode_readExt hcmd, Site.forkCall]
  generalize Reader.parse readReadExt (q.block id) = r
  cases r with
  | error e => rfl
  | ok a => rfl

theorem interp_readAt_calm (o : OpenFork) (p : Bytes) (off : Nat) (l : L) (s : VolServer) :
    ((Requests.readAt sched o p off : VolJob L AfpErr _).interp byHost).on
        (l, (Conduct.calm site sched).host s) =
      (.ok (((Conduct.calm site sched).host s).readChunks o p off).1, l,
        (((Conduct.calm site sched).host s).readChunks o p off).2) := by
  have hperm := sched.perm (chunks o.fork.chunkSize p.length)
  let block (c : Nat × Nat) : Bytes := (chunkRange off c).block (UInt16.ofNat o.id)
  let reply (c : Nat × Nat) : Bytes × Result := (site.receive s (block c)).1
  have hstate : ∀ c, (site.receive s (block c)).2 = s := fun c => site.receive_readRange s _ _
  have hreplies (s' : VolServer) (c : Nat × Nat) (hs : s' = s)
      (_ : c ∈ sched.order (chunks o.fork.chunkSize p.length)) :
      (site.receive s' (block c)).1 = reply c ∧ (site.receive s' (block c)).2 = s := by
    rw [hs]
    exact ⟨rfl, hstate c⟩
  have hask := askEach_calm sched block reply hreplies l rfl
  rw [List.foldl_fixed' hstate] at hask
  rw [readChunks_calm, Requests.readAt, interp_bind, on_bind_ok hask]
  refine Prod.ext (congrArg Except.ok ?_) rfl
  refine o.fork.readAt_congr (fun c hc => hperm.mem_iff.mp hc) fun c hc => ?_
  have hanswer := answerTo_map (fun c => .ok (reply c)) (hperm.mem_iff.mpr hc)
  rw [Nat.add_sub_cancel_left]
  exact hanswer

/-- All pieces of a write are answered alike. -/
theorem receive_pieces_code (site : Site) {o : OpenFork} {p : Bytes} {off : Nat}
    (hoff : off + p.length < 2 ^ 64) (s : VolServer) {c : Nat × Nat} (hc : c ∈ o.fork.pieces p) :
    (site.receive s (pieceRequestBytes (UInt16.ofNat o.id) p off c)).1 =
        ([], s.writeCode (UInt16.ofNat o.id).toNat) ∧
      (site.receive s (pieceRequestBytes (UInt16.ofNat o.id) p off c)).2.writeCode
        (UInt16.ofNat o.id).toNat = s.writeCode (UInt16.ofNat o.id).toNat := by
  obtain ⟨hcode, hnext⟩ :=
    s.serve_writeExt (UInt16.ofNat o.id).toNat (part off p c).1 (part off p c).2
  rw [receive_piece (UInt16.ofNat o.id) hoff hc]
  exact ⟨congrArg (Prod.mk []) hcode, hnext⟩

theorem interp_writeAt_calm (site : Site) (sched : Schedule) (o : OpenFork) {p : Bytes} {off : Nat}
    (hoff : off + p.length < 2 ^ 64) (l : L) (s : VolServer) :
    ((Requests.writeAt sched o p off : VolJob L AfpErr _).interp byHost).on
        (l, (Conduct.calm site sched).host s) =
      (.ok (o.fork.writeAt (((Conduct.calm site sched).host s).writeRun o p off) p), l,
        (((Conduct.calm site sched).host s).sendPieces o p off).2) := by
  have hperm := sched.perm (o.fork.pieces p)
  let id := (UInt16.ofNat o.id).toNat
  have hserves : (Conduct.calm site sched).Serves (o.fork.pieces p) := fun _ _ => ⟨rfl, rfl⟩
  let block := pieceRequestBytes (UInt16.ofNat o.id) p off
  have hreplies (s' : VolServer) (c : Nat × Nat) (hs : s'.writeCode id = s.writeCode id)
      (hc : c ∈ sched.order (o.fork.pieces p)) :
      (site.receive s' (block c)).1 = ([], s.writeCode id) ∧
        (site.receive s' (block c)).2.writeCode id = s.writeCode id := by
    obtain ⟨hcode, hnext⟩ := receive_pieces_code site hoff s' (hperm.mem_iff.mp hc)
    exact ⟨hcode.trans (congrArg (Prod.mk []) hs), hnext.trans hs⟩
  have hask := askEach_calm sched block (fun _ => ([], s.writeCode id)) hreplies l rfl
  have happlied : (((Conduct.calm site sched).host s).writeRun o p off).applied =
      sched.order (o.fork.pieces p) := List.filter_eq_self.mpr fun _ _ => rfl
  have hsrv : (((Conduct.calm site sched).host s).sendPieces o p off).2.srv =
      (sched.order (o.fork.pieces p)).foldl
        (fun s c => (site.receive s (pieceRequestBytes (UInt16.ofNat o.id) p off c)).2) s := by
    rw [← happlied]
    rfl
  rw [hserves.sendPieces s off, hsrv, Requests.writeAt, interp_bind, on_bind_ok hask]
  refine Prod.ext (congrArg Except.ok ?_) rfl
  refine o.fork.writeAt_congr rfl (fun c hc => hperm.mem_iff.mp hc) fun c hc => ?_
  have hanswer := answerTo_map (fun _ => .ok ([], s.writeCode id)) (hperm.mem_iff.mpr hc)
  have hreply : (((Conduct.calm site sched).host s).writeRun o p off).reply c =
      (.ok (s.writeCode id) : Except AfpErr Result) :=
    congrArg (fun r : Bytes × Result => (.ok r.2 : Except AfpErr Result))
      (receive_pieces_code site hoff s hc).1
  rw [hreply]
  exact congrArg (Except.map Prod.snd) hanswer

/-- On a server that serves every request the job does what the computation
does, and the server goes on like that. -/
def Mirrors (site : Site) (sched : Schedule) (x : VolJob L ε α) (y : Proc Host ε α) : Prop :=
  ∀ l s, ∃ r s', (x.interp byHost).on (l, (Conduct.calm site sched).host s) =
      (r, l, (Conduct.calm site sched).host s') ∧
    y.on ((Conduct.calm site sched).host s) = (r, (Conduct.calm site sched).host s')

namespace Mirrors

theorem pure (a : α) : Mirrors site sched (Pure.pure a : VolJob L ε α) (Pure.pure a) :=
  fun _ s => ⟨.ok a, s, rfl, rfl⟩

theorem lift (e : Except ε α) : Mirrors site sched (liftM e : VolJob L ε α) (liftM e) :=
  fun _ s => ⟨e, s, rfl, rfl⟩

variable {x : VolJob L ε α} {y : Proc Host ε α}

theorem bind {f : α → VolJob L ε β} {g : α → Proc Host ε β} (hx : Mirrors site sched x y)
    (hf : ∀ a, Mirrors site sched (f a) (g a)) : Mirrors site sched (x >>= f) (y >>= g) := by
  intro l s
  obtain ⟨r, s', hjob, hhost⟩ := hx l s
  rw [interp_bind]
  cases r with
  | error e => exact ⟨.error e, s', on_bind_error hjob, on_bind_error hhost⟩
  | ok a =>
    rw [on_bind_ok hjob, on_bind_ok hhost]
    exact hf a l s'

theorem observe {ε' : Type} (hx : Mirrors site sched x y) :
    Mirrors site sched (Job.observe x : VolJob L ε' (Except ε α)) (Proc.observe y) := by
  intro l s
  obtain ⟨r, s', hjob, hhost⟩ := hx l s
  rw [interp_observe, Proc.on_observe, Proc.on_observe, hjob, hhost]
  exact ⟨.ok r, s', rfl, rfl⟩

theorem adapt {ε' : Type} (f : ε → ε') (hx : Mirrors site sched x y) :
    Mirrors site sched (Job.adapt f x) (Proc.adapt f y) := by
  intro l s
  obtain ⟨r, s', hjob, hhost⟩ := hx l s
  rw [interp_adapt, Proc.on_adapt, Proc.on_adapt, hjob, hhost]
  exact ⟨r.mapError f, s', rfl, rfl⟩

end Mirrors

section Operations

variable (v : AfpVolume)

theorem mirrors_command (block : Bytes) :
    Mirrors site sched (Requests.command block : VolJob L AfpErr _) (Host.command block) := by
  intro l s
  have hhost := Conduct.command_host (c := Conduct.calm site sched) rfl s block
  refine ⟨_, _, ?_, hhost⟩
  rw [interp_command, onConn_on, hhost]
  rfl

theorem mirrors_codeOnly (op : String) (block : Bytes) :
    Mirrors site sched (Requests.codeOnly op block : VolJob L AfpErr Unit)
      (codeOnly Host.command op block) :=
  (mirrors_command block).bind fun _ => Mirrors.lift _

theorem mirrors_openFork (path : Bytes) (mode : UInt16) :
    Mirrors site sched (Requests.openForkMode v path mode : VolJob L AfpErr OpenFork)
      (v.openForkMode rootDirID path mode) :=
  (mirrors_command _).bind fun _ => (Mirrors.lift _).bind fun _ =>
    (Mirrors.lift _).bind fun _ => .pure _

theorem mirrors_close (o : OpenFork) :
    Mirrors site sched (Requests.close o : VolJob L AfpErr Unit) (Host.close o) :=
  mirrors_codeOnly _ _

theorem mirrors_readAt (o : OpenFork) (p : Bytes) (off : Nat) :
    Mirrors site sched (Job.adapt IoErr.afp (Requests.readAt sched o p off) : VolJob L IoErr _)
      (Host.readAt o p off) := by
  intro l s
  refine ⟨.ok (((Conduct.calm site sched).host s).readChunks o p off).1, s, ?_, ?_⟩
  · rw [interp_adapt, Proc.on_adapt, interp_readAt_calm, readChunks_calm]
    rfl
  · exact Prod.ext rfl (readChunks_calm o p off)

theorem mirrors_readTarget (o : OpenFork) :
    Mirrors site sched (Requests.readTarget sched o : VolJob L IoErr Bytes)
      (AfpVolume.readTarget o) := by
  rw [Requests.readTarget, AfpVolume.readTarget]
  split
  · exact Mirrors.pure []
  · refine (mirrors_readAt o _ 0).bind fun r => ?_
    obtain ⟨buf, n, err⟩ := r
    cases err with
    | none => exact Mirrors.pure _
    | some e =>
      cases e with
      | eof => exact Mirrors.pure _
      | _ => exact Mirrors.lift (.error _)

theorem mirrors_readLink (path : Bytes) :
    Mirrors site sched (Requests.readLink v sched path : VolJob L IoErr Bytes)
      (v.readLink rootDirID path) := by
  refine ((mirrors_openFork v path _).adapt IoErr.afp).bind fun o => ?_
  refine (mirrors_readTarget o).observe.bind fun r => ?_
  exact (mirrors_close o).observe.bind fun _ => Mirrors.lift r

theorem Host.writeAt_calm {o : OpenFork} {p : Bytes} {off n : Nat} {s : VolServer}
    {err : Option AfpErr}
    (h : o.fork.writeAt (((Conduct.calm site sched).host s).writeRun o p off) p = (n, err)) :
    (Host.writeAt o p off).on ((Conduct.calm site sched).host s) =
      ((err.map Except.error).getD (.ok n),
        (Conduct.calm site sched).host
          (((Conduct.calm site sched).host s).sendPieces o p off).2.srv) := by
  have hserves : (Conduct.calm site sched).Serves (o.fork.pieces p) := fun _ _ => ⟨rfl, rfl⟩
  refine Prod.ext ?_ (hserves.sendPieces s off)
  change (((Conduct.calm site sched).host s).sendPieces o p off).1 = _
  rw [Host.sendPieces]
  simp only [h]
  cases err with
  | none => rfl
  | some e => rfl

theorem mirrors_symlink (link : Bytes) {target : Bytes} (hlen : target.length < 2 ^ 64) :
    Mirrors site sched (Requests.symlink v sched link target : VolJob L AfpErr Unit)
      (v.symlink rootDirID link target) := by
  refine (mirrors_codeOnly _ _).bind fun _ => (mirrors_openFork v link _).bind fun o => ?_
  intro l s
  obtain ⟨n, err, hres⟩ : ∃ n err,
      o.fork.writeAt (((Conduct.calm site sched).host s).writeRun o target 0) target = (n, err) :=
    ⟨_, _, rfl⟩
  have hlen' : 0 + target.length < 2 ^ 64 := by rwa [Nat.zero_add]
  have hjob := interp_writeAt_calm site sched o hlen' l s
  have hhost := Host.writeAt_calm hres
  have hserves : (Conduct.calm site sched).Serves (o.fork.pieces target) := fun _ _ => ⟨rfl, rfl⟩
  rw [hserves.sendPieces s 0, hres] at hjob
  generalize (((Conduct.calm site sched).host s).sendPieces o target 0).2.srv = s' at hjob hhost
  rw [interp_bind, on_bind_ok hjob]
  cases err with
  | none =>
    have hon : (AfpVolume.writeOrClose o target).on ((Conduct.calm site sched).host s) =
        (.ok (), (Conduct.calm site sched).host s') := by
      rw [AfpVolume.writeOrClose, on_bind_ok (Proc.on_observe _ _), hhost]
      rfl
    rw [on_bind_ok hon]
    exact ((mirrors_close o).bind fun _ => mirrors_codeOnly _ _) l s'
  | some e =>
    -- the fork is closed and the error of the write is returned
    have hfail : Mirrors site sched
        (Job.observe (Requests.close o) >>=
          fun (_ : Except AfpErr Unit) => throw e : VolJob L AfpErr Unit)
        (Proc.observe (Host.close o) >>= fun _ => throw e) :=
      (mirrors_close o).observe.bind fun _ => Mirrors.lift (.error e)
    obtain ⟨r, s'', hjob', hhost'⟩ := hfail l s'
    obtain rfl : .error e = r := congrArg Prod.fst hhost'
    have hon : (AfpVolume.writeOrClose o target).on ((Conduct.calm site sched).host s) =
        (.error e, (Conduct.calm site sched).host s'') := by
      rw [AfpVolume.writeOrClose, on_bind_ok (Proc.on_observe _ _), hhost]
      exact hhost'
    exact ⟨.error e, s'', hjob', on_bind_error hon⟩

end Operations

end Calm

end GoAfp
