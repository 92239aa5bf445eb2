import GoAfp.File

/-! The operations of an open file across a reconnect: a run that was cut
short leaves only parts of the same operation behind, and the next run makes
up for them. -/

namespace GoAfp

def Attempt.Answered (a : Attempt) : Prop :=
  a.openFate = .answered ∧ ∀ c, a.fate c = .answered

/-- Nothing goes wrong unless the link dies in the first run, and then nothing
does in the second. -/
def Script.Recovers (sc : Script) : Prop :=
  (sc.alive = true → sc.first.Answered) ∧ sc.second.Answered

def File.Held (f : File) (srv : ForkServer) : Prop :=
  ∀ o, f.fork = some o → f.forkVol = some o.vol ∧ o.vol ∈ srv.opened

structure File.Reopened (f f' : File) : Prop where
  cursor : f'.cursor = f.cursor
  size : f'.size = f.size

namespace File

variable {α : Type} {f : File} {srv : ForkServer}

structure Opened (f : File) (srv : ForkServer) (a : Attempt)
    (r : Except AfpErr OpenFork × File × ForkServer) : Prop where
  reopened : f.Reopened r.2.1
  held : r.2.1.Held r.2.2
  content : r.2.2.content = srv.content
  valid : ∀ o, r.1 = .ok o → r.2.2.valid a o = true

theorem Held.cons (hf : f.Held srv) (v : Nat) : f.Held { srv with opened := v :: srv.opened } :=
  fun o ho => ⟨(hf o ho).1, List.mem_cons_of_mem _ (hf o ho).2⟩

theorem reopen_spec (hf : f.Held srv) (a : Attempt) : Opened f srv a (f.reopen srv a) := by
  cases h : a.openFate with
  | answered =>
    simp only [reopen, h]
    refine ⟨⟨rfl, rfl⟩, fun o ho => ?_, rfl, fun o ho => ?_⟩
    · cases ho
      exact ⟨rfl, List.mem_cons_self⟩
    · cases ho
      simp [ForkServer.valid]
  | applied =>
    simp only [reopen, h]
    exact ⟨⟨rfl, rfl⟩, hf.cons _, rfl, fun o ho => by cases ho⟩
  | lost =>
    simp only [reopen, h]
    exact ⟨⟨rfl, rfl⟩, hf, rfl, fun o ho => by cases ho⟩

theorem openFork_spec (hf : f.Held srv) (a : Attempt) : Opened f srv a (f.openFork srv a) := by
  cases h : f.fork with
  | none =>
    simp only [openFork, h]
    exact reopen_spec hf a
  | some o =>
    obtain ⟨hvol, hmem⟩ := hf o h
    by_cases hv : f.forkVol = some a.vol
    · simp only [openFork, h, hv, if_true]
      refine ⟨⟨rfl, rfl⟩, hf, rfl, fun o' ho => ?_⟩
      cases ho
      have he : o.vol = a.vol := Option.some.inj (hvol.symm.trans hv)
      simp [ForkServer.valid, he, he ▸ hmem]
    · simp only [openFork, h, hv, if_false]
      exact reopen_spec hf a

def Keeps (body : OpenFork → Attempt → α × ForkServer → Option IoErr × α × ForkServer)
    (P : α → Bytes → Prop) : Prop :=
  ∀ o a v srv, srv.valid a o = true → P v srv.content →
    P (body o a (v, srv)).2.1 (body o a (v, srv)).2.2.content ∧
      (body o a (v, srv)).2.2.opened = srv.opened

structure Between (P : α → Bytes → Prop) (f : File) (s : α × File × ForkServer) : Prop where
  reopened : f.Reopened s.2.1
  held : s.2.1.Held s.2.2
  prop : P s.1 s.2.2.content

theorem withFork_cases (body : OpenFork → Attempt → α × ForkServer → Option IoErr × α × ForkServer)
    {P : α → Bytes → Prop} {s : α × File × ForkServer} (hs : Between P f s) (a : Attempt) :
    (∃ e, (withFork body a s).1 = some (.afp e) ∧ Between P f (withFork body a s).2) ∨
    ∃ o f' srv', srv'.valid a o = true ∧ Between P f (s.1, f', srv') ∧
      withFork body a s =
        ((body o a (s.1, srv')).1, (body o a (s.1, srv')).2.1, f', (body o a (s.1, srv')).2.2) := by
  have hspec := openFork_spec hs.held a
  rcases ho : s.2.1.openFork s.2.2 a with ⟨r, f', srv'⟩
  rw [ho] at hspec
  have hbetween : Between P f (s.1, f', srv') :=
    ⟨⟨hspec.reopened.cursor.trans hs.reopened.cursor, hspec.reopened.size.trans hs.reopened.size⟩,
      hspec.held, hspec.content ▸ hs.prop⟩
  cases r with
  | error e => exact Or.inl ⟨e, by rw [withFork, ho], by rw [withFork, ho]; exact hbetween⟩
  | ok o => exact Or.inr ⟨o, f', srv', hspec.valid o rfl, hbetween, by rw [withFork, ho]⟩

theorem Between.body {body : OpenFork → Attempt → α × ForkServer → Option IoErr × α × ForkServer}
    {P : α → Bytes → Prop} (hk : Keeps body P) {v : α} {f' : File} {srv' : ForkServer}
    {o : OpenFork} {a : Attempt} (hb : Between P f (v, f', srv')) (hv : srv'.valid a o = true) :
    Between P f ((body o a (v, srv')).2.1, f', (body o a (v, srv')).2.2) := by
  obtain ⟨hp, hopened⟩ := hk o a v srv' hv hb.prop
  refine ⟨hb.reopened, fun o' ho' => ?_, hp⟩
  rw [hopened]
  exact hb.held o' ho'

theorem withFork_between
    {body : OpenFork → Attempt → α × ForkServer → Option IoErr × α × ForkServer}
    {P : α → Bytes → Prop} {s : α × File × ForkServer} (hk : Keeps body P) (hs : Between P f s)
    (a : Attempt) :
    Between P f (withFork body a s).2 := by
  rcases withFork_cases body hs a with ⟨e, -, hb⟩ | ⟨o, f', srv', hv, hb, h⟩
  · exact hb
  · rw [h]
    exact hb.body hk hv

/-- The outcome of an operation is that of one run of its closure on a valid
fork, in a state that the property still holds of, or an error. -/
def RanOn (body : OpenFork → Attempt → α × ForkServer → Option IoErr × α × ForkServer)
    (P : α → Bytes → Prop) (f : File) (r : Option IoErr × α × File × ForkServer) : Prop :=
  (∃ e, r.1 = some (.afp e)) ∨
    ∃ o a v f' srv', srv'.valid a o = true ∧ Between P f (v, f', srv') ∧
      r = ((body o a (v, srv')).1, (body o a (v, srv')).2.1, f', (body o a (v, srv')).2.2)

theorem withFork_ranOn {body : OpenFork → Attempt → α × ForkServer → Option IoErr × α × ForkServer}
    {P : α → Bytes → Prop} {s : α × File × ForkServer} (hs : Between P f s) (a : Attempt) :
    RanOn body P f (withFork body a s) := by
  rcases withFork_cases body hs a with ⟨e, he, -⟩ | ⟨o, f', srv', hv, hb, h⟩
  · exact Or.inl ⟨e, he⟩
  · exact Or.inr ⟨o, a, s.1, f', srv', hv, hb, h⟩

theorem doFork_ranOn {body : OpenFork → Attempt → α × ForkServer → Option IoErr × α × ForkServer}
    {P : α → Bytes → Prop} (hk : Keeps body P) (sc : Script) {s : α × File × ForkServer}
    (hs : Between P f s) :
    RanOn body P f (doFork body sc s) := by
  rcases doRetry_eq (withFork body sc.first) (withFork body sc.second) sc.alive s with h | h
  · rw [doFork, h]
    exact withFork_ranOn hs sc.first
  · rw [doFork, h]
    exact withFork_ranOn (withFork_between hk hs sc.first) sc.second

theorem readAt_answered (fork : Fork) (sched : Schedule) (D : Bytes) (exactEOF : Nat → Nat → Bool)
    (fate : Nat × Nat → Fate) (p : Bytes) (off : Nat) :
    let r :=
      fork.readAt sched.order
        (fun at_ count => (fate (at_, count)).answer (readReply D exactEOF at_ count)) p off
    (∃ e, r = (p, 0, some (.afp e))) ∨ ReadOk D off p r := by
  intro r
  let reply (at_ count : Nat) := (fate (at_, count)).answer (readReply D exactEOF at_ count)
  let cs := chunks fork.chunkSize p.length
  by_cases hp : p.length = 0
  · right
    simpa only [r, Fork.readAt, if_pos hp] using readOk_empty hp
  · cases he : (sched.order cs).findSome? fun c => errOf (readChunk (reply (off + c.1) c.2)) with
    | some e => exact Or.inl ⟨e, by simp only [r, Fork.readAt, if_neg hp]; rw [he]⟩
    | none =>
      have hall (c : Nat × Nat) (hc : c ∈ cs) : reply (off + c.1) c.2 = readReply D exactEOF
          (off + c.1) c.2 := by
        have hn := List.findSome?_eq_none_iff.mp he c ((sched.perm cs).mem_iff.mpr hc)
        cases hfate : fate (off + c.1, c.2) with
        | answered => simp only [reply, hfate, Fate.answer]
        | applied =>
          simp only [reply, hfate, Fate.answer] at hn
          cases hn
        | lost =>
          simp only [reply, hfate, Fate.answer] at hn
          cases hn
      have hmap : cs.map (chunkData reply off) = cs.map (chunkData (readReply D exactEOF) off) :=
        List.map_congr_left fun c hc => by simp only [chunkData, hall c hc]
      have hr : r = reassemble p 0 (cs.map (chunkData reply off)) := by
        simp only [r, Fork.readAt, if_neg hp]
        rw [he]
      right
      rw [hr, hmap]
      exact reassemble_chunks fork.chunkSize_pos

theorem readBody_valid (off : Int) {o : OpenFork} {a : Attempt} {srv : ForkServer}
    (hv : srv.valid a o = true) (v : Bytes × Nat) :
    (readBody off o a (v, srv)).2.2 = srv ∧
      ((∃ e, (readBody off o a (v, srv)).1 = some (.afp e) ∧
        (readBody off o a (v, srv)).2.1 = (v.1, 0)) ∨
      ReadOk srv.content (wireOffset off) v.1
        ((readBody off o a (v, srv)).2.1.1, (readBody off o a (v, srv)).2.1.2,
          (readBody off o a (v, srv)).1)) := by
  refine ⟨rfl, ?_⟩
  simp only [readBody, hv, if_true]
  rcases readAt_answered o.fork a.sched srv.content a.exactEOF a.fate v.1 (wireOffset off)
    with ⟨e, he⟩ | hok
  · left
    refine ⟨e, ?_, ?_⟩ <;> rw [he]
  · exact Or.inr hok

theorem readBody_keeps (p : Bytes) (off : Int) (D : Bytes) :
    Keeps (readBody off) fun v D' => v.1.length = p.length ∧ D' = D := by
  rintro o a v srv hv ⟨hlen, hD⟩
  obtain ⟨hsrv, hcases⟩ := readBody_valid off hv v
  rw [hsrv]
  refine ⟨⟨?_, hD⟩, rfl⟩
  rcases hcases with ⟨e, -, hbuf⟩ | hok
  · rw [hbuf]
    exact hlen
  · have hcount := hok.count
    have hbuf := hok.buffer
    simp only at hcount hbuf
    rw [hbuf, List.length_append, List.length_take, List.length_drop, List.length_drop]
    omega

theorem doFork_read {p : Bytes} {off : Int} {sc : Script} (hf : f.Held srv)
    (herr : (doFork (readBody off) sc ((p, 0), f, srv)).1 = none ∨
      (doFork (readBody off) sc ((p, 0), f, srv)).1 = some .eof) :
    ∃ buf₀ buf n err f' srv', doFork (readBody off) sc ((p, 0), f, srv) =
      (err, (buf, n), f', srv') ∧
      f.Reopened f' ∧ f'.Held srv' ∧ srv'.content = srv.content ∧ buf₀.length = p.length ∧
      ReadOk srv.content (wireOffset off) buf₀ (buf, n, err) := by
  have hstart : Between (fun (v : Bytes × Nat) D => v.1.length = p.length ∧ D = srv.content) f
      ((p, 0), f, srv) :=
    ⟨⟨rfl, rfl⟩, hf, rfl, rfl⟩
  rcases doFork_ranOn (readBody_keeps p off srv.content) sc hstart
    with ⟨e, he⟩ | ⟨o, a, v, f', srv', hv, hb, h⟩
  · rcases herr with h | h <;> cases h.symm.trans he
  · obtain ⟨hsrv, ⟨e, he, -⟩ | hok⟩ := readBody_valid off hv v
    · rw [h] at herr
      rcases herr with h | h <;> cases h.symm.trans he
    · refine ⟨v.1, _, _, _, f', srv', by rw [h, hsrv], hb.reopened, hb.held, hb.prop.2,
        hb.prop.1, ?_⟩
      have hD : srv'.content = srv.content := hb.prop.2
      exact hD ▸ hok

theorem none_of_map {err : Option AfpErr}
    (h : err.map IoErr.afp = none ∨ err.map IoErr.afp = some .eof) :
    err.map IoErr.afp = none := by
  cases err with
  | none => rfl
  | some e => rcases h with h | h <;> cases h

theorem writeRun_reply {a : Attempt} {o : OpenFork} {p : Bytes} {off : Nat} {c : Nat × Nat}
    (h : (writeRun srv a o p off).reply c = .ok resNoErr) :
    accepts srv a o off c = true ∧ a.fate c = .answered := by
  obtain ⟨hfate, hok⟩ := Fate.answered_of_ok h
  refine ⟨?_, hfate⟩
  by_contra hn
  simp only [hn, if_false] at hok
  cases hok

theorem writeRun_ok {a : Attempt} {o : OpenFork} {p : Bytes} {off : Nat} (hp : p ≠ [])
    (h : (o.fork.writeAt (writeRun srv a o p off) p).2 = none) :
    (o.fork.writeAt (writeRun srv a o p off) p).1 = p.length ∧ off + p.length ≤ maxForkLen ∧
      ∀ c ∈ o.fork.pieces p, c ∈ (writeRun srv a o p off).applied := by
  have hpos : p.length > 0 := List.length_pos_iff.mpr hp
  have hreply := Fork.writeAt_replies (a.sched.perm _) h
  refine ⟨Fork.writeAt_count hreply, ?_, fun c hc => ?_⟩
  · obtain ⟨c, hc, -, hhi⟩ := chunks_cover o.fork.writeChunkSize_pos (Nat.sub_lt hpos Nat.one_pos)
    have hacc := (writeRun_reply (hreply c hc)).1
    simp only [accepts, Bool.and_eq_true, decide_eq_true_eq] at hacc
    omega
  · obtain ⟨hacc, hfate⟩ := writeRun_reply (hreply c hc)
    refine List.mem_filter.mpr ⟨(a.sched.perm _).mem_iff.mpr hc, ?_⟩
    simp [hacc, hfate]

def Partly (D₀ : Bytes) (off : Nat) (p D : Bytes) : Prop :=
  ∃ cs : List (Nat × Nat), D = overlayAll 0 D₀ (cs.map (part off p))

theorem writeBody_keeps (p : Bytes) (off : Int) (D₀ : Bytes) :
    Keeps (writeBody p off) fun _ D => Partly D₀ (wireOffset off) p D := by
  rintro o a v srv - ⟨cs, hcs⟩
  refine ⟨⟨cs ++ (writeRun srv a o p (wireOffset off)).applied, ?_⟩, rfl⟩
  rw [List.map_append, overlayAll_append, ← hcs]
  rfl

theorem doFork_write {p : Bytes} {off : Int} {sc : Script} (hf : f.Held srv)
    (herr : (doFork (writeBody p off) sc (0, f, srv)).1 = none ∨
      (doFork (writeBody p off) sc (0, f, srv)).1 = some .eof) :
    ∃ f' srv', doFork (writeBody p off) sc (0, f, srv) = (none, p.length, f', srv') ∧
      f.Reopened f' ∧ f'.Held srv' ∧
      (p ≠ [] → wireOffset off + p.length ≤ maxForkLen) ∧
      srv'.content = overlay 0 srv.content (wireOffset off) p := by
  have hstart : Between (fun (_ : Nat) D => Partly srv.content (wireOffset off) p D) f
      (0, f, srv) :=
    ⟨⟨rfl, rfl⟩, hf, [], rfl⟩
  rcases doFork_ranOn (writeBody_keeps p off srv.content) sc hstart
    with ⟨e, he⟩ | ⟨o, a, v, f', srv', hv, hb, h⟩
  · rcases herr with h | h <;> cases h.symm.trans he
  · have hb' := hb.body (writeBody_keeps p off srv.content) hv
    rw [h] at herr ⊢
    replace herr := none_of_map herr
    have hnone : (o.fork.writeAt (writeRun srv' a o p (wireOffset off)) p).2 = none :=
      Option.map_eq_none_iff.mp herr
    by_cases hp : p = []
    · subst hp
      obtain ⟨cs, hcs⟩ := hb'.prop
      rw [overlayAll_part_nil] at hcs
      refine ⟨f', _, ?_, hb.reopened, hb'.held, fun hne => absurd rfl hne, ?_⟩
      · exact Prod.ext herr rfl
      · rw [hcs, overlay, if_pos rfl]
    · obtain ⟨hcount, hle, happ⟩ := writeRun_ok hp hnone
      obtain ⟨cs, hcs⟩ := hb.prop
      refine ⟨f', _, ?_, hb.reopened, hb'.held, fun _ => hle, ?_⟩
      · exact Prod.ext herr (Prod.ext hcount rfl)
      · change overlayAll 0 srv'.content
          ((writeRun srv' a o p (wireOffset off)).applied.map (part (wireOffset off) p)) = _
        have hcs' : srv'.content = overlayAll 0 srv.content (cs.map (part (wireOffset off) p)) :=
          hcs
        rw [hcs', ← overlayAll_append, ← List.map_append]
        -- whatever an earlier run applied is a part of the same bytes at the same place
        apply o.fork.overlayAll_pieces hp
        intro c hc
        exact List.mem_append_right _ (happ c hc)

theorem truncateBody_keeps (size : Int) (D₀ : Bytes) :
    Keeps (truncateBody size) fun _ D => D = D₀ ∨ D = setLength 0 D₀ (truncateLen size) := by
  intro o a v srv hv hD
  simp only [truncateBody, hv, true_and]
  by_cases hl : a.fate (0, 0) = .lost
  · simpa [hl] using hD
  · simp only [ne_eq, hl, not_false_eq_true, if_true]
    refine ⟨Or.inr ?_, trivial⟩
    rcases hD with hD | hD
    · rw [hD]
    · rw [hD, setLength_setLength]

theorem doFork_truncate {size : Int} {sc : Script} (hf : f.Held srv)
    (herr : (doFork (truncateBody size) sc ((), f, srv)).1 = none ∨
      (doFork (truncateBody size) sc ((), f, srv)).1 = some .eof) :
    ∃ f' srv', doFork (truncateBody size) sc ((), f, srv) = (none, (), f', srv') ∧ f.Reopened f' ∧
      f'.Held srv' ∧
      srv'.content = setLength 0 srv.content (truncateLen size) := by
  have hstart : Between (fun (_ : Unit) D => D = srv.content ∨
      D = setLength 0 srv.content (truncateLen size)) f ((), f, srv) := ⟨⟨rfl, rfl⟩, hf, Or.inl rfl⟩
  rcases doFork_ranOn (truncateBody_keeps size srv.content) sc hstart
    with ⟨e, he⟩ | ⟨o, a, v, f', srv', hv, hb, h⟩
  · rcases herr with h | h <;> cases h.symm.trans he
  · have hb' := hb.body (truncateBody_keeps size srv.content) hv
    rw [h] at herr ⊢
    replace herr := none_of_map herr
    refine ⟨f', _, Prod.ext herr rfl, hb.reopened, hb'.held, ?_⟩
    have hfate : a.fate (0, 0) = .answered := by
      cases hfate : a.fate (0, 0) with
      | answered => rfl
      | applied => simp [hfate, Fate.answer, errOf, bind, Except.bind] at herr
      | lost => simp [hfate, Fate.answer, errOf, bind, Except.bind] at herr
    simp only [truncateBody, hv, hfate]
    rcases hb.prop with hD | hD
    · simp only at hD
      simp [hD]
    · simp only at hD
      simp [hD, setLength_setLength]

theorem openFork_answered (f : File) (srv : ForkServer) {a : Attempt} (ha : a.Answered) :
    ∃ o, (f.openFork srv a).1 = .ok o := by
  have hre : ∃ o, (f.reopen srv a).1 = .ok o := by
    simp only [reopen, ha.1]
    exact ⟨_, rfl⟩
  cases hf : f.fork with
  | none =>
    simp only [openFork, hf]
    exact hre
  | some o =>
    simp only [openFork, hf]
    split_ifs
    · exact ⟨o, rfl⟩
    · exact hre

section Answered

variable {body : OpenFork → Attempt → α × ForkServer → Option IoErr × α × ForkServer}
  {P : α → Bytes → Prop}
  {s : α × File × ForkServer}

theorem withFork_answered (hs : Between P f s) {a : Attempt} (ha : a.Answered)
    (hbody : ∀ o v srv', srv'.valid a o = true → P v srv'.content →
      (body o a (v, srv')).1 = none ∨ (body o a (v, srv')).1 = some .eof) :
    (withFork body a s).1 = none ∨ (withFork body a s).1 = some .eof := by
  obtain ⟨o, ho⟩ := openFork_answered s.2.1 s.2.2 ha
  have hspec := openFork_spec hs.held a
  have hvalid := hspec.valid o ho
  have hprop : P s.1 (s.2.1.openFork s.2.2 a).2.2.content := hspec.content ▸ hs.prop
  rcases hopen : s.2.1.openFork s.2.2 a with ⟨r, f', srv'⟩
  rw [hopen] at ho hvalid hprop
  cases ho
  rw [withFork, hopen]
  exact hbody o s.1 srv' hvalid hprop

theorem doFork_answered (hk : Keeps body P) (hs : Between P f s) {sc : Script} (hsc : sc.Recovers)
    (hbody : ∀ a, a.Answered → ∀ o v srv', srv'.valid a o = true → P v srv'.content →
      (body o a (v, srv')).1 = none ∨ (body o a (v, srv')).1 = some .eof) :
    (doFork body sc s).1 = none ∨ (doFork body sc s).1 = some .eof := by
  have hsecond := withFork_answered (withFork_between hk hs sc.first) hsc.2 (hbody _ hsc.2)
  rcases hfirst : withFork body sc.first s with ⟨err, s'⟩
  rw [hfirst] at hsecond
  simp only [doFork, doRetry, hfirst]
  cases err with
  | none => exact Or.inl rfl
  | some e =>
    cases halive : sc.alive with
    | false => exact hsecond
    | true =>
      have h := withFork_answered hs (hsc.1 halive) (hbody _ (hsc.1 halive))
      rw [hfirst] at h
      exact h

end Answered

theorem doFork_read_answered (hf : f.Held srv) {sc : Script} (hsc : sc.Recovers) (p : Bytes)
    (off : Int) :
    (doFork (readBody off) sc ((p, 0), f, srv)).1 = none ∨
      (doFork (readBody off) sc ((p, 0), f, srv)).1 = some .eof := by
  refine doFork_answered (readBody_keeps p off srv.content) ⟨⟨rfl, rfl⟩, hf, rfl, rfl⟩ hsc
    fun a ha o v srv' hv _ => ?_
  simp only [readBody, hv, if_true, ha.2, Fate.answer]
  exact (Fork.readAt_ok o.fork a.sched.order srv'.content a.exactEOF v.1 (wireOffset off)).err

theorem doFork_write_answered (hf : f.Held srv) {sc : Script} (hsc : sc.Recovers) {p : Bytes}
    {off : Int} (hfits : wireOffset off + p.length ≤ maxForkLen) :
    (doFork (writeBody p off) sc (0, f, srv)).1 = none ∨
      (doFork (writeBody p off) sc (0, f, srv)).1 = some .eof := by
  refine doFork_answered (writeBody_keeps p off srv.content) ⟨⟨rfl, rfl⟩, hf, [], rfl⟩ hsc
    fun a ha o v srv' hv _ => ?_
  have hnone : (o.fork.writeAt (writeRun srv' a o p (wireOffset off)) p).2 = none := by
    refine Fork.writeAt_err fun c hc => ?_
    have hend : c.1 + c.2 ≤ p.length := chunks_end_le ((a.sched.perm _).mem_iff.mp hc)
    have hacc : accepts srv' a o (wireOffset off) c = true := by
      rw [accepts, hv, Bool.true_and, decide_eq_true_eq]
      omega
    simp only [writeRun, ha.2, hacc, if_true, Fate.answer]
  exact Or.inl (congrArg (Option.map IoErr.afp) hnone)

theorem doFork_truncate_answered (hf : f.Held srv) {sc : Script} (hsc : sc.Recovers) (size : Int) :
    (doFork (truncateBody size) sc ((), f, srv)).1 = none ∨
      (doFork (truncateBody size) sc ((), f, srv)).1 = some .eof := by
  refine doFork_answered (truncateBody_keeps size srv.content) ⟨⟨rfl, rfl⟩, hf, Or.inl rfl⟩ hsc
    fun a ha o v srv' hv _ => ?_
  simp only [truncateBody, hv, if_true, ha.2, Fate.answer]
  exact Or.inl rfl

end File

end GoAfp
