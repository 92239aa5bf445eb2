import GoAfp.BridgeCalls
import GoAfp.OpenFile

/-! The forks that a server keeps open for a connection: what a request does to
the table of them, and whose requests have opened them. -/

namespace GoAfp

/-- The fork that a request is about. -/
def forkNamed (block : Bytes) : Option Nat :=
  if block.headD 0 ∈ [cmdCloseFork, cmdSetForkParms, cmdReadExt, cmdWriteExt] then
    (Reader.parse readForkID block).toOption.map UInt16.toNat
  else none

/-- A request with a fork's ID uses it, one to close it gives it up, and a reply
to a request to open one gives it. -/
def forkCaps (d : Nat) : Caps Bytes Answer (Nat × Nat) where
  uses := fun block => {c | c.1 = d ∧ forkNamed block = some c.2}
  ends := fun block => {c | c.1 = d ∧ block.headD 0 = cmdCloseFork ∧ forkNamed block = some c.2}
  gives := fun block r => {c | c.1 = d ∧ block.headD 0 = cmdOpenFork ∧
    ∃ payload f, r = .ok (payload, resNoErr) ∧ openForkReply payload = .ok f ∧ f.id.toNat = c.2}

section Server

variable {site : Site} {s : VolServer} {block : Bytes}

theorem Site.pathCall_ok {n : Nat} {k : PathCall → Call} {c : Call}
    (h : site.pathCall n block k = .ok c) :
    ∃ call, c = k call := by
  rw [Site.pathCall] at h
  split at h
  · rename_i call _
    split_ifs at h
    cases h
    exact ⟨call, rfl⟩
  · cases h

theorem Site.forkCall_ok {α : Type} {x : StateM Reader α} {k : α → Call} {c : Call}
    (h : Site.forkCall x block k = .ok c) :
    ∃ a, Reader.parse x block = .ok a ∧ c = k a := by
  rw [Site.forkCall] at h
  split at h
  · rename_i a ha
    cases h
    exact ⟨a, ha, rfl⟩
  · cases h

theorem Site.openFork_forks (s : VolServer) (write : Bool) (path : Bytes) :
    ((Site.openFork s write path).1.2 ≠ resNoErr ∧ (Site.openFork s write path).2.forks = s.forks) ∨
      ∃ id ref size, named path = .ok ref.path ∧ s.forks.lookup id = none ∧ id < 65536 ∧
        (Site.openFork s write path).2.forks = (id, ref) :: s.forks ∧
          (Site.openFork s write path).1 =
            (putU16 kFPExtDataForkLenBit ++ (putU16 (UInt16.ofNat id) ++ putU64 size),
              resNoErr) := by
  rw [Site.openFork]
  cases hid : freeFork s.forks 65536 0 with
  | none =>
    refine .inl ⟨?_, rfl⟩
    show resTooManyFilesOpen ≠ resNoErr
    decide
  | some id =>
    obtain ⟨hfree, hlt⟩ := freeFork_eq_some hid
    cases hh : ({ s with nextFork := id } : VolServer).handle (.openFork write path) with
    | error r => exact .inl ⟨by simpa only [hh] using r.code_ne_noErr, by simp only [hh]⟩
    | ok r =>
      obtain ⟨info, s'⟩ := r
      obtain ⟨p, hp, hopen⟩ := VolServer.named_bind_ok hh
      obtain ⟨d, -, rfl, rfl⟩ := VolServer.openFork_ok hopen
      exact .inr
        ⟨id, ⟨p, write⟩, UInt64.ofNat d.content.length, hp,
          hfree, by omega, by simp only [hh], by simp only [hh]⟩

theorem Site.respond_vol {req : Request} (hreq : ∀ write path, req ≠ .openFork write path) :
    (site.respond s (.vol req)).2 = (s.serve req).2 := by
  cases req with
  | openFork write path => exact absurd rfl (hreq write path)
  | _ =>
    simp only [Site.respond, VolServer.serve]
    split <;> simp_all

theorem forkNamed_of_close {id : UInt16} (hcmd : block.headD 0 = cmdCloseFork)
    (h : Reader.parse readForkID block = .ok id) :
    forkNamed block = some id.toNat := by
  rw [forkNamed, if_pos (by rw [hcmd]; decide), h]
  rfl

/-- What a call does to the table of forks: nothing, unless it closes one that
is open or opens one with an ID that is not in use. -/
theorem Site.respond_forks (site : Site) (s : VolServer) (call : Call) :
    (site.respond s call).2.forks = s.forks ∨
      (∃ id, call = .vol (.closeFork id) ∧
        (site.respond s call).2.forks = s.forks.filter (·.1 ≠ id)) ∨
      ∃ write path, call = .vol (.openFork write path) := by
  cases call with
  | createDir path =>
    left
    simp only [Site.respond]
    split <;> rfl
  | getParms fb db path =>
    left
    simp only [Site.respond]
    split <;> rfl
  | readExt id off count => exact .inl rfl
  | vol req =>
    cases req with
    | openFork write path => exact .inr (.inr ⟨write, path, rfl⟩)
    | closeFork id =>
      simp only [Site.respond, VolServer.handle]
      split_ifs
      · exact .inr (.inl ⟨id, rfl, rfl⟩)
      · exact .inl rfl
    | createFile hard path =>
      left
      rw [Site.respond_vol fun _ _ => Request.noConfusion]
      exact VolServer.serve_setTree (e := named path >>= s.tree.createFile hard)
        (by simp only [VolServer.handle, bind_assoc])
    | delete path =>
      left
      rw [Site.respond_vol fun _ _ => Request.noConfusion]
      exact VolServer.serve_setTree (e := named path >>= s.tree.delete)
        (by simp only [VolServer.handle, bind_assoc])
    | moveAndRename a c n =>
      left
      rw [Site.respond_vol fun _ _ => Request.noConfusion]
      exact VolServer.serve_setTree
        (e := named a >>= fun p => named c >>= fun q => named n >>= s.tree.moveAndRename p q)
        (by simp only [VolServer.handle, bind_assoc])
    | setForkLen id len =>
      left
      rw [Site.respond_vol fun _ _ => Request.noConfusion]
      exact VolServer.serve_setTree rfl
    | writeExt id off data =>
      left
      rw [Site.respond_vol fun _ _ => Request.noConfusion]
      exact VolServer.serve_setTree rfl
    | setFinderInfo path info =>
      left
      rw [Site.respond_vol fun _ _ => Request.noConfusion]
      exact VolServer.serve_setTree (e := named path >>= fun p => s.tree.setFinderInfo p info)
        (by simp only [VolServer.handle, bind_assoc])

theorem Site.openCall_ok {call : Call} (h : site.openCall block = .ok call) :
    ∃ write path, call = .vol (.openFork write path) := by
  unfold Site.openCall at h
  generalize Reader.parse (readPathCall 2) block = r at h
  cases r with
  | error e => cases h
  | ok c =>
    simp only at h
    split_ifs at h
    cases h
    exact ⟨_, _, rfl⟩

theorem Site.openCall_error {code : Result} (h : site.openCall block = .error code) :
    code ≠ resNoErr := by
  have hcode : code = resParamErr := by
    unfold Site.openCall at h
    generalize Reader.parse (readPathCall 2) block = r at h
    cases r with
    | error e =>
      cases h
      rfl
    | ok c =>
      simp only at h
      split_ifs at h
      cases h
      rfl
  rw [hcode]
  decide

/-- A call that neither opens nor closes a fork. -/
def Call.Plain : Call → Prop
  | .vol (.openFork _ _) => False
  | .vol (.closeFork _) => False
  | _ => True

theorem Site.pathCall_plain {n : Nat} {k : PathCall → Call} {call : Call} (hk : ∀ c, (k c).Plain)
    (h : site.pathCall n block k = .ok call) : call.Plain := by
  obtain ⟨c, rfl⟩ := Site.pathCall_ok h
  exact hk c

theorem Site.moveCall_ok {call : Call} (h : site.moveCall block = .ok call) :
    ∃ source destDir newName, call = .vol (.moveAndRename source destDir newName) := by
  unfold Site.moveCall at h
  generalize Reader.parse readMoveAndRename block = r at h
  split at h
  · split_ifs at h
    cases h
    exact ⟨_, _, _, rfl⟩
  · cases h

theorem Site.setParmsCall_plain {call : Call} (h : site.setParmsCall block = .ok call) :
    call.Plain := by
  unfold Site.setParmsCall at h
  generalize Reader.parse readSetParms block = r at h
  split at h
  · split_ifs at h
    cases h
    trivial
  · cases h

theorem Site.setForkCall_plain {call : Call} (h : Site.setForkCall block = .ok call) :
    call.Plain := by
  unfold Site.setForkCall at h
  generalize Reader.parse readSetForkParms block = r at h
  split at h
  · split_ifs at h
    cases h
    trivial
  · cases h

theorem Site.decode_ok {call : Call} (h : site.decode block = .ok call) :
    (block.headD 0 = cmdOpenFork ∧ ∃ write path, call = .vol (.openFork write path)) ∨
      (block.headD 0 = cmdCloseFork ∧ ∃ id : UInt16, forkNamed block = some id.toNat ∧
        call = .vol (.closeFork id.toNat)) ∨
      block.headD 0 ≠ cmdOpenFork ∧ call.Plain := by
  by_cases hopen : block.headD 0 = cmdOpenFork
  · rw [Site.decode_openFork hopen] at h
    exact .inl ⟨hopen, Site.openCall_ok h⟩
  by_cases hclose : block.headD 0 = cmdCloseFork
  · rw [Site.decode_closeFork hclose] at h
    obtain ⟨id, hparse, rfl⟩ := Site.forkCall_ok h
    exact .inr (.inl ⟨hclose, id, forkNamed_of_close hclose hparse, rfl⟩)
  · refine .inr (.inr ⟨hopen, ?_⟩)
    simp only [Site.decode, Site.decodeAs, if_neg hopen, if_neg hclose] at h
    split_ifs at h
    · refine Site.pathCall_plain (fun _ => ?_) h
      trivial
    · refine Site.pathCall_plain (fun _ => ?_) h
      trivial
    · refine Site.pathCall_plain (fun _ => ?_) h
      trivial
    · obtain ⟨source, destDir, newName, rfl⟩ := Site.moveCall_ok h
      trivial
    · exact Site.setParmsCall_plain h
    · refine Site.pathCall_plain (fun _ => ?_) h
      trivial
    · exact Site.setForkCall_plain h
    · obtain ⟨a, -, rfl⟩ := Site.forkCall_ok h
      trivial
    · obtain ⟨a, -, rfl⟩ := Site.forkCall_ok h
      trivial

/-- What a request does to the table of forks. -/
inductive TableStep (site : Site) (block : Bytes) (before after : List (Nat × ForkRef))
    (reply : Bytes × Result) : Prop
  | same (h : after = before) (hreply : block.headD 0 = cmdOpenFork → reply.2 ≠ resNoErr)
  | closed (id : Nat) (hcmd : block.headD 0 = cmdCloseFork) (hid : forkNamed block = some id)
      (h : after = before.filter (·.1 ≠ id))
  | opened (write : Bool) (path : Bytes) (id : Nat) (ref : ForkRef) (size : UInt64)
      (hdecode : site.decode block = .ok (.vol (.openFork write path)))
        (hpath : named path = .ok ref.path)
      (hid : id < 65536) (hfree : before.lookup id = none)
      (h : after = (id, ref) :: before)
      (hreply : reply =
        (putU16 kFPExtDataForkLenBit ++ (putU16 (UInt16.ofNat id) ++ putU64 size), resNoErr))

theorem Site.receive_forks (site : Site) (s : VolServer) (block : Bytes) :
    TableStep site block s.forks (site.receive s block).2.forks (site.receive s block).1 := by
  cases hdecode : site.decode block with
  | error code =>
    have hreceive : site.receive s block = (([], code), s) := by rw [Site.receive, hdecode]
    rw [hreceive]
    refine .same rfl fun hopen => ?_
    rw [Site.decode_openFork hopen] at hdecode
    exact Site.openCall_error hdecode
  | ok call =>
    rw [Site.receive_of_decode hdecode]
    rcases Site.decode_ok hdecode
      with ⟨hcmd, write, path, rfl⟩ | ⟨hcmd, id, hid, rfl⟩ | ⟨hcmd, hplain⟩
    · rcases Site.openFork_forks s write path
        with ⟨hcode, hforks⟩ | ⟨id, ref, size, hname, hfree, hlt, hforks, hreply⟩
      · exact .same hforks fun _ => hcode
      · exact .opened write path id ref size hdecode hname hlt hfree hforks hreply
    · rcases Site.respond_forks site s (.vol (.closeFork id.toNat))
        with hsame | ⟨k, hk, hforks⟩ | ⟨w, p, hp⟩
      · exact .same hsame fun hopen => absurd (hcmd.symm.trans hopen) (by decide)
      · cases hk
        exact .closed _ hcmd hid hforks
      · cases hp
    · rcases Site.respond_forks site s call with hsame | ⟨k, rfl, -⟩ | ⟨w, p, rfl⟩
      · exact .same hsame fun hopen => absurd hopen hcmd
      · exact hplain.elim
      · exact hplain.elim

end Server

section Share

variable {site : Site} {s : Share} {o d : Nat} {srv : VolServer} {block : Bytes}
  {reply : Bytes × Result}

def Share.owned (s : Share) (c : Nat × Nat) : Option Nat :=
  s.openedBy c.1 c.2

/-- A fork that somebody owns is open. -/
def Share.Sound (s : Share) : Prop :=
  ∀ c, (s.owned c).isSome → ((s.forks c.1).lookup c.2).isSome

theorem Share.owned_put_of_ne {c : Nat × Nat} (h : c.1 ≠ d) :
    (s.put o d srv).owned c = s.owned c := by
  simp only [owned, put, Function.update_of_ne h]

theorem Share.owned_put (id : Nat) : (s.put o d srv).owned (d, id) =
    if (srv.forks.lookup id).isNone then none else if ((s.forks d).lookup id).isNone then some o
      else s.owned (d, id) := by
  simp only [owned, put, Function.update_self]

theorem Share.Sound.put (h : s.Sound) : (s.put o d srv).Sound := by
  rintro ⟨e, id⟩ hsome
  by_cases he : e = d
  · subst he
    rw [Share.owned_put] at hsome
    simp only [Share.put, Function.update_self]
    split_ifs at hsome with hnone
    · cases hsome
    · simpa using hnone
    · simpa using hnone
  · rw [Share.owned_put_of_ne he] at hsome
    simpa only [Share.put, Function.update_of_ne he] using h (e, id) hsome

/-- An open fork stays in the table unless the request closes it. -/
theorem TableStep.keeps {before after : List (Nat × ForkRef)}
    (h : TableStep site block before after reply) {id : Nat} (hid : (before.lookup id).isSome)
    (hends : (d, id) ∉ (forkCaps d).ends block) : (after.lookup id).isSome := by
  cases h with
  | same h => rwa [h]
  | closed k hcmd hk h =>
    have hne : id ≠ k := by
      rintro rfl
      exact hends ⟨rfl, hcmd, hk⟩
    rw [h, lookup_filter_ne, if_neg hne]
    exact hid
  | opened write path k ref size hdecode hpath hlt hfree h =>
    have hne : id ≠ k := by
      rintro rfl
      simp [hfree] at hid
    rw [h, List.lookup_cons, beq_false_of_ne hne]
    exact hid

theorem Share.Sound.put_keeps (h : s.Sound)
    (htable : TableStep site block (s.forks d) srv.forks reply) {c : Nat × Nat} {o' : Nat}
    (hc : s.owned c = some o') (hends : c ∉ (forkCaps d).ends block) :
    (s.put o d srv).owned c = some o' := by
  obtain ⟨e, id⟩ := c
  by_cases he : e = d
  · subst he
    have hbefore : ((s.forks e).lookup id).isSome := h (e, id) (by rw [hc]; rfl)
    have hafter := htable.keeps hbefore hends
    rw [Share.owned_put, if_neg (by simpa using hafter), if_neg (by simpa using hbefore)]
    exact hc
  · rw [Share.owned_put_of_ne he]
    exact hc

theorem Share.put_gives (htable : TableStep site block (s.forks d) srv.forks reply) {c : Nat × Nat}
    (hc : c ∈ (forkCaps d).gives block (.ok reply)) : (s.put o d srv).owned c = some o := by
  obtain ⟨e, id⟩ := c
  obtain ⟨rfl, hcmd, payload, f, hreply, hf, hid⟩ := hc
  cases hreply
  cases htable with
  | same h hcode => exact absurd rfl (hcode hcmd)
  | closed k hclose => exact absurd (hcmd.symm.trans hclose) (by decide)
  | opened write path k ref size hdecode hpath hlt hfree h hreply =>
    cases hreply
    rw [openForkReply_ok] at hf
    cases hf
    have hk : k = id := (UInt16.toNat_ofNat_of_lt' hlt).symm.trans hid
    subst hk
    have hfree' : (s.forks e).lookup k = none := hfree
    rw [Share.owned_put, h, hfree', List.lookup_cons_self]
    rfl

end Share

theorem Bridge.backend_tracks (b : Bridge) : b.backend.Tracks forkCaps Share.owned Share.Sound where
  serve := by
    intro fate o d block s hs huses
    have htable := Site.receive_forks (b.site d) (s.on d) block
    have hkeeps {c : Nat × Nat} {o' : Nat} (hc : s.owned c = some o')
        (hends : c ∉ (forkCaps d).ends block) :=
      hs.put_keeps (o := o) htable hc hends
    have hends {c : Nat × Nat} {o' : Nat} (ho : o' ≠ o) (hc : s.owned c = some o') :
        c ∉ (forkCaps d).ends block := by
      intro hmem
      have hown := huses c ⟨hmem.1, hmem.2.2⟩
      exact ho (Option.some.inj (hc.symm.trans hown))
    have hunserved {r : Answer} (hr : ∀ payload, r ≠ .ok (payload, resNoErr)) (c : Nat × Nat) :
        c ∉ (forkCaps d).gives block r := by
      rintro ⟨-, -, payload, f, he, -⟩
      exact hr payload he
    cases fate with
    | answered refusal =>
      cases refusal with
      | none =>
        refine ⟨hs.put, fun c hc => Share.put_gives htable hc, fun c o' ho hc => ?_,
          fun c hc hown => ?_⟩
        · exact hkeeps hc (hends ho hc)
        · exact hkeeps hown hc
      | some code =>
        refine ⟨hs, fun c hc => ?_, fun c o' _ hc => hc, fun c _ hc => hc⟩
        refine absurd hc (hunserved (fun payload he => ?_) c)
        exact code.property (Prod.mk.inj (Except.ok.inj he)).2
    | unanswered applied err =>
      have hnone (c : Nat × Nat) : c ∉ (forkCaps d).gives block (.error err) :=
        hunserved (fun payload he => by cases he) c
      cases applied with
      | false => exact ⟨hs, fun c hc => absurd hc (hnone c), fun c o' _ hc => hc, fun c _ hc => hc⟩
      | true =>
        refine ⟨hs.put, fun c hc => absurd hc (hnone c), fun c o' ho hc => ?_, fun c hc hown => ?_⟩
        · exact hkeeps hc (hends ho hc)
        · exact hkeeps hown hc
  env := fun change s hs => ⟨hs, fun c => rfl⟩

end GoAfp
