import GoAfp.Chroot
import GoAfp.HostFS
import GoAfp.WirePath

/-! `MkdirAll`: the directories it makes, one request after the other, and what
it leaves as it was. A name that is taken is passed over, whatever it names. -/

namespace GoAfp

open Proc

namespace FS

variable (fs : FS)

/-- The paths of the components of `p`, from the first one down. -/
def subPaths (p : Bytes) : List Bytes :=
  (List.range (p.splitOn slash).length).map fun i =>
    [slash].intercalate ((p.splitOn slash).take (i + 1))

def mkdirEach (nets : Nat → HostNet) (v : AfpVolume) :
    Nat → List Bytes → VolServer → Option PathErr × VolServer
  | _, [], srv => (none, srv)
  | i, sub :: subs, srv =>
    match (nets i).do v (fun v => onConn (v.mkdir Host.command rootDirID sub)) ((), srv) with
    | (none, _, srv) => mkdirEach nets v (i + 1) subs srv
    | (some e, _, srv) =>
      if mapErr (.afp e) = .exist then mkdirEach nets v (i + 1) subs srv
      else (some ⟨"mkdir", sub, mapErr (.afp e)⟩, srv)

def mkdirAll (nets : Nat → HostNet) (v : AfpVolume) (filename : Bytes) (srv : VolServer) :
    Option PathErr × VolServer :=
  let p := fs.resolve filename
  if p = [] then (none, srv) else mkdirEach nets v 0 (subPaths p) srv

end FS

/-- The objects of `t` are in `t'` as they were, and all others in `t'` are
directories at the paths of `Q`. -/
structure Grown (Q : Path → Prop) (t t' : VTree) : Prop where
  kept : ∀ r, (t.find r).isSome → (t'.find r).map Tree.label = (t.find r).map Tree.label
  fresh : ∀ r, t.find r = none → (t'.find r).isSome → Q r ∧ ∃ a es, t'.find r = some (.dir a es)

section Grown

variable {Q Q' : Path → Prop} {t t' t'' : VTree} {q : Path}

theorem grown_refl (Q : Path → Prop) (t : VTree) : Grown Q t t := by
  refine ⟨fun _ _ => rfl, fun r h h' => ?_⟩
  rw [h] at h'
  cases h'

theorem Grown.mono (h : Grown Q t t') (hQ : ∀ r, Q r → Q' r) : Grown Q' t t' :=
  ⟨h.kept, fun r hr hr' => ⟨hQ r (h.fresh r hr hr').1, (h.fresh r hr hr').2⟩⟩

theorem Grown.isSome (h : Grown Q t t') {r : Path} (hr : (t.find r).isSome) :
    (t'.find r).isSome := by
  rw [← Option.isSome_map (f := Tree.label), h.kept r hr, Option.isSome_map]
  exact hr

theorem Grown.dir (h : Grown Q t t') {r : Path} {a : Attrs} {es : List (Bytes × VTree)}
    (hr : t.find r = some (.dir a es)) : ∃ es', t'.find r = some (.dir a es') := by
  have hlabel := h.kept r (by rw [hr]; rfl)
  rw [hr] at hlabel
  obtain ⟨node, hnode, heq⟩ := Option.map_eq_some_iff.mp hlabel
  cases node with
  | file f => cases heq
  | dir b es' =>
    cases heq
    exact ⟨es', hnode⟩

theorem Grown.file (h : Grown Q t t') {r : Path} {f : FileData} (hr : t.find r = some (.file f)) :
    t'.find r = some (.file f) := by
  have hlabel := h.kept r (by rw [hr]; rfl)
  rw [hr] at hlabel
  obtain ⟨node, hnode, heq⟩ := Option.map_eq_some_iff.mp hlabel
  cases node with
  | file g =>
    cases heq
    exact hnode
  | dir b es' => cases heq

theorem Grown.trans (h : Grown Q t t') (h' : Grown Q t' t'') : Grown Q t t'' := by
  refine ⟨fun r hr => (h'.kept r (h.isSome hr)).trans (h.kept r hr), fun r hr hr'' => ?_⟩
  cases hr' : t'.find r with
  | none => exact h'.fresh r hr' hr''
  | some node =>
    obtain ⟨hQ, a, es, hdir⟩ := h.fresh r hr (by rw [hr']; rfl)
    obtain ⟨es', hdir'⟩ := h'.dir hdir
    exact ⟨hQ, a, es', hdir'⟩

end Grown

section CreateDir

variable {t t' : VTree} {q : Path}

theorem VTree.createDir_ok (h : t.createDir q = .ok t') :
    ∃ dir x a es, leafOf q = some (dir, x) ∧ t.find dir = some (.dir a es) ∧ t.find q = none ∧
      t' = t.set dir x (some (.dir newAttrs [])) := by
  rw [createDir] at h
  cases hq : leafOf q with
  | none => simp [hq] at h
  | some r =>
    obtain ⟨dir, x⟩ := r
    simp only [hq] at h
    split at h
    · rename_i a es hdir
      split at h
      · cases h
      · rename_i hx
        split_ifs at h
        refine ⟨dir, x, a, es, rfl, hdir, ?_, (Except.ok.inj h).symm⟩
        rw [leafOf_eq_some hq, Tree.find_leaf hdir, hx]
    · cases h

theorem VTree.createDir_exists (h : t.createDir q = .error .objectExists) : (t.find q).isSome := by
  rw [createDir] at h
  cases hq : leafOf q with
  | none =>
    have hnil : q = [] := by simpa [leafOf] using hq
    rw [hnil]
    rfl
  | some r =>
    obtain ⟨dir, x⟩ := r
    simp only [hq] at h
    split at h
    · rename_i a es hdir
      split at h
      · rename_i node hx
        rw [leafOf_eq_some hq, Tree.find_leaf hdir, hx]
        rfl
      · split_ifs at h
        cases h
    · cases h

theorem grown_createDir (h : t.createDir q = .ok t') : Grown (· = q) t t' ∧ (t'.find q).isSome := by
  obtain ⟨dir, x, a, es, hq, hdir, hfree, rfl⟩ := VTree.createDir_ok h
  have hmade : (t.set dir x (some (.dir newAttrs []))).find q = some (.dir newAttrs []) := by
    rw [leafOf_eq_some hq]
    exact Tree.find_set_leaf hdir x _
  have hbelow (r : Path) (hr : (t.find r).isSome) : ¬ dir ++ [x] <+: r := by
    intro hpre
    have hsome := Tree.find_isSome_of_prefix hr hpre
    rw [← leafOf_eq_some hq, hfree] at hsome
    cases hsome
  refine ⟨⟨fun r hr => Tree.find_set_label _ (hbelow r hr), fun r hr hr' => ?_⟩, by rw [hmade]; rfl⟩
  by_cases hpre : dir ++ [x] <+: r
  · -- a new directory has nothing in it
    obtain ⟨rest, rfl⟩ := hpre
    rw [← leafOf_eq_some hq] at hr' ⊢
    rw [Tree.find_append, hmade] at hr'
    cases rest with
    | nil => exact ⟨List.append_nil q, newAttrs, [], by rw [List.append_nil, hmade]⟩
    | cons y rest => cases hr'
  · rw [Tree.find_set_none _ hr hpre] at hr'
    cases hr'

end CreateDir

theorem Refusal.exists_of_code {r : Refusal} (h : r.code = resObjectExists) :
    r = .objectExists := by
  cases r <;> first | rfl | exact absurd h (by decide)

theorem named_sentPath (nfd : Bytes → Bytes) (p : Bytes) : ∃ q, named (sentPath nfd p) = .ok q := by
  rw [named, wireNames, if_pos (sentPath_length_lt nfd p)]
  exact ⟨_, rfl⟩

/-- The server knows the volume, and says that an object exists only if it
does. -/
structure Conduct.Knows (c : Conduct) (v : AfpVolume) : Prop where
  volID : c.site.volID = v.id
  dirID : c.site.dirID = rootDirID
  honest : ∀ code : ErrCode, some code ∈ c.codes → code.val ≠ resObjectExists

section Request

variable {c : Conduct} {v : AfpVolume} {sub : Bytes} {q : Path}

theorem receive_mkdir {site : Site} (hvol : site.volID = v.id) (hdirID : site.dirID = rootDirID)
    (hq : named (sentPath v.nfd sub) = .ok q) (s : VolServer) :
    site.receive s (v.mkdirBlock rootDirID sub) = match s.tree.createDir q with
      | .ok t => (([], resNoErr), { s with tree := t })
      | .error r => (([], r.code), s) := by
  rw [Site.receive_of_decode (decode_mkdirBlock hvol hdirID sub), Site.respond, hq]
  rfl

theorem answer_mkdir (hc : c.Knows v) (hq : named (sentPath v.nfd sub) = .ok q) (s : VolServer) :
    Grown (· = q) s.tree (Host.answer c.site c.codes s (v.mkdirBlock rootDirID sub)).2.tree ∧
      ((Host.answer c.site c.codes s (v.mkdirBlock rootDirID sub)).1.2 = resNoErr ∨
        (Host.answer c.site c.codes s (v.mkdirBlock rootDirID sub)).1.2 = resObjectExists →
        ((Host.answer c.site c.codes s (v.mkdirBlock rootDirID sub)).2.tree.find q).isSome) := by
  cases hcode : c.codes.headD none with
  | some code =>
    have hmem : some code ∈ c.codes := by
      cases hcodes : c.codes with
      | nil =>
        rw [hcodes] at hcode
        cases hcode
      | cons a codes =>
        rw [hcodes] at hcode
        exact List.mem_cons.mpr (Or.inl hcode.symm)
    simp only [Host.answer, hcode]
    refine ⟨grown_refl _ _, ?_⟩
    rintro (hok | hexists)
    · exact absurd hok code.property
    · exact absurd hexists (hc.honest code hmem)
  | none =>
    rw [Conduct.answer_served hcode, receive_mkdir hc.volID hc.dirID hq]
    cases hmake : s.tree.createDir q with
    | ok t => exact ⟨(grown_createDir hmake).1, fun _ => (grown_createDir hmake).2⟩
    | error r =>
      refine ⟨grown_refl _ _, ?_⟩
      rintro (hok | hexists)
      · exact absurd hok r.code_ne_noErr
      · rw [Refusal.exists_of_code hexists] at hmake
        exact VTree.createDir_exists hmake

/-- No error, or one that `MkdirAll` passes over. -/
def PassedOver (err : Option AfpErr) : Prop :=
  ∀ e, err = some e → mapErr (.afp e) = .exist

theorem passedOver_resultErr {op : String} {code : Result}
    (h : PassedOver (errOf (resultErr op code))) :
    code = resNoErr ∨ code = resObjectExists := by
  by_cases hok : code = resNoErr
  · exact Or.inl hok
  · have herr : errOf (resultErr op code) = some (.result op code) := by
      rw [resultErr, if_neg hok]
      rfl
    exact Or.inr ((mapErr_exist_iff _ _).mp (h _ herr))

theorem attempt_mkdir (hc : c.Knows v) (hq : named (sentPath v.nfd sub) = .ok q)
    (s : Unit × VolServer) :
    Grown (· = q) s.2.tree (c.attempt (onConn (v.mkdir Host.command rootDirID sub)) s).2.2.tree ∧
      (PassedOver (c.attempt (onConn (v.mkdir Host.command rootDirID sub)) s).1 →
        ((c.attempt (onConn (v.mkdir Host.command rootDirID sub)) s).2.2.tree.find q).isSome) := by
  obtain ⟨hgrown, hsettled⟩ := answer_mkdir hc hq s.2
  by_cases hk : c.crash.next = .answered
  · have hattempt : c.attempt (onConn (v.mkdir Host.command rootDirID sub)) s =
        (errOf
          (resultErr ("mkdir " ++ goText sub)
            (Host.answer c.site c.codes s.2 (v.mkdirBlock rootDirID sub)).1.2), (),
          (Host.answer c.site c.codes s.2 (v.mkdirBlock rootDirID sub)).2) := by
      simp only [Conduct.attempt, onConn_on, AfpVolume.mkdir, Conduct.codeOnly_host hk]
      rfl
    rw [hattempt]
    exact ⟨hgrown, fun hpass => hsettled (passedOver_resultErr hpass)⟩
  · obtain ⟨h', hon⟩ :=
      Conduct.codeOnly_unanswered hk ("mkdir " ++ goText sub) s.2 (v.mkdirBlock rootDirID sub)
    have hattempt : c.attempt (onConn (v.mkdir Host.command rootDirID sub)) s =
        (some (.transport .closed), (), h'.srv) := by
      simp only [Conduct.attempt, onConn_on, AfpVolume.mkdir, hon]
      rfl
    have hsrv :=
      Conduct.codeOnly_srv (c := c) ("mkdir " ++ goText sub) s.2 (v.mkdirBlock rootDirID sub)
    rw [hon] at hsrv
    rw [hattempt]
    refine ⟨?_, fun hpass => by cases hpass _ rfl⟩
    rcases hsrv with hsame | hserved
    · rw [hsame]
      exact grown_refl _ _
    · rw [hserved]
      exact hgrown

/-- `do` on a server that knows the volume in both runs. -/
structure HostNet.Knows (net : HostNet) (v : AfpVolume) : Prop where
  first : net.conduct.Knows v
  second : net.again.Knows v

theorem do_mkdir {net : HostNet} (hnet : net.Knows v) (hq : named (sentPath v.nfd sub) = .ok q)
    (s : Unit × VolServer) :
    Grown (· = q) s.2.tree
      (net.do v (fun v => onConn (v.mkdir Host.command rootDirID sub)) s).2.2.tree ∧
      (PassedOver (net.do v (fun v => onConn (v.mkdir Host.command rootDirID sub)) s).1 →
        ((net.do v (fun v => onConn (v.mkdir Host.command rootDirID sub)) s).2.2.tree.find
          q).isSome) := by
  have hfirst := attempt_mkdir hnet.first hq s
  rw [HostNet.do]
  rcases doRetry_eq (net.conduct.attempt (onConn (v.mkdir Host.command rootDirID sub)))
    (fun s => net.again.attempt (onConn (AfpVolume.mkdir Host.command
      { v with gen := net.newGen, quantum := net.newQuantum } rootDirID sub))
        (s.1, s.2.reconnected)) net.alive s with h | h
  · rw [h]
    exact hfirst
  · rw [h]
    have hagain : net.again.Knows { v with gen := net.newGen, quantum := net.newQuantum } :=
      ⟨hnet.second.volID, hnet.second.dirID, hnet.second.honest⟩
    have hsecond := attempt_mkdir hagain hq
      ((), (net.conduct.attempt (onConn (v.mkdir Host.command rootDirID sub)) s).2.2.reconnected)
    exact ⟨hfirst.1.trans hsecond.1, hsecond.2⟩

/-- The paths that the server reads in `subs`. -/
def ReadFrom (v : AfpVolume) (subs : List Bytes) (q : Path) : Prop :=
  ∃ sub ∈ subs, named (sentPath v.nfd sub) = .ok q

theorem mkdirEach_done {nets : Nat → HostNet} (hnets : ∀ i, (nets i).Knows v) {subs : List Bytes}
    {i : Nat} {s s' : VolServer} (h : FS.mkdirEach nets v i subs s = (none, s')) :
    Grown (ReadFrom v subs) s.tree s'.tree ∧ ∀ q, ReadFrom v subs q → (s'.tree.find q).isSome := by
  induction subs generalizing i s with
  | nil =>
    cases h
    exact ⟨grown_refl _ _, fun q hq => by obtain ⟨_, hmem, -⟩ := hq; cases hmem⟩
  | cons sub subs ih =>
    obtain ⟨q, hq⟩ := named_sentPath v.nfd sub
    have hstep := do_mkdir (hnets i) hq ((), s)
    rcases hdo : (nets i).do v (fun v => onConn (v.mkdir Host.command rootDirID sub)) ((), s)
        with ⟨err, u, s₁⟩
    rw [hdo] at hstep
    obtain ⟨hpass, hrest⟩ : PassedOver err ∧ FS.mkdirEach nets v (i + 1) subs s₁ = (none, s') := by
      rw [FS.mkdirEach, hdo] at h
      cases err with
      | none => exact ⟨fun e he => (by cases he), h⟩
      | some e =>
        by_cases hexist : mapErr (.afp e) = .exist
        · simp only [hexist, if_true] at h
          exact ⟨fun e' he => Option.some.inj he ▸ hexist, h⟩
        · simp only [hexist, if_false] at h
          cases h
    obtain ⟨hgrown, hfound⟩ := ih hrest
    have hfirst : Grown (ReadFrom v (sub :: subs)) s.tree s₁.tree :=
      hstep.1.mono fun r hr => ⟨sub, List.mem_cons_self, hr ▸ hq⟩
    have hlater : Grown (ReadFrom v (sub :: subs)) s₁.tree s'.tree :=
      hgrown.mono fun r ⟨sub', hmem, hr⟩ => ⟨sub', List.mem_cons_of_mem _ hmem, hr⟩
    refine ⟨hfirst.trans hlater, ?_⟩
    rintro r ⟨sub', hmem, hr⟩
    rcases List.mem_cons.mp hmem with rfl | hmem
    · cases hq.symm.trans hr
      exact hlater.isSome (hstep.2 hpass)
    · exact hfound r ⟨sub', hmem, hr⟩

end Request

theorem FS.resolve_names (fs : FS) (name : Bytes) :
    ∃ cs, (∀ c ∈ cs, IsName c) ∧ fs.resolve name = [slash].intercalate cs := by
  refine ⟨_, names_foldl (by simp) fun c hc => ?_, rfl⟩
  obtain ⟨p, -, hp⟩ := List.mem_flatMap.mp hc
  exact not_mem_of_mem_splitOn hp

theorem foldl_descend {names acc : Path} (h : [] ∉ names) :
    names.foldl descend acc = acc ++ names := by
  induction names generalizing acc with
  | nil => simp
  | cons x names ih =>
    have hx : x ≠ [] := fun he => h (by simp [he])
    rw [List.foldl_cons, descend, if_neg hx, ih fun hm => h (List.mem_cons_of_mem _ hm)]
    simp

theorem intercalate_take_starts {α : Type} (sep : α) (cs : List (List α)) (i : Nat) :
    [sep].intercalate (cs.take (i + 1)) <+: [sep].intercalate cs := by
  cases cs with
  | nil => simp
  | cons c cs =>
    by_cases hdrop : (c :: cs).drop (i + 1) = []
    · rw [List.take_of_length_le (List.drop_eq_nil_iff.mp hdrop)]
    · have hjoin : [sep].intercalate ((c :: cs).take (i + 1) ++ (c :: cs).drop (i + 1)) = _ :=
        intercalate_append (by simp) hdrop
      rw [List.take_append_drop] at hjoin
      rw [hjoin]
      exact List.prefix_append _ _

section Join

variable {nfd : Bytes → Bytes} (hn : Decomposition nfd) {cs : List Bytes} (hcs : ∀ c ∈ cs, IsName c)
  (hne : cs ≠ [])

include hn hcs hne

theorem wirePath_join : wirePath nfd ([slash].intercalate cs) = [0].intercalate (cs.map nfd) := by
  have htrim : trimSlash ([slash].intercalate cs) = [slash].intercalate cs := by
    obtain ⟨dir, m, rfl⟩ := (List.eq_nil_or_concat' cs).resolve_left hne
    have hm : IsName m := hcs m (by simp)
    exact trimSlash_join
      (fun c hc => ⟨(hcs c (by simp [hc])).nonempty, (hcs c (by simp [hc])).slash⟩)
      hm.nonempty hm.slash
  rw [wirePath_eq_intercalate hn, htrim,
    List.splitOn_intercalate slash (fun c hc => (hcs c hc).slash) hne]

/-- The path of some names is read name by name. -/
theorem named_join (hnul : 0 ∉ [slash].intercalate cs)
    (hlen : (wirePath nfd ([slash].intercalate cs)).length < 65536) :
    named (sentPath nfd ([slash].intercalate cs)) = .ok (cs.map nfd) := by
  have hsplit : (wirePath nfd ([slash].intercalate cs)).splitOn 0 = cs.map nfd := by
    rw [wirePath_join hn hcs hne]
    refine List.splitOn_intercalate 0 (fun c hc h0 => ?_) (by simpa using hne)
    obtain ⟨d, hd, rfl⟩ := List.mem_map.mp hc
    exact hnul (mem_intercalate hd (hn.nul_mem d h0))
  have hnames : [] ∉ cs.map nfd := by
    intro h
    obtain ⟨c, hc, he⟩ := List.mem_map.mp h
    exact (hcs c hc).nonempty (hn.eq_nil c he)
  have hwire : wirePath nfd ([slash].intercalate cs) ≠ [] := by
    intro hnil
    rw [hnil, List.splitOn_nil] at hsplit
    exact hnames (hsplit ▸ List.mem_singleton_self [])
  rw [sentPath_eq_iff.mpr hlen, named, wireNames, if_pos hlen, if_neg hwire, hsplit,
    foldl_descend hnames]
  rfl

end Join

theorem readFrom_subPaths_iff {v : AfpVolume} (hn : Decomposition v.nfd) {cs : List Bytes}
    (hcs : ∀ c ∈ cs, IsName c) (hne : cs ≠ []) (hnul : 0 ∉ [slash].intercalate cs)
    (hlen : (wirePath v.nfd ([slash].intercalate cs)).length < 65536)
    (q : Path) : ReadFrom v (FS.subPaths ([slash].intercalate cs)) q ↔
      ∃ i < cs.length, q = (cs.map v.nfd).take (i + 1) := by
  have hsplit : ([slash].intercalate cs).splitOn slash = cs :=
    List.splitOn_intercalate slash (fun c hc => (hcs c hc).slash) hne
  have hread (i : Nat) : named (sentPath v.nfd ([slash].intercalate (cs.take (i + 1)))) =
      .ok ((cs.map v.nfd).take (i + 1)) := by
    have hpre := intercalate_take_starts slash cs i
    rw [← List.map_take]
    have hcs' : ∀ c ∈ cs.take (i + 1), IsName c := fun c hc => hcs c (List.mem_of_mem_take hc)
    have hne' : cs.take (i + 1) ≠ [] := by simpa using hne
    refine named_join hn hcs' hne' (fun h => hnul (hpre.subset h)) (lt_of_le_of_lt ?_ hlen)
    rw [wirePath_join hn hcs' hne', wirePath_join hn hcs hne, List.map_take]
    exact (intercalate_take_starts 0 (cs.map v.nfd) i).length_le
  rw [ReadFrom, FS.subPaths, hsplit]
  constructor
  · rintro ⟨sub, hsub, hq⟩
    obtain ⟨i, hi, rfl⟩ := List.mem_map.mp hsub
    exact ⟨i, List.mem_range.mp hi, (Except.ok.inj ((hread i).symm.trans hq)).symm⟩
  · rintro ⟨i, hi, rfl⟩
    exact ⟨_, List.mem_map.mpr ⟨i, List.mem_range.mpr hi, rfl⟩, hread i⟩

/-- The directories of `names` from the root down are there, nothing else is
new, and what was there is as it was. -/
structure MkdirDone (names : Path) (t t' : VTree) :
    Prop extends Grown (fun r => ∃ i, r = names.take i) t t' where
  dirs : ∀ i, ∃ a es, t'.find (names.take i) = some (.dir a es)

theorem find_dir_of_prefix {t : VTree} {p q : Path} {a : Attrs} {es : List (Bytes × VTree)}
    (h : t.find q = some (.dir a es)) (hp : p <+: q) : ∃ b es', t.find p = some (.dir b es') := by
  obtain ⟨r, rfl⟩ := hp
  rw [Tree.find_append] at h
  cases hf : t.find p with
  | none => simp [hf] at h
  | some node =>
    cases node with
    | dir b es' => exact ⟨b, es', rfl⟩
    | file f =>
      rw [hf] at h
      cases r with
      | nil => cases h
      | cons x r => cases h

theorem Grown.done {names : Path} {t t' : VTree} (h : Grown (fun r => ∃ i, r = names.take i) t t')
    (hsome : (t'.find names).isSome) :
    MkdirDone names t t' ↔ ∀ f, t.find names ≠ some (.file f) := by
  constructor
  · intro hdone f hf
    obtain ⟨a, es, hdir⟩ := hdone.dirs names.length
    rw [List.take_length, h.file hf] at hdir
    cases hdir
  · intro hfile
    have hdir : ∃ a es, t'.find names = some (.dir a es) := by
      cases hnode : t.find names with
      | none => exact (h.fresh names hnode hsome).2
      | some node =>
        cases node with
        | file f => exact absurd hnode (hfile f)
        | dir a es =>
          obtain ⟨es', hes'⟩ := h.dir hnode
          exact ⟨a, es', hes'⟩
    obtain ⟨a, es, hdir⟩ := hdir
    exact ⟨h, fun i => find_dir_of_prefix hdir (List.take_prefix i names)⟩

/-- A call of `MkdirAll` that returns nil has made the directory unless there
was a file in its place. -/
theorem mkdirAll_done_iff (fs : FS) {nets : Nat → HostNet} {v : AfpVolume}
    (hn : Decomposition v.nfd) (hnets : ∀ i, (nets i).Knows v) {filename : Bytes}
    (hnul : 0 ∉ fs.resolve filename) (hwire : (wirePath v.nfd (fs.resolve filename)).length < 65536)
    {s s' : VolServer} (h : fs.mkdirAll nets v filename s = (none, s')) :
    MkdirDone ((components (fs.resolve filename)).map v.nfd) s.tree s'.tree ↔
      ∀ f, s.tree.find ((components (fs.resolve filename)).map v.nfd) ≠ some (.file f) := by
  obtain ⟨cs, hcs, hresolve⟩ := fs.resolve_names filename
  rw [FS.mkdirAll, hresolve] at h
  rw [hresolve] at hnul hwire
  rw [hresolve, components_intercalate hcs]
  by_cases hne : cs = []
  · subst hne
    cases h
    exact (grown_refl _ _).done rfl
  · have hempty : [slash].intercalate cs ≠ [] := fun he => hne (intercalate_eq_nil hcs he)
    simp only [hempty, if_false] at h
    obtain ⟨hgrown, hfound⟩ := mkdirEach_done hnets h
    have hread := readFrom_subPaths_iff hn hcs hne hnul hwire
    refine (hgrown.mono fun r hr => ?_).done (hfound _ ((hread _).mpr ?_))
    · obtain ⟨i, -, rfl⟩ := (hread r).mp hr
      exact ⟨i + 1, rfl⟩
    · have hpos : 0 < cs.length := List.length_pos_iff.mpr hne
      refine ⟨cs.length - 1, by omega, ?_⟩
      rw [List.take_of_length_le]
      rw [List.length_map]
      omega

theorem knows_plain : (HostNet.refusing []).Knows plainVolume :=
  ⟨⟨rfl, rfl, fun _ h => by cases h⟩, ⟨rfl, rfl, fun _ h => by cases h⟩⟩

theorem mkdirAll_done_iff_two : MkdirDone [ascii "a", ascii "b"] emptyServer.tree
    (.dir newAttrs [(ascii "a", .dir newAttrs [(ascii "b", .dir newAttrs [])])]) := by
  have hok : (FS.mk []).mkdirAll (fun _ => .refusing []) plainVolume (ascii "a/b") emptyServer =
      (none,
        { emptyServer with
          tree :=
            .dir newAttrs [(ascii "a", .dir newAttrs [(ascii "b", .dir newAttrs [])])] }) := by
    rfl
  refine (mkdirAll_done_iff (FS.mk []) decomposition_id (fun _ => knows_plain) (by decide)
    (by decide) hok).mpr ?_
  exact fun f hf => by cases hf

/-- There is a file of that name, and `MkdirAll` returns nil. -/
theorem mkdirAll_file :
    (FS.mk []).mkdirAll (fun _ => .refusing []) plainVolume (ascii "a") fileServer =
    (none, fileServer) ∧ fileServer.tree.find [ascii "a"] = some (.file newFile) := by
  exact ⟨rfl, rfl⟩

end GoAfp
