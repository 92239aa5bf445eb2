import GoAfp.OneShot

/-! Closures that create a file and go on to fill it. A second run finds the
file of the first in its way. -/

namespace GoAfp

open Proc

theorem treeOnly_create (w : Bytes) :
    TreeOnly (.createFile false w) fun t => named w >>= t.createFile false :=
  treeOnly_of_bind fun s => by simp only [VolServer.handle, bind_assoc]

theorem ne_of_find {t t' : VTree} {p : Path} (h : (t.find p).isSome) (h' : t'.find p = none) :
    t' ≠ t := by
  rintro rfl
  rw [h'] at h
  cases h

structure Slot (t : VTree) (w : Bytes) (p dir : Path) (x : Bytes) : Prop where
  wire : named w = .ok p
  leaf : leafOf p = some (dir, x)
  parent : ∃ a es, t.find dir = some (.dir a es)
  free : t.find p = none

theorem slot_of_create {t t' : VTree} {w : Bytes} (h : (named w >>= t.createFile false) = .ok t') :
    ∃ p dir x, Slot t w p dir x ∧ t' = t.set dir x (some (.file newFile)) := by
  obtain ⟨p, hp, h⟩ := VolServer.named_bind_ok h
  obtain ⟨dir, x, a, es, hleaf, hdir, hfree, ht⟩ := VTree.createFile_ok h
  exact ⟨p, dir, x, ⟨hp, hleaf, ⟨a, es, hdir⟩, hfree⟩, ht⟩

theorem Slot.find_set {t : VTree} {w : Bytes} {p dir : Path} {x : Bytes} (h : Slot t w p dir x)
    (f : FileData) :
    (t.set dir x (some (.file f))).find p = some (.file f) := by
  obtain ⟨a, es, hdir⟩ := h.parent
  rw [leafOf_eq_some h.leaf]
  exact Tree.find_set_leaf hdir x _

theorem Slot.create_again {t t' : VTree} {w : Bytes} {p dir : Path} {x : Bytes}
    (h : Slot t w p dir x) (hp : (t'.find p).isSome) :
    (named w >>= t'.createFile false) = .error .objectExists := by
  rw [h.wire]
  exact VTree.createFile_exists h.leaf hp

def putFile (t : VTree) (w : Bytes) (f : FileData) : VTree :=
  match named w with
  | .ok p =>
    match leafOf p with
    | some (dir, x) => t.set dir x (some (.file f))
    | none => t
  | .error _ => t

theorem Slot.putFile_eq {t : VTree} {w : Bytes} {p dir : Path} {x : Bytes} (h : Slot t w p dir x)
    (f : FileData) :
    putFile t w f = t.set dir x (some (.file f)) := by
  simp only [putFile, h.wire, h.leaf]

def createSpec {ε : Type} (fail : Refusal → ε) (w : Bytes) (f : FileData) (t : VTree) :
    Option ε × VTree :=
  match named w >>= t.createFile false with
  | .ok _ => (none, putFile t w f)
  | .error r => (some (fail r), t)

section Create

variable {σ ε : Type}

/-- A closure that creates the file of name `w`, reports a failure to do so
through `wrap`, and goes on with `rest`, which makes the new file `f` if what
happens to the link is among `N` and fails otherwise. -/
structure CreateFirst (body rest : Proc (σ × Link) ε Unit) (op : String) (w : Bytes)
    (wrap : AfpErr → ε) (v₀ : σ) (f : FileData) (N : Crash → Prop) : Prop where
  on_error : ∀ (s : σ × Link) e l',
    (simpleCommand op (.createFile false w)).on s.2 = (.error e, l') →
    body.on s = (.error (wrap e), s.1, l')
  on_ok : ∀ (s : σ × Link) l', (simpleCommand op (.createFile false w)).on s.2 = (.ok (), l') →
    body.on s = rest.on (s.1, l')
  meets : ∀ {t p dir x} k, Slot t w p dir x → Meets (N k)
    (fun s : σ × Link => s.1 = v₀ ∧ s.2.srv.tree = t.set dir x (some (.file newFile)) ∧
      s.2.Ready k) rest
    fun _ s => s.2.srv.tree = t.set dir x (some (.file f))
  keeps : ∀ q, Keeps (fun s : σ × Link => (s.2.srv.tree.find q).isSome) rest
  never : ∀ sched, N (.never sched)

variable {body rest : Proc (σ × Link) ε Unit} {op : String} {w : Bytes} {wrap : AfpErr → ε} {v₀ : σ}
  {f : FileData}
  {N : Crash → Prop} {k : Crash} {l l' : Link}

theorem createSpec_ok {fail : Refusal → ε} {t t' : VTree} {p dir : Path} {x : Bytes}
    (h : (named w >>= t.createFile false) = .ok t') (hslot : Slot t w p dir x) :
    createSpec fail w f t = (none, t.set dir x (some (.file f))) := by
  simp only [createSpec, h, hslot.putFile_eq]

theorem create_ok (h : (simpleCommand op (.createFile false w)).on l = (.ok (), l')) :
    (named w >>= l.srv.tree.createFile false) = .ok l'.srv.tree := by
  have hfate : l.fate = .answered := fate_of_simple_ok (by rw [h]; rfl)
  have hspec := (treeOnly_create w).simple_on op hfate
  rw [h, treeSpec] at hspec
  cases he : named w >>= l.srv.tree.createFile false with
  | error r =>
    rw [he] at hspec
    cases congrArg Prod.fst hspec
  | ok t =>
    rw [he] at hspec
    exact congrArg Except.ok (congrArg Prod.snd hspec).symm

theorem create_ready (hl : l.Ready k)
    (h : (simpleCommand op (.createFile false w)).on l = (.ok (), l')) :
    k.next = .answered ∧ l'.Ready k.tail := by
  have hk : k.next = .answered := hl.fate_eq.symm.trans (fate_of_simple_ok (by rw [h]; rfl))
  have hlink := simple_link op (.createFile false w) l
  rw [h] at hlink
  rw [show l' = _ from hlink]
  exact ⟨hk, hl.send hk _⟩

section First

variable (h : CreateFirst body rest op w wrap v₀ f N)

include h

/-- Once the file is there, the closure ends without an error exactly if the
rest of its requests are answered. -/
theorem CreateFirst.created (hl : l.Ready k)
    (hc : (simpleCommand op (.createFile false w)).on l = (.ok (), l')) :
    (N k.tail ∧ errOf (body.on (v₀, l)).1 = none ∧ (none, (body.on (v₀, l)).2.2.srv.tree) =
      createSpec (fun r => wrap (.result op r.code)) w f l.srv.tree) ∨
    (¬ N k.tail ∧ errOf (body.on (v₀, l)).1 ≠ none) := by
  obtain ⟨p, dir, x, hslot, htree⟩ := slot_of_create (create_ok hc)
  rw [h.on_ok (v₀, l) l' hc]
  rcases h.meets k.tail hslot (v₀, l') ⟨rfl, htree, (create_ready hl hc).2⟩
    with ⟨hN, _, s', hr, hpost⟩ | ⟨hN, e, s', hr⟩
  · refine Or.inl ⟨hN, by rw [hr]; rfl, ?_⟩
    rw [hr, createSpec_ok (create_ok hc) hslot, hpost]
  · exact Or.inr ⟨hN, by rw [hr]; exact Option.some_ne_none e⟩

theorem CreateFirst.done (hl : l.Ready k) (hok : errOf (body.on (v₀, l)).1 = none) :
    (errOf (body.on (v₀, l)).1, (body.on (v₀, l)).2.2.srv.tree) =
      createSpec (fun r => wrap (.result op r.code)) w f l.srv.tree := by
  rcases hc : (simpleCommand op (.createFile false w)).on l with ⟨e | ⟨⟩, l'⟩
  · rw [h.on_error (v₀, l) e l' hc] at hok
    cases hok
  · rcases h.created hl hc with ⟨-, -, hspec⟩ | ⟨-, herr⟩
    · rw [hok, hspec]
    · exact absurd hok herr

theorem CreateFirst.refused (hl : l.fate = .answered) {r : Refusal}
    (hr : (named w >>= l.srv.tree.createFile false) = .error r) (v : σ) :
    ∃ l', body.on (v, l) = (.error (wrap (.result op r.code)), v, l') ∧
      l'.srv.tree = l.srv.tree := by
  have hc := simple_answered hl op (.createFile false w)
  rw [(treeOnly_create w).serve_error hr, resultErr_refused] at hc
  refine ⟨_, h.on_error (v, l) _ _ hc, ?_⟩
  rw [(Link.send_answered hl _).2, (treeOnly_create w).serve_error hr]

theorem CreateFirst.clean {sched : Schedule} (hl : l.Ready (.never sched)) :
    (errOf (body.on (v₀, l)).1, (body.on (v₀, l)).2.2.srv.tree) =
      createSpec (fun r => wrap (.result op r.code)) w f l.srv.tree := by
  cases he : named w >>= l.srv.tree.createFile false with
  | error r =>
    obtain ⟨l', hon, htree⟩ := h.refused hl.fate_eq he v₀
    simp only [hon, createSpec, he, htree]
    rfl
  | ok t =>
    have hc := simple_answered hl.fate_eq op (.createFile false w)
    rw [(treeOnly_create w).serve_ok he] at hc
    rcases h.created hl hc with ⟨-, hok, -⟩ | ⟨hN, -⟩
    · exact h.done hl hok
    · exact absurd (h.never sched) hN

theorem CreateFirst.found (hc : (simpleCommand op (.createFile false w)).on l = (.ok (), l'))
    {p dir : Path} {x : Bytes} (hslot : Slot l.srv.tree w p dir x)
    (ht : l'.srv.tree = l.srv.tree.set dir x (some (.file newFile)))
    (v : σ) : ((body.on (v, l)).2.2.srv.tree.find p).isSome := by
  rw [h.on_ok (v, l) l' hc]
  refine h.keeps p (v, l') ?_
  change (l'.srv.tree.find p).isSome
  rw [ht, hslot.find_set]
  rfl

theorem CreateFirst.effect (v : σ) (l : Link) :
    ((body.on (v, l)).2.1 = v ∧ (body.on (v, l)).2.2.srv.tree = l.srv.tree) ∨
      ∃ p dir x t', Slot l.srv.tree w p dir x ∧ (named w >>= l.srv.tree.createFile false) = .ok t' ∧
        ((body.on (v, l)).2.2.srv.tree.find p).isSome := by
  rcases hc : (simpleCommand op (.createFile false w)).on l with ⟨e | ⟨⟩, l'⟩
  · rw [h.on_error (v, l) e l' hc]
    rcases (treeOnly_create w).simple_tree op l with hsame | hdone
    · rw [hc] at hsame
      exact Or.inl ⟨rfl, hsame⟩
    · rw [hc] at hdone
      obtain ⟨p, dir, x, hslot, ht⟩ := slot_of_create hdone
      refine Or.inr ⟨p, dir, x, l'.srv.tree, hslot, hdone, ?_⟩
      rw [ht, hslot.find_set]
      rfl
  · obtain ⟨p, dir, x, hslot, ht⟩ := slot_of_create (create_ok hc)
    exact Or.inr ⟨p, dir, x, l'.srv.tree, hslot, create_ok hc, h.found hc hslot ht v⟩

theorem CreateFirst.settles (hl : l.Ready k) :
    errOf (body.on (v₀, l)).1 = none ∨ (body.on (v₀, l)).2.2.srv.tree = l.srv.tree ↔
      k.next = .lost ∨ (∀ t, (named w >>= l.srv.tree.createFile false) = .ok t → t = l.srv.tree) ∨
        k.next = .answered ∧ N k.tail := by
  rcases hc : (simpleCommand op (.createFile false w)).on l with ⟨e | ⟨⟩, l'⟩
  · -- no file: an answer to the first request can only have been a refusal
    have hrefused (hk : k.next = .answered) (t : VTree)
        (ht : (named w >>= l.srv.tree.createFile false) = .ok t) :
        t = l.srv.tree := by
      have hspec := (treeOnly_create w).simple_on op (hl.fate_eq.trans hk)
      rw [hc, treeSpec, ht] at hspec
      cases congrArg Prod.fst hspec
    have hfirst := (treeOnly_create w).settles op l
    rw [hc, hl.fate_eq] at hfirst
    rw [h.on_error (v₀, l) e l' hc]
    refine Iff.trans (or_congr_left ?_) (hfirst.trans (or_congr_right ⟨?_, Or.imp_right And.left⟩))
    · exact iff_of_false (Option.some_ne_none _) (Option.some_ne_none _)
    · rintro (hr | hk)
      · exact Or.inl hr
      · exact Or.inl (hrefused hk)
  · obtain ⟨p, dir, x, hslot, ht⟩ := slot_of_create (create_ok hc)
    have hk := (create_ready hl hc).1
    rcases h.created hl hc with ⟨hN, hok, -⟩ | ⟨hN, herr⟩
    · exact iff_of_true (Or.inl hok) (Or.inr (Or.inr ⟨hk, hN⟩))
    · refine iff_of_false ?_ ?_
      · rintro (hok | hsame)
        · exact herr hok
        · exact ne_of_find (h.found hc hslot ht v₀) hslot.free hsame.symm
      · rintro (hlost | hsame | ⟨-, hN'⟩)
        · rw [hk] at hlost
          cases hlost
        · have hfound : (l'.srv.tree.find p).isSome := by
            rw [ht, hslot.find_set]
            rfl
          exact ne_of_find hfound hslot.free (hsame _ (create_ok hc)).symm
        · exact hN hN'

end First

theorem oneShot_create {nfd : Bytes → Bytes} {body rest : Volume → Proc (σ × Link) ε Unit}
    {N : Nat → Crash → Prop}
    (h : ∀ v, v.nfd = nfd → CreateFirst (body v) (rest v) op w wrap v₀ f (N v.quantum))
    {Answered : Nat → Crash → Prop} (hN : ∀ q k, Answered q k ↔ k.next = .answered ∧ N q k.tail)
    {g : ε → PathErr} {again : PathErr}
    (hagain : g (wrap (.result op Refusal.objectExists.code)) = again) :
    OneShot nfd body v₀ g (createSpec (fun r => wrap (.result op r.code)) w f)
      (fun t => named w >>= t.createFile false) Answered again := by
  constructor
  · intro v srv sched hv
    exact (h v hv).clean (Link.ready_start srv (.never sched))
  · intro v srv crash hv herr
    exact (h v hv).done (Link.ready_start srv crash) herr
  · intro v srv crash hv
    rcases (h v hv).effect v₀ ⟨srv, crash, false⟩ with hsame | ⟨p, dir, x, t', hslot, hdone, hsome⟩
    · exact Or.inl hsame
    · refine Or.inr ⟨fun heq => ?_, ?_, fun v' srv' sched hv' htree => ?_⟩
      · have hsome : (srv.tree.find p).isSome := heq ▸ hsome
        exact ne_of_find hsome hslot.free rfl
      · rw [createSpec_ok hdone hslot]
      · have hsome : (srv'.tree.find p).isSome := htree ▸ hsome
        obtain ⟨l', hon, -⟩ := (h v' hv').refused (Link.ready_start srv' (.never sched)).fate_eq
          (hslot.create_again hsome) (attempt (body v) crash (v₀, srv)).2.1
        refine ⟨wrap (.result op Refusal.objectExists.code), ?_, hagain⟩
        simp only [attempt] at hon ⊢
        rw [hon]
        rfl
  · intro v srv crash hv
    rw [hN]
    exact (h v hv).settles (Link.ready_start srv crash)

end Create

theorem meets_onConn {σ τ ε α : Type} {N : Prop} {P : σ → Prop} {Q : α → σ → Prop} {x : Proc σ ε α}
    (h : Meets N P x Q) (R : τ → Prop) :
    Meets N (fun s : τ × σ => R s.1 ∧ P s.2) (onConn x) fun a s => R s.1 ∧ Q a s.2 := by
  rintro ⟨v, l⟩ ⟨hv, hl⟩
  rw [onConn_on]
  rcases h l hl with ⟨hN, a, l', hon, hq⟩ | ⟨hN, e, l', hon⟩
  · exact Or.inl ⟨hN, a, (v, l'), by rw [hon], hv, hq⟩
  · exact Or.inr ⟨hN, e, (v, l'), by rw [hon]⟩

theorem createFirst_symlink (v : Volume) (link target : Bytes) :
    CreateFirst (onConn (v.symlink link target)) (onConn (v.fillLink link target))
      ("create " ++ goText link) (sentPath v.nfd link) id () (linkFile target)
      fun k => k.Answers 3 ∧ ∀ c ∈ (defaultFork v.quantum).pieces target,
        k.piece c = .answered := by
  constructor
  · intro s e l' hc
    rw [onConn_on, v.symlink_eq, Volume.createFile, on_bind_error hc]
    rfl
  · intro s l' hc
    rw [onConn_on, onConn_on, v.symlink_eq, Volume.createFile, on_bind_ok hc]
  · intro t p dir x k hslot
    obtain ⟨a, es, hdir⟩ := hslot.parent
    have h := meets_fillLink hslot.leaf hdir k hslot.wire target
    exact (meets_onConn h fun v => v = ()).weaken (fun s hs => hs) fun _ s hs => hs.2
  · intro q
    exact keeps_onConn (keeps_fillLink v link target)
  · intro sched
    exact ⟨⟨rfl, rfl, rfl, trivial⟩, fun _ _ => rfl⟩

section OpenFile

theorem meets_inFile {ε : Type} {P : Link → Prop} (k : File → File) :
    Meets True (fun s : File × Link => P s.2) (inFile k : Proc (File × Link) ε Unit)
      fun _ s => P s.2 :=
  Meets.modify fun _ h => h

theorem keeps_inFile {ε : Type} (q : Path) (k : File → File) :
    Keeps (fun s : File × Link => (s.2.srv.tree.find q).isSome)
      (inFile k : Proc (File × Link) ε Unit) :=
  Keeps.modify fun _ h => h

variable {t : VTree} {p dir : Path} {x : Bytes} {v : Volume} {path : Bytes}

/-- The new file, and its fork if it was opened for writing. -/
def Opened (t : VTree) (p dir : Path) (x : Bytes) (writable : Bool) (o : OpenFork)
    (s : VolServer) : Prop :=
  s.tree = t.set dir x (some (.file newFile)) ∧ (writable = true → HasFork t p dir x o.id newFile s)

theorem meets_openOn (hslot : Slot t (sentPath v.nfd path) p dir x) (k : Crash) (writable : Bool) :
    Meets (k.next = .answered)
      (fun s : File × Link => s.1 = {} ∧ s.2.srv.tree = t.set dir x (some (.file newFile)) ∧
        s.2.Ready k)
      (v.forkOps.openOn path writable) fun o s => Opened t p dir x writable o s.2.srv ∧
        s.2.Ready k.tail := by
  obtain ⟨a, es, hdir⟩ := hslot.parent
  have hopen :=
    meets_openFork k v path writable (P := fun s => s.tree = t.set dir x (some (.file newFile)))
    (Q := Opened t p dir x writable) fun s hs => by
      obtain ⟨info, s', hh, htree, hfork⟩ :=
        handle_openFork hslot.leaf hdir hs rfl hslot.wire writable
      exact ⟨info, s', hh, htree.trans hs, hfork⟩
  refine Meets.get_bind fun s₀ => ?_
  rcases s₀ with ⟨f, l⟩
  by_cases hf : f.fork = none
  · simp only [hf]
    refine Meets.of_iff (Meets.bind (N := k.next = .answered)
      (m := fun o s => Opened t p dir x writable o s.2.srv ∧ s.2.Ready k.tail) ?_ fun o => ?_)
      fun _ _ => and_iff_left (And.intro trivial trivial)
    · exact (meets_onConn hopen fun _ => True).weaken (fun s h => ⟨trivial, h.2.2⟩) fun _ s h =>
        ⟨h.2.1.2, h.2.2⟩
    · exact (meets_inFile (P := fun l => Opened t p dir x writable o l.srv ∧ l.Ready k.tail) _).bind
        fun _ =>
        Meets.pure fun _ h => h
  · rintro s ⟨rfl, rfl, -⟩
    exact absurd rfl hf

theorem keeps_openOn (q : Path) (v : Volume) (path : Bytes) (writable : Bool) :
    Keeps (fun s : File × Link => (s.2.srv.tree.find q).isSome)
      (v.forkOps.openOn path writable) := by
  have hre : Keeps (fun s : File × Link => (s.2.srv.tree.find q).isSome)
      (v.forkOps.reopen path writable) := by
    refine (keeps_onConn (keeps_openFork v path writable)).bind fun o => ?_
    exact (keeps_inFile q _).bind fun _ => Keeps.pure o
  exact ForkOps.keeps_openOn hre

theorem meets_truncateStep (hslot : Slot t (sentPath v.nfd path) p dir x) (k : Crash)
    (filename : Bytes) (flag : OpenFlags) (o : OpenFork) :
    Meets (k.Answers (if flag.trunc && flag.writable then 1 else 0))
      (fun s : File × Link => Opened t p dir x flag.writable o s.2.srv ∧ s.2.Ready k)
      (v.forkOps.truncateStep filename flag o) fun _ s =>
        s.2.srv.tree = t.set dir x (some (.file newFile)) := by
  obtain ⟨a, es, hdir⟩ := hslot.parent
  rw [ForkOps.truncateStep]
  by_cases hflag : (flag.trunc && flag.writable) = true
  · rw [if_pos hflag, if_pos hflag]
    have hw : flag.writable = true := (Bool.and_eq_true_iff.mp hflag).2
    refine Meets.weaken
      ((meets_onConn (meets_truncate hslot.leaf hdir k o) fun _ => True).observe_bind (fun _ => ?_)
      fun e s => ⟨_, _, rfl⟩) (fun s hs => ⟨trivial, hs.1.2 hw, hs.2⟩) fun _ _ h => h
    exact (meets_inFile (P := fun l => l.srv.tree = t.set dir x (some (.file newFile))) _).weaken
      (fun _ h => h.2.1) fun _ _ h => h
  · rw [if_neg hflag, if_neg hflag]
    exact Meets.pure fun _ h => h.1.1

theorem keeps_truncateStep (q : Path) (v : Volume) (filename : Bytes) (flag : OpenFlags)
    (o : OpenFork) :
    Keeps (fun s : File × Link => (s.2.srv.tree.find q).isSome)
      (v.forkOps.truncateStep filename flag o) := by
  rw [ForkOps.truncateStep]
  split_ifs
  · refine Keeps.bind (keeps_onConn (keeps_simple "truncate" (.setForkLen o.id _) trivial)).observe
      fun r => ?_
    cases r with
    | ok _ => exact keeps_inFile q _
    | error e => exact Keeps.lift (.error _)
  · exact Keeps.pure _

theorem createFirst_open (fs : FS) (v : Volume) (filename : Bytes) {flag : OpenFlags}
    (hcreate : flag.create = true) (hexcl : flag.excl = true) :
    CreateFirst (fs.openBody filename flag v)
      (v.forkOps.forkStep (fs.resolve filename) filename flag)
      ("create " ++ goText (fs.resolve filename)) (sentPath v.nfd (fs.resolve filename))
      (fun e => ⟨"open", filename, mapErr (.afp e)⟩) {} newFile
      fun k => k.next = .answered ∧
        k.tail.Answers (if flag.trunc && flag.writable then 1 else 0) := by
  have hcreateFile : v.forkOps.createFile (fs.resolve filename) false =
      simpleCommand ("create " ++ goText (fs.resolve filename))
        (.createFile false (sentPath v.nfd (fs.resolve filename))) := rfl
  constructor
  · intro s e l' hc
    have hon : (v.forkOps.createStep (fs.resolve filename) filename flag).on s =
        (.error ⟨"open", filename, mapErr (.afp e)⟩, s.1, l') := by
      rw [ForkOps.createStep, if_pos hcreate, on_bind_ok (on_observe _ s), onConn_on,
        hcreateFile, hc]
      by_cases hex : mapErr (.afp e) = .exist
      · simp only [hex, hexcl, if_true]
        rfl
      · simp only [hex, if_false]
        rfl
    rw [FS.openBody, ForkOps.openBody, on_bind_error hon]
  · intro s l' hc
    have hon : (v.forkOps.createStep (fs.resolve filename) filename flag).on s =
        (.ok (), s.1, l') := by
      rw [ForkOps.createStep, if_pos hcreate, on_bind_ok (on_observe _ s), onConn_on,
        hcreateFile, hc]
      rfl
    rw [FS.openBody, ForkOps.openBody, on_bind_ok hon]
  · intro t p dir x k hslot
    refine (meets_openOn hslot k flag.writable).observe_bind (fun o => ?_) fun e s => ⟨_, _, rfl⟩
    refine Meets.of_iff
      ((meets_inFile (P := fun l => Opened t p dir x flag.writable o l.srv ∧ l.Ready k.tail) _).bind
      fun _ => ?_) fun _ _ => and_iff_right trivial
    exact meets_truncateStep hslot k.tail filename flag o
  · intro q
    refine Keeps.bind (keeps_openOn q v _ _).observe fun r => ?_
    cases r with
    | ok o => exact (keeps_inFile q _).bind fun _ => keeps_truncateStep q v filename flag o
    | error e => exact Keeps.lift (.error _)
  · intro sched
    refine ⟨rfl, ?_⟩
    split_ifs
    · exact ⟨rfl, trivial⟩
    · trivial

end OpenFile

end GoAfp
