import GoAfp.VolumeRules

/-! Closures that `do` may run twice. Each starts with a request that the
server carries out at most once: if the link dies after the server has done
so, the second run meets what the first one did. -/

namespace GoAfp

open Proc

def Net.cut (net : Net) : Net :=
  { net with alive := false }

def Net.faultFree (net : Net) (sched : Schedule) : Net :=
  { net with crash := .never sched, alive := true }

section OneShot

variable {σ ε : Type}

def outcome (r : Option ε × σ × VolServer) : Option ε × VTree :=
  (r.1, r.2.2.tree)

/-- A closure whose effect on the tree stands in the way of its next run. When
nothing goes wrong it does what `spec` says; a run that ends without an error
has done that; and a run either leaves things as they were or does enough of
it for the next one to fail, which `g` reports as `again`. Its first request
does `effect` to the tree, and `Answered` says that the link outlives the last
answer the closure waits for. -/
structure OneShot (nfd : Bytes → Bytes) (body : Volume → Proc (σ × Link) ε Unit) (v₀ : σ)
    (g : ε → PathErr) (spec : VTree → Option ε × VTree) (effect : VTree → Except Refusal VTree)
    (Answered : Nat → Crash → Prop) (again : PathErr) : Prop where
  clean : ∀ v srv sched, v.nfd = nfd →
    outcome (attempt (body v) (.never sched) (v₀, srv)) = spec srv.tree
  done : ∀ v srv crash, v.nfd = nfd → (attempt (body v) crash (v₀, srv)).1 = none →
    outcome (attempt (body v) crash (v₀, srv)) = spec srv.tree
  blocks : ∀ v srv crash, v.nfd = nfd →
    ((attempt (body v) crash (v₀, srv)).2.1 = v₀ ∧
      (attempt (body v) crash (v₀, srv)).2.2.tree = srv.tree) ∨
    ((attempt (body v) crash (v₀, srv)).2.2.tree ≠ srv.tree ∧ (spec srv.tree).1 = none ∧
      ∀ v' srv' sched, v'.nfd = nfd → srv'.tree = (attempt (body v) crash (v₀, srv)).2.2.tree →
        ∃ e, (attempt (body v') (.never sched) ((attempt (body v) crash (v₀, srv)).2.1, srv')).1 =
          some e ∧ g e = again)
  settles : ∀ v srv crash, v.nfd = nfd →
    ((attempt (body v) crash (v₀, srv)).1 = none ∨
      (attempt (body v) crash (v₀, srv)).2.2.tree = srv.tree ↔
      crash.next = .lost ∨ (∀ t, effect srv.tree = .ok t → t = srv.tree) ∨ Answered v.quantum crash)

variable {body : Volume → Proc (σ × Link) ε Unit} {v₀ : σ} {g : ε → PathErr}
  {spec : VTree → Option ε × VTree} {effect : VTree → Except Refusal VTree}
  {Answered : Nat → Crash → Prop} {again : PathErr} {net : Net}

def Net.first (net : Net) (body : Volume → Proc (σ × Link) ε Unit) (v₀ : σ) (srv : VolServer) :
    Option ε × σ × VolServer :=
  attempt (body ⟨net.gen, net.quantum, net.nfd⟩) net.crash (v₀, srv)

theorem Net.do_alive (h : net.alive = true) (body : Volume → Proc (σ × Link) ε Unit) (v₀ : σ)
    (srv : VolServer) :
    net.do body (v₀, srv) = net.first body v₀ srv := by
  simp only [Net.do, doRetry, h, Net.first]
  split
  · rename_i heq
    exact heq.symm
  · rename_i heq
    exact heq.symm

theorem Net.do_cut_some {srv : VolServer} {e : ε} (h : (net.first body v₀ srv).1 = some e) :
    net.cut.do body (v₀, srv) = attempt (body ⟨net.newGen, net.newQuantum, net.nfd⟩)
      (.never net.newSched)
      ((net.first body v₀ srv).2.1, (net.first body v₀ srv).2.2.reconnected) := by
  rcases hf : net.first body v₀ srv with ⟨err, s⟩
  rw [hf] at h
  cases h
  simp only [Net.do, doRetry, Net.cut]
  rw [Net.first] at hf
  rw [hf]
  rfl

theorem Net.do_cut_none {srv : VolServer} (h : (net.first body v₀ srv).1 = none) :
    net.cut.do body (v₀, srv) = net.first body v₀ srv := by
  rcases hf : net.first body v₀ srv with ⟨err, s⟩
  rw [hf] at h
  cases h
  simp only [Net.do, doRetry, Net.cut]
  rw [Net.first] at hf
  rw [hf]

namespace OneShot

variable (h : OneShot net.nfd body v₀ g spec effect Answered again)

include h

theorem faultFree (srv : VolServer) (sched : Schedule) :
    outcome ((net.faultFree sched).do body (v₀, srv)) = spec srv.tree := by
  rw [Net.do_alive rfl]
  exact h.clean _ srv sched rfl

variable {srv : VolServer}

theorem transparent (hs : net.crash.next = .lost ∨ (∀ t, effect srv.tree = .ok t → t = srv.tree) ∨
    Answered net.quantum net.crash) : outcome (net.cut.do body (v₀, srv)) = spec srv.tree := by
  have hs := (h.settles ⟨net.gen, net.quantum, net.nfd⟩ srv net.crash rfl).mpr hs
  cases herr : (net.first body v₀ srv).1 with
  | none =>
    rw [Net.do_cut_none herr]
    exact h.done _ srv net.crash rfl herr
  | some e =>
    have hs : (net.first body v₀ srv).2.2.tree = srv.tree := by
      refine hs.resolve_left fun hnone => ?_
      rw [Net.first, hnone] at herr
      cases herr
    rw [Net.do_cut_some herr]
    rcases h.blocks ⟨net.gen, net.quantum, net.nfd⟩ srv net.crash rfl with ⟨hv, -⟩ | ⟨hne, -⟩
    · have hv : (net.first body v₀ srv).2.1 = v₀ := hv
      rw [hv, ← hs]
      exact h.clean _ (net.first body v₀ srv).2.2.reconnected net.newSched rfl
    · exact absurd hs hne

theorem retried_again
    (hs : ¬ (net.crash.next = .lost ∨ (∀ t, effect srv.tree = .ok t → t = srv.tree) ∨
    Answered net.quantum net.crash)) :
    (spec srv.tree).1 = none ∧ ∃ e, (net.cut.do body (v₀, srv)).1 = some e ∧ g e = again := by
  rw [← h.settles ⟨net.gen, net.quantum, net.nfd⟩ srv net.crash rfl, not_or] at hs
  obtain ⟨e, herr⟩ := Option.ne_none_iff_exists'.mp hs.1
  rw [Net.do_cut_some herr]
  rcases h.blocks ⟨net.gen, net.quantum, net.nfd⟩ srv net.crash rfl
    with ⟨-, hsame⟩ | ⟨-, hspec, hagain⟩
  · exact absurd hsame hs.2
  · exact ⟨hspec, hagain _ _ net.newSched rfl rfl⟩

end OneShot

end OneShot

def TreeOnly (req : Request) (effect : VTree → Except Refusal VTree) : Prop :=
  ∀ s : VolServer, s.handle req = (effect s.tree).map fun t => ({}, { s with tree := t })

theorem treeOnly_of_bind {req : Request} {effect : VTree → Except Refusal VTree}
    (h : ∀ s : VolServer, s.handle req = effect s.tree >>=
      fun t => pure ({}, { s with tree := t })) :
    TreeOnly req effect := by
  intro s
  rw [h]
  cases effect s.tree <;> rfl

def treeSpec (op : String) (effect : VTree → Except Refusal VTree) (t : VTree) :
    Option AfpErr × VTree :=
  match effect t with
  | .ok t' => (none, t')
  | .error r => (some (.result op r.code), t)

section Simple

variable {op : String} {req : Request} {effect : VTree → Except Refusal VTree} {l : Link}

theorem TreeOnly.serve_ok (h : TreeOnly req effect) {s : VolServer} {t : VTree}
    (ht : effect s.tree = .ok t) :
    s.serve req = (({}, resNoErr), { s with tree := t }) := by
  refine VolServer.serve_ok ?_
  rw [h, ht]
  rfl

theorem TreeOnly.serve_error (h : TreeOnly req effect) {s : VolServer} {r : Refusal}
    (hr : effect s.tree = .error r) :
    s.serve req = (({}, r.code), s) := by
  refine VolServer.serve_error ?_
  rw [h, hr]
  rfl

theorem TreeOnly.simple_on (h : TreeOnly req effect) (op : String) (hl : l.fate = .answered) :
    (errOf ((simpleCommand op req).on l).1, ((simpleCommand op req).on l).2.srv.tree) =
      treeSpec op effect l.srv.tree := by
  rw [simple_answered hl, treeSpec, (Link.send_answered hl req).2]
  cases he : effect l.srv.tree with
  | ok t =>
    rw [h.serve_ok he]
    rfl
  | error r =>
    rw [h.serve_error he, resultErr_refused]
    rfl

theorem simple_link (op : String) (req : Request) (l : Link) :
    ((simpleCommand op req).on l).2 = (l.send req).2 := by
  by_cases hf : l.fate = .answered
  · rw [simple_answered hf]
  · rw [simple_unanswered hf]

theorem TreeOnly.serve_tree (h : TreeOnly req effect) (s : VolServer) :
    (s.serve req).2.tree = s.tree ∨ effect s.tree = .ok (s.serve req).2.tree := by
  cases he : effect s.tree with
  | ok t =>
    rw [h.serve_ok he]
    exact Or.inr rfl
  | error r =>
    rw [h.serve_error he]
    exact Or.inl rfl

theorem TreeOnly.simple_tree (h : TreeOnly req effect) (op : String) (l : Link) :
    ((simpleCommand op req).on l).2.srv.tree = l.srv.tree ∨
      effect l.srv.tree = .ok ((simpleCommand op req).on l).2.srv.tree := by
  rw [simple_link]
  rcases l.send_srv req with hs | hs
  · exact Or.inl (by rw [hs])
  · rw [hs]
    exact h.serve_tree l.srv

theorem fate_of_simple_ok (h : errOf ((simpleCommand op req).on l).1 = none) :
    l.fate = .answered := by
  by_contra hf
  rw [simple_unanswered hf] at h
  cases h

theorem TreeOnly.settles (h : TreeOnly req effect) (op : String) (l : Link) :
    errOf ((simpleCommand op req).on l).1 = none ∨
      ((simpleCommand op req).on l).2.srv.tree = l.srv.tree ↔
      l.fate = .lost ∨ (∀ t, effect l.srv.tree = .ok t → t = l.srv.tree) ∨ l.fate = .answered := by
  by_cases hlost : l.fate = .lost
  · have hsrv : (l.send req).2.srv = l.srv := if_pos hlost
    rw [simple_link, hsrv]
    exact iff_of_true (Or.inr rfl) (Or.inl hlost)
  · have hsrv : (l.send req).2.srv = (l.srv.serve req).2 := if_neg hlost
    rw [simple_link, hsrv]
    cases he : effect l.srv.tree with
    | error r =>
      rw [h.serve_error he]
      exact iff_of_true (Or.inr rfl) (Or.inr (Or.inl fun t ht => by cases ht))
    | ok t =>
      have hok : errOf ((simpleCommand op req).on l).1 = none ↔ l.fate = .answered := by
        refine ⟨fate_of_simple_ok, fun hl => ?_⟩
        rw [simple_answered hl, h.serve_ok he]
        rfl
      rw [hok, h.serve_ok he]
      simp only [Except.ok.injEq, forall_eq', hlost, false_or]
      exact or_comm

theorem mapErr_missing {r : Refusal} (h : r.Missing) (op : String) :
    mapErr (.afp (.result op r.code)) = .notExist := by
  rcases h with rfl | rfl <;> rfl

theorem oneShot_simple {nfd : Bytes → Bytes} {x : Volume → Vol Unit}
    (hx : ∀ v, v.nfd = nfd → x v = simpleCommand op req) (h : TreeOnly req effect)
    (hagain : ∀ t t', effect t = .ok t' → t' = t ∨ (t' ≠ t ∧ ∃ r, effect t' = .error r ∧ r.Missing))
    (name : String) (path : Bytes) :
    OneShot nfd (fun v => onConn (x v)) () (fun e => ⟨name, path, mapErr (.afp e)⟩)
      (treeSpec op effect) effect (fun _ k => k.Answers 1) ⟨name, path, .notExist⟩ := by
  constructor
  · intro v srv sched hv
    simp only [hx v hv]
    exact h.simple_on op (Link.ready_start srv (.never sched)).fate_eq
  · intro v srv crash hv herr
    simp only [hx v hv] at herr ⊢
    exact h.simple_on op (fate_of_simple_ok herr)
  · intro v srv crash hv
    simp only [hx v hv]
    rcases h.simple_tree op ⟨srv, crash, false⟩ with hsame | hdone
    · exact Or.inl ⟨trivial, hsame⟩
    · rcases hagain _ _ hdone with hsame | ⟨hne, r, hr, hmiss⟩
      · exact Or.inl ⟨trivial, hsame⟩
      · refine Or.inr ⟨hne, ?_, fun v' srv' sched hv' htree => ⟨.result op r.code, ?_, ?_⟩⟩
        · rw [treeSpec, hdone]
        · rw [hx v' hv']
          have hrun := h.simple_on op (Link.ready_start srv' (.never sched)).fate_eq
          have htree : srv'.tree = ((simpleCommand op req).on ⟨srv, crash, false⟩).2.srv.tree :=
            htree
          rw [treeSpec, htree, hr] at hrun
          exact congrArg Prod.fst hrun
        · rw [mapErr_missing hmiss]
  · intro v srv crash hv
    simp only [hx v hv, Crash.Answers, and_true]
    exact h.settles op ⟨srv, crash, false⟩

end Simple

end GoAfp
