import GoAfp.ConnManager
import Mathlib.Order.Basic
import Mathlib.Order.Nat

/-! What the interleaved `do` calls do to the shared connection: a re-dial
happens once per generation and only over a dead link, and `fn` is handed a
missing volume exactly when the second read of `m.vol` follows a failed dial
of another call. -/

namespace GoAfp

/-- What a sample of the shared fields still says about them: while the
generation is the sampled one, the connection is the sampled one or gone, and
a call that has given up on it has seen it dead. -/
def Manager.Sampled (m : Manager) : DoPhase → Prop
  | .running gen conn => gen ≤ m.gen ∧ (gen = m.gen → ∀ d, m.conn = some d → conn = some d)
  | .checking gen conn => gen ≤ m.gen ∧ (gen = m.gen → ∀ d, m.conn = some d → conn = some d)
  | .retrying gen => gen ≤ m.gen ∧ (gen = m.gen → ∀ d, m.conn = some d → m.dead d = true)
  | _ => True

theorem Manager.Sampled.mono {m n : Manager} {p : DoPhase} (h : m.Sampled p) (hgen : m.gen ≤ n.gen)
    (hconn : n.gen = m.gen → ∀ d, n.conn = some d → m.conn = some d)
    (hdead : ∀ d, m.dead d = true → n.dead d = true) : n.Sampled p := by
  cases p with
  | running gen conn =>
    refine ⟨h.1.trans hgen, fun he d hd => ?_⟩
    have hh : n.gen = m.gen := le_antisymm (he ▸ h.1) hgen
    exact h.2 (he.trans hh) d (hconn hh d hd)
  | checking gen conn =>
    refine ⟨h.1.trans hgen, fun he d hd => ?_⟩
    have hh : n.gen = m.gen := le_antisymm (he ▸ h.1) hgen
    exact h.2 (he.trans hh) d (hconn hh d hd)
  | retrying gen =>
    refine ⟨h.1.trans hgen, fun he d hd => ?_⟩
    have hh : n.gen = m.gen := le_antisymm (he ▸ h.1) hgen
    exact hdead d (h.2 (he.trans hh) d (hconn hh d hd))
  | _ => trivial

structure Manager.Consistent (m : Manager) : Prop where
  gen_dials : m.gen = m.dials
  gen_replaced : m.gen = 1 + m.replaced.length
  replaced_lt : ∀ r ∈ m.replaced, r < m.gen
  replaced_nodup : m.replaced.Nodup
  sess : m.sess = m.conn
  vol : m.vol = m.conn
  installed : ∀ d, m.conn = some d → d < m.dials
  closed : ∀ d < m.dials, m.conn ≠ some d → m.closed d = true
  holder : ∀ g, m.calls g = .dialing ↔ m.holder = some g
  held : ∀ g, m.holder = some g → ∀ d, m.conn = some d → m.closed d = true
  sampled : ∀ g, m.Sampled (m.calls g)

namespace Manager

variable {m n : Manager} {a : ManagerLabel}

structure SameLink (m n : Manager) : Prop where
  gen : n.gen = m.gen
  conn : n.conn = m.conn
  sess : n.sess = m.sess
  vol : n.vol = m.vol
  dials : n.dials = m.dials
  replaced : n.replaced = m.replaced
  dead : ∀ d, m.dead d = true → n.dead d = true
  closed : ∀ d, m.closed d = true → n.closed d = true

theorem Consistent.frame (h : m.Consistent) (hl : SameLink m n)
    (hholder : ∀ g, n.calls g = .dialing ↔ n.holder = some g)
    (hheld : ∀ g, n.holder = some g → ∀ d, n.conn = some d → n.closed d = true)
    (hs : ∀ g, m.Sampled (n.calls g)) : n.Consistent where
  gen_dials := by rw [hl.gen, hl.dials, h.gen_dials]
  gen_replaced := by rw [hl.gen, hl.replaced, h.gen_replaced]
  replaced_lt := by simpa only [hl.gen, hl.replaced] using h.replaced_lt
  replaced_nodup := hl.replaced ▸ h.replaced_nodup
  sess := by rw [hl.sess, hl.conn, h.sess]
  vol := by rw [hl.vol, hl.conn, h.vol]
  installed := by simpa only [hl.conn, hl.dials] using h.installed
  closed := fun d hd hc => hl.closed d (h.closed d (hl.dials ▸ hd) (hl.conn ▸ hc))
  holder := hholder
  held := hheld
  sampled := fun g => (hs g).mono hl.gen.ge (fun _ _ hd => hl.conn ▸ hd) hl.dead

theorem Consistent.move (h : m.Consistent) (hl : SameLink m n) {g : Nat} {p : DoPhase}
    (hh : n.holder = m.holder) (hcalls : n.calls = Function.update m.calls g p)
    (hc : m.calls g ≠ .dialing) (hp : p ≠ .dialing) (hs : m.Sampled p) : n.Consistent := by
  refine h.frame hl (fun k => ?_) (fun k hk d hd => ?_) (fun k => ?_)
  · by_cases hk : k = g
    · have hn : m.holder ≠ some g := fun he => hc ((h.holder g).mpr he)
      simp [hh, hcalls, hk, hp, hn]
    · simpa [hh, hcalls, hk] using h.holder k
  · exact hl.closed d (h.held k (hh ▸ hk) d (hl.conn ▸ hd))
  · by_cases hk : k = g
    · simpa [hcalls, hk] using hs
    · simpa [hcalls, hk] using h.sampled k

theorem SameLink.setCall (m : Manager) (g : Nat) (p : DoPhase) : SameLink m (m.setCall g p) :=
  ⟨rfl, rfl, rfl, rfl, rfl, rfl, fun _ => id, fun _ => id⟩

theorem SameLink.closeConn (m : Manager) : SameLink m m.closeConn := by
  cases hc : m.conn with
  | none =>
    have he : m.closeConn = m := by simp [Manager.closeConn, hc]
    exact he.symm ▸ ⟨rfl, rfl, rfl, rfl, rfl, rfl, fun _ => id, fun _ => id⟩
  | some d =>
    refine ⟨?_, ?_, ?_, ?_, ?_, ?_, fun e he => ?_, fun e he => ?_⟩
    case refine_7 => by_cases hd : e = d <;> simp [Manager.closeConn, hc, hd, he]
    case refine_8 => by_cases hd : e = d <;> simp [Manager.closeConn, hc, hd, he]
    all_goals simp [Manager.closeConn, hc]

theorem closeConn_holder (m : Manager) : m.closeConn.holder = m.holder := by
  cases hc : m.conn <;> simp [closeConn, hc]

theorem closeConn_closed {d : Nat} (h : m.conn = some d) : m.closeConn.closed d = true := by
  simp [closeConn, h]

theorem Consistent.init : managerSystem.init.Consistent where
  gen_dials := rfl
  gen_replaced := rfl
  replaced_lt := by simp [managerSystem]
  replaced_nodup := List.nodup_nil
  sess := rfl
  vol := rfl
  installed := by simp [managerSystem]
  closed := by
    intro d hd hc
    have hz : d = 0 := Nat.lt_one_iff.mp hd
    exact absurd (hz ▸ rfl) hc
  holder := by simp [managerSystem]
  held := by simp [managerSystem]
  sampled := fun _ => trivial

theorem Consistent.released (h : m.Consistent) {g : Nat} {p : DoPhase} (hc : m.calls g = .dialing)
    (hp : p ≠ .dialing) (k : Nat) : Function.update m.calls g p k = .dialing ↔ none = some k := by
  by_cases hk : k = g
  · simp [hk, hp]
  · have hn : m.calls k ≠ .dialing := by
      intro he
      have hg := ((h.holder k).mp he).symm.trans ((h.holder g).mp hc)
      exact hk (Option.some.inj hg)
    simp [hk, hn]

theorem Consistent.dialOk (h : m.Consistent) {g : Nat} (hc : m.calls g = .dialing) :
    Consistent ({ m with
      conn := some m.dials
      sess := some m.dials
      vol := some m.dials
      gen := m.gen + 1
      dials := m.dials + 1
      replaced := m.replaced ++ [m.gen]
      holder := none }.setCall g .rereading) where
  gen_dials := congrArg (· + 1) h.gen_dials
  gen_replaced := by
    have := h.gen_replaced
    simp only [Manager.setCall, List.length_append, List.length_singleton]
    omega
  replaced_lt := by
    intro r hr
    rcases List.mem_append.mp hr with hr | hr
    · exact (h.replaced_lt r hr).trans (Nat.lt_succ_self _)
    · exact List.mem_singleton.mp hr ▸ Nat.lt_succ_self _
  replaced_nodup := by
    refine List.Nodup.append h.replaced_nodup (List.nodup_singleton _) ?_
    intro r hr hg
    exact absurd (h.replaced_lt r hr) (by simp [List.mem_singleton.mp hg])
  sess := rfl
  vol := rfl
  installed := fun d hd => by cases hd; exact Nat.lt_succ_self _
  closed := by
    intro d hd hne
    have hlt : d < m.dials := by
      have hd' : d < m.dials + 1 := hd
      have hne' : d ≠ m.dials := fun he => hne (by simp [Manager.setCall, he])
      omega
    -- the connection that is replaced was closed before the dial
    by_cases hm : m.conn = some d
    · exact h.held g ((h.holder g).mp hc) d hm
    · exact h.closed d hlt hm
  holder := h.released hc (by simp)
  held := fun k hk => by cases hk
  sampled := by
    intro k
    by_cases hk : k = g
    · simp [Manager.setCall, hk, Manager.Sampled]
    · have hs : m.Sampled (Function.update m.calls g .rereading k) := by
        simpa [hk] using h.sampled k
      exact hs.mono (Nat.le_succ _) (fun he => absurd he (Nat.succ_ne_self _)) (fun _ => id)

theorem Consistent.dialErr (h : m.Consistent) {g : Nat} (hc : m.calls g = .dialing) :
    Consistent ({ m with conn := none, sess := none, vol := none, holder := none }.setCall g
      (.returned .dialErr)) where
  gen_dials := h.gen_dials
  gen_replaced := h.gen_replaced
  replaced_lt := h.replaced_lt
  replaced_nodup := h.replaced_nodup
  sess := rfl
  vol := rfl
  installed := fun d hd => by cases hd
  closed := by
    intro d hd _
    by_cases hm : m.conn = some d
    · exact h.held g ((h.holder g).mp hc) d hm
    · exact h.closed d hd hm
  holder := h.released hc (by simp)
  held := fun k hk => by cases hk
  sampled := by
    intro k
    by_cases hk : k = g
    · simp [Manager.setCall, hk, Manager.Sampled]
    · have hs : m.Sampled (Function.update m.calls g (.returned .dialErr) k) := by
        simpa [hk] using h.sampled k
      exact hs.mono le_rfl (fun _ d hd => by cases hd) (fun _ => id)

theorem Consistent.startDial (h : m.Consistent) {g : Nat} (hh : m.holder = none) :
    Consistent ({ m.closeConn with holder := some g }.setCall g .dialing) := by
  have hl := SameLink.closeConn m
  refine h.frame ⟨hl.gen, hl.conn, hl.sess, hl.vol, hl.dials, hl.replaced, hl.dead, hl.closed⟩
    (fun k => ?_) (fun k _ d hd => ?_) (fun k => ?_)
  · by_cases hk : k = g
    · simp [Manager.setCall, hk]
    · have hn : m.calls k ≠ .dialing := fun he => by simpa [hh] using (h.holder k).mp he
      simpa [Manager.setCall, closeConn_calls, hk, hn] using Ne.symm hk
  · exact closeConn_closed (hl.conn ▸ hd)
  · by_cases hk : k = g
    · simp [Manager.setCall, hk, Manager.Sampled]
    · simpa [Manager.setCall, closeConn_calls, hk] using h.sampled k

theorem Consistent.step (h : m.Consistent) (hs : m.step a = some n) : n.Consistent := by
  cases Manager.step_effect hs with
  | sample g v hc hv =>
    refine h.move ⟨rfl, rfl, rfl, rfl, rfl, rfl, fun _ => id, fun _ => id⟩ rfl rfl (by simp [hc])
      (by simp) ?_
    exact ⟨le_rfl, fun _ _ => id⟩
  | sampleNil g hc hv =>
    refine h.move (.setCall _ _ _) rfl rfl (by simp [hc]) (by simp) ⟨le_rfl, fun _ d hd => ?_⟩
    exact absurd (hv.symm.trans (h.vol.trans hd)) (by simp)
  | fnOk g hc => exact h.move (.setCall _ _ _) rfl rfl hc (by simp) trivial
  | fnErr g gen conn hc =>
    have hs := h.sampled g
    rw [hc] at hs
    exact h.move (.setCall _ _ _) rfl rfl (by simp [hc]) (by simp) hs
  | fnErrAgain g hc => exact h.move (.setCall _ _ _) rfl rfl (by simp [hc]) (by simp) trivial
  | alive g gen conn hc => exact h.move (.setCall _ _ _) rfl rfl (by simp [hc]) (by simp) trivial
  | notAlive g gen conn hc ha =>
    have hs := h.sampled g
    rw [hc] at hs
    refine h.move (.setCall _ _ _) rfl rfl (by simp [hc]) (by simp) ⟨hs.1, fun he d hd => ?_⟩
    simpa [isAlive, hs.2 he d hd] using ha
  | superseded g gen hc => exact h.move (.setCall _ _ _) rfl rfl (by simp [hc]) (by simp) trivial
  | startDial g hc hh => exact h.startDial hh
  | dialOk g hc => exact h.dialOk hc
  | dialErr g hc => exact h.dialErr hc
  | reread g hc =>
    exact h.move ⟨rfl, rfl, rfl, rfl, rfl, rfl, fun _ => id, fun _ => id⟩ rfl rfl (by simp [hc])
      (by simp) trivial
  | linkDies d =>
    refine h.frame ⟨rfl, rfl, rfl, rfl, rfl, rfl, fun e he => ?_, fun _ => id⟩ h.holder h.held
      h.sampled
    by_cases hd : e = d <;> simp [hd, he]
  | close hh =>
    refine h.frame (.closeConn m) ?_ (fun g hg => ?_) ?_
    · simpa only [closeConn_calls, closeConn_holder] using h.holder
    · exact absurd ((closeConn_holder m).symm.trans hg) (by simp [hh])
    · simpa only [closeConn_calls] using h.sampled

theorem consistent_of_reach {tr : List ManagerLabel} (h : managerSystem.Reach System.free tr m) :
    m.Consistent :=
  h.invariant Consistent.init fun hi _ hs => hi.step hs

end Manager

def ManagerLabel.redialed : ManagerLabel → Bool
  | .dialReturn _ ok => ok
  | _ => false

def redials (tr : List ManagerLabel) : Nat :=
  tr.countP ManagerLabel.redialed

theorem redials_concat (tr : List ManagerLabel) (a : ManagerLabel) :
    redials (tr ++ [a]) = redials tr + a.redialed.toNat := by
  cases h : a.redialed <;> simp [redials, h]

theorem Manager.step_gen {m n : Manager} {a : ManagerLabel} (hs : m.step a = some n) :
    n.gen = m.gen + a.redialed.toNat := by
  cases Manager.step_effect hs with
  | startDial g hc hh => exact (Manager.SameLink.closeConn m).gen
  | close hh => exact (Manager.SameLink.closeConn m).gen
  | _ => rfl

theorem gen_eq_redials {tr : List ManagerLabel} {m : Manager}
    (h : managerSystem.Reach System.free tr m) :
    m.gen = 1 + redials tr := by
  refine h.history (J := fun tr m => m.gen = 1 + redials tr) rfl ?_
  intro tr m a n hm _ hs
  rw [Manager.step_gen hs, hm, redials_concat, Nat.add_assoc]

theorem Manager.retrying_of_dialing {m n : Manager} {g : Nat} (hs : m.step (.reconnect g) = some n)
    (hd : n.calls g = .dialing) : m.calls g = .retrying m.gen := by
  cases Manager.step_effect hs with
  | superseded g gen hc => simp [Manager.setCall] at hd
  | startDial g hc hh => exact hc

theorem reconnect_single_flight {tr : List ManagerLabel} {m : Manager}
    (h : managerSystem.Reach System.free tr m) :
    m.gen = 1 + redials tr ∧ (m.replaced.length = redials tr ∧ m.replaced.Nodup) ∧
      (∀ g n, m.step (.reconnect g) = some n → n.calls g = .dialing → ∀ d, m.conn = some d →
        m.dead d = true) ∧
      (m.sess = m.conn ∧ m.vol = m.conn) ∧
      (m.dials = 1 + redials tr ∧ ∀ d < m.dials, m.conn ≠ some d → m.closed d = true) := by
  have hi := Manager.consistent_of_reach h
  have hg := gen_eq_redials h
  refine ⟨hg, ⟨?_, hi.replaced_nodup⟩, ?_, ⟨hi.sess, hi.vol⟩, hi.gen_dials ▸ hg, hi.closed⟩
  · have := hi.gen_replaced
    omega
  · intro g n hs hd
    have hp := hi.sampled g
    rw [Manager.retrying_of_dialing hs hd] at hp
    exact hp.2 rfl

def oneRedial : List ManagerLabel :=
  [.sample 0, .sample 1, .linkDies 0, .fnReturn 0 false, .check 0, .reconnect 0, .dialReturn 0 true,
    .fnReturn 1 false, .check 1, .reconnect 1, .reread 0, .reread 1]

theorem reconnect_single_flight_oneRedial :
    ∃ m, managerSystem.Reach System.free oneRedial m ∧ m.gen = 1 + redials oneRedial ∧ m.gen = 2 :=
  have h := System.Reach.nil.exec (System.admits_of_forall fun _ _ _ => trivial)
    (rfl : managerSystem.exec managerSystem.init oneRedial = some _)
  ⟨_, h, (reconnect_single_flight h).1, rfl⟩

def lastDial (tr : List ManagerLabel) : Bool :=
  tr.foldl (fun b a => match a with
    | .dialReturn _ ok => ok
    | _ => b) true

theorem lastDial_concat (tr : List ManagerLabel) (a : ManagerLabel) :
    lastDial (tr ++ [a]) = match a with
      | .dialReturn _ ok => ok
      | _ => lastDial tr := by
  simp only [lastDial, List.foldl_append, List.foldl_cons, List.foldl_nil]

theorem vol_isSome {tr : List ManagerLabel} {m : Manager}
    (h : managerSystem.Reach System.free tr m) :
    m.vol.isSome = lastDial tr := by
  refine h.history (J := fun tr m => m.vol.isSome = lastDial tr) rfl ?_
  intro tr m a n hm _ hs
  rw [lastDial_concat]
  cases Manager.step_effect hs with
  | startDial g hc hh => exact (congrArg Option.isSome (Manager.SameLink.closeConn m).vol).trans hm
  | close hh => exact (congrArg Option.isSome (Manager.SameLink.closeConn m).vol).trans hm
  | dialOk g hc => rfl
  | dialErr g hc => rfl
  | _ => exact hm

def Manager.AllVolumes (m : Manager) : Prop :=
  ∀ x ∈ m.invoked, x.2.isSome = true

/-- No call re-reads the volume after a failed dial and before the next
successful one. -/
def RereadsFresh (tr : List ManagerLabel) : Prop :=
  ∀ pre g, pre ++ [.reread g] <+: tr → lastDial pre = true

theorem rereadsFresh_concat (tr : List ManagerLabel) (a : ManagerLabel) :
    RereadsFresh (tr ++ [a]) ↔ RereadsFresh tr ∧ ∀ g, a = .reread g → lastDial tr = true := by
  constructor
  · intro h
    refine ⟨fun pre g hp => h pre g (hp.trans (List.prefix_append _ _)), fun g ha => ?_⟩
    exact h tr g (ha ▸ List.prefix_rfl)
  · intro h pre g hp
    rcases List.prefix_concat_iff.mp hp with he | hp
    · obtain ⟨hpre, ha⟩ := List.append_inj' he rfl
      exact hpre ▸ h.2 g (List.cons.inj ha).1.symm
    · exact h.1 pre g hp

theorem Manager.AllVolumes.append {m n : Manager} {x : Nat × Option Nat}
    (h : n.invoked = m.invoked ++ [x]) :
    n.AllVolumes ↔ m.AllVolumes ∧ x.2.isSome = true := by
  simp only [Manager.AllVolumes, h, List.forall_mem_append, List.forall_mem_singleton]

theorem Manager.AllVolumes.same {m n : Manager} {p : Prop} (h : n.invoked = m.invoked) (hp : p) :
    n.AllVolumes ↔ m.AllVolumes ∧ p := by
  simp only [Manager.AllVolumes, h, hp, and_true]

theorem Manager.closeConn_invoked (m : Manager) : m.closeConn.invoked = m.invoked := by
  cases hc : m.conn <;> simp [Manager.closeConn, hc]

theorem Manager.allVolumes_step {m n : Manager} {a : ManagerLabel} (hs : m.step a = some n) :
    n.AllVolumes ↔ m.AllVolumes ∧ ∀ g, a = .reread g → m.vol.isSome = true := by
  cases Manager.step_effect hs with
  | sample g v hc hv => exact (AllVolumes.append rfl).trans (by simp)
  | reread g hc =>
    refine (AllVolumes.append rfl).trans (and_congr_right fun _ => ?_)
    exact ⟨fun hv _ _ => hv, fun hv => hv g rfl⟩
  | startDial g hc hh => exact AllVolumes.same (closeConn_invoked m) (fun g ha => by cases ha)
  | close hh => exact AllVolumes.same (closeConn_invoked m) (fun g ha => by cases ha)
  | _ => exact AllVolumes.same rfl (fun g ha => by cases ha)

theorem fn_volume_iff {tr : List ManagerLabel} {m : Manager}
    (h : managerSystem.Reach System.free tr m) :
    (∀ x ∈ m.invoked, x.2.isSome = true) ↔
      ∀ pre g, pre ++ [.reread g] <+: tr → lastDial pre = true := by
  change m.AllVolumes ↔ RereadsFresh tr
  induction h with
  | nil =>
    refine iff_of_true (fun x hx => by simp [managerSystem] at hx) fun pre g hp => ?_
    exact absurd (List.prefix_nil.mp hp) (by simp)
  | snoc hr _ hs ih => rw [Manager.allVolumes_step hs, rereadsFresh_concat, ih, vol_isSome hr]

/-- The call of `oneRedial` that found the generation advanced is overtaken,
before it re-reads the volume, by a third call whose dial over the next dead
link fails. -/
def overtakenReread : List ManagerLabel :=
  [.sample 0, .sample 1, .linkDies 0, .fnReturn 0 false, .check 0, .reconnect 0, .dialReturn 0 true,
    .sample 2, .linkDies 1, .fnReturn 1 false, .check 1, .reconnect 1, .fnReturn 2 false, .check 2,
    .reconnect 2, .dialReturn 2 false, .reread 1]

theorem fn_volume_missing :
    ∃ m, managerSystem.Reach System.free overtakenReread m ∧ (1, none) ∈ m.invoked :=
  have h := System.Reach.nil.exec (System.admits_of_forall fun _ _ _ => trivial)
    (rfl : managerSystem.exec managerSystem.init overtakenReread = some _)
  ⟨_, h, by decide⟩

theorem fn_volume_iff_oneRedial :
    ∃ m, managerSystem.Reach System.free oneRedial m ∧
      m.invoked = [(0, some 0), (1, some 0), (0, some 1), (1, some 1)] ∧
      ∀ pre g, pre ++ [.reread g] <+: oneRedial → lastDial pre = true :=
  have h := System.Reach.nil.exec (System.admits_of_forall fun _ _ _ => trivial)
    (rfl : managerSystem.exec managerSystem.init oneRedial = some _)
  ⟨_, h, rfl, (fn_volume_iff h).mp (by decide)⟩

end GoAfp
