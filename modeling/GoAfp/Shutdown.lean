import GoAfp.Reconnect

/-! What `close` leaves behind. To a call in flight a closed connection looks
like a dropped link, so the call dials again, and nothing closes the
connection it gets. -/

namespace GoAfp

def Manager.Quiescent (m : Manager) : Prop :=
  ∀ g, m.calls g = .idle ∨ ∃ res, m.calls g = .returned res

/-- Whether the last thing that happened to the connection was a successful
dial, rather than a `close` or a failed dial. -/
def leftOpen (tr : List ManagerLabel) : Bool :=
  tr.foldl (fun b a => match a with
    | .dialReturn _ ok => ok
    | .close => false
    | _ => b) true

theorem leftOpen_concat (tr : List ManagerLabel) (a : ManagerLabel) :
    leftOpen (tr ++ [a]) = match a with
      | .dialReturn _ ok => ok
      | .close => false
      | _ => leftOpen tr := by
  simp only [leftOpen, List.foldl_append, List.foldl_cons, List.foldl_nil]

namespace Manager

variable {m n : Manager} {a : ManagerLabel}

def HasOpen (m : Manager) : Prop := ∃ d, m.conn = some d ∧ m.closed d = false

structure Tracked (m : Manager) (live : Bool) : Prop where
  undialed : ∀ d, m.dials ≤ d → m.closed d = false
  live : m.holder = none → (live = true ↔ m.HasOpen)

theorem closeConn_closed_iff (m : Manager) (d : Nat) :
    m.closeConn.closed d = true ↔ m.closed d = true ∨ m.conn = some d := by
  cases hc : m.conn with
  | none => simp [closeConn, hc]
  | some e =>
    by_cases he : d = e
    · subst d
      simp [closeConn, hc]
    · have hne : e ≠ d := fun h => he h.symm
      simp [closeConn, hc, Function.update_of_ne he, hne]

theorem closeConn_not_open (m : Manager) : ¬ m.closeConn.HasOpen := by
  rintro ⟨d, hc, hd⟩
  rw [(SameLink.closeConn m).conn] at hc
  have hclosed := (closeConn_closed_iff m d).mpr (.inr hc)
  simp [hd] at hclosed

theorem Tracked.closeConn_undialed {live : Bool} (h : m.Tracked live) (hi : m.Consistent) :
    ∀ d, m.dials ≤ d → m.closeConn.closed d = false := by
  intro d hd
  by_contra hne
  rcases (closeConn_closed_iff m d).mp (by simpa using hne) with hc | hc
  · simp [h.undialed d hd] at hc
  · have hlt := hi.installed d hc
    omega

theorem Tracked.frame {live : Bool} (h : m.Tracked live) (hc : n.conn = m.conn)
    (hd : n.dials = m.dials) (hcl : n.closed = m.closed) (hh : n.holder = m.holder) :
    n.Tracked live where
  undialed d hle := by
    rw [hcl]
    exact h.undialed d (hd ▸ hle)
  live hn := by
    rw [h.live (hh ▸ hn), HasOpen, HasOpen, hc, hcl]

theorem Tracked.step {tr : List ManagerLabel} (h : m.Tracked (leftOpen tr)) (hi : m.Consistent)
    (hs : m.step a = some n) : n.Tracked (leftOpen (tr ++ [a])) := by
  rw [leftOpen_concat]
  cases Manager.step_effect hs with
  | startDial g hc hh =>
    -- the lock is held until the dial is over
    exact ⟨by simpa only [setCall,
      (SameLink.closeConn m).dials] using h.closeConn_undialed hi, by simp [setCall]⟩
  | dialOk g hc =>
    refine ⟨fun d hd => h.undialed d ?_,
      fun _ => ⟨fun _ => ⟨m.dials, rfl, h.undialed _ le_rfl⟩, fun _ => rfl⟩⟩
    have hle : m.dials + 1 ≤ d := hd
    omega
  | dialErr g hc => exact ⟨h.undialed, fun _ => by simp [HasOpen, setCall]⟩
  | close hh =>
    refine ⟨by simpa only [(SameLink.closeConn m).dials] using h.closeConn_undialed hi, fun _ => ?_⟩
    exact iff_of_false Bool.false_ne_true (closeConn_not_open m)
  | _ => exact h.frame rfl rfl rfl rfl

theorem tracked_of_reach {tr : List ManagerLabel} (h : managerSystem.Reach System.free tr m) :
    m.Tracked (leftOpen tr) := by
  induction h with
  | nil => exact ⟨fun _ _ => rfl, fun _ => ⟨fun _ => ⟨0, rfl, rfl⟩, fun _ => rfl⟩⟩
  | snoc hr _ hs ih => exact ih.step (consistent_of_reach hr) hs

theorem Quiescent.holder (hq : m.Quiescent) (hi : m.Consistent) : m.holder = none := by
  cases hh : m.holder with
  | none => rfl
  | some g =>
    have hd := (hi.holder g).mpr hh
    rcases hq g with hc | ⟨res, hc⟩ <;> simp [hc] at hd

end Manager

/-- When all the calls are over, every connection ever dialled is closed
exactly if no dial has succeeded since the last `close` or failed dial. -/
theorem all_closed_iff {tr : List ManagerLabel} {m : Manager}
    (h : managerSystem.Reach System.free tr m) (hq : m.Quiescent) :
    (∀ d < m.dials, m.closed d = true) ↔ leftOpen tr = false := by
  have hi := Manager.consistent_of_reach h
  have hlive := (Manager.tracked_of_reach h).live (hq.holder hi)
  rw [← Bool.not_eq_true, hlive]
  constructor
  · rintro hall ⟨d, hc, hd⟩
    simp [hall d (hi.installed d hc)] at hd
  · intro hno d hd
    by_cases hc : m.conn = some d
    · by_contra hne
      exact hno ⟨d, hc, Bool.eq_false_iff.mpr hne⟩
    · exact hi.closed d hd hc

theorem quiescent_of_returned {m : Manager} (h : ∀ g, g ≠ 0 → m.calls g = .idle)
    (h0 : ∃ res, m.calls 0 = .returned res) : m.Quiescent := by
  intro g
  by_cases hg : g = 0
  · exact .inr (hg ▸ h0)
  · exact .inl (h g hg)

def closeAfter : List ManagerLabel := [.sample 0, .fnReturn 0 true, .close]

theorem all_closed_iff_closeAfter :
    ∃ m, managerSystem.Reach System.free closeAfter m ∧ m.Quiescent ∧ ∀ d < m.dials,
      m.closed d = true := by
  have hrun : ∃ m, managerSystem.exec managerSystem.init closeAfter = some m ∧
      (∀ g, g ≠ 0 → m.calls g = .idle) ∧ m.calls 0 = .returned .ok := by
    refine ⟨_, rfl, fun g hg => ?_, rfl⟩
    simp [Manager.closeConn, Manager.setCall, Manager.invoke, managerSystem,
      Function.update_of_ne hg]
  obtain ⟨m, hm, hidle, hret⟩ := hrun
  have h := System.Reach.nil.exec (System.admits_of_forall fun _ _ _ => trivial) hm
  have hq := quiescent_of_returned hidle ⟨_, hret⟩
  exact ⟨m, h, hq, (all_closed_iff h hq).mpr rfl⟩

/-- A call is in flight when the file system is closed. -/
def closeDuring : List ManagerLabel :=
  [.sample 0, .close, .fnReturn 0 false, .check 0, .reconnect 0, .dialReturn 0 true, .reread 0,
    .fnReturn 0 true]

theorem all_closed_reopened :
    ¬ ∀ tr m, managerSystem.Reach System.free tr m → .close ∈ tr → m.Quiescent → ∀ d < m.dials,
      m.closed d = true := by
  intro hall
  have hrun : ∃ m, managerSystem.exec managerSystem.init closeDuring = some m ∧
      (∀ g, g ≠ 0 → m.calls g = .idle) ∧ m.calls 0 = .returned .ok ∧ 1 < m.dials ∧
        m.closed 1 = false := by
    refine ⟨_, rfl, fun g hg => ?_, rfl, by decide, rfl⟩
    simp [Manager.closeConn, Manager.setCall, Manager.invoke, managerSystem,
      Function.update_of_ne hg]
  obtain ⟨m, hm, hidle, hret, hlt, hopen⟩ := hrun
  have h := System.Reach.nil.exec (System.admits_of_forall fun _ _ _ => trivial) hm
  have hclosed := hall _ m h (by decide) (quiescent_of_returned hidle ⟨_, hret⟩) 1 hlt
  simp [hopen] at hclosed

end GoAfp
