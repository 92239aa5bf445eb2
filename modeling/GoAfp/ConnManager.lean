import GoAfp.System
import Mathlib.Logic.Function.Basic
import Mathlib.Data.List.Nodup

/-! The reconnecting manager as an interleaving of `do` calls. A connection,
session and volume are named by the number of the dial that made them. The
critical section of `reconnect` spans the dial, so it is two steps between
which the lock is held; the other critical sections are one step each. -/

namespace GoAfp

inductive DoResult
  | ok
  | fnErr
  | dialErr
  deriving DecidableEq, Repr

/-- Control points of a `do` call. A sample of the shared fields is carried
along until the liveness check. -/
inductive DoPhase
  | idle
  | running (gen : Nat) (conn : Option Nat)
  | checking (gen : Nat) (conn : Option Nat)
  | retrying (gen : Nat)
  | dialing
  | rereading
  | rerunning
  | returned (res : DoResult)
  deriving DecidableEq, Repr

/-- `dead` and `closed` are per connection. `invoked` lists the volumes that
`fn` was given, and `replaced` the generations that a re-dial has replaced. -/
structure Manager where
  gen : Nat := 1
  conn : Option Nat := some 0
  sess : Option Nat := some 0
  vol : Option Nat := some 0
  holder : Option Nat := none
  dials : Nat := 1
  dead : Nat → Bool := fun _ => false
  closed : Nat → Bool := fun _ => false
  calls : Nat → DoPhase := fun _ => .idle
  invoked : List (Nat × Option Nat) := []
  replaced : List Nat := []

def Manager.setCall (m : Manager) (g : Nat) (p : DoPhase) : Manager :=
  { m with calls := Function.update m.calls g p }

def Manager.invoke (m : Manager) (g : Nat) (vol : Option Nat) : Manager :=
  { m with invoked := m.invoked ++ [(g, vol)] }

def Manager.closeConn (m : Manager) : Manager :=
  match m.conn with
  | some d =>
    { m with dead := Function.update m.dead d true, closed := Function.update m.closed d true }
  | none => m

theorem Manager.closeConn_calls (m : Manager) : m.closeConn.calls = m.calls := by
  cases hc : m.conn <;> simp [closeConn, hc]

def Manager.isAlive (m : Manager) (conn : Option Nat) : Bool :=
  match conn with
  | some d => !m.dead d
  | none => false

inductive ManagerLabel
  | sample (g : Nat)
  | fnReturn (g : Nat) (ok : Bool)
  | check (g : Nat)
  | reconnect (g : Nat)
  | dialReturn (g : Nat) (ok : Bool)
  | reread (g : Nat)
  | linkDies (d : Nat)
  | close
  deriving DecidableEq, Repr

def Manager.step (m : Manager) : ManagerLabel → Option Manager
  | .sample g =>
    match m.calls g, m.holder, m.vol with
    | .idle, none, some v => some ((m.invoke g (some v)).setCall g (.running m.gen m.conn))
    | .idle, none, none => some (m.setCall g (.retrying m.gen))
    | _, _, _ => none
  | .fnReturn g ok =>
    match m.calls g with
    | .running gen conn => some (m.setCall g (if ok then .returned .ok else .checking gen conn))
    | .rerunning => some (m.setCall g (.returned (if ok then .ok else .fnErr)))
    | _ => none
  | .check g =>
    match m.calls g with
    | .checking gen conn =>
      some (m.setCall g (if m.isAlive conn then .returned .fnErr else .retrying gen))
    | _ => none
  | .reconnect g =>
    match m.calls g, m.holder with
    | .retrying failedGen, none =>
      -- someone already reconnected, but the lock is let go before the volume is read again
      if m.gen ≠ failedGen then some (m.setCall g .rereading)
      else some ({ m.closeConn with holder := some g }.setCall g .dialing)
    | _, _ => none
  | .dialReturn g ok =>
    match m.calls g with
    | .dialing =>
      if ok then
        some ({ m with
          conn := some m.dials
          sess := some m.dials
          vol := some m.dials
          gen := m.gen + 1
          dials := m.dials + 1
          replaced := m.replaced ++ [m.gen]
          holder := none }.setCall g .rereading)
      else
        some
          ({ m with conn := none, sess := none, vol := none, holder := none }.setCall g
            (.returned .dialErr))
    | _ => none
  | .reread g =>
    match m.calls g, m.holder with
    | .rereading, none => some ((m.invoke g m.vol).setCall g .rerunning)
    | _, _ => none
  | .linkDies d => some { m with dead := Function.update m.dead d true }
  | .close =>
    match m.holder with
    | none => some m.closeConn
    | some _ => none

def managerSystem : System Manager ManagerLabel := ⟨{}, Manager.step⟩

inductive Manager.Effect (m : Manager) : ManagerLabel → Manager → Prop
  | sample (g v : Nat) (hc : m.calls g = .idle) (hv : m.vol = some v) :
    Effect m (.sample g) ((m.invoke g (some v)).setCall g (.running m.gen m.conn))
  | sampleNil (g : Nat) (hc : m.calls g = .idle) (hv : m.vol = none) :
    Effect m (.sample g) (m.setCall g (.retrying m.gen))
  | fnOk (g : Nat) (hc : m.calls g ≠ .dialing) :
    Effect m (.fnReturn g true) (m.setCall g (.returned .ok))
  | fnErr (g gen : Nat) (conn : Option Nat) (hc : m.calls g = .running gen conn) :
    Effect m (.fnReturn g false) (m.setCall g (.checking gen conn))
  | fnErrAgain (g : Nat) (hc : m.calls g = .rerunning) :
    Effect m (.fnReturn g false) (m.setCall g (.returned .fnErr))
  | alive (g gen : Nat) (conn : Option Nat) (hc : m.calls g = .checking gen conn) :
    Effect m (.check g) (m.setCall g (.returned .fnErr))
  | notAlive (g gen : Nat) (conn : Option Nat) (hc : m.calls g = .checking gen conn)
      (ha : m.isAlive conn = false) : Effect m (.check g) (m.setCall g (.retrying gen))
  | superseded (g gen : Nat) (hc : m.calls g = .retrying gen) :
    Effect m (.reconnect g) (m.setCall g .rereading)
  | startDial (g : Nat) (hc : m.calls g = .retrying m.gen) (hh : m.holder = none) :
    Effect m (.reconnect g) ({ m.closeConn with holder := some g }.setCall g .dialing)
  | dialOk (g : Nat) (hc : m.calls g = .dialing) :
    Effect m (.dialReturn g true)
      ({ m with
        conn := some m.dials
        sess := some m.dials
        vol := some m.dials
        gen := m.gen + 1
        dials := m.dials + 1
        replaced := m.replaced ++ [m.gen]
        holder := none }.setCall g .rereading)
  | dialErr (g : Nat) (hc : m.calls g = .dialing) :
    Effect m (.dialReturn g false)
      ({ m with conn := none, sess := none, vol := none, holder := none }.setCall g
        (.returned .dialErr))
  | reread (g : Nat) (hc : m.calls g = .rereading) :
    Effect m (.reread g) ((m.invoke g m.vol).setCall g .rerunning)
  | linkDies (d : Nat) : Effect m (.linkDies d) { m with dead := Function.update m.dead d true }
  | close (hh : m.holder = none) : Effect m .close m.closeConn

theorem Manager.step_effect {m n : Manager} {a : ManagerLabel} (h : m.step a = some n) :
    m.Effect a n := by
  cases a with
  | sample g =>
    simp only [Manager.step] at h
    split at h
    · rename_i v hc hh hv
      cases h
      exact .sample g v hc hv
    · rename_i hc hh hv
      cases h
      exact .sampleNil g hc hv
    · cases h
  | fnReturn g ok =>
    simp only [Manager.step] at h
    split at h
    · rename_i gen conn hc
      cases h
      cases ok
      · exact .fnErr g gen conn hc
      · exact .fnOk g (by simp [hc])
    · rename_i hc
      cases h
      cases ok
      · exact .fnErrAgain g hc
      · exact .fnOk g (by simp [hc])
    · cases h
  | check g =>
    simp only [Manager.step] at h
    split at h
    · rename_i gen conn hc
      cases h
      cases ha : m.isAlive conn
      · exact .notAlive g gen conn hc ha
      · exact .alive g gen conn hc
    · cases h
  | reconnect g =>
    simp only [Manager.step] at h
    split at h
    · rename_i gen hc hh
      split_ifs at h with hg
      · cases h
        exact .superseded g gen hc
      · cases h
        have he : m.gen = gen := not_not.mp hg
        exact .startDial g (he ▸ hc) hh
    · cases h
  | dialReturn g ok =>
    simp only [Manager.step] at h
    split at h
    · rename_i hc
      cases ok
      · cases h
        exact .dialErr g hc
      · cases h
        exact .dialOk g hc
    · cases h
  | reread g =>
    simp only [Manager.step] at h
    split at h
    · rename_i hc hh
      cases h
      exact .reread g hc
    · cases h
  | linkDies d =>
    cases h
    exact .linkDies d
  | close =>
    simp only [Manager.step] at h
    split at h
    · rename_i hh
      cases h
      exact .close hh
    · cases h

end GoAfp
