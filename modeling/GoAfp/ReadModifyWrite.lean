import GoAfp.System
import Mathlib.Logic.Function.Basic

/-! Concurrent read-modify-write of one shared value over links that may
break: an operation reads the value, computes its update from what it read,
and writes the result; if the link breaks it starts over once. -/

namespace GoAfp

namespace RMW

/-- Control points of an operation, with what it has read. -/
inductive Phase (σ : Type*)
  | start
  | ready (retried : Bool)
  | holding (retried : Bool) (seen : σ)
  | returned (ok : Bool)

structure State (ι σ : Type*) where
  value : σ
  phases : ι → Phase σ

inductive Label (ι : Type*)
  | enter (i : ι) (enabled : Bool)
  | read (i : ι)
  | write (i : ι)
  | writeLost (i : ι)
  | lost (i : ι)
  | refused (i : ι)

def Phase.retry {σ : Type*} (retried : Bool) : Phase σ :=
  if retried then .returned false else .ready true

section

variable {ι σ : Type*} [DecidableEq ι] (upd : ι → σ → σ)

def State.setPhase (s : State ι σ) (i : ι) (p : Phase σ) : State ι σ :=
  { s with phases := Function.update s.phases i p }

/-- An operation that is not enabled reports success without touching the
value. `writeLost` is a write whose acknowledgement is lost, and `lost` a
request that never arrives or a read whose answer is lost. -/
def State.step (s : State ι σ) : Label ι → Option (State ι σ)
  | .enter i enabled =>
    match s.phases i with
    | .start => some (s.setPhase i (if enabled then .ready false else .returned true))
    | _ => none
  | .read i =>
    match s.phases i with
    | .ready retried => some (s.setPhase i (.holding retried s.value))
    | _ => none
  | .write i =>
    match s.phases i with
    | .holding _ seen => some ({ s with value := upd i seen }.setPhase i (.returned true))
    | _ => none
  | .writeLost i =>
    match s.phases i with
    | .holding retried seen => some ({ s with value := upd i seen }.setPhase i (.retry retried))
    | _ => none
  | .lost i =>
    match s.phases i with
    | .ready retried => some (s.setPhase i (.retry retried))
    | .holding retried _ => some (s.setPhase i (.retry retried))
    | _ => none
  | .refused i =>
    match s.phases i with
    | .ready _ => some (s.setPhase i (.returned false))
    | .holding _ _ => some (s.setPhase i (.returned false))
    | _ => none

def system (init : σ) : System (State ι σ) (Label ι) := ⟨⟨init, fun _ => .start⟩, State.step upd⟩

/-- Operations are enabled, and a write stores what the operation would have
computed from the current value. -/
def Fresh (s : State ι σ) : Label ι → Prop
  | .enter _ enabled => enabled = true
  | .write i => ∀ retried seen, s.phases i = .holding retried seen → upd i seen = upd i s.value
  | .writeLost i => ∀ retried seen, s.phases i = .holding retried seen → upd i seen = upd i s.value
  | _ => True

/-- A step that is fresh either applies one update to the current value, or
leaves the value alone; an operation comes to report success in the first
case only. -/
inductive Effect (s : State ι σ) : State ι σ → Prop
  | applied (i : ι) (p : Phase σ) : Effect s ({ s with value := upd i s.value }.setPhase i p)
  | kept (i : ι) (p : Phase σ) (hp : p ≠ .returned true) : Effect s (s.setPhase i p)

variable {upd}

theorem Phase.retry_ne {retried : Bool} : (Phase.retry retried : Phase σ) ≠ .returned true := by
  cases retried <;> simp [Phase.retry]

theorem State.step_effect {s t : State ι σ} {a : Label ι} (h : s.step upd a = some t)
    (hf : Fresh upd s a) :
    Effect upd s t := by
  cases a with
  | enter i enabled =>
    obtain rfl : enabled = true := hf
    simp only [State.step] at h
    split at h
    · cases h
      exact .kept i _ (by simp)
    · cases h
  | read i =>
    simp only [State.step] at h
    split at h
    · cases h
      exact .kept i _ (by simp)
    · cases h
  | write i =>
    simp only [State.step] at h
    split at h
    · rename_i retried seen hi
      cases h
      rw [hf retried seen hi]
      exact .applied i _
    · cases h
  | writeLost i =>
    simp only [State.step] at h
    split at h
    · rename_i retried seen hi
      cases h
      rw [hf retried seen hi]
      exact .applied i _
    · cases h
  | lost i =>
    simp only [State.step] at h
    split at h
    · cases h
      exact .kept i _ Phase.retry_ne
    · cases h
      exact .kept i _ Phase.retry_ne
    · cases h
  | refused i =>
    simp only [State.step] at h
    split at h
    · cases h
      exact .kept i _ (by simp)
    · cases h
      exact .kept i _ (by simp)
    · cases h

variable {init : σ} {tr : List (Label ι)} {s : State ι σ}

theorem value_invariant {I : σ → Prop} (h : (system upd init).Reach (Fresh upd) tr s)
    (hinit : I init) (hupd : ∀ i v, I v → I (upd i v)) : I s.value := by
  refine h.invariant (I := fun s => I s.value) hinit ?_
  intro s a t hs hf ht
  cases State.step_effect ht hf with
  | applied i p => exact hupd i _ hs
  | kept i p hp => exact hs

/-- What an update establishes and the others leave in place holds once the
operation has reported success. -/
theorem established {Q : ι → σ → Prop} (h : (system upd init).Reach (Fresh upd) tr s)
    (hself : ∀ i v, Q i (upd i v)) (hother : ∀ i j v, Q i v → Q i (upd j v)) :
    ∀ i, s.phases i = .returned true → Q i s.value := by
  refine h.invariant (I := fun s => ∀ i, s.phases i = .returned true → Q i s.value)
    (by simp [system]) ?_
  intro s a t hs hf ht i hi
  cases State.step_effect ht hf with
  | applied j p =>
    by_cases hij : i = j
    · subst i
      exact hself j _
    · have hret : s.phases i = .returned true := by
        simpa only [State.setPhase, Function.update_of_ne hij] using hi
      exact hother i j _ (hs i hret)
  | kept j p hp =>
    by_cases hij : i = j
    · subst i
      exact absurd (by simpa [State.setPhase] using hi) hp
    · exact hs i (by simpa only [State.setPhase, Function.update_of_ne hij] using hi)

end

end RMW

end GoAfp
