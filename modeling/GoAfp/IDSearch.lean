import GoAfp.ConnStep
import Mathlib.Data.Set.Card
import Mathlib.Data.FinEnum
import Mathlib.Data.UInt

/-! The search for a free request ID in `register`. The loop has no bound of
its own; it ends because the counter meets every ID within one round. -/

namespace GoAfp

/-- The loop without a bound, from the counter's value to the ID it stops at. -/
inductive Searches (pending : UInt16 → Option Nat) : UInt16 → UInt16 → Prop
  | free {next : UInt16} (h : pending (next + 1) = none) : Searches pending next (next + 1)
  | taken {next id : UInt16} (h : pending (next + 1) ≠ none)
    (rest : Searches pending (next + 1) id) :
    Searches pending next id

/-- The number of IDs strictly between `next` and `id` in the cyclic order. -/
def idsBetween (next id : UInt16) : Nat := (id - (next + 1)).toNat

structure FirstFree (pending : UInt16 → Option Nat) (next id : UInt16) : Prop where
  free : pending id = none
  first : ∀ other, pending other = none → idsBetween next id ≤ idsBetween next other

noncomputable def Conn.pendingCount (s : Conn) : Nat := {id | s.pending id ≠ none}.ncard

theorem idsBetween_self (next : UInt16) : idsBetween next (next + 1) = 0 := by
  rw [idsBetween, UInt16.sub_self]
  rfl

theorem idsBetween_succ {next id : UInt16} (h : id ≠ next + 1) :
    idsBetween next id = idsBetween (next + 1) id + 1 := by
  have hstep : id - (next + 1 + 1) = id - (next + 1) - 1 := by
    rw [UInt16.sub_eq_add_neg, UInt16.neg_add, UInt16.sub_eq_add_neg, UInt16.sub_eq_add_neg,
      UInt16.sub_eq_add_neg, UInt16.add_assoc]
  have hne : (id - (next + 1)).toNat ≠ 0 := by
    intro hzero
    apply h
    have hdiff : id - (next + 1) = 0 := UInt16.toNat_inj.mp hzero
    rw [← UInt16.sub_add_cancel id (next + 1), hdiff, UInt16.zero_add]
  rw [idsBetween, idsBetween, hstep]
  generalize id - (next + 1) = d at hne
  have hlt := d.toNat_lt
  have hpred : (d - 1).toNat = (2 ^ 16 - 1 + d.toNat) % 2 ^ 16 := UInt16.toNat_sub d 1
  omega

section Search

variable {pending : UInt16 → Option Nat} {next id : UInt16}

theorem ne_next_of_free (hnext : pending (next + 1) ≠ none) (hid : pending id = none) :
    id ≠ next + 1 := by
  rintro rfl
  exact hnext hid

theorem Searches.firstFree (h : Searches pending next id) : FirstFree pending next id := by
  induction h with
  | @free next h =>
    refine ⟨h, fun other _ => ?_⟩
    rw [idsBetween_self]
    exact Nat.zero_le _
  | @taken next id h rest ih =>
    refine ⟨ih.free, fun other hother => ?_⟩
    rw [idsBetween_succ (ne_next_of_free h ih.free), idsBetween_succ (ne_next_of_free h hother)]
    exact Nat.succ_le_succ (ih.first other hother)

theorem Searches.unique {id' : UInt16} (h : Searches pending next id)
    (h' : Searches pending next id') : id = id' := by
  induction h with
  | free h =>
    cases h' with
    | free => rfl
    | taken hno => exact absurd h hno
  | taken h rest ih =>
    cases h' with
    | free hfree => exact absurd hfree h
    | taken _ rest' => exact ih rest'

/-- The search ends if it has an ID to end at. -/
theorem exists_searches (next : UInt16) (hid : pending id = none) :
    ∃ found, Searches pending next found := by
  -- every round brings the counter closer to the free ID
  induction hk : idsBetween next id generalizing next with
  | zero =>
    by_cases hnext : pending (next + 1) = none
    · exact ⟨_, .free hnext⟩
    · rw [idsBetween_succ (ne_next_of_free hnext hid)] at hk
      cases hk
  | succ k ih =>
    by_cases hnext : pending (next + 1) = none
    · exact ⟨_, .free hnext⟩
    · rw [idsBetween_succ (ne_next_of_free hnext hid)] at hk
      obtain ⟨found, hfound⟩ := ih (next + 1) (Nat.succ.inj hk)
      exact ⟨found, .taken hnext hfound⟩

theorem searches_of_searchID {fuel : Nat} (h : Conn.searchID pending fuel next = some id) :
    Searches pending next id := by
  induction fuel generalizing next with
  | zero => cases h
  | succ fuel ih =>
    rw [Conn.searchID] at h
    split_ifs at h with hfree
    · cases h
      exact .free (Option.isNone_iff_eq_none.mp hfree)
    · exact .taken (fun hno => hfree (Option.isNone_iff_eq_none.mpr hno)) (ih h)

theorem Searches.searchID (h : Searches pending next id) {fuel : Nat}
    (hfuel : idsBetween next id < fuel) :
    Conn.searchID pending fuel next = some id := by
  induction h generalizing fuel with
  | free h =>
    obtain ⟨fuel, rfl⟩ := Nat.exists_eq_succ_of_ne_zero (Nat.ne_of_gt (Nat.zero_lt_of_lt hfuel))
    rw [Conn.searchID, if_pos (Option.isNone_iff_eq_none.mpr h)]
  | @taken next id h rest ih =>
    rw [idsBetween_succ (ne_next_of_free h rest.firstFree.free)] at hfuel
    obtain ⟨fuel, rfl⟩ := Nat.exists_eq_succ_of_ne_zero (Nat.ne_of_gt (Nat.zero_lt_of_lt hfuel))
    rw [Conn.searchID, if_neg fun hno => h (Option.isNone_iff_eq_none.mp hno)]
    exact ih (Nat.lt_of_succ_lt_succ hfuel)

/-- The bound on the rounds in `drawID` cuts no search short. -/
theorem searches_iff_drawID (s : Conn) : Searches s.pending s.nextID id ↔ s.drawID = some id :=
  ⟨fun h => h.searchID (UInt16.toNat_lt _), searches_of_searchID⟩

end Search

theorem Conn.exists_free {s : Conn} (h : s.pendingCount < 65536) : ∃ id, s.pending id = none := by
  by_contra hfull
  have huniv : {id | s.pending id ≠ none} = Set.univ := by
    ext id
    exact iff_of_true (fun hno => hfull ⟨id, hno⟩) trivial
  have hcard : Nat.card UInt16 = 65536 := by
    rw [Nat.card_congr ⟨UInt16.toFin, UInt16.ofFin, fun _ => rfl, fun _ => rfl⟩, Nat.card_fin]
  rw [Conn.pendingCount, huniv, Set.ncard_univ, hcard] at h
  exact lt_irrefl _ h

/-- While an ID is free `register` finds one: its loop ends, at the first free
ID after the counter, and that ID is all that is new in `pending`. -/
theorem register_fresh {s : Conn} {c : Nat} (hidle : s.calls c = .idle) (hopen : s.closeErr = none)
    (hroom : s.pendingCount < 65536) (cmd : UInt8) (errOrOffset : UInt32) (payload : Bytes) :
    ∃ id t, Searches s.pending s.nextID id ∧ s.step (.register c cmd errOrOffset payload) = some t ∧
      t.nextID = id ∧
      FirstFree s.pending s.nextID id ∧ t.pending id = some c ∧
        (∀ other, other ≠ id → t.pending other = s.pending other) ∧
      t.pendingCount = s.pendingCount + 1 := by
  obtain ⟨free, hfree⟩ := s.exists_free hroom
  obtain ⟨id, hsearch⟩ := exists_searches s.nextID hfree
  have hdraw : s.drawID = some id := (searches_iff_drawID s).mp hsearch
  have hfirst := hsearch.firstFree
  have hstep : s.step (.register c cmd errOrOffset payload) = some
      { s with
        nextID := id
        pending := Function.update s.pending id (some c)
        calls :=
          Function.update s.calls c
            (.registered (requestHeader cmd id errOrOffset payload) payload) } := by
    simp only [Conn.step, hidle, hopen, hdraw, Option.map_some]
  have hinsert : {other | Function.update s.pending id (some c) other ≠ none} =
      insert id {other | s.pending other ≠ none} := by
    ext other
    by_cases hother : other = id
    · simp [hother]
    · simp [hother]
  refine ⟨id, _, hsearch, hstep, rfl, hfirst, Function.update_self ..,
    fun other hne => Function.update_of_ne hne .., ?_⟩
  have hnew : id ∉ {other | s.pending other ≠ none} := fun hmem => hmem hfirst.free
  show {other | Function.update s.pending id (some c) other ≠ none}.ncard = _
  rw [hinsert, Set.ncard_insert_of_notMem hnew]
  rfl

/-- The counter is about to wrap round, and a call waits under the ID 0. -/
def lastID : Conn := { nextID := 65535, pending := fun id => if id = 0 then some 0 else none }

theorem register_fresh_lastID :
    ∃ t, lastID.step (.register 1 cmdCommand 0 []) = some t ∧ t.nextID = 1 ∧ t.pending 1 = some 1 ∧
      t.pending 0 = some 0 := by
  have hone : {id | lastID.pending id ≠ none} = {0} := by
    ext id
    simp [lastID]
  have hcount : lastID.pendingCount < 65536 := by
    rw [Conn.pendingCount, hone, Set.ncard_singleton]
    decide
  obtain ⟨id, t, hsearch, hstep, hnext, -, hnew, hold, -⟩ :=
    register_fresh (s := lastID) (c := 1) rfl rfl hcount cmdCommand 0 []
  obtain rfl : id = 1 := hsearch.unique (.taken (by decide) (.free rfl))
  exact ⟨t, hstep, hnext, hnew, hold 0 (by decide)⟩

end GoAfp
