import GoAfp.System
import Mathlib.Data.List.Nodup
import Mathlib.Data.List.Perm.Subperm

/-! A group of tasks that run side by side, at most `limit` at a time. Tasks
are started in the order given; those started act on the world at most once
each, and finish with a result, in any order. -/

namespace GoAfp

namespace TaskGroup

structure State (ι ρ : Type*) where
  waiting : List ι
  running : List ι
  acted : List ι
  finished : List (ι × ρ)

inductive Label (ι ρ : Type*)
  | start
  | act (i : ι)
  | finish (i : ι) (r : ρ)

section

variable {ι ρ : Type*}

/-- The tasks that have been started. -/
def State.started (s : State ι ρ) : List ι := s.running ++ s.finished.map Prod.fst

def State.Done (s : State ι ρ) : Prop := s.waiting = [] ∧ s.running = []

variable [DecidableEq ι]

def State.result (s : State ι ρ) (i : ι) : Option ρ := s.finished.lookup i

/-- A task may act when it has finished already, if its result was not waited
for. -/
def State.step (limit : Nat) (s : State ι ρ) : Label ι ρ → Option (State ι ρ)
  | .start =>
    match s.waiting with
    | [] => none
    | i :: rest =>
      if s.running.length < limit then some { s with waiting := rest, running := s.running ++ [i] }
      else none
  | .act i => if i ∈ s.started ∧ i ∉ s.acted then some { s with acted := s.acted ++ [i] } else none
  | .finish i r =>
    if i ∈ s.running then some
      { s with running := s.running.erase i, finished := s.finished ++ [(i, r)] } else none

def system (limit : Nat) (tasks : List ι) : System (State ι ρ) (Label ι ρ) :=
  ⟨⟨tasks, [], [], []⟩, State.step limit⟩

inductive Fires (limit : Nat) (s : State ι ρ) : Label ι ρ → State ι ρ → Prop
  | start {i : ι} {rest : List ι} (hw : s.waiting = i :: rest) (hl : s.running.length < limit) :
      Fires limit s .start { s with waiting := rest, running := s.running ++ [i] }
  | act {i : ι} (hi : i ∈ s.started) (hn : i ∉ s.acted) :
      Fires limit s (.act i) { s with acted := s.acted ++ [i] }
  | finish {i : ι} (r : ρ) (hi : i ∈ s.running) :
      Fires limit s (.finish i r)
        { s with running := s.running.erase i, finished := s.finished ++ [(i, r)] }

variable {limit : Nat} {s t : State ι ρ} {a : Label ι ρ}

theorem step_iff_fires : s.step limit a = some t ↔ Fires limit s a t := by
  constructor
  · intro h
    cases a with
    | start =>
      simp only [State.step] at h
      split at h
      · cases h
      · rename_i i rest hw
        split_ifs at h with hl
        · cases h
          exact .start hw hl
    | act i =>
      simp only [State.step] at h
      split_ifs at h with hi
      · cases h
        exact .act hi.1 hi.2
    | finish i r =>
      simp only [State.step] at h
      split_ifs at h with hi
      · cases h
        exact .finish r hi
  · intro h
    cases h with
    | start hw hl => simp only [State.step, hw, if_pos hl]
    | act hi hn => simp only [State.step, if_pos (And.intro hi hn)]
    | finish r hi => simp only [State.step, if_pos hi]

/-- Finishing moves a task within the started ones. -/
theorem started_finish {i : ι} (r : ρ) (hi : i ∈ s.running) :
    (State.started { s with running := s.running.erase i, finished := s.finished ++ [(i, r)] }).Perm
      s.started := by
  have herase : (i :: s.running.erase i).Perm s.running := (List.perm_cons_erase hi).symm
  simp only [State.started, List.map_append, List.map_cons, List.map_nil]
  have hlast : (s.running.erase i ++ (s.finished.map Prod.fst ++ [i])).Perm
      (i :: (s.running.erase i ++ s.finished.map Prod.fst)) := by
    rw [← List.append_assoc]
    exact List.perm_append_singleton i _
  exact hlast.trans (herase.append_right _)

structure Inv (tasks : List ι) (limit : Nat) (s : State ι ρ) : Prop where
  perm : (s.waiting ++ s.started).Perm tasks
  capacity : s.running.length ≤ limit
  acted_nodup : s.acted.Nodup
  acted_started : ∀ i ∈ s.acted, i ∈ s.started

variable {tasks : List ι} {ok : State ι ρ → Label ι ρ → Prop} {tr : List (Label ι ρ)}

theorem Inv.fires (h : Inv tasks limit s) (hf : Fires limit s a t) : Inv tasks limit t := by
  cases hf with
  | @start i rest hw hl =>
    refine ⟨?_, ?_, h.acted_nodup, fun j hj => ?_⟩
    · have hmove : (rest ++ s.running ++ i :: s.finished.map Prod.fst).Perm
          (i :: (rest ++ s.running ++ s.finished.map Prod.fst)) := List.perm_middle
      refine List.Perm.trans ?_ h.perm
      simpa only [State.started, hw, List.append_assoc, List.cons_append,
        List.nil_append] using hmove
    · simp only [List.length_append, List.length_singleton]
      omega
    · have hj' := h.acted_started j hj
      simp only [State.started, List.mem_append] at hj' ⊢
      tauto
  | @act i hi hn =>
    refine ⟨h.perm, h.capacity, ?_, fun j hj => ?_⟩
    · exact List.nodup_append.mpr ⟨h.acted_nodup, List.nodup_singleton i,
        fun j hj k hk => by rintro rfl; exact hn (List.mem_singleton.mp hk ▸ hj)⟩
    · rcases List.mem_append.mp hj with hj | hj
      · exact h.acted_started j hj
      · rw [List.mem_singleton.mp hj]
        exact hi
  | @finish i r hi =>
    have hst := started_finish r hi
    refine ⟨(hst.append_left _).trans h.perm, ?_, h.acted_nodup,
      fun j hj => hst.mem_iff.mpr (h.acted_started j hj)⟩
    exact Nat.le_trans List.length_erase_le h.capacity

theorem Reach.fires (h : (system limit tasks).Reach ok tr s) (hok : ok s a)
    (hf : Fires limit s a t) :
    (system limit tasks).Reach ok (tr ++ [a]) t :=
  h.snoc hok (step_iff_fires.mpr hf)

theorem Reach.inv (h : (system limit tasks).Reach ok tr s) : Inv tasks limit s := by
  refine h.invariant
    ⟨by simp [system, State.started], Nat.zero_le _, List.nodup_nil, fun i hi => by cases hi⟩ ?_
  intro s a t hs _ ht
  exact hs.fires (step_iff_fires.mp ht)

/-- Every task is started, acts and finishes at most once. -/
theorem Reach.length (h : (system limit tasks).Reach ok tr s) :
    tr.length + (2 * s.waiting.length + s.running.length) = 2 * tasks.length + s.acted.length := by
  refine h.history (J := fun tr s => tr.length + (2 * s.waiting.length + s.running.length) =
    2 * tasks.length + s.acted.length) (by simp [system]) ?_
  intro tr s a t hs _ ht
  cases step_iff_fires.mp ht with
  | start hw hl =>
    simp only [hw, List.length_append, List.length_cons, List.length_nil] at hs ⊢
    omega
  | act hi hn =>
    simp only [List.length_append, List.length_cons, List.length_nil] at hs ⊢
    omega
  | finish r hi =>
    have hpos := List.length_pos_of_mem hi
    simp only [List.length_append, List.length_cons, List.length_nil,
      List.length_erase_of_mem hi] at hs ⊢
    omega

theorem Reach.length_le (h : (system limit tasks).Reach ok tr s) :
    tr.length ≤ 3 * tasks.length := by
  have hinv := Reach.inv h
  have hsub : s.acted ⊆ tasks := fun i hi =>
    hinv.perm.mem_iff.mp (List.mem_append_right _ (hinv.acted_started i hi))
  have hle := (hinv.acted_nodup.subperm hsub).length_le
  have hlen := Reach.length h
  omega

/-- A run can always be carried on to its end, if the guard lets tasks start
and act, and lets those that have acted finish. -/
theorem Reach.completes (hlimit : 0 < limit) (hstart : ∀ s, ok s .start)
    (hact : ∀ s i, ok s (.act i)) (hfinish : ∀ s i, i ∈ s.acted → ∃ r, ok s (.finish i r))
    (h : (system limit tasks).Reach ok tr s) :
    ∃ as t, (system limit tasks).Reach ok (tr ++ as) t ∧ t.Done := by
  obtain ⟨n, hn⟩ : ∃ n, n = 2 * s.waiting.length + s.running.length := ⟨_, rfl⟩
  induction n generalizing tr s with
  | zero =>
    refine ⟨[], s, by rwa [List.append_nil], ?_, ?_⟩
    · exact List.length_eq_zero_iff.mp (by omega)
    · exact List.length_eq_zero_iff.mp (by omega)
  | succ n ih =>
    cases hr : s.running with
    | nil =>
      -- nothing is in flight, so there is room for the next task
      cases hw : s.waiting with
      | nil => simp [hr, hw] at hn
      | cons i rest =>
        have hl : s.running.length < limit := by rwa [hr, List.length_nil]
        have hnext := Reach.fires h (hstart s) (.start hw hl)
        obtain ⟨as, t, ht, hdone⟩ := ih hnext (by
          simp only [hr, hw, List.length_append, List.length_cons, List.length_nil] at hn ⊢
          omega)
        exact ⟨.start ::
          as, t, by simpa only [List.append_assoc, List.singleton_append] using ht, hdone⟩
    | cons i rest =>
      have hi : i ∈ s.running := by simp [hr]
      obtain ⟨bs, u, hu, hrun, hwait, hacted⟩ : ∃ bs u, (system limit tasks).Reach ok (tr ++ bs) u ∧
          u.running = s.running ∧ u.waiting = s.waiting ∧ i ∈ u.acted := by
        by_cases ha : i ∈ s.acted
        · exact ⟨[], s, by rwa [List.append_nil], rfl, rfl, ha⟩
        · exact ⟨[.act i], _, Reach.fires h (hact s i) (.act (List.mem_append_left _ hi) ha), rfl,
            rfl, by simp⟩
      obtain ⟨r, hok⟩ := hfinish u i hacted
      have hi' : i ∈ u.running := hrun ▸ hi
      have hnext := Reach.fires hu hok (.finish r hi')
      have hpos := List.length_pos_of_mem hi
      obtain ⟨as, t, ht, hdone⟩ := ih hnext (by
        simp only [hrun, hwait, List.length_erase_of_mem hi]
        omega)
      exact ⟨bs ++ .finish i r ::
        as, t, by simpa only [List.append_assoc, List.singleton_append] using ht, hdone⟩

theorem Reach.finished_perm (h : (system limit tasks).Reach ok tr s) (hdone : s.Done) :
    (s.finished.map Prod.fst).Perm tasks := by
  have hperm := (Reach.inv h).perm
  rwa [State.started, hdone.1, hdone.2, List.nil_append, List.nil_append] at hperm

theorem lookup_of_mem {l : List (ι × ρ)} (hl : (l.map Prod.fst).Nodup) {i : ι} {r : ρ}
    (h : (i, r) ∈ l) :
    l.lookup i = some r := by
  induction l with
  | nil => cases h
  | cons x l ih =>
    obtain ⟨hx, hl⟩ := List.nodup_cons.mp hl
    rcases List.mem_cons.mp h with rfl | h
    · exact List.lookup_cons_self
    · have hne : i ≠ x.1 := by
        rintro rfl
        exact hx (List.mem_map.mpr ⟨_, h, rfl⟩)
      rw [List.lookup_cons, beq_false_of_ne hne]
      exact ih hl h

/-- In the end every task has its result. -/
theorem Reach.result_iff (h : (system limit tasks).Reach ok tr s) (hdone : s.Done)
    (htasks : tasks.Nodup) {i : ι} {r : ρ} :
    s.result i = some r ↔ (i, r) ∈ s.finished := by
  have hnodup := (Reach.finished_perm h hdone).nodup_iff.mpr htasks
  refine ⟨fun hl => ?_, lookup_of_mem hnodup⟩
  obtain ⟨pre, post, heq, -⟩ := List.lookup_eq_some_iff.mp hl
  simp [heq]

theorem Reach.exists_result (h : (system limit tasks).Reach ok tr s) (hdone : s.Done) {i : ι}
    (hi : i ∈ tasks) :
    ∃ r, (i, r) ∈ s.finished := by
  obtain ⟨⟨j, r⟩, hx, rfl⟩ := List.mem_map.mp ((Reach.finished_perm h hdone).mem_iff.mpr hi)
  exact ⟨r, hx⟩

/-- What the guard says of the results holds of those recorded. -/
theorem Reach.finished_of_guard {P : ι → ρ → Prop} (h : (system limit tasks).Reach ok tr s)
    (hP : ∀ s i r, ok s (.finish i r) → P i r) : ∀ x ∈ s.finished, P x.1 x.2 := by
  refine h.invariant (I := fun s => ∀ x ∈ s.finished, P x.1 x.2) (fun x hx => by cases hx) ?_
  intro s a t hs hok ht
  cases step_iff_fires.mp ht with
  | start hw hl => exact hs
  | act hi hn => exact hs
  | finish r hi =>
    intro x hx
    rcases List.mem_append.mp hx with hx | hx
    · exact hs x hx
    · rw [List.mem_singleton.mp hx]
      exact hP s _ r hok

/-- Any results may come out. -/
theorem exists_run (hlimit : 0 < limit) (htasks : tasks.Nodup) (answer : ι → ρ) :
    ∃ tr s, (system limit tasks).Reach System.free tr s ∧ s.Done ∧ ∀ i ∈ tasks,
      s.result i = some (answer i) := by
  let answers : State ι ρ → Label ι ρ → Prop
    | _, .finish i r => r = answer i
    | _, _ => True
  have hinit : (system limit tasks).Reach answers [] (system limit tasks).init := .nil
  obtain ⟨tr, s, h, hdone⟩ := Reach.completes hlimit (fun _ => trivial) (fun _ _ => trivial)
    (fun _ i _ => ⟨answer i, rfl⟩) hinit
  refine ⟨_, s, h.free, hdone, fun i hi => ?_⟩
  obtain ⟨r, hr⟩ := Reach.exists_result h hdone hi
  have hanswer : r = answer i :=
    Reach.finished_of_guard (P := fun i r => r = answer i) h (fun _ _ _ hok => hok) _ hr
  rw [← hanswer]
  exact (Reach.result_iff h hdone htasks).mpr hr

/-- If only tasks that have acted may finish, all have acted in the end. -/
theorem Reach.acted_perm (h : (system limit tasks).Reach ok tr s) (hdone : s.Done)
    (htasks : tasks.Nodup) (hacts : ∀ s i r, ok s (.finish i r) → i ∈ s.acted) :
    s.acted.Perm tasks := by
  have hall : ∀ x ∈ s.finished, x.1 ∈ s.acted := by
    refine h.invariant (I := fun s => ∀ x ∈ s.finished, x.1 ∈ s.acted) (fun x hx => by cases hx) ?_
    intro s a t hs hok ht
    cases step_iff_fires.mp ht with
    | start hw hl => exact hs
    | act hi hn => exact fun x hx => List.mem_append_left _ (hs x hx)
    | finish r hi =>
      intro x hx
      rcases List.mem_append.mp hx with hx | hx
      · exact hs x hx
      · rw [List.mem_singleton.mp hx]
        exact hacts s _ r hok
  have hinv := Reach.inv h
  have hperm := Reach.finished_perm h hdone
  refine (List.perm_ext_iff_of_nodup hinv.acted_nodup htasks).mpr fun i =>
    ⟨fun hi => ?_, fun hi => ?_⟩
  · exact hinv.perm.mem_iff.mp (List.mem_append_right _ (hinv.acted_started i hi))
  · obtain ⟨x, hx, rfl⟩ := List.mem_map.mp (hperm.mem_iff.mpr hi)
    exact hall x hx

end

end TaskGroup

end GoAfp
