import GoAfp.ForkIO

/-! An upload from any reader, one that fails in the middle included. The
reader's errors reach `readFrom` through `io.ReadFull`, which drops an error
that comes with the last byte of a window, and `io.ErrUnexpectedEOF` is taken
for the end of the data. -/

namespace GoAfp

/-- A reader: what its calls return one after another, cut to the buffer, and
the error that all later calls return. -/
structure Feed where
  events : List (Bytes × Option IoErr)
  last : IoErr

namespace Feed

def read (s : Feed) (m : Nat) : Bytes × Option IoErr × Feed :=
  match s.events with
  | [] => ([], some s.last, s)
  | (x, e) :: rest =>
    if x.length ≤ m then (x, e, { s with events := rest })
    else (x.take m, none, { s with events := (x.drop m, e) :: rest })

instance : IoReader Feed := ⟨read, fun s => s.events.length⟩

def size (s : Feed) : Nat := (s.events.map fun x => x.1.length).sum

/-- The first error that is not dropped, when `pos` bytes came before and a
window has `w` of them. -/
def shownFrom (w : Nat) (last : IoErr) : Nat → List (Bytes × Option IoErr) → IoErr
  | _, [] => last
  | pos, (x, none) :: rest => shownFrom w last (pos + x.length) rest
  | pos, (x, some e) :: rest =>
    if x ≠ [] ∧ (pos + x.length) % w = 0 then shownFrom w last (pos + x.length) rest else e

def shown (s : Feed) (w pos : Nat) : IoErr := shownFrom w s.last pos s.events

open IoReader (readFullLoop)

theorem read_eq (s : Feed) (m : Nat) : IoReader.read s m = s.read m := rfl

theorem size_cons (x : Bytes) (e : Option IoErr) (rest : List (Bytes × Option IoErr))
    (last : IoErr) :
    size ⟨(x, e) :: rest, last⟩ = x.length + size ⟨rest, last⟩ := by
  rw [size, List.map_cons, List.sum_cons]
  rfl

/-- Cutting what one call returns does not change which errors are dropped. -/
theorem shownFrom_drop {x : Bytes} {k : Nat} (hk : k < x.length) (w : Nat) (last : IoErr)
    (pos : Nat) (e : Option IoErr) (rest : List (Bytes × Option IoErr)) :
    shownFrom w last (pos + k) ((x.drop k, e) :: rest) = shownFrom w last pos ((x, e) :: rest) := by
  have hend : pos + k + (x.drop k).length = pos + x.length := by
    rw [List.length_drop]
    omega
  have hx : x ≠ [] := by
    rintro rfl
    simp at hk
  have hdrop : x.drop k ≠ [] := by
    rw [Ne, List.drop_eq_nil_iff]
    omega
  cases e with
  | none => rw [shownFrom, shownFrom, hend]
  | some e => simp only [shownFrom, hend, ne_eq, hdrop, hx]

/-- What `io.ReadFull` does with a reader of which `pos` bytes were read
before: it fills the window and drops no error that counts, or it ends with
the first error that does. -/
structure FullRead (w pos got : Nat) (s : Feed) (r : Bytes × Option IoErr × Feed) : Prop where
  full : r.2.1 = none → r.1.length = w ∧ r.2.2.size + w = s.size + got ∧
    r.2.2.shown w (pos + w) = s.shown w (pos + got)
  failed : ∀ e, r.2.1 = some e →
    e =
      if r.1.length > 0 ∧ s.shown w (pos + got) = .eof then .unexpectedEOF
      else s.shown w (pos + got)

section

variable {w pos : Nat} {s : Feed}

theorem FullRead.congr {s' : Feed} {got got' : Nat} {r : Bytes × Option IoErr × Feed}
    (h : FullRead w pos got' s' r) (hsize : s'.size + got' = s.size + got)
    (hshown : s'.shown w (pos + got') = s.shown w (pos + got)) :
    FullRead w pos got s r where
  full := by
    rw [← hsize, ← hshown]
    exact h.full
  failed := by
    rw [← hshown]
    exact h.failed

theorem fullRead_full {got : Bytes} (h : got.length = w) :
    FullRead w pos got.length s (got, none, s) where
  full := fun _ => ⟨h, by rw [h], by rw [h]⟩
  failed := fun _ he => nomatch he

/-- An error that comes with bytes is dropped iff they complete the window. -/
theorem fullRead_error (hpos : pos % w = 0) {got x : Bytes} {e : IoErr}
    {rest : List (Bytes × Option IoErr)} {last : IoErr} (hgot : got.length < w)
    (hle : (got ++ x).length ≤ w) :
    FullRead w pos got.length ⟨(x, some e) :: rest, last⟩
      (if (got ++ x).length ≥ w then (got ++ x, none, ⟨rest, last⟩)
        else
          (got ++ x, some (if (got ++ x).length > 0 ∧ e = .eof then .unexpectedEOF else e),
            ⟨rest, last⟩)) := by
  have hsize := size_cons x (some e) rest last
  have hlen : (got ++ x).length = got.length + x.length := List.length_append
  have hmod : (pos + got.length + x.length) % w = (got ++ x).length % w := by
    rw [hlen, Nat.add_assoc, Nat.add_mod, hpos, Nat.zero_add, Nat.mod_mod]
  by_cases hfull : (got ++ x).length ≥ w
  · have hend : (got ++ x).length = w := Nat.le_antisymm hle hfull
    have hx : x ≠ [] := by
      rintro rfl
      simp at hend
      omega
    have hshown : shown ⟨(x, some e) :: rest, last⟩ w (pos + got.length) =
        shown ⟨rest, last⟩ w (pos + (got ++ x).length) := by
      rw [shown, shownFrom, if_pos ⟨hx, by rw [hmod, hend, Nat.mod_self]⟩, hlen, ← Nat.add_assoc]
      rfl
    rw [if_pos hfull]
    exact (fullRead_full hend).congr (by omega) hshown.symm
  · have hshown : shown ⟨(x, some e) :: rest, last⟩ w (pos + got.length) = e := by
      refine if_neg fun hdrop => ?_
      have hzero := hdrop.2
      have := List.length_pos_iff.mpr hdrop.1
      rw [hmod, Nat.mod_eq_of_lt (Nat.lt_of_not_le hfull)] at hzero
      omega
    rw [if_neg hfull]
    exact ⟨fun h => absurd h (by simp),
      fun e' he' => by rw [hshown]; exact (Option.some.inj he').symm⟩

/-- A call that returns bytes and no error. -/
theorem fullRead_piece {got x : Bytes} {rest : List (Bytes × Option IoErr)} {last : IoErr}
    {r : Bytes × Option IoErr × Feed} (h : FullRead w pos (got ++ x).length ⟨rest, last⟩ r) :
    FullRead w pos got.length ⟨(x, none) :: rest, last⟩ r := by
  have hsize := size_cons x none rest last
  refine h.congr ?_ ?_
  · rw [List.length_append]
    omega
  · rw [List.length_append, ← Nat.add_assoc]
    rfl

/-- A call that has more than there is room for: the rest stays for later. -/
theorem fullRead_cut {got x : Bytes} {e : Option IoErr} {rest : List (Bytes × Option IoErr)}
    {last : IoErr} {r : Bytes × Option IoErr × Feed} {k : Nat} (hk : k < x.length)
    (h : FullRead w pos (got ++ x.take k).length ⟨(x.drop k, e) :: rest, last⟩ r) :
    FullRead w pos got.length ⟨(x, e) :: rest, last⟩ r := by
  have hlen : (got ++ x.take k).length = got.length + k := by
    rw [List.length_append, List.length_take_of_le hk.le]
  refine h.congr ?_ ?_
  · rw [size_cons, size_cons, List.length_drop, hlen]
    omega
  · rw [hlen, ← Nat.add_assoc]
    exact shownFrom_drop hk w last (pos + got.length) e rest

theorem readFullLoop_spec {fuel : Nat} (hpos : pos % w = 0) {got : Bytes} (hle : got.length ≤ w)
    (hfuel : s.events.length < fuel ∨ got.length = w) :
    FullRead w pos got.length s (readFullLoop w fuel s got) := by
  induction fuel generalizing s got with
  | zero => exact fullRead_full (hfuel.resolve_left (Nat.not_lt_zero _))
  | succ fuel ih =>
    by_cases hm : got.length < w
    · rw [readFullLoop, if_pos hm]
      obtain ⟨events, last⟩ := s
      cases events with
      | nil =>
        simp only [read_eq, read, List.append_nil, if_neg (Nat.not_le_of_lt hm)]
        exact ⟨fun h => absurd h (by simp), fun e he => (Option.some.inj he).symm⟩
      | cons event rest =>
        obtain ⟨x, e⟩ := event
        have hlen : rest.length < fuel := Nat.lt_of_succ_lt_succ (hfuel.resolve_right hm.ne)
        by_cases hx : x.length ≤ w - got.length
        · have hx' : (got ++ x).length ≤ w := by
            rw [List.length_append]
            omega
          simp only [read_eq, read, hx, if_true]
          cases e with
          | none => exact fullRead_piece (ih hx' (Or.inl hlen))
          | some e => exact fullRead_error hpos hm hx'
        · -- the piece is cut to the room that is left, so the next round is the last
          have hx' : (got ++ x.take (w - got.length)).length = w := by
            rw [List.length_append, List.length_take]
            omega
          simp only [read_eq, read, hx, if_false]
          exact fullRead_cut (Nat.lt_of_not_le hx) (ih hx'.le (Or.inr hx'))
    · rw [readFullLoop, if_neg hm]
      exact fullRead_full (Nat.le_antisymm hle (Nat.le_of_not_lt hm))

theorem readFull_spec (hpos : pos % w = 0) (s : Feed) :
    FullRead w pos 0 s (IoReader.readFull s w) :=
  have hnil : ([] : Bytes).length ≤ w := Nat.zero_le w
  readFullLoop_spec hpos hnil (Or.inl (Nat.lt_succ_self _))

end

end Feed

/-- The errors that `readFrom` takes for the end of the data. -/
def EndOfData (e : IoErr) : Prop := e = .eof ∨ e = .unexpectedEOF

theorem endOfData_iff {e shown : IoErr} {n : Nat}
    (h : e = if n > 0 ∧ shown = .eof then .unexpectedEOF else shown) :
    EndOfData e ↔ EndOfData shown := by
  by_cases hcut : n > 0 ∧ shown = .eof
  · rw [h, if_pos hcut, hcut.2]
    exact ⟨fun _ => Or.inl rfl, fun _ => Or.inr rfl⟩
  · rw [h, if_neg hcut]

/-- From a window on: the upload returns, and it reports an error if the first
error that counts is one, and if the writes succeed only then. -/
theorem Fork.readFromLoop_error (f : Fork) (runs : Nat → Bytes → WriteRun) {fuel : Nat} {s : Feed}
    (D : Bytes) {total : Nat} (hw : total % (f.writeChunkSize * f.maxParallel) = 0)
    (hfuel : s.size < fuel) :
    ∃ n err D', f.readFromLoop runs fuel s D total = some (n, err, D') ∧
      (err = none → EndOfData (s.shown (f.writeChunkSize * f.maxParallel) total)) ∧
      ((∀ total data, (runs total data).Complete f data) →
        EndOfData (s.shown (f.writeChunkSize * f.maxParallel) total) → err = none) := by
  induction fuel generalizing s D total with
  | zero => omega
  | succ fuel ih =>
    have hpos := f.window_pos
    have hspec := Feed.readFull_spec hw s
    rcases hr : IoReader.readFull s (f.writeChunkSize * f.maxParallel) with ⟨data, err, s'⟩
    rw [hr] at hspec
    obtain ⟨hfull, hfailed⟩ := hspec
    simp only [Nat.add_zero] at hfull hfailed
    simp only [readFromLoop, hr]
    split
    · rename_i werr hwrite
      refine ⟨_, _, _, rfl, fun h => absurd h (by simp), fun hruns _ => ?_⟩
      rw [writeAt_err fun c _ => (hruns total data).reply c, ite_self] at hwrite
      exact absurd hwrite (by simp)
    · cases err with
      | none =>
        obtain ⟨hlen, hsize, hshown⟩ := hfull rfl
        have hw' : (total + data.length) % (f.writeChunkSize * f.maxParallel) = 0 := by
          rw [hlen, Nat.add_mod_right, hw]
        obtain ⟨n, err, D', hloop, hres⟩ := ih (s := s') (if data.length > 0 then
          overlayAll 0 D ((runs total data).applied.map (part total data)) else D) hw' (by omega)
        rw [hlen, hshown] at hres
        exact ⟨n, err, D', hloop, hres⟩
      | some e =>
        have hend := endOfData_iff (hfailed e rfl)
        rw [← hend]
        cases e with
        | eof => exact ⟨_, _, _, rfl, fun _ => Or.inl rfl, fun _ _ => rfl⟩
        | unexpectedEOF => exact ⟨_, _, _, rfl, fun _ => Or.inr rfl, fun _ _ => rfl⟩
        | afp e =>
          exact ⟨_, _, _, rfl, fun h => absurd h (by simp),
            fun _ h => absurd h (by simp [EndOfData])⟩
        | other text =>
          exact ⟨_, _, _, rfl, fun h => absurd h (by simp),
            fun _ h => absurd h (by simp [EndOfData])⟩

/-- An upload returns. It reports an error if the first error of its reader
that does not come with the last byte of a window is neither `io.EOF` nor
`io.ErrUnexpectedEOF`, and if it is one of the two and the writes succeed it
reports none. -/
theorem readFrom_error (f : Fork) (runs : Nat → Bytes → WriteRun) (src : Feed) (D : Bytes)
    {fuel : Nat} (hfuel : src.size < fuel) :
    ∃ n err D', f.readFrom runs fuel src D = some (n, err, D') ∧
      (¬ EndOfData (src.shown (f.writeChunkSize * f.maxParallel) 0) → err ≠ none) ∧
      ((∀ total data, (runs total data).Complete f data) →
        EndOfData (src.shown (f.writeChunkSize * f.maxParallel) 0) → err = none) := by
  obtain ⟨n, err, D', hloop, hnone, hcomplete⟩ := f.readFromLoop_error runs D (Nat.zero_mod _) hfuel
  exact ⟨n, err, D', hloop, mt hnone, hcomplete⟩

/-- Three bytes and then a broken connection. -/
def brokenFeed : Feed := ⟨[([1, 2, 3], none)], .other "reset"⟩

theorem readFrom_error_reset :
    ∃ n err D', byteFork.readFrom (fun _ data => inOrder.writes byteFork data) 4 brokenFeed [] =
      some (n, err, D') ∧ err ≠ none := by
  obtain ⟨n, err, D', hrun, herr, -⟩ :=
    readFrom_error byteFork (fun _ data => inOrder.writes byteFork data) brokenFeed []
      (show 3 < 4 by decide)
  exact ⟨n, err, D', hrun, herr (by simp [EndOfData, brokenFeed, Feed.shown, Feed.shownFrom])⟩

/-- A reader that breaks off with `io.ErrUnexpectedEOF` after three bytes. -/
def cutFeed : Feed := ⟨[([1, 2, 3], none)], .unexpectedEOF⟩

/-- A reader whose error comes with the last byte of a window. -/
def windowFeed : Feed := ⟨[([1, 2], some (.other "reset"))], .eof⟩

/-- Both uploads succeed. -/
theorem readFrom_hides_failure :
    byteFork.readFrom (fun _ data => inOrder.writes byteFork data) 4 cutFeed [] =
      some (3, none, [1, 2, 3]) ∧
    byteFork.readFrom (fun _ data => inOrder.writes byteFork data) 4 windowFeed [] =
      some (2, none, [1, 2]) := by
  decide

end GoAfp
