import GoAfp.FileRetry

/-! An open file behaves as a file in memory, whatever the link does to the
first run of each operation. -/

namespace GoAfp

structure MemFile where
  content : Bytes
  cursor : Int

def MemFile.readLen (m : MemFile) (p : Bytes) (off : Int) : Nat :=
  min p.length (m.content.length - off.toNat)

def MemFile.step (m : MemFile) : FileOp → (Bytes × Int) × MemFile
  | .read p =>
    let n := m.readLen p m.cursor
    (((m.content.drop m.cursor.toNat).take n, n), { m with cursor := m.cursor + n })
  | .readAt p off =>
    let n := m.readLen p off
    (((m.content.drop off.toNat).take n, n), m)
  | .write p => (([], p.length), ⟨overlay 0 m.content m.cursor.toNat p, m.cursor + p.length⟩)
  | .seek offset whence =>
    let cursor := match whence with
      | .start => offset
      | .current => m.cursor + offset
      | .fromEnd => m.content.length + offset
    (([], cursor), { m with cursor := cursor })
  | .truncate size => (([], 0), { m with content := setLength 0 m.content size.toNat })

def IsInt64 (x : Int) : Prop := -2 ^ 63 ≤ x ∧ x < 2 ^ 63

/-- The calls considered: positions and sizes are not negative, and seeking is
from the start or from the cursor. -/
def FileOp.Allowed (m : MemFile) : FileOp → Prop
  | .read _ => True
  | .readAt _ off => IsInt64 off ∧ 0 ≤ off
  | .write _ => True
  | .seek offset .start => IsInt64 offset ∧ 0 ≤ offset
  | .seek offset .current => IsInt64 offset ∧ 0 ≤ wrap64 (m.cursor + offset)
  | .seek _ .fromEnd => False
  | .truncate size => IsInt64 size ∧ 0 ≤ size

/-- A read of `p` at `off` may report the end of file with the last bytes, and
must report it when bytes are missing. -/
def EofOk (m : MemFile) (p : Bytes) (off : Int) (r : OpResult) : Prop :=
  (r.err = none ∨ r.err = some (.io .eof)) ∧ (r.n < p.length → r.err = some (.io .eof)) ∧
    (r.err = some (.io .eof) → (m.content.length : Int) ≤ off + r.n)

def Agrees (m : MemFile) (op : FileOp) (r : OpResult) : Prop :=
  (r.bytes, r.n) = (m.step op).1 ∧
    match op with
    | .read p => EofOk m p m.cursor r
    | .readAt p off => EofOk m p off r
    | _ => r.err = none

def AllAgree : MemFile → List FileOp → List OpResult → Prop
  | _, [], rs => rs = []
  | m, op :: ops, rs => ∃ r rest, rs = r :: rest ∧ Agrees m op r ∧ AllAgree (m.step op).2 ops rest

/-- The server can hold what is written. -/
def FileOp.Fits (m : MemFile) : FileOp → Prop
  | .write p => m.cursor + p.length ≤ maxForkLen
  | _ => True

def MemFile.Along (P : MemFile → FileOp → Prop) : MemFile → List FileOp → Prop
  | _, [] => True
  | m, op :: ops => P m op ∧ Along P (m.step op).2 ops

def MemFile.run (m : MemFile) (ops : List FileOp) : MemFile :=
  ops.foldl (fun m op => (m.step op).2) m

theorem wireOffset_of_nonneg {x : Int} (h : 0 ≤ x) (hx : x ≤ maxForkLen) :
    wireOffset x = x.toNat := by
  simp only [wireOffset, maxForkLen] at *
  omega

theorem wrap64_of_nonneg {x : Int} (h : 0 ≤ x) (hx : x ≤ maxForkLen) : wrap64 x = x := by
  simp only [wrap64, maxForkLen, Int.bmod] at *
  omega

structure Sim (m : MemFile) (f : File) (srv : ForkServer) : Prop where
  cursor : f.cursor = m.cursor
  content : srv.content = m.content
  held : f.Held srv
  cursor_nonneg : 0 ≤ m.cursor
  cursor_le : m.cursor ≤ maxForkLen
  length_le : m.content.length ≤ maxForkLen

theorem io_cases {err : Option IoErr}
    (h : err.map OsErr.io = none ∨ err.map OsErr.io = some (.io .eof)) :
    err = none ∨ err = some .eof := by
  cases err with
  | none => exact Or.inl rfl
  | some e =>
    rcases h with h | h
    · cases h
    · cases h
      exact Or.inr rfl

theorem mapErr_eq_eof {e : IoErr} (h : mapErr e = .io .eof) : e = .eof := by
  cases e with
  | eof => rfl
  | unexpectedEOF => cases h
  | other text => cases h
  | afp e =>
    cases e with
    | result op code =>
      simp only [mapErr] at h
      split_ifs at h
      cases h
    | _ => cases h

theorem read_agrees {m : MemFile} {p buf₀ buf : Bytes} {off : Int} {n : Nat} {err : Option IoErr}
    (hoff : 0 ≤ off) (hle : off ≤ maxForkLen) (hlen : buf₀.length = p.length)
    (h : ReadOk m.content (wireOffset off) buf₀ (buf, n, err)) :
    n = m.readLen p off ∧ buf.take n = (m.content.drop off.toNat).take n ∧
      EofOk m p off ⟨buf.take n, n, err.map .io⟩ := by
  obtain ⟨hcount, hbuffer, herr, hshort, hend⟩ := h
  simp only [wireOffset_of_nonneg hoff hle, hlen] at hcount hbuffer herr hshort hend
  have hn : ((m.content.drop off.toNat).take n).length = n := by
    rw [List.length_take, List.length_drop]
    omega
  refine ⟨hcount, ?_, ?_, fun h => ?_, fun h => ?_⟩
  · rw [hbuffer, List.take_left' hn]
  · rcases herr with rfl | rfl
    · exact Or.inl rfl
    · exact Or.inr rfl
  · rw [hshort (Int.ofNat_lt.mp h)]
    rfl
  · rcases herr with rfl | rfl
    · cases h
    · have := hend rfl
      change (m.content.length : Int) ≤ off + n
      omega

theorem Sim.move {m : MemFile} {f f' : File} {srv srv' : ForkServer} (h : Sim m f srv)
    (hre : f.Reopened f') (hheld : f'.Held srv') (hcontent : srv'.content = srv.content) {n : Nat}
    (hn : m.cursor + n ≤ maxForkLen) :
    Sim { m with cursor := m.cursor + n } { f' with cursor := wrap64 (f'.cursor + n) } srv' where
  cursor := by
    change wrap64 (f'.cursor + n) = m.cursor + n
    rw [hre.cursor, h.cursor, wrap64_of_nonneg (by have := h.cursor_nonneg; omega) hn]
  content := hcontent.trans h.content
  held := hheld
  cursor_nonneg := by
    have := h.cursor_nonneg
    change 0 ≤ m.cursor + n
    omega
  cursor_le := hn
  length_le := h.length_le

theorem step_read {m : MemFile} {f : File} {srv : ForkServer} (h : Sim m f srv) {sc : Script}
    {p : Bytes} (hok : (f.step srv sc (.read p)).1.err = none ∨
      (f.step srv sc (.read p)).1.err = some (.io .eof)) :
    Agrees m (.read p) (f.step srv sc (.read p)).1 ∧
      Sim (m.step (.read p)).2 (f.step srv sc (.read p)).2.1 (f.step srv sc (.read p)).2.2 := by
  obtain ⟨buf₀, buf, n, err, f', srv', hdo, hre, hheld, hcontent, hlen, hread⟩ :=
    File.doFork_read h.held (io_cases hok)
  rw [h.cursor] at hread
  obtain ⟨hn, hbytes, heof⟩ := read_agrees h.cursor_nonneg h.cursor_le hlen (h.content ▸ hread)
  have hstep : f.step srv sc (.read p) =
      (⟨buf.take n, n, err.map .io⟩, { f' with cursor := wrap64 (f'.cursor + n) }, srv') := by
    simp only [File.step, hdo]
  have hmem : m.step (.read p) =
      (((m.content.drop m.cursor.toNat).take n, (n : Int)), { m with cursor := m.cursor + n }) := by
    simp only [MemFile.step, ← hn]
  have hle : m.cursor + n ≤ maxForkLen := by
    have hlen := h.length_le
    have hlo := h.cursor_nonneg
    have hhi := h.cursor_le
    simp only [MemFile.readLen] at hn
    omega
  rw [hstep]
  refine ⟨⟨?_, heof⟩, ?_⟩
  · rw [hmem, hbytes]
  · rw [hmem]
    exact h.move hre hheld hcontent hle

theorem step_readAt {m : MemFile} {f : File} {srv : ForkServer} (h : Sim m f srv) {sc : Script}
    {p : Bytes} {off : Int} (hoff : 0 ≤ off) (hle : off ≤ maxForkLen)
    (hok : (f.step srv sc (.readAt p off)).1.err = none ∨
      (f.step srv sc (.readAt p off)).1.err = some (.io .eof)) :
    Agrees m (.readAt p off) (f.step srv sc (.readAt p off)).1 ∧
      Sim (m.step (.readAt p off)).2 (f.step srv sc (.readAt p off)).2.1
        (f.step srv sc (.readAt p off)).2.2 := by
  obtain ⟨buf₀, buf, n, err, f', srv', hdo, hre, hheld, hcontent, hlen, hread⟩ :=
    File.doFork_read h.held (io_cases hok)
  obtain ⟨hn, hbytes, heof⟩ := read_agrees hoff hle hlen (h.content ▸ hread)
  have hstep : f.step srv sc (.readAt p off) = (⟨buf.take n, n, err.map .io⟩, f', srv') := by
    simp only [File.step, hdo]
  have hmem : m.step (.readAt p off) = (((m.content.drop off.toNat).take n, (n : Int)), m) := by
    simp only [MemFile.step, ← hn]
  rw [hstep]
  refine ⟨⟨?_, heof⟩, ?_⟩
  · rw [hmem, hbytes]
  · rw [hmem]
    exact ⟨hre.cursor.trans h.cursor, hcontent.trans h.content, hheld, h.cursor_nonneg, h.cursor_le,
      h.length_le⟩

theorem step_write {m : MemFile} {f : File} {srv : ForkServer} (h : Sim m f srv) {sc : Script}
    {p : Bytes} (hok : (f.step srv sc (.write p)).1.err = none ∨
      (f.step srv sc (.write p)).1.err = some (.io .eof)) :
    Agrees m (.write p) (f.step srv sc (.write p)).1 ∧
      Sim (m.step (.write p)).2 (f.step srv sc (.write p)).2.1 (f.step srv sc (.write p)).2.2 := by
  obtain ⟨f', srv', hdo, hre, hheld, hbound, hcontent⟩ := File.doFork_write h.held (io_cases hok)
  have hlo := h.cursor_nonneg
  have hhi := h.cursor_le
  have hlen := h.length_le
  rw [h.cursor, wireOffset_of_nonneg hlo hhi] at hbound hcontent
  have hle : m.cursor + p.length ≤ maxForkLen := by
    by_cases hp : p = []
    · simpa [hp] using hhi
    · have := hbound hp
      omega
  have hcursor : wrap64 (f'.cursor + p.length) = m.cursor + p.length := by
    rw [hre.cursor, h.cursor, wrap64_of_nonneg (by omega) hle]
  have hstep : f.step srv sc (.write p) = (⟨[], p.length, none⟩,
      { f' with
        cursor := m.cursor + p.length
        size := if m.cursor + p.length > f'.size then m.cursor + p.length else f'.size },
        srv') := by
    simp only [File.step, hdo, hcursor]
    rfl
  rw [h.content] at hcontent
  rw [hstep]
  refine ⟨⟨rfl, rfl⟩, rfl, hcontent, hheld, ?_, hle, ?_⟩
  · change 0 ≤ m.cursor + p.length
    omega
  · change (overlay 0 m.content m.cursor.toNat p).length ≤ maxForkLen
    rw [length_overlay]
    split_ifs with hp
    · exact hlen
    · have := hbound hp
      omega

theorem truncateLen_of_nonneg {size : Int} (h : 0 ≤ size) (hs : size < 2 ^ 63) :
    File.truncateLen size = size.toNat := by
  rw [File.truncateLen]
  split_ifs <;> omega

theorem truncate_cases {f : File} {srv : ForkServer} {sc : Script} {size : Int}
    (hok : (f.step srv sc (.truncate size)).1.err = none ∨
      (f.step srv sc (.truncate size)).1.err = some (.io .eof)) :
    (File.doFork (File.truncateBody size) sc ((), f, srv)).1 = none ∨
      (File.doFork (File.truncateBody size) sc ((), f, srv)).1 = some .eof := by
  rcases hdo : File.doFork (File.truncateBody size) sc ((), f, srv) with ⟨err, v, f', srv'⟩
  cases err with
  | none => exact Or.inl rfl
  | some e =>
    simp only [File.step, hdo] at hok
    rcases hok with hok | hok
    · cases hok
    · exact Or.inr (congrArg some (mapErr_eq_eof (Option.some.inj hok)))

theorem step_truncate {m : MemFile} {f : File} {srv : ForkServer} (h : Sim m f srv) {sc : Script}
    {size : Int} (hsize : 0 ≤ size) (hlt : size < 2 ^ 63)
    (hok : (f.step srv sc (.truncate size)).1.err = none ∨
      (f.step srv sc (.truncate size)).1.err = some (.io .eof)) :
    Agrees m (.truncate size) (f.step srv sc (.truncate size)).1 ∧
      Sim (m.step (.truncate size)).2 (f.step srv sc (.truncate size)).2.1
        (f.step srv sc (.truncate size)).2.2 := by
  obtain ⟨f', srv', hdo, hre, hheld, hcontent⟩ := File.doFork_truncate h.held (truncate_cases hok)
  have hstep : f.step srv sc (.truncate size) =
      (⟨[], 0, none⟩, { f' with size := size }, srv') := by
    simp only [File.step, hdo]
  rw [truncateLen_of_nonneg hsize hlt, h.content] at hcontent
  rw [hstep]
  refine ⟨⟨rfl, rfl⟩, hre.cursor.trans h.cursor, hcontent, hheld, h.cursor_nonneg, h.cursor_le, ?_⟩
  change (setLength 0 m.content size.toNat).length ≤ maxForkLen
  rw [length_setLength, maxForkLen]
  omega

theorem wrap64_nonneg {x y : Int} (hx : 0 ≤ x) (hle : x ≤ maxForkLen) (hy : IsInt64 y)
    (h : 0 ≤ wrap64 (x + y)) :
    wrap64 (x + y) = x + y ∧ x + y ≤ maxForkLen := by
  obtain ⟨hlo, hhi⟩ := hy
  simp only [wrap64, maxForkLen, Int.bmod] at *
  omega

theorem step_seek {m : MemFile} {f : File} {srv : ForkServer} (h : Sim m f srv) (sc : Script)
    {offset : Int} {whence : Whence} (hop : FileOp.Allowed m (.seek offset whence)) :
    Agrees m (.seek offset whence) (f.step srv sc (.seek offset whence)).1 ∧
      Sim (m.step (.seek offset whence)).2 (f.step srv sc (.seek offset whence)).2.1
        (f.step srv sc (.seek offset whence)).2.2 := by
  cases whence with
  | start =>
    obtain ⟨⟨-, hhi⟩, hlo⟩ := hop
    refine ⟨⟨rfl, rfl⟩, rfl, h.content, h.held, hlo, ?_, h.length_le⟩
    change offset ≤ (maxForkLen : Nat)
    rw [maxForkLen]
    omega
  | current =>
    obtain ⟨hint, hres⟩ := hop
    obtain ⟨hwrap, hle⟩ := wrap64_nonneg h.cursor_nonneg h.cursor_le hint hres
    have hcursor : wrap64 (f.cursor + offset) = m.cursor + offset := by rw [h.cursor, hwrap]
    rw [hwrap] at hres
    refine ⟨⟨?_, rfl⟩, hcursor, h.content, h.held, hres, hle, h.length_le⟩
    simp only [File.step, MemFile.step, hcursor]
  | fromEnd => exact absurd hop id

theorem step_sim {m : MemFile} {f : File} {srv : ForkServer} (h : Sim m f srv) (sc : Script)
    {op : FileOp} (hop : op.Allowed m)
    (hok : (f.step srv sc op).1.err = none ∨ (f.step srv sc op).1.err = some (.io .eof)) :
    Agrees m op (f.step srv sc op).1 ∧
      Sim (m.step op).2 (f.step srv sc op).2.1 (f.step srv sc op).2.2 := by
  cases op with
  | read p => exact step_read h hok
  | readAt p off =>
    obtain ⟨⟨-, hhi⟩, hlo⟩ := hop
    exact step_readAt h hlo (by rw [maxForkLen]; omega) hok
  | write p => exact step_write h hok
  | seek offset whence => exact step_seek h sc hop
  | truncate size => exact step_truncate h hop.2 hop.1.2 hok

theorem map_io {err : Option IoErr} (h : err = none ∨ err = some .eof) :
    err.map OsErr.io = none ∨ err.map OsErr.io = some (.io .eof) := by
  rcases h with rfl | rfl
  · exact Or.inl rfl
  · exact Or.inr rfl

theorem step_ok {m : MemFile} {f : File} {srv : ForkServer} (h : Sim m f srv) {sc : Script}
    (hsc : sc.Recovers) {op : FileOp} (hfits : op.Fits m) :
    (f.step srv sc op).1.err = none ∨ (f.step srv sc op).1.err = some (.io .eof) := by
  cases op with
  | read p => exact map_io (File.doFork_read_answered h.held hsc p f.cursor)
  | readAt p off => exact map_io (File.doFork_read_answered h.held hsc p off)
  | write p =>
    refine map_io (File.doFork_write_answered h.held hsc ?_)
    have hfits : m.cursor + p.length ≤ maxForkLen := hfits
    have hlo := h.cursor_nonneg
    rw [h.cursor, wireOffset_of_nonneg hlo h.cursor_le]
    omega
  | seek offset whence => exact Or.inl rfl
  | truncate size =>
    have hdo := File.doFork_truncate_answered h.held hsc size
    rcases hrun : File.doFork (File.truncateBody size) sc ((), f, srv) with ⟨err, v, f', srv'⟩
    rw [hrun] at hdo
    simp only [File.step, hrun]
    rcases hdo with rfl | rfl
    · exact Or.inl rfl
    · exact Or.inr rfl

theorem run_ok {m : MemFile} {f : File} {srv : ForkServer} (h : Sim m f srv)
    (calls : List (FileOp × Script)) (hops : m.Along FileOp.Allowed (calls.map Prod.fst))
    (hnet : ∀ c ∈ calls, c.2.Recovers) (hfits : m.Along FileOp.Fits (calls.map Prod.fst)) :
    ∀ r ∈ (f.run srv calls).1, r.err = none ∨ r.err = some (.io .eof) := by
  induction calls generalizing m f srv with
  | nil =>
    intro r hr
    cases hr
  | cons call calls ih =>
    obtain ⟨op, sc⟩ := call
    have hok := step_ok h (hnet _ List.mem_cons_self) hfits.1
    obtain ⟨-, hsim⟩ := step_sim h sc hops.1 hok
    intro r hr
    rcases List.mem_cons.mp hr with rfl | hr
    · exact hok
    · exact ih hsim hops.2 (fun c hc => hnet c (List.mem_cons_of_mem _ hc)) hfits.2 r hr

theorem run_sim {m : MemFile} {f : File} {srv : ForkServer} (h : Sim m f srv)
    (calls : List (FileOp × Script)) (hops : m.Along FileOp.Allowed (calls.map Prod.fst))
    (hok : ∀ r ∈ (f.run srv calls).1, r.err = none ∨ r.err = some (.io .eof)) :
    AllAgree m (calls.map Prod.fst) (f.run srv calls).1 ∧
      Sim (m.run (calls.map Prod.fst)) (f.run srv calls).2.1 (f.run srv calls).2.2 := by
  induction calls generalizing m f srv with
  | nil => exact ⟨rfl, h⟩
  | cons call calls ih =>
    obtain ⟨op, sc⟩ := call
    obtain ⟨hop, hops⟩ := hops
    obtain ⟨hagree, hsim⟩ := step_sim h sc hop (hok _ List.mem_cons_self)
    obtain ⟨hrest, hend⟩ := ih hsim hops fun r hr => hok r (List.mem_cons_of_mem _ hr)
    exact ⟨⟨_, _, rfl, hagree, hrest⟩, hend⟩

/-- If the link recovers from every death and the file does not outgrow the
server, every call succeeds; and calls that succeed, at their first run or
after a reconnect, do and return what they would on a file in memory. -/
theorem file_refines_memory (f : File) (srv : ForkServer) (hheld : f.Held srv) (hlo : 0 ≤ f.cursor)
    (hhi : f.cursor ≤ maxForkLen) (hlen : srv.content.length ≤ maxForkLen)
    (calls : List (FileOp × Script))
    (hops : MemFile.Along FileOp.Allowed ⟨srv.content, f.cursor⟩ (calls.map Prod.fst)) :
    ((∀ c ∈ calls, c.2.Recovers) →
      MemFile.Along FileOp.Fits ⟨srv.content, f.cursor⟩ (calls.map Prod.fst) →
      ∀ r ∈ (f.run srv calls).1, r.err = none ∨ r.err = some (.io .eof)) ∧
    ((∀ r ∈ (f.run srv calls).1, r.err = none ∨ r.err = some (.io .eof)) →
      AllAgree ⟨srv.content, f.cursor⟩ (calls.map Prod.fst) (f.run srv calls).1 ∧
      (f.run srv calls).2.1.cursor =
      (MemFile.run ⟨srv.content, f.cursor⟩ (calls.map Prod.fst)).cursor ∧
      (f.run srv calls).2.2.content =
      (MemFile.run ⟨srv.content, f.cursor⟩ (calls.map Prod.fst)).content) := by
  have hsim : Sim ⟨srv.content, f.cursor⟩ f srv := ⟨rfl, rfl, hheld, hlo, hhi, hlen⟩
  refine ⟨run_ok hsim calls hops, fun hok => ?_⟩
  obtain ⟨hagree, hend⟩ := run_sim hsim calls hops hok
  exact ⟨hagree, hend.cursor, hend.content⟩

def uniform (vol : Nat) (fate : Fate) : Attempt :=
  ⟨vol, 0, fate, fun _ => fate, inOrder, fun _ _ => false⟩

def cutCalls : List (FileOp × Script) :=
  [(.write [7, 8], ⟨uniform 1 .answered, uniform 2 .answered, true⟩),
    (.write [9], ⟨uniform 1 .applied, uniform 2 .answered, false⟩),
    (.seek 1 .start, ⟨uniform 2 .answered, uniform 3 .answered, true⟩),
    (.read [0, 0, 0, 0], ⟨uniform 2 .lost, uniform 3 .answered, false⟩)]

theorem file_refines_memory_cutCalls :
    (∀ r ∈ (File.run {} ⟨[1, 2, 3, 4], []⟩ cutCalls).1, r.err = none ∨ r.err = some (.io .eof)) ∧
      (File.run {} ⟨[1, 2, 3, 4], []⟩ cutCalls).2.2.content = [7, 8, 9, 4] ∧
      AllAgree ⟨[1, 2, 3, 4], 0⟩ (cutCalls.map Prod.fst)
        (File.run {} ⟨[1, 2, 3, 4], []⟩ cutCalls).1 := by
  have hops : MemFile.Along FileOp.Allowed ⟨[1, 2, 3, 4], 0⟩ (cutCalls.map Prod.fst) :=
    ⟨trivial, trivial, ⟨⟨by decide, by decide⟩, by decide⟩, trivial, trivial⟩
  have hfirst : (0 : Int) + (2 : Nat) ≤ maxForkLen := by decide
  have hsecond : (0 : Int) + (2 : Nat) + (1 : Nat) ≤ maxForkLen := by decide
  have hfits : MemFile.Along FileOp.Fits ⟨[1, 2, 3, 4], 0⟩ (cutCalls.map Prod.fst) :=
    ⟨hfirst, hsecond, trivial, trivial, trivial⟩
  have hnet : ∀ c ∈ cutCalls, c.2.Recovers := by
    intro c hc
    simp only [cutCalls, List.mem_cons, List.not_mem_nil, or_false] at hc
    rcases hc with rfl | rfl | rfl | rfl <;>
      exact ⟨by simp [uniform, Attempt.Answered], rfl, fun _ => rfl⟩
  obtain ⟨hok, hagree⟩ :=
    file_refines_memory {} ⟨[1, 2, 3, 4], []⟩ (fun o ho => by cases ho) (by decide) (by decide)
    (by decide) cutCalls hops
  exact ⟨hok hnet hfits, (hagree (hok hnet hfits)).2.2, (hagree (hok hnet hfits)).1⟩

end GoAfp
