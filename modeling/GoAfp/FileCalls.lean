import GoAfp.OpenedFile

/-! The calls of an open file in any order: when the size that the file keeps is
the length of the fork, and when its cursor, and with it the offsets that it
sends, is a position in the file. -/

namespace GoAfp

/-- A call has got `n` bytes at `off` across, and the fork is of a length that
a server can hold. -/
def Across (off n : Nat) (D : Bytes) : Prop :=
  (n = 0 ∨ off + n ≤ maxForkLen) ∧ D.length ≤ maxForkLen

namespace File

theorem readBody_across (off : Int) :
    Keeps (readBody off) fun v D => Across (wireOffset off) v.2 D := by
  rintro o a v srv hv ⟨-, hlen⟩
  obtain ⟨hsrv, hcases⟩ := readBody_valid off hv v
  rw [hsrv]
  refine ⟨⟨?_, hlen⟩, rfl⟩
  rcases hcases with ⟨e, -, hnone⟩ | hok
  · rw [hnone]
    exact Or.inl rfl
  · have hcount := hok.count
    simp only at hcount
    omega

theorem writeAt_across {srv : ForkServer} {a : Attempt} {o : OpenFork} (p : Bytes) (off : Nat) :
    (o.fork.writeAt (writeRun srv a o p off) p).1 = 0 ∨
      off + (o.fork.writeAt (writeRun srv a o p off) p).1 ≤ maxForkLen := by
  rw [Fork.writeAt]
  split_ifs
  · exact Or.inl rfl
  · refine chunks_sum_le fun c _ => ?_
    cases hr : (writeRun srv a o p off).reply c with
    | error e => exact Or.inl rfl
    | ok code =>
      by_cases hcode : code = resNoErr
      · subst hcode
        have hacc := (writeRun_reply hr).1
        simp only [accepts, Bool.and_eq_true, decide_eq_true_eq] at hacc
        exact Or.inr ⟨rfl, hacc.2⟩
      · left
        simp only [writeChunk, resultErr, if_neg hcode]
        rfl

theorem writeBody_across (p : Bytes) (off : Int) :
    Keeps (writeBody p off) fun n D => Across (wireOffset off) n D := by
  rintro o a n srv - ⟨-, hlen⟩
  refine ⟨⟨writeAt_across p (wireOffset off), ?_⟩, rfl⟩
  refine overlayAll_length_le hlen fun c hc => ?_
  have hacc := (List.mem_filter.mp hc).2
  simp only [accepts, Bool.and_eq_true, decide_eq_true_eq] at hacc
  exact hacc.1.2

theorem truncateLen_le {size : Int} (h : IsInt64 size) : truncateLen size ≤ maxForkLen := by
  obtain ⟨hlo, hhi⟩ := h
  rw [truncateLen, maxForkLen]
  split_ifs <;> omega

theorem truncateBody_across {size : Int} (h : IsInt64 size) :
    Keeps (truncateBody size) fun _ D => D.length ≤ maxForkLen := by
  intro o a v srv hv hlen
  simp only [truncateBody, hv, true_and]
  split_ifs
  · refine ⟨?_, rfl⟩
    rw [length_setLength]
    exact truncateLen_le h
  · exact ⟨hlen, rfl⟩

theorem doFork_between {α : Type}
    {body : OpenFork → Attempt → α × ForkServer → Option IoErr × α × ForkServer}
    {P : α → Bytes → Prop} {f : File} {s : α × File × ForkServer} (hk : Keeps body P)
    (hs : Between P f s) (sc : Script) :
    Between P f (doFork body sc s).2 := by
  rcases doRetry_eq (withFork body sc.first) (withFork body sc.second) sc.alive s with h | h
  · rw [doFork, h]
    exact withFork_between hk hs sc.first
  · rw [doFork, h]
    exact withFork_between hk (withFork_between hk hs sc.first) sc.second

end File

inductive FileCall
  | read (p : Bytes)
  | write (p : Bytes)
  | seek (offset whence : Int)
  | truncate (size : Int)

/-- The arguments are values of the source's types. -/
def FileCall.Typed : FileCall → Prop
  | .read p => p.length < 2 ^ 63
  | .write p => p.length < 2 ^ 63
  | .seek offset _ => IsInt64 offset
  | .truncate size => IsInt64 size

def seekStart : Int := 0
def seekCurrent : Int := 1
def seekEnd : Int := 2

def whenceOf (whence : Int) : Option Whence :=
  if whence = seekStart then some .start
  else if whence = seekCurrent then some .current
  else if whence = seekEnd then some .fromEnd
  else none

def File.call (f : File) (srv : ForkServer) (sc : Script) : FileCall → OpResult × File × ForkServer
  | .read p => f.step srv sc (.read p)
  | .write p => f.step srv sc (.write p)
  | .seek offset whence =>
    match whenceOf whence with
    | some w => f.step srv sc (.seek offset w)
    -- no case of the switch: the cursor stays
    | none => (⟨[], f.cursor, none⟩, f, srv)
  | .truncate size => f.step srv sc (.truncate size)

/-- The calls of a file that has the fork to itself. A request that the server
refuses leaves it as one that is lost does. -/
def fileCalls (f : File) (srv : ForkServer) : System (File × ForkServer) (FileCall × Script) where
  init := (f, srv)
  step := fun s c => some (s.1.call s.2 c.2 c.1).2

structure InRange (s : File × ForkServer) : Prop where
  held : s.1.Held s.2
  cursor_nonneg : 0 ≤ s.1.cursor
  cursor_le : s.1.cursor ≤ maxForkLen
  length_le : s.2.content.length ≤ maxForkLen

/-- The position that a `Seek` asks for. -/
def seekPosition (cursor size offset whence : Int) : Int :=
  if whence = seekStart then offset
  else if whence = seekCurrent then wrap64 (cursor + offset)
  else if whence = seekEnd then wrap64 (size + offset)
  else cursor

/-- No `Seek` asks for a negative position. -/
def SeeksForward (s : File × ForkServer) (c : FileCall × Script) : Prop :=
  ∀ offset whence, c.1 = .seek offset whence → 0 ≤ seekPosition s.1.cursor s.1.size offset whence

section Range

variable {s : File × ForkServer} {sc : Script}

theorem wrap64_le (x : Int) : wrap64 x ≤ maxForkLen := by
  simp only [wrap64, maxForkLen, Int.bmod]
  omega

theorem call_seek (s : File × ForkServer) (sc : Script) (offset whence : Int) :
    s.1.call s.2 sc (.seek offset whence) =
      (⟨[], seekPosition s.1.cursor s.1.size offset whence, none⟩,
        { s.1 with cursor := seekPosition s.1.cursor s.1.size offset whence }, s.2) := by
  rw [File.call, whenceOf, seekPosition]
  split_ifs <;> rfl

theorem seekPosition_le (h : InRange s) {offset : Int} (hoff : IsInt64 offset) (whence : Int) :
    seekPosition s.1.cursor s.1.size offset whence ≤ maxForkLen := by
  rw [seekPosition]
  split_ifs
  · have hlt := hoff.2
    rw [maxForkLen]
    omega
  · exact wrap64_le _
  · exact wrap64_le _
  · exact h.cursor_le

/-- The cursor moves by the bytes that got across. -/
theorem InRange.move (h : InRange s) {f : File} {srv : ForkServer} {n : Nat} (hre : s.1.Reopened f)
    (hheld : f.Held srv) (hacross : Across (wireOffset s.1.cursor) n srv.content) (size : Int) :
    InRange ({ f with cursor := wrap64 (f.cursor + n), size := size }, srv) := by
  have hlo := h.cursor_nonneg
  have hhi := h.cursor_le
  obtain ⟨hn, hlen⟩ := hacross
  rw [wireOffset_of_nonneg hlo hhi] at hn
  have hsum : s.1.cursor + n ≤ maxForkLen := by omega
  have hcursor : wrap64 (f.cursor + n) = s.1.cursor + n := by
    rw [hre.cursor, wrap64_of_nonneg (by omega) hsum]
  refine ⟨hheld, ?_, ?_, hlen⟩
  · change 0 ≤ wrap64 (f.cursor + n)
    omega
  · change wrap64 (f.cursor + n) ≤ maxForkLen
    omega

theorem call_inRange (h : InRange s) {call : FileCall} (htyped : call.Typed)
    (hseek : SeeksForward s (call, sc)) :
    InRange (s.1.call s.2 sc call).2 := by
  have hstart : Across (wireOffset s.1.cursor) 0 s.2.content := ⟨Or.inl rfl, h.length_le⟩
  cases call with
  | read p =>
    have hb :=
      File.doFork_between (File.readBody_across s.1.cursor) (f := s.1) (s := ((p, 0), s.1, s.2))
      ⟨⟨rfl, rfl⟩, h.held, hstart⟩ sc
    rcases hdo : File.doFork (File.readBody s.1.cursor) sc ((p, 0), s.1, s.2)
        with ⟨err, ⟨buf, n⟩, f, srv⟩
    rw [hdo] at hb
    simp only [File.call, File.step, hdo]
    exact h.move hb.reopened hb.held hb.prop f.size
  | write p =>
    have hb :=
      File.doFork_between (File.writeBody_across p s.1.cursor) (f := s.1) (s := (0, s.1, s.2))
      ⟨⟨rfl, rfl⟩, h.held, hstart⟩ sc
    rcases hdo : File.doFork (File.writeBody p s.1.cursor) sc (0, s.1, s.2) with ⟨err, n, f, srv⟩
    rw [hdo] at hb
    simp only [File.call, File.step, hdo]
    exact h.move hb.reopened hb.held hb.prop _
  | seek offset whence =>
    rw [call_seek]
    exact ⟨h.held, hseek offset whence rfl, seekPosition_le h htyped whence, h.length_le⟩
  | truncate size =>
    have hb :=
      File.doFork_between (File.truncateBody_across htyped) (f := s.1) (s := ((), s.1, s.2))
      ⟨⟨rfl, rfl⟩, h.held, h.length_le⟩ sc
    rcases hdo : File.doFork (File.truncateBody size) sc ((), s.1, s.2) with ⟨err, v, f, srv⟩
    rw [hdo] at hb
    have hcursor : f.cursor = s.1.cursor := hb.reopened.cursor
    have hrange : ∀ size, InRange ({ f with size := size }, srv) := fun size =>
      ⟨hb.held, hcursor ▸ h.cursor_nonneg, hcursor ▸ h.cursor_le, hb.prop⟩
    cases err with
    | none =>
      simp only [File.call, File.step, hdo]
      exact hrange size
    | some e =>
      simp only [File.call, File.step, hdo]
      exact hrange f.size

end Range

/-- The requests that a call sends on the fork `o`, each with the place in the
caller's buffer that it is for. -/
def File.requests (f : File) (o : OpenFork) : FileCall → List (Nat × Bytes)
  | .read p => (chunks o.fork.chunkSize p.length).map fun c =>
    (c.1, (chunkRange (wireOffset f.cursor) c).block (UInt16.ofNat o.id))
  | .write p =>
    (o.fork.pieces p).map fun c =>
      (c.1, pieceRequestBytes (UInt16.ofNat o.id) p (wireOffset f.cursor) c)
  | _ => []

/-- The offset that a server finds in a request to read or write. -/
def Site.sentOffset (site : Site) (block : Bytes) : Option Nat :=
  match site.decode block with
  | .ok (.readExt _ off _) => some off
  | .ok (.vol (.writeExt _ off _)) => some off
  | _ => none

theorem Site.sentOffset_readExt {site : Site} {block : Bytes} {id off count : Nat}
    (h : site.decode block = .ok (.readExt id off count)) : site.sentOffset block = some off := by
  rw [sentOffset, h]

theorem Site.sentOffset_writeExt {site : Site} {block data : Bytes} {id off : Nat}
    (h : site.decode block = .ok (.vol (.writeExt id off data))) :
    site.sentOffset block = some off := by
  rw [sentOffset, h]

/-- The cursor is a position, and every request sent is for the position that
its part of the buffer belongs to. -/
structure OnPosition (s : File × ForkServer) : Prop where
  cursor_nonneg : 0 ≤ s.1.cursor
  offsets : ∀ (site : Site) (o : OpenFork) (call : FileCall), call.Typed →
    ∀ q ∈ s.1.requests o call, ∃ off : Nat, site.sentOffset q.2 = some off ∧
      (off : Int) = s.1.cursor + q.1

theorem InRange.wireOffset_add {s : File × ForkServer} (h : InRange s) {x : Nat} (hx : x < 2 ^ 63) :
    wireOffset s.1.cursor + x < 2 ^ 64 ∧
      ((wireOffset s.1.cursor + x : Nat) : Int) = s.1.cursor + x := by
  have hlo := h.cursor_nonneg
  have hhi := h.cursor_le
  rw [wireOffset_of_nonneg hlo hhi]
  rw [maxForkLen] at hhi
  omega

theorem InRange.onPosition {s : File × ForkServer} (h : InRange s) : OnPosition s := by
  refine ⟨h.cursor_nonneg, fun site o call htyped q hq => ?_⟩
  cases call with
  | read p =>
    obtain ⟨c, hc, rfl⟩ := List.mem_map.mp hq
    have hend := chunks_end_le hc
    have hlen : p.length < 2 ^ 63 := htyped
    obtain ⟨hoff, hpos⟩ := h.wireOffset_add (x := c.1) (by omega)
    have hcount : c.2 < 2 ^ 64 := by omega
    exact ⟨_, Site.sentOffset_readExt (decode_readChunkBlock _ hoff hcount), hpos⟩
  | write p =>
    obtain ⟨c, hc, rfl⟩ := List.mem_map.mp hq
    have hend := chunks_end_le hc
    have hlen : p.length < 2 ^ 63 := htyped
    obtain ⟨hoff, hpos⟩ := h.wireOffset_add (x := c.1) (by omega)
    have hdata : (part (wireOffset s.1.cursor) p c).2.length < 2 ^ 64 := by
      rw [part_length hend]
      omega
    exact ⟨_, Site.sentOffset_writeExt (decode_writeRequest _ hoff hdata), hpos⟩
  | seek offset whence => cases hq
  | truncate size => cases hq

/-- The size that the file keeps is the length of the fork, and `Seek` counts
from the fork's end. -/
structure Tracks (s : File × ForkServer) : Prop where
  size : s.1.size = s.2.content.length
  fromEnd : ∀ sc k, IsInt64 k → 0 ≤ (s.1.call s.2 sc (.seek k seekEnd)).1.n →
    (s.1.call s.2 sc (.seek k seekEnd)).1.n = s.2.content.length + k

/-- A call that succeeds, and neither seeks before the start nor sets a negative
size. -/
structure Succeeds (s : File × ForkServer) (c : FileCall × Script) : Prop where
  typed : c.1.Typed
  forward : SeeksForward s c
  size_nonneg : ∀ size, c.1 = .truncate size → 0 ≤ size
  ok : (s.1.call s.2 c.2 c.1).1.err = none ∨ (s.1.call s.2 c.2 c.1).1.err = some (.io .eof)

/-- A `Write` of no bytes is not past the end of the fork. -/
def EmptyWriteInside (s : File × ForkServer) (c : FileCall × Script) : Prop :=
  c.1 = .write [] → s.1.cursor ≤ s.2.content.length

structure Sized (s : File × ForkServer) : Prop extends InRange s where
  size : s.1.size = s.2.content.length

section Size

variable {s : File × ForkServer} {sc : Script}

theorem Sized.tracks (h : Sized s) : Tracks s := by
  refine ⟨h.size, fun sc k hk hn => ?_⟩
  have hlo : 0 ≤ s.1.size := by
    rw [h.size]
    exact Int.natCast_nonneg _
  have hle : s.1.size ≤ maxForkLen := by
    rw [h.size]
    exact Int.ofNat_le.mpr h.length_le
  have hwrap := (wrap64_nonneg hlo hle hk hn).1
  rw [← h.size]
  exact hwrap

/-- A write raises the size to where it ends, the empty one too, and the length
only if there are bytes to write. -/
theorem call_write_size (h : InRange s) {p : Bytes}
    (hok : (s.1.call s.2 sc (.write p)).1.err = none ∨
      (s.1.call s.2 sc (.write p)).1.err = some (.io .eof)) :
    (s.1.call s.2 sc (.write p)).2.1.size = max s.1.size (s.1.cursor + p.length) ∧
      (s.1.call s.2 sc (.write p)).2.2.content.length =
        if p = [] then s.2.content.length
          else max s.2.content.length (s.1.cursor.toNat + p.length) := by
  have hlo := h.cursor_nonneg
  have hhi := h.cursor_le
  obtain ⟨f, srv, hdo, hre, -, hbound, hcontent⟩ := File.doFork_write h.held (io_cases hok)
  rw [wireOffset_of_nonneg hlo hhi] at hbound hcontent
  have hle : s.1.cursor + p.length ≤ maxForkLen := by
    by_cases hp : p = []
    · simpa [hp] using hhi
    · have := hbound hp
      omega
  have hcursor : wrap64 (f.cursor + p.length) = s.1.cursor + p.length := by
    rw [hre.cursor, wrap64_of_nonneg (by omega) hle]
  simp only [File.call, File.step, hdo, hcursor, hre.size, hcontent, length_overlay, and_true]
  split_ifs <;> omega

theorem call_size (h : Sized s) {call : FileCall} (hgood : Succeeds s (call, sc))
    (hok : EmptyWriteInside s (call, sc)) :
    (s.1.call s.2 sc call).2.1.size = (s.1.call s.2 sc call).2.2.content.length := by
  have hsize := h.size
  cases call with
  | read p =>
    obtain ⟨buf₀, buf, n, err, f, srv, hdo, hre, -, hcontent, -, -⟩ :=
      File.doFork_read h.held (io_cases hgood.ok)
    simp only [File.call, File.step, hdo, hre.size, hcontent, hsize]
  | write p =>
    obtain ⟨hnew, hlen⟩ := call_write_size h.toInRange hgood.ok
    have hlo := h.cursor_nonneg
    rw [hnew, hlen, hsize]
    split_ifs with hp
    · have hin : s.1.cursor ≤ s.2.content.length := hok (congrArg _ hp)
      rw [hp, List.length_nil]
      omega
    · omega
  | seek offset whence =>
    rw [call_seek]
    exact hsize
  | truncate size =>
    have hnonneg := hgood.size_nonneg size rfl
    obtain ⟨f, srv, hdo, -, -, hcontent⟩ := File.doFork_truncate h.held (truncate_cases hgood.ok)
    simp only [File.call, File.step, hdo, hcontent, length_setLength,
      truncateLen_of_nonneg hnonneg hgood.typed.2]
    omega

end Size

/-- A file that `OpenFile` has handed out, and the server as the file sees it. -/
def FS.Opened (fs : FS) (f : File) (srv : ForkServer) : Prop :=
  ∃ (net : HostNet) (v : AfpVolume) (filename : Bytes) (flag : OpenFlags) (s s' : VolServer),
    net.Reaches v ∧ fs.openFileOn net v filename flag s = (.ok f, s') ∧
      srv = s'.forkServer (sentPath v.nfd (fs.resolve filename)) f ∧ srv.content.length ≤ maxForkLen

section Opened

variable {fs : FS} {f : File} {srv : ForkServer}

theorem FS.Opened.inRange (h : fs.Opened f srv) :
    InRange (f, srv) ∧ f.size = srv.content.length := by
  obtain ⟨net, v, filename, flag, s, s', hnet, hopen, rfl, hlen⟩ := h
  obtain ⟨hheld, hsize, hcursor⟩ := fs.openFileOn_held hnet hopen hlen
  refine ⟨⟨hheld, ?_, ?_, hlen⟩, hsize⟩
  · change 0 ≤ f.cursor
    omega
  · change f.cursor ≤ maxForkLen
    omega

/-- Along any calls of an opened file, those that fail included, the cursor and
the offsets sent are positions in the file exactly if no `Seek` goes before its
start. -/
theorem cursor_onPosition_iff (hopened : fs.Opened f srv) {calls : List (FileCall × Script)}
    (htyped : ∀ c ∈ calls, c.1.Typed) :
    (fileCalls f srv).Holds OnPosition (f, srv) calls ↔
      (fileCalls f srv).Admits SeeksForward (f, srv) calls := by
  have hgood : (fileCalls f srv).Admits (fun _ c => c.1.Typed) (f, srv) calls :=
    System.admits_of_forall fun c hc _ => htyped c hc
  refine System.holds_iff_admits (fun s (h : InRange s) => h.onPosition)
    (fun s c h hc => ?_) hopened.inRange.1 hgood
  refine ⟨_, rfl, fun hok => call_inRange h hc hok, fun hpos offset whence heq => ?_⟩
  have hcursor := hpos.cursor_nonneg
  rw [heq, call_seek] at hcursor
  exact hcursor

end Opened

def openedA : File :=
  { fork := some ⟨defaultFork plainVolume.quantum, plainVolume.gen, 0, 0⟩,
    forkVol := some plainVolume.gen }

def serverA : ForkServer := ⟨[], [plainVolume.gen]⟩

theorem openFileOn_a :
    (FS.mk []).openFileOn (.refusing []) plainVolume (ascii "a") { rdwr := true } fileServer =
    (.ok openedA, { fileServer with forks := [(0, ⟨[ascii "a"], true⟩)], nextFork := 1 }) := by
  have hsize : wrap64 (0 : Nat) = 0 := by decide
  have hrun : (FS.mk []).openFileOn (.refusing []) plainVolume (ascii "a")
      { rdwr := true } fileServer = (.ok { openedA with size := wrap64 (0 : Nat) },
        { fileServer with forks := [(0, ⟨[ascii "a"], true⟩)], nextFork := 1 }) := rfl
  rw [hrun, hsize]
  rfl

theorem openedA_opened : (FS.mk []).Opened openedA serverA := by
  refine ⟨_, _, _, _, _, _, ⟨rfl, rfl, rfl, rfl, ?_⟩, openFileOn_a, rfl, ?_⟩
  · decide
  · decide

def steady : Script := ⟨uniform plainVolume.gen .answered, uniform 2 .answered, true⟩

theorem cursor_onPosition_iff_write :
    (fileCalls openedA serverA).Holds OnPosition (openedA, serverA)
      [(.seek 3 seekStart, steady), (.write [7], steady)] := by
  refine (cursor_onPosition_iff openedA_opened ?_).mpr ⟨?_, ?_, trivial⟩
  · intro c hc
    simp only [List.mem_cons, List.not_mem_nil, or_false] at hc
    rcases hc with rfl | rfl
    · exact ⟨by decide, by decide⟩
    · change 1 < 2 ^ 63
      decide
  · intro offset whence heq
    cases heq
    decide
  · intro offset whence heq
    cases heq

/-- `Seek` goes to -1 without an error, and a read there asks for the bytes at
the largest offset there is. -/
theorem seek_beforeStart : (FS.mk []).Opened openedA serverA ∧
    openedA.call serverA steady (.seek (-1) seekStart) =
      (⟨[], -1, none⟩, { openedA with cursor := -1 }, serverA) ∧
      (({ openedA with cursor := -1 } : File).requests ⟨defaultFork 0, 1, 0, 0⟩ (.read [0])).map
        (fun q => plainSite.sentOffset q.2) = [some (2 ^ 64 - 1)] := by
  refine ⟨openedA_opened, rfl, ?_⟩
  decide

section Opened

variable {fs : FS} {f : File} {srv : ForkServer}

/-- Along calls of an opened file that all succeed, the size that the file keeps
is the length of its fork exactly if no `Write` of no bytes is made past the
end. -/
theorem size_tracks_iff (hopened : fs.Opened f srv) {calls : List (FileCall × Script)}
    (hok : (fileCalls f srv).Admits Succeeds (f, srv) calls) :
    (fileCalls f srv).Holds Tracks (f, srv) calls ↔
      (fileCalls f srv).Admits EmptyWriteInside (f, srv) calls := by
  obtain ⟨hrange, hsize⟩ := hopened.inRange
  refine System.holds_iff_admits (fun s (h : Sized s) => h.tracks) (fun s c h hc => ?_)
    ⟨hrange, hsize⟩ hok
  refine ⟨_, rfl, fun hin => ⟨call_inRange h.toInRange hc.typed hc.forward, call_size h hc hin⟩,
    fun htracks heq => ?_⟩
  obtain ⟨call, sc⟩ := c
  simp only at heq
  subst heq
  have hnew := htracks.size
  obtain ⟨hmax, hlen⟩ := call_write_size h.toInRange hc.ok
  rw [hmax, hlen, if_pos rfl, h.size, List.length_nil] at hnew
  omega

end Opened

theorem Succeeds.write {s : File × ForkServer} {sc : Script} {p : Bytes} (hp : p.length < 2 ^ 63)
    (hok : (s.1.call s.2 sc (.write p)).1.err = none ∨
      (s.1.call s.2 sc (.write p)).1.err = some (.io .eof)) :
    Succeeds s (.write p, sc) where
  typed := hp
  forward := fun _ _ heq => by cases heq
  size_nonneg := fun _ heq => by cases heq
  ok := hok

theorem size_tracks_iff_write :
    (fileCalls openedA serverA).Holds Tracks (openedA, serverA)
      [(.write [7], steady), (.write [], steady)] := by
  have hok : (fileCalls openedA serverA).Admits Succeeds (openedA, serverA)
      [(.write [7], steady), (.write [], steady)] :=
    ⟨.write (by decide) (Or.inl rfl), .write (by decide) (Or.inl rfl), trivial⟩
  refine (size_tracks_iff openedA_opened hok).mpr ⟨(fun heq => by cases heq), fun _ => ?_, trivial⟩
  change wrap64 (0 + (1 : Nat)) ≤ 1
  decide

/-- After `Seek` to 5 in an empty file, a `Write` of no bytes sets the size to 5
and leaves the fork empty. -/
theorem emptyWrite_pastEnd : (FS.mk []).Opened openedA serverA ∧
    (fileCalls openedA serverA).Admits Succeeds (openedA, serverA)
      [(.seek 5 seekStart, steady), (.write [], steady)] ∧
      (fileCalls openedA serverA).exec (openedA, serverA)
        [(.seek 5 seekStart, steady), (.write [], steady)] =
        some ({ openedA with cursor := 5, size := 5 }, serverA) := by
  have hseek : Succeeds (openedA, serverA) (.seek 5 seekStart, steady) := by
    refine ⟨⟨by decide, by decide⟩, fun _ _ heq => ?_, (fun _ heq => by cases heq), Or.inl rfl⟩
    cases heq
    decide
  have hcursor : wrap64 (5 + (0 : Nat)) = 5 := by decide
  have hwrite : (({ openedA with cursor := 5 } : File).call serverA steady (.write [])).2 =
      ({ openedA with
        cursor := wrap64 (5 + (0 : Nat))
        size := if wrap64 (5 + (0 : Nat)) > 0 then wrap64 (5 + (0 : Nat)) else 0 }, serverA) := rfl
  rw [hcursor, if_pos (by decide)] at hwrite
  exact ⟨openedA_opened, ⟨hseek, .write (by decide) (Or.inl rfl), trivial⟩, congrArg some hwrite⟩

end GoAfp
