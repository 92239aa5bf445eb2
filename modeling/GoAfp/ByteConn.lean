import GoAfp.DsiStream
import GoAfp.FrameStream
import GoAfp.ReplyRouting
import GoAfp.Simulation

/-! The connection over a byte stream. The server's bytes arrive in pieces of
any size, and a read returns any part of what has arrived: `io.ReadFull` asks
for the rest of a header, and then for the rest of the payload. A write may
fail after part of its packet has gone out. The connection of frames is what
remains of this when one forgets the pieces. -/

namespace GoAfp

def Header.tooLong (h : Header) : Prop := maxPayload < h.length

instance : DecidablePred Header.tooLong :=
  fun h => inferInstanceAs (Decidable (maxPayload < h.length))

/-- The frames in what the server has sent. -/
def framesOf (b : Bytes) : List (Header × Bytes) := dsiFormat.scan Header.tooLong b

/-- `net` holds the bytes that have arrived and are not read, and `out` the
bytes that the transport took. `cutOff` says that it once stopped inside a packet.
`arrived`, `tags` and `taken` are histories: all that has arrived, what its
frames answer, and how many of them are read. -/
structure ByteConn where
  conn : Conn := {}
  filling : FrameFormat.Filling Header UInt8 := .header []
  net : Bytes := []
  out : Bytes := []
  cutOff : Bool := false
  arrived : Bytes := []
  tags : List (Option Nat) := []
  taken : Nat := 0

/-- The packet whose write fails in a step. -/
def Conn.failing (s : Conn) : ConnLabel → Option Packet
  | .writeFail c =>
    match s.calls c with
    | .registered h payload => some ⟨.call c, h, payload⟩
    | _ => none
  | .tickleFail k =>
    match s.ticklers k with
    | .drawn id => some ⟨.tickle k, signalHeader cmdTickle id, []⟩
    | _ => none
  | .closeWriteFail k =>
    match s.closers k with
    | .drawn id => some ⟨.close k, signalHeader cmdCloseSession id, []⟩
    | _ => none
  | _ => none

inductive ByteLabel
  | conn (a : ConnLabel)
  | cut (a : ConnLabel) (n : Nat)
  | arrive (b : Bytes) (answers : List (Option Nat))
  | readSome (n : Nat)

/-- The steps that have nothing to do with the incoming stream. -/
def ConnLabel.offStream : ConnLabel → Prop
  | .read => False
  | .serverSend _ => False
  | _ => True

instance : DecidablePred ConnLabel.offStream := fun a => by
  cases a <;> unfold ConnLabel.offStream <;> infer_instance

def ByteConn.newFrames (s : ByteConn) (b : Bytes) : List (Header × Bytes) :=
  (framesOf (s.arrived ++ b)).drop (framesOf s.arrived).length

def ByteConn.gets (s : ByteConn) (b : Bytes) (answers : List (Option Nat)) : ByteConn :=
  { s with
    conn := { s.conn with answered := s.conn.answered ++ answers.flatMap Option.toList }
    net := s.net ++ b
    arrived := s.arrived ++ b
    tags := s.tags ++ answers }

def ByteConn.tag (s : ByteConn) : Option Nat := s.tags.getD s.taken none

def ByteConn.took (s : ByteConn) (p : FrameFormat.Filling Header UInt8) (n : Nat) : ByteConn :=
  { s with filling := p, net := s.net.drop n }

def ByteConn.step (s : ByteConn) : ByteLabel → Option ByteConn
  | .conn a =>
    if a.offStream then
      (s.conn.step a).bind fun t =>
        some
          { s with conn := t, out := s.out ++ (t.sent.drop s.conn.sent.length).flatMap Packet.buf }
    else none
  | .cut a n =>
    match s.conn.failing a, s.conn.step a with
    | some p, some t =>
      if p.buf.length ≤ n then none
      else some { s with conn := t, out := s.out ++ p.buf.take n, cutOff := s.cutOff || 0 < n }
    | _, _ => none
  | .arrive b answers =>
    if s.conn.hungUp ∨ answers.length ≠ (s.newFrames b).length then none
      else some (s.gets b answers)
  | .readSome n =>
    if s.conn.reader = .reading ∧ 0 < n ∧ n ≤ dsiFormat.want s.filling ∧ n ≤ s.net.length then
      match dsiFormat.feed Header.tooLong s.filling (s.net.take n) with
      | .more p => some (s.took p n)
      | .frame f =>
        some { s.took (.header []) n with
          conn := s.conn.readFrame ⟨f.1, f.2, s.tag⟩, taken := s.taken + 1 }
      | .refused h =>
        some { s.took (.header []) n with
          conn := { s.conn.fail (.oversize h.length) with reader := .closing }
          taken := s.taken + 1 }
    else none

def byteSystem : System ByteConn ByteLabel := ⟨{}, ByteConn.step⟩

section Abstraction

def frameOf (f : Header × Bytes) (answers : Option Nat) : Frame := ⟨f.1, f.2, answers⟩

def tagged (fs : List (Header × Bytes)) (tags : List (Option Nat)) : List Frame :=
  (fs.zip tags).map fun x => frameOf x.1 x.2

def ByteConn.frames (s : ByteConn) : List Frame := tagged (framesOf s.arrived) s.tags

def Conn.withInbound (s : Conn) (l : List Frame) : Conn := { s with inbound := l }

/-- The connection of frames: those that are not read yet are inbound, however
many of their bytes the reader already has. -/
def ByteConn.abs (s : ByteConn) : Conn := s.conn.withInbound (s.frames.drop s.taken)

def ByteConn.labels (s : ByteConn) : ByteLabel → List ConnLabel
  | .conn a => [a]
  | .cut a _ => [a]
  | .arrive b answers => (tagged (s.newFrames b) answers).map .serverSend
  | .readSome n =>
    match dsiFormat.feed Header.tooLong s.filling (s.net.take n) with
    | .more _ => []
    | _ => [.read]

end Abstraction

section Inbound

variable (s : Conn) (l : List Frame)

theorem Conn.fail_withInbound (e : ConnErr) :
    (s.withInbound l).fail e = (s.fail e).withInbound l := by
  unfold Conn.fail
  by_cases h : s.closeErr.isSome
  · rw [if_pos h, if_pos (by exact h)]
  · rw [if_neg h, if_neg (by exact h)]
    rfl

theorem Conn.readFrame_withInbound (f : Frame) :
    (s.withInbound l).readFrame f = (s.readFrame f).withInbound l := by
  unfold Conn.readFrame
  rw [Conn.fail_withInbound, Conn.fail_withInbound]
  split_ifs
  · rfl
  · have hpending : (s.withInbound l).pending = s.pending := rfl
    rw [hpending]
    cases s.pending f.header.requestID <;> rfl
  · rfl
  · rfl

/-- The steps of the goroutines neither see nor change what is inbound. -/
theorem Conn.step_withInbound {s t : Conn} {a : ConnLabel} (ha : a.offStream)
    (h : s.step a = some t) (l : List Frame) :
    (s.withInbound l).step a = some (t.withInbound l) := by
  have hmap : (s.withInbound l).step a = (s.step a).map fun t => t.withInbound l := by
    cases a with
    | read => exact ha.elim
    | serverSend f => exact ha.elim
    | hangUp => rfl
    | register c cmd off payload =>
      simp only [Conn.step, Conn.drawID]
      dsimp only [Conn.withInbound]
      split
      · rfl
      · rw [Option.map_map]
        rfl
      · rfl
    | _ =>
      simp only [Conn.step, Conn.fail_withInbound]
      dsimp only [Conn.withInbound]
      split <;> first | rfl | (rw [apply_ite (Option.map _)]; rfl)
  rw [hmap, h, Option.map_some]

end Inbound

/-- The steps, each with what enables it. -/
inductive ByteConn.Fires (s : ByteConn) : ByteLabel → ByteConn → Prop
  | conn {a t} (ha : a.offStream) (hs : s.conn.step a = some t) :
    Fires s (.conn a)
      { s with conn := t, out := s.out ++ (t.sent.drop s.conn.sent.length).flatMap Packet.buf }
  | cut {a n t} (p : Packet) (hp : s.conn.failing a = some p) (hs : s.conn.step a = some t)
      (hn : n < p.buf.length) :
    Fires s (.cut a n)
      { s with conn := t, out := s.out ++ p.buf.take n, cutOff := s.cutOff || 0 < n }
  | arrive {b answers} (hup : s.conn.hungUp = false)
    (hlen : answers.length = (s.newFrames b).length) :
    Fires s (.arrive b answers) (s.gets b answers)
  | more {n} (p) (hr : s.conn.reader = .reading) (hw : n ≤ dsiFormat.want s.filling)
    (hn : n ≤ s.net.length)
      (hf : dsiFormat.feed Header.tooLong s.filling (s.net.take n) = .more p) :
        Fires s (.readSome n) (s.took p n)
  | frame {n} (f) (hr : s.conn.reader = .reading) (hw : n ≤ dsiFormat.want s.filling)
    (hn : n ≤ s.net.length)
      (hf : dsiFormat.feed Header.tooLong s.filling (s.net.take n) = .frame f) :
    Fires s (.readSome n)
      { s.took (.header []) n with
        conn := s.conn.readFrame (frameOf f s.tag), taken := s.taken + 1 }
  | refused {n} (h : Header) (hr : s.conn.reader = .reading) (hw : n ≤ dsiFormat.want s.filling)
    (hn : n ≤ s.net.length)
      (hf : dsiFormat.feed Header.tooLong s.filling (s.net.take n) = .refused h) :
    Fires s (.readSome n)
      { s.took (.header []) n with
        conn := { s.conn.fail (.oversize h.length) with reader := .closing }
        taken := s.taken + 1 }

theorem ByteConn.fires_of_step {s t : ByteConn} {a : ByteLabel} (h : s.step a = some t) :
    s.Fires a t := by
  cases a with
  | conn a =>
    simp only [ByteConn.step] at h
    split_ifs at h with ha
    obtain ⟨u, hu, hrest⟩ := Option.bind_eq_some_iff.mp h
    cases hrest
    exact .conn ha hu
  | cut a n =>
    simp only [ByteConn.step] at h
    split at h
    · rename_i p u hp hu
      split_ifs at h with hn
      cases h
      exact .cut p hp hu (Nat.not_le.mp hn)
    · cases h
  | arrive b answers =>
    simp only [ByteConn.step] at h
    split_ifs at h with hno
    cases h
    rw [not_or, Bool.not_eq_true, not_not] at hno
    exact .arrive hno.1 hno.2
  | readSome n =>
    simp only [ByteConn.step] at h
    split_ifs at h with hok
    obtain ⟨hr, -, hw, hn⟩ := hok
    split at h
    · rename_i p hf
      cases h
      exact .more p hr hw hn hf
    · rename_i f hf
      cases h
      exact .frame f hr hw hn hf
    · rename_i hd hf
      cases h
      exact .refused hd hr hw hn hf

def ReaderPhase.loops : ReaderPhase → Prop
  | .reading => True
  | .handing _ _ => True
  | _ => False

/-- While the read loop runs, the reader stands in the stream where the frames
read so far end, `filling` ahead. -/
structure ByteConn.Placed (s : ByteConn) (done b : Bytes) (fs : List (Header × Bytes)) : Prop where
  holding : dsiFormat.Holding Header.tooLong s.filling b
  arrived : s.arrived = done ++ (b ++ s.net)
  taken : fs.length = s.taken
  frames : ∀ x, framesOf (done ++ x) = fs ++ framesOf x

structure ByteConn.Sound (s : ByteConn) : Prop where
  tags : s.tags.length = (framesOf s.arrived).length
  taken : s.taken ≤ (framesOf s.arrived).length
  placed : s.conn.reader.loops → ∃ done b fs, s.Placed done b fs

theorem Conn.step_loops {s t : Conn} {a : ConnLabel} (ha : a.offStream) (h : s.step a = some t)
    (ht : t.reader.loops) : s.reader.loops := by
  have hfail (e : ConnErr) : (s.fail e).reader = s.reader := by
    unfold Conn.fail
    split_ifs <;> rfl
  cases Conn.fires_of_step h with
  | read f rest hr hi => exact ha.elim
  | handOff c f hr hc =>
    rw [hr]
    trivial
  | readError hr => exact ht.elim
  | readerClose hr => exact ht.elim
  | closeFail hk =>
    have hr : s.reader.loops := hfail .closed ▸ ht
    exact hr
  | _ => exact ht

theorem Conn.exec_serverSend {s : Conn} (hup : s.hungUp = false) (fs : List Frame) :
    connSystem.exec s (fs.map .serverSend) =
      some { s with
        inbound := s.inbound ++ fs
        answered := s.answered ++ fs.flatMap fun f => f.answers.toList } := by
  induction fs generalizing s with
  | nil => simp [System.exec]
  | cons f fs ih =>
    have hstep : connSystem.step s (.serverSend f) =
        some
          { s with inbound := s.inbound ++ [f], answered := s.answered ++ f.answers.toList } := by
      simp [connSystem, Conn.step, hup]
    rw [List.map_cons, System.exec, hstep, Option.bind_some, ih (by exact hup)]
    simp only [List.append_assoc, List.singleton_append, List.flatMap_cons]

theorem ByteConn.framesOf_append (s : ByteConn) (b : Bytes) :
    framesOf (s.arrived ++ b) = framesOf s.arrived ++ s.newFrames b := by
  obtain ⟨fs, hfs⟩ := dsiFormat.scan_append Header.tooLong s.arrived b
  rw [ByteConn.newFrames, framesOf, framesOf, hfs, List.drop_left]

theorem ByteConn.Placed.frames_read {s : ByteConn} {done b : Bytes} {fs : List (Header × Bytes)}
    (h : s.Placed done b fs) {n : Nat} : framesOf s.arrived =
      fs ++ framesOf (b ++ s.net.take n ++ s.net.drop n) := by
  rw [h.arrived, h.frames, List.append_assoc, List.take_append_drop]

/-- A frame that the reader completes is the next inbound one. -/
theorem ByteConn.Sound.inbound_cons {s : ByteConn} (hs : s.Sound) {fs rest : List (Header × Bytes)}
    {f : Header × Bytes} (hfs : fs.length = s.taken) (hall : framesOf s.arrived = fs ++ f :: rest) :
    s.frames.drop s.taken = frameOf f s.tag :: s.frames.drop (s.taken + 1) := by
  have hlt : s.taken < (framesOf s.arrived).length := by
    rw [hall, List.length_append, List.length_cons]
    omega
  have htags : s.taken < s.tags.length := by
    rw [hs.tags]
    exact hlt
  have hlen : s.taken < s.frames.length := by
    rw [ByteConn.frames, tagged, List.length_map, List.length_zip]
    omega
  have hget : (framesOf s.arrived)[s.taken] = f := by
    simp only [hall, ← hfs, List.getElem_append_right (Nat.le_refl _), Nat.sub_self,
      List.getElem_cons_zero]
  have htag : s.tags[s.taken] = s.tag := by
    rw [ByteConn.tag, List.getD_eq_getElem _ _ htags]
  rw [List.drop_eq_getElem_cons hlen]
  simp only [ByteConn.frames, tagged, List.getElem_map, List.getElem_zip, hget, htag]

theorem Conn.step_read_withInbound {s : Conn} (hr : s.reader = .reading) (f : Frame)
    (rest : List Frame) :
    connSystem.exec (s.withInbound (f :: rest)) [.read] = some
      ((s.readFrame f).withInbound rest) := by
  have hstep : connSystem.step (s.withInbound (f :: rest)) .read = some
      ((s.withInbound rest).readFrame f) := by
    simp [connSystem, Conn.step, Conn.withInbound, hr]
  rw [System.exec, hstep, Option.bind_some, Conn.readFrame_withInbound]
  rfl

theorem ByteConn.Sound.conn {s : ByteConn} (h : s.Sound) {a : ConnLabel} {u : Conn}
    (ha : a.offStream) (hu : s.conn.step a = some u) (out : Bytes) (cutOff : Bool) :
    ByteConn.Sound { s with conn := u, out := out, cutOff := cutOff } ∧
      connSystem.exec s.abs [a] = some (u.withInbound (s.frames.drop s.taken)) := by
  refine ⟨⟨h.tags, h.taken, fun hl => ?_⟩, ?_⟩
  · obtain ⟨done, b, fs, hp⟩ := h.placed (Conn.step_loops ha hu hl)
    exact ⟨done, b, fs, hp.holding, hp.arrived, hp.taken, hp.frames⟩
  · exact System.exec_cons (Conn.step_withInbound ha hu _) rfl

theorem Conn.failing_offStream {s : Conn} {a : ConnLabel} {p : Packet} (h : s.failing a = some p) :
    a.offStream := by
  cases a with
  | read => cases h
  | serverSend f => cases h
  | _ => trivial

theorem tagged_answers {fs : List (Header × Bytes)} {tags : List (Option Nat)}
    (h : tags.length = fs.length) :
    (tagged fs tags).flatMap (fun f => f.answers.toList) = tags.flatMap Option.toList := by
  have hsnd : (fs.zip tags).map Prod.snd = tags := List.map_snd_zip h.le
  calc (tagged fs tags).flatMap (fun f => f.answers.toList)
      = ((fs.zip tags).map Prod.snd).flatMap Option.toList := by
        rw [tagged, List.flatMap_map, List.flatMap_map]
        rfl
    _ = tags.flatMap Option.toList := by rw [hsnd]

theorem ByteConn.Sound.gets {s : ByteConn} (h : s.Sound) {b : Bytes} {answers : List (Option Nat)}
    (hlen : answers.length = (s.newFrames b).length) : (s.gets b answers).Sound where
  tags := by
    change (s.tags ++ answers).length = (framesOf (s.arrived ++ b)).length
    rw [s.framesOf_append, List.length_append, List.length_append, hlen, h.tags]
  taken := by
    change s.taken ≤ (framesOf (s.arrived ++ b)).length
    rw [s.framesOf_append, List.length_append]
    exact Nat.le_add_right_of_le h.taken
  placed := by
    intro hl
    obtain ⟨done, pre, fs, hp⟩ := h.placed hl
    refine ⟨done, pre, fs, hp.holding, ?_, hp.taken, hp.frames⟩
    simp only [ByteConn.gets, hp.arrived, List.append_assoc]

theorem ByteConn.Sound.frames_gets {s : ByteConn} (h : s.Sound) (b : Bytes)
    (answers : List (Option Nat)) :
    (s.gets b answers).frames = s.frames ++ tagged (s.newFrames b) answers := by
  change tagged (framesOf (s.arrived ++ b)) (s.tags ++ answers) = _
  rw [s.framesOf_append, tagged, List.zip_append h.tags.symm, List.map_append]
  rfl

theorem ByteConn.Sound.taken_frames {s : ByteConn} (h : s.Sound) : s.taken ≤ s.frames.length := by
  rw [ByteConn.frames, tagged, List.length_map, List.length_zip, h.tags, Nat.min_self]
  exact h.taken

theorem ByteConn.Sound.exec_gets {s : ByteConn} (h : s.Sound) {b : Bytes}
    {answers : List (Option Nat)} (hup : s.conn.hungUp = false)
    (hlen : answers.length = (s.newFrames b).length) :
    connSystem.exec s.abs (s.labels (.arrive b answers)) = some (s.gets b answers).abs := by
  rw [ByteConn.labels, Conn.exec_serverSend (by exact hup), tagged_answers hlen, ByteConn.abs,
    ByteConn.abs, h.frames_gets]
  change _ = some ((s.gets b answers).conn.withInbound ((s.frames ++ _).drop s.taken))
  rw [List.drop_append_of_le_length h.taken_frames]
  rfl

theorem ByteConn.Sound.more {s : ByteConn} (h : s.Sound) (hr : s.conn.reader.loops) {n : Nat}
    (hw : n ≤ dsiFormat.want s.filling) {p : FrameFormat.Filling Header UInt8}
    (hf : dsiFormat.feed Header.tooLong s.filling (s.net.take n) = .more p) :
    (s.took p n).Sound := by
  obtain ⟨done, b, fs, hp⟩ := h.placed hr
  refine ⟨h.tags, h.taken, fun _ => ⟨done, b ++ s.net.take n, fs, ?_, ?_, hp.taken, hp.frames⟩⟩
  · exact hp.holding.more ((List.length_take_le _ _).trans hw) hf
  · change s.arrived = done ++ (b ++ s.net.take n ++ s.net.drop n)
    rw [List.append_assoc, List.take_append_drop]
    exact hp.arrived

/-- What the reader has after a frame. -/
theorem ByteConn.Sound.frame {s : ByteConn} (h : s.Sound) (hr : s.conn.reader.loops) {n : Nat}
    (hw : n ≤ dsiFormat.want s.filling) {f : Header × Bytes}
    (hf : dsiFormat.feed Header.tooLong s.filling (s.net.take n) = .frame f) (u : Conn) :
    ByteConn.Sound { s.took (.header []) n with conn := u, taken := s.taken + 1 } ∧
      s.frames.drop s.taken = frameOf f s.tag :: s.frames.drop (s.taken + 1) := by
  obtain ⟨done, b, fs, hp⟩ := h.placed hr
  have hnext (x : Bytes) : framesOf (b ++ s.net.take n ++ x) = f :: framesOf x :=
    hp.holding.frame ((List.length_take_le _ _).trans hw) hf x
  have hall : framesOf s.arrived = fs ++ f :: framesOf (s.net.drop n) := by
    rw [hp.frames_read (n := n), hnext]
  refine ⟨⟨h.tags, ?_, fun _ => ⟨done ++ (b ++ s.net.take n), [], fs ++ [f], ?_⟩⟩,
    h.inbound_cons hp.taken hall⟩
  · change s.taken + 1 ≤ (framesOf s.arrived).length
    rw [hall, List.length_append, List.length_cons, hp.taken]
    omega
  · refine ⟨FrameFormat.holding_nil, ?_, ?_, fun x => ?_⟩
    · change s.arrived = done ++ (b ++ s.net.take n) ++ ([] ++ s.net.drop n)
      rw [List.nil_append, List.append_assoc, List.append_assoc, List.take_append_drop]
      exact hp.arrived
    · rw [List.length_append, hp.taken]
      rfl
    · rw [List.append_assoc, hp.frames, hnext, List.append_assoc, List.singleton_append]

theorem ByteConn.Sound.refused {s : ByteConn} (h : s.Sound) (hr : s.conn.reader.loops) {n : Nat}
    (hw : n ≤ dsiFormat.want s.filling) {hd : Header}
    (hf : dsiFormat.feed Header.tooLong s.filling (s.net.take n) = .refused hd) {u : Conn}
    (hu : ¬ u.reader.loops) :
    ByteConn.Sound { s.took (.header []) n with conn := u, taken := s.taken + 1 } ∧
      s.frames.drop s.taken = frameOf (hd, []) s.tag :: s.frames.drop (s.taken + 1) := by
  obtain ⟨done, b, fs, hp⟩ := h.placed hr
  have hall : framesOf s.arrived = fs ++ [(hd, [])] := by
    rw [hp.frames_read (n := n)]
    exact congrArg (fs ++ ·) (hp.holding.refused ((List.length_take_le _ _).trans hw) hf _)
  refine ⟨⟨h.tags, ?_, fun hl => absurd hl hu⟩, h.inbound_cons hp.taken hall⟩
  change s.taken + 1 ≤ (framesOf s.arrived).length
  rw [hall, List.length_append, List.length_singleton, hp.taken]

theorem ReaderPhase.loops_reading {p : ReaderPhase} (h : p = .reading) : p.loops := by
  rw [h]
  trivial

theorem ByteConn.Sound.drained {s : ByteConn} (h : s.Sound) (hr : s.conn.reader = .reading)
    (hnet : s.net = []) :
    s.abs.inbound = [] := by
  obtain ⟨done, b, fs, hp⟩ := h.placed (ReaderPhase.loops_reading hr)
  have hall : framesOf s.arrived = fs := by
    have hb : framesOf b = [] := hp.holding.scan
    rw [hp.arrived, hnet, List.append_nil, hp.frames, hb, List.append_nil]
  have hlen : s.frames.length ≤ s.taken := by
    rw [ByteConn.frames, tagged, List.length_map, List.length_zip, hall, hp.taken]
    exact Nat.min_le_left _ _
  exact List.drop_eq_nil_of_le hlen

theorem ByteConn.refines :
    System.Refines byteSystem connSystem ByteConn.Sound ByteConn.abs ByteConn.labels where
  init := by
    have hempty : framesOf [] = [] := dsiFormat.scan_short Header.tooLong dsiFormat.size_pos
    refine ⟨⟨?_, Nat.zero_le _, fun _ => ⟨[], [], [], ?_⟩⟩, ?_⟩
    · exact (congrArg List.length hempty).symm
    · exact ⟨FrameFormat.holding_nil, rfl, rfl, fun x => rfl⟩
    · change Conn.withInbound {} ((tagged (framesOf []) []).drop 0) = _
      rw [hempty]
      rfl
  step := by
    intro s t a hs h
    cases ByteConn.fires_of_step h with
    | conn ha hu => exact hs.conn ha hu _ _
    | cut p hp hu hn => exact hs.conn (Conn.failing_offStream hp) hu _ _
    | arrive hup hlen => exact ⟨hs.gets hlen, hs.exec_gets hup hlen⟩
    | more p hr hw hn hf =>
      refine ⟨hs.more (ReaderPhase.loops_reading hr) hw hf, ?_⟩
      rw [ByteConn.labels, hf]
      rfl
    | frame f hr hw hn hf =>
      obtain ⟨hsound, hcons⟩ :=
        hs.frame (ReaderPhase.loops_reading hr) hw hf (s.conn.readFrame (frameOf f s.tag))
      refine ⟨hsound, ?_⟩
      rw [ByteConn.labels, hf, ByteConn.abs, hcons]
      exact Conn.step_read_withInbound hr _ _
    | refused hd hr hw hn hf =>
      obtain ⟨hsound, hcons⟩ := hs.refused (ReaderPhase.loops_reading hr) hw hf
        (u := { s.conn.fail (.oversize hd.length) with reader := .closing }) id
      have htoo : hd.tooLong := FrameFormat.feed_refused hf
      have hread : s.conn.readFrame (frameOf (hd, []) s.tag) =
          { s.conn.fail (.oversize hd.length) with reader := .closing } := if_pos htoo
      refine ⟨hsound, ?_⟩
      rw [ByteConn.labels, hf, ByteConn.abs, hcons, ByteConn.abs, ← hread]
      exact Conn.step_read_withInbound hr _ _

/-- Forgetting the pieces turns every run over bytes into one over frames, with
whatever the environment of the frames promises. Once all that has arrived is
read, no frame of it is left. -/
theorem byteConn_refines {ok : Conn → ConnLabel → Prop} {tr : List ByteLabel} {s : ByteConn}
    (h : byteSystem.Reach (connSystem.lifted ByteConn.abs ByteConn.labels ok) tr s) :
    (∃ tr', connSystem.Reach ok tr' s.abs) ∧
      (s.conn.reader = .reading → s.net = [] → s.abs.inbound = []) := by
  obtain ⟨hsound, htr⟩ := ByteConn.refines.reach h
  exact ⟨htr, fun hr hnet => hsound.drained hr hnet⟩

/-- The reply to the first packet comes in two pieces, and a read gets part of
the first. -/
def splitReply : List ByteLabel :=
  [.conn (.register 0 cmdCommand 0 []), .conn (.write 0),
    .arrive ((commandReply 1 0).header.encode.take 5) [], .readSome 3,
    .arrive ((commandReply 1 0).header.encode.drop 5) [some 0], .readSome 2, .readSome 11]

theorem byteConn_refines_splitReply :
    ∃ s, byteSystem.Reach
      (connSystem.lifted ByteConn.abs ByteConn.labels System.free) splitReply s ∧
      (∃ tr', connSystem.Reach System.free tr' s.abs) ∧
      (s.conn.reader = .reading → s.net = [] → s.abs.inbound = []) := by
  have hadm :
      byteSystem.Admits (connSystem.lifted ByteConn.abs ByteConn.labels System.free) byteSystem.init
        splitReply :=
    System.admits_of_forall fun _ _ _ => System.admits_free _ _
  have hr := System.Reach.nil.exec_isSome hadm (by decide +kernel)
  exact ⟨_, hr, byteConn_refines hr⟩

end GoAfp
