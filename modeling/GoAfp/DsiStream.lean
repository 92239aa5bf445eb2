import GoAfp.ConnInvariant
import GoAfp.Framing
import GoAfp.Wire

/-! DSI packets as bytes. Packets are written whole under the write lock, so
the outgoing stream is their concatenation. The read loop cuts the incoming
stream by the length in each header until the stream ends inside a frame, a
header claims too much, or the server closes the session. -/

namespace GoAfp

def headerSize : Nat := 16

def Header.encode (h : Header) : Bytes :=
  [h.flags, h.command] ++
    (putU16 h.requestID ++ (putU32 h.errCode ++ (putU32 h.length ++ putU32 h.reserved)))

def decodeHeader (b : Bytes) : Header where
  flags := b.getD 0 0
  command := b.getD 1 0
  requestID := UInt16.ofNat (natOfBytes ((b.drop 2).take 2))
  errCode := UInt32.ofNat (natOfBytes ((b.drop 4).take 4))
  length := UInt32.ofNat (natOfBytes ((b.drop 8).take 4))
  reserved := UInt32.ofNat (natOfBytes ((b.drop 12).take 4))

theorem Header.encode_length (h : Header) : h.encode.length = headerSize := by
  simp [Header.encode, headerSize]

/-- A field of `n` bytes behind `pre`, as `decodeHeader` slices it out. -/
theorem slice_eq {b v : Bytes} {k n : Nat} (pre rest : Bytes) (hb : b = pre ++ (v ++ rest))
    (hk : pre.length = k) (hn : v.length = n) : (b.drop k).take n = v := by
  rw [hb, List.drop_left' hk, List.take_left' hn]

theorem decodeHeader_encode (h : Header) : decodeHeader h.encode = h := by
  let pre : Bytes := [h.flags, h.command]
  have hid : (h.encode.drop 2).take 2 = putU16 h.requestID := slice_eq pre _ rfl rfl (by simp)
  have herr : (h.encode.drop 4).take 4 = putU32 h.errCode :=
    slice_eq (pre ++ putU16 h.requestID) _ (by simp [Header.encode, pre]; rfl) (by simp [pre])
      (by simp)
  have hlen : (h.encode.drop 8).take 4 = putU32 h.length :=
    slice_eq (pre ++ putU16 h.requestID ++ putU32 h.errCode) _
      (by simp [Header.encode, pre]; rfl) (by simp [pre]) (by simp)
  have hres : (h.encode.drop 12).take 4 = putU32 h.reserved :=
    slice_eq (pre ++ putU16 h.requestID ++ putU32 h.errCode ++ putU32 h.length) []
      (by simp [Header.encode, pre]) (by simp [pre]) (by simp)
  simp only [decodeHeader, hid, herr, hlen, hres, natOfBytes_putU16, natOfBytes_putU32]
  rfl

def dsiFormat : FrameFormat Header UInt8 where
  size := headerSize
  encode := Header.encode
  decode := decodeHeader
  payload h := h.length.toNat
  size_pos := by decide
  encode_length := Header.encode_length
  decode_encode := decodeHeader_encode

def Packet.contents (p : Packet) : Header × Bytes := (p.header, p.payload)

/-- What `send` hands to one `Write`. -/
def Packet.buf (p : Packet) : Bytes := p.header.encode ++ p.payload

def Conn.wire (s : Conn) : Bytes := s.sent.flatMap Packet.buf

theorem Conn.wire_eq (s : Conn) :
    s.wire = (s.sent.map Packet.contents).flatMap dsiFormat.frame := by
  rw [List.flatMap_map]
  rfl

def Header.closesSession (h : Header) : Prop := h.flags ≠ flagReply ∧ h.command = cmdCloseSession

instance (h : Header) : Decidable h.closesSession :=
  inferInstanceAs (Decidable (h.flags ≠ flagReply ∧ h.command = cmdCloseSession))

/-- The two reads at the top of the read loop, with the check between them. -/
def readPacket (b : Bytes) : Except ConnErr ((Header × Bytes) × Bytes) :=
  match readFull headerSize b with
  | none => .error .read
  | some (hb, b) =>
    let h := decodeHeader hb
    if maxPayload < h.length then .error (.oversize h.length)
    else
      match readFull h.length.toNat b with
      | none => .error .read
      | some (payload, b) => .ok ((h, payload), b)

theorem readPacket_header (h : Header) (b : Bytes) :
    readPacket (h.encode ++ b) =
      if maxPayload < h.length then .error (.oversize h.length)
      else if b.length < h.length.toNat then .error .read
      else .ok ((h, b.take h.length.toNat), b.drop h.length.toNat) := by
  simp only [readPacket, readFull_append h.encode_length b, decodeHeader_encode]
  by_cases hlt : b.length < h.length.toNat
  · simp [readFull_eq_none hlt, hlt]
  · simp [readFull, hlt]

theorem readPacket_short {b : Bytes} (h : b.length < headerSize) : readPacket b = .error .read := by
  simp [readPacket, readFull_eq_none h]

theorem readPacket_length {b rest : Bytes} {f : Header × Bytes} (h : readPacket b = .ok (f, rest)) :
    rest.length < b.length := by
  by_cases hs : b.length < headerSize
  · simp [readPacket_short hs] at h
  · unfold readPacket at h
    split at h
    · cases h
    · rename_i hb b' hread
      obtain ⟨rfl, hlen⟩ := readFull_eq_some hread
      have hpos : 0 < hb.length := by simp [hlen, headerSize]
      dsimp only at h
      split_ifs at h
      split at h
      · cases h
      · rename_i payload b'' hp
        obtain ⟨rfl, -⟩ := readFull_eq_some hp
        cases h
        simp only [List.length_append]
        omega

/-- The read loop on all the bytes that will ever come in: the packets it
gets to act on, and the error it passes to `fail` at its end. -/
def readLoop (b : Bytes) : List (Header × Bytes) × ConnErr :=
  match h : readPacket b with
  | .error e => ([], e)
  | .ok (f, rest) =>
    if f.1.closesSession then ([f], .serverClosed)
    else
      have : rest.length < b.length := readPacket_length h
      (f :: (readLoop rest).1, (readLoop rest).2)
termination_by b.length

theorem readLoop_error {b : Bytes} {e : ConnErr} (h : readPacket b = .error e) :
    readLoop b = ([], e) := by
  rw [readLoop]
  split
  · rename_i he
    rw [h] at he
    cases he
    rfl
  · rename_i hok
    simp [h] at hok

theorem readLoop_ok {b rest : Bytes} {f : Header × Bytes} (h : readPacket b = .ok (f, rest)) :
    readLoop b =
      if f.1.closesSession then ([f], .serverClosed)
      else (f :: (readLoop rest).1, (readLoop rest).2) := by
  rw [readLoop]
  split
  · rename_i he
    simp [h] at he
  · rename_i hok
    rw [h] at hok
    cases hok
    rfl

def Deliverable (f : Header × Bytes) : Prop :=
  dsiFormat.WellSized f ∧ f.2.length ≤ maxPayload.toNat

theorem Deliverable.not_oversize {f : Header × Bytes} (h : Deliverable f) :
    ¬ maxPayload < f.1.length := by
  have hw : f.2.length = f.1.length.toNat := h.1
  have hle := h.2
  rw [hw] at hle
  exact UInt32.not_lt.mpr (UInt32.le_iff_toNat_le.mpr hle)

theorem readPacket_frame {f : Header × Bytes} (h : Deliverable f) (rest : Bytes) :
    readPacket (dsiFormat.frame f ++ rest) = .ok (f, rest) := by
  have hw : f.2.length = f.1.length.toNat := h.1
  have hshort : ¬ (f.2 ++ rest).length < f.1.length.toNat := by
    rw [List.length_append]
    omega
  rw [FrameFormat.frame, List.append_assoc]
  change readPacket (f.1.encode ++ (f.2 ++ rest)) = _
  rw [readPacket_header, if_neg h.not_oversize, if_neg hshort, List.take_left' hw,
    List.drop_left' hw]

theorem readLoop_frames {fs : List (Header × Bytes)} (h : ∀ f ∈ fs, Deliverable f)
    (hclose : ∀ f ∈ fs, ¬ f.1.closesSession) (tail : Bytes) :
    readLoop (fs.flatMap dsiFormat.frame ++ tail) =
      (fs ++ (readLoop tail).1, (readLoop tail).2) := by
  induction fs with
  | nil => rfl
  | cons f fs ih =>
    have hread := readPacket_frame (h f (by simp)) (fs.flatMap dsiFormat.frame ++ tail)
    have hrest := ih (fun g hg => h g (by simp [hg])) (fun g hg => hclose g (by simp [hg]))
    rw [List.flatMap_cons, List.append_assoc, readLoop_ok hread, if_neg (hclose f (by simp)), hrest]
    rfl

theorem readLoop_closed {fs : List (Header × Bytes)} {f : Header × Bytes}
    (h : ∀ g ∈ fs ++ [f], Deliverable g) (hclose : ∀ g ∈ fs, ¬ g.1.closesSession)
    (hf : f.1.closesSession) (tail : Bytes) :
    readLoop ((fs ++ [f]).flatMap dsiFormat.frame ++ tail) = (fs ++ [f], .serverClosed) := by
  have hread := readPacket_frame (h f (by simp)) tail
  have hsplit : (fs ++ [f]).flatMap dsiFormat.frame ++ tail =
      fs.flatMap dsiFormat.frame ++ (dsiFormat.frame f ++ tail) := by simp
  rw [hsplit, readLoop_frames (fun g hg => h g (by simp [hg])) hclose, readLoop_ok hread, if_pos hf]

/-- A stream that ends inside a frame yields nothing of it. -/
theorem readLoop_prefix {f : Header × Bytes} (hw : dsiFormat.WellSized f) {b : Bytes}
    (hp : b <+: dsiFormat.frame f) (hne : b ≠ dsiFormat.frame f) :
    readLoop b =
      ([], if headerSize ≤ b.length ∧ maxPayload < f.1.length then .oversize f.1.length
        else .read) := by
  have hw' : f.2.length = f.1.length.toNat := hw
  by_cases hs : b.length < headerSize
  · have hn : ¬ (headerSize ≤ b.length ∧ maxPayload < f.1.length) := fun hc => by omega
    rw [readLoop_error (readPacket_short hs), if_neg hn]
  · have hle : headerSize ≤ b.length := by omega
    have henc : f.1.encode <+: b := by
      refine List.prefix_of_prefix_length_le (List.prefix_append _ f.2) hp ?_
      rw [Header.encode_length]
      exact hle
    obtain ⟨p, rfl⟩ := henc
    have hpp : p <+: f.2 := (List.prefix_append_right_inj f.1.encode).mp hp
    have hlt : p.length < f.1.length.toNat := by
      rw [← hw']
      refine lt_of_le_of_ne hpp.length_le fun he => hne ?_
      rw [hpp.eq_of_length he]
      rfl
    have hpacket := readPacket_header f.1 p
    rw [if_pos hlt] at hpacket
    by_cases hmax : maxPayload < f.1.length
    · rw [if_pos hmax] at hpacket
      rw [readLoop_error hpacket, if_pos ⟨hle, hmax⟩]
    · rw [if_neg hmax] at hpacket
      rw [readLoop_error hpacket, if_neg fun hc => hmax hc.2]

theorem readLoop_oversize {h : Header} (hmax : maxPayload < h.length) (rest : Bytes) :
    readLoop (h.encode ++ rest) = ([], .oversize h.length) := by
  have hpacket := readPacket_header h rest
  rw [if_pos hmax] at hpacket
  exact readLoop_error hpacket

/-- One round of the loop over bytes does what `Conn.readFrame` does with the
frame. -/
theorem readLoop_readFrame {s : Conn} (hn : s.closeErr = none) (f : Frame)
    (hw : dsiFormat.WellSized (f.header, f.payload)) (rest : Bytes) :
    readLoop (f.header.encode ++ (f.payload ++ rest)) =
      match (s.readFrame f).closeErr with
      | some (.oversize n) => ([], .oversize n)
      | some e => ([(f.header, f.payload)], e)
      | none => ((f.header, f.payload) :: (readLoop rest).1, (readLoop rest).2) := by
  by_cases hmax : maxPayload < f.header.length
  · rw [readLoop_oversize hmax]
    simp [Conn.readFrame, hmax, Conn.fail, hn]
  · have hle : f.payload.length ≤ maxPayload.toNat := by
      rw [show f.payload.length = f.header.length.toNat from hw]
      exact UInt32.le_iff_toNat_le.mp (UInt32.not_lt.mp hmax)
    have hd : Deliverable (f.header, f.payload) := ⟨hw, hle⟩
    have hread := readPacket_frame hd rest
    simp only [FrameFormat.frame, List.append_assoc] at hread
    rw [show f.header.encode ++ (f.payload ++ rest) = dsiFormat.encode f.header ++
      (f.payload ++ rest) from rfl, readLoop_ok hread]
    by_cases hr : f.header.flags = flagReply
    · have hc : (s.readFrame f).closeErr = none := by
        simp only [Conn.readFrame, hmax, if_false, hr, if_true]
        split <;> exact hn
      simp [hc, Header.closesSession, hr]
    · by_cases hcl : f.header.command = cmdCloseSession
      · simp [Conn.readFrame, hmax, hr, hcl, Header.closesSession, Conn.fail, hn]
      · simp [Conn.readFrame, hmax, hr, hcl, Header.closesSession, hn]

structure Conn.Sized (s : Conn) : Prop where
  calls : ∀ c h payload, s.calls c = .registered h payload → h.length = UInt32.ofNat payload.length
  sent : ∀ p ∈ s.sent, p.header.length = UInt32.ofNat p.payload.length

theorem Conn.Sized.calls_update {s : Conn} (h : s.Sized) {c : Nat} {p : CallPhase}
    (hp : ∀ h payload, p = .registered h payload → h.length = UInt32.ofNat payload.length) :
    ∀ d h payload, Function.update s.calls c p d = .registered h payload →
      h.length = UInt32.ofNat payload.length := by
  intro d hd payload hc
  by_cases he : d = c
  · subst d
    exact hp hd payload (by simpa using hc)
  · exact h.calls d hd payload (by simpa only [Function.update_of_ne he] using hc)

theorem Conn.Sized.writes {s : Conn} (h : s.Sized) {p : Packet} (hp : s.Writes p) :
    p.header.length = UInt32.ofNat p.payload.length := by
  cases hp with
  | call hc => exact h.calls _ _ _ hc
  | tickle hk => rfl
  | close hk => rfl

theorem Conn.Sized.step {s t : Conn} {a : ConnLabel} (h : s.Sized) (hs : s.step a = some t) :
    t.Sized where
  sent := by
    rcases Conn.step_sent hs with he | ⟨p, hp, he⟩
    · exact he ▸ h.sent
    · intro q hq
      rw [he, List.mem_append, List.mem_singleton] at hq
      rcases hq with hq | rfl
      · exact h.sent q hq
      · exact h.writes hp
  calls := by
    cases Conn.step_effect hs with
    | refused e hc => exact h.calls_update (by simp)
    | @register c cmd off payload id hc hid =>
      refine h.calls_update fun hd p he => ?_
      cases he
      rfl
    | write hd payload hc => exact h.calls_update (by simp)
    | writeFail hd payload hc => exact h.calls_update (by simp)
    | seeDone id e hc => exact h.calls_update (by simp)
    | cancel id hc => exact h.calls_update (by simp)
    | receive id f hc hf => exact h.calls_update (by simp)
    | unregister id res hc => exact h.calls_update (by simp)
    | other f rest hr hi hf hq => exact hq.calls ▸ h.calls
    | quiet hq => exact hq.calls ▸ h.calls
    | _ => exact h.calls

theorem Conn.sized_of_reach {ok : Conn → ConnLabel → Prop} {tr : List ConnLabel} {s : Conn}
    (h : connSystem.Reach ok tr s) : s.Sized :=
  h.invariant (I := Conn.Sized) ⟨by simp [connSystem], by simp [connSystem]⟩
    (fun hi _ hs => hi.step hs)

theorem Conn.Sized.wellSized_iff {s : Conn} (h : s.Sized) {p : Packet} (hp : p ∈ s.sent) :
    dsiFormat.WellSized p.contents ↔ p.payload.length < 2 ^ 32 := by
  have hlen : p.header.length.toNat = p.payload.length % 2 ^ 32 := by
    rw [h.sent p hp, UInt32.toNat_ofNat']
  change p.payload.length = p.header.length.toNat ↔ _
  rw [hlen]
  omega

theorem Conn.Sized.cut_wire {s : Conn} (h : s.Sized) :
    dsiFormat.cut s.wire = (s.sent.map Packet.contents, []) ↔
      ∀ p ∈ s.sent, p.payload.length < 2 ^ 32 := by
  rw [Conn.wire_eq, FrameFormat.cut_frames_iff, List.forall_mem_map]
  exact forall₂_congr fun p hp => h.wellSized_iff hp

/-- No write stops halfway through its packet. -/
def WritesComplete (_ : Conn) : ConnLabel → Prop
  | .writeFail _ => False
  | .tickleFail _ => False
  | .closeWriteFail _ => False
  | _ => True

/-- The outgoing stream is cut back into the packets, in the order of the
write lock. The read loop recovers a list of packets in which the server
closes the session at most at the end, and then gives up: at the end of the
stream, at the close, or at a header that claims too much. -/
theorem dsi_framing :
    (∀ tr s, connSystem.Reach WritesComplete tr s → (∀ p ∈ s.sent, p.payload.length < 2 ^ 32) →
      dsiFormat.cut s.wire = (s.sent.map Packet.contents, [])) ∧
    (∀ fs f b, (∀ g ∈ fs, Deliverable g) → (∀ g ∈ fs.dropLast, ¬ g.1.closesSession) →
      dsiFormat.WellSized f → b <+: dsiFormat.frame f → b ≠ dsiFormat.frame f →
      ∃ e, readLoop (fs.flatMap dsiFormat.frame ++ b) = (fs, e)) ∧
    ∀ fs (h : Header) rest, (∀ g ∈ fs, Deliverable g ∧ ¬ g.1.closesSession) →
      maxPayload < h.length →
      readLoop (fs.flatMap dsiFormat.frame ++ (h.encode ++ rest)) = (fs, .oversize h.length) := by
  refine ⟨fun tr s hr hp => (Conn.sized_of_reach hr).cut_wire.mpr hp, ?_, ?_⟩
  · intro fs f b hd hclose hw hp hne
    have hb := readLoop_prefix hw hp hne
    rcases List.eq_nil_or_concat' fs with rfl | ⟨init, last, rfl⟩
    · exact ⟨_, hb⟩
    · rw [List.dropLast_concat] at hclose
      by_cases hl : last.1.closesSession
      · exact ⟨_, readLoop_closed hd hclose hl b⟩
      · have hall : ∀ g ∈ init ++ [last], ¬ g.1.closesSession := by
          intro g hg
          rcases List.mem_append.mp hg with hg | hg
          · exact hclose g hg
          · exact List.mem_singleton.mp hg ▸ hl
        have hread := readLoop_frames hd hall b
        rw [hb, List.append_nil] at hread
        exact ⟨_, hread⟩
  · intro fs h rest hd hmax
    rw [readLoop_frames (fun g hg => (hd g hg).1) (fun g hg => (hd g hg).2), readLoop_oversize hmax,
      List.append_nil]

def signalFrame (cmd : UInt8) : Header × Bytes := (signalHeader cmd 0, [])

theorem dsi_framing_tickleClose :
    ∃ e, readLoop
      ([signalFrame cmdTickle, signalFrame cmdCloseSession].flatMap dsiFormat.frame ++ [0]) =
      ([signalFrame cmdTickle, signalFrame cmdCloseSession], e) := by
  have hpre : [0] <+: dsiFormat.frame (signalFrame cmdTickle) := by decide
  have hne : [0] ≠ dsiFormat.frame (signalFrame cmdTickle) := by decide
  exact dsi_framing.2.1 _ (signalFrame cmdTickle) [0]
    (by simp [signalFrame, signalHeader, Deliverable, FrameFormat.WellSized, dsiFormat])
      (by decide) rfl hpre hne

theorem exec_send (payload : Bytes) :
    ∃ s, connSystem.exec connSystem.init [.register 0 cmdCommand 0 payload, .write 0] = some s ∧
      s.sent = [⟨.call 0, requestHeader cmdCommand 1 0 payload, payload⟩] :=
  ⟨_, rfl, rfl⟩

/-- Packets behind the server's close are not read, and the length of a
packet of `2 ^ 32` bytes wraps to zero. -/
theorem dsi_framing_interrupted :
    (¬ ∀ fs f b, (∀ g ∈ fs, Deliverable g) → dsiFormat.WellSized f → b <+: dsiFormat.frame f →
      b ≠ dsiFormat.frame f → ∃ e, readLoop (fs.flatMap dsiFormat.frame ++ b) = (fs, e)) ∧
    ¬ ∀ tr s, connSystem.Reach WritesComplete tr s →
      dsiFormat.cut s.wire = (s.sent.map Packet.contents, []) := by
  constructor
  · intro hall
    have hd (cmd : UInt8) : Deliverable (signalFrame cmd) := ⟨rfl, Nat.zero_le _⟩
    have hne : [] ≠ dsiFormat.frame (signalFrame cmdTickle) := by decide
    obtain ⟨e, he⟩ :=
      hall [signalFrame cmdCloseSession, signalFrame cmdTickle] (signalFrame cmdTickle) []
      (by simp [hd]) rfl List.nil_prefix hne
    have hread : readLoop (([] ++ [signalFrame cmdCloseSession]).flatMap dsiFormat.frame ++
        dsiFormat.frame (signalFrame cmdTickle)) =
          ([] ++ [signalFrame cmdCloseSession], .serverClosed) :=
      readLoop_closed (by simp [hd]) (by simp) (by decide) _
    simp only [List.nil_append, List.flatMap_cons, List.flatMap_nil, List.append_nil] at hread he
    rw [hread] at he
    simp at he
  · intro hall
    obtain ⟨payload, hpayload⟩ : ∃ payload : Bytes, payload.length = 2 ^ 32 :=
      ⟨List.replicate (2 ^ 32) 0, List.length_replicate⟩
    obtain ⟨s, hs, hsent⟩ := exec_send payload
    have hadm : connSystem.Admits WritesComplete connSystem.init
        [.register 0 cmdCommand 0 payload, .write 0] :=
      System.admits_of_forall (by simp [WritesComplete])
    have hr := System.Reach.nil.exec hadm hs
    have hlen := (Conn.sized_of_reach hr).cut_wire.mp (hall _ s hr)
    rw [hsent] at hlen
    have hlt : payload.length < 2 ^ 32 := hlen _ (List.mem_singleton.mpr rfl)
    omega

end GoAfp
