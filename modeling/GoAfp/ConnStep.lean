import GoAfp.Conn

/-! What one step of the connection does. `Conn.Fires` lists the steps with
their guards, and `Conn.Effect` only what they do to the state that routes
replies. The steps of tickle loops, `Close` calls and the transport are all
alike there, so the invariants of routing meet ten kinds of step. -/

namespace GoAfp

/-- The enabled steps, each with the control points that enable it. -/
inductive Conn.Fires (s : Conn) : ConnLabel → Conn → Prop
  | refused {c cmd off payload} (e : ConnErr) (hc : s.calls c = .idle) (he : s.closeErr = some e) :
    Fires s (.register c cmd off payload) (s.setCall c (.returned (.failed e)))
  | register {c cmd off payload} (id : UInt16) (hc : s.calls c = .idle) (hn : s.closeErr = none)
      (hid : s.drawID = some id) :
    Fires s (.register c cmd off payload)
      { s with
        nextID := id
        pending := Function.update s.pending id (some c)
        calls :=
          Function.update s.calls c (.registered (requestHeader cmd id off payload) payload) }
  | write {c} (hd : Header) (payload : Bytes) (hc : s.calls c = .registered hd payload)
    (hn : s.ncClosed = false) :
    Fires s (.write c) ((s.send ⟨.call c, hd, payload⟩).setCall c (.waiting hd.requestID))
  | writeFail {c} (hd : Header) (payload : Bytes) (hc : s.calls c = .registered hd payload) :
    Fires s (.writeFail c) (s.setCall c (.leaving hd.requestID (.failed .write)))
  | receive {c} (id : UInt16) (f : Frame) (hc : s.calls c = .waiting id) (hf : s.chans c = some f) :
    Fires s (.receive c)
      ({ s with chans := Function.update s.chans c none }.setCall c (.leaving id (.reply f)))
  | seeDone {c} (id : UInt16) (e : ConnErr) (hc : s.calls c = .waiting id)
    (he : s.closeErr = some e) :
    Fires s (.seeDone c) (s.setCall c (.leaving id (.failed e)))
  | cancel {c} (id : UInt16) (hc : s.calls c = .waiting id) :
    Fires s (.cancel c) (s.setCall c (.leaving id .cancelled))
  | unregister {c} (id : UInt16) (res : Outcome) (hc : s.calls c = .leaving id res) :
    Fires s (.unregister c) ((s.unregister id).setCall c (.returned res))
  | tickle {k} (hk : s.ticklers k = .idle) :
    Fires s (.tickle k)
      { s.newID with ticklers := Function.update s.ticklers k (.drawn s.newID.nextID) }
  | tickleWrite {k} (id : UInt16) (hk : s.ticklers k = .drawn id) (hn : s.ncClosed = false) :
    Fires s (.tickleWrite k)
      { s.send ⟨.tickle k, signalHeader cmdTickle id, []⟩ with
        ticklers := Function.update s.ticklers k .idle }
  | tickleEnd {a k} (ha : a = .tickleFail k ∨ a = .tickleStop k) :
    Fires s a { s with ticklers := Function.update s.ticklers k .stopped }
  | closeID {k} (hk : s.closers k = .idle) :
    Fires s (.closeID k)
      { s.newID with closers := Function.update s.closers k (.drawn s.newID.nextID) }
  | closeWrite {k} (id : UInt16) (hk : s.closers k = .drawn id) (hn : s.ncClosed = false) :
    Fires s (.closeWrite k)
      { s.send ⟨.close k, signalHeader cmdCloseSession id, []⟩ with
        closers := Function.update s.closers k .sent }
  | closeWriteFail {k} (id : UInt16) (hk : s.closers k = .drawn id) :
    Fires s (.closeWriteFail k) { s with closers := Function.update s.closers k .sent }
  | closeSocket {k} (hk : s.closers k = .sent) :
    Fires s (.closeSocket k)
      { s with ncClosed := true, closers := Function.update s.closers k .closed }
  | closeFail {k} (hk : s.closers k = .closed) :
    Fires s (.closeFail k) { s.fail .closed with closers := Function.update s.closers k .returned }
  | read (f : Frame) (rest : List Frame) (hr : s.reader = .reading) (hi : s.inbound = f :: rest) :
    Fires s .read ({ s with inbound := rest }.readFrame f)
  | handOff (c : Nat) (f : Frame) (hr : s.reader = .handing c f) (hc : s.chans c = none) :
    Fires s .handOff
      { s with
        chans := Function.update s.chans c (some f)
        reader := .reading
        handed := s.handed ++ [(c, f)] }
  | readError (hr : s.reader = .reading) : Fires s .readError
    { s.fail .read with reader := .stopped }
  | readerClose (hr : s.reader = .closing) : Fires s .readerClose
    { s with ncClosed := true, reader := .stopped }
  | serverSend (f : Frame) :
    Fires s (.serverSend f)
      { s with inbound := s.inbound ++ [f], answered := s.answered ++ f.answers.toList }
  | hangUp : Fires s .hangUp { s with hungUp := true }

theorem Conn.fires_of_step {s t : Conn} {a : ConnLabel} (h : s.step a = some t) : s.Fires a t := by
  cases a with
  | register c cmd off payload =>
    simp only [Conn.step] at h
    split at h
    · rename_i e hc he
      cases h
      exact .refused e hc he
    · rename_i hc hn
      obtain ⟨id, hid, rfl⟩ := Option.map_eq_some_iff.mp h
      exact .register id hc hn hid
    · cases h
  | write c =>
    simp only [Conn.step] at h
    split at h
    · rename_i hd payload hc hn
      cases h
      exact .write hd payload hc hn
    · cases h
  | writeFail c =>
    simp only [Conn.step] at h
    split at h
    · rename_i hd payload hc _
      cases h
      exact .writeFail hd payload hc
    · cases h
  | receive c =>
    simp only [Conn.step] at h
    split at h
    · rename_i id f hc hf
      cases h
      exact .receive id f hc hf
    · cases h
  | seeDone c =>
    simp only [Conn.step] at h
    split at h
    · rename_i id e hc he
      split_ifs at h
      cases h
      exact .seeDone id e hc he
    · cases h
  | cancel c =>
    simp only [Conn.step] at h
    split at h
    · rename_i id hc
      cases h
      exact .cancel id hc
    · cases h
  | unregister c =>
    simp only [Conn.step] at h
    split at h
    · rename_i id res hc
      cases h
      exact .unregister id res hc
    · cases h
  | tickle k =>
    simp only [Conn.step] at h
    split at h
    · rename_i hk
      cases h
      exact .tickle hk
    · cases h
  | tickleWrite k =>
    simp only [Conn.step] at h
    split at h
    · rename_i id hk hn
      cases h
      exact .tickleWrite id hk hn
    · cases h
  | tickleFail k =>
    simp only [Conn.step] at h
    split at h
    · cases h
      exact .tickleEnd (.inl rfl)
    · cases h
  | tickleStop k =>
    simp only [Conn.step] at h
    split at h
    · split_ifs at h
      cases h
      exact .tickleEnd (.inr rfl)
    · cases h
  | closeID k =>
    simp only [Conn.step] at h
    split at h
    · rename_i hk
      cases h
      exact .closeID hk
    · cases h
  | closeWrite k =>
    simp only [Conn.step] at h
    split at h
    · rename_i id hk hn
      cases h
      exact .closeWrite id hk hn
    · cases h
  | closeWriteFail k =>
    simp only [Conn.step] at h
    split at h
    · rename_i id hk _
      cases h
      exact .closeWriteFail id hk
    · cases h
  | closeSocket k =>
    simp only [Conn.step] at h
    split at h
    · rename_i hk
      cases h
      exact .closeSocket hk
    · cases h
  | closeFail k =>
    simp only [Conn.step] at h
    split at h
    · rename_i hk
      cases h
      exact .closeFail hk
    · cases h
  | read =>
    simp only [Conn.step] at h
    split at h
    · rename_i f rest hr hi
      cases h
      exact .read f rest hr hi
    · cases h
  | handOff =>
    simp only [Conn.step] at h
    split at h
    · rename_i c f hr
      split_ifs at h with hc
      cases h
      exact .handOff c f hr (by simpa using hc)
    · cases h
  | readError =>
    simp only [Conn.step] at h
    split at h
    · rename_i hr _
      cases h
      exact .readError hr
    · cases h
  | readerClose =>
    simp only [Conn.step] at h
    split at h
    · rename_i hr
      cases h
      exact .readerClose hr
    · cases h
  | serverSend f =>
    simp only [Conn.step] at h
    split_ifs at h
    cases h
    exact .serverSend f
  | hangUp =>
    cases h
    exact .hangUp

/-- A step that touches no sender and writes nothing. -/
structure Conn.SameSenders (s t : Conn) : Prop where
  calls : t.calls = s.calls
  ticklers : t.ticklers = s.ticklers
  closers : t.closers = s.closers
  sent : t.sent = s.sent

theorem Conn.fail_senders (s : Conn) (e : ConnErr) : s.SameSenders (s.fail e) := by
  unfold Conn.fail
  split_ifs <;> exact ⟨rfl, rfl, rfl, rfl⟩

theorem Conn.readFrame_senders (s : Conn) (f : Frame) : s.SameSenders (s.readFrame f) := by
  have hfail (e : ConnErr) : s.SameSenders { s.fail e with reader := .closing } := by
    have hf := s.fail_senders e
    exact ⟨hf.calls, hf.ticklers, hf.closers, hf.sent⟩
  unfold Conn.readFrame
  split_ifs
  · exact hfail _
  · split <;> exact ⟨rfl, rfl, rfl, rfl⟩
  · exact hfail _
  · exact ⟨rfl, rfl, rfl, rfl⟩

/-- The packet that a sender puts on the wire from its control point. -/
inductive Conn.Writes (s : Conn) : Packet → Prop
  | call {c : Nat} {h : Header} {payload : Bytes} (hc : s.calls c = .registered h payload) :
    Writes s ⟨.call c, h, payload⟩
  | tickle {k : Nat} {id : UInt16} (hk : s.ticklers k = .drawn id) :
    Writes s ⟨.tickle k, signalHeader cmdTickle id, []⟩
  | close {k : Nat} {id : UInt16} (hk : s.closers k = .drawn id) :
    Writes s ⟨.close k, signalHeader cmdCloseSession id, []⟩

theorem Conn.step_sent {s t : Conn} {a : ConnLabel} (h : s.step a = some t) :
    t.sent = s.sent ∨ ∃ p, s.Writes p ∧ t.sent = s.sent ++ [p] := by
  cases Conn.fires_of_step h with
  | write hd payload hc hn => exact .inr ⟨_, .call hc, rfl⟩
  | tickleWrite id hk hn => exact .inr ⟨_, .tickle hk, rfl⟩
  | closeWrite id hk hn => exact .inr ⟨_, .close hk, rfl⟩
  | closeFail hk => exact .inl (s.fail_senders .closed).sent
  | read f rest hr hi => exact .inl (Conn.readFrame_senders { s with inbound := rest } f).sent
  | readError hr => exact .inl (s.fail_senders .read).sent
  | _ => exact .inl rfl

def Packet.callOf (p : Packet) : Option Nat :=
  match p.origin with
  | .call c => some c
  | _ => none

/-- A step that touches no call, no channel and no frame. -/
structure Conn.Quiet (s t : Conn) : Prop where
  calls : t.calls = s.calls
  pending : t.pending = s.pending
  chans : t.chans = s.chans
  inbound : t.inbound = s.inbound
  answered : t.answered = s.answered
  handed : t.handed = s.handed
  sent : ∃ extra, t.sent = s.sent ++ extra ∧ extra.filterMap Packet.callOf = []
  reader : t.reader = s.reader ∨ ∀ c f, s.reader ≠ .handing c f ∧ t.reader ≠ .handing c f

theorem Conn.Quiet.of_sent {s t : Conn} (hc : t.calls = s.calls) (hp : t.pending = s.pending)
    (hch : t.chans = s.chans) (hi : t.inbound = s.inbound) (ha : t.answered = s.answered)
    (hh : t.handed = s.handed) (hs : t.sent = s.sent)
    (hr : t.reader = s.reader ∨ ∀ c f, s.reader ≠ .handing c f ∧ t.reader ≠ .handing c f) :
    s.Quiet t :=
  ⟨hc, hp, hch, hi, ha, hh, ⟨[], by simp [hs]⟩, hr⟩

theorem Conn.Quiet.sent_prefix {s t : Conn} (hq : s.Quiet t) : s.sent <+: t.sent := by
  obtain ⟨extra, he, -⟩ := hq.sent
  exact ⟨extra, he.symm⟩

theorem Conn.Quiet.sent_call {s t : Conn} (hq : s.Quiet t) {i c : Nat} {p : Packet}
    (hi : t.sent[i]? = some p) (hc : p.callOf = some c) : s.sent[i]? = some p := by
  obtain ⟨extra, he, hx⟩ := hq.sent
  by_cases hlt : i < s.sent.length
  · rwa [he, List.getElem?_append_left hlt] at hi
  · rw [he, List.getElem?_append_right (by omega)] at hi
    have hm : c ∈ extra.filterMap Packet.callOf :=
      List.mem_filterMap.mpr ⟨p, List.mem_of_getElem? hi, hc⟩
    simp [hx] at hm

theorem Conn.fail_quiet (s : Conn) (e : ConnErr) : s.Quiet (s.fail e) := by
  unfold Conn.fail
  split_ifs <;> exact .of_sent rfl rfl rfl rfl rfl rfl rfl (.inl rfl)

def Frame.isReply (f : Frame) : Prop := f.header.length ≤ maxPayload ∧ f.header.flags = flagReply

instance (f : Frame) : Decidable f.isReply :=
  inferInstanceAs (Decidable (f.header.length ≤ maxPayload ∧ f.header.flags = flagReply))

theorem Conn.readFrame_reply {s : Conn} {f : Frame} {c : Nat} (hf : f.isReply)
    (hp : s.pending f.header.requestID = some c) :
    s.readFrame f = { s with reader := .handing c f } := by
  have hl : ¬ maxPayload < f.header.length := UInt32.not_lt.mpr hf.1
  simp [Conn.readFrame, hl, hf.2, hp]

theorem Conn.readFrame_unknown {s : Conn} {f : Frame} (hf : f.isReply)
    (hp : s.pending f.header.requestID = none) : s.readFrame f = s := by
  have hl : ¬ maxPayload < f.header.length := UInt32.not_lt.mpr hf.1
  simp [Conn.readFrame, hl, hf.2, hp]

theorem Conn.readFrame_quiet {s : Conn} {f : Frame} (hr : s.reader = .reading) (hf : ¬ f.isReply) :
    s.Quiet (s.readFrame f) := by
  have hfail (e : ConnErr) : s.Quiet { s.fail e with reader := .closing } := by
    have hq := s.fail_quiet e
    exact ⟨hq.calls, hq.pending, hq.chans, hq.inbound, hq.answered, hq.handed, hq.sent,
      .inr (fun _ _ => by simp [hr])⟩
  unfold Conn.readFrame
  split_ifs with hl hfl hc
  · exact hfail _
  · exact absurd ⟨UInt32.not_lt.mp hl, hfl⟩ hf
  · exact hfail _
  · exact .of_sent rfl rfl rfl rfl rfl rfl rfl (.inl rfl)

inductive Conn.Effect (s : Conn) : ConnLabel → Conn → Prop
  | refused {c cmd off payload} (e : ConnErr) (h : s.calls c = .idle) :
    Effect s (.register c cmd off payload) (s.setCall c (.returned (.failed e)))
  | register {c cmd off payload} (id : UInt16) (h : s.calls c = .idle) (hid : s.drawID = some id) :
    Effect s (.register c cmd off payload)
      { s with
        nextID := id
        pending := Function.update s.pending id (some c)
        calls :=
          Function.update s.calls c (.registered (requestHeader cmd id off payload) payload) }
  | write {c} (hd : Header) (payload : Bytes) (h : s.calls c = .registered hd payload) :
    Effect s (.write c) ((s.send ⟨.call c, hd, payload⟩).setCall c (.waiting hd.requestID))
  | writeFail {c} (hd : Header) (payload : Bytes) (h : s.calls c = .registered hd payload) :
    Effect s (.writeFail c) (s.setCall c (.leaving hd.requestID (.failed .write)))
  | seeDone {c} (id : UInt16) (e : ConnErr) (h : s.calls c = .waiting id) :
    Effect s (.seeDone c) (s.setCall c (.leaving id (.failed e)))
  | cancel {c} (id : UInt16) (h : s.calls c = .waiting id) :
    Effect s (.cancel c) (s.setCall c (.leaving id .cancelled))
  | receive {c} (id : UInt16) (f : Frame) (h : s.calls c = .waiting id) (hf : s.chans c = some f) :
    Effect s (.receive c)
      ({ s with chans := Function.update s.chans c none }.setCall c (.leaving id (.reply f)))
  | unregister {c} (id : UInt16) (res : Outcome) (h : s.calls c = .leaving id res) :
    Effect s (.unregister c) ((s.unregister id).setCall c (.returned res))
  | dispatch (f : Frame) (rest : List Frame) (c : Nat) (hr : s.reader = .reading)
      (hi : s.inbound = f :: rest) (hf : f.isReply) (hp : s.pending f.header.requestID = some c) :
    Effect s .read { s with inbound := rest, reader := .handing c f }
  | drop (f : Frame) (rest : List Frame) (hr : s.reader = .reading) (hi : s.inbound = f :: rest)
      (hf : f.isReply) (hp : s.pending f.header.requestID = none) :
    Effect s .read { s with inbound := rest }
  | other {t} (f : Frame) (rest : List Frame) (hr : s.reader = .reading)
    (hi : s.inbound = f :: rest)
      (hf : ¬ f.isReply) (hq : Conn.Quiet { s with inbound := rest } t) : Effect s .read t
  | handOff (c : Nat) (f : Frame) (hr : s.reader = .handing c f) (hc : s.chans c = none) :
    Effect s .handOff
      { s with
        chans := Function.update s.chans c (some f)
        reader := .reading
        handed := s.handed ++ [(c, f)] }
  | serverSend (f : Frame) :
    Effect s (.serverSend f)
      { s with inbound := s.inbound ++ [f], answered := s.answered ++ f.answers.toList }
  | quiet {a t} (h : s.Quiet t) : Effect s a t

theorem Conn.effect_readFrame {s : Conn} {f : Frame} {rest : List Frame} (hr : s.reader = .reading)
    (hi : s.inbound = f :: rest) : s.Effect .read ({ s with inbound := rest }.readFrame f) := by
  by_cases hf : f.isReply
  · cases hp : s.pending f.header.requestID with
    | none =>
      rw [Conn.readFrame_unknown hf (by exact hp)]
      exact .drop f rest hr hi hf hp
    | some c =>
      rw [Conn.readFrame_reply hf (by exact hp)]
      exact .dispatch f rest c hr hi hf hp
  · exact .other f rest hr hi hf (Conn.readFrame_quiet hr hf)

theorem Conn.step_effect {s t : Conn} {a : ConnLabel} (h : s.step a = some t) : s.Effect a t := by
  cases Conn.fires_of_step h with
  | refused e hc he => exact .refused e hc
  | register id hc hn hid => exact .register id hc hid
  | write hd payload hc hn => exact .write hd payload hc
  | writeFail hd payload hc => exact .writeFail hd payload hc
  | receive id f hc hf => exact .receive id f hc hf
  | seeDone id e hc he => exact .seeDone id e hc
  | cancel id hc => exact .cancel id hc
  | unregister id res hc => exact .unregister id res hc
  | read f rest hr hi => exact Conn.effect_readFrame hr hi
  | handOff c f hr hc => exact .handOff c f hr hc
  | serverSend f => exact .serverSend f
  -- what is left are the tickle and close goroutines and the ends of the read loop
  | tickleWrite id hk hn => exact .quiet ⟨rfl, rfl, rfl, rfl, rfl, rfl, ⟨_, rfl, rfl⟩, .inl rfl⟩
  | closeWrite id hk hn => exact .quiet ⟨rfl, rfl, rfl, rfl, rfl, rfl, ⟨_, rfl, rfl⟩, .inl rfl⟩
  | closeFail hk =>
    have hq := s.fail_quiet .closed
    exact .quiet
      ⟨hq.calls, hq.pending, hq.chans, hq.inbound, hq.answered, hq.handed, hq.sent, hq.reader⟩
  | readError hr =>
    have hq := s.fail_quiet .read
    exact .quiet ⟨hq.calls, hq.pending, hq.chans, hq.inbound, hq.answered, hq.handed, hq.sent,
      .inr (fun _ _ => by simp [hr])⟩
  | readerClose hr =>
    exact .quiet (.of_sent rfl rfl rfl rfl rfl rfl rfl (.inr (fun _ _ => by simp [hr])))
  | _ => exact .quiet (.of_sent rfl rfl rfl rfl rfl rfl rfl (.inl rfl))

theorem Conn.step_read_reply {s : Conn} {f : Frame} {rest : List Frame} {c : Nat}
    (hr : s.reader = .reading) (hi : s.inbound = f :: rest) (hf : f.isReply)
    (hp : s.pending f.header.requestID = some c) :
    s.step .read = some { s with inbound := rest, reader := .handing c f } := by
  simp only [Conn.step]
  split
  · rename_i g rest' _ hi'
    obtain ⟨rfl, rfl⟩ := List.cons.inj (hi.symm.trans hi')
    rw [Conn.readFrame_reply hf (by exact hp)]
  · rename_i hno
    exact (hno f rest hr hi).elim

theorem Conn.searchID_free {pending : UInt16 → Option Nat} {fuel : Nat} {next id : UInt16}
    (h : Conn.searchID pending fuel next = some id) : pending id = none := by
  induction fuel generalizing next with
  | zero => simp [Conn.searchID] at h
  | succ fuel ih =>
    simp only [Conn.searchID] at h
    split_ifs at h with hp
    · cases h
      simpa using hp
    · exact ih h

end GoAfp
