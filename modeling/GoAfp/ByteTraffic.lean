import GoAfp.ByteConn

/-! What goes through the connection over bytes. Inwards, the replies that the
calls get are frames of the stream as a whole. Outwards, the stream holds the
packets one after another even when a write fails halfway. -/

namespace GoAfp

section Replies

def ReaderPhase.carried : ReaderPhase → List Frame
  | .handing _ f => [f]
  | _ => []

/-- The frames that the reader took for a call: those handed over and the one
in its hands. -/
def Conn.dispatched (s : Conn) : List Frame := s.handed.map Prod.snd ++ s.reader.carried

theorem Conn.fail_dispatched (s : Conn) (e : ConnErr) : (s.fail e).dispatched = s.dispatched := by
  unfold Conn.fail
  split_ifs <;> rfl

theorem Conn.step_dispatched {s t : Conn} {a : ConnLabel} (ha : a.offStream)
    (h : s.step a = some t) :
    t.dispatched = s.dispatched := by
  cases Conn.fires_of_step h with
  | read f rest hr hi => exact ha.elim
  | handOff c f hr hc => simp [Conn.dispatched, hr, ReaderPhase.carried]
  | readError hr =>
    have hhanded : (s.fail .read).handed = s.handed := (s.fail_quiet .read).handed
    simp [Conn.dispatched, hr, hhanded, ReaderPhase.carried]
  | readerClose hr => simp [Conn.dispatched, hr, ReaderPhase.carried]
  | closeFail hk => exact s.fail_dispatched .closed
  | _ => rfl

theorem Conn.readFrame_dispatched {s : Conn} (hr : s.reader = .reading) (f : Frame) :
    (s.readFrame f).dispatched.Sublist (s.dispatched ++ [f]) := by
  have hfail (e : ConnErr) : (s.fail e).handed = s.handed := (s.fail_quiet e).handed
  have hnone : s.dispatched = s.handed.map Prod.snd := by
    simp [Conn.dispatched, hr, ReaderPhase.carried]
  unfold Conn.readFrame
  split_ifs
  · simp only [Conn.dispatched, hfail, ReaderPhase.carried, List.append_nil, List.append_assoc]
    exact List.sublist_append_left _ _
  · cases s.pending f.header.requestID with
    | none => exact List.sublist_append_left _ _
    | some c =>
      rw [hnone]
      exact List.Sublist.refl _
  · simp only [Conn.dispatched, hfail, ReaderPhase.carried, List.append_nil, List.append_assoc]
    exact List.sublist_append_left _ _
  · exact List.sublist_append_left _ _

theorem ByteConn.take_next {s : ByteConn} {f : Frame}
    (h : s.frames.drop s.taken = f :: s.frames.drop (s.taken + 1)) :
    s.frames.take (s.taken + 1) = s.frames.take s.taken ++ [f] := by
  have hget : s.frames[s.taken]? = some f := by
    rw [← List.head?_drop, h, List.head?_cons]
  rw [List.take_add_one, hget]
  rfl

/-- The frames handed to calls are among those read, in their order. -/
theorem ByteConn.dispatched_of_reach {ok : ByteConn → ByteLabel → Prop} {tr : List ByteLabel}
    {s : ByteConn} (h : byteSystem.Reach ok tr s) :
    s.Sound ∧ s.conn.dispatched.Sublist (s.frames.take s.taken) := by
  refine h.invariant (I := fun s => s.Sound ∧ s.conn.dispatched.Sublist (s.frames.take s.taken))
    ⟨ByteConn.refines.init.1, List.nil_sublist _⟩ ?_
  intro s a t ⟨hs, hd⟩ _ hstep
  refine ⟨(ByteConn.refines.step hs hstep).1, ?_⟩
  cases ByteConn.fires_of_step hstep with
  | conn ha hu =>
    rw [Conn.step_dispatched ha hu]
    exact hd
  | cut p hp hu hn =>
    rw [Conn.step_dispatched (Conn.failing_offStream hp) hu]
    exact hd
  | arrive hup hlen =>
    rw [hs.frames_gets, ByteConn.gets, List.take_append_of_le_length hs.taken_frames]
    exact hd
  | more p hr hw hn hf => exact hd
  | frame f hr hw hn hf =>
    obtain ⟨-, hcons⟩ := hs.frame (ReaderPhase.loops_reading hr) hw hf s.conn
    change (s.conn.readFrame (frameOf f s.tag)).dispatched.Sublist (s.frames.take (s.taken + 1))
    rw [ByteConn.take_next hcons]
    exact (Conn.readFrame_dispatched hr _).trans (hd.append_right _)
  | refused hd' hr hw hn hf =>
    obtain ⟨-, hcons⟩ := hs.refused (ReaderPhase.loops_reading hr) hw hf
      (u := { s.conn.fail (.oversize hd'.length) with reader := .closing }) id
    have hread : s.conn.readFrame (frameOf (hd', []) s.tag) =
        { s.conn.fail (.oversize hd'.length) with reader := .closing } :=
          if_pos (FrameFormat.feed_refused hf)
    change Conn.dispatched { s.conn.fail (.oversize hd'.length) with reader := .closing } |>.Sublist
      (s.frames.take (s.taken + 1))
    rw [← hread, ByteConn.take_next hcons]
    exact (Conn.readFrame_dispatched hr _).trans (hd.append_right _)

/-- What a call has in its channel or returns was handed to it. -/
structure HandedOver (calls : Nat → CallPhase) (chans : Nat → Option Frame)
    (handed : List (Nat × Frame)) : Prop where
  chans : ∀ c f, chans c = some f → (c, f) ∈ handed
  got : ∀ c f, (calls c).got = some f → (c, f) ∈ handed

section HandedOver

variable {calls : Nat → CallPhase} {chans : Nat → Option Frame} {handed : List (Nat × Frame)}

theorem HandedOver.call (h : HandedOver calls chans handed) {c : Nat} {p : CallPhase}
    (hp : ∀ f, p.got = some f → (c, f) ∈ handed) :
    HandedOver (Function.update calls c p) chans handed := by
  refine ⟨h.chans, fun d f hd => ?_⟩
  by_cases he : d = c
  · subst d
    exact hp f (by simpa using hd)
  · exact h.got d f (by simpa [Function.update_of_ne he] using hd)

theorem HandedOver.silent (h : HandedOver calls chans handed) {c : Nat} {p : CallPhase}
    (hp : p.got = none) :
    HandedOver (Function.update calls c p) chans handed :=
  h.call fun f hf => absurd (hp.symm.trans hf) (Option.some_ne_none f).symm

theorem HandedOver.chan (h : HandedOver calls chans handed) {c : Nat} {x : Option Frame}
    (hx : ∀ f, x = some f → (c, f) ∈ handed) :
    HandedOver calls (Function.update chans c x) handed := by
  refine ⟨fun d f hd => ?_, h.got⟩
  by_cases he : d = c
  · subst d
    exact hx f (by simpa using hd)
  · exact h.chans d f (by simpa [Function.update_of_ne he] using hd)

theorem HandedOver.hand (h : HandedOver calls chans handed) (x : Nat × Frame) :
    HandedOver calls chans (handed ++ [x]) :=
  ⟨fun c f hc => List.mem_append_left _ (h.chans c f hc),
    fun c f hc => List.mem_append_left _ (h.got c f hc)⟩

end HandedOver

def Conn.HandedOver (s : Conn) : Prop := GoAfp.HandedOver s.calls s.chans s.handed

theorem Conn.HandedOver.of_quiet {s t : Conn} (h : s.HandedOver) (hq : s.Quiet t) :
    t.HandedOver := by
  rw [Conn.HandedOver, hq.calls, hq.chans, hq.handed]
  exact h

theorem Conn.HandedOver.step {s t : Conn} {a : ConnLabel} (h : s.HandedOver)
    (hs : s.step a = some t) :
    t.HandedOver := by
  have h' : GoAfp.HandedOver s.calls s.chans s.handed := h
  cases Conn.step_effect hs with
  | refused e hc => exact h'.silent rfl
  | register id hc hid => exact h'.silent rfl
  | write hd payload hc => exact h'.silent rfl
  | writeFail hd payload hc => exact h'.silent rfl
  | seeDone id e hc => exact h'.silent rfl
  | cancel id hc => exact h'.silent rfl
  | receive id f hc hf =>
    refine (h'.chan fun g hg => ?_).call fun g hg => ?_
    · cases hg
    · cases hg
      exact h'.chans _ f hf
  | @unregister c id res hc =>
    refine h'.call fun f hf => h'.got c f ?_
    rw [hc]
    cases res with
    | reply g => exact hf
    | failed e => cases hf
    | cancelled => cases hf
  | dispatch f rest c hr hi hf hp => exact h'
  | drop f rest hr hi hf hp => exact h'
  | other f rest hr hi hf hq =>
    exact Conn.HandedOver.of_quiet (s := { s with inbound := rest }) h' hq
  | handOff c f hr hc =>
    refine (h'.hand (c, f)).chan fun g hg => ?_
    cases hg
    exact List.mem_append_right _ List.mem_cons_self
  | serverSend f => exact h'
  | quiet hq => exact h.of_quiet hq

theorem Conn.handedOver_of_reach {ok : Conn → ConnLabel → Prop} {tr : List ConnLabel} {s : Conn}
    (h : connSystem.Reach ok tr s) : s.HandedOver :=
  h.invariant (I := Conn.HandedOver) ⟨by simp [connSystem], by simp [connSystem, CallPhase.got]⟩
    fun hi _ hs => hi.step hs

/-- However the stream is cut into pieces, the frames handed to calls are
frames of the whole stream, each at most once and in the order of the server,
and a call returns one that was handed to it. With an honest server and fresh
IDs it is the reply to the call's own packet. -/
theorem byte_replies :
    (∀ tr s, byteSystem.Reach System.free tr s →
      (s.conn.handed.map Prod.snd).Sublist s.frames ∧
        ∀ c f, s.conn.calls c = .returned (.reply f) → (c, f) ∈ s.conn.handed) ∧
    ∀ tr s, byteSystem.Reach (connSystem.lifted ByteConn.abs ByteConn.labels fun s a => Honest s a ∧
      FreshID s a) tr s →
      ∀ c f, s.conn.calls c = .returned (.reply f) → s.conn.Own c f := by
  constructor
  · intro tr s h
    obtain ⟨-, hd⟩ := ByteConn.dispatched_of_reach h
    obtain ⟨-, tr', hr⟩ := ByteConn.refines.reach_free h
    refine ⟨((List.sublist_append_left _ _).trans hd).trans (List.take_sublist _ _),
      fun c f hc => ?_⟩
    exact (Conn.handedOver_of_reach hr).got c f (congrArg CallPhase.got hc)
  · intro tr s h c f hc
    obtain ⟨-, tr', hr⟩ := ByteConn.refines.reach h
    exact (Conn.routed_of_reach hr).2.got c f (congrArg CallPhase.got hc)

def oneCall : List ByteLabel := [.conn (.register 0 cmdCommand 0 []), .conn (.write 0)]

def asked : ByteConn := (byteSystem.exec byteSystem.init oneCall).getD byteSystem.init

def takeReply : List ByteLabel :=
  [.readSome 3, .readSome 13, .conn .handOff, .conn (.receive 0), .conn (.unregister 0)]

/-- A call and the reply to it, read in two pieces. -/
theorem byte_replies_pieces :
    ∃ tr s, byteSystem.Reach (connSystem.lifted ByteConn.abs ByteConn.labels fun s a => Honest s a ∧
      FreshID s a) tr s ∧
      s.conn.calls 0 = .returned (.reply (commandReply 1 0)) ∧ s.conn.Own 0 (commandReply 1 0) := by
  let ok := connSystem.lifted ByteConn.abs ByteConn.labels fun s a => Honest s a ∧ FreshID s a
  let b := (commandReply 1 0).header.encode
  have hcall : byteSystem.Reach ok oneCall asked := by
    refine System.Reach.nil.exec_isSome (System.admits_cons ?_ ?_) (by decide +kernel)
    · refine System.admits_cons ⟨trivial, fun id _ i p c hp => ?_⟩ (by simp)
      rw [ByteConn.refines.init.2] at hp
      cases hp
    · intro a ha s
      obtain rfl := List.mem_singleton.mp ha
      exact System.admits_cons ⟨trivial, trivial⟩ (by simp)
  have hnew : asked.newFrames b = [((commandReply 1 0).header, [])] := by decide +kernel
  have hreply : byteSystem.Reach ok (oneCall ++ [.arrive b [some 0]]) (asked.gets b [some 0]) := by
    refine hcall.snoc ?_ ?_
    · have hlabels : asked.labels (.arrive b [some 0]) = [.serverSend (commandReply 1 0)] := by
        rw [ByteConn.labels, hnew]
        rfl
      change System.Admits _ _ _ (asked.labels (.arrive b [some 0]))
      rw [hlabels]
      refine System.admits_cons
        ⟨⟨fun _ => ⟨⟨0, _, 0, rfl, rfl, rfl, rfl⟩, ?_⟩, fun h => absurd rfl h⟩, trivial⟩ (by simp)
      rintro i - hi
      cases hi
    · have hno : ¬ (asked.conn.hungUp ∨ [some 0].length ≠ (asked.newFrames b).length) := by
        rw [hnew]
        decide
      exact if_neg hno
  have hadm : byteSystem.Admits ok (asked.gets b [some 0]) takeReply := by
    have hread (n : Nat) (s : ByteConn) : ok s (.readSome n) := by
      refine System.admits_of_forall fun c hc t => ?_
      rw [ByteConn.labels] at hc
      split at hc
      · cases hc
      · obtain rfl := List.mem_singleton.mp hc
        exact ⟨trivial, trivial⟩
    refine System.admits_of_forall fun a ha s => ?_
    simp only [takeReply, List.mem_cons, List.not_mem_nil, or_false] at ha
    rcases ha with rfl | rfl | rfl | rfl | rfl
    · exact hread 3 s
    · exact hread 13 s
    · exact System.admits_cons ⟨trivial, trivial⟩ (by simp)
    · exact System.admits_cons ⟨trivial, trivial⟩ (by simp)
    · exact System.admits_cons ⟨trivial, trivial⟩ (by simp)
  have hr := hreply.exec_isSome hadm (by decide +kernel)
  have hc :
      ((byteSystem.exec (asked.gets b [some 0]) takeReply).getD
        (asked.gets b [some 0])).conn.calls 0 =
      .returned (.reply (commandReply 1 0)) := by decide +kernel
  exact ⟨_, _, hr, hc, byte_replies.2 _ _ hr 0 _ hc⟩

end Replies

section Writes

/-- The calls pass payloads whose length the header can hold. -/
def Bounded (_ : Conn) : ConnLabel → Prop
  | .register _ _ _ payload => payload.length < 2 ^ 32
  | _ => True

structure Conn.Fits (s : Conn) : Prop where
  calls : ∀ c h payload, s.calls c = .registered h payload → dsiFormat.WellSized (h, payload)
  sent : ∀ p ∈ s.sent, dsiFormat.WellSized p.contents

theorem Conn.Fits.writes {s : Conn} (h : s.Fits) {p : Packet} (hp : s.Writes p) :
    dsiFormat.WellSized p.contents := by
  cases hp with
  | call hc => exact h.calls _ _ _ hc
  | tickle hk => rfl
  | close hk => rfl

theorem requestHeader_wellSized {payload : Bytes} (h : payload.length < 2 ^ 32) (cmd : UInt8)
    (id : UInt16) (off : UInt32) :
    dsiFormat.WellSized (requestHeader cmd id off payload, payload) := by
  change payload.length = (UInt32.ofNat payload.length).toNat
  rw [UInt32.toNat_ofNat', Nat.mod_eq_of_lt h]

theorem Conn.Fits.calls_update {s : Conn} (h : s.Fits) {c : Nat} {p : CallPhase}
    (hp : ∀ hd payload, p = .registered hd payload → dsiFormat.WellSized (hd, payload)) :
    ∀ d hd payload, Function.update s.calls c p d = .registered hd payload →
      dsiFormat.WellSized (hd, payload) := by
  intro d hd payload hc
  by_cases he : d = c
  · subst d
    exact hp hd payload (by simpa using hc)
  · exact h.calls d hd payload (by simpa only [Function.update_of_ne he] using hc)

theorem Conn.Fits.step {s t : Conn} {a : ConnLabel} (h : s.Fits) (hok : Bounded s a)
    (hs : s.step a = some t) :
    t.Fits where
  sent := by
    rcases Conn.step_sent hs with he | ⟨p, hp, he⟩
    · exact he ▸ h.sent
    · intro q hq
      rw [he, List.mem_append, List.mem_singleton] at hq
      rcases hq with hq | rfl
      · exact h.sent q hq
      · exact h.writes hp
  calls := by
    cases Conn.step_effect hs with
    | refused e hc => exact h.calls_update (by simp)
    | @register c cmd off payload id hc hid =>
      refine h.calls_update fun hd p he => ?_
      cases he
      exact requestHeader_wellSized hok _ _ _
    | write hd payload hc => exact h.calls_update (by simp)
    | writeFail hd payload hc => exact h.calls_update (by simp)
    | seeDone id e hc => exact h.calls_update (by simp)
    | cancel id hc => exact h.calls_update (by simp)
    | receive id f hc hf => exact h.calls_update (by simp)
    | unregister id res hc => exact h.calls_update (by simp)
    | other f rest hr hi hf hq => exact hq.calls ▸ h.calls
    | quiet hq => exact hq.calls ▸ h.calls
    | _ => exact h.calls

theorem Conn.fits_of_reach {tr : List ConnLabel} {s : Conn} (h : connSystem.Reach Bounded tr s) :
    s.Fits :=
  h.invariant (I := Conn.Fits) ⟨by simp [connSystem], by simp [connSystem]⟩ fun hi hok hs =>
    hi.step hok hs

theorem Conn.failing_writes {s : Conn} {a : ConnLabel} {p : Packet} (h : s.failing a = some p) :
    s.Writes p := by
  unfold Conn.failing at h
  split at h
  · split at h
    · rename_i hc
      cases h
      exact .call hc
    · cases h
  · split at h
    · rename_i hk
      cases h
      exact .tickle hk
    · cases h
  · split at h
    · rename_i hk
      cases h
      exact .close hk
    · cases h
  · cases h

theorem Conn.failing_sent {s t : Conn} {a : ConnLabel} {p : Packet} (h : s.failing a = some p)
    (hs : s.step a = some t) : t.sent = s.sent := by
  cases Conn.fires_of_step hs with
  | writeFail hd payload hc => rfl
  | tickleEnd ha => rfl
  | closeWriteFail id hk => rfl
  | _ => cases h

/-- A transport that has taken part of a packet takes nothing after it. -/
def ByteConn.StopsAfterCut (s : ByteConn) : ByteLabel → Prop
  | .conn a => s.cutOff → ∀ t, s.conn.step a = some t → t.sent = s.conn.sent
  | .cut _ n => s.cutOff → n = 0
  | _ => True

def ByteConn.WritesEnd (s : ByteConn) (a : ByteLabel) : Prop :=
  connSystem.lifted ByteConn.abs ByteConn.labels Bounded s a ∧ s.StopsAfterCut a

/-- `part` is what went out of a packet whose write failed. -/
structure ByteConn.Outgoing (s : ByteConn) (p : Packet) (part : Bytes) : Prop where
  out : s.out = s.conn.wire ++ part
  whole : s.cutOff = false → part = []
  sized : dsiFormat.WellSized p.contents
  begun : part <+: p.buf
  short : part.length < p.buf.length

theorem Conn.wire_step {s t : Conn} {a : ConnLabel} (h : s.step a = some t) :
    t.wire = s.wire ++ (t.sent.drop s.sent.length).flatMap Packet.buf := by
  rcases Conn.step_sent h with he | ⟨p, -, he⟩
  · rw [Conn.wire, he, List.drop_length, List.flatMap_nil, List.append_nil]
    rfl
  · rw [Conn.wire, he, List.drop_left, List.flatMap_append]
    rfl

theorem ByteConn.outgoing_of_reach {tr : List ByteLabel} {s : ByteConn}
    (h : byteSystem.Reach ByteConn.WritesEnd tr s) : ∃ p part, s.Outgoing p part := by
  induction h with
  | nil =>
    exact ⟨⟨.tickle 0, signalHeader cmdTickle 0, []⟩, [], rfl, fun _ => rfl, rfl,
      List.nil_prefix, by decide⟩
  | @snoc tr s t a hr hok hs ih =>
    obtain ⟨p, part, ho⟩ := ih
    obtain ⟨-, tr', habs⟩ := ByteConn.refines.reach (hr.mono fun hok => hok.1)
    have hfits := Conn.fits_of_reach habs
    cases ByteConn.fires_of_step hs with
    | @conn a u ha hu =>
      refine ⟨p, part, ?_, ho.whole, ho.sized, ho.begun, ho.short⟩
      change s.out ++ (u.sent.drop s.conn.sent.length).flatMap Packet.buf = u.wire ++ part
      rw [ho.out, Conn.wire_step hu]
      cases hc : s.cutOff with
      | true => simp [hok.2 hc u hu]
      | false => simp [ho.whole hc]
    | @cut a n u q hq hu hn =>
      have hwire : u.wire = s.conn.wire := by rw [Conn.wire, Conn.failing_sent hq hu, Conn.wire]
      cases hc : s.cutOff with
      | true =>
        -- nothing goes out of this packet, so the end of the stream is still the first one's part
        obtain rfl : n = 0 := hok.2 hc
        refine ⟨p, part, ?_, by simp, ho.sized, ho.begun, ho.short⟩
        change s.out ++ q.buf.take 0 = u.wire ++ part
        rw [ho.out, hwire, List.take_zero, List.append_nil]
      | false =>
        refine ⟨q, q.buf.take n, ?_, fun hcut => ?_, ?_, List.take_prefix _ _, ?_⟩
        · change s.out ++ q.buf.take n = u.wire ++ q.buf.take n
          rw [ho.out, ho.whole hc, List.append_nil, hwire]
        · obtain rfl : n = 0 := by simpa [hc] using hcut
          exact List.take_zero
        · exact hfits.writes (Conn.failing_writes (s := s.abs) (a := a) hq)
        · rw [List.length_take]
          omega
    | arrive hup hlen => exact ⟨p, part, ho.out, ho.whole, ho.sized, ho.begun, ho.short⟩
    | more q hr hw hn hf => exact ⟨p, part, ho.out, ho.whole, ho.sized, ho.begun, ho.short⟩
    | frame f hr hw hn hf =>
      have hsent := (s.conn.readFrame_senders (frameOf f s.tag)).sent
      refine ⟨p, part, ?_, ho.whole, ho.sized, ho.begun, ho.short⟩
      change s.out = (s.conn.readFrame (frameOf f s.tag)).sent.flatMap Packet.buf ++ part
      rw [hsent]
      exact ho.out
    | refused hd hr hw hn hf =>
      have hsent := (s.conn.fail_senders (.oversize hd.length)).sent
      refine ⟨p, part, ?_, ho.whole, ho.sized, ho.begun, ho.short⟩
      change s.out = (s.conn.fail (.oversize hd.length)).sent.flatMap Packet.buf ++ part
      rw [hsent]
      exact ho.out

/-- Whatever goes wrong with writes, the outgoing stream holds the sent packets
in the order of the write lock, if the transport takes nothing after a part of
a packet. What the server has of it at any time is cut into the first of them,
and all of it into all of them. -/
theorem byte_writes {tr : List ByteLabel} {s : ByteConn}
    (h : byteSystem.Reach ByteConn.WritesEnd tr s) :
    (dsiFormat.cut s.out).1 = s.conn.sent.map Packet.contents ∧
      ∀ b, b <+: s.out → (dsiFormat.cut b).1 <+: s.conn.sent.map Packet.contents := by
  obtain ⟨p, part, ho⟩ := ByteConn.outgoing_of_reach h
  obtain ⟨-, tr', habs⟩ := ByteConn.refines.reach (h.mono fun hok => hok.1)
  have hfits : ∀ f ∈ s.conn.sent.map Packet.contents, dsiFormat.WellSized f :=
    List.forall_mem_map.mpr (Conn.fits_of_reach habs).sent
  have hout := ho.out
  rw [Conn.wire_eq] at hout
  have hpart : dsiFormat.cut part = ([], part) :=
    dsiFormat.cut_of_none (FrameFormat.next_short ho.sized ho.begun ho.short)
  constructor
  · rw [hout, dsiFormat.cut_frames hfits, hpart, List.append_nil]
  · intro b hb
    rw [hout] at hb
    exact FrameFormat.cut_partial hfits ho.sized ho.begun ho.short hb

/-- A write that breaks off in the header of its packet, and one that fails
after it. -/
def brokenWrite : List ByteLabel :=
  [.conn (.register 0 cmdCommand 0 []), .conn (.register 1 cmdCommand 0 []), .conn .hangUp,
    .cut (.writeFail 0) 7, .cut (.writeFail 1) 0]

theorem byte_writes_brokenWrite :
    ∃ s, byteSystem.Reach ByteConn.WritesEnd brokenWrite s ∧ s.out.length = 7 ∧
      (dsiFormat.cut s.out).1 = [] := by
  have hlift : ∀ a ∈ brokenWrite, ∀ s,
      connSystem.lifted ByteConn.abs ByteConn.labels Bounded s a := by
    refine fun a ha s => System.admits_of_forall fun b hb t => ?_
    simp only [brokenWrite, List.mem_cons, List.not_mem_nil, or_false] at ha
    rcases ha with rfl | rfl | rfl | rfl | rfl <;>
    · obtain rfl := List.mem_singleton.mp hb
      simp [Bounded]
  have hadm : byteSystem.Admits ByteConn.WritesEnd byteSystem.init brokenWrite := by
    have hopen (a : ConnLabel) {s : ByteConn} (hs : s.cutOff = false) :
        s.StopsAfterCut (.conn a) := by
      simp [ByteConn.StopsAfterCut, hs]
    refine ⟨⟨hlift _ (by simp [brokenWrite]) _, hopen _ rfl⟩,
      ⟨hlift _ (by simp [brokenWrite]) _, hopen _ rfl⟩,
      ⟨hlift _ (by simp [brokenWrite]) _, hopen _ rfl⟩,
      ⟨hlift _ (by simp [brokenWrite]) _, fun hc => ?_⟩,
      ⟨hlift _ (by simp [brokenWrite]) _, fun _ => rfl⟩, trivial⟩
    cases hc
  have hr := System.Reach.nil.exec_isSome hadm (by decide +kernel)
  exact ⟨_, hr, by decide +kernel, (byte_writes hr).1⟩

end Writes

end GoAfp
