import GoAfp.ConnInvariant

/-! Whose reply a call returns. The request ID of an abandoned call is free
again at once, while its packet may still be answered. A later call that
draws the same ID after the counter has wrapped can then be handed the reply
to the abandoned packet. Apart from that the routing is right. -/

namespace GoAfp

def Conn.Own (s : Conn) (c : Nat) (f : Frame) : Prop :=
  ∃ i p, f.answers = some i ∧ s.sent[i]? = some p ∧ p.callOf = some c

def Conn.Matches (s : Conn) (f : Frame) : Prop :=
  ∃ i p c, f.answers = some i ∧ s.sent[i]? = some p ∧ p.callOf = some c ∧
    f.header.requestID = p.header.requestID

/-- The server replies to the packets of calls only, to each at most once and
under its request ID. Its other frames answer nothing. -/
def Honest (s : Conn) : ConnLabel → Prop
  | .serverSend f =>
    (f.header.flags = flagReply → s.Matches f ∧ ∀ i ∈ f.answers, i ∉ s.answered) ∧
      (f.header.flags ≠ flagReply → f.answers = none)
  | _ => True

/-- The packet may still cause a reply to be dispatched. -/
def Conn.Live (s : Conn) (i : Nat) : Prop :=
  i ∉ s.answered ∨ ∃ f ∈ s.inbound, f.answers = some i

def Conn.Settled (s : Conn) (id : UInt16) : Prop :=
  ∀ i p c, s.sent[i]? = some p → p.callOf = some c → p.header.requestID = id → ¬ s.Live i

/-- No call draws an ID under which a packet is still live. -/
def FreshID (s : Conn) : ConnLabel → Prop
  | .register _ _ _ _ => ∀ id, s.drawID = some id → s.Settled id
  | _ => True

def CallPhase.got : CallPhase → Option Frame
  | .leaving _ (.reply f) => some f
  | .returned (.reply f) => some f
  | _ => none

theorem getElem?_of_prefix {α : Type*} {l m : List α} (h : l <+: m) {i : Nat} {a : α}
    (hi : l[i]? = some a) : m[i]? = some a := by
  obtain ⟨tail, rfl⟩ := h
  rw [List.getElem?_append_left (List.getElem?_eq_some_iff.mp hi).1, hi]

theorem Conn.Own.mono {s t : Conn} {c : Nat} {f : Frame} (h : s.Own c f) (hs : s.sent <+: t.sent) :
    t.Own c f := by
  obtain ⟨i, p, hf, hp, hc⟩ := h
  exact ⟨i, p, hf, getElem?_of_prefix hs hp, hc⟩

theorem Conn.Matches.mono {s t : Conn} {f : Frame} (h : s.Matches f) (hs : s.sent <+: t.sent) :
    t.Matches f := by
  obtain ⟨i, p, c, hf, hp, hc, hid⟩ := h
  exact ⟨i, p, c, hf, getElem?_of_prefix hs hp, hc, hid⟩

structure Conn.Routed (s : Conn) : Prop where
  inbound : ∀ f ∈ s.inbound, f.header.flags = flagReply → s.Matches f
  live : ∀ i p c, s.sent[i]? = some p → p.callOf = some c → s.Live i →
    s.pending p.header.requestID = none ∨ s.pending p.header.requestID = some c
  handing : ∀ c f, s.reader = .handing c f → s.Own c f
  chans : ∀ c f, s.chans c = some f → s.Own c f
  got : ∀ c f, (s.calls c).got = some f → s.Own c f

theorem Conn.Routed.setCall {s : Conn} (h : s.Routed) {c : Nat} {p : CallPhase}
    (hp : ∀ f, p.got = some f → s.Own c f) : (s.setCall c p).Routed := by
  refine ⟨h.inbound, h.live, h.handing, h.chans, ?_⟩
  intro d f hd
  by_cases he : d = c
  · subst d
    exact hp f (by simpa [Conn.setCall] using hd)
  · exact h.got d f (by simpa [Conn.setCall, Function.update_of_ne he] using hd)

theorem Conn.Routed.of_quiet {s t : Conn} (h : s.Routed) (hq : s.Quiet t) : t.Routed := by
  have hpre := hq.sent_prefix
  refine ⟨?_, ?_, ?_, ?_, ?_⟩
  · intro f hf hr
    exact (h.inbound f (by simpa only [hq.inbound] using hf) hr).mono hpre
  · intro i p c hi hc hl
    have hl' : s.Live i := by simpa only [Conn.Live, hq.answered, hq.inbound] using hl
    simpa only [hq.pending] using h.live i p c (hq.sent_call hi hc) hc hl'
  · intro c f hr
    rcases hq.reader with hs | hn
    · exact (h.handing c f (hs ▸ hr)).mono hpre
    · exact absurd hr (hn c f).2
  · intro c f hc
    exact (h.chans c f (by simpa only [hq.chans] using hc)).mono hpre
  · intro c f hc
    exact (h.got c f (by simpa only [hq.calls] using hc)).mono hpre

theorem Conn.Routed.tail {s : Conn} (h : s.Routed) {f : Frame} {rest : List Frame}
    (hi : s.inbound = f :: rest) : ({ s with inbound := rest } : Conn).Routed := by
  refine ⟨?_, ?_, h.handing, h.chans, h.got⟩
  · intro g hg
    exact h.inbound g (by simp [hi, show g ∈ rest from hg])
  · intro i p c hp hc hl
    refine h.live i p c hp hc ?_
    rcases hl with hl | ⟨g, hg, he⟩
    · exact .inl hl
    · exact .inr ⟨g, by simp [hi, show g ∈ rest from hg], he⟩

theorem Conn.Routed.dispatched {s : Conn} (h : s.Routed) {f : Frame} {rest : List Frame} {c : Nat}
    (hi : s.inbound = f :: rest) (hf : f.isReply) (hp : s.pending f.header.requestID = some c) :
    s.Own c f := by
  have hmem : f ∈ s.inbound := by simp [hi]
  obtain ⟨i, p, d, ha, hs, hd, hid⟩ := h.inbound f hmem hf.2
  have hl := h.live i p d hs hd (.inr ⟨f, hmem, ha⟩)
  rw [← hid, hp] at hl
  have he : c = d := by simpa using hl
  exact ⟨i, p, ha, hs, he ▸ hd⟩

theorem Conn.Routed.register {s : Conn} (h : s.Routed) {c : Nat} {cmd : UInt8} {off : UInt32}
    {payload : Bytes} {id : UInt16} (hs : s.Settled id) :
    ({ s with
      nextID := id
      pending := Function.update s.pending id (some c)
      calls := Function.update s.calls c
        (.registered (requestHeader cmd id off payload) payload) } : Conn).Routed := by
  refine ⟨h.inbound, ?_, h.handing, h.chans, ?_⟩
  · -- the ID passes to the new call only when no earlier packet under it is live
    intro i p d hp hd hl
    have hne : p.header.requestID ≠ id := fun he => hs i p d hp hd he hl
    simpa [Function.update_of_ne hne] using h.live i p d hp hd hl
  · intro d f hd
    by_cases he : d = c
    · subst d
      simp [CallPhase.got] at hd
    · exact h.got d f (by simpa [Function.update_of_ne he] using hd)

theorem Conn.Routed.write {s : Conn} (h : s.Routed) (hw : s.WellFormed) {c : Nat} {hd : Header}
    {payload : Bytes} (hc : s.calls c = .registered hd payload) :
    ((s.send ⟨.call c, hd, payload⟩).setCall c (.waiting hd.requestID)).Routed := by
  have hpre : s.sent <+: (s.send ⟨.call c, hd, payload⟩).sent := List.prefix_append _ _
  have hsend : (s.send ⟨.call c, hd, payload⟩).Routed := by
    refine ⟨fun f hf hr => (h.inbound f hf hr).mono hpre, ?_,
      fun d f hr => (h.handing d f hr).mono hpre, fun d f hf => (h.chans d f hf).mono hpre,
      fun d f hf => (h.got d f hf).mono hpre⟩
    intro i p d hp hd' hl
    by_cases hlt : i < s.sent.length
    · rw [Conn.send, List.getElem?_append_left hlt] at hp
      exact h.live i p d hp hd' hl
    · rw [Conn.send, List.getElem?_append_right (by omega)] at hp
      have he := List.mem_of_getElem? hp
      rw [List.mem_singleton] at he
      subst p
      have hdc : c = d := by simpa [Packet.callOf] using hd'
      exact .inr (hdc ▸ (hw.holds c hd.requestID).mp (by simp [hc, CallPhase.holds]))
  exact hsend.setCall (by simp [CallPhase.got])

theorem Conn.Routed.serverSend {s : Conn} (h : s.Routed) {f : Frame}
    (hok : Honest s (.serverSend f)) :
    ({ s with inbound := s.inbound ++ [f], answered := s.answered ++ f.answers.toList } :
      Conn).Routed := by
  refine ⟨?_, ?_, h.handing, h.chans, h.got⟩
  · intro g hg hr
    rcases List.mem_append.mp hg with hg | hg
    · exact h.inbound g hg hr
    · rw [List.mem_singleton] at hg
      subst g
      exact (hok.1 hr).1
  · intro i p c hp hc hl
    refine h.live i p c hp hc ?_
    rcases hl with hl | ⟨g, hg, he⟩
    · exact .inl (fun hm => hl (List.mem_append_left _ hm))
    · rcases List.mem_append.mp hg with hg | hg
      · exact .inr ⟨g, hg, he⟩
      · rw [List.mem_singleton] at hg
        subst g
        by_cases hr : f.header.flags = flagReply
        · exact .inl ((hok.1 hr).2 i he)
        · exact absurd (he.symm.trans (hok.2 hr)) (by simp)

theorem Conn.Routed.step {s t : Conn} {a : ConnLabel} (h : s.Routed) (hw : s.WellFormed)
    (hok : Honest s a ∧ FreshID s a) (hs : s.step a = some t) : t.Routed := by
  cases Conn.step_effect hs with
  | refused e hc => exact h.setCall (by simp [CallPhase.got])
  | register id hc hid => exact h.register (hok.2 id hid)
  | write hd payload hc => exact h.write hw hc
  | writeFail hd payload hc => exact h.setCall (by simp [CallPhase.got])
  | seeDone id e hc => exact h.setCall (by simp [CallPhase.got])
  | cancel id hc => exact h.setCall (by simp [CallPhase.got])
  | @receive c id f hc hf =>
    have h' : ({ s with chans := Function.update s.chans c none } : Conn).Routed := by
      refine ⟨h.inbound, h.live, h.handing, ?_, h.got⟩
      intro d g hd
      by_cases he : d = c
      · subst d
        simp at hd
      · exact h.chans d g (by simpa [Function.update_of_ne he] using hd)
    refine h'.setCall (fun g hg => ?_)
    have he : f = g := by simpa [CallPhase.got] using hg
    exact he ▸ h.chans c f hf
  | @unregister c id res hc =>
    have h' : (s.unregister id).Routed := by
      refine ⟨h.inbound, ?_, h.handing, h.chans, h.got⟩
      intro i p d hp hd hl
      by_cases he : p.header.requestID = id
      · exact .inl (by simp [Conn.unregister, he])
      · simpa [Conn.unregister, Function.update_of_ne he] using h.live i p d hp hd hl
    refine h'.setCall (fun f hf => h.got c f ?_)
    cases res <;> simp_all [CallPhase.got]
  | dispatch f rest c hr hi hf hp =>
    have hown := h.dispatched hi hf hp
    have ht := h.tail hi
    refine ⟨ht.inbound, ht.live, ?_, ht.chans, ht.got⟩
    intro d g hd
    have he : c = d ∧ f = g := by simpa using hd
    exact he.1 ▸ he.2 ▸ hown
  | drop f rest hr hi hf hp => exact h.tail hi
  | other f rest hr hi hf hq => exact (h.tail hi).of_quiet hq
  | handOff c f hr hc =>
    refine ⟨h.inbound, h.live, by simp, ?_, h.got⟩
    intro d g hd
    by_cases he : d = c
    · subst d
      have hg : f = g := by simpa using hd
      exact hg ▸ h.handing c f hr
    · exact h.chans d g (by simpa [Function.update_of_ne he] using hd)
  | serverSend f => exact h.serverSend hok.1
  | quiet hq => exact h.of_quiet hq

theorem Conn.Routed.init : connSystem.init.Routed :=
  ⟨by simp [connSystem], by simp [connSystem], by simp [connSystem], by simp [connSystem],
    by simp [connSystem, CallPhase.got]⟩

theorem Conn.routed_of_reach {tr : List ConnLabel} {s : Conn}
    (h : connSystem.Reach (fun s a => Honest s a ∧ FreshID s a) tr s) : s.WellFormed ∧ s.Routed :=
  h.invariant (I := fun s => s.WellFormed ∧ s.Routed) ⟨.init, .init⟩
    (fun hi hok hs => ⟨hi.1.step hs, hi.2.step hi.1 hok hs⟩)

/-- As long as no call draws an ID whose earlier packet is still live, a call
that returns a reply returns the one the server produced for its packet. -/
theorem returned_reply_own {tr : List ConnLabel} {s : Conn}
    (h : connSystem.Reach (fun s a => Honest s a ∧ FreshID s a) tr s)
    {c : Nat} {f : Frame} (hr : s.calls c = .returned (.reply f)) : s.Own c f :=
  (Conn.routed_of_reach h).2.got c f (by simp [hr, CallPhase.got])

def commandReply (id : UInt16) (i : Nat) : Frame :=
  ⟨{ flags := flagReply, command := cmdCommand, requestID := id, errCode := 0, length := 0 },
    [], some i⟩

def roundTrip : List ConnLabel :=
  [.register 0 cmdCommand 0 [], .write 0, .serverSend (commandReply 1 0), .read, .handOff,
    .receive 0, .unregister 0]

theorem returned_reply_own_roundTrip :
    ∃ s, connSystem.Reach (fun s a => Honest s a ∧ FreshID s a) roundTrip s ∧
      s.calls 0 = .returned (.reply (commandReply 1 0)) ∧ s.Own 0 (commandReply 1 0) := by
  have hadm : connSystem.Admits (fun s a => Honest s a ∧
      FreshID s a) connSystem.init roundTrip := by
    refine ⟨⟨trivial, fun id _ i p c hp => by simp [connSystem] at hp⟩, ⟨trivial, trivial⟩,
      ⟨⟨fun _ => ?_, ?_⟩, trivial⟩, ⟨trivial, trivial⟩, ⟨trivial, trivial⟩, ⟨trivial, trivial⟩,
      ⟨trivial, trivial⟩, trivial⟩
    · exact ⟨⟨0, _, 0, rfl, rfl, rfl, rfl⟩, by rintro i - hi; cases hi⟩
    · intro hf
      exact absurd rfl hf
  have hrun : ∃ s, connSystem.exec connSystem.init roundTrip = some s ∧
      s.calls 0 = .returned (.reply (commandReply 1 0)) := ⟨_, rfl, rfl⟩
  obtain ⟨s, hs, hc⟩ := hrun
  have h := System.Reach.nil.exec hadm hs
  exact ⟨s, h, hc, returned_reply_own h hc⟩

/-- Calls `0, ..., k - 1` have each sent a packet and been cancelled, and none
of the packets has been answered. -/
structure Conn.Abandoned (s : Conn) (k : Nat) : Prop where
  nextID : s.nextID = UInt16.ofNat k
  pending : ∀ id, s.pending id = none
  closeErr : s.closeErr = none
  calls : ∀ c, k ≤ c → s.calls c = .idle
  chans : ∀ c, s.chans c = none
  reader : s.reader = .reading
  ncClosed : s.ncClosed = false
  hungUp : s.hungUp = false
  sent : s.sent = (List.range k).map fun c =>
    ⟨.call c, requestHeader cmdCommand (UInt16.ofNat (c + 1)) 0 [], []⟩
  inbound : s.inbound = []
  answered : s.answered = []

theorem Conn.drawID_of_free {s : Conn} (h : s.pending (s.nextID + 1) = none) :
    s.drawID = some (s.nextID + 1) := by
  simp [Conn.drawID, Conn.searchID, h]

def abandonRound (c : Nat) : List ConnLabel :=
  [.register c cmdCommand 0 [], .write c, .cancel c, .unregister c]

theorem Conn.Abandoned.round {s : Conn} {k : Nat} (h : s.Abandoned k) :
    ∃ t, connSystem.exec s (abandonRound k) = some t ∧ t.Abandoned (k + 1) := by
  have hd : s.drawID = some (UInt16.ofNat (k + 1)) := by
    rw [Conn.drawID_of_free (h.pending _), h.nextID, UInt16.ofNat_add]
    rfl
  refine ⟨{ s with
    nextID := UInt16.ofNat (k + 1)
    pending := Function.update s.pending (UInt16.ofNat (k + 1)) none
    calls := Function.update s.calls k (.returned .cancelled)
    sent :=
      s.sent ++ [⟨.call k, requestHeader cmdCommand (UInt16.ofNat (k + 1)) 0 [], []⟩] }, ?_, ?_⟩
  · simp [System.exec, abandonRound, connSystem, Conn.step, Conn.setCall, Conn.send,
      Conn.unregister, requestHeader, h.calls k le_rfl, h.closeErr, hd, h.ncClosed]
  · refine ⟨rfl, ?_, h.closeErr, ?_, h.chans, h.reader, h.ncClosed, h.hungUp, ?_, h.inbound,
      h.answered⟩
    · intro id
      by_cases he : id = UInt16.ofNat (k + 1)
      · simp [he]
      · simpa only [Function.update_of_ne he] using h.pending id
    · intro c hc
      have hne : c ≠ k := by omega
      simpa only [Function.update_of_ne hne] using h.calls c (by omega)
    · rw [h.sent, List.range_succ, List.map_append]
      rfl

theorem abandoned_reachable (k : Nat) : ∃ tr s, connSystem.Reach Honest tr s ∧ s.Abandoned k := by
  induction k with
  | zero =>
    refine ⟨[], _, .nil, ?_⟩
    constructor <;> simp [connSystem]
  | succ k ih =>
    obtain ⟨tr, s, hr, h⟩ := ih
    obtain ⟨t, ht, ha⟩ := h.round
    refine ⟨_, t, hr.exec (System.admits_of_forall ?_) ht, ha⟩
    simp [abandonRound, Honest]

def delivery (c : Nat) (f : Frame) : List ConnLabel :=
  [.serverSend f, .read, .handOff, .receive c, .unregister c]

theorem Conn.exec_delivery {s : Conn} {c : Nat} {f : Frame}
    (hc : s.calls c = .waiting f.header.requestID) (hp : s.pending f.header.requestID = some c)
    (hch : s.chans c = none) (hr : s.reader = .reading) (hi : s.inbound = [])
    (hh : s.hungUp = false) (hf : f.isReply) :
    ∃ t, connSystem.exec s (delivery c f) = some t ∧ t.calls c = .returned (.reply f) ∧
      t.sent = s.sent := by
  have hl : ¬ maxPayload < f.header.length := UInt32.not_lt.mpr hf.1
  simp [System.exec, delivery, connSystem, Conn.step, Conn.setCall, Conn.unregister, Conn.readFrame,
    hc, hp, hch, hr, hi, hh, hl, hf.2]

theorem Conn.Abandoned.reused {s : Conn} (h : s.Abandoned 65536) :
    connSystem.exec s [.register 65536 cmdCommand 0 [], .write 65536] = some
      { s with
        nextID := 1
        pending := Function.update s.pending 1 (some 65536)
        calls := Function.update s.calls 65536 (.waiting 1)
        sent := s.sent ++ [⟨.call 65536, requestHeader cmdCommand 1 0 [], []⟩] } := by
  have hd : s.drawID = some 1 := by
    rw [Conn.drawID_of_free (h.pending _), h.nextID]
    rfl
  have hid : (requestHeader cmdCommand 1 0 []).requestID = 1 := rfl
  simp [System.exec, connSystem, Conn.step, Conn.setCall, Conn.send, h.calls 65536 le_rfl,
    h.closeErr, hd, h.ncClosed, hid]

/-- A call can return the reply to a packet of an earlier, abandoned call. -/
theorem returned_reply_misrouted :
    ¬ ∀ tr s, connSystem.Reach Honest tr s → ∀ c f, s.calls c = .returned (.reply f) →
      s.Own c f := by
  intro hall
  obtain ⟨tr, s, hr, h⟩ := abandoned_reachable 65536
  have hfirst : s.sent[0]? = some ⟨.call 0, requestHeader cmdCommand 1 0 [], []⟩ := by
    rw [h.sent, List.getElem?_map, List.getElem?_range (by omega)]
    rfl
  let u : Conn := { s with
    nextID := 1
    pending := Function.update s.pending 1 (some 65536)
    calls := Function.update s.calls 65536 (.waiting 1)
    sent := s.sent ++ [⟨.call 65536, requestHeader cmdCommand 1 0 [], []⟩] }
  have hu := hr.exec (System.admits_of_forall (by simp [Honest])) h.reused
  have hsent : u.sent[0]? = _ := getElem?_of_prefix (List.prefix_append _ _) hfirst
  have hans : ∀ i ∈ (commandReply 1 0).answers, i ∉ u.answered := by simp [u, h.answered]
  have hhonest : Honest u (.serverSend (commandReply 1 0)) :=
    ⟨fun _ => ⟨⟨0, _, 0, rfl, hsent, rfl, rfl⟩, hans⟩, fun hf => absurd rfl hf⟩
  obtain ⟨t, ht, hc, hts⟩ := Conn.exec_delivery (s := u) (c := 65536) (f := commandReply 1 0)
    (by simp [u, commandReply]) (by simp [u, commandReply]) (h.chans _) h.reader h.inbound h.hungUp
      (by decide)
  have hreach := hu.exec (System.admits_cons hhonest (by simp [Honest])) ht
  obtain ⟨i, p, hi, hp, hd⟩ := hall _ t hreach 65536 _ hc
  obtain rfl : 0 = i := by simpa [commandReply] using hi
  rw [hts, hsent] at hp
  cases hp
  simp [Packet.callOf] at hd

end GoAfp
