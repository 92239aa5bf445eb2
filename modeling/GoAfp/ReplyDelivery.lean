import GoAfp.ReplyRouting

/-! When no call is cancelled and the connection stays up, every reply is
handed over exactly once, to the call whose packet it answers, and the read
loop never waits for room in a channel. -/

namespace GoAfp

/-- The steps of runs without cancellation and without failure: calls, tickle
loops, the read loop, and an honest server that keeps the session open. -/
def Undisturbed (s : Conn) : ConnLabel → Prop
  | .register _ _ _ _ => True
  | .write _ => True
  | .receive _ => True
  | .unregister _ => True
  | .tickle _ => True
  | .tickleWrite _ => True
  | .read => True
  | .handOff => True
  | .serverSend f => Honest s (.serverSend f) ∧ f.header.length ≤ maxPayload ∧
      (f.header.flags ≠ flagReply → f.header.command ≠ cmdCloseSession)
  | _ => False

def ReaderPhase.held : ReaderPhase → List Nat
  | .handing _ f => f.answers.toList
  | _ => []

def handedIdx (l : List (Nat × Frame)) : List Nat := l.filterMap fun x => x.2.answers

def inboundIdx (l : List Frame) : List Nat := l.filterMap Frame.answers

structure Conn.Delivered (s : Conn) : Prop where
  conserved : s.answered = handedIdx s.handed ++ s.reader.held ++ inboundIdx s.inbound
  nodup : s.answered.Nodup
  replies : ∀ f ∈ s.inbound, f.header.flags = flagReply → f.isReply ∧ s.Matches f
  others : ∀ f ∈ s.inbound, f.header.flags ≠ flagReply → f.answers = none
  handing : ∀ c f, s.reader = .handing c f → s.Own c f
  handed : ∀ x ∈ s.handed, s.Own x.1 x.2
  chans : ∀ c f, s.chans c = some f → (c, f) ∈ s.handed
  outstanding : ∀ i p c, s.sent[i]? = some p → p.callOf = some c → i ∉ handedIdx s.handed →
    s.calls c = .waiting p.header.requestID ∧ s.chans c = none

theorem Conn.Delivered.not_handed {s : Conn} (h : s.Delivered) {i : Nat}
    (hi : i ∈ s.reader.held ++ inboundIdx s.inbound) : i ∉ handedIdx s.handed := by
  have hn := h.nodup
  rw [h.conserved, List.append_assoc, List.nodup_append] at hn
  exact fun hm => hn.2.2 i hm i hi rfl

theorem Conn.Delivered.chans_sent {s : Conn} (h : s.Delivered) {c : Nat} {f : Frame}
    (hc : s.chans c = some f) : c ∈ s.sent.filterMap Packet.callOf := by
  obtain ⟨i, p, -, hp, hpc⟩ := h.handed _ (h.chans c f hc)
  exact List.mem_filterMap.mpr ⟨p, List.mem_of_getElem? hp, hpc⟩

theorem Conn.Delivered.awaited {s : Conn} (h : s.Delivered) (hw : s.WellFormed) {f : Frame}
    {rest : List Frame} (hi : s.inbound = f :: rest) (hr : f.header.flags = flagReply) :
    ∃ c, s.Own c f ∧ s.pending f.header.requestID = some c ∧ s.chans c = none := by
  obtain ⟨-, i, p, c, ha, hp, hc, hid⟩ := h.replies f (by simp [hi]) hr
  have hm : i ∈ s.reader.held ++ inboundIdx s.inbound := by simp [hi, inboundIdx, ha]
  obtain ⟨hwait, hch⟩ := h.outstanding i p c hp hc (h.not_handed hm)
  refine ⟨c, ⟨i, p, ha, hp, hc⟩, ?_, hch⟩
  rw [hid]
  exact (hw.holds c _).mp (by simp [hwait, CallPhase.holds])

theorem Conn.Delivered.room {s : Conn} (h : s.Delivered) {c : Nat} {f : Frame}
    (hr : s.reader = .handing c f) : s.chans c = none := by
  obtain ⟨i, p, ha, hp, hc⟩ := h.handing c f hr
  have hm : i ∈ s.reader.held ++ inboundIdx s.inbound := by simp [hr, ReaderPhase.held, ha]
  exact (h.outstanding i p c hp hc (h.not_handed hm)).2

theorem Conn.Quiet.held {s t : Conn} (hq : s.Quiet t) : t.reader.held = s.reader.held := by
  rcases hq.reader with he | hn
  · rw [he]
  · have hnil (r : ReaderPhase) (h : ∀ c f, r ≠ .handing c f) : r.held = [] := by
      cases r with
      | handing c f => exact absurd rfl (h c f)
      | _ => rfl
    rw [hnil t.reader (fun c f => (hn c f).2), hnil s.reader (fun c f => (hn c f).1)]

theorem Conn.Delivered.of_quiet {s t : Conn} (h : s.Delivered) (hq : s.Quiet t) : t.Delivered := by
  have hpre := hq.sent_prefix
  refine ⟨?_, ?_, ?_, ?_, ?_, ?_, ?_, ?_⟩
  · rw [hq.answered, hq.handed, hq.held, hq.inbound, h.conserved]
  · rw [hq.answered]
    exact h.nodup
  · intro f hf hfl
    have hh := h.replies f (by simpa only [hq.inbound] using hf) hfl
    exact ⟨hh.1, hh.2.mono hpre⟩
  · intro f hf
    exact h.others f (by simpa only [hq.inbound] using hf)
  · intro c f hc
    rcases hq.reader with hs | hn
    · exact (h.handing c f (hs ▸ hc)).mono hpre
    · exact absurd hc (hn c f).2
  · intro x hx'
    exact (h.handed x (by simpa only [hq.handed] using hx')).mono hpre
  · intro c f hc
    rw [hq.handed]
    exact h.chans c f (by simpa only [hq.chans] using hc)
  · intro i p c hi hc hn
    rw [hq.calls, hq.chans]
    exact h.outstanding i p c (hq.sent_call hi hc) hc (by simpa only [hq.handed] using hn)

theorem Conn.Delivered.setCall {s : Conn} (h : s.Delivered) {c : Nat} (q : CallPhase)
    (hc : ∀ i p, s.sent[i]? = some p → p.callOf = some c → i ∈ handedIdx s.handed) :
    (s.setCall c q).Delivered := by
  refine ⟨h.conserved, h.nodup, h.replies, h.others, h.handing, h.handed, h.chans, ?_⟩
  intro i p d hi hd hn
  have hne : d ≠ c := fun he => hn (hc i p hi (he ▸ hd))
  simpa only [Conn.setCall, Function.update_of_ne hne] using h.outstanding i p d hi hd hn

theorem Conn.Delivered.silent {s : Conn} (h : s.Delivered) {c : Nat}
    (hc : ∀ id, s.calls c ≠ .waiting id) :
    ∀ i p, s.sent[i]? = some p → p.callOf = some c → i ∈ handedIdx s.handed := by
  intro i p hi hpc
  by_contra hn
  exact hc _ (h.outstanding i p c hi hpc hn).1

theorem Conn.Delivered.write {s : Conn} (h : s.Delivered) (hw : s.WellFormed) {c : Nat}
    {hd : Header} {payload : Bytes} (hc : s.calls c = .registered hd payload) :
    ((s.send ⟨.call c, hd, payload⟩).setCall c (.waiting hd.requestID)).Delivered := by
  have hpre : s.sent <+: (s.send ⟨.call c, hd, payload⟩).sent := List.prefix_append _ _
  have hnone : s.chans c = none := by
    by_contra hne
    obtain ⟨f, hf⟩ := Option.ne_none_iff_exists'.mp hne
    simpa [hc, CallPhase.hasSent] using hw.hasSent c (h.chans_sent hf)
  refine ⟨h.conserved, h.nodup, ?_, h.others, fun d f hr => (h.handing d f hr).mono hpre,
    fun x hx => (h.handed x hx).mono hpre, h.chans, ?_⟩
  · intro f hf hfl
    exact ⟨(h.replies f hf hfl).1, (h.replies f hf hfl).2.mono hpre⟩
  · intro i p d hi hpd hn
    by_cases hlt : i < s.sent.length
    · rw [Conn.setCall, Conn.send, List.getElem?_append_left hlt] at hi
      have hne : d ≠ c := by
        rintro rfl
        exact hn (h.silent (by simp [hc]) i p hi hpd)
      simpa only [Conn.setCall, Conn.send,
        Function.update_of_ne hne] using h.outstanding i p d hi hpd hn
    · rw [Conn.setCall, Conn.send, List.getElem?_append_right (by omega)] at hi
      have hm := List.mem_of_getElem? hi
      rw [List.mem_singleton] at hm
      subst p
      obtain rfl : c = d := by simpa [Packet.callOf] using hpd
      exact ⟨by simp [Conn.setCall], hnone⟩

theorem Conn.Delivered.receive {s : Conn} (h : s.Delivered) {c : Nat} {id : UInt16} {f : Frame}
    (hf : s.chans c = some f) :
    ({ s with chans := Function.update s.chans c none }.setCall c
      (.leaving id (.reply f))).Delivered := by
  have hquiet : ∀ i p, s.sent[i]? = some p → p.callOf = some c → i ∈ handedIdx s.handed := by
    intro i p hi hpc
    by_contra hn
    simpa [hf] using (h.outstanding i p c hi hpc hn).2
  have h' : ({ s with chans := Function.update s.chans c none } : Conn).Delivered := by
    refine ⟨h.conserved, h.nodup, h.replies, h.others, h.handing, h.handed, ?_, ?_⟩
    · intro d g hd
      by_cases he : d = c
      · subst d
        simp at hd
      · exact h.chans d g (by simpa [Function.update_of_ne he] using hd)
    · intro i p d hi hd hn
      have hh := h.outstanding i p d hi hd hn
      by_cases he : d = c
      · subst d
        simpa using hh.1
      · simpa [Function.update_of_ne he] using hh
  exact h'.setCall _ hquiet

theorem Conn.Delivered.handOff {s : Conn} (h : s.Delivered) (hw : s.WellFormed) {c : Nat}
    {f : Frame} (hr : s.reader = .handing c f) :
    ({ s with
      chans := Function.update s.chans c (some f)
      reader := .reading
      handed := s.handed ++ [(c, f)] } : Conn).Delivered := by
  have hown := h.handing c f hr
  have hidx : handedIdx (s.handed ++ [(c, f)]) = handedIdx s.handed ++ f.answers.toList := by
    cases hf : f.answers <;> simp [handedIdx, hf]
  refine ⟨?_, h.nodup, h.replies, h.others, by simp, ?_, ?_, ?_⟩
  · simp only [hidx, ReaderPhase.held, List.append_nil]
    rw [h.conserved, hr]
    rfl
  · intro x hx
    rcases List.mem_append.mp hx with hx | hx
    · exact h.handed x hx
    · rw [List.mem_singleton] at hx
      subst x
      exact hown
  · intro d g hd
    by_cases he : d = c
    · subst d
      have hg : f = g := by simpa using hd
      simp [hg]
    · have hm := h.chans d g (by simpa [Function.update_of_ne he] using hd)
      exact List.mem_append_left _ hm
  · intro i p d hi hd hn
    simp only [hidx, List.mem_append, not_or] at hn
    obtain ⟨j, q, hj, hq, hqc⟩ := hown
    have hne : d ≠ c := by
      rintro rfl
      have hij := hw.index_unique hi hq hd hqc
      simp [hj, hij] at hn
    simpa only [Function.update_of_ne hne] using h.outstanding i p d hi hd hn.1

theorem Conn.Delivered.serverSend {s : Conn} (h : s.Delivered) {f : Frame}
    (hok : Undisturbed s (.serverSend f)) :
    ({ s with inbound := s.inbound ++ [f], answered := s.answered ++ f.answers.toList } :
      Conn).Delivered := by
  have hidx : inboundIdx (s.inbound ++ [f]) = inboundIdx s.inbound ++ f.answers.toList := by
    cases hf : f.answers <;> simp [inboundIdx, hf]
  refine ⟨?_, ?_, ?_, ?_, h.handing, h.handed, h.chans, h.outstanding⟩
  · simp only [hidx]
    rw [h.conserved]
    simp only [List.append_assoc]
  · refine List.nodup_append.mpr ⟨h.nodup, by cases f.answers <;> simp, ?_⟩
    rintro i hi j hj rfl
    have hfi : f.answers = some i := by simpa using hj
    by_cases hr : f.header.flags = flagReply
    · exact (hok.1.1 hr).2 i hfi hi
    · exact absurd (hfi.symm.trans (hok.1.2 hr)) (by simp)
  · intro g hg hr
    rcases List.mem_append.mp hg with hg | hg
    · exact h.replies g hg hr
    · rw [List.mem_singleton] at hg
      subst g
      exact ⟨⟨hok.2.1, hr⟩, (hok.1.1 hr).1⟩
  · intro g hg hr
    rcases List.mem_append.mp hg with hg | hg
    · exact h.others g hg hr
    · rw [List.mem_singleton] at hg
      subst g
      exact hok.1.2 hr

theorem Conn.Delivered.skip {s : Conn} (h : s.Delivered) {f : Frame} {rest : List Frame}
    (hi : s.inbound = f :: rest) (hf : f.answers = none) :
    ({ s with inbound := rest } : Conn).Delivered := by
  refine ⟨?_, h.nodup, fun g hg => h.replies g (by simp [hi, show g ∈ rest from hg]),
    fun g hg => h.others g (by simp [hi, show g ∈ rest from hg]), h.handing, h.handed, h.chans,
      h.outstanding⟩
  have hc := h.conserved
  simpa [hi, inboundIdx, hf] using hc

theorem Conn.Delivered.dispatch {s : Conn} (h : s.Delivered) (hw : s.WellFormed) {f : Frame}
    {rest : List Frame} {c : Nat} (hr : s.reader = .reading) (hi : s.inbound = f :: rest)
    (hf : f.isReply) (hp : s.pending f.header.requestID = some c) :
    ({ s with inbound := rest, reader := .handing c f } : Conn).Delivered := by
  obtain ⟨d, hown, hd, -⟩ := h.awaited hw hi hf.2
  obtain rfl : c = d := Option.some.inj (hp.symm.trans hd)
  refine ⟨?_, h.nodup, fun g hg => h.replies g (by simp [hi, show g ∈ rest from hg]),
    fun g hg => h.others g (by simp [hi, show g ∈ rest from hg]), ?_, h.handed, h.chans,
      h.outstanding⟩
  · have hc := h.conserved
    have hcons : inboundIdx (f :: rest) = f.answers.toList ++ inboundIdx rest := by
      cases ha : f.answers <;> simp [inboundIdx, ha]
    simpa only [hr, hi, hcons, ReaderPhase.held, List.append_nil, List.append_assoc] using hc
  · intro e g hg
    have he : c = e ∧ f = g := by simpa using hg
    exact he.1 ▸ he.2 ▸ hown

theorem Conn.Delivered.step {s t : Conn} {a : ConnLabel} (h : s.Delivered) (hw : s.WellFormed)
    (hok : Undisturbed s a) (hs : s.step a = some t) : t.Delivered := by
  cases Conn.step_effect hs with
  | refused e hc => exact h.setCall _ (h.silent (by simp [hc]))
  | register id hc hid =>
    exact Conn.Delivered.setCall (s := { s with nextID := id, pending := _ })
      ⟨h.conserved, h.nodup, h.replies, h.others, h.handing, h.handed, h.chans, h.outstanding⟩ _
      (h.silent (by simp [hc]))
  | write hd payload hc => exact h.write hw hc
  | writeFail hd payload hc => exact hok.elim
  | seeDone id e hc => exact hok.elim
  | cancel id hc => exact hok.elim
  | receive id f hc hf => exact h.receive hf
  | unregister id res hc =>
    exact Conn.Delivered.setCall (s := s.unregister id)
      ⟨h.conserved, h.nodup, h.replies, h.others, h.handing, h.handed, h.chans, h.outstanding⟩ _
      (h.silent (by simp [hc]))
  | dispatch f rest c hr hi hf hp => exact h.dispatch hw hr hi hf hp
  | drop f rest hr hi hf hp =>
    obtain ⟨c, -, hc, -⟩ := h.awaited hw hi hf.2
    simp [hp] at hc
  | other f rest hr hi hf hq =>
    have hfl : f.header.flags ≠ flagReply := fun he => hf (h.replies f (by simp [hi]) he).1
    exact (h.skip hi (h.others f (by simp [hi]) hfl)).of_quiet hq
  | handOff c f hr hc => exact h.handOff hw hr
  | serverSend f => exact h.serverSend hok
  | quiet hq => exact h.of_quiet hq

theorem Conn.Delivered.init : connSystem.init.Delivered := by
  constructor <;> simp [connSystem, handedIdx, inboundIdx, ReaderPhase.held]

theorem Conn.delivered_of_reach {tr : List ConnLabel} {s : Conn}
    (h : connSystem.Reach Undisturbed tr s) :
    s.WellFormed ∧ s.Delivered :=
  h.invariant (I := fun s => s.WellFormed ∧ s.Delivered) ⟨.init, .init⟩
    (fun hi hok hs => ⟨hi.1.step hs, hi.2.step hi.1 hok hs⟩)

/-- A reply at the head of the stream finds its own call registered under its
ID with an empty channel, the hand-over that follows never blocks, and the
replies sent so far are, without repetition, those handed to their own calls
followed by those still on their way. -/
theorem reply_delivered_once {tr : List ConnLabel} {s : Conn}
    (h : connSystem.Reach Undisturbed tr s) :
    (∀ f rest, s.reader = .reading → s.inbound = f :: rest → f.header.flags = flagReply →
      ∃ c, s.Own c f ∧ s.pending f.header.requestID = some c ∧ s.chans c = none ∧
        s.step .read = some { s with inbound := rest, reader := .handing c f }) ∧
    (∀ c f, s.reader = .handing c f → s.chans c = none ∧ (s.step .handOff).isSome) ∧
    (∀ x ∈ s.handed, s.Own x.1 x.2) ∧
    s.answered = handedIdx s.handed ++ s.reader.held ++ inboundIdx s.inbound ∧
      s.answered.Nodup := by
  obtain ⟨hw, hd⟩ := Conn.delivered_of_reach h
  refine ⟨?_, ?_, hd.handed, hd.conserved, hd.nodup⟩
  · intro f rest hr hi hf
    obtain ⟨c, hown, hp, hc⟩ := hd.awaited hw hi hf
    exact ⟨c, hown, hp, hc, Conn.step_read_reply hr hi (hd.replies f (by simp [hi]) hf).1 hp⟩
  · intro c f hr
    have hroom := hd.room hr
    exact ⟨hroom, by simp [Conn.step, hr, hroom]⟩

def answeredRequest : List ConnLabel :=
  [.register 0 cmdCommand 0 [], .write 0, .serverSend (commandReply 1 0)]

theorem reply_delivered_once_answeredRequest :
    ∃ s, connSystem.Reach Undisturbed answeredRequest s ∧ s.answered = [0] ∧
      ∃ c, s.Own c (commandReply 1 0) ∧ s.pending 1 = some c ∧ s.chans c = none := by
  have hadm : connSystem.Admits Undisturbed connSystem.init answeredRequest := by
    refine ⟨trivial, trivial,
      ⟨⟨fun _ => ?_, fun hf => absurd rfl hf⟩, by decide, fun hf => absurd rfl hf⟩, trivial⟩
    exact ⟨⟨0, _, 0, rfl, rfl, rfl, rfl⟩, by rintro i - hi; cases hi⟩
  have hrun : ∃ s, connSystem.exec connSystem.init answeredRequest = some s ∧
      s.reader = .reading ∧ s.inbound = [commandReply 1 0] ∧ s.answered = [0] :=
        ⟨_, rfl, rfl, rfl, rfl⟩
  obtain ⟨s, hs, hr, hi, ha⟩ := hrun
  have h := System.Reach.nil.exec hadm hs
  obtain ⟨c, hown, hp, hc, -⟩ := (reply_delivered_once h).1 _ _ hr hi rfl
  exact ⟨s, h, ha, c, hown, hp, hc⟩

end GoAfp
