import GoAfp.ConnStep
import Mathlib.Data.List.Nodup

/-! The facts about identifiers that hold in every run, whatever the server
does: the pending map and the control points of the calls agree, and a call
writes at most one packet. -/

namespace GoAfp

def CallPhase.holds : CallPhase → Option UInt16
  | .registered h _ => some h.requestID
  | .waiting id => some id
  | .leaving id _ => some id
  | .idle => none
  | .returned _ => none

def CallPhase.hasSent : CallPhase → Prop
  | .idle => False
  | .registered _ _ => False
  | .waiting _ => True
  | .leaving _ _ => True
  | .returned _ => True

def Holds (calls : Nat → CallPhase) (pending : UInt16 → Option Nat) : Prop :=
  ∀ c id, (calls c).holds = some id ↔ pending id = some c

theorem Holds.phase {calls : Nat → CallPhase} {pending : UInt16 → Option Nat}
    (h : Holds calls pending) {c : Nat} {p : CallPhase} (hp : p.holds = (calls c).holds) :
    Holds (Function.update calls c p) pending := by
  intro d id
  by_cases hd : d = c
  · subst d
    simpa only [Function.update_self, hp] using h c id
  · simpa only [Function.update_of_ne hd] using h d id

theorem Holds.register {calls : Nat → CallPhase} {pending : UInt16 → Option Nat}
    (h : Holds calls pending) {c : Nat} {p : CallPhase} {id : UInt16} (hc : (calls c).holds = none)
    (hid : pending id = none) (hp : p.holds = some id) :
    Holds (Function.update calls c p) (Function.update pending id (some c)) := by
  intro d id'
  by_cases hd : d = c
  · subst d
    by_cases hi : id' = id
    · subst id'
      simp [hp]
    · have hn : pending id' ≠ some c := fun he => by simpa [hc] using (h c id').mpr he
      simpa [hp, Function.update_of_ne hi, hn] using Ne.symm hi
  · by_cases hi : id' = id
    · subst id'
      have hn : (calls d).holds ≠ some id := fun he => by simpa [hid] using (h d id).mp he
      simpa [Function.update_of_ne hd, hn] using Ne.symm hd
    · simpa [Function.update_of_ne hd, Function.update_of_ne hi] using h d id'

theorem Holds.release {calls : Nat → CallPhase} {pending : UInt16 → Option Nat}
    (h : Holds calls pending) {c : Nat} {p : CallPhase} {id : UInt16}
    (hc : (calls c).holds = some id) (hp : p.holds = none) :
    Holds (Function.update calls c p) (Function.update pending id none) := by
  have hpc := (h c id).mp hc
  intro d id'
  by_cases hi : id' = id
  · subst id'
    by_cases hd : d = c
    · simp [hd, hp]
    · have hn : (calls d).holds ≠ some id := by
        intro he
        have := hpc.symm.trans ((h d id).mp he)
        exact hd (Option.some.inj this).symm
      simp [Function.update_of_ne hd, hn]
  · by_cases hd : d = c
    · subst d
      have hn : pending id' ≠ some c := by
        intro he
        have := hc.symm.trans ((h c id').mpr he)
        exact hi (Option.some.inj this).symm
      simp [hp, Function.update_of_ne hi, hn]
    · simpa [Function.update_of_ne hd, Function.update_of_ne hi] using h d id'

structure Conn.WellFormed (s : Conn) : Prop where
  holds : Holds s.calls s.pending
  once : (s.sent.filterMap Packet.callOf).Nodup
  hasSent : ∀ c ∈ s.sent.filterMap Packet.callOf, (s.calls c).hasSent

theorem Conn.WellFormed.of_quiet {s t : Conn} (h : s.WellFormed) (hq : s.Quiet t) :
    t.WellFormed := by
  obtain ⟨extra, he, hx⟩ := hq.sent
  have hs : t.sent.filterMap Packet.callOf = s.sent.filterMap Packet.callOf := by
    rw [he, List.filterMap_append, hx, List.append_nil]
  exact ⟨by simpa only [hq.calls, hq.pending] using h.holds, by simpa only [hs] using h.once,
    by simpa only [hs, hq.calls] using h.hasSent⟩

theorem hasSent_update {calls : Nat → CallPhase} {l : List Nat} (h : ∀ c ∈ l, (calls c).hasSent)
    {c : Nat} {p : CallPhase} (hp : c ∈ l → p.hasSent) :
    ∀ d ∈ l, (Function.update calls c p d).hasSent := by
  intro d hd
  by_cases he : d = c
  · subst d
    simpa only [Function.update_self] using hp hd
  · simpa only [Function.update_of_ne he] using h d hd

theorem Conn.WellFormed.setCall {s : Conn} (h : s.WellFormed) {c : Nat} {p : CallPhase}
    (hh : p.holds = (s.calls c).holds) (hp : (s.calls c).hasSent → p.hasSent) :
    (s.setCall c p).WellFormed :=
  ⟨h.holds.phase hh, h.once, hasSent_update h.hasSent (fun hc => hp (h.hasSent c hc))⟩

theorem Conn.WellFormed.step {s t : Conn} {a : ConnLabel} (h : s.WellFormed)
    (hs : s.step a = some t) : t.WellFormed := by
  cases Conn.step_effect hs with
  | refused e hc =>
    exact h.setCall (by simp [hc, CallPhase.holds]) (by simp [hc, CallPhase.hasSent])
  | @register c cmd off payload id hc hid =>
    refine ⟨h.holds.register (by simp [hc, CallPhase.holds]) (Conn.searchID_free hid) rfl,
      h.once, ?_⟩
    refine hasSent_update h.hasSent (fun hm => ?_)
    simpa [hc, CallPhase.hasSent] using h.hasSent c hm
  | @write c hd payload hc =>
    have hnot : c ∉ s.sent.filterMap Packet.callOf := by
      intro hm
      simpa [hc, CallPhase.hasSent] using h.hasSent c hm
    have hm : (s.sent ++ [(⟨.call c, hd, payload⟩ : Packet)]).filterMap Packet.callOf =
        s.sent.filterMap Packet.callOf ++ [c] := by
      rw [List.filterMap_append]
      rfl
    refine ⟨h.holds.phase (by simp [hc, CallPhase.holds]), ?_, ?_⟩
    · simp only [Conn.setCall, Conn.send, hm, List.nodup_append]
      exact ⟨h.once, by simp, fun d hd e he hde => hnot (List.mem_singleton.mp he ▸ hde ▸ hd)⟩
    · simp only [Conn.setCall, Conn.send, hm]
      intro d hd
      by_cases he : d = c
      · subst d
        simp [CallPhase.hasSent]
      · have hmem : d ∈ s.sent.filterMap Packet.callOf := by simpa [he] using hd
        simpa only [Function.update_of_ne he] using h.hasSent d hmem
  | writeFail hd payload hc =>
    exact h.setCall (by simp [hc, CallPhase.holds]) (by simp [CallPhase.hasSent])
  | seeDone id e hc => exact h.setCall (by simp [hc, CallPhase.holds]) (by simp [CallPhase.hasSent])
  | cancel id hc => exact h.setCall (by simp [hc, CallPhase.holds]) (by simp [CallPhase.hasSent])
  | @receive c id f hc hf =>
    have h' : ({ s with chans := Function.update s.chans c none } : Conn).WellFormed :=
      ⟨h.holds, h.once, h.hasSent⟩
    exact h'.setCall (by simp [hc, CallPhase.holds]) (by simp [CallPhase.hasSent])
  | unregister id res hc =>
    exact ⟨h.holds.release (by simp [hc, CallPhase.holds]) rfl, h.once,
      hasSent_update h.hasSent (by simp [CallPhase.hasSent])⟩
  | dispatch f rest c hr hi hf hp => exact ⟨h.holds, h.once, h.hasSent⟩
  | drop f rest hr hi hf hp => exact ⟨h.holds, h.once, h.hasSent⟩
  | other f rest hr hi hf hq =>
    have h' : ({ s with inbound := rest } : Conn).WellFormed := ⟨h.holds, h.once, h.hasSent⟩
    exact h'.of_quiet hq
  | handOff c f hr hc => exact ⟨h.holds, h.once, h.hasSent⟩
  | serverSend f => exact ⟨h.holds, h.once, h.hasSent⟩
  | quiet hq => exact h.of_quiet hq

theorem Conn.WellFormed.init : connSystem.init.WellFormed :=
  ⟨fun c id => by simp [connSystem, CallPhase.holds], by simp [connSystem], by simp [connSystem]⟩

theorem Conn.wellFormed_of_reach {ok : Conn → ConnLabel → Prop} {tr : List ConnLabel} {s : Conn}
    (h : connSystem.Reach ok tr s) : s.WellFormed :=
  h.invariant (I := Conn.WellFormed) .init (fun hw _ hs => hw.step hs)

theorem Conn.WellFormed.index_unique {s : Conn} (h : s.WellFormed) {i j c : Nat} {p q : Packet}
    (hi : s.sent[i]? = some p) (hj : s.sent[j]? = some q)
    (hp : p.callOf = some c) (hq : q.callOf = some c) : i = j := by
  by_contra hne
  wlog hlt : i < j generalizing i j p q
  · exact this hj hi hq hp (Ne.symm hne) (by omega)
  obtain ⟨hi', hpi⟩ := List.getElem?_eq_some_iff.mp hi
  obtain ⟨hj', hqj⟩ := List.getElem?_eq_some_iff.mp hj
  have hsplit : s.sent = s.sent.take j ++ s.sent.drop j := (List.take_append_drop j s.sent).symm
  have hn := h.once
  rw [hsplit, List.filterMap_append, List.nodup_append] at hn
  have hmp : c ∈ (s.sent.take j).filterMap Packet.callOf := by
    refine List.mem_filterMap.mpr ⟨p, ?_, hp⟩
    exact List.mem_take_iff_getElem.mpr ⟨i, by omega, hpi⟩
  have hmq : c ∈ (s.sent.drop j).filterMap Packet.callOf := by
    refine List.mem_filterMap.mpr ⟨q, ?_, hq⟩
    exact List.mem_drop_iff_getElem.mpr ⟨0, by omega, by simpa using hqj⟩
  exact hn.2.2 c hmp c hmq rfl

end GoAfp
