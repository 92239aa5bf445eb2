import Mathlib.Data.List.Basic

/-! Streams of self-delimiting frames: a header of fixed size that says how
many payload symbols follow it. -/

namespace GoAfp

/-- Reading exactly `n` symbols off a stream, which may end too early. -/
def readFull {β : Type*} (n : Nat) (b : List β) : Option (List β × List β) :=
  if b.length < n then none else some (b.take n, b.drop n)

section ReadFull

variable {β : Type*} {n : Nat} {b v rest : List β}

theorem readFull_append (h : v.length = n) (rest : List β) :
    readFull n (v ++ rest) = some (v, rest) := by
  subst h
  simp [readFull]

theorem readFull_eq_none (h : b.length < n) : readFull n b = none := by
  simp [readFull, h]

theorem readFull_eq_some (h : readFull n b = some (v, rest)) : b = v ++ rest ∧ v.length = n := by
  unfold readFull at h
  split_ifs at h with hlt
  cases h
  refine ⟨(List.take_append_drop n b).symm, ?_⟩
  rw [List.length_take]
  omega

end ReadFull

structure FrameFormat (η β : Type*) where
  size : Nat
  encode : η → List β
  decode : List β → η
  payload : η → Nat
  size_pos : 0 < size
  encode_length : ∀ h, (encode h).length = size
  decode_encode : ∀ h, decode (encode h) = h

namespace FrameFormat

variable {η β : Type*} (F : FrameFormat η β)

def frame (f : η × List β) : List β := F.encode f.1 ++ f.2

def WellSized (f : η × List β) : Prop := f.2.length = F.payload f.1

def next (b : List β) : Option ((η × List β) × List β) :=
  (readFull F.size b).bind fun x =>
    (readFull (F.payload (F.decode x.1)) x.2).map fun y => ((F.decode x.1, y.1), y.2)

theorem next_frame {f : η × List β} (h : F.WellSized f) (rest : List β) :
    F.next (F.frame f ++ rest) = some (f, rest) := by
  have hh := readFull_append (F.encode_length f.1) (f.2 ++ rest)
  have hp := readFull_append h rest
  simp [next, frame, hh, hp, F.decode_encode]

theorem next_eq_some {b rest : List β} {f : η × List β} (h : F.next b = some (f, rest)) :
    F.WellSized f ∧ rest.length < b.length := by
  obtain ⟨⟨hb, b'⟩, hx, hy⟩ := Option.bind_eq_some_iff.mp h
  obtain ⟨⟨p, r⟩, hp, he⟩ := Option.map_eq_some_iff.mp hy
  cases he
  obtain ⟨rfl, hsize⟩ := readFull_eq_some hx
  obtain ⟨rfl, hlen⟩ := readFull_eq_some hp
  have hpos := F.size_pos
  refine ⟨hlen, ?_⟩
  simp only [List.length_append]
  omega

/-- The whole frames at the front of a stream, and what is left over. -/
def cut (b : List β) : List (η × List β) × List β :=
  match h : F.next b with
  | none => ([], b)
  | some (f, rest) =>
    have : rest.length < b.length := (F.next_eq_some h).2
    (f :: (cut rest).1, (cut rest).2)
termination_by b.length

theorem cut_of_none {b : List β} (h : F.next b = none) : F.cut b = ([], b) := by
  rw [cut]
  split
  · rfl
  · rename_i hs
    simp [h] at hs

theorem cut_of_some {b rest : List β} {f : η × List β} (h : F.next b = some (f, rest)) :
    F.cut b = (f :: (F.cut rest).1, (F.cut rest).2) := by
  rw [cut]
  split
  · rename_i hn
    simp [h] at hn
  · rename_i hs
    rw [h] at hs
    cases hs
    rfl

theorem cut_frames {fs : List (η × List β)} (h : ∀ f ∈ fs, F.WellSized f) (tail : List β) :
    F.cut (fs.flatMap F.frame ++ tail) = (fs ++ (F.cut tail).1, (F.cut tail).2) := by
  induction fs with
  | nil => rfl
  | cons f fs ih =>
    have hnext := F.next_frame (h f (by simp)) (fs.flatMap F.frame ++ tail)
    have hrest := ih (fun g hg => h g (by simp [hg]))
    rw [List.flatMap_cons, List.append_assoc, F.cut_of_some hnext, hrest]
    rfl

theorem cut_wellSized (b : List β) : ∀ f ∈ (F.cut b).1, F.WellSized f := by
  induction hn : b.length using Nat.strongRecOn generalizing b with
  | ind n ih =>
    cases h : F.next b with
    | none => simp [F.cut_of_none h]
    | some x =>
      obtain ⟨f, rest⟩ := x
      obtain ⟨hf, hlt⟩ := F.next_eq_some h
      rw [F.cut_of_some h]
      intro g hg
      rcases List.mem_cons.mp hg with rfl | hg
      · exact hf
      · exact ih rest.length (by omega) rest rfl g hg

/-- A stream of frames is cut back into them exactly when each is well sized. -/
theorem cut_frames_iff (fs : List (η × List β)) :
    F.cut (fs.flatMap F.frame) = (fs, []) ↔ ∀ f ∈ fs, F.WellSized f := by
  constructor
  · intro h f hf
    have hw := F.cut_wellSized (fs.flatMap F.frame)
    rw [h] at hw
    exact hw f hf
  · intro h
    have hempty : F.next [] = none := by
      simp [next, readFull_eq_none (b := ([] : List β)) (by simpa using F.size_pos)]
    have hc := F.cut_frames h []
    rwa [List.append_nil, F.cut_of_none hempty, List.append_nil] at hc

end FrameFormat

end GoAfp
