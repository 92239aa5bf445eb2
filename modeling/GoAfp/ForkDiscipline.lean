import GoAfp.ForkTable

/-! The operations of a volume and of a file name no fork but one that they have
or have opened, and none that they have closed. -/

namespace GoAfp

section Blocks

variable {block : Bytes}

theorem forkNamed_block (cmd : UInt8)
    (hcmd : cmd ∈ [cmdCloseFork, cmdSetForkParms, cmdReadExt, cmdWriteExt]) (id : UInt16)
    (rest : Bytes) : forkNamed ([cmd] ++ ([0] ++ (putU16 id ++ rest))) = some id.toNat := by
  have hparse : Reader.parse readForkID ([cmd] ++ ([0] ++ (putU16 id ++ rest))) = .ok id := by
    have h := (reads_forkID id cmd).parse_eq rest
    simpa only [List.append_assoc] using h
  have hhead : ([cmd] ++ ([0] ++ (putU16 id ++ rest))).headD 0 = cmd := rfl
  rw [forkNamed, hhead, if_pos hcmd, hparse]
  rfl

/-- The request names no fork but `id`, and neither opens nor closes one. -/
structure Touches (block : Bytes) (id : Option Nat) : Prop where
  named : forkNamed block = id
  stays : block.headD 0 ≠ cmdCloseFork ∧ block.headD 0 ≠ cmdOpenFork

theorem touches_none (cmd : UInt8) (h : block.headD 0 = cmd)
    (hcmd : cmd ∉ [cmdCloseFork, cmdSetForkParms, cmdReadExt, cmdWriteExt])
    (hopen : cmd ≠ cmdOpenFork) :
    Touches block none := by
  refine ⟨?_, ?_, h ▸ hopen⟩
  · rw [forkNamed, h, if_neg hcmd]
  · rw [h]
    rintro rfl
    exact hcmd List.mem_cons_self

theorem Touches.after {id : Option Nat} (h : Touches block id) (d : Nat) (r : Answer)
    (S : Set (Nat × Nat)) :
    (S \ (forkCaps d).ends block) ∪ (forkCaps d).gives block r = S := by
  ext c
  constructor
  · rintro (⟨hc, -⟩ | ⟨-, hopen, -⟩)
    · exact hc
    · exact absurd hopen h.stays.2
  · intro hc
    exact .inl ⟨hc, fun hend => h.stays.1 hend.2.1⟩

theorem Touches.uses {id : Option Nat} (h : Touches block id) {d : Nat} {S : Set (Nat × Nat)}
    (hS : ∀ k, id = some k → (d, k) ∈ S) : (forkCaps d).uses block ⊆ S := by
  rintro ⟨e, k⟩ ⟨rfl, hk⟩
  exact hS k (h.named.symm.trans hk)

theorem touches_fork (cmd : UInt8) (hcmd : cmd ∈ [cmdSetForkParms, cmdReadExt, cmdWriteExt])
    (id : UInt16) (rest : Bytes) :
    Touches ([cmd] ++ ([0] ++ (putU16 id ++ rest))) (some id.toNat) := by
  refine ⟨forkNamed_block cmd (List.mem_cons_of_mem _ hcmd) id rest, ?_, ?_⟩
  · show cmd ≠ cmdCloseFork
    rintro rfl
    revert hcmd
    decide
  · show cmd ≠ cmdOpenFork
    rintro rfl
    revert hcmd
    decide

theorem touches_readChunk (id : UInt16) (off count : Nat) :
    Touches (readChunkBlock id off count) (some id.toNat) :=
  touches_fork cmdReadExt (by decide) id _

theorem touches_piece (id : UInt16) (p : Bytes) (off : Nat) (c : Nat × Nat) :
    Touches (pieceRequestBytes id p off c) (some id.toNat) :=
  touches_fork cmdWriteExt (by decide) id _

theorem touches_truncate (id : UInt16) (size : Int) :
    Touches (truncateBlock id size) (some id.toNat) :=
  touches_fork cmdSetForkParms (by decide) id _

theorem touches_setFinderInfo (v : AfpVolume) (path fi : Bytes) :
    Touches (v.setFinderInfoBlock rootDirID path fi) none := by
  have hhead : (v.setFinderInfoBlock rootDirID path fi).headD 0 = cmdSetFileDirParms := by
    rw [AfpVolume.setFinderInfoBlock, AfpVolume.writeParamsHeader, evenPad]
    split_ifs <;> rfl
  exact touches_none cmdSetFileDirParms hhead (by decide) (by decide)

end Blocks

/-- The ID by which requests name the fork. -/
def OpenFork.wireID (o : OpenFork) : Nat :=
  (UInt16.ofNat o.id).toNat

namespace Requests

open Job

variable {L : Type} {d : Nat} {pre : L → Set (Nat × Nat) → Prop}

theorem tame_command {block : Bytes} {q : Bytes × Result → L → Set (Nat × Nat) → Prop}
    {err : L → Set (Nat × Nat) → Prop} (huses : ∀ l S, pre l S → (forkCaps d).uses block ⊆ S)
    (hq : ∀ r l S, pre l S →
      q r l ((S \ (forkCaps d).ends block) ∪ (forkCaps d).gives block (.ok r)))
    (herr : ∀ e l S, pre l S →
      err l ((S \ (forkCaps d).ends block) ∪ (forkCaps d).gives block (.error e))) :
    Tame (forkCaps d) pre (command block : VolJob L AfpErr (Bytes × Result)) q err := by
  apply Tame.bind (m := fun r l S => (∀ a, r = .ok a → q a l S) ∧ ∀ e, r = .error e → err l S)
  · apply Tame.ask huses
    intro r l S h
    constructor
    · rintro a rfl
      exact hq a l S h
    · rintro e rfl
      exact herr e l S h
  · intro r
    apply Tame.lift
    · exact fun a ha l S h => h.1 a ha
    · exact fun e he l S h => h.2 e he

theorem tame_resultErr {op : String} {code : Result} {q : Unit → L → Set (Nat × Nat) → Prop}
    {err : L → Set (Nat × Nat) → Prop} (hq : code = resNoErr → ∀ l S, pre l S → q () l S)
    (herr : ∀ l S, pre l S → err l S) :
    Tame (forkCaps d) pre (liftM (resultErr op code) : VolJob L AfpErr Unit) q err := by
  apply Tame.lift
  · intro a ha l S h
    apply hq _ l S h
    by_contra hcode
    rw [resultErr, if_neg hcode] at ha
    cases ha
  · exact fun e _ l S h => herr l S h

theorem tame_codeOnly {op : String} {block : Bytes} {id : Option Nat} (hblock : Touches block id)
    (hid : ∀ l S, pre l S → ∀ k, id = some k → (d, k) ∈ S) :
    Tame (forkCaps d) pre (codeOnly op block : VolJob L AfpErr Unit) (fun _ => pre) pre := by
  apply Tame.bind (m := fun _ => pre)
  · apply tame_command
    · exact fun l S h => hblock.uses (hid l S h)
    · intro r l S h
      rwa [hblock.after]
    · intro e l S h
      rwa [hblock.after]
  · exact fun r => tame_resultErr (fun _ l S h => h) fun l S h => h

theorem tame_plain {op : String} {block : Bytes} (hblock : Touches block none) :
    Tame (forkCaps d) pre (codeOnly op block : VolJob L AfpErr Unit) (fun _ => pre) pre :=
  tame_codeOnly hblock fun l S h k hk => by cases hk

theorem tame_askEach {block : Nat × Nat → Bytes} {id : Nat} {err : L → Set (Nat × Nat) → Prop}
    (hblock : ∀ c, Touches (block c) (some id)) (hid : ∀ l S, pre l S → (d, id) ∈ S)
    (cs : List (Nat × Nat)) :
    Tame (forkCaps d) pre (askEach block cs : VolJob L AfpErr _) (fun _ => pre) err := by
  induction cs with
  | nil => exact Tame.pure fun l S h => h
  | cons c cs ih =>
    apply Tame.bind (m := fun _ => pre)
    · apply Tame.ask
      · intro l S h
        apply (hblock c).uses
        rintro k ⟨⟩
        exact hid l S h
      · intro r l S h
        rwa [(hblock c).after]
    · intro r
      apply Tame.bind ih
      exact fun rest => Tame.pure fun l S h => h

theorem tame_readAt {sched : Schedule} {o : OpenFork} {p : Bytes} {off : Nat}
    (hid : ∀ l S, pre l S → (d, o.wireID) ∈ S) {err : L → Set (Nat × Nat) → Prop} :
    Tame (forkCaps d) pre (readAt sched o p off : VolJob L AfpErr _) (fun _ => pre) err := by
  apply Tame.bind (tame_askEach (fun c => touches_readChunk _ _ _) hid _)
  exact fun rs => Tame.pure fun l S h => h

theorem tame_writeAt {sched : Schedule} {o : OpenFork} {p : Bytes} {off : Nat}
    (hid : ∀ l S, pre l S → (d, o.wireID) ∈ S) {err : L → Set (Nat × Nat) → Prop} :
    Tame (forkCaps d) pre (writeAt sched o p off : VolJob L AfpErr _) (fun _ => pre) err := by
  apply Tame.bind (tame_askEach (fun c => touches_piece _ _ _ c) hid _)
  exact fun rs => Tame.pure fun l S h => h

theorem tame_truncate {o : OpenFork} {size : Int} (hid : ∀ l S, pre l S → (d, o.wireID) ∈ S) :
    Tame (forkCaps d) pre (truncate o size : VolJob L AfpErr Unit) (fun _ => pre) pre := by
  apply tame_codeOnly (touches_truncate _ size)
  rintro l S h k ⟨⟩
  exact hid l S h

/-- The fork is given up whatever the answer is. -/
theorem tame_close {o : OpenFork} {q : L → Set (Nat × Nat) → Prop}
    (hid : ∀ l S, pre l S → (d, o.wireID) ∈ S) (hq : ∀ l S, pre l S → q l (S \ {(d, o.wireID)})) :
    Tame (forkCaps d) pre (close o : VolJob L AfpErr Unit) (fun _ => q) q := by
  have hnamed : forkNamed (closeForkBlock (UInt16.ofNat o.id)) = some o.wireID :=
    forkNamed_block cmdCloseFork (by decide) (UInt16.ofNat o.id) []
  have hafter (r : Answer) (S : Set (Nat × Nat)) :
      (S \ (forkCaps d).ends (closeForkBlock (UInt16.ofNat o.id))) ∪
        (forkCaps d).gives (closeForkBlock (UInt16.ofNat o.id)) r = S \ {(d, o.wireID)} := by
    ext ⟨e, k⟩
    constructor
    · rintro (⟨hc, hend⟩ | ⟨-, hopen, -⟩)
      · refine ⟨hc, ?_⟩
        rintro ⟨⟩
        exact hend ⟨rfl, rfl, hnamed⟩
      · have hcmd : cmdCloseFork = cmdOpenFork := hopen
        exact absurd hcmd (by decide)
    · rintro ⟨hc, hne⟩
      refine .inl ⟨hc, ?_⟩
      rintro ⟨rfl, -, hk⟩
      cases hnamed.symm.trans hk
      exact hne rfl
  apply Tame.bind (m := fun _ => q)
  · apply tame_command
    · rintro l S h ⟨e, k⟩ ⟨rfl, hk⟩
      cases hnamed.symm.trans hk
      exact hid l S h
    · intro r l S h
      rw [hafter]
      exact hq l S h
    · intro e l S h
      rw [hafter]
      exact hq l S h
  · exact fun r => tame_resultErr (fun _ l S h => h) fun l S h => h

/-- What is had stays when more is given. -/
def Upward (pre : L → Set (Nat × Nat) → Prop) : Prop :=
  ∀ l S T, S ⊆ T → pre l S → pre l T

theorem tame_openForkMode (hup : Upward pre) (v : AfpVolume) (path : Bytes) (mode : UInt16) :
    Tame (forkCaps d) pre (openForkMode v path mode : VolJob L AfpErr OpenFork)
      (fun o l S => pre l S ∧ (d, o.wireID) ∈ S) pre := by
  have hhead : (v.openForkBlock rootDirID path mode).headD 0 = cmdOpenFork := rfl
  have hkept (r : Answer) (S : Set (Nat × Nat)) :
      S ⊆ (S \ (forkCaps d).ends (v.openForkBlock rootDirID path mode)) ∪
      (forkCaps d).gives (v.openForkBlock rootDirID path mode) r := by
    intro c hc
    refine .inl ⟨hc, ?_⟩
    rintro ⟨-, hclose, -⟩
    exact absurd (hhead.symm.trans hclose) (by decide)
  apply Tame.bind (m := fun r l S => pre l S ∧ ∀ f, r.2 = resNoErr → openForkReply r.1 = .ok f →
    (d, f.id.toNat) ∈ S)
  · apply tame_command
    · rintro l S h c ⟨-, hnamed⟩
      rw [forkNamed, hhead, if_neg (by decide)] at hnamed
      cases hnamed
    · rintro ⟨payload, code⟩ l S h
      refine ⟨hup l S _ (hkept _ S) h, ?_⟩
      rintro f rfl hf
      exact .inr ⟨rfl, hhead, payload, f, rfl, hf, rfl⟩
    · exact fun e l S h => hup l S _ (hkept _ S) h
  · rintro ⟨payload, code⟩
    apply Tame.bind (m := fun _ l S => pre l S ∧ ∀ f, openForkReply payload = .ok f →
      (d, f.id.toNat) ∈ S)
    · exact tame_resultErr (fun hcode l S h => ⟨h.1, fun f => h.2 f hcode⟩) fun l S h => h.1
    · intro _
      apply Tame.bind (m := fun f l S => pre l S ∧ (d, f.id.toNat) ∈ S)
      · apply Tame.lift
        · intro f hf l S h
          cases hreply : openForkReply payload with
          | error e =>
            rw [hreply] at hf
            cases hf
          | ok f' =>
            rw [hreply] at hf
            cases hf
            exact ⟨h.1, h.2 f hreply⟩
        · exact fun e _ l S h => h.1
      · intro f
        apply Tame.pure
        rintro l S ⟨hpre, hf⟩
        refine ⟨hpre, ?_⟩
        simpa [OpenFork.wireID] using hf

theorem tame_openFork (hup : Upward pre) (v : AfpVolume) (path : Bytes) (write : Bool) :
    Tame (forkCaps d) pre (openFork v path write : VolJob L AfpErr OpenFork)
      (fun o l S => pre l S ∧ (d, o.wireID) ∈ S) pre :=
  tame_openForkMode hup v path _

section PathCalls

variable {Q : L → Prop}

/-- A closure that keeps no fork in its variables. -/
theorem tame_symlink (v : AfpVolume) (sched : Schedule) (link target : Bytes) :
    Tame (forkCaps d) (fun l _ => Q l) (symlink v sched link target : VolJob L AfpErr Unit)
      (fun _ l _ => Q l) fun l _ => Q l := by
  have hup : Upward fun (l : L) (_ : Set (Nat × Nat)) => Q l := fun l S T _ h => h
  apply Tame.bind (m := fun _ l _ => Q l)
  · exact tame_plain (touches_none cmdCreateFile rfl (by decide) (by decide))
  intro _
  apply Tame.bind (tame_openFork hup v link true)
  intro o
  apply Tame.bind (tame_writeAt fun l S h => h.2)
  rintro ⟨n, err⟩
  cases err with
  | some e =>
    apply Tame.bind (m := fun _ l _ => Q l)
    · apply Tame.observe
      exact (tame_close (q := fun l _ => Q l) (fun l S h => h.2) fun l S h => h.1).weaken
        (fun l S h => h) (fun _ l S h => h) fun l S h _ => h
    · exact fun _ => Tame.throw fun l S h => h
  | none =>
    apply Tame.bind (tame_close (q := fun l _ => Q l) (fun l S h => h.2) fun l S h => h.1)
    exact fun _ => tame_plain (touches_setFinderInfo v link symlinkFinderInfo)

theorem tame_readTarget {sched : Schedule} {o : OpenFork}
    (hid : ∀ l S, pre l S → (d, o.wireID) ∈ S) :
    Tame (forkCaps d) pre (readTarget sched o : VolJob L IoErr Bytes) (fun _ => pre) pre := by
  rw [readTarget]
  split_ifs
  · exact Tame.pure fun l S h => h
  · apply Tame.bind (Tame.adapt (tame_readAt hid))
    rintro ⟨buf, n, err⟩
    rcases err with _ | e
    · exact Tame.pure fun l S h => h
    · cases e with
      | eof => exact Tame.pure fun l S h => h
      | _ => exact Tame.throw fun l S h => h

theorem tame_readLink (v : AfpVolume) (sched : Schedule) (path : Bytes) :
    Tame (forkCaps d) (fun l _ => Q l) (readLink v sched path : VolJob L IoErr Bytes)
      (fun _ l _ => Q l) fun l _ => Q l := by
  have hup : Upward fun (l : L) (_ : Set (Nat × Nat)) => Q l := fun l S T _ h => h
  apply Tame.bind (Tame.adapt (tame_openFork hup v path false))
  intro o
  apply Tame.bind (m := fun _ l S => Q l ∧ (d, o.wireID) ∈ S)
  · apply Tame.observe
    exact (tame_readTarget fun l S h => h.2).weaken (fun l S h => h) (fun _ l S h => h)
      fun l S h _ => h
  intro r
  apply Tame.bind (m := fun _ l _ => Q l)
  · apply Tame.observe
    exact (tame_close (q := fun l _ => Q l) (fun l S h => h.2) fun l S h => h.1).weaken
      (fun l S h => h) (fun _ l S h => h) fun l S h _ => h
  · exact fun _ => Tame.lift (fun a _ l S h => h) fun e _ l S h => h

theorem tame_stat (v : AfpVolume) (path : Bytes) :
    Tame (forkCaps d) (fun l _ => Q l) (stat v path : VolJob L AfpErr DirEntry) (fun _ l _ => Q l)
      fun l _ => Q l := by
  apply Tame.bind (m := fun _ l _ => Q l)
  · apply tame_command
    · exact fun l S _ =>
        (touches_none cmdGetFileDirParms rfl (by decide) (by decide)).uses fun k hk => by cases hk
    · exact fun r l S h => h
    · exact fun e l S h => h
  rintro ⟨payload, code⟩
  apply Tame.bind (tame_resultErr (q := fun _ l _ => Q l) (fun _ l S h => h) fun l S h => h)
  exact fun _ => Tame.lift (fun a _ l S h => h) fun e _ l S h => h

end PathCalls

end Requests

/-- The fork that a file has, on the connection on which it was opened. -/
def File.caps (f : File) : Set (Nat × Nat) :=
  {c | ∃ o, f.fork = some o ∧ f.forkVol = some c.1 ∧ o.wireID = c.2}

theorem File.caps_none {f : File} (h : f.fork = none) : f.caps = ∅ := by
  ext c
  simp [caps, h]

namespace Requests

open Job

variable {v : AfpVolume}

/-- What the file has is had. -/
def Holds (f : File) (S : Set (Nat × Nat)) : Prop :=
  f.caps ⊆ S

theorem holds_upward : Upward Holds :=
  fun _ _ _ hST h => h.trans hST

theorem holds_size {f : File} {S : Set (Nat × Nat)} (size : Int) (h : Holds f S) :
    Holds { f with size := size } S := h

theorem tame_reopen (p : Bytes) (writable : Bool) :
    Tame (forkCaps v.gen) Holds (reopen v p writable) (fun o f S => Holds f S ∧
      (v.gen, o.wireID) ∈ S) Holds := by
  apply Tame.bind (tame_openFork holds_upward v p writable)
  intro o
  apply Tame.bind (m := fun _ f S => Holds f S ∧ (v.gen, o.wireID) ∈ S)
  · apply Tame.modify
    rintro f S ⟨-, ho⟩
    refine ⟨?_, ho⟩
    rintro ⟨e, k⟩ ⟨x, hx, hvol, hk⟩
    cases hx
    cases hvol
    cases hk
    exact ho
  · exact fun _ => Tame.pure fun f S h => h

theorem tame_openOn (p : Bytes) (writable : Bool) :
    Tame (forkCaps v.gen) Holds (openOn v p writable) (fun o f S => Holds f S ∧
      (v.gen, o.wireID) ∈ S) Holds := by
  apply Tame.bind (m := fun f f' S => f = f' ∧ Holds f' S)
  · exact Tame.get fun f S h => ⟨rfl, h⟩
  intro f
  have hreopen :=
    (tame_reopen (v := v) p writable).weaken (fun f' S (h : f = f' ∧ Holds f' S) => h.2)
    (fun _ _ _ h => h) fun _ _ h => h
  cases hfork : f.fork with
  | none => exact hreopen
  | some o =>
    by_cases hvol : f.forkVol = some v.gen
    · simp only [if_pos hvol]
      apply Tame.pure
      rintro f' S ⟨rfl, h⟩
      exact ⟨h, h ⟨o, hfork, hvol, rfl⟩⟩
    · simp only [if_neg hvol]
      exact hreopen

theorem tame_createStep (p filename : Bytes) (flag : OpenFlags) :
    Tame (forkCaps v.gen) Holds (createStep v p filename flag) (fun _ => Holds) Holds := by
  rw [createStep]
  split
  · apply Tame.bind (m := fun _ => Holds)
    · apply Tame.observe
      exact (tame_plain (touches_none cmdCreateFile rfl (by decide) (by decide))).weaken
        (fun _ _ h => h) (fun _ _ _ h => h) fun _ _ h _ => h
    · rintro (e | ⟨⟩)
      · simp only
        split
        · split
          · exact Tame.throw fun _ _ h => h
          · exact Tame.pure fun _ _ h => h
        · exact Tame.throw fun _ _ h => h
      · exact Tame.pure fun _ _ h => h
  · exact Tame.pure fun _ _ h => h

theorem tame_truncateStep (filename : Bytes) (flag : OpenFlags) (o : OpenFork) :
    Tame (forkCaps v.gen) (fun f S => Holds f S ∧ (v.gen, o.wireID) ∈ S)
      (truncateStep filename flag o) (fun _ => Holds) Holds := by
  rw [truncateStep]
  split_ifs
  · apply Tame.bind (m := fun _ => Holds)
    · apply Tame.observe
      exact (tame_truncate fun _ _ h => h.2).weaken (fun _ _ h => h) (fun _ _ _ h => h.1)
        fun _ _ h _ => h.1
    · rintro (e | ⟨⟩)
      · exact Tame.throw fun _ _ h => h
      · exact Tame.modify fun _ _ h => holds_size 0 h
  · exact Tame.pure fun _ _ h => h.1

theorem tame_forkStep (p filename : Bytes) (flag : OpenFlags) :
    Tame (forkCaps v.gen) Holds (forkStep v p filename flag) (fun _ => Holds) Holds := by
  apply Tame.bind (m := fun r f S => Holds f S ∧ ∀ o, r = .ok o → (v.gen, o.wireID) ∈ S)
  · apply Tame.observe
    refine (tame_openOn p flag.writable).weaken (fun _ _ h => h) (fun o f S h => ⟨h.1, ?_⟩)
      fun f S h e => ⟨h, ?_⟩
    · rintro o' ⟨⟩
      exact h.2
    · rintro o' ⟨⟩
  · rintro (e | o)
    · exact Tame.throw fun _ _ h => h.1
    · apply Tame.bind (m := fun _ f S => Holds f S ∧ (v.gen, o.wireID) ∈ S)
      · apply Tame.modify
        intro f S h
        exact ⟨holds_size _ h.1, h.2 o rfl⟩
      · exact fun _ => tame_truncateStep filename flag o

theorem tame_openBody (p filename : Bytes) (flag : OpenFlags) :
    Tame (forkCaps v.gen) Holds (openBody v p filename flag) (fun _ => Holds) Holds :=
  Tame.bind (tame_createStep p filename flag) fun _ => tame_forkStep p filename flag

end Requests

end GoAfp
