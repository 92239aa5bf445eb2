import GoAfp.ServerInfo

/-! The layout of the server-information block: a header of offsets and the
server's name, and then the tables in any order with anything between them. -/

namespace GoAfp

/-- The bytes `enc` stand in `b` at `off`. -/
def Placed (b : Bytes) (off : Nat) (enc : Bytes) : Prop :=
  ∃ pre post, b = pre ++ (enc ++ post) ∧ pre.length = off

theorem Placed.split {b enc enc' : Bytes} {off : Nat} (h : Placed b off (enc ++ enc')) :
    Placed b off enc ∧ Placed b (off + enc.length) enc' := by
  obtain ⟨pre, post, rfl, rfl⟩ := h
  refine ⟨⟨pre, enc' ++ post, by rw [List.append_assoc], rfl⟩, pre ++
    enc, post, ?_, List.length_append⟩
  simp only [List.append_assoc]

def putPascalList (l : List Bytes) : Bytes :=
  UInt8.ofNat l.length :: l.flatMap putPascal

section Strings

variable {b : Bytes} {off : Nat}

theorem pascalString_placed {s : Bytes} (hs : s.length ≤ 255) (h : Placed b off (putPascal s)) :
    pascalString b off = .ok (s, off + (putPascal s).length) := by
  obtain ⟨pre, post, rfl, rfl⟩ := h
  rw [putPascal_eq hs, List.cons_append, List.length_cons]
  have hlen : (pre ++ UInt8.ofNat s.length :: (s ++ post)).length =
      pre.length + 1 + s.length + post.length := by
    simp only [List.length_append, List.length_cons]
    omega
  have hslice :
      (Fault.slice (pre ++ UInt8.ofNat s.length :: (s ++ post)) (pre.length + 1)
        (pre.length + 1 + s.length) :
      Except (Fault TextErr) Bytes) = .ok s := by
    have h :=
      Fault.slice_append (ε := TextErr)
        (pre ++ [UInt8.ofNat s.length]) s post List.length_append rfl
    rwa [List.append_assoc] at h
  unfold pascalString
  rw [if_neg (by omega), Fault.index_append]
  show (if pre.length + 1 + (UInt8.ofNat s.length).toNat > _ then _ else _) = _
  rw [toNat_ofNat8 hs, if_neg (by omega), hslice, Nat.add_right_comm, Nat.add_assoc]
  rfl

theorem pascalItems_placed {l : List Bytes} (hl : ∀ s ∈ l, s.length ≤ 255) (i : Nat)
    (h : Placed b off (l.flatMap putPascal)) : pascalItems b l.length i off = .ok l := by
  induction l generalizing i off with
  | nil => rfl
  | cons s l ih =>
    rw [List.flatMap_cons] at h
    obtain ⟨hfirst, hrest⟩ := h.split
    have hnext := ih (fun t ht => hl t (List.mem_cons_of_mem s ht)) (i + 1) hrest
    rw [List.length_cons, pascalItems, pascalString_placed (hl s List.mem_cons_self) hfirst]
    show (pascalItems b l.length (i + 1) (off + (putPascal s).length) >>= _) = _
    rw [hnext]
    rfl

theorem pascalList_placed {l : List Bytes} (hcount : l.length ≤ 255) (hl : ∀ s ∈ l, s.length ≤ 255)
    (hoff : off ≠ 0) (h : Placed b off (putPascalList l)) : pascalList b off = .ok l := by
  have hsplit : Placed b off ([UInt8.ofNat l.length] ++ l.flatMap putPascal) := h
  have hitems : Placed b (off + 1) (l.flatMap putPascal) := hsplit.split.2
  have hread := pascalItems_placed hl 0 hitems
  obtain ⟨pre, post, rfl, rfl⟩ := h
  have hlen : pre.length < (pre ++ (putPascalList l ++ post)).length := by
    simp only [putPascalList, List.length_append, List.length_cons]
    omega
  unfold pascalList
  rw [if_neg hoff, if_neg (by omega)]
  show (Fault.index
    (pre ++ UInt8.ofNat l.length :: (l.flatMap putPascal ++ post)) pre.length >>= _) = _
  rw [Fault.index_append]
  show pascalItems _ (UInt8.ofNat l.length).toNat 0 _ = _
  rw [toNat_ofNat8 hcount]
  exact hread

theorem uint16At_placed {v : UInt16} {hi : Nat} (hhi : off + 2 = hi) (h : Placed b off (putU16 v)) :
    uint16At b off hi = .ok v.toNat := by
  obtain ⟨pre, post, rfl, hpre⟩ := h
  have hnat : natOfBytes (putU16 v) = v.toNat := natOfBytes_fillBytes v.toNat_lt
  have hslice : (Fault.slice (pre ++ (putU16 v ++ post)) off hi : Except (Fault TextErr) Bytes) =
      .ok (putU16 v) :=
    Fault.slice_append pre (putU16 v) post hpre (by rw [putU16_length, hhi])
  unfold uint16At
  rw [hslice]
  show Checked.bigEndian 2 (putU16 v) = _
  rw [Checked.bigEndian_eq (by decide) (putU16_length v), hnat]

theorem parseServerInfo_placed {machineOff versionsOff uamsOff icon flags : UInt16}
    {name machine : Bytes} {versions uams : List Bytes} (hname : name.length ≤ 255)
    (hmachine : machine.length ≤ 255) (hheader : Placed b 0
      (putU16 machineOff ++
      (putU16 versionsOff ++ (putU16 uamsOff ++ (putU16 icon ++ (putU16 flags ++
      putPascal name))))))
    (hmachineAt : Placed b machineOff.toNat (putPascal machine))
    (hversions : pascalList b versionsOff.toNat = .ok versions)
    (huams : pascalList b uamsOff.toNat = .ok uams) :
    parseServerInfo b = .ok ⟨name, machine, versions, uams, flags⟩ := by
  obtain ⟨h0, hafter2⟩ := hheader.split
  obtain ⟨h2, hafter4⟩ := hafter2.split
  obtain ⟨h4, hafter6⟩ := hafter4.split
  obtain ⟨-, hafter8⟩ := hafter6.split
  obtain ⟨h8, h10⟩ := hafter8.split
  simp only [putU16_length] at h2 h4 h8 h10
  have hlen : 11 ≤ b.length := by
    obtain ⟨pre, post, rfl, hpre⟩ := h10
    rw [putPascal_eq hname, List.length_append, hpre, List.cons_append, List.length_cons]
    omega
  unfold parseServerInfo
  rw [if_neg (Nat.not_lt.mpr hlen), uint16At_placed rfl h8]
  show ((pascalString b 10).mapError _ >>= _) = _
  rw [pascalString_placed hname h10]
  show (uint16At b 0 2 >>= _) = _
  rw [uint16At_placed rfl h0]
  show ((pascalString b machineOff.toNat).mapError _ >>= _) = _
  rw [pascalString_placed hmachine hmachineAt]
  show (uint16At b 2 4 >>= _) = _
  rw [uint16At_placed rfl h2]
  show ((pascalList b versionsOff.toNat).mapError _ >>= _) = _
  rw [hversions]
  show (uint16At b 4 6 >>= _) = _
  rw [uint16At_placed rfl h4]
  show ((pascalList b uamsOff.toNat).mapError _ >>= _) = _
  rw [huams]
  show Except.ok (ServerInfo.mk name machine versions uams (UInt16.ofNat flags.toNat)) = _
  rw [UInt16.ofNat_toNat]

end Strings

/-- The tables that are read; the offset of the icon is not. -/
inductive InfoTable
  | machineType
  | versions
  | uams
  deriving DecidableEq, Repr

/-- What a server says of itself, within the limits of the format. -/
structure InfoContent where
  serverName : { s : Bytes // s.length ≤ 255 }
  machineType : { s : Bytes // s.length ≤ 255 }
  versions : { l : List Bytes // l.length ≤ 255 ∧ ∀ s ∈ l, s.length ≤ 255 }
  uams : { l : List Bytes // l.length ≤ 255 ∧ ∀ s ∈ l, s.length ≤ 255 }
  flags : UInt16

namespace InfoContent

variable (c : InfoContent)

def table : InfoTable → Bytes
  | .machineType => putPascal c.machineType.val
  | .versions => putPascalList c.versions.val
  | .uams => putPascalList c.uams.val

/-- The tables in the order given, each after the bytes beside it. -/
def tables (places : List (Bytes × InfoTable)) : Bytes :=
  places.flatMap fun p => p.1 ++ c.table p.2

/-- Where the table is, if the first of the places is at `start`. -/
def offsetFrom (t : InfoTable) : Nat → List (Bytes × InfoTable) → Option Nat
  | _, [] => none
  | start, (gap, t') :: places =>
    if t' = t then some (start + gap.length)
      else offsetFrom t (start + gap.length + (c.table t').length) places

/-- The offset of a table, 0 if it is left out. -/
def tableOffset (places : List (Bytes × InfoTable)) (t : InfoTable) : Nat :=
  (c.offsetFrom t (11 + c.serverName.val.length) places).getD 0

def header (icon : UInt16) (places : List (Bytes × InfoTable)) : Bytes :=
  putU16 (UInt16.ofNat (c.tableOffset places .machineType)) ++
    (putU16 (UInt16.ofNat (c.tableOffset places .versions)) ++
    (putU16 (UInt16.ofNat (c.tableOffset places .uams)) ++
      (putU16 icon ++ (putU16 c.flags ++ putPascal c.serverName.val))))

def block (icon : UInt16) (places : List (Bytes × InfoTable)) (trailing : Bytes) : Bytes :=
  c.header icon places ++ (c.tables places ++ trailing)

/-- What is to be read: the lists whose offset is 0 are empty. -/
def info (places : List (Bytes × InfoTable)) : ServerInfo where
  serverName := c.serverName
  machineType := c.machineType
  afpVersions := if c.tableOffset places .versions = 0 then [] else c.versions
  uams := if c.tableOffset places .uams = 0 then [] else c.uams
  flags := c.flags

variable {c}

theorem placed_table {t : InfoTable} {start off : Nat} {places : List (Bytes × InfoTable)}
    (h : c.offsetFrom t start places = some off) {pre : Bytes} (hpre : pre.length = start)
    (post : Bytes) :
    Placed (pre ++ (c.tables places ++ post)) off (c.table t) := by
  induction places generalizing start pre with
  | nil => cases h
  | cons p places ih =>
    obtain ⟨gap, t'⟩ := p
    have hcons : pre ++ (c.tables ((gap, t') :: places) ++ post) =
        (pre ++ gap) ++ (c.table t' ++ (c.tables places ++ post)) := by
      simp [tables]
    rw [offsetFrom] at h
    split_ifs at h with ht
    · cases h
      subst ht
      exact ⟨pre ++ gap, c.tables places ++ post, hcons, by rw [List.length_append, hpre]⟩
    · rw [hcons, ← List.append_assoc]
      apply ih h
      rw [List.length_append, List.length_append, hpre]

theorem le_offsetFrom {t : InfoTable} {start off : Nat} {places : List (Bytes × InfoTable)}
    (h : c.offsetFrom t start places = some off) : start ≤ off := by
  induction places generalizing start with
  | nil => cases h
  | cons p places ih =>
    obtain ⟨gap, t'⟩ := p
    rw [offsetFrom] at h
    split_ifs at h with ht
    · cases h
      exact Nat.le_add_right _ _
    · have hle := ih h
      omega

theorem offsetFrom_isSome {t : InfoTable} {places : List (Bytes × InfoTable)}
    (h : t ∈ places.map Prod.snd) (start : Nat) :
    (c.offsetFrom t start places).isSome := by
  induction places generalizing start with
  | nil => cases h
  | cons p places ih =>
    obtain ⟨gap, t'⟩ := p
    rw [offsetFrom]
    split_ifs with ht
    · rfl
    · rcases List.mem_cons.mp h with rfl | hmem
      · exact absurd rfl ht
      · exact ih hmem _

theorem placed_tableOffset {icon : UInt16} {t : InfoTable} {places : List (Bytes × InfoTable)}
    (h : c.tableOffset places t ≠ 0) (trailing : Bytes) :
    Placed (c.block icon places trailing) (c.tableOffset places t) (c.table t) := by
  cases ho : c.offsetFrom t (11 + c.serverName.val.length) places with
  | none =>
    rw [tableOffset, ho] at h
    exact absurd rfl h
  | some off =>
    rw [tableOffset, ho]
    apply placed_table ho
    simp only [header, List.length_append, putU16_length, putPascal_eq c.serverName.property,
      List.length_cons]
    omega

theorem tableOffset_ne_zero {t : InfoTable} {places : List (Bytes × InfoTable)}
    (h : t ∈ places.map Prod.snd) :
    c.tableOffset places t ≠ 0 := by
  obtain ⟨off, ho⟩ :=
    Option.isSome_iff_exists.mp (offsetFrom_isSome (c := c) h (11 + c.serverName.val.length))
  have hle := le_offsetFrom ho
  rw [tableOffset, ho, Option.getD_some]
  omega

theorem pascalList_tableOffset {icon : UInt16} {t : InfoTable} {places : List (Bytes × InfoTable)}
    {trailing : Bytes} {l : List Bytes} (ht : c.table t = putPascalList l)
    (hl : l.length ≤ 255 ∧ ∀ s ∈ l, s.length ≤ 255) :
    pascalList (c.block icon places trailing) (c.tableOffset places t) =
      .ok (if c.tableOffset places t = 0 then [] else l) := by
  by_cases h : c.tableOffset places t = 0
  · rw [if_pos h, h]
    rfl
  · have hplaced : Placed (c.block icon places trailing) _ _ := placed_tableOffset h trailing
    rw [ht] at hplaced
    rw [if_neg h, pascalList_placed hl.1 hl.2 h hplaced]

end InfoContent

/-- Reading a block gives what it was made of, whatever the order of the
tables, the bytes before each of them and the bytes after the last. -/
theorem parseServerInfo_block (c : InfoContent) (icon : UInt16) (places : List (Bytes × InfoTable))
    (trailing : Bytes) (hmachine : .machineType ∈ places.map Prod.snd)
    (hfit : ∀ t, c.tableOffset places t < 65536) :
    parseServerInfo (c.block icon places trailing) = .ok (c.info places) := by
  have hoff : ∀ t, (UInt16.ofNat (c.tableOffset places t)).toNat = c.tableOffset places t :=
    fun t => UInt16.toNat_ofNat_of_lt' (hfit t)
  have hheader : Placed (c.block icon places trailing) 0 (c.header icon places) := ⟨[], _, rfl, rfl⟩
  apply parseServerInfo_placed c.serverName.property c.machineType.property hheader
  · rw [hoff]
    exact InfoContent.placed_tableOffset (InfoContent.tableOffset_ne_zero hmachine) trailing
  · rw [hoff]
    exact InfoContent.pascalList_tableOffset rfl c.versions.property
  · rw [hoff]
    exact InfoContent.pascalList_tableOffset rfl c.uams.property

/-- A server named `s` that lists its methods before its machine type, with
one byte between them, and no versions. -/
def unversioned : InfoContent where
  serverName := ⟨[115], by decide⟩
  machineType := ⟨[110, 97, 115], by decide⟩
  versions := ⟨[], by decide⟩
  uams := ⟨[[68, 72, 88, 50], []], by decide⟩
  flags := 0x8003

theorem parseServerInfo_block_unversioned :
    unversioned.tableOffset [([], .uams), ([0], .machineType)] .versions = 0 ∧
      parseServerInfo (unversioned.block 0 [([], .uams), ([0], .machineType)] [7]) =
        .ok ⟨[115], [110, 97, 115], [], [[68, 72, 88, 50], []], 0x8003⟩ :=
  ⟨rfl, parseServerInfo_block unversioned 0 [([], .uams), ([0], .machineType)] [7] (by decide)
    fun t => by cases t <;> decide⟩

end GoAfp
