import GoAfp.EntryLayout

/-! Enumerate replies: a list of blocks of different kinds and sizes, each with
its length in front. A reply is decoded to the whole list or not at all. -/

namespace GoAfp

/-- One entry of a reply: its parameter block and the padding after it, which
the length counts too. -/
structure SentEntry where
  kind : UInt8
  pad : UInt8
  params : Bytes
  padding : Bytes
  length_lt : 4 + (params.length + padding.length) < 65536

namespace SentEntry

variable (s : SentEntry)

def isDir : Bool := s.kind ≠ 0

def body : Bytes := s.params ++ s.padding

def header : Bytes := putU16 (UInt16.ofNat (4 + s.body.length)) ++ [s.kind, s.pad]

def bytes : Bytes := s.header ++ s.body

/-- The block alone parses as `e`, under the bitmap of its kind. -/
def Decodes (nfc : Bytes → Bytes) (fileBitmap dirBitmap : UInt16) (s : SentEntry)
    (e : DirEntry) : Prop :=
  parseEntryParams nfc s.params s.isDir (if s.isDir then dirBitmap else fileBitmap) = .ok e

end SentEntry

def sentEntries (es : List SentEntry) : Bytes := (es.map SentEntry.bytes).flatten

def sentHeader (fileBitmap dirBitmap : UInt16) (n : Nat) : Bytes :=
  putU16 fileBitmap ++ putU16 dirBitmap ++ putU16 (UInt16.ofNat n)

def sentReply (fileBitmap dirBitmap : UInt16) (es : List SentEntry) : Bytes :=
  sentHeader fileBitmap dirBitmap es.length ++ sentEntries es

section Reader

variable {ε α : Type} {f : StateM Reader α} {v : α} {q enc rest : Bytes} {pos n : Nat}

theorem drop_add_of_drop (hq : q.drop pos = enc ++ rest) (hn : enc.length = n) :
    q.drop (pos + n) = rest := by
  rw [← List.drop_drop, hq, List.drop_left' hn]

theorem on_reads_drop (h : Reader.Reads f enc v) (hn : enc.length = n) (hpos : pos ≤ q.length)
    (hq : q.drop pos = enc ++ rest) :
    (liftM f : Proc Reader ε α).on ⟨q, pos, none⟩ = (.ok v, ⟨q, pos + n, none⟩) := by
  have hpre : (q.take pos).length = pos := List.length_take_of_le hpos
  have h' : (liftM f : Proc Reader ε α).on ⟨q, (q.take pos).length, none⟩ = _ :=
    on_reads h (show q = q.take pos ++ (enc ++ rest) by rw [← hq, List.take_append_drop])
  rwa [hpre, hn] at h'

end Reader

theorem check_ok (b : Bytes) (pos : Nat) :
    ListM.check.on ⟨b, pos, none⟩ = (.ok (), ⟨b, pos, none⟩) := rfl

theorem check_failed {r : Reader} (h : r.err ≠ none) :
    ∃ err, ListM.check.on r = (.error err, r) := by
  obtain ⟨b, pos, _ | e⟩ := r
  · exact absurd rfl h
  · exact ⟨.reply e, rfl⟩

section Entry

variable {s : SentEntry} {q post : Bytes} {pos : Nat}

theorem SentEntry.length_header : s.header.length = 4 := by
  rw [header, List.length_append, putU16_length]
  rfl

theorem SentEntry.toNat_length : (UInt16.ofNat (4 + s.body.length)).toNat = 4 + s.body.length := by
  have hlt := s.length_lt
  rw [UInt16.toNat_ofNat', Nat.mod_eq_of_lt]
  rw [body, List.length_append]
  exact hlt

theorem entryBlock_header (i : Nat) (hpos : pos ≤ q.length) (hq : q.drop pos = s.header ++ post) :
    (entryBlock i).on ⟨q, pos, none⟩ =
      (do
        let block ← Reader.take s.body.length "entry parameters"
        ListM.check
        return (block, s.isDir) : ListM (Bytes × Bool)).on ⟨q, pos + 4, none⟩ := by
  have hlen := congrArg List.length hq
  rw [List.length_drop, List.length_append, SentEntry.length_header] at hlen
  have h₀ : q.drop pos = putU16 (UInt16.ofNat (4 + s.body.length)) ++
      ([s.kind] ++ ([s.pad] ++ post)) := by
    rw [hq, SentEntry.header]
    simp
  have h₁ := drop_add_of_drop h₀ (putU16_length _)
  have h₂ := drop_add_of_drop h₁ List.length_singleton
  rw [entryBlock, Proc.on_bind_ok (on_reads_drop (Reader.reads_u16 _ _) (putU16_length _) hpos h₀),
    Proc.on_bind_ok (on_reads_drop (Reader.reads_u8 _ _) List.length_singleton (by omega) h₁),
    Proc.on_bind_ok (on_reads_drop (Reader.reads_u8 _ _) List.length_singleton (by omega) h₂),
    Proc.on_bind_ok (check_ok _ _), SentEntry.toNat_length, if_neg (by omega),
      Nat.add_sub_cancel_left]
  rfl

theorem entryBlock_sent (i : Nat) (hpos : pos ≤ q.length) (hq : q.drop pos = s.bytes ++ post) :
    (entryBlock i).on ⟨q, pos, none⟩ =
      (.ok (s.body, s.isDir), ⟨q, pos + s.bytes.length, none⟩) := by
  have hlen := congrArg List.length hq
  rw [List.length_drop, List.length_append, SentEntry.bytes, List.length_append,
    SentEntry.length_header] at hlen
  rw [SentEntry.bytes, List.append_assoc] at hq
  have hbody := drop_add_of_drop hq SentEntry.length_header
  rw [entryBlock_header i hpos hq,
    Proc.on_bind_ok (on_reads_drop (Reader.reads_take _ rfl) rfl (by omega) hbody),
    Proc.on_bind_ok (check_ok _ _), SentEntry.bytes, List.length_append, SentEntry.length_header,
      Nat.add_assoc]
  rfl

theorem width_u8 (what : String) : Width 1 (fun b => UInt8.ofNat (natOfBytes b)) (Reader.u8 what) :=
  ⟨what, fun _ => rfl⟩

/-- The header is cut off. -/
theorem entryBlock_short (i : Nat) (hlen : q.length < pos + 4) :
    ∃ err r, (entryBlock i).on ⟨q, pos, none⟩ = (.error err, r) := by
  rw [entryBlock]
  by_cases h₂ : pos + 2 ≤ q.length
  · rw [Proc.on_bind_ok ((width_u16 _).fits_self h₂)]
    by_cases h₁ : pos + 2 + 1 ≤ q.length
    · obtain ⟨r, hread, hr⟩ :=
        (width_u8 "entry pad").short (show q.length < pos + 2 + 1 + 1 by omega)
      obtain ⟨err, hcheck⟩ := check_failed hr
      rw [Proc.on_bind_ok ((width_u8 _).fits_self h₁), Proc.on_bind_ok hread,
        Proc.on_bind_error hcheck]
      exact ⟨err, r, rfl⟩
    · obtain ⟨r, hread, hr⟩ := (width_u8 "entry isdir").short (Nat.lt_of_not_le h₁)
      obtain ⟨err, hcheck⟩ := check_failed hr
      rw [Proc.on_bind_ok hread, Proc.on_bind_ok ((width_u8 _).sticky hr),
        Proc.on_bind_error hcheck]
      exact ⟨err, r, rfl⟩
  · obtain ⟨r, hread, hr⟩ := (width_u16 "entry length").short (Nat.lt_of_not_le h₂)
    obtain ⟨err, hcheck⟩ := check_failed hr
    rw [Proc.on_bind_ok hread, Proc.on_bind_ok ((width_u8 _).sticky hr),
      Proc.on_bind_ok ((width_u8 _).sticky hr), Proc.on_bind_error hcheck]
    exact ⟨err, r, rfl⟩

theorem entryBlock_cut (i : Nat) (hpos : pos ≤ q.length) (hq : q.drop pos <+: s.bytes)
    (hne : q.drop pos ≠ s.bytes) :
    ∃ err r, (entryBlock i).on ⟨q, pos, none⟩ = (.error err, r) := by
  by_cases hlen : q.length < pos + 4
  · exact entryBlock_short i hlen
  · have hhead : s.header <+: q.drop pos := by
      refine List.prefix_of_prefix_length_le (List.prefix_append _ _) hq ?_
      rw [SentEntry.length_header, List.length_drop]
      omega
    obtain ⟨post, hpost⟩ := hhead
    have hcut : post.length < s.body.length := by
      have hle := hq.length_le
      have hlt : (q.drop pos).length ≠ s.bytes.length := fun h => hne (hq.eq_of_length h)
      rw [← hpost, SentEntry.bytes, List.length_append, List.length_append] at hle hlt
      omega
    have hsize := congrArg List.length hpost
    rw [List.length_append, SentEntry.length_header, List.length_drop] at hsize
    obtain ⟨r, hread, hr⟩ := (width_take s.body.length "entry parameters").short
      (show q.length < pos + 4 + s.body.length by omega)
    obtain ⟨err, hcheck⟩ := check_failed hr
    rw [entryBlock_header i hpos hpost.symm, Proc.on_bind_ok hread, Proc.on_bind_error hcheck]
    exact ⟨err, r, rfl⟩

end Entry

section Entries

variable {nfc : Bytes → Bytes} {fileBitmap dirBitmap : UInt16} {q post : Bytes} {pos : Nat}

theorem readEntry_sent {s : SentEntry} {e : DirEntry} (h : s.Decodes nfc fileBitmap dirBitmap e)
    (i : Nat) (hpos : pos ≤ q.length) (hq : q.drop pos = s.bytes ++ post) :
    (readEntry nfc fileBitmap dirBitmap i).on ⟨q, pos, none⟩ =
      (.ok e, ⟨q, pos + s.bytes.length, none⟩) := by
  rw [readEntry, Proc.on_bind_ok (entryBlock_sent i hpos hq)]
  simp only [SentEntry.body, parseEntryParams_append h s.padding]
  rfl

theorem readEntry_cut (nfc : Bytes → Bytes) (fileBitmap dirBitmap : UInt16) {s : SentEntry}
    (i : Nat) (hpos : pos ≤ q.length) (hq : q.drop pos <+: s.bytes) (hne : q.drop pos ≠ s.bytes) :
    ∃ err r, (readEntry nfc fileBitmap dirBitmap i).on ⟨q, pos, none⟩ = (.error err, r) := by
  obtain ⟨err, r, h⟩ := entryBlock_cut i hpos hq hne
  rw [readEntry, Proc.on_bind_error h]
  exact ⟨err, r, rfl⟩

theorem sentEntries_cons (s : SentEntry) (es : List SentEntry) :
    sentEntries (s :: es) = s.bytes ++ sentEntries es := by
  rw [sentEntries, List.map_cons, List.flatten_cons, sentEntries]

theorem readEntries_sent {es : List SentEntry} {ds : List DirEntry}
    (h : List.Forall₂ (SentEntry.Decodes nfc fileBitmap dirBitmap) es ds) (i : Nat)
    (hpos : pos ≤ q.length) (hq : q.drop pos = sentEntries es ++ post) :
    ∃ r, (readEntries nfc fileBitmap dirBitmap es.length i).on ⟨q, pos, none⟩ = (.ok ds, r) := by
  induction h generalizing pos i with
  | nil => exact ⟨_, rfl⟩
  | @cons s e es ds hs _ ih =>
    rw [sentEntries_cons, List.append_assoc] at hq
    have hlen := congrArg List.length hq
    rw [List.length_drop, List.length_append] at hlen
    obtain ⟨r, hr⟩ :=
      ih (i + 1) (show pos + s.bytes.length ≤ q.length by omega) (drop_add_of_drop hq rfl)
    refine ⟨r, ?_⟩
    rw [List.length_cons, readEntries, Proc.on_bind_ok (readEntry_sent hs i hpos hq),
      Proc.on_bind_ok hr]
    rfl

theorem readEntries_cut {es : List SentEntry} {ds : List DirEntry}
    (h : List.Forall₂ (SentEntry.Decodes nfc fileBitmap dirBitmap) es ds) (i : Nat)
    (hpos : pos ≤ q.length) (hq : q.drop pos <+: sentEntries es)
    (hne : q.drop pos ≠ sentEntries es) :
    ∃ err r, (readEntries nfc fileBitmap dirBitmap es.length i).on ⟨q, pos, none⟩ =
      (.error err, r) := by
  induction h generalizing pos i with
  | nil => exact absurd (List.prefix_nil.mp hq) hne
  | @cons s e es ds hs _ ih =>
    rw [sentEntries_cons] at hq hne
    rw [List.length_cons, readEntries]
    by_cases hcut : (q.drop pos).length < s.bytes.length
    · have hpre : q.drop pos <+: s.bytes :=
        List.prefix_of_prefix_length_le hq (List.prefix_append _ _) (Nat.le_of_lt hcut)
      obtain ⟨err, r, hr⟩ := readEntry_cut nfc fileBitmap dirBitmap i hpos hpre fun heq => by
        rw [heq] at hcut; omega
      rw [Proc.on_bind_error hr]
      exact ⟨err, r, rfl⟩
    · obtain ⟨t, ht⟩ : s.bytes <+: q.drop pos :=
        List.prefix_of_prefix_length_le (List.prefix_append _ _) hq (Nat.le_of_not_lt hcut)
      have hrest : q.drop (pos + s.bytes.length) = t := drop_add_of_drop ht.symm rfl
      have hlen := congrArg List.length ht
      rw [List.length_append, List.length_drop] at hlen
      rw [← ht, List.prefix_append_right_inj, ← hrest] at hq
      rw [← ht, Ne, List.append_cancel_left_eq, ← hrest] at hne
      obtain ⟨err, r, hr⟩ := ih (i + 1) (by omega) hq hne
      rw [Proc.on_bind_ok (readEntry_sent hs i hpos ht.symm), Proc.on_bind_error hr]
      exact ⟨err, r, rfl⟩

theorem length_sentHeader {n : Nat} : (sentHeader fileBitmap dirBitmap n).length = 6 := by
  simp [sentHeader]

theorem enumerateReply_header {n : Nat} (hn : n < 65536)
    (hq : q = sentHeader fileBitmap dirBitmap n ++ post) :
    (enumerateReply nfc).on { b := q } = (readEntries nfc fileBitmap dirBitmap n 0).on
      ⟨q, 6, none⟩ := by
  have h₀ : q.drop 0 = putU16 fileBitmap ++
      (putU16 dirBitmap ++ (putU16 (UInt16.ofNat n) ++ post)) := by
    rw [List.drop_zero, hq, sentHeader]
    simp
  have h₁ := drop_add_of_drop h₀ (putU16_length _)
  have h₂ := drop_add_of_drop h₁ (putU16_length _)
  have hlen : 6 ≤ q.length := by
    rw [hq, List.length_append, length_sentHeader]
    omega
  have hcount : (UInt16.ofNat n).toNat = n := by rw [UInt16.toNat_ofNat', Nat.mod_eq_of_lt hn]
  rw [enumerateReply,
    Proc.on_bind_ok (on_reads_drop (Reader.reads_u16 _ _) (putU16_length _) (Nat.zero_le _) h₀),
    Proc.on_bind_ok (on_reads_drop (Reader.reads_u16 _ _) (putU16_length _) (by omega) h₁),
    Proc.on_bind_ok (on_reads_drop (Reader.reads_u16 _ _) (putU16_length _) (by omega) h₂),
    Proc.on_bind_ok (check_ok _ _), hcount]

theorem enumerateReply_short (nfc : Bytes → Bytes) (hlen : q.length < 6) :
    ∃ err r, (enumerateReply nfc).on { b := q } = (.error err, r) := by
  rw [enumerateReply]
  by_cases h₂ : 0 + 2 ≤ q.length
  · rw [Proc.on_bind_ok ((width_u16 _).fits_self h₂)]
    by_cases h₄ : 0 + 2 + 2 ≤ q.length
    · obtain ⟨r, hread, hr⟩ :=
        (width_u16 "entry count").short (show q.length < 0 + 2 + 2 + 2 by omega)
      obtain ⟨err, hcheck⟩ := check_failed hr
      rw [Proc.on_bind_ok ((width_u16 _).fits_self h₄), Proc.on_bind_ok hread,
        Proc.on_bind_error hcheck]
      exact ⟨err, r, rfl⟩
    · obtain ⟨r, hread, hr⟩ := (width_u16 "dir bitmap").short (Nat.lt_of_not_le h₄)
      obtain ⟨err, hcheck⟩ := check_failed hr
      rw [Proc.on_bind_ok hread, Proc.on_bind_ok ((width_u16 _).sticky hr),
        Proc.on_bind_error hcheck]
      exact ⟨err, r, rfl⟩
  · obtain ⟨r, hread, hr⟩ := (width_u16 "file bitmap").short (Nat.lt_of_not_le h₂)
    obtain ⟨err, hcheck⟩ := check_failed hr
    rw [Proc.on_bind_ok hread, Proc.on_bind_ok ((width_u16 _).sticky hr),
      Proc.on_bind_ok ((width_u16 _).sticky hr), Proc.on_bind_error hcheck]
    exact ⟨err, r, rfl⟩

end Entries

section Reply

variable {nfc : Bytes → Bytes} {fileBitmap dirBitmap : UInt16} {es : List SentEntry}
  {ds : List DirEntry}
  (hlen : es.length ≤ 65535) (h : List.Forall₂ (SentEntry.Decodes nfc fileBitmap dirBitmap) es ds)

include hlen h

theorem parseEnumerateReply_sent (trailing : Bytes) :
    parseEnumerateReply nfc (sentReply fileBitmap dirBitmap es ++ trailing) = .ok ds := by
  have hhead : (sentHeader fileBitmap dirBitmap es.length).length = 6 := length_sentHeader
  have hq : sentReply fileBitmap dirBitmap es ++ trailing =
      sentHeader fileBitmap dirBitmap es.length ++ (sentEntries es ++ trailing) := by
        rw [sentReply, List.append_assoc]
  have hlong : 6 ≤ (sentReply fileBitmap dirBitmap es ++ trailing).length := by
    rw [hq, List.length_append, hhead]
    omega
  obtain ⟨r, hr⟩ := readEntries_sent h 0 hlong (by rw [hq, List.drop_left' hhead])
  rw [parseEnumerateReply, enumerateReply_header (Nat.lt_succ_of_le hlen) hq, hr]

theorem parseEnumerateReply_cut {q : Bytes} (hq : q <+: sentReply fileBitmap dirBitmap es)
    (hne : q ≠ sentReply fileBitmap dirBitmap es) :
    ∃ err, parseEnumerateReply nfc q = .error err := by
  have hhead : (sentHeader fileBitmap dirBitmap es.length).length = 6 := length_sentHeader
  rw [parseEnumerateReply]
  by_cases hshort : q.length < 6
  · obtain ⟨err, r, hr⟩ := enumerateReply_short nfc hshort
    exact ⟨err, by rw [hr]⟩
  · obtain ⟨t, ht⟩ : sentHeader fileBitmap dirBitmap es.length <+: q :=
      List.prefix_of_prefix_length_le (List.prefix_append _ _) hq (by omega)
    have hrest : q.drop 6 = t := by rw [← ht, List.drop_left' hhead]
    rw [← ht, sentReply, List.prefix_append_right_inj, ← hrest] at hq
    rw [← ht, sentReply, Ne, List.append_cancel_left_eq, ← hrest] at hne
    obtain ⟨err, r, hr⟩ := readEntries_cut h 0 (by omega) hq hne
    exact ⟨err, by rw [enumerateReply_header (Nat.lt_succ_of_le hlen) ht.symm, hr]⟩

end Reply

/-- A reply decodes to the entries it was made of, in their order and whatever
follows it, and no proper part of its start decodes at all. -/
theorem parseEnumerateReply_exact (nfc : Bytes → Bytes) (fileBitmap dirBitmap : UInt16)
    {es : List SentEntry} {ds : List DirEntry} (hlen : es.length ≤ 65535)
    (h : List.Forall₂ (SentEntry.Decodes nfc fileBitmap dirBitmap) es ds) :
    (∀ trailing, parseEnumerateReply nfc (sentReply fileBitmap dirBitmap es ++ trailing) = .ok ds) ∧
    ∀ q, q <+: sentReply fileBitmap dirBitmap es → q ≠ sentReply fileBitmap dirBitmap es →
      ∃ err, parseEnumerateReply nfc q = .error err :=
  ⟨fun trailing => parseEnumerateReply_sent hlen h trailing,
    fun _ hq hne => parseEnumerateReply_cut hlen h hq hne⟩

def sentFile : SentEntry := ⟨0, 0, [0, 0, 0, 7], [], by decide⟩

def sentDir : SentEntry := ⟨128, 0, [0, 3], [0, 0], by decide⟩

theorem parseEnumerateReply_exact_fileAndDir :
    parseEnumerateReply id (sentReply kFPNodeIDBit kFPOffspringCountBit [sentFile, sentDir]) =
      .ok [{ isDir := false, nodeID := 7 }, { isDir := true, offspring := 3 }] ∧
    ∃ err, parseEnumerateReply id
      ((sentReply kFPNodeIDBit kFPOffspringCountBit [sentFile, sentDir]).take 21) = .error err := by
  have hdecodes : List.Forall₂ (SentEntry.Decodes id kFPNodeIDBit kFPOffspringCountBit)
      [sentFile, sentDir] [{ isDir := false, nodeID := 7 }, { isDir := true, offspring := 3 }] :=
    .cons (by unfold SentEntry.Decodes; decide +kernel)
      (.cons (by unfold SentEntry.Decodes; decide +kernel) .nil)
  have h := parseEnumerateReply_exact id kFPNodeIDBit kFPOffspringCountBit (by decide) hdecodes
  have hwhole := h.1 []
  rw [List.append_nil] at hwhole
  exact ⟨hwhole, h.2 _ (List.take_prefix _ _) (by decide)⟩

end GoAfp
