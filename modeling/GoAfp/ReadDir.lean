import GoAfp.EnumerateReply
import GoAfp.Path
import GoAfp.Session

/-! Listing a directory batch by batch. The server chooses how many entries it
sends in one reply; the client asks again from the index after the last one it
got, until the server has none. -/

namespace GoAfp

def volAttrSupportsUnix : UInt16 := 0x20

/-- An open volume as its requests see it. -/
structure VolumeRef where
  id : UInt16
  attributes : UInt16

namespace VolumeRef

variable (v : VolumeRef)

def supportsUnixPrivs : Bool := v.attributes &&& volAttrSupportsUnix ≠ 0

def entryBitmaps : UInt16 × UInt16 :=
  let fileBitmap := kFPParentDirIDBit ||| kFPCreateDateBit ||| kFPModDateBit |||
    kFPNodeIDBit ||| kFPUTF8NameBit ||| kFPExtDataForkLenBit ||| kFPFinderInfoBit
  let dirBitmap := kFPParentDirIDBit ||| kFPCreateDateBit ||| kFPModDateBit |||
    kFPNodeIDBit ||| kFPUTF8NameBit ||| kFPOffspringCountBit
  if v.supportsUnixPrivs then (fileBitmap ||| kFPUnixPrivsBit, dirBitmap ||| kFPUnixPrivsBit)
  else (fileBitmap, dirBitmap)

def enumerateBatch : UInt16 := 512

def enumerateReplySize : UInt32 := 256 * 1024

def enumerateRequest (nfd : Bytes → Bytes) (dirID : UInt32) (path : Bytes)
    (start : UInt32) : Bytes :=
  let (fileBitmap, dirBitmap) := v.entryBitmaps
  cmdEnumerateExt2 :: 0 :: putU16 v.id ++ putU32 dirID ++ putU16 fileBitmap ++ putU16 dirBitmap ++
    putU16 enumerateBatch ++ putU32 start ++ putU32 enumerateReplySize ++ putPath nfd path

end VolumeRef

/-- `norm.NFD` and `norm.NFC`, the server's end, and what is listed. -/
structure DirQuery where
  nfd : Bytes → Bytes
  nfc : Bytes → Bytes
  peer : Peer
  vol : VolumeRef
  dirID : UInt32
  path : Bytes

namespace DirQuery

variable (d : DirQuery)

def request (start : UInt32) : Bytes := d.vol.enumerateRequest d.nfd d.dirID d.path start

/-- The loop of `ReadDir`, with the index of the next entry and the entries so
far; `none` when the rounds are used up. -/
def readDirLoop : Nat → UInt32 → List DirEntry → Proc (List Bytes) ListErr (Option (List DirEntry))
  | 0, _, _ => return none
  | fuel + 1, start, all => do
    let (payload, code) ← Proc.adapt ListErr.reply (Session.command d.peer (d.request start))
    if code = resObjectNotFound then
      return some all
    (resultErr ("enumerate " ++ goText d.path) code).mapError ListErr.reply
    let entries ← parseEnumerateReply d.nfc payload
    if entries.length = 0 then
      return some all
    readDirLoop fuel (start + UInt32.ofNat entries.length) (all ++ entries)

def readDir (fuel : Nat) : Proc (List Bytes) ListErr (Option (List DirEntry)) :=
  d.readDirLoop fuel 1 []

/-- The answer to the request from index `start` on, after the requests `sent`. -/
def answer (sent : List Bytes) (start : UInt32) : Except AfpErr (Bytes × Result) :=
  (d.peer (sent ++ [d.request start])).result

section Round

variable {d} {sent : List Bytes} {start : UInt32} {fuel : Nat} {all batch : List DirEntry}
  {payload : Bytes}

theorem on_command {code : Result} (h : d.answer sent start = .ok (payload, code)) :
    (Proc.adapt ListErr.reply (Session.command d.peer (d.request start))).on sent =
      (.ok (payload, code), sent ++ [d.request start]) := by
  rw [answer] at h
  rw [Proc.on_adapt, Session.command_on, h]
  rfl

theorem readDirLoop_notFound (h : d.answer sent start = .ok (payload, resObjectNotFound)) :
    (d.readDirLoop (fuel + 1) start all).on sent = (.ok (some all), sent ++ [d.request start]) := by
  rw [readDirLoop, Proc.on_bind_ok (on_command h)]
  rfl

theorem readDirLoop_batch (h : d.answer sent start = .ok (payload, resNoErr))
    (hparse : parseEnumerateReply d.nfc payload = .ok batch) :
    (d.readDirLoop (fuel + 1) start all).on sent =
      if batch = [] then (.ok (some all), sent ++ [d.request start])
      else (d.readDirLoop fuel (start + UInt32.ofNat batch.length) (all ++ batch)).on
        (sent ++ [d.request start]) := by
  have hcode (sent : List Bytes) :
      (liftM ((resultErr ("enumerate " ++ goText d.path) resNoErr).mapError ListErr.reply) :
      Proc (List Bytes) ListErr Unit).on sent = (.ok (), sent) := by
    rw [resultErr_noErr]
    rfl
  have hentries (sent : List Bytes) : (liftM (parseEnumerateReply d.nfc payload) :
      Proc (List Bytes) ListErr (List DirEntry)).on sent = (.ok batch, sent) := by
        rw [hparse, Proc.on_lift]
  have hfound : ¬ resNoErr = resObjectNotFound := by decide
  rw [readDirLoop, Proc.on_bind_ok (on_command h)]
  simp only [if_neg hfound]
  rw [Proc.on_bind_ok (hcode _), Proc.on_bind_ok (hentries _)]
  by_cases hnil : batch = []
  · rw [if_pos hnil, hnil]
    rfl
  · rw [if_neg hnil, if_neg (by rwa [List.length_eq_zero_iff])]

end Round

/-- The server lists `L`: from an index in it a non-empty part of what is
there, and from an index after it nothing. -/
def Lists (L : List DirEntry) : Prop :=
  ∀ sent (start : UInt32), start ≠ 0 →
    (start.toNat ≤ L.length → ∃ payload batch, d.answer sent start = .ok (payload, resNoErr) ∧
      parseEnumerateReply d.nfc payload = .ok batch ∧ batch ≠ [] ∧
        batch <+: L.drop (start.toNat - 1)) ∧
    (L.length < start.toNat → ∃ payload, d.answer sent start = .ok (payload, resObjectNotFound) ∨
      d.answer sent start = .ok (payload, resNoErr) ∧ parseEnumerateReply d.nfc payload = .ok [])

/-- The entries so far are the first ones of `L`, and `start` is the index
after them. -/
theorem readDirLoop_lists {L : List DirEntry} (hL : L.length < 2 ^ 32 - 1) (h : d.Lists L)
    {fuel : Nat} {start : UInt32} {n : Nat} (hn : n ≤ L.length) (hstart : start.toNat = n + 1)
    (hfuel : L.length - n < fuel) (sent : List Bytes) :
    ∃ sent', (d.readDirLoop fuel start (L.take n)).on sent = (.ok (some L), sent') := by
  induction fuel generalizing start n sent with
  | zero => omega
  | succ fuel ih =>
    have hne : start ≠ 0 := by
      rintro rfl
      simp at hstart
    obtain ⟨hin, hout⟩ := h sent start hne
    by_cases hmore : n < L.length
    · obtain ⟨payload, batch, hanswer, hparse, hbatch, hpre⟩ := hin (by omega)
      rw [hstart, Nat.add_sub_cancel] at hpre
      have hle := hpre.length_le
      rw [List.length_drop] at hle
      have hpos := List.length_pos_iff.mpr hbatch
      have hnext : (start + UInt32.ofNat batch.length).toNat = n + batch.length + 1 := by
        rw [UInt32.toNat_add, UInt32.toNat_ofNat', hstart, Nat.add_mod_mod,
          Nat.mod_eq_of_lt (by omega)]
        omega
      have hall : L.take n ++ batch = L.take (n + batch.length) := by
        rw [List.take_add, List.prefix_iff_eq_take.mp hpre, List.length_take, List.length_drop,
          Nat.min_eq_left hle]
      rw [readDirLoop_batch hanswer hparse, if_neg hbatch, hall]
      exact ih (by omega) hnext (by omega) _
    · obtain rfl : n = L.length := by omega
      rw [List.take_length]
      obtain ⟨payload, hanswer | ⟨hanswer, hparse⟩⟩ := hout (by omega)
      · exact ⟨_, readDirLoop_notFound hanswer⟩
      · rw [readDirLoop_batch hanswer hparse, if_pos rfl]
        exact ⟨_, rfl⟩

end DirQuery

/-- Listing ends and gives all entries in order, for fewer than 2³² - 1 of
them. -/
theorem readDir_exact (d : DirQuery) {L : List DirEntry} (hL : L.length < 2 ^ 32 - 1)
    (h : d.Lists L) {fuel : Nat} (hfuel : L.length < fuel) (sent : List Bytes) :
    ∃ sent', (d.readDir fuel).on sent = (.ok (some L), sent') :=
  d.readDirLoop_lists hL h (Nat.zero_le _) rfl hfuel sent

/-- The index in an enumerate request. -/
def startIndex (req : Bytes) : UInt32 := UInt32.ofNat (natOfBytes ((req.drop 14).take 4))

theorem DirQuery.startIndex_request (d : DirQuery) (start : UInt32) :
    startIndex (d.request start) = start := by
  obtain ⟨head, hhead⟩ : ∃ head,
      head = cmdEnumerateExt2 :: 0 :: putU16 d.vol.id ++ putU32 d.dirID ++
    putU16 d.vol.entryBitmaps.1 ++ putU16 d.vol.entryBitmaps.2 ++
      putU16 VolumeRef.enumerateBatch := ⟨_, rfl⟩
  have hlen : head.length = 14 := by simp [hhead]
  have hreq : d.request start = head ++
      (putU32 start ++ (putU32 VolumeRef.enumerateReplySize ++ putPath d.nfd d.path)) := by
    simp [DirQuery.request, VolumeRef.enumerateRequest, hhead]
  rw [startIndex, hreq, List.drop_left' hlen, List.take_left' (putU32_length start),
    natOfBytes_putU32]

/-- A server that sends at most `limit` entries of `es` in one reply. -/
structure EntryServer where
  fileBitmap : UInt16
  dirBitmap : UInt16
  es : List SentEntry
  limit : Nat
  limit_pos : 0 < limit
  limit_le : limit ≤ 65535

namespace EntryServer

variable (srv : EntryServer)

def batch (start : UInt32) : List SentEntry := (srv.es.drop (start.toNat - 1)).take srv.limit

def serve (start : UInt32) : Outcome :=
  let code := if srv.batch start = [] then resObjectNotFound else resNoErr
  .reply
    ⟨{ flags := flagReply, command := cmdCommand, requestID := 1, errCode := code.toUInt32
       length := 0 }, sentReply srv.fileBitmap srv.dirBitmap (srv.batch start), none⟩

def peer : Peer := fun sent => srv.serve (startIndex (sent.getLastD []))

variable {srv} {d : DirQuery} (hd : d.peer = srv.peer) {ds : List DirEntry}
  (h : List.Forall₂ (SentEntry.Decodes d.nfc srv.fileBitmap srv.dirBitmap) srv.es ds)

include hd

theorem answer_eq (sent : List Bytes) (start : UInt32) :
    d.answer sent start = .ok (sentReply srv.fileBitmap srv.dirBitmap (srv.batch start),
      if srv.batch start = [] then resObjectNotFound else resNoErr) := by
  have hserve : d.peer (sent ++ [d.request start]) = srv.serve start := by
    rw [hd]
    change srv.serve (startIndex ((sent ++ [d.request start]).getLastD [])) = _
    rw [List.getLastD_concat, DirQuery.startIndex_request]
  rw [DirQuery.answer, hserve]
  rfl

include h

omit hd in
theorem parse_batch (start : UInt32) :
    parseEnumerateReply d.nfc (sentReply srv.fileBitmap srv.dirBitmap (srv.batch start)) =
      .ok ((ds.drop (start.toNat - 1)).take srv.limit) := by
  have hlen : (srv.batch start).length ≤ 65535 := (List.length_take_le _ _).trans srv.limit_le
  have hparse :=
    parseEnumerateReply_sent hlen
      (List.forall₂_take srv.limit (List.forall₂_drop (start.toNat - 1) h)) []
  rwa [List.append_nil] at hparse

/-- An index of an entry, or index 0, which is served like 1. -/
theorem answer_batch (sent : List Bytes) {start : UInt32} (hlt : start.toNat - 1 < ds.length) :
    ∃ payload batch, d.answer sent start = .ok (payload, resNoErr) ∧
      parseEnumerateReply d.nfc payload = .ok batch ∧ batch ≠ [] ∧
        batch <+: ds.drop (start.toNat - 1) := by
  have hsize := h.length_eq
  have hpos := srv.limit_pos
  have hsome : srv.batch start ≠ [] := by
    rw [batch, ← List.length_pos_iff, List.length_take, List.length_drop]
    omega
  refine ⟨_, _, by rw [answer_eq hd, if_neg hsome], parse_batch h start, ?_, List.take_prefix _ _⟩
  rw [← List.length_pos_iff, List.length_take, List.length_drop]
  omega

theorem lists : d.Lists ds := by
  intro sent start hne
  have hstart : start.toNat ≠ 0 := fun h0 => hne (UInt32.toNat_inj.mp h0)
  refine ⟨fun hle => answer_batch hd h sent (by omega), fun hlt => ?_⟩
  have hnone : srv.batch start = [] := by
    have hsize := h.length_eq
    rw [batch, List.drop_of_length_le (by omega), List.take_nil]
  exact ⟨_, Or.inl (by rw [answer_eq hd, if_pos hnone])⟩

/-- With `2³² - 1` entries the index after the last one is 0, and the listing
starts over. -/
theorem endless (hn : 2 ^ 32 - 1 ≤ ds.length) (fuel : Nat) (start : UInt32) (all : List DirEntry)
    (sent : List Bytes) :
    ∃ sent', (d.readDirLoop fuel start all).on sent = (.ok none, sent') := by
  induction fuel generalizing start all sent with
  | zero => exact ⟨sent, rfl⟩
  | succ fuel ih =>
    have hlt := start.toNat_lt
    obtain ⟨payload, batch, hanswer, hparse, hbatch, -⟩ :=
      answer_batch hd h sent (show start.toNat - 1 < ds.length by omega)
    rw [DirQuery.readDirLoop_batch hanswer hparse, if_neg hbatch]
    exact ih _ _ _

end EntryServer

/-- A file of which no parameter is sent. -/
def bareFile : SentEntry := ⟨0, 0, [], [], by decide⟩

def bareFiles (n : Nat) : EntryServer :=
  ⟨0, 0, List.replicate n bareFile, 1, Nat.one_pos, by decide⟩

def bareQuery (n : Nat) : DirQuery := ⟨id, id, (bareFiles n).peer, ⟨1, 0⟩, 2, []⟩

def bareEntries (n : Nat) : List DirEntry := List.replicate n { isDir := false }

theorem bareFiles_decode (n : Nat) :
    List.Forall₂
      (SentEntry.Decodes (bareQuery n).nfc (bareFiles n).fileBitmap (bareFiles n).dirBitmap)
      (bareFiles n).es (bareEntries n) := by
  have hone : SentEntry.Decodes id 0 0 bareFile { isDir := false } := by
    unfold SentEntry.Decodes
    decide +kernel
  induction n with
  | zero => exact .nil
  | succ n ih => exact .cons hone ih

theorem bareQuery_lists (n : Nat) : (bareQuery n).Lists (bareEntries n) :=
  EntryServer.lists rfl (bareFiles_decode n)

theorem bareQuery_endless {n : Nat} (hn : 2 ^ 32 - 1 ≤ n) (fuel : Nat) (sent : List Bytes) :
    ∃ sent', ((bareQuery n).readDir fuel).on sent = (.ok none, sent') :=
  EntryServer.endless rfl (bareFiles_decode n)
    (by rwa [bareEntries, List.length_replicate]) fuel 1 [] sent

theorem readDir_exact_bareFiles :
    ∃ sent', ((bareQuery 3).readDir 4).on [] = (.ok (some (bareEntries 3)), sent') :=
  readDir_exact (bareQuery 3) (by decide) (bareQuery_lists 3) (by decide) []

/-- The listing of `2³² - 1` entries never ends. -/
theorem readDir_wraps :
    ∃ (d : DirQuery) (L : List DirEntry), L.length < 2 ^ 32 ∧ d.Lists L ∧
      ∀ fuel sent, ∃ sent', (d.readDir fuel).on sent = (.ok none, sent') := by
  refine ⟨bareQuery (2 ^ 32 - 1), bareEntries (2 ^ 32 - 1), ?_, bareQuery_lists _, bareQuery_endless
    (Nat.le_refl _)⟩
  rw [bareEntries, List.length_replicate]
  decide

end GoAfp
