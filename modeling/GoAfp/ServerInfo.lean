import GoAfp.CheckedReader

/-! The server-information block: tables of strings that a header of offsets
points at. -/

namespace GoAfp

/-- An error text by its format and arguments, around another one for `%w`. -/
inductive TextErr
  | text (format : String) (args : List Nat)
  | wrapped (format : String) (args : List Nat) (e : TextErr)
  deriving DecidableEq, Repr

structure ServerInfo where
  serverName : Bytes
  machineType : Bytes
  afpVersions : List Bytes
  uams : List Bytes
  flags : UInt16
  deriving DecidableEq, Repr

/-- The string at `off` and the offset of the first byte past it. -/
def pascalString (b : Bytes) (off : Nat) : Except (Fault TextErr) (Bytes × Nat) := do
  if off ≥ b.length then
    throw (.error (.text "offset %d outside %d-byte block" [off, b.length]))
  let n := (← Fault.index b off).toNat
  let stop := off + 1 + n
  if stop > b.length then
    throw (.error (.text "string at %d overruns block (%d+%d > %d)" [off, off + 1, n, b.length]))
  return (← Fault.slice b (off + 1) stop, stop)

/-- The items from the `i`th on, the first of them at `pos`. -/
def pascalItems (b : Bytes) : Nat → Nat → Nat → Except (Fault TextErr) (List Bytes)
  | 0, _, _ => return []
  | n + 1, i, pos => do
    let (s, next) ← (pascalString b pos).mapError (Fault.map (.wrapped "list item %d: %w" [i]))
    let rest ← pascalItems b n (i + 1) next
    return s :: rest

/-- The list whose count byte stands at `off`; none stands at 0. -/
def pascalList (b : Bytes) (off : Nat) : Except (Fault TextErr) (List Bytes) := do
  if off = 0 then
    return []
  if off ≥ b.length then
    throw (.error (.text "list offset %d outside %d-byte block" [off, b.length]))
  let count := (← Fault.index b off).toNat
  pascalItems b count 0 (off + 1)

/-- `binary.BigEndian.Uint16(b[lo:hi])`. -/
def uint16At (b : Bytes) (lo hi : Nat) : Except (Fault TextErr) Nat := do
  let v ← Fault.slice b lo hi
  Checked.bigEndian 2 v

def parseServerInfo (b : Bytes) : Except (Fault TextErr) ServerInfo := do
  if b.length < 11 then
    throw (.error (.text "afp: server info block too short (%d bytes)" [b.length]))
  let flags ← uint16At b 8 10
  let (serverName, _) ← (pascalString b 10).mapError
    (Fault.map (.wrapped "afp: server name: %w" []))
  let machineTypeOff ← uint16At b 0 2
  let (machineType, _) ← (pascalString b machineTypeOff).mapError
    (Fault.map (.wrapped "afp: machine type: %w" []))
  let versionsOff ← uint16At b 2 4
  let afpVersions ← (pascalList b versionsOff).mapError
    (Fault.map (.wrapped "afp: version list: %w" []))
  let uamsOff ← uint16At b 4 6
  let uams ← (pascalList b uamsOff).mapError (Fault.map (.wrapped "afp: UAM list: %w" []))
  return ⟨serverName, machineType, afpVersions, uams, UInt16.ofNat flags⟩

structure ServerInfo.StringsIn (b : Bytes) (info : ServerInfo) : Prop where
  serverName : info.serverName <:+: b
  machineType : info.machineType <:+: b
  afpVersions : ∀ v ∈ info.afpVersions, v <:+: b
  uams : ∀ u ∈ info.uams, u <:+: b

theorem sound_pascalString (b : Bytes) (off : Nat) :
    Fault.Sound (fun x => x.1 <:+: b) (pascalString b off) := by
  unfold pascalString
  refine Fault.Sound.ite (fun _ => trivial) fun hoff => ?_
  refine (Fault.sound_index (Nat.lt_of_not_le hoff)).bind fun n _ =>
    Fault.Sound.ite (fun _ => trivial) fun hend => ?_
  exact (Fault.sound_slice (Nat.le_add_right _ _) (Nat.le_of_not_lt hend)).bind fun s hs => hs.2

theorem sound_pascalItems (b : Bytes) (n i pos : Nat) :
    Fault.Sound (fun l => ∀ s ∈ l, s <:+: b) (pascalItems b n i pos) := by
  induction n generalizing i pos with
  | zero => exact List.forall_mem_nil _
  | succ n ih =>
    refine ((sound_pascalString b pos).map _).bind fun x hx =>
      (ih (i + 1) x.2).bind fun rest hrest => ?_
    exact List.forall_mem_cons.mpr ⟨hx, hrest⟩

theorem sound_pascalList (b : Bytes) (off : Nat) :
    Fault.Sound (fun l => ∀ s ∈ l, s <:+: b) (pascalList b off) := by
  refine Fault.Sound.ite (fun _ => List.forall_mem_nil _) fun _ =>
    Fault.Sound.ite (fun _ => trivial) fun hoff => ?_
  exact (Fault.sound_index (Nat.lt_of_not_le hoff)).bind fun count _ =>
    sound_pascalItems b count.toNat 0 (off + 1)

theorem sound_uint16At {b : Bytes} {lo hi : Nat} (hhi : hi = lo + 2) (h : hi ≤ b.length) :
    Fault.Sound (fun _ => True) (uint16At b lo hi) :=
  (Fault.sound_slice (by omega) h).bind fun _ hv => Checked.sound_bigEndian (by decide) (by omega)

theorem sound_parseServerInfo (b : Bytes) :
    Fault.Sound (ServerInfo.StringsIn b) (parseServerInfo b) := by
  refine Fault.Sound.ite (fun _ => trivial) fun hlen => ?_
  refine (sound_uint16At rfl (by omega)).bind fun flags _ => ?_
  refine ((sound_pascalString b 10).map _).bind fun name hname => ?_
  refine (sound_uint16At rfl (by omega)).bind fun machineTypeOff _ => ?_
  refine ((sound_pascalString b machineTypeOff).map _).bind fun machine hmachine => ?_
  refine (sound_uint16At rfl (by omega)).bind fun versionsOff _ => ?_
  refine ((sound_pascalList b versionsOff).map _).bind fun versions hversions => ?_
  refine (sound_uint16At rfl (by omega)).bind fun uamsOff _ => ?_
  refine ((sound_pascalList b uamsOff).map _).bind fun uams huams => ?_
  exact ⟨hname, hmachine, hversions, huams⟩

end GoAfp
