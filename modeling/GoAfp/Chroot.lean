import GoAfp.FS

/-! Containment in a chroot. `resolve` cleans the base and the name in one go
under the volume root, so the `..` components of a name climb over the
components of the base as over its own. -/

namespace GoAfp

def FS.root : FS := ⟨[]⟩

def FS.chroot (fs : FS) (p : Bytes) : FS := ⟨fs.resolve p⟩

inductive FS.Reached : FS → Prop
  | root : Reached FS.root
  | chroot {fs : FS} (h : Reached fs) (p : Bytes) : Reached (fs.chroot p)

def components (p : Bytes) : List Bytes := if p = [] then [] else p.splitOn slash

/-- A component that lexical cleaning leaves alone. -/
structure IsName (c : Bytes) : Prop where
  nonempty : c ≠ []
  dot : c ≠ ascii "."
  dotDot : c ≠ ascii ".."
  slash : slash ∉ c

theorem cleanStep_name {acc : List Bytes} {c : Bytes} (h : IsName c) :
    cleanStep acc c = acc ++ [c] := by
  simp [cleanStep, h.nonempty, h.dot, h.dotDot]

theorem names_cleanStep {acc : List Bytes} {c : Bytes} (hacc : ∀ d ∈ acc, IsName d)
    (hc : slash ∉ c) :
    ∀ d ∈ cleanStep acc c, IsName d := by
  unfold cleanStep
  split_ifs with hskip hup
  · exact hacc
  · exact fun d hd => hacc d (List.dropLast_subset acc hd)
  · intro d hd
    rcases List.mem_append.mp hd with hd | hd
    · exact hacc d hd
    · rw [List.mem_singleton.mp hd]
      exact ⟨fun he => hskip (.inl he), fun he => hskip (.inr he), hup, hc⟩

theorem names_foldl {names acc : List Bytes} (hacc : ∀ d ∈ acc, IsName d)
    (h : ∀ c ∈ names, slash ∉ c) :
    ∀ d ∈ names.foldl cleanStep acc, IsName d := by
  induction names generalizing acc with
  | nil => exact hacc
  | cons c names ih =>
    exact ih (names_cleanStep hacc (h c (by simp))) (fun d hd => h d (by simp [hd]))

theorem foldl_cleanStep_names {cs acc : List Bytes} (h : ∀ c ∈ cs, IsName c) :
    cs.foldl cleanStep acc = acc ++ cs := by
  induction cs generalizing acc with
  | nil => simp
  | cons c cs ih =>
    rw [List.foldl_cons, cleanStep_name (h c (by simp)), ih (fun d hd => h d (by simp [hd]))]
    simp

theorem intercalate_eq_nil {cs : List Bytes} (h : ∀ c ∈ cs, IsName c)
    (he : [slash].intercalate cs = []) : cs = [] := by
  cases cs with
  | nil => rfl
  | cons c cs =>
    cases cs with
    | nil => exact absurd (by simpa using he) (h c (by simp)).nonempty
    | cons d cs => simp at he

theorem components_intercalate {cs : List Bytes} (h : ∀ c ∈ cs, IsName c) :
    components ([slash].intercalate cs) = cs := by
  unfold components
  split_ifs with he
  · exact (intercalate_eq_nil h he).symm
  · refine List.splitOn_intercalate slash (fun c hc => (h c hc).slash) ?_
    rintro rfl
    exact he rfl

theorem clean_intercalate {cs : List Bytes} (h : ∀ c ∈ cs, IsName c) :
    (([slash].intercalate cs).splitOn slash).foldl cleanStep [] = cs := by
  cases cs with
  | nil => rfl
  | cons c cs =>
    rw [List.splitOn_intercalate slash (fun d hd => (h d hd).slash) (by simp),
      foldl_cleanStep_names h, List.nil_append]

/-- Lexical cleaning of a relative path: how many leading `..` remain, and
the names behind them. -/
def climbStep (acc : Nat × List Bytes) (c : Bytes) : Nat × List Bytes :=
  if c = [] ∨ c = ascii "." then acc
  else if c = ascii ".." then
    if acc.2 = [] then (acc.1 + 1, []) else (acc.1, acc.2.dropLast)
  else (acc.1, acc.2 ++ [c])

def climb (name : Bytes) : Nat × List Bytes := (name.splitOn slash).foldl climbStep (0, [])

theorem cleanStep_climb (cs : List Bytes) (acc : Nat × List Bytes) (c : Bytes) :
    cleanStep (cs.take (cs.length - acc.1) ++ acc.2) c =
      cs.take (cs.length - (climbStep acc c).1) ++ (climbStep acc c).2 := by
  unfold cleanStep climbStep
  split_ifs with hskip hup hq
  · rfl
  · have hlen : (cs.take (cs.length - acc.1)).length - 1 = cs.length - (acc.1 + 1) := by
      rw [List.length_take]
      omega
    rw [hq, List.append_nil, List.append_nil, List.dropLast_eq_take, hlen, List.take_take]
    congr 1
    omega
  · rw [List.dropLast_append_of_ne_nil hq]
  · rw [List.append_assoc]

theorem foldl_cleanStep_climb (cs names : List Bytes) (acc : Nat × List Bytes) :
    names.foldl cleanStep (cs.take (cs.length - acc.1) ++ acc.2) =
      cs.take (cs.length - (names.foldl climbStep acc).1) ++ (names.foldl climbStep acc).2 := by
  induction names generalizing acc with
  | nil => rfl
  | cons c names ih => rw [List.foldl_cons, cleanStep_climb, ih, List.foldl_cons]

theorem FS.resolve_of_names {fs : FS} {cs : List Bytes} (h : ∀ c ∈ cs, IsName c)
    (hb : fs.base = [slash].intercalate cs) (name : Bytes) :
    fs.resolve name = [slash].intercalate ((name.splitOn slash).foldl cleanStep cs) := by
  have hsplit : [fs.base, name].flatMap (List.splitOn slash) = fs.base.splitOn slash ++
      name.splitOn slash := by simp
  rw [FS.resolve, joinRooted, hsplit, List.foldl_append, hb, clean_intercalate h]

theorem FS.Reached.names {fs : FS} (h : fs.Reached) :
    ∃ cs, (∀ c ∈ cs, IsName c) ∧ fs.base = [slash].intercalate cs := by
  induction h with
  | root => exact ⟨[], by simp, rfl⟩
  | @chroot fs h p ih =>
    obtain ⟨cs, hcs, hb⟩ := ih
    exact ⟨_, names_foldl hcs (fun c hc => not_mem_of_mem_splitOn hc), FS.resolve_of_names hcs hb p⟩

/-- A name resolves to the base or below it exactly if the components of the
base that its leading `..` climb over are the ones it then descends into. -/
theorem resolve_contained_iff {fs : FS} (h : fs.Reached) (name : Bytes) :
    components fs.base <+: components (fs.resolve name) ↔
      (components fs.base).drop ((components fs.base).length - (climb name).1) <+:
        (climb name).2 := by
  obtain ⟨cs, hcs, hb⟩ := h.names
  have hnames : ∀ c ∈ (name.splitOn slash).foldl cleanStep cs, IsName c :=
    names_foldl hcs (fun c hc => not_mem_of_mem_splitOn hc)
  have hbase : components fs.base = cs := by rw [hb, components_intercalate hcs]
  have hres : components (fs.resolve name) = cs.take (cs.length - (climb name).1) ++
      (climb name).2 := by
    have hc := foldl_cleanStep_climb cs (name.splitOn slash) (0, [])
    simp only [Nat.sub_zero, List.take_length, List.append_nil] at hc
    rw [FS.resolve_of_names hcs hb, components_intercalate hnames, hc]
    rfl
  rw [hbase, hres]
  conv_lhs => lhs; rw [← List.take_append_drop (cs.length - (climb name).1) cs]
  exact List.prefix_append_right_inj _

def chrootAB : FS := FS.root.chroot (ascii "a/b")

theorem resolve_contained_iff_descend :
    components chrootAB.base <+: components (chrootAB.resolve (ascii "../b/c")) := by
  have h : chrootAB.Reached := .chroot .root _
  exact (resolve_contained_iff h (ascii "../b/c")).mpr (by decide)

theorem resolve_escapes :
    ¬ ∀ (fs : FS) name, fs.Reached → components fs.base <+: components (fs.resolve name) := by
  intro hall
  have h := hall chrootAB (ascii "../x") (.chroot .root _)
  exact absurd h (by decide)

end GoAfp
