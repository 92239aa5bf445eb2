import GoAfp.Volume

/-! The file system that the bridge serves: its operations are closures that
`do` runs on the current volume and, after a reconnect, once more. -/

namespace GoAfp

open Proc

structure PathErr where
  op : String
  path : Bytes
  err : OsErr
  deriving DecidableEq, Repr

structure FS where
  base : Bytes

/-- One call of `do`: the connection it starts on and what happens to it,
whether that connection is alive at the end of the first run, and the
connection that `reconnect` makes, which works. -/
structure Net where
  nfd : Bytes → Bytes
  gen : Nat
  quantum : Nat
  crash : Crash
  alive : Bool
  newGen : Nat
  newQuantum : Nat
  newSched : Schedule

section Do

variable {σ ε : Type}

def attempt (body : Proc (σ × Link) ε Unit) (crash : Crash) (s : σ × VolServer) :
    Option ε × σ × VolServer :=
  let (r, v, l) := body.on (s.1, ⟨s.2, crash, false⟩)
  (errOf r, v, l.srv)

def Net.do (net : Net) (body : Volume → Proc (σ × Link) ε Unit) (s : σ × VolServer) :
    Option ε × σ × VolServer :=
  doRetry (attempt (body ⟨net.gen, net.quantum, net.nfd⟩) net.crash)
    (fun s => attempt (body ⟨net.newGen, net.newQuantum, net.nfd⟩) (Crash.never net.newSched)
      (s.1, s.2.reconnected))
    net.alive s

end Do

structure OpenFlags where
  wronly : Bool := false
  rdwr : Bool := false
  create : Bool := false
  excl : Bool := false
  trunc : Bool := false
  append : Bool := false

def OpenFlags.writable (flag : OpenFlags) : Bool := flag.wronly || flag.rdwr

/-- The operations of a volume that `OpenFile` calls. -/
structure ForkOps (σ : Type) where
  gen : Nat
  createFile : Bytes → Bool → Proc σ AfpErr Unit
  openFork : Bytes → Bool → Proc σ AfpErr OpenFork
  truncate : OpenFork → Int → Proc σ AfpErr Unit

def Volume.forkOps (v : Volume) : ForkOps Link :=
  ⟨v.gen, v.createFile, v.openFork, OpenFork.truncate⟩

section Steps

variable {σ τ ε α : Type}

def onConn (x : Proc σ ε α) : Proc (τ × σ) ε α :=
  ExceptT.mk fun s => ((x.on s.2).1, s.1, (x.on s.2).2)

theorem onConn_on (x : Proc σ ε α) (s : τ × σ) :
    (onConn x).on s = ((x.on s.2).1, s.1, (x.on s.2).2) := rfl

theorem keeps_onConn {P : σ → Prop} {x : Proc σ ε α} (h : Keeps P x) :
    Keeps (fun s : τ × σ => P s.2) (onConn x) :=
  fun s hs => h s.2 hs

def inFile (k : File → File) : Proc (File × σ) ε Unit :=
  modify fun s => (k s.1, s.2)

theorem inFile_on (k : File → File) (s : File × σ) :
    (inFile k : Proc (File × σ) ε Unit).on s = (.ok (), k s.1, s.2) :=
  rfl

namespace ForkOps

variable (c : ForkOps σ)

def reopen (p : Bytes) (writable : Bool) : Proc (File × σ) AfpErr OpenFork := do
  let o ← onConn (c.openFork p writable)
  inFile fun f => { f with fork := some o, forkVol := some c.gen }
  return o

def openOn (p : Bytes) (writable : Bool) : Proc (File × σ) AfpErr OpenFork := do
  let (f, _) ← get
  match f.fork with
  | some o => if f.forkVol = some c.gen then return o else c.reopen p writable
  | none => c.reopen p writable

variable {c} in
theorem keeps_openOn {P : File × σ → Prop} {p : Bytes} {writable : Bool}
    (h : Keeps P (c.reopen p writable)) :
    Keeps P (c.openOn p writable) := by
  apply Keeps.get_bind
  intro s
  simp only
  split
  · split
    · exact Keeps.pure _
    · exact h
  · exact h

def createStep (p filename : Bytes) (flag : OpenFlags) : Proc (File × σ) PathErr Unit := do
  if flag.create then
    match ← observe (onConn (c.createFile p false)) with
    | .ok () => pure ()
    | .error e =>
      if mapErr (.afp e) = .exist then
        if flag.excl then throw ⟨"open", filename, .exist⟩
      else throw ⟨"open", filename, mapErr (.afp e)⟩

def truncateStep (filename : Bytes) (flag : OpenFlags) (o : OpenFork) :
    Proc (File × σ) PathErr Unit := do
  if flag.trunc && flag.writable then
    match ← observe (onConn (c.truncate o 0)) with
    | .ok () => inFile fun f => { f with size := 0 }
    | .error e => throw ⟨"truncate", filename, mapErr (.afp e)⟩

def forkStep (p filename : Bytes) (flag : OpenFlags) : Proc (File × σ) PathErr Unit := do
  match ← observe (c.openOn p flag.writable) with
  | .ok o =>
    inFile fun f => { f with size := wrap64 o.size }
    c.truncateStep filename flag o
  | .error e => throw ⟨"open", filename, mapErr (.afp e)⟩

def openBody (p filename : Bytes) (flag : OpenFlags) : Proc (File × σ) PathErr Unit := do
  c.createStep p filename flag
  c.forkStep p filename flag

end ForkOps

end Steps

namespace FS

variable (fs : FS)

def resolve (name : Bytes) : Bytes :=
  joinRooted [fs.base, name]

def pathDo (op : String) (path : Bytes) (net : Net) (body : Volume → Vol Unit) (srv : VolServer) :
    Option PathErr × VolServer :=
  let (err, _, srv) := net.do (fun v => onConn (body v)) ((), srv)
  (err.map fun e => ⟨op, path, mapErr (.afp e)⟩, srv)

def rename (net : Net) (oldpath newpath : Bytes) : VolServer → Option PathErr × VolServer :=
  pathDo "rename" oldpath net fun v => v.rename (fs.resolve oldpath) (fs.resolve newpath)

def remove (net : Net) (filename : Bytes) : VolServer → Option PathErr × VolServer :=
  pathDo "remove" filename net fun v => v.delete (fs.resolve filename)

def symlink (net : Net) (target link : Bytes) : VolServer → Option PathErr × VolServer :=
  pathDo "symlink" link net fun v => v.symlink (fs.resolve link) target

def openBody (filename : Bytes) (flag : OpenFlags) (v : Volume) : Proc (File × Link) PathErr Unit :=
  v.forkOps.openBody (fs.resolve filename) filename flag

def openFile (net : Net) (filename : Bytes) (flag : OpenFlags) (srv : VolServer) :
    Except PathErr File × VolServer :=
  match net.do (fs.openBody filename flag) ({}, srv) with
  | (some e, _, srv) => (.error e, srv)
  | (none, f, srv) => (.ok (if flag.append then { f with cursor := f.size } else f), srv)

end FS

end GoAfp
