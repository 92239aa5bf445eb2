import GoAfp.FS
import GoAfp.HostRules

/-! The file system on a server that may refuse requests: the closure of
`OpenFile` over any connection, and `do` with what the server does in the first
run and in the second. -/

namespace GoAfp

open Proc

theorem mapErr_exist_iff (op : String) (code : Result) :
    mapErr (.afp (.result op code)) = .exist ↔ code = resObjectExists := by
  rw [mapErr]
  split_ifs with hmissing hdenied hexists
  · refine iff_of_false (by simp) ?_
    rintro rfl
    revert hmissing
    decide
  · refine iff_of_false (by simp) ?_
    rintro rfl
    revert hdenied
    decide
  · exact iff_of_true rfl hexists
  · exact iff_of_false (by simp) hexists

def AfpVolume.forkOpsVia {σ : Type} (command : Bytes → Proc σ AfpErr (Bytes × Result))
    (v : AfpVolume) : ForkOps σ where
  gen := v.gen
  createFile := v.createFile command rootDirID
  openFork := fun path write =>
    if write then v.openForkVia command rootDirID path (forkRead ||| forkWrite)
    else v.openForkVia command rootDirID path forkRead
  truncate := fun o size => forkTruncate command (UInt16.ofNat o.id) size

def AfpVolume.forkOps (v : AfpVolume) : ForkOps Host :=
  v.forkOpsVia Host.command

/-- One call of `do`: what the server does in the first run, whether the
connection is alive at its end, and what it does in the second run, on a
connection of a later generation. -/
structure HostNet where
  conduct : Conduct
  alive : Bool
  again : Conduct
  newGen : Nat
  newQuantum : Nat

section Do

variable {σ ε : Type}

def Conduct.attempt (c : Conduct) (body : Proc (σ × Host) ε Unit) (s : σ × VolServer) :
    Option ε × σ × VolServer :=
  let (r, v, h) := body.on (s.1, c.host s.2)
  (errOf r, v, h.srv)

def HostNet.do (net : HostNet) (v : AfpVolume) (body : AfpVolume → Proc (σ × Host) ε Unit)
    (s : σ × VolServer) :
    Option ε × σ × VolServer :=
  doRetry (net.conduct.attempt (body v))
    (fun s => net.again.attempt (body { v with gen := net.newGen, quantum := net.newQuantum })
      (s.1, s.2.reconnected))
    net.alive s

end Do

namespace FS

variable (fs : FS)

def openFileOn (net : HostNet) (v : AfpVolume) (filename : Bytes) (flag : OpenFlags)
    (srv : VolServer) :
    Except PathErr File × VolServer :=
  match net.do v (fun v => v.forkOps.openBody (fs.resolve filename) filename flag) ({}, srv) with
  | (some e, _, srv) => (.error e, srv)
  | (none, f, srv) => (.ok (if flag.append then { f with cursor := f.size } else f), srv)

end FS

def HostNet.refusing (codes : List (Option ErrCode)) : HostNet :=
  ⟨.refusing codes, true, .refusing [], 2, 0⟩

def fileServer : VolServer := ⟨.dir newAttrs [(ascii "a", .file newFile)], [], 0⟩

end GoAfp
