import Mathlib.Logic.Function.Basic
import UpdateFramework.Libc.Text
import UpdateFramework.Process.Program

/-!
# Libc — files and streams

A file system holds the contents of files under paths and the open streams.  A stream keeps the
bytes written to it that have not reached its file (`pending`), and follows its file when that is
renamed; a stream opened for reading keeps the content the file had when it was opened.  A process
that dies may lose pending bytes (`Dies`).

`FileSystem.ok` is the outcome of each operation when nothing fails.  `FileSystem.may` adds the
failures, and the bytes stdio writes through of its own accord: `fwrite` and `fputs` may take only
some of the bytes, and any of the pending bytes may reach the file; `fclose` may lose pending
bytes when it reports failure; the other operations may report failure and then change nothing,
except that `fflush` and `fsync` may report failure after doing their work.  Every `fflush`
empties the buffer into the file.

An operation on a stream that is not open fails and changes nothing.
-/

namespace Libc

open Process

inductive Mode where
  | r | w | a
  deriving DecidableEq

structure Stream (P : Type) where
  /-- The name of the file, unless it has lost it. -/
  path : Option P
  mode : Mode
  content : Bytes
  pos : ℕ
  pending : Bytes

/-- A stream's number. -/
abbrev Handle := ℕ

structure FileSystem (P : Type) where
  disk : P → Option Bytes
  streams : Handle → Option (Stream P)
  fresh : Handle

inductive FileOp (P : Type) where
  /-- The size of a regular file. -/
  | stat (p : P)
  | fopen (p : P) (m : Mode)
  | fseeko (h : Handle) (offset : ℕ)
  /-- The line read and `feof` afterwards, or nothing. -/
  | fgets (h : Handle) (size : ℕ)
  /-- The bytes read and `ferror` afterwards. -/
  | fread (h : Handle) (n : ℕ)
  /-- The number of bytes taken. -/
  | fwrite (h : Handle) (bs : Bytes)
  | fputs (h : Handle) (text : Bytes)
  | fflush (h : Handle)
  | fsync (h : Handle)
  | fclose (h : Handle)
  | rename (a b : P)
  | unlink (p : P)
  /-- An advisory write lock on a file, waited for. -/
  | lock (p : P)
  | unlock (fd : ℕ)
  deriving DecidableEq

@[reducible] def FileOp.Res {P : Type} : FileOp P → Type
  | .stat _ => Option ℕ
  | .fopen _ _ => Option Handle
  | .fgets _ _ => Option (Bytes × Bool)
  | .fread _ _ => Bytes × Bool
  | .fwrite _ _ => ℕ
  | .lock _ => Option ℕ
  | .unlock _ => Unit
  | .fseeko _ _ | .fputs _ _ | .fflush _ | .fsync _ | .fclose _ | .rename _ _ | .unlink _ => Bool

/-- The operations on files named by `P`. -/
@[reducible] def stdio (P : Type) : Interface := ⟨FileOp P, FileOp.Res⟩

section Calls

variable {P : Type}

abbrev stat (p : P) : Prog (stdio P) (Option ℕ) := .call (FileOp.stat p) .ret
abbrev fopen (p : P) (m : Mode) : Prog (stdio P) (Option Handle) := .call (FileOp.fopen p m) .ret
abbrev fseeko (h : Handle) (n : ℕ) : Prog (stdio P) Bool := .call (FileOp.fseeko h n) .ret
abbrev fread (h : Handle) (n : ℕ) : Prog (stdio P) (Bytes × Bool) := .call (FileOp.fread h n) .ret
abbrev fwrite (h : Handle) (bs : Bytes) : Prog (stdio P) ℕ := .call (FileOp.fwrite h bs) .ret
abbrev fputs (text : Bytes) (h : Handle) : Prog (stdio P) Bool := .call (FileOp.fputs h text) .ret
abbrev fflush (h : Handle) : Prog (stdio P) Bool := .call (FileOp.fflush h) .ret
abbrev fsync (h : Handle) : Prog (stdio P) Bool := .call (FileOp.fsync h) .ret
abbrev fclose (h : Handle) : Prog (stdio P) Bool := .call (FileOp.fclose h) .ret
abbrev rename (a b : P) : Prog (stdio P) Bool := .call (FileOp.rename a b) .ret
abbrev unlink (p : P) : Prog (stdio P) Bool := .call (FileOp.unlink p) .ret
abbrev lockFile (p : P) : Prog (stdio P) (Option ℕ) := .call (FileOp.lock p) .ret
abbrev unlockFile (fd : ℕ) : Prog (stdio P) Unit := .call (FileOp.unlock fd) .ret

/-- `fgets(buf, size, stream)`: the C string in `buf`, and `feof` afterwards. -/
def fgetsText (h : Handle) (size : ℕ) : Prog (stdio P) (Option (Bytes × Bool)) :=
  .call (FileOp.fgets h size) fun
    | some (line, eof) => .ret (some (cstr line, eof))
    | none => .ret none

end Calls

namespace FileSystem

variable {P : Type} [DecidableEq P]

/-- A disk with one file, and no streams. -/
def only (p : P) (c : Bytes) : FileSystem P :=
  ⟨fun q => if q = p then some c else none, fun _ => none, 0⟩

@[simp] theorem only_disk (p : P) (c : Bytes) : (only p c).disk p = some c := if_pos rfl

/-- `p` holds `c`. -/
def set (fs : FileSystem P) (p : P) (c : Option Bytes) : FileSystem P :=
  { fs with disk := Function.update fs.disk p c }

def setStream (fs : FileSystem P) (h : Handle) (s : Option (Stream P)) : FileSystem P :=
  { fs with streams := Function.update fs.streams h s }

/-- `bs` at the end of a file. -/
def append (fs : FileSystem P) (p : Option P) (bs : Bytes) : FileSystem P :=
  match p with
  | some p => fs.set p ((fs.disk p).map (· ++ bs))
  | none => fs

/-- A new stream on `p`. -/
def opened (fs : FileSystem P) (p : P) (m : Mode) (content : Bytes) :
    Option Handle × FileSystem P :=
  (some fs.fresh,
    { fs.setStream fs.fresh (some ⟨some p, m, content, 0, []⟩) with fresh := fs.fresh + 1 })

/-- `taken` is added to what is pending on `h`, and the first `m` pending bytes reach the file. -/
def written (fs : FileSystem P) (h : Handle) (taken : Bytes) (m : ℕ) : FileSystem P :=
  match fs.streams h with
  | none => fs
  | some s => (fs.append s.path ((s.pending ++ taken).take m)).setStream h
      (some { s with pending := (s.pending ++ taken).drop m })

/-- Everything pending on `h` reaches the file. -/
def flushed (fs : FileSystem P) (h : Handle) : FileSystem P :=
  match fs.streams h with
  | none => fs
  | some s => (fs.append s.path s.pending).setStream h (some { s with pending := [] })

/-- `h` is closed, and the first `m` of its pending bytes reach the file. -/
def closed (fs : FileSystem P) (h : Handle) (m : ℕ) : FileSystem P :=
  match fs.streams h with
  | none => fs
  | some s => (fs.append s.path (s.pending.take m)).setStream h none

/-- The name of a file after `rename(a, b)`. -/
def newName (a b : P) (p : Option P) : Option P :=
  if p = some a then some b else if p = some b then none else p

/-- `rename(a, b)`, where `a` exists. -/
def renamed (fs : FileSystem P) (a b : P) : FileSystem P :=
  { (fs.set a none).set b (fs.disk a) with
    streams := fun h => (fs.streams h).map fun s => { s with path := newName a b s.path } }

/-- `unlink(p)`, where `p` exists. -/
def unlinked (fs : FileSystem P) (p : P) : FileSystem P :=
  { fs.set p none with
    streams := fun h => (fs.streams h).map fun s =>
      { s with path := if s.path = some p then none else s.path } }

/-- The outcome of an operation when nothing fails. -/
def ok (fs : FileSystem P) : (o : FileOp P) → FileOp.Res o × FileSystem P
  | .stat p => ((fs.disk p).map List.length, fs)
  | .fopen p .r => match fs.disk p with
    | some c => fs.opened p .r c
    | none => (none, fs)
  | .fopen p .w => (fs.set p (some [])).opened p .w []
  | .fopen p .a => (fs.set p (some ((fs.disk p).getD []))).opened p .a []
  | .fseeko h n => match fs.streams h with
    | some s => (true, fs.setStream h (some { s with pos := n }))
    | none => (false, fs)
  | .fgets h size => match fs.streams h with
    | some s => match fgets size (s.content.drop s.pos) with
      | some (line, _, eof) =>
          (some (line, eof), fs.setStream h (some { s with pos := s.pos + line.length }))
      | none => (none, fs)
    | none => (none, fs)
  | .fread h n => match fs.streams h with
    | some s => (((s.content.drop s.pos).take n, false),
        fs.setStream h (some { s with pos := s.pos + n }))
    | none => (([], true), fs)
  | .fwrite h bs => match fs.streams h with
    | some _ => (bs.length, fs.written h bs 0)
    | none => ((0 : ℕ), fs)
  | .fputs h text => match fs.streams h with
    | some _ => (true, fs.written h text 0)
    | none => (false, fs)
  | .fflush h => ((fs.streams h).isSome, fs.flushed h)
  | .fsync h => ((fs.streams h).isSome, fs)
  | .fclose h => match fs.streams h with
    | some s => (true, fs.closed h s.pending.length)
    | none => (false, fs)
  | .rename a b => if (fs.disk a).isSome then (true, fs.renamed a b) else (false, fs)
  | .unlink p => if (fs.disk p).isSome then (true, fs.unlinked p) else (false, fs)
  | .lock _ => (some 0, fs)
  | .unlock _ => ((), fs)

/-- The failures, and what stdio writes through of its own accord. -/
inductive Fault (fs : FileSystem P) : (o : FileOp P) → FileOp.Res o → FileSystem P → Prop where
  | stat (p : P) : Fault fs (.stat p) none fs
  | fopen (p : P) (m : Mode) : Fault fs (.fopen p m) none fs
  | fseeko (h : Handle) (n : ℕ) : Fault fs (.fseeko h n) false fs
  | fgets (h : Handle) (size : ℕ) : Fault fs (.fgets h size) none fs
  | fread (h : Handle) (n m : ℕ) (s : Stream P) (hs : fs.streams h = some s) (hm : m < n) :
      Fault fs (.fread h n) (((s.content.drop s.pos).take n).take m, true)
        (fs.setStream h (some { s with pos := s.pos + m }))
  | fwrite (h : Handle) (bs : Bytes) (k m : ℕ) (hk : k ≤ bs.length) :
      Fault fs (.fwrite h bs) k (fs.written h (bs.take k) m)
  | fputs (h : Handle) (text : Bytes) (k m : ℕ) (r : Bool) (hr : r = true → text.length ≤ k) :
      Fault fs (.fputs h text) r (fs.written h (text.take k) m)
  | fflush (h : Handle) (r : Bool) : Fault fs (.fflush h) r (fs.flushed h)
  | fsync (h : Handle) (r : Bool) : Fault fs (.fsync h) r fs
  | fclose (h : Handle) (m : ℕ) : Fault fs (.fclose h) false (fs.closed h m)
  | rename (a b : P) : Fault fs (.rename a b) false fs
  | unlink (p : P) : Fault fs (.unlink p) false fs
  | lock (p : P) : Fault fs (.lock p) none fs

/-- Every outcome an operation may have. -/
def may (fs : FileSystem P) (o : FileOp P) (r : FileOp.Res o) (fs' : FileSystem P) : Prop :=
  (r, fs') = fs.ok o ∨ Fault fs o r fs'

/-- The process dies: of each open stream's pending bytes a prefix reaches the file (none, when
it is killed), and the stream is gone. -/
inductive Dies : FileSystem P → FileSystem P → Prop where
  | done (fs : FileSystem P) (hs : ∀ h, fs.streams h = none) : Dies fs fs
  | close {fs fs' : FileSystem P} (h : Handle) (m : ℕ) (hd : Dies (fs.closed h m) fs') : Dies fs fs'

/-- A run in which no operation fails: its result, and the files after it. -/
def eval {α : Type} (p : Prog (stdio P) α) (fs : FileSystem P) : Option (α × FileSystem P) :=
  Prog.eval (fun fs o => some (fs.ok o)) p fs

end FileSystem

/-- The surroundings of a program that works on files, where any operation may fail. -/
def faulty (P : Type) [DecidableEq P] : Env (stdio P) (FileSystem P) where
  may := FileSystem.may

/-- The surroundings of a program that works on files, where no operation fails. -/
def sound (P : Type) [DecidableEq P] : Env (stdio P) (FileSystem P) where
  may fs o r fs' := (r, fs') = fs.ok o

end Libc
