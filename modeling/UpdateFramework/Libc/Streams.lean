import UpdateFramework.Libc.Lines
import UpdateFramework.Libc.Stdio

/-!
# Libc — streams when nothing fails

`Reading fs h text`: the stream `h` has `text` left to read.  `Writing fs h p bs`: the stream `h`
writes to `p` and holds `bs` in its buffer.  Each operation says what it does to these and to the
disk, so that a program on files is run by following its streams.
-/

namespace Libc

open Process

namespace FileSystem

variable {P : Type} [DecidableEq P] {fs : FileSystem P} {α β : Type}

@[simp] theorem eval_ret (a : α) : FileSystem.eval (.ret a : Prog (stdio P) α) fs = some (a, fs) :=
  rfl

theorem eval_call (o : FileOp P) (k : FileOp.Res o → Prog (stdio P) α) :
    FileSystem.eval (.call o k : Prog (stdio P) α) fs =
      FileSystem.eval (k (fs.ok o).1) (fs.ok o).2 := rfl

theorem eval_bind (p : Prog (stdio P) α) (f : α → Prog (stdio P) β) :
    FileSystem.eval (p >>= f) fs =
      (FileSystem.eval p fs).bind fun x => FileSystem.eval (f x.1) x.2 :=
  Prog.eval_bind _ p f fs

/-- `h` has `text` left to read. -/
def Reading (fs : FileSystem P) (h : Handle) (text : Bytes) : Prop :=
  ∃ s, fs.streams h = some s ∧ s.content.drop s.pos = text ∧ s.pending = []

/-- `h` writes to `p`, and `bs` has not reached it. -/
def Writing (fs : FileSystem P) (h : Handle) (p : P) (bs : Bytes) : Prop :=
  ∃ s, fs.streams h = some s ∧ s.path = some p ∧ s.pending = bs

@[simp] theorem append_nil (fs : FileSystem P) (p : Option P) : fs.append p [] = fs := by
  cases fs
  cases p <;> simp [append, set]

omit [DecidableEq P] in
@[simp] theorem setStream_streams (fs : FileSystem P) (h : Handle) (s : Option (Stream P)) :
    (fs.setStream h s).streams h = s :=
  Function.update_self ..

theorem written_eq {h : Handle} {s : Stream P} (hs : fs.streams h = some s) (taken : Bytes)
    (m : ℕ) :
    fs.written h taken m = (fs.append s.path ((s.pending ++ taken).take m)).setStream h
      (some { s with pending := (s.pending ++ taken).drop m }) := by
  simp only [written, hs]

theorem flushed_eq {h : Handle} {s : Stream P} (hs : fs.streams h = some s) :
    fs.flushed h = (fs.append s.path s.pending).setStream h (some { s with pending := [] }) := by
  simp only [flushed, hs]

theorem closed_eq {h : Handle} {s : Stream P} (hs : fs.streams h = some s) (m : ℕ) :
    fs.closed h m = (fs.append s.path (s.pending.take m)).setStream h none := by
  simp only [closed, hs]

/-! ### What each operation does -/

theorem ok_fopen_read (p : P) : fs.ok (.fopen p .r) =
    match fs.disk p with
    | some c => fs.opened p .r c
    | none => (none, fs) := rfl

theorem ok_fseeko (h : Handle) (n : ℕ) : fs.ok (.fseeko h n) =
    match fs.streams h with
    | some s => (true, fs.setStream h (some { s with pos := n }))
    | none => (false, fs) := rfl

theorem ok_fgets (h : Handle) (size : ℕ) : fs.ok (.fgets h size) =
    match fs.streams h with
    | some s => match Libc.fgets size (s.content.drop s.pos) with
      | some (line, _, eof) =>
          (some (line, eof), fs.setStream h (some { s with pos := s.pos + line.length }))
      | none => (none, fs)
    | none => (none, fs) := rfl

theorem ok_fread (h : Handle) (n : ℕ) : fs.ok (.fread h n) =
    match fs.streams h with
    | some s => (((s.content.drop s.pos).take n, false),
        fs.setStream h (some { s with pos := s.pos + n }))
    | none => (([], true), fs) := rfl

theorem ok_fputs (h : Handle) (text : Bytes) : fs.ok (.fputs h text) =
    match fs.streams h with
    | some _ => (true, fs.written h text 0)
    | none => (false, fs) := rfl

theorem ok_fwrite (h : Handle) (bs : Bytes) : fs.ok (.fwrite h bs) =
    match fs.streams h with
    | some _ => (bs.length, fs.written h bs 0)
    | none => ((0 : ℕ), fs) := rfl

theorem ok_fflush (h : Handle) :
    fs.ok (.fflush h) = ((fs.streams h).isSome, fs.flushed h) := rfl

theorem ok_fsync (h : Handle) : fs.ok (.fsync h) = ((fs.streams h).isSome, fs) := rfl

theorem ok_fclose (h : Handle) : fs.ok (.fclose h) =
    match fs.streams h with
    | some s => (true, fs.closed h s.pending.length)
    | none => (false, fs) := rfl

theorem ok_rename_eq (a b : P) : fs.ok (.rename a b) =
    if (fs.disk a).isSome then (true, fs.renamed a b) else (false, fs) := rfl

@[simp] theorem ok_stat (p : P) : fs.ok (.stat p) = ((fs.disk p).map List.length, fs) := rfl

theorem ok_unlink_eq (p : P) : fs.ok (.unlink p) =
    if (fs.disk p).isSome then (true, fs.unlinked p) else (false, fs) := rfl

@[simp] theorem ok_lock (p : P) : fs.ok (.lock p) = (some 0, fs) := rfl

@[simp] theorem ok_unlock (fd : ℕ) : fs.ok (.unlock fd) = ((), fs) := rfl

theorem fopen_absent {p : P} (h : fs.disk p = none) : fs.ok (.fopen p .r) = (none, fs) := by
  rw [ok_fopen_read, h]

/-! ### Reading -/

theorem fopen_reading {p : P} {c : Bytes} (h : fs.disk p = some c) :
    ∃ fs', fs.ok (.fopen p .r) = (some fs.fresh, fs') ∧ Reading fs' fs.fresh c ∧
      fs'.disk = fs.disk := by
  simp only [ok_fopen_read, h]
  exact ⟨_, rfl, ⟨⟨some p, .r, c, 0, []⟩, setStream_streams .., rfl, rfl⟩, rfl⟩

/-- A file opened and read from the middle. -/
theorem fopen_fseeko {p : P} {c : Bytes} (h : fs.disk p = some c) (n : ℕ) :
    ∃ fs₁ fs₂, fs.ok (.fopen p .r) = (some fs.fresh, fs₁) ∧
      fs₁.ok (.fseeko fs.fresh n) = (true, fs₂) ∧ Reading fs₂ fs.fresh (c.drop n) ∧
      fs₂.disk = fs.disk := by
  have hopen : fs.ok (.fopen p .r) = (some fs.fresh, (fs.opened p .r c).2) := by
    simp only [ok_fopen_read, h]
    rfl
  have hstream : (fs.opened p .r c).2.streams fs.fresh = some ⟨some p, .r, c, 0, []⟩ :=
    setStream_streams ..
  have hseek : (fs.opened p .r c).2.ok (.fseeko fs.fresh n) = (true,
      (fs.opened p .r c).2.setStream fs.fresh (some ⟨some p, .r, c, n, []⟩)) := by
    simp only [ok_fseeko, hstream]
  exact ⟨_, _, hopen, hseek, ⟨_, setStream_streams .., rfl, rfl⟩, rfl⟩

theorem Reading.fgets {h : Handle} {text : Bytes} {n : ℕ} (hr : Reading fs h text)
    (hne : text ≠ []) :
    ∃ fs', fs.ok (.fgets h (n + 2)) =
        (some ((readLine (n + 1) text).1, (readLine (n + 1) text).2.2), fs') ∧
      Reading fs' h (readLine (n + 1) text).2.1 ∧ fs'.disk = fs.disk := by
  obtain ⟨s, hs, rfl, hp⟩ := hr
  simp only [ok_fgets, hs, Libc.fgets, if_neg hne]
  refine ⟨_, rfl, ⟨_, setStream_streams .., ?_, hp⟩, rfl⟩
  have happ := congrArg (List.drop (readLine (n + 1) (s.content.drop s.pos)).1.length)
    (readLine_append (n + 1) (s.content.drop s.pos))
  rw [List.drop_left, List.drop_drop] at happ
  exact happ.symm

theorem Reading.fgets_end {h : Handle} {n : ℕ} (hr : Reading fs h []) :
    fs.ok (.fgets h n) = (none, fs) := by
  obtain ⟨s, hs, ht, -⟩ := hr
  simp only [ok_fgets, hs, Libc.fgets, ht, if_true]

theorem Reading.fread {h : Handle} {text : Bytes} (hr : Reading fs h text) (n : ℕ) :
    ∃ fs', fs.ok (.fread h n) = ((text.take n, false), fs') ∧ Reading fs' h (text.drop n) ∧
      fs'.disk = fs.disk := by
  obtain ⟨s, hs, rfl, hp⟩ := hr
  simp only [ok_fread, hs]
  refine ⟨_, rfl, ⟨_, setStream_streams .., ?_, hp⟩, rfl⟩
  rw [List.drop_drop]

theorem Reading.fclose {h : Handle} {text : Bytes} (hr : Reading fs h text) :
    ∃ fs', fs.ok (.fclose h) = (true, fs') ∧ fs'.disk = fs.disk := by
  obtain ⟨s, hs, -, hp⟩ := hr
  simp only [ok_fclose, hs, closed_eq hs, hp, List.take_nil, append_nil]
  exact ⟨_, rfl, rfl⟩

/-! ### Writing -/

theorem fopen_writing (fs : FileSystem P) (p : P) :
    ∃ fs', fs.ok (.fopen p .w) = (some fs.fresh, fs') ∧ Writing fs' fs.fresh p [] ∧
      fs'.disk = Function.update fs.disk p (some []) :=
  ⟨_, rfl, ⟨⟨some p, .w, [], 0, []⟩, setStream_streams .., rfl, rfl⟩, rfl⟩

theorem fopen_appending (fs : FileSystem P) (p : P) :
    ∃ fs', fs.ok (.fopen p .a) = (some fs.fresh, fs') ∧ Writing fs' fs.fresh p [] ∧
      fs'.disk = Function.update fs.disk p (some ((fs.disk p).getD [])) :=
  ⟨_, rfl, ⟨⟨some p, .a, [], 0, []⟩, setStream_streams .., rfl, rfl⟩, rfl⟩

theorem Writing.fwrite {h : Handle} {p : P} {bs : Bytes} (hw : Writing fs h p bs) (text : Bytes) :
    ∃ fs', fs.ok (.fwrite h text) = (text.length, fs') ∧ Writing fs' h p (bs ++ text) ∧
      fs'.disk = fs.disk := by
  obtain ⟨s, hs, hp, rfl⟩ := hw
  simp only [ok_fwrite, hs, written_eq hs, List.take_zero, append_nil, List.drop_zero]
  exact ⟨_, rfl, ⟨_, setStream_streams .., hp, rfl⟩, rfl⟩

theorem Writing.fputs {h : Handle} {p : P} {bs : Bytes} (hw : Writing fs h p bs) (text : Bytes) :
    ∃ fs', fs.ok (.fputs h text) = (true, fs') ∧ Writing fs' h p (bs ++ text) ∧
      fs'.disk = fs.disk := by
  obtain ⟨s, hs, hp, rfl⟩ := hw
  simp only [ok_fputs, hs, written_eq hs, List.take_zero, append_nil, List.drop_zero]
  exact ⟨_, rfl, ⟨_, setStream_streams .., hp, rfl⟩, rfl⟩

theorem Writing.fflush {h : Handle} {p : P} {bs : Bytes} (hw : Writing fs h p bs) :
    ∃ fs', fs.ok (.fflush h) = (true, fs') ∧ Writing fs' h p [] ∧
      fs'.disk = Function.update fs.disk p ((fs.disk p).map (· ++ bs)) := by
  obtain ⟨s, hs, hp, rfl⟩ := hw
  simp only [ok_fflush, hs, flushed_eq hs, Option.isSome_some, hp]
  exact ⟨_, rfl, ⟨_, setStream_streams .., rfl, rfl⟩, rfl⟩

theorem Writing.fsync {h : Handle} {p : P} {bs : Bytes} (hw : Writing fs h p bs) :
    fs.ok (.fsync h) = (true, fs) := by
  obtain ⟨s, hs, -⟩ := hw
  simp only [ok_fsync, hs, Option.isSome_some]

theorem Writing.fclose {h : Handle} {p : P} (hw : Writing fs h p []) :
    ∃ fs', fs.ok (.fclose h) = (true, fs') ∧ fs'.disk = fs.disk := by
  obtain ⟨s, hs, -, hp⟩ := hw
  simp only [ok_fclose, hs, closed_eq hs, hp, List.take_nil, append_nil]
  exact ⟨_, rfl, rfl⟩

theorem ok_rename {a : P} {c : Bytes} (h : fs.disk a = some c) (b : P) :
    ∃ fs', fs.ok (.rename a b) = (true, fs') ∧
      fs'.disk = Function.update (Function.update fs.disk a none) b (some c) := by
  simp only [ok_rename_eq, h, Option.isSome_some, if_true]
  exact ⟨_, rfl, by simp only [renamed, set, h]⟩

/-- A file is gone after `unlink`, if it was there. -/
theorem ok_unlink (fs : FileSystem P) (p : P) :
    ∃ r fs', fs.ok (.unlink p) = (r, fs') ∧ fs'.disk = Function.update fs.disk p none := by
  rw [ok_unlink_eq]
  by_cases h : (fs.disk p).isSome
  · rw [if_pos h]
    exact ⟨_, _, rfl, rfl⟩
  · rw [if_neg h]
    refine ⟨_, _, rfl, ?_⟩
    rw [← Option.not_isSome_iff_eq_none.mp h, Function.update_eq_self]

end FileSystem

end Libc
