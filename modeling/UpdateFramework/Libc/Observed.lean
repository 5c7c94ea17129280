import UpdateFramework.Libc.Faults

/-!
# Libc — a run on files, observed

The surroundings in which any operation may fail, with a record of what happened: which operations
failed, and on which files they worked, and what the files were before each operation.  An
operation has failed when its response is not the one it has when nothing fails; `fopen` of a file
that does not exist, and `fgets` at the end of one, have not.
-/

namespace Libc

open Process

variable {P : Type}

/-- The file an operation works on. -/
def FileSystem.subject (fs : FileSystem P) : FileOp P → Option P
  | .stat p | .fopen p _ | .rename p _ | .unlink p | .lock p => some p
  | .fseeko h _ | .fgets h _ | .fread h _ | .fwrite h _ | .fputs h _ | .fflush h | .fsync h
  | .fclose h => (fs.streams h).bind Stream.path
  | .unlock _ => none

structure Observed (P : Type) where
  files : FileSystem P
  /-- The operations that failed, each with the file it worked on. -/
  failed : List (FileOp P × Option P)
  /-- The files before each operation. -/
  past : List (FileSystem P)

def Observed.start (fs : FileSystem P) : Observed P := ⟨fs, [], []⟩

variable [DecidableEq P]

/-- An operation, and the record of it. -/
structure Observed.Noted (x : Observed P) (o : FileOp P) (r : FileOp.Res o) (y : Observed P) :
    Prop where
  may : x.files.may o r y.files
  past : y.past = x.past ++ [x.files]
  failed : (r = (x.files.ok o).1 ∧ y.failed = x.failed) ∨
    (r ≠ (x.files.ok o).1 ∧ y.failed = x.failed ++ [(o, x.files.subject o)])

/-- Any operation may fail, and the failures are recorded. -/
def observed (P : Type) [DecidableEq P] : Env (stdio P) (Observed P) where
  may x o r y := x.Noted o r y

namespace Observed

variable {α : Type} {x y : Observed P} {Q : α → Observed P → Prop} {h : Handle}

theorem safe_call {o : FileOp P} {k : FileOp.Res o → Prog (stdio P) α}
    (hk : ∀ r y, x.Noted o r y → Safe (observed P) (fun _ _ => True) Q (k r) y) :
    Safe (observed P) (fun _ _ => True) Q (.call o k) x := by
  rintro _ rfl
  exact ⟨trivial, hk⟩

theorem safe_ret {a : α} (ha : Q a x) : Safe (observed P) (fun _ _ => True) Q (.ret a) x := by
  rintro _ rfl
  exact ha

/-- An operation that does not fail. -/
theorem Noted.ok (x : Observed P) (o : FileOp P) :
    x.Noted o (x.files.ok o).1 ⟨(x.files.ok o).2, x.failed, x.past ++ [x.files]⟩ :=
  ⟨.inl rfl, rfl, .inl ⟨rfl, rfl⟩⟩

/-- An operation that fails. -/
theorem Noted.fault {o : FileOp P} {r : FileOp.Res o} {fs : FileSystem P}
    (hf : FileSystem.Fault x.files o r fs) (hr : r ≠ (x.files.ok o).1) :
    x.Noted o r ⟨fs, x.failed ++ [(o, x.files.subject o)], x.past ++ [x.files]⟩ :=
  ⟨.inr hf, rfl, .inr ⟨hr, rfl⟩⟩

/-- An operation that has its response whatever happens. -/
theorem Noted.not_failed {o : FileOp P} {r : FileOp.Res o} (hn : x.Noted o r y)
    (hr : r = (x.files.ok o).1) : y.failed = x.failed :=
  hn.failed.elim And.right fun h => absurd hr h.1

theorem Noted.is_failed {o : FileOp P} {r : FileOp.Res o} (hn : x.Noted o r y)
    (hr : r ≠ (x.files.ok o).1) : y.failed = x.failed ++ [(o, x.files.subject o)] :=
  hn.failed.elim (fun h => absurd h.1 hr) And.right

/-- What was recorded stays. -/
theorem Noted.failed_mono {o : FileOp P} {r : FileOp.Res o} (hn : x.Noted o r y)
    {f : FileOp P × Option P} (hf : f ∈ x.failed) : f ∈ y.failed := by
  rcases hn.failed with ⟨-, h⟩ | ⟨-, h⟩
  · exact h ▸ hf
  · exact h ▸ List.mem_append_left _ hf

theorem Noted.failed_cases {o : FileOp P} {r : FileOp.Res o} (hn : x.Noted o r y)
    {f : FileOp P × Option P} (hf : f ∈ y.failed) :
    f ∈ x.failed ∨ (r ≠ (x.files.ok o).1 ∧ f = (o, x.files.subject o)) := by
  rcases hn.failed with ⟨-, h⟩ | ⟨hr, h⟩
  · exact .inl (h ▸ hf)
  · rw [h, List.mem_append, List.mem_singleton] at hf
    exact hf.imp id fun hf => ⟨hr, hf⟩

/-- `fopen` for reading: the file is there and is opened or not, or it is not there. -/
theorem Noted.fopen_r {p : P} {r : Option Handle} (hn : x.Noted (.fopen p .r) r y) :
    (r = none ∧ y.files = x.files ∧ x.files.disk p = none ∧ y.failed = x.failed) ∨
      (r = none ∧ y.files = x.files ∧ x.files.disk p ≠ none ∧
        y.failed = x.failed ++ [(.fopen p .r, some p)]) ∨
      ∃ fp c, r = some fp ∧ x.files.disk p = some c ∧ y.files.Reading fp c ∧
        y.files.disk = x.files.disk ∧ y.failed = x.failed := by
  rcases FileSystem.may_fopen_r hn.may with ⟨hr, hfs⟩ | ⟨c, hc, hr, hfs⟩
  · cases hc : x.files.disk p with
    | none =>
        have hok : x.files.ok (.fopen p .r) = (none, x.files) := FileSystem.fopen_absent hc
        exact .inl ⟨hr, hfs, rfl, hn.not_failed (by rw [hok, hr])⟩
    | some c =>
        obtain ⟨fs', hok, -, -⟩ := FileSystem.fopen_reading hc
        refine .inr (.inl ⟨hr, hfs, Option.some_ne_none c, hn.is_failed ?_⟩)
        rw [hok, hr]
        exact (Option.some_ne_none _).symm
  · obtain ⟨fs', hok, hreading, hdisk⟩ := FileSystem.fopen_reading hc
    have hsame : fs' = y.files := by
      rw [hfs]
      simp only [FileSystem.ok, hc] at hok
      exact (Prod.mk.inj hok).2.symm
    rw [hsame] at hreading hdisk
    exact .inr (.inr ⟨_, c, hr, hc, hreading, hdisk, hn.not_failed (by rw [hok, hr])⟩)

/-- `fgets`: at the end, a line, or nothing though there is something left. -/
theorem Noted.fgets {n : ℕ} {text : Bytes} (hr : x.files.Reading h text)
    {r : Option (Bytes × Bool)} (hn : x.Noted (.fgets h (n + 2)) r y) :
    (text = [] ∧ r = none ∧ y.files = x.files ∧ y.failed = x.failed) ∨
      (∃ raw eof rest, r = some (raw, eof) ∧
        textLines n text = (raw, eof) :: textLines n rest ∧ y.files.Reading h rest ∧
        y.files.disk = x.files.disk ∧ y.failed = x.failed) ∨
      (r = none ∧ y.files = x.files ∧ text ≠ [] ∧
        ∃ p, y.failed = x.failed ++ [(.fgets h (n + 2), p)]) := by
  by_cases hnil : text = []
  · subst hnil
    have hok := hr.fgets_end (n := n + 2)
    have hfs : r = none ∧ y.files = x.files := by
      rcases FileSystem.may_fgets hn.may with hm | hm
      · rw [hok] at hm
        exact Prod.mk.inj hm
      · exact hm
    exact .inl ⟨rfl, hfs.1, hfs.2, hn.not_failed (by rw [hok, hfs.1])⟩
  · obtain ⟨fs', hok, hr', hd⟩ := hr.fgets (n := n) hnil
    rcases FileSystem.may_fgets hn.may with hm | ⟨hres, hfs⟩
    · rw [hok] at hm
      obtain ⟨hres, hfs⟩ := Prod.mk.inj hm
      rw [← hfs] at hr' hd
      exact .inr (.inl ⟨_, _, _, hres, by rw [textLines, dif_neg hnil], hr', hd,
        hn.not_failed (by rw [hok, hres])⟩)
    · refine .inr (.inr ⟨hres, hfs, hnil, _, hn.is_failed ?_⟩)
      rw [hok, hres]
      exact (Option.some_ne_none _).symm

end Observed

end Libc
