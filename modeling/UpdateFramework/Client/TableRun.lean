import UpdateFramework.Client.TableContent
import UpdateFramework.Libc.Streams

/-!
# Client — the version table's functions, run

Where no file operation fails, `getCurrentVersion` reports `readVersion` of the table and leaves
the disk as it was (`getCurrentVersion_eval`), and `write_version_file` puts `writtenTable` in its
place, or changes nothing and returns `-1` (`writeVersionFile_eval`).
-/

namespace UpdateFramework

open Libc Process FileSystem

variable {cfg : ClientConfig} {fs : FileSystem Path}

/-! ### One line -/

/-- `fgets` at the end of the text. -/
theorem eval_fgetsText_end {α : Type} {h : Handle} (hr : Reading fs h [])
    (k : Option (Bytes × Bool) → Prog (stdio Path) α) :
    FileSystem.eval (fgetsText h 256 >>= k) fs = FileSystem.eval (k none) fs := by
  rw [fgetsText, Prog.call_bind, eval_call, hr.fgets_end]
  rfl

/-- `fgets` before the end: the first of the lines that are left. -/
theorem eval_fgetsText {α : Type} {h : Handle} {text : Bytes} (hr : Reading fs h text)
    (hne : text ≠ []) :
    ∃ raw eof rest fs', textLines 254 text = (raw, eof) :: textLines 254 rest ∧
      Reading fs' h rest ∧ fs'.disk = fs.disk ∧
      ∀ k : Option (Bytes × Bool) → Prog (stdio Path) α,
        FileSystem.eval (fgetsText h 256 >>= k) fs = FileSystem.eval (k (some (cstr raw, eof))) fs' := by
  obtain ⟨fs', hok, hr', hd⟩ := hr.fgets (n := 254) hne
  refine ⟨_, _, _, fs', by rw [textLines, dif_neg hne], hr', hd, fun k => ?_⟩
  rw [fgetsText, Prog.call_bind, eval_call, hok]
  rfl

/-! ### Reading -/

/-- The loop of `getCurrentVersion`: it runs out of its bound, or reports what the lines left to
read say. -/
theorem versionLoop_eval (cfg : ClientConfig) {h : Handle} (n : ℕ) {text : Bytes} (hr : Reading fs h text)
    (seen : List Bytes) (found : Option Bytes) :
    (FileSystem.eval (Prog.iterate n (versionRound cfg h) (seen, found)) fs = none ∧
      n ≤ (textLines 254 text).length) ∨
    ∃ fs' rest, FileSystem.eval (Prog.iterate n (versionRound cfg h) (seen, found)) fs =
        some ((acceptLines seen (textLines 254 text)).map fun es =>
          (rowVersion cfg.clientId found es).getD (ascii "0.0.0"), fs') ∧
      Reading fs' h rest ∧ fs'.disk = fs.disk := by
  induction n generalizing fs text seen found with
  | zero => exact .inl ⟨rfl, Nat.zero_le _⟩
  | succ n ih =>
      rw [Prog.iterate, versionRound, Prog.bind_bind]
      by_cases hne : text = []
      · subst hne
        right
        refine ⟨fs, [], ?_, hr, rfl⟩
        rw [eval_fgetsText_end hr]
        simp [acceptLines, rowVersion]
      · obtain ⟨raw, eof, rest, fs', htext, hr', hd, hk⟩ := eval_fgetsText hr hne
        rw [hk, htext]
        cases ha : acceptLine seen (cstr raw) eof with
        | none =>
            right
            refine ⟨fs', rest, ?_, hr', hd⟩
            simp only [ha, acceptLines_cons_none ha, Prog.ret_bind, Option.map_none, eval_ret]
        | some a =>
            obtain ⟨t, seen'⟩ := a
            simp only [ha, acceptLines_cons_some ha, Option.map_map, List.length_cons]
            cases t with
            | note =>
                rcases ih hr' seen' found with ⟨he, hle⟩ | ⟨fs₂, rest₂, he, hr₂, hd₂⟩
                · exact .inl ⟨he, Nat.succ_le_succ hle⟩
                · exact .inr ⟨fs₂, rest₂, he, hr₂, hd₂.trans hd⟩
            | row id v =>
                obtain ⟨-, hl, -⟩ := acceptLine_some.mp ha
                simp only [snprintf_of_lt (lineEntry_row hl).2.2.1, Prog.ret_bind]
                rcases ih hr' seen' (if id = cfg.clientId then some v else found) with
                  ⟨he, hle⟩ | ⟨fs₂, rest₂, he, hr₂, hd₂⟩
                · exact .inl ⟨he, Nat.succ_le_succ hle⟩
                · exact .inr ⟨fs₂, rest₂, he, hr₂, hd₂.trans hd⟩

/-- `getCurrentVersion` with `CURRENT_VERSION` unset: what the table says, read once the bound
exceeds the number of lines. -/
theorem getCurrentVersion_eval (hcur : cfg.currentVersion = []) (n : ℕ) (fs : FileSystem Path) :
    (FileSystem.eval (getCurrentVersion n cfg) fs = none ∧
      ∃ c, fs.disk .table = some c ∧ n ≤ (textLines 254 c).length) ∨
    ∃ fs', FileSystem.eval (getCurrentVersion n cfg) fs =
      some (readVersion cfg.clientId (fs.disk .table), fs') ∧ fs'.disk = fs.disk := by
  rw [getCurrentVersion, if_neg (by simp [hcur])]
  simp only [Prog.call_bind, Prog.ret_bind, eval_call, ok_lock]
  cases hc : fs.disk .table with
  | none =>
      right
      refine ⟨fs, ?_, rfl⟩
      simp only [fopen_absent hc, eval_call, ok_unlock, eval_ret]
      rfl
  | some c =>
      obtain ⟨fs₁, hok, hr, hd₁⟩ := fopen_reading hc
      simp only [hok, eval_bind]
      rcases versionLoop_eval cfg n hr [] none with ⟨he, hle⟩ | ⟨fs₂, rest, he, hr₂, hd₂⟩
      · exact .inl ⟨by simp only [he, Option.bind_none], c, rfl, hle⟩
      · right
        obtain ⟨fs₃, hclose, hd₃⟩ := hr₂.fclose
        refine ⟨fs₃, ?_, hd₃.trans (hd₂.trans hd₁)⟩
        simp only [he, Option.bind_some, eval_call, hclose, ok_unlock, eval_ret]
        rfl

/-! ### Writing -/

/-- The reading loop of `write_version_file`: the lines it takes in, up to 512, as it writes them
again. -/
theorem tableLoop_eval (cfg : ClientConfig) (version : Bytes) {h : Handle} (n : ℕ) {text : Bytes}
    (hr : Reading fs h text) (t : TableRead) (hpos : 0 < n)
    (hn : t.lines.length + n = 513) :
    ∃ fs' rest r, FileSystem.eval (Prog.iterate n (tableRound cfg version h) t) fs =
        some (r, fs') ∧ Reading fs' h rest ∧ fs'.disk = fs.disk ∧
      r.map (fun t => (t.lines, t.updated)) =
        (acceptLines t.seen ((textLines 254 text).take (512 - t.lines.length))).map fun es =>
          (t.lines ++ es.map (rewritten cfg version),
            t.updated || decide (cfg.clientId ∈ tableIds es)) := by
  induction n generalizing fs text t with
  | zero => exact absurd hpos (Nat.lt_irrefl 0)
  | succ n ih =>
      rw [Prog.iterate, tableRound]
      by_cases hfull : t.lines.length ≥ 512
      · refine ⟨fs, text, some t, by simp only [if_pos hfull, Prog.ret_bind, eval_ret], hr, rfl, ?_⟩
        rw [Nat.sub_eq_zero_of_le hfull, List.take_zero]
        simp [acceptLines, tableIds]
      rw [if_neg hfull, Prog.bind_bind]
      by_cases hne : text = []
      · subst hne
        refine ⟨fs, [], some t, ?_, hr, rfl, by simp [acceptLines, tableIds]⟩
        rw [eval_fgetsText_end hr]
        rfl
      obtain ⟨raw, eof, rest, fs', htext, hr', hd, hk⟩ := eval_fgetsText hr hne
      obtain ⟨m, hm⟩ : ∃ m, 512 - t.lines.length = m + 1 := ⟨511 - t.lines.length, by omega⟩
      have hpos : 0 < n := by omega
      have hlen : ∀ l : Bytes, (t.lines ++ [l]).length + n = 513 := by
        intro l
        rw [List.length_append, List.length_singleton]
        omega
      have hleft : ∀ l : Bytes, 512 - (t.lines ++ [l]).length = m := by
        intro l
        rw [List.length_append, List.length_singleton]
        omega
      rw [hk, htext, hm, List.take_succ_cons]
      cases ha : acceptLine t.seen (cstr raw) eof with
      | none =>
          refine ⟨fs', rest, none, ?_, hr', hd, ?_⟩
          · simp only [ha, Prog.ret_bind, eval_ret]
          · simp only [acceptLines_cons_none ha, Option.map_none]
      | some a =>
          obtain ⟨e, seen⟩ := a
          simp only [ha, acceptLines_cons_some ha, Option.map_map]
          cases e with
          | note =>
              obtain ⟨fs₂, rest₂, r, he, hr₂, hd₂, hres⟩ :=
                ih hr' ⟨t.lines ++ [cstr raw], seen, t.updated⟩ hpos (hlen _)
              refine ⟨fs₂, rest₂, r, he, hr₂, hd₂.trans hd, hres.trans ?_⟩
              rw [hleft]
              congr 1
              funext es
              simp only [List.append_assoc, List.singleton_append, Function.comp_apply,
                List.map_cons, rewritten, tableIds]
              rfl
          | row id v =>
              by_cases hid : id = cfg.clientId
              · obtain ⟨fs₂, rest₂, r, he, hr₂, hd₂, hres⟩ :=
                  ih hr' ⟨t.lines ++ [ownRow cfg version], seen, true⟩ hpos (hlen _)
                refine ⟨fs₂, rest₂, r, by simpa [hid] using he, hr₂, hd₂.trans hd, hres.trans ?_⟩
                rw [hleft]
                congr 1
                funext es
                simp [rewritten, tableIds, hid]
              · obtain ⟨fs₂, rest₂, r, he, hr₂, hd₂, hres⟩ :=
                  ih hr' ⟨t.lines ++ [cstr raw], seen, t.updated⟩ hpos (hlen _)
                refine ⟨fs₂, rest₂, r, by simpa [hid] using he, hr₂, hd₂.trans hd, hres.trans ?_⟩
                rw [hleft]
                congr 1
                funext es
                simp [rewritten, tableIds, hid, Ne.symm hid]

theorem putLines_eval {h : Handle} {p : Path} {bs : Bytes} (hw : Writing fs h p bs)
    (ls : List Bytes) :
    ∃ fs', FileSystem.eval (putLines h ls) fs = some (true, fs') ∧
      Writing fs' h p (bs ++ ls.flatten) ∧ fs'.disk = fs.disk := by
  induction ls generalizing fs bs with
  | nil => exact ⟨fs, rfl, by simpa using hw, rfl⟩
  | cons l ls ih =>
      obtain ⟨fs₁, hok, hw₁, hd₁⟩ := hw.fputs l
      obtain ⟨fs₂, he, hw₂, hd₂⟩ := ih hw₁
      refine ⟨fs₂, ?_, by simpa using hw₂, hd₂.trans hd₁⟩
      simp only [putLines, Prog.call_bind, Prog.ret_bind, eval_call, hok, if_true, he]

/-- The temporary file takes the table's place. -/
theorem replaceTable_eval (ls : List Bytes) (fs : FileSystem Path) :
    ∃ fs', FileSystem.eval (replaceTable ls) fs = some (true, fs') ∧
      fs'.disk = Function.update (Function.update fs.disk .tableTmp none) .table
        (some ls.flatten) := by
  obtain ⟨fs₁, hopen, hw₁, hd₁⟩ := fopen_writing fs Path.tableTmp
  obtain ⟨fs₂, hput, hw₂, hd₂⟩ := putLines_eval hw₁ ls
  obtain ⟨fs₃, hflush, hw₃, hd₃⟩ := hw₂.fflush
  obtain ⟨fs₄, hclose, hd₄⟩ := hw₃.fclose
  have htmp : fs₄.disk .tableTmp = some ls.flatten := by
    simp [hd₄, hd₃, hd₂, hd₁]
  obtain ⟨fs₅, hren, hd₅⟩ := ok_rename htmp Path.table
  refine ⟨fs₅, ?_, ?_⟩
  · simp only [replaceTable, Prog.call_bind, Prog.ret_bind, eval_call, hopen, eval_bind, hput,
      Option.bind_some, if_true, hflush, hw₃.fsync, hclose, hren, Bool.and_self, eval_ret]
  · rw [hd₅, hd₄, hd₃, hd₂, hd₁]
    simp only [Function.update_idem]

/-- The reading half of `write_version_file`, on a table or on none. -/
theorem readTable_eval (cfg : ClientConfig) (version : Bytes) (fs : FileSystem Path) :
    ∃ fs' r, FileSystem.eval (readTable cfg version) fs = some (r, fs') ∧ fs'.disk = fs.disk ∧
      r.map (fun t => (t.lines, t.updated)) =
        (acceptLines [] ((textLines 254 ((fs.disk .table).getD [])).take 512)).map fun es =>
          (es.map (rewritten cfg version), decide (cfg.clientId ∈ tableIds es)) := by
  cases hc : fs.disk .table with
  | none =>
      refine ⟨fs, some ⟨[], [], false⟩, ?_, rfl, by simp [acceptLines, tableIds]⟩
      simp only [readTable, Prog.call_bind, Prog.ret_bind, eval_call, fopen_absent hc, eval_ret]
  | some c =>
      obtain ⟨fs₁, hok, hr, hd₁⟩ := fopen_reading hc
      obtain ⟨fs₂, rest, r, he, hr₂, hd₂, hres⟩ :=
        tableLoop_eval cfg version 513 hr ⟨[], [], false⟩ (by decide) rfl
      obtain ⟨fs₃, hclose, hd₃⟩ := hr₂.fclose
      refine ⟨fs₃, r, ?_, hd₃.trans (hd₂.trans hd₁), by simpa using hres⟩
      simp only [readTable, Prog.call_bind, Prog.ret_bind, eval_call, hok, eval_bind, he,
        Option.bind_some, hclose, eval_ret]

/-- `write_version_file`: the new table in the old one's place, or `-1` and nothing changed. -/
theorem writeVersionFile_eval (cfg : ClientConfig) (hfile : cfg.clientVersionFile ≠ []) (hid : cfg.clientId ≠ [])
    (version : Bytes) (fs : FileSystem Path) :
    ∃ fs', FileSystem.eval (writeVersionFile cfg version) fs =
        some ((writtenTable cfg version (fs.disk .table)).isSome, fs') ∧
      fs'.disk = match writtenTable cfg version (fs.disk .table) with
        | some c => Function.update (Function.update fs.disk .tableTmp none) .table (some c)
        | none => fs.disk := by
  rw [writeVersionFile, if_neg (by simp [hfile, hid])]
  simp only [Prog.call_bind, Prog.ret_bind, eval_call, ok_lock]
  obtain ⟨fs₁, r, he, hd₁, hres⟩ := readTable_eval cfg version fs
  simp only [eval_bind, he, Option.bind_some, writtenTable, Option.bind_eq_bind]
  cases ha : acceptLines [] ((textLines 254 ((fs.disk .table).getD [])).take 512) with
  | none =>
      rw [ha] at hres
      cases r with
      | none => exact ⟨fs₁, by simp [eval_call], hd₁⟩
      | some t => cases hres
  | some es =>
      rw [ha] at hres
      cases r with
      | none => cases hres
      | some t =>
          obtain ⟨hlines, hupd⟩ := Prod.mk.inj (Option.some.inj hres)
          have hlen : t.lines.length = es.length := by
            rw [show t.lines = _ from hlines, List.length_map]
          simp only [Option.bind_some, writtenLines]
          by_cases hrow : cfg.clientId ∈ tableIds es
          · obtain ⟨fs₂, hrep, hd₂⟩ := replaceTable_eval t.lines fs₁
            refine ⟨fs₂, ?_, ?_⟩
            · simp [hupd, hrow, eval_bind, hrep, eval_call]
            · simpa [hrow, hd₁, show t.lines = _ from hlines] using hd₂
          · by_cases hfull : es.length ≥ 512
            · refine ⟨fs₁, ?_, ?_⟩
              · simp [hupd, hrow, hlen, hfull, eval_call]
              · simpa [hrow, hfull] using hd₁
            · obtain ⟨fs₂, hrep, hd₂⟩ :=
                replaceTable_eval (t.lines ++ [ownRow cfg version]) fs₁
              refine ⟨fs₂, ?_, ?_⟩
              · simp [hupd, hrow, hlen, hfull, eval_bind, hrep, eval_call]
              · simpa [hrow, hfull, hd₁, show t.lines = _ from hlines] using hd₂

end UpdateFramework
