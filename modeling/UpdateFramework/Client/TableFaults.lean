import UpdateFramework.Client.FileRules
import UpdateFramework.Libc.Observed

/-!
# Client — a table update that fails

`write_version_file` when its operations on files may fail, and when the process may die between
two of them.  The writing half notices every failure, and puts a whole table in the place of a
whole table or none.  The reading half takes a table that does not open for one that does not
exist, and a read that fails for the end of the table; the update is then carried out on what was
read (`failed_update_iff`).
-/

namespace UpdateFramework

open Libc Process FileSystem Observed

/-- A failure recorded with the file the operation worked on. -/
abbrev Failure := FileOp Path × Option Path

/-- The table did not open, or a read of it failed. -/
def ReadFault : Failure → Prop
  | (.fopen _ .r, _) | (.fgets _ _, _) => True
  | _ => False

/-- The temporary file could not be opened, written, flushed, synced or closed, or not be renamed. -/
def WriteFault : Failure → Prop
  | (.fopen _ .w, _) | (.fputs _ _, _) | (.fflush _, _) | (.fsync _, _)
  | (.fclose _, some .tableTmp) | (.rename _ _, _) => True
  | _ => False

def LockFault : Failure → Prop
  | (.lock _, _) => True
  | _ => False

/-- The update harms nothing: after a failure it returns `-1` and the table is what it was, and a
process that dies before, between or after the operations leaves the old table or the new one. -/
structure Unharmed (cfg : ClientConfig) (version c : Bytes) (rc : Bool) (y : Observed Path) :
    Prop where
  failure : (∃ f ∈ y.failed, LockFault f ∨ ReadFault f ∨ WriteFault f) →
    rc = false ∧ y.files.disk .table = some c
  death : ∀ fs ∈ y.past ++ [y.files], ∀ dead, Dies fs dead →
    dead.disk .table = some c ∨
      ∃ new, writtenTable cfg version (some c) = some new ∧ dead.disk .table = some new

/-! ### The table stands -/

/-- The table is `c`, and nothing is pending that could change it. -/
structure Stands (c : Bytes) (fs : FileSystem Path) : Prop where
  disk : fs.disk .table = some c
  quiet : ∀ k s, fs.streams k = some s → s.pending ≠ [] → s.path ≠ some .table

theorem Stands.dies {c : Bytes} {fs dead : FileSystem Path} (h : Stands c fs)
    (hd : Dies fs dead) : dead.disk .table = some c :=
  (hd.disk h.quiet).trans h.disk

theorem stands_of_settled {c : Bytes} {fs : FileSystem Path} (hs : fs.Settled)
    (hd : fs.disk .table = some c) : Stands c fs :=
  ⟨hd, fun k s hk hp => absurd (hs k s hk hp) List.not_mem_nil⟩

theorem stands_of_holds {c : Bytes} {fs : FileSystem Path} {h : Handle}
    (hh : Holds [h] [(h, .tableTmp)] fs) (hd : fs.disk .table = some c) : Stands c fs := by
  refine ⟨hd, fun k s hk hp hpath => ?_⟩
  obtain rfl : k = h := List.mem_singleton.mp (hh.1 k s hk hp)
  rw [(hh.2 _ (List.mem_singleton_self _)).2 s hk] at hpath
  cases hpath

/-- The table has stood all along. -/
def Stood (c : Bytes) (x : Observed Path) : Prop := ∀ fs ∈ x.past ++ [x.files], Stands c fs

variable {cfg : ClientConfig} {version c : Bytes} {x y : Observed Path}

theorem Stood.now (h : Stood c x) : x.files.disk .table = some c :=
  (h x.files (List.mem_append_right _ (List.mem_singleton_self _))).disk

/-- One operation more. -/
theorem Stood.step {o : FileOp Path} {r : FileOp.Res o} (h : Stood c x) (hn : x.Noted o r y)
    (hy : Stands c y.files) : Stood c y := by
  intro fs hfs
  rw [hn.past] at hfs
  rcases List.mem_append.mp hfs with hfs | hfs
  · exact h fs hfs
  · exact List.mem_singleton.mp hfs ▸ hy

/-- What leaves the files alone leaves the table standing. -/
theorem Stood.same {o : FileOp Path} {r : FileOp.Res o} (h : Stood c x) (hn : x.Noted o r y)
    (hy : y.files = x.files) : Stood c y :=
  h.step hn (hy ▸ h x.files (List.mem_append_right _ (List.mem_singleton_self _)))

/-! ### Reading -/

/-- Before the temporary file is opened: nothing is pending, and of what concerns the update only
reading has failed, if anything. -/
structure Reader (c : Bytes) (x : Observed Path) : Prop where
  stood : Stood c x
  settled : x.files.Settled
  clean : ∀ f ∈ x.failed, ¬ LockFault f ∧ ¬ WriteFault f

/-- What the reading half ends with: the lines of the table, or some of them after a failure. -/
def TableGot (cfg : ClientConfig) (version c : Bytes) (t : Option TableRead) (y : Observed Path) :
    Prop :=
  ((¬ ∃ f ∈ y.failed, ReadFault f) ∧ t.map (fun t => (t.lines, t.updated)) =
      (acceptLines [] ((textLines 254 c).take 512)).map fun es =>
        (es.map (rewritten cfg version), decide (cfg.clientId ∈ tableIds es))) ∨
    ((∃ f ∈ y.failed, ReadFault f) ∧ ∃ t', t = some t' ∧ t'.lines.length < 512)

/-- What the lines left to read make of those read. -/
def tableOn (cfg : ClientConfig) (version : Bytes) (t : TableRead) (text : Bytes) :
    Option (List Bytes × Bool) :=
  (acceptLines t.seen ((textLines 254 text).take (512 - t.lines.length))).map fun es =>
    (t.lines ++ es.map (rewritten cfg version),
      t.updated || decide (cfg.clientId ∈ tableIds es))

theorem tableOn_cons {t t' : TableRead} {raw rest text : Bytes} {eof : Bool} {e : TableLine}
    (hlt : t.lines.length < 512)
    (htext : textLines 254 text = (raw, eof) :: textLines 254 rest)
    (ha : acceptLine t.seen (cstr raw) eof = some (e, t'.seen))
    (hlines : t'.lines = t.lines ++ [rewritten cfg version (cstr raw, e)])
    (hupdated : t'.updated = (t.updated || decide (cfg.clientId ∈ tableIds [(cstr raw, e)]))) :
    tableOn cfg version t' rest = tableOn cfg version t text := by
  obtain ⟨m, hm⟩ : ∃ m, 512 - t.lines.length = m + 1 := ⟨511 - t.lines.length, by omega⟩
  have hleft : 512 - t'.lines.length = m := by
    rw [hlines, List.length_append, List.length_singleton]
    omega
  rw [tableOn, tableOn, htext, hm, List.take_succ_cons, acceptLines_cons_some ha, hleft,
    Option.map_map]
  refine congrArg (Option.map · _) (funext fun es => ?_)
  have hids : tableIds ((cstr raw, e) :: es) = tableIds [(cstr raw, e)] ++ tableIds es :=
    tableIds_append [(cstr raw, e)] es
  rw [Function.comp_apply, hlines, hupdated, hids, List.append_assoc, List.singleton_append,
    List.map_cons]
  simp only [List.mem_append, Bool.decide_or, Bool.or_assoc]

/-- An operation that is neither the lock nor a part of the writing. -/
theorem Reader.step {o : FileOp Path} {r : FileOp.Res o} (h : Reader c x) (hn : x.Noted o r y)
    (hs : y.files.Settled) (hd : y.files.disk = x.files.disk)
    (ho : ¬ LockFault (o, x.files.subject o) ∧ ¬ WriteFault (o, x.files.subject o)) :
    Reader c y := by
  refine ⟨h.stood.step hn (stands_of_settled hs (by rw [hd]; exact h.stood.now)), hs, fun f hf => ?_⟩
  rcases hn.failed_cases hf with hf | ⟨-, rfl⟩
  · exact h.clean f hf
  · exact ho

/-- Inside the reading loop, before anything has failed. -/
structure InLoop (c : Bytes) (fp : Handle) (text : Bytes) (x : Observed Path) : Prop where
  reader : Reader c x
  held : Holds [] [(fp, .table)] x.files
  unread : ¬ ∃ f ∈ x.failed, ReadFault f
  reading : x.files.Reading fp text

/-- Out of the loop, with the lines or with those before a failure. -/
def LoopEnd (c : Bytes) (fp : Handle) (word : Option (List Bytes × Bool)) (t : Option TableRead)
    (y : Observed Path) : Prop :=
  Reader c y ∧ Holds [] [(fp, .table)] y.files ∧
    (((¬ ∃ f ∈ y.failed, ReadFault f) ∧ t.map (fun t => (t.lines, t.updated)) = word) ∨
      ((∃ f ∈ y.failed, ReadFault f) ∧ ∃ t', t = some t' ∧ t'.lines.length < 512))

theorem tableRound_observed {fp : Handle} {text : Bytes} {t : TableRead} (h : InLoop c fp text x) :
    Safe (observed Path) (fun _ _ => True)
      (fun r y => r.elim
        (fun t' => ∃ rest, InLoop c fp rest y ∧
          tableOn cfg version t' rest = tableOn cfg version t text)
        (fun t' => LoopEnd c fp (tableOn cfg version t text) t' y))
      (tableRound cfg version fp t) x := by
  have hself : ∀ {z : Observed Path} {rest : Bytes}, InLoop c fp rest z → rest = [] ∨
      t.lines.length ≥ 512 → LoopEnd c fp (tableOn cfg version t rest) (some t) z := by
    intro z rest hz hend
    refine ⟨hz.reader, hz.held, .inl ⟨hz.unread, ?_⟩⟩
    have hnil : (textLines 254 rest).take (512 - t.lines.length) = [] := by
      rcases hend with rfl | hfull
      · rw [textLines_nil, List.take_nil]
      · rw [Nat.sub_eq_zero_of_le hfull, List.take_zero]
    rw [tableOn, hnil]
    simp [acceptLines, tableIds]
  rw [tableRound]
  by_cases hfull : t.lines.length ≥ 512
  · rw [if_pos hfull]
    exact safe_ret (hself h (.inr hfull))
  rw [if_neg hfull, fgetsText, Prog.call_bind]
  refine safe_call fun r y hn => ?_
  have hheld := h.held.read (.fgets fp 256) hn.may
  have hreader : y.files.disk = x.files.disk → Reader c y := fun hd =>
    h.reader.step hn hheld.1 hd ⟨id, id⟩
  rcases hn.fgets h.reading with ⟨rfl, rfl, hfs, hf⟩ | ⟨raw, eof, rest, rfl, htext, hr', hd, hf⟩ |
      ⟨rfl, hfs, -, p, hf⟩
  · have hloop : InLoop c fp [] y :=
      ⟨hreader (by rw [hfs]), hheld, hf ▸ h.unread, hfs ▸ h.reading⟩
    exact safe_ret (hself hloop (.inl rfl))
  · have hloop : InLoop c fp rest y := ⟨hreader hd, hheld, hf ▸ h.unread, hr'⟩
    have hlt : t.lines.length < 512 := Nat.not_le.mp hfull
    simp only [Prog.ret_bind]
    cases ha : acceptLine t.seen (cstr raw) eof with
    | none =>
        obtain ⟨m, hm⟩ : ∃ m, 512 - t.lines.length = m + 1 := ⟨511 - t.lines.length, by omega⟩
        refine safe_ret ⟨hloop.reader, hloop.held, .inl ⟨hloop.unread, ?_⟩⟩
        rw [tableOn, htext, hm, List.take_succ_cons, acceptLines_cons_none ha]
        rfl
    | some a =>
        obtain ⟨e, seen⟩ := a
        cases e with
        | note =>
            refine safe_ret ⟨rest, hloop, ?_⟩
            exact tableOn_cons hlt htext ha rfl (by simp [tableIds])
        | row id v =>
            dsimp only
            by_cases hid : id = cfg.clientId
            · rw [if_pos hid]
              refine safe_ret ⟨rest, hloop, ?_⟩
              exact tableOn_cons hlt htext ha (by simp [rewritten, hid]) (by simp [tableIds, hid])
            · rw [if_neg hid]
              refine safe_ret ⟨rest, hloop, ?_⟩
              exact tableOn_cons hlt htext ha (by simp [rewritten, hid])
                (by simp [tableIds, Ne.symm hid])
  · refine safe_ret ⟨hreader (by rw [hfs]), hheld, .inr ⟨⟨(.fgets fp 256, p), ?_, trivial⟩, t, rfl,
      Nat.not_le.mp hfull⟩⟩
    rw [hf]
    exact List.mem_append_right _ (List.mem_singleton_self _)

/-- The reading half. -/
theorem readTable_observed (hx : Reader c x) (hread : ¬ ∃ f ∈ x.failed, ReadFault f) :
    Safe (observed Path) (fun _ _ => True)
      (fun t y => Reader c y ∧ TableGot cfg version c t y) (readTable cfg version) x := by
  rw [readTable]
  simp only [Prog.call_bind, Prog.ret_bind]
  refine safe_call fun fp y hopen => ?_
  have hholds : Holds [] [] x.files := ⟨hx.settled, fun _ h => absurd h List.not_mem_nil⟩
  have hheld := hholds.fopen hopen.may
  have hreader : y.files.disk = x.files.disk → Reader c y := fun hd =>
    hx.step hopen hheld.1.1 hd ⟨id, id⟩
  rcases hopen.fopen_r with ⟨-, -, hc, -⟩ | ⟨rfl, hfs, -, hf⟩ | ⟨fp, c', rfl, hc, hreading, hd, hf⟩
  · rw [hx.stood.now] at hc
    cases hc
  · refine safe_ret ⟨hreader (by rw [hfs]), .inr ⟨⟨(.fopen .table .r, some .table), ?_, trivial⟩,
      _, rfl, by decide⟩⟩
    rw [hf]
    exact List.mem_append_right _ (List.mem_singleton_self _)
  · rw [hx.stood.now] at hc
    cases hc
    have hin : InLoop c fp c y :=
      ⟨hreader hd, hheld.2 fp rfl, hf ▸ hread, hreading⟩
    refine safe_bind.mpr ((?_ : Safe (observed Path) (fun _ _ => True)
      (fun t z => LoopEnd c fp (tableOn cfg version ⟨[], [], false⟩ c) t z) _ y).post fun t z hz => ?_)
    · refine safe_loop _ trivial (fun t z => ∃ text, InLoop c fp text z ∧
        tableOn cfg version t text = tableOn cfg version ⟨[], [], false⟩ c) ?_ 513 ⟨c, hin, rfl⟩
      rintro t z ⟨text, hloop, hword⟩
      refine (tableRound_observed hloop).post fun r u hu => ?_
      cases r with
      | inl t' =>
          obtain ⟨rest, hrest, hsame⟩ := hu
          exact ⟨rest, hrest, hsame.trans hword⟩
      | inr t' =>
          rw [hword] at hu
          rintro _ rfl
          exact hu
    · obtain ⟨hend, hown, hgot⟩ := hz
      refine safe_call fun _ u hclose => safe_ret ?_
      have hsubject : ¬ WriteFault (.fclose fp, z.files.subject (.fclose fp)) := by
        have howns := (hown.2 _ (List.mem_singleton_self _)).2
        rw [subject]
        cases hs : z.files.streams fp with
        | none => exact id
        | some s =>
            rw [Option.bind_some, howns s hs]
            exact id
      have hdisk : u.files.disk = z.files.disk := funext fun p =>
        may_disk hclose.may fun ⟨s, hs, _, hp⟩ => absurd (hend.settled fp s hs hp) List.not_mem_nil
      have hsettled : u.files.Settled := by
        obtain ⟨m, hfs, -⟩ := may_fclose hclose.may
        have hpending : z.files.PendingOnly [fp] := hend.settled.mono fun _ h => absurd h List.not_mem_nil
        rw [hfs]
        exact PendingOnly.closed hpending m
      refine ⟨hend.step hclose hsettled hdisk ⟨id, hsubject⟩, ?_⟩
      have hsame : (∃ f ∈ u.failed, ReadFault f) ↔ ∃ f ∈ z.failed, ReadFault f := by
        refine ⟨fun ⟨f, hf, hr⟩ => ?_, fun ⟨f, hf, hr⟩ => ⟨f, hclose.failed_mono hf, hr⟩⟩
        rcases hclose.failed_cases hf with hf | ⟨-, rfl⟩
        · exact ⟨f, hf, hr⟩
        · exact absurd hr id
      rw [TableGot, hsame]
      refine hgot.imp (fun ⟨hno, hword⟩ => ⟨hno, hword.trans ?_⟩) id
      simp [tableOn]

/-! ### Writing -/

/-- The temporary file, open on `h`, has the text `bs`, on the disk or still pending. -/
def Drafted (h : Handle) (bs : Bytes) (fs : FileSystem Path) : Prop :=
  ∃ s d, fs.streams h = some s ∧ s.path = some .tableTmp ∧ fs.disk .tableTmp = some d ∧
    d ++ s.pending = bs

theorem Drafted.isOpen {h : Handle} {bs : Bytes} {fs : FileSystem Path} (hd : Drafted h bs fs) :
    (fs.streams h).isSome = true := by
  obtain ⟨s, -, hs, -⟩ := hd
  rw [hs]
  rfl

theorem Drafted.written {h : Handle} {bs : Bytes} {fs : FileSystem Path} (hd : Drafted h bs fs)
    (taken : Bytes) (m : ℕ) : Drafted h (bs ++ taken) (fs.written h taken m) := by
  obtain ⟨s, d, hs, hpath, hdisk, rfl⟩ := hd
  rw [written_eq hs]
  refine ⟨_, d ++ (s.pending ++ taken).take m, setStream_streams .., hpath, ?_, ?_⟩
  · rw [hpath]
    simp [setStream, append, FileSystem.set, hdisk]
  · rw [List.append_assoc, List.append_assoc, List.take_append_drop]

theorem Drafted.flushed {h : Handle} {bs : Bytes} {fs : FileSystem Path} (hd : Drafted h bs fs) :
    Drafted h bs (fs.flushed h) ∧ (fs.flushed h).disk .tableTmp = some bs := by
  obtain ⟨s, d, hs, hpath, hdisk, rfl⟩ := hd
  have hnew : (fs.flushed h).disk .tableTmp = some (d ++ s.pending) := by
    rw [flushed_eq hs, hpath]
    simp [setStream, append, FileSystem.set, hdisk]
  refine ⟨⟨{ s with pending := [] }, d ++ s.pending, ?_, hpath, hnew, List.append_nil _⟩, hnew⟩
  rw [flushed_eq hs]
  exact setStream_streams ..

/-- The temporary file is being written, and so far holds `bs`. -/
structure Drafting (c : Bytes) (h : Handle) (bs : Bytes) (x : Observed Path) : Prop where
  stood : Stood c x
  held : Holds [h] [(h, .tableTmp)] x.files
  draft : Drafted h bs x.files

/-- Bytes that were taken reach the draft. -/
theorem Drafting.fputs {h : Handle} {bs line : Bytes} {r : Bool} (hx : Drafting c h bs x)
    (hn : x.Noted (.fputs h line) r y) :
    (∃ bs', Drafting c h bs' y) ∧ (r = true → Drafting c h (bs ++ line) y ∧ y.failed = x.failed) ∧
      (r = false → ∃ f ∈ y.failed, WriteFault f) := by
  obtain ⟨taken, m, -, hall, hfs⟩ := may_fputs hn.may
  have hdraft := hx.draft.written taken m
  have hheld := hx.held.written (List.mem_singleton_self h) taken m
  rw [← hfs] at hdraft hheld
  have htable : y.files.disk .table = some c := by
    refine (may_disk hn.may fun ⟨s, hs, hpath⟩ => ?_).trans hx.stood.now
    rw [(hx.held.2 _ (List.mem_singleton_self _)).2 s hs] at hpath
    cases hpath
  have hy : Drafting c h (bs ++ taken) y :=
    ⟨hx.stood.step hn (stands_of_holds hheld htable), hheld, hdraft⟩
  obtain ⟨s, hs⟩ := Option.isSome_iff_exists.mp hx.draft.isOpen
  have hok : (x.files.ok (.fputs h line)).1 = true := by simp only [ok, hs]
  refine ⟨⟨_, hy⟩, fun hr => ?_, fun hr => ?_⟩
  · rw [hall hr] at hy
    exact ⟨hy, hn.not_failed (hr.trans hok.symm)⟩
  · rw [hn.is_failed (by rw [hok, hr]; exact Bool.false_ne_true)]
    exact ⟨_, List.mem_append_right _ (List.mem_singleton_self _), trivial⟩

/-- The lines, one after another. -/
theorem putLines_observed {h : Handle} {lines : List Bytes} {bs : Bytes} (hx : Drafting c h bs x) :
    Safe (observed Path) (fun _ _ => True)
      (fun r y => (∃ bs', Drafting c h bs' y) ∧
        (r = true → Drafting c h (bs ++ lines.flatten) y ∧ y.failed = x.failed) ∧
        (r = false → ∃ f ∈ y.failed, WriteFault f))
      (putLines h lines) x := by
  induction lines generalizing bs x with
  | nil =>
      refine safe_ret ⟨⟨bs, hx⟩, fun _ => ⟨?_, rfl⟩, nofun⟩
      rwa [List.flatten_nil, List.append_nil]
  | cons line lines ih =>
      rw [putLines, Prog.call_bind]
      refine safe_call fun r y hn => ?_
      obtain ⟨hsome, htrue, hfalse⟩ := hx.fputs hn
      cases r with
      | false => exact safe_ret ⟨hsome, nofun, hfalse⟩
      | true =>
          obtain ⟨hy, hf⟩ := htrue rfl
          refine (ih hy).post fun r z hz => ?_
          rw [List.append_assoc, ← List.flatten_cons] at hz
          exact ⟨hz.1, fun hr => ⟨(hz.2.1 hr).1, (hz.2.1 hr).2.trans hf⟩, hz.2.2⟩

/-- The writing has failed, and the table stands. -/
structure Failed (c : Bytes) (x : Observed Path) : Prop where
  stood : Stood c x
  fault : ∃ f ∈ x.failed, WriteFault f

theorem Failed.step {o : FileOp Path} {r : FileOp.Res o} (h : Failed c x) (hn : x.Noted o r y)
    (hy : Stands c y.files) : Failed c y := by
  obtain ⟨f, hf, hw⟩ := h.fault
  exact ⟨h.stood.step hn hy, f, hn.failed_mono hf, hw⟩

/-- The table is the old one or the new one, and has been all along. -/
def OldOrNew (c new : Bytes) (x : Observed Path) : Prop :=
  ∀ fs ∈ x.past ++ [x.files], Stands c fs ∨ Stands new fs

theorem OldOrNew.step {new : Bytes} {o : FileOp Path} {r : FileOp.Res o} (h : OldOrNew c new x)
    (hn : x.Noted o r y) (hy : Stands c y.files ∨ Stands new y.files) : OldOrNew c new y := by
  intro fs hfs
  rw [hn.past] at hfs
  rcases List.mem_append.mp hfs with hfs | hfs
  · exact h fs hfs
  · exact List.mem_singleton.mp hfs ▸ hy

/-- What the writing half ends with, when it began with these failures. -/
def TablePut (c new : Bytes) (failed : List Failure) (rc : Bool) (y : Observed Path) : Prop :=
  (rc = false → Failed c y) ∧ (rc = true → OldOrNew c new y ∧ y.failed = failed)

/-- Giving up: the temporary file goes. -/
theorem giveUp_observed {new : Bytes} {failed : List Failure} (hx : Failed c x)
    (hs : x.files.Settled) : Safe (observed Path) (fun _ _ => True) (TablePut c new failed)
      (.call (.unlink .tableTmp) fun _ => .ret false) x := by
  refine safe_call fun r y hn => safe_ret ⟨fun _ => hx.step hn ?_, nofun⟩
  have htable : y.files.disk .table = x.files.disk .table :=
    may_disk hn.may fun hq => Path.noConfusion hq
  exact stands_of_settled (hs.unlink hn.may) (htable.trans hx.stood.now)

/-- The writing has failed with the temporary file open. -/
theorem closeAndGiveUp_observed {new : Bytes} {failed : List Failure} {h : Handle}
    (hx : Failed c x) (hh : Holds [h] [(h, .tableTmp)] x.files) :
    Safe (observed Path) (fun _ _ => True) (TablePut c new failed)
      (.call (.fclose h) fun _ => .call (.unlink .tableTmp) fun _ => .ret false) x := by
  refine safe_call fun r y hn => ?_
  have hsettled : y.files.Settled := (hh.fclose hn.may).1
  have htable : y.files.disk .table = x.files.disk .table := by
    refine may_disk hn.may fun ⟨s, hs, hpath, _⟩ => ?_
    rw [(hh.2 _ (List.mem_singleton_self _)).2 s hs] at hpath
    cases hpath
  exact giveUp_observed (hx.step hn (stands_of_settled hsettled (htable.trans hx.stood.now)))
    hsettled

/-- The draft is complete and closed: it takes the table's place or goes. -/
theorem rename_observed {new : Bytes} (hx : Stood c x) (hs : x.files.Settled)
    (hdisk : x.files.disk .tableTmp = some new) :
    Safe (observed Path) (fun _ _ => True) (TablePut c new x.failed)
      (.call (.rename .tableTmp .table) fun r =>
        if r = true then .ret true else .call (.unlink .tableTmp) fun _ => .ret false) x := by
  refine safe_call fun r y hn => ?_
  have hok : (x.files.ok (.rename .tableTmp .table)).1 = true := by
    obtain ⟨fs', hok, -⟩ := ok_rename hdisk Path.table
    rw [hok]
  have hsettled : y.files.Settled := hs.rename hn.may
  rcases may_rename hn.may with ⟨rfl, hfs⟩ | ⟨rfl, -, hfs⟩
  · refine giveUp_observed ⟨hx.same hn hfs, ?_⟩ hsettled
    rw [hn.is_failed (by rw [hok]; exact Bool.false_ne_true)]
    exact ⟨_, List.mem_append_right _ (List.mem_singleton_self _), trivial⟩
  · refine safe_ret ⟨nofun, fun _ => ⟨?_, hn.not_failed hok.symm⟩⟩
    have hold : OldOrNew c new x := fun fs hmem => .inl (hx fs hmem)
    refine hold.step hn (.inr (stands_of_settled hsettled ?_))
    rw [hfs]
    simp [renamed, FileSystem.set, hdisk]

/-- The draft is complete and on the disk, and is closed. -/
theorem closed_observed {new : Bytes} {h : Handle} (hx : Stood c x)
    (hheld : Holds [] [(h, .tableTmp)] x.files)
    (hdone : Drafted h new x.files ∧ x.files.disk .tableTmp = some new) :
    Safe (observed Path) (fun _ _ => True) (TablePut c new x.failed)
      (.call (.fclose h) fun closed =>
        if closed = true then .call (.rename .tableTmp .table) fun r =>
          if r = true then .ret true else .call (.unlink .tableTmp) fun _ => .ret false
        else .call (.unlink .tableTmp) fun _ => .ret false) x := by
  refine safe_call fun r y hn => ?_
  have hheld' : Holds [h] [(h, .tableTmp)] x.files :=
    hheld.mono (fun _ h => absurd h List.not_mem_nil) fun _ => id
  have hsettled : y.files.Settled := (hheld'.fclose hn.may).1
  have hdisk : ∀ p, y.files.disk p = x.files.disk p := fun p =>
    may_disk hn.may fun ⟨s, hs, _, hp⟩ => absurd (hheld.1 h s hs hp) List.not_mem_nil
  have hstood : Stood c y := hx.step hn (stands_of_settled hsettled ((hdisk _).trans hx.now))
  obtain ⟨s, -, hs, hpath, -⟩ := hdone.1
  have hok : (x.files.ok (.fclose h)).1 = true := by simp only [ok, hs]
  cases r with
  | false =>
      refine giveUp_observed ⟨hstood, ?_⟩ hsettled
      rw [hn.is_failed (by rw [hok]; exact Bool.false_ne_true), subject, hs, Option.bind_some, hpath]
      exact ⟨_, List.mem_append_right _ (List.mem_singleton_self _), trivial⟩
  | true =>
      rw [← hn.not_failed hok.symm]
      exact rename_observed hstood hsettled ((hdisk _).trans hdone.2)

/-- The writing half. -/
theorem replaceTable_observed {lines : List Bytes} (hx : Stood c x) (hs : x.files.Settled) :
    Safe (observed Path) (fun _ _ => True) (TablePut c lines.flatten x.failed)
      (replaceTable lines) x := by
  rw [replaceTable]
  simp only [Prog.call_bind, Prog.ret_bind]
  refine safe_call fun r y hopen => ?_
  have hholds : Holds [] [] x.files := ⟨hs, fun _ h => absurd h List.not_mem_nil⟩
  have htable : y.files.disk .table = x.files.disk .table :=
    may_disk hopen.may fun hq => Path.noConfusion hq.1
  have hnow := htable.trans hx.now
  rcases may_fopen_w (fun h => Mode.noConfusion h) hopen.may with ⟨rfl, hfs⟩ | ⟨rfl, hfs⟩
  · refine safe_ret ⟨fun _ => ⟨hx.same hopen hfs, ?_⟩, fun h => Bool.noConfusion h⟩
    rw [hopen.is_failed (Option.some_ne_none _).symm]
    exact ⟨_, List.mem_append_right _ (List.mem_singleton_self _), trivial⟩
  have hheld : Holds [x.files.fresh] [(x.files.fresh, .tableTmp)] y.files :=
    ((hholds.fopen hopen.may).2 _ rfl).mono (fun _ h => absurd h List.not_mem_nil) fun _ => id
  have hdraft : Drafted x.files.fresh [] y.files := by
    rw [hfs]
    refine ⟨⟨some .tableTmp, .w, [], 0, []⟩, [], ?_, rfl, ?_, rfl⟩
    · simp only [opened, setStream]
      exact Function.update_self ..
    · simp [opened, setStream, FileSystem.set, opening]
  have hfailed : y.failed = x.failed := hopen.not_failed rfl
  have hy : Drafting c x.files.fresh [] y :=
    ⟨hx.step hopen (stands_of_holds hheld hnow), hheld, hdraft⟩
  rw [← hfailed]
  clear hfs hdraft hheld hholds hopen htable hnow
  generalize x.files.fresh = h at hy
  refine safe_bind.mpr ((putLines_observed hy).post fun rc z hz => ?_)
  cases rc with
  | false =>
      obtain ⟨⟨bs, hdraft⟩, -, hfault⟩ := hz
      exact closeAndGiveUp_observed ⟨hdraft.stood, hfault rfl⟩ hdraft.held
  | true =>
      obtain ⟨hdraft, hf⟩ := hz.2.1 rfl
      rw [List.nil_append] at hdraft
      rw [← hf]
      refine safe_call fun r u hflush => ?_
      obtain ⟨s, hopened⟩ := Option.isSome_iff_exists.mp hdraft.draft.isOpen
      have hu := may_fflush hflush.may
      have hheld : Holds [] [(h, .tableTmp)] u.files := Holds.fflush hdraft.held hflush.may
      have hdone := hdraft.draft.flushed
      rw [← hu] at hdone
      have htable : u.files.disk .table = some c := by
        refine (may_disk hflush.may ?_).trans hdraft.stood.now
        rintro ⟨s, hs, hpath, -⟩
        rw [(hdraft.held.2 _ (List.mem_singleton_self _)).2 s hs] at hpath
        cases hpath
      have hstood : Stood c u := hdraft.stood.step hflush (stands_of_settled hheld.1 htable)
      have hheld' : Holds [h] [(h, .tableTmp)] u.files :=
        hheld.mono (fun _ h => absurd h List.not_mem_nil) fun _ => id
      have hokflush : (z.files.ok (.fflush h)).1 = true := by simp only [ok, hopened]; rfl
      cases r with
      | false =>
          refine closeAndGiveUp_observed ⟨hstood, ?_⟩ hheld'
          rw [hflush.is_failed (by rw [hokflush]; exact Bool.false_ne_true)]
          exact ⟨_, List.mem_append_right _ (List.mem_singleton_self _), trivial⟩
      | true =>
          rw [← hflush.not_failed hokflush.symm]
          refine safe_call fun r v hsync => ?_
          have hv := may_fsync hsync.may
          have hoksync : (u.files.ok (.fsync h)).1 = true := hdone.1.isOpen
          cases r with
          | false =>
              refine closeAndGiveUp_observed ⟨hstood.same hsync hv, ?_⟩ (hv ▸ hheld')
              rw [hsync.is_failed (by rw [hoksync]; exact Bool.false_ne_true)]
              exact ⟨_, List.mem_append_right _ (List.mem_singleton_self _), trivial⟩
          | true =>
              rw [← hsync.not_failed hoksync.symm]
              exact closed_observed (hstood.same hsync hv) (hv ▸ hheld) (hv ▸ hdone)

/-! ### The whole function -/

/-- What `write_version_file` ends with.  Where it returns `-1` the table has stood, and if reading
failed so did writing.  Where it returns `0`, nothing but reading failed, and the table is the old
one or the new one, which is the right one if reading did not fail. -/
structure Written (cfg : ClientConfig) (version c : Bytes) (rc : Bool) (y : Observed Path) :
    Prop where
  failed : rc = false → Stood c y ∧
    ((∃ f ∈ y.failed, ReadFault f) → ∃ f ∈ y.failed, WriteFault f)
  done : rc = true → (∀ f ∈ y.failed, ¬ LockFault f ∧ ¬ WriteFault f) ∧
    ∃ new, OldOrNew c new y ∧
      ((¬ ∃ f ∈ y.failed, ReadFault f) → writtenTable cfg version (some c) = some new)

/-- The lines that are written are those of the new table, if reading did not fail. -/
theorem writtenTable_of_got {t : TableRead} {es : List (Bytes × TableLine)}
    (hes : acceptLines [] ((textLines 254 c).take 512) = some es)
    (hlines : t.lines = es.map (rewritten cfg version))
    (hupdated : t.updated = decide (cfg.clientId ∈ tableIds es)) :
    writtenTable cfg version (some c) =
      if t.updated then some t.lines.flatten
      else if t.lines.length ≥ 512 then none
      else some (t.lines ++ [ownRow cfg version]).flatten := by
  have hlen : t.lines.length = es.length := by rw [hlines, List.length_map]
  rw [writtenTable, Option.getD_some, hes]
  simp only [Option.bind_eq_bind, Option.bind_some, writtenLines]
  by_cases hmem : cfg.clientId ∈ tableIds es
  · simp [hupdated, hmem, hlines]
  · by_cases hfull : es.length ≥ 512
    · simp [hupdated, hmem, hlen, hfull]
    · simp [hupdated, hmem, hfull, hlines]

theorem unlock_observed {fd : ℕ} {rc : Bool} (hx : Written cfg version c rc x) :
    Safe (observed Path) (fun _ _ => True) (Written cfg version c)
      (.call (.unlock fd) fun _ => .ret rc) x := by
  refine safe_call fun r y hn => safe_ret ?_
  have hfs := may_unlock hn.may
  have hf : y.failed = x.failed := hn.not_failed rfl
  refine ⟨fun hrc => ?_, fun hrc => ?_⟩
  · obtain ⟨hstood, hread⟩ := hx.failed hrc
    exact ⟨hstood.same hn hfs, hf ▸ hread⟩
  · obtain ⟨hclean, new, hnew, hword⟩ := hx.done hrc
    refine ⟨hf ▸ hclean, new, hnew.step hn ?_, hf ▸ hword⟩
    exact hfs ▸ hnew x.files (List.mem_append_right _ (List.mem_singleton_self _))

/-- What the writing half leaves of what the reading half got. -/
theorem written_of_put {new : Bytes} {rc : Bool} (hx : Reader c x)
    (hput : TablePut c new x.failed rc y)
    (hword : (¬ ∃ f ∈ x.failed, ReadFault f) → writtenTable cfg version (some c) = some new) :
    Written cfg version c rc y where
  failed hrc := ⟨(hput.1 hrc).stood, fun _ => (hput.1 hrc).fault⟩
  done hrc := by
    obtain ⟨hnew, hf⟩ := hput.2 hrc
    exact ⟨hf ▸ hx.clean, new, hnew, hf ▸ hword⟩

theorem writeVersionFile_observed {fs : FileSystem Path} (hc : fs.disk .table = some c)
    (hs : fs.Settled) :
    Safe (observed Path) (fun _ _ => True) (Written cfg version c)
      (writeVersionFile cfg version) (.start fs) := by
  have hstart : Stood c (.start fs) := fun fs' hmem =>
    List.mem_singleton.mp hmem ▸ stands_of_settled hs hc
  have hnothing : ¬ ∃ f ∈ (Observed.start fs).failed, ReadFault f := by
    rintro ⟨f, hf, -⟩
    cases hf
  rw [writeVersionFile]
  split
  · exact safe_ret ⟨fun _ => ⟨hstart, fun h => absurd h hnothing⟩, nofun⟩
  simp only [Prog.call_bind, Prog.ret_bind]
  refine safe_call fun fd x hlock => ?_
  have hfs := may_lock hlock.may
  have hstood : Stood c x := hstart.same hlock hfs
  cases fd with
  | none =>
      refine safe_ret ⟨fun _ => ⟨hstood, ?_⟩, nofun⟩
      rw [hlock.is_failed nofun]
      rintro ⟨f, hf, hr⟩
      rcases List.mem_append.mp hf with hf | hf
      · cases hf
      · rw [List.mem_singleton.mp hf] at hr
        exact absurd hr id
  | some fd =>
      have hx : x.failed = [] := hlock.not_failed
        ((may_lock_res hlock.may).resolve_left (Option.some_ne_none fd))
      have hreader : Reader c x := by
        refine ⟨hstood, hfs ▸ hs, fun f hf => ?_⟩
        rw [hx] at hf
        cases hf
      have hread : ¬ ∃ f ∈ x.failed, ReadFault f := by
        rintro ⟨f, hf, -⟩
        rw [hx] at hf
        cases hf
      refine safe_bind.mpr ((readTable_observed hreader hread).post fun t z hz => ?_)
      obtain ⟨hz, hgot⟩ := hz
      have hrefused : (¬ ∃ f ∈ z.failed, ReadFault f) → Written cfg version c false z := fun hno =>
        ⟨fun _ => ⟨hz.stood, fun h => absurd h hno⟩, nofun⟩
      have hput : ∀ lines : List Bytes, ((¬ ∃ f ∈ z.failed, ReadFault f) →
          writtenTable cfg version (some c) = some lines.flatten) →
          Safe (observed Path) (fun _ _ => True) (Written cfg version c)
            (replaceTable lines >>= fun rc => .call (.unlock fd) fun _ => .ret rc) z :=
        fun lines hword => safe_bind.mpr ((replaceTable_observed hz.stood hz.settled).post
          fun rc u hu => unlock_observed (written_of_put hz hu hword))
      cases t with
      | none =>
          refine unlock_observed (hrefused ?_)
          rcases hgot with ⟨hno, -⟩ | ⟨-, t', ht', -⟩
          · exact hno
          · cases ht'
      | some t =>
          have hword : (¬ ∃ f ∈ z.failed, ReadFault f) → writtenTable cfg version (some c) =
              if t.updated then some t.lines.flatten
              else if t.lines.length ≥ 512 then none
              else some (t.lines ++ [ownRow cfg version]).flatten := by
            intro hno
            obtain ⟨-, hmap⟩ := hgot.resolve_right fun h => hno h.1
            obtain ⟨es, hes, heq⟩ := Option.map_eq_some_iff.mp hmap.symm
            obtain ⟨hlines, hupdated⟩ := Prod.mk.inj heq
            exact writtenTable_of_got hes hlines.symm hupdated.symm
          dsimp only
          by_cases hupdated : t.updated = true
          · rw [if_pos hupdated]
            exact hput _ fun hno => (hword hno).trans (if_pos hupdated)
          rw [if_neg hupdated]
          by_cases hfull : t.lines.length ≥ 512
          · rw [if_pos hfull]
            refine unlock_observed (hrefused ?_)
            rcases hgot with ⟨hno, -⟩ | ⟨-, t', ht', hlt⟩
            · exact hno
            · cases ht'
              exact absurd hfull (Nat.not_le.mpr hlt)
          · rw [if_neg hfull]
            exact hput _ fun hno => (hword hno).trans ((if_neg hupdated).trans (if_neg hfull))

theorem unharmed_iff {rc : Bool} (h : Written cfg version c rc y) :
    Unharmed cfg version c rc y ↔
      ((∃ f ∈ y.failed, ReadFault f) → ∃ f ∈ y.failed, WriteFault f) := by
  cases rc with
  | false =>
      obtain ⟨hstood, hread⟩ := h.failed rfl
      exact iff_of_true ⟨fun _ => ⟨rfl, hstood.now⟩,
        fun fs hfs dead hd => .inl ((hstood fs hfs).dies hd)⟩ hread
  | true =>
      obtain ⟨hclean, new, hnew, hword⟩ := h.done rfl
      constructor
      · rintro hun ⟨f, hf, hr⟩
        exact Bool.noConfusion (hun.failure ⟨f, hf, .inr (.inl hr)⟩).1
      · intro hcond
        have hno : ¬ ∃ f ∈ y.failed, ReadFault f := fun hr => by
          obtain ⟨f, hf, hw⟩ := hcond hr
          exact (hclean f hf).2 hw
        refine ⟨?_, fun fs hfs dead hd => ?_⟩
        · rintro ⟨f, hf, hl | hr | hw⟩
          · exact absurd hl (hclean f hf).1
          · exact absurd ⟨f, hf, hr⟩ hno
          · exact absurd hw (hclean f hf).2
        · rcases hnew fs hfs with hold | hnew
          · exact .inl (hold.dies hd)
          · exact .inr ⟨new, hword hno, hnew.dies hd⟩

/-- **A failed update harms nothing**, exactly in the runs in which, if the table did not open or a
read of it failed, an operation of the writing failed too. -/
theorem failed_update_iff {fs : FileSystem Path} (hc : fs.disk .table = some c) (hs : fs.Settled)
    {rc : Bool}
    (hrun : Run (observed Path) (writeVersionFile cfg version, .start fs) (.ret rc, y)) :
    Unharmed cfg version c rc y ↔
      ((∃ f ∈ y.failed, ReadFault f) → ∃ f ∈ y.failed, WriteFault f) :=
  unharmed_iff ((writeVersionFile_observed hc hs).run hrun).result

/-- A table with the rows of two clients. -/
def tableTwo : FileSystem Path :=
  .only .table (ascii "client_001=1.0.0\nclient_002=1.2.0\n")

theorem tableTwo_settled : tableTwo.Settled := fun _ _ h => by cases h

/-- The temporary file does not open. -/
def noTemporary : List (Call (stdio Path)) :=
  [⟨.lock .tableLock, some 0⟩, ⟨.fopen .table .r, some 0⟩,
    ⟨.fgets 0 256, some (ascii "client_001=1.0.0\n", false)⟩,
    ⟨.fgets 0 256, some (ascii "client_002=1.2.0\n", false)⟩, ⟨.fgets 0 256, none⟩,
    ⟨.fclose 0, true⟩, ⟨.fopen .tableTmp .w, none⟩, ⟨.unlock 0, ()⟩]

theorem failed_update_refused : ∃ y,
    Run (observed Path) (writeVersionFile .client001 (ascii "2.0.0"), .start tableTwo)
      (.ret false, y) ∧
    (Unharmed .client001 (ascii "2.0.0") (ascii "client_001=1.0.0\nclient_002=1.2.0\n") false y ↔
      ((∃ f ∈ y.failed, ReadFault f) → ∃ f ∈ y.failed, WriteFault f)) := by
  have hreplay : (writeVersionFile .client001 (ascii "2.0.0")).replay noTemporary =
      some (.ret false) := Prog.replay_ret (by decide +kernel)
  have hallows : (observed Path).Allows (.start tableTwo) noTemporary _ :=
    ⟨_, .ok _ _, _, .ok _ _, _, .ok _ _, _, .ok _ _, _, .ok _ _, _, .ok _ _,
      _, .fault (.fopen _ _) nofun, _, .ok _ _, rfl⟩
  have hrun := hallows.run hreplay
  exact ⟨_, hrun, failed_update_iff (only_disk _ _) tableTwo_settled hrun⟩

/-- The table does not open. -/
def noTable : List (Call (stdio Path)) :=
  [⟨.lock .tableLock, some 0⟩, ⟨.fopen .table .r, none⟩, ⟨.fopen .tableTmp .w, some 0⟩,
    ⟨.fputs 0 (ascii "client_001=2.0.0\n"), true⟩, ⟨.fflush 0, true⟩, ⟨.fsync 0, true⟩,
    ⟨.fclose 0, true⟩, ⟨.rename .tableTmp .table, true⟩, ⟨.unlock 0, ()⟩]

/-- A table that does not open is replaced by the client's row alone. -/
theorem unopened_table_lost : ∃ y,
    Run (observed Path) (writeVersionFile .client001 (ascii "2.0.0"), .start tableTwo)
      (.ret true, y) ∧
    y.files.disk .table = some (ascii "client_001=2.0.0\n") ∧
    ¬ Unharmed .client001 (ascii "2.0.0") (ascii "client_001=1.0.0\nclient_002=1.2.0\n") true y := by
  have hreplay : (writeVersionFile .client001 (ascii "2.0.0")).replay noTable =
      some (.ret true) := Prog.replay_ret (by decide +kernel)
  have hallows : (observed Path).Allows (.start tableTwo) noTable _ :=
    ⟨_, .ok _ _, _, .fault (.fopen _ _) nofun, _, .ok _ _, _, .ok _ _, _, .ok _ _, _, .ok _ _,
      _, .ok _ _, _, .ok _ _, _, .ok _ _, rfl⟩
  refine ⟨_, hallows.run hreplay, by decide +kernel, fun h => ?_⟩
  exact Bool.noConfusion (h.failure
    ⟨(.fopen .table .r, some .table), List.mem_singleton_self _, .inr (.inl trivial)⟩).1

end UpdateFramework
