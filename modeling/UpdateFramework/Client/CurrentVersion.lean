import UpdateFramework.Client.TableUpdate
import UpdateFramework.Libc.Observed

/-!
# Client — where the current version comes from

`getCurrentVersion` when the operations on the version table may fail.  What it reports is the
table's word where nothing fails, and `0.0.0` or what it has read so far where the lock, the table
or the rest of it cannot be had; it never tells the two apart (`current_version_honest_iff`).
-/

namespace UpdateFramework

open Libc Process Observed

/-- The operations by which the table is read. -/
def ReadingOp : FileOp Path → Prop
  | .lock _ | .fopen _ .r | .fgets _ _ => True
  | _ => False

/-- The table was not got hold of, or not read to its end. -/
def Unread (failed : List (FileOp Path × Option Path)) : Prop := ∃ f ∈ failed, ReadingOp f.1

/-- A result of `getCurrentVersion` that is not invented: a version is that of the client's only
row in a table that was read to its end and accepted, or is `0.0.0` where the table has no such
row or does not exist; and what could not be read gives no version. -/
structure Honest (cfg : ClientConfig) (fs : FileSystem Path)
    (failed : List (FileOp Path × Option Path)) (r : Option Bytes) : Prop where
  version : ∀ w, r = some w →
    (∃ c es, fs.disk .table = some c ∧ ¬ Unread failed ∧
      acceptLines [] (textLines 254 c) = some es ∧ (tableIds es).Nodup ∧
      ((∃ l, (l, .row cfg.clientId w) ∈ es) ∨
        (w = ascii "0.0.0" ∧ cfg.clientId ∉ tableIds es))) ∨
    (w = ascii "0.0.0" ∧ fs.disk .table = none)
  failure : Unread failed → r = none

/-! ### The table's word -/

theorem acceptLines_nodup {ls : List (Bytes × Bool)} {seen : List Bytes}
    {es : List (Bytes × TableLine)} (hseen : seen.Nodup) (h : acceptLines seen ls = some es) :
    (seen ++ tableIds es).Nodup := by
  induction ls generalizing seen es with
  | nil =>
      cases h
      rwa [tableIds, List.append_nil]
  | cons l ls ih =>
      obtain ⟨raw, eof⟩ := l
      cases ha : acceptLine seen (cstr raw) eof with
      | none =>
          rw [acceptLines_cons_none ha] at h
          cases h
      | some a =>
          obtain ⟨t, seen'⟩ := a
          rw [acceptLines_cons_some ha] at h
          obtain ⟨fs, hfs, rfl⟩ := Option.map_eq_some_iff.mp h
          obtain ⟨-, -, ht⟩ := acceptLine_some.mp ha
          cases t with
          | note =>
              obtain rfl : seen' = seen := ht
              have hall := ih hseen hfs
              exact hall
          | row id v =>
              obtain ⟨hid, -, rfl⟩ := ht
              have hnext : (seen ++ [id]).Nodup :=
                List.nodup_append_comm.mpr (List.nodup_cons.mpr ⟨hid, hseen⟩)
              have hall := ih hnext hfs
              rwa [List.append_assoc] at hall

/-- What a table is read to say of a client is the client's row, or that there is none. -/
theorem readVersion_some {id c w : Bytes} (h : readVersion id (some c) = some w) :
    ∃ es, acceptLines [] (textLines 254 c) = some es ∧ (tableIds es).Nodup ∧
      ((∃ l, (l, .row id w) ∈ es) ∨ (w = ascii "0.0.0" ∧ id ∉ tableIds es)) := by
  obtain ⟨es, hes, hw⟩ := Option.map_eq_some_iff.mp h
  have hnd : (tableIds es).Nodup := acceptLines_nodup List.nodup_nil hes
  refine ⟨es, hes, hnd, ?_⟩
  by_cases hmem : id ∈ tableIds es
  · obtain ⟨l, v, hrow⟩ := mem_tableIds.mp hmem
    rw [rowVersion_of_mem hrow hnd] at hw
    cases hw
    exact .inl ⟨l, hrow⟩
  · rw [rowVersion_of_not_mem hmem] at hw
    exact .inr ⟨hw.symm, hmem⟩

/-! ### The loop -/

/-- What the lines left to read say, after those read. -/
def readOn (id : Bytes) (st : List Bytes × Option Bytes) (text : Bytes) : Option Bytes :=
  (acceptLines st.1 (textLines 254 text)).map fun es =>
    (rowVersion id st.2 es).getD (ascii "0.0.0")

/-- A round of the loop: a line less, or the result, or a read that fails and passes for the end
of the table. -/
theorem versionRound_observed {cfg : ClientConfig} {fp : Handle} {st : List Bytes × Option Bytes}
    {x : Observed Path} {text : Bytes} (hr : x.files.Reading fp text) (hx : x.failed = []) :
    Safe (observed Path) (fun _ _ => True)
      (fun r y => r.elim
        (fun st' => y.failed = [] ∧ ∃ rest, y.files.Reading fp rest ∧
          readOn cfg.clientId st' rest = readOn cfg.clientId st text)
        fun r => (y.failed = [] ∧ r = readOn cfg.clientId st text) ∨
          (Unread y.failed ∧ r ≠ none))
      (versionRound cfg fp st) x := by
  rw [versionRound, fgetsText, Prog.call_bind]
  refine safe_call fun r y hn => ?_
  rcases hn.fgets hr with ⟨rfl, rfl, -, hf⟩ | ⟨raw, eof, rest, rfl, htext, hr', -, hf⟩ |
      ⟨rfl, -, -, p, hf⟩
  · refine safe_ret (.inl ⟨hf.trans hx, ?_⟩)
    rw [readOn, textLines_nil]
    rfl
  · simp only [Prog.ret_bind]
    cases ha : acceptLine st.1 (cstr raw) eof with
    | none =>
        refine safe_ret (.inl ⟨hf.trans hx, ?_⟩)
        rw [readOn, htext, acceptLines_cons_none ha]
        rfl
    | some a =>
        obtain ⟨t, seen⟩ := a
        cases t with
        | note =>
            refine safe_ret ⟨hf.trans hx, rest, hr', ?_⟩
            rw [readOn, readOn, htext, acceptLines_cons_some ha, Option.map_map]
            rfl
        | row id v =>
            obtain ⟨-, hl, -⟩ := acceptLine_some.mp ha
            refine safe_ret ⟨hf.trans hx, rest, hr', ?_⟩
            rw [readOn, readOn, htext, acceptLines_cons_some ha, Option.map_map,
              snprintf_of_lt (lineEntry_row hl).2.2.1]
            rfl
  · refine safe_ret (.inr ⟨⟨(.fgets fp 256, p), ?_, trivial⟩, Option.some_ne_none _⟩)
    rw [hf, hx]
    exact List.mem_singleton_self _

/-- The loop: the table's word, or something after a read that failed. -/
theorem versionLoop_observed {cfg : ClientConfig} {fp : Handle} (bound : ℕ) {x : Observed Path}
    {c : Bytes} (hr : x.files.Reading fp c) (hx : x.failed = []) :
    Safe (observed Path) (fun _ _ => True)
      (fun r y => (y.failed = [] ∧ r = readVersion cfg.clientId (some c)) ∨
        (Unread y.failed ∧ r ≠ none))
      (Prog.iterate bound (versionRound cfg fp) ([], none)) x := by
  refine safe_loop _ trivial (fun st y => y.failed = [] ∧ ∃ text, y.files.Reading fp text ∧
    readOn cfg.clientId st text = readVersion cfg.clientId (some c)) ?_ bound ⟨hx, c, hr, rfl⟩
  rintro st y ⟨hy, text, hreading, hword⟩
  refine (versionRound_observed hreading hy).post fun r z hz => ?_
  cases r with
  | inl st' =>
      obtain ⟨hf, rest, hrest, hsame⟩ := hz
      exact ⟨hf, rest, hrest, hsame.trans hword⟩
  | inr r =>
      rw [hword] at hz
      rintro _ rfl
      exact hz

/-! ### The whole function -/

/-- A result that is the table's word is honest. -/
theorem honest_of_read {cfg : ClientConfig} {fs : FileSystem Path} {c : Bytes}
    {failed : List (FileOp Path × Option Path)} (hc : fs.disk .table = some c)
    (hread : ¬ Unread failed) : Honest cfg fs failed (readVersion cfg.clientId (some c)) where
  version w hw := by
    obtain ⟨es, hes, hnd, hrow⟩ := readVersion_some hw
    exact .inl ⟨c, es, hc, hread, hes, hnd, hrow⟩
  failure h := absurd h hread

/-- A version that is reported though the table was not read is not. -/
theorem not_honest_of_unread {cfg : ClientConfig} {fs : FileSystem Path}
    {failed : List (FileOp Path × Option Path)} {r : Option Bytes} (h : Unread failed)
    (hr : r ≠ none) : ¬ Honest cfg fs failed r :=
  fun hh => hr (hh.failure h)

theorem unread_append {failed : List (FileOp Path × Option Path)} {o : FileOp Path}
    {p : Option Path} (ho : ¬ ReadingOp o) : Unread (failed ++ [(o, p)]) ↔ Unread failed := by
  constructor
  · rintro ⟨f, hf, hop⟩
    rcases List.mem_append.mp hf with hf | hf
    · exact ⟨f, hf, hop⟩
    · rw [List.mem_singleton.mp hf] at hop
      exact absurd hop ho
  · rintro ⟨f, hf, hop⟩
    exact ⟨f, List.mem_append_left _ hf, hop⟩

/-- What does not read the table leaves it as well read as before. -/
theorem unread_noted {x y : Observed Path} {o : FileOp Path} {r : FileOp.Res o}
    (hn : x.Noted o r y) (ho : ¬ ReadingOp o) : Unread y.failed ↔ Unread x.failed := by
  rcases hn.failed with ⟨-, h⟩ | ⟨-, h⟩
  · rw [h]
  · rw [h, unread_append ho]

/-- Every result is honest, or comes after a failure that it does not admit. -/
theorem getCurrentVersion_observed {cfg : ClientConfig} (hcur : cfg.currentVersion = [])
    (bound : ℕ) (fs : FileSystem Path) :
    Safe (observed Path) (fun _ _ => True)
      (fun r y => Honest cfg fs y.failed r ↔ ¬ Unread y.failed)
      (getCurrentVersion bound cfg) (.start fs) := by
  rw [getCurrentVersion, if_neg (not_not.mpr hcur)]
  simp only [Prog.call_bind, Prog.ret_bind]
  refine safe_call fun fd x hlock => ?_
  have hfs : x.files = fs := FileSystem.may_lock hlock.may
  cases fd with
  | none =>
      have hf : x.failed = [(.lock .tableLock, some .tableLock)] :=
        hlock.is_failed (Option.some_ne_none _).symm
      have hunread : Unread x.failed :=
        ⟨(.lock .tableLock, some .tableLock), hf ▸ List.mem_singleton_self _, trivial⟩
      exact safe_ret (iff_of_false (not_honest_of_unread hunread (Option.some_ne_none _))
        (not_not.mpr hunread))
  | some fd =>
      have hx : x.failed = [] := by
        refine (hlock.not_failed ?_).trans rfl
        exact (FileSystem.may_lock_res hlock.may).resolve_left (Option.some_ne_none fd)
      refine safe_call fun fp y hopen => ?_
      rcases hopen.fopen_r with ⟨rfl, -, hc, hf⟩ | ⟨rfl, -, hc, hf⟩ |
          ⟨fp, c, rfl, hc, hreading, hd, hf⟩
      · -- there is no table
        rw [hfs] at hc
        refine safe_call fun _ z hunlock => safe_ret ?_
        have hread : ¬ Unread z.failed := by
          rw [unread_noted hunlock id, hf, hx]
          rintro ⟨_, h, -⟩
          cases h
        refine iff_of_true ⟨?_, fun h => absurd h hread⟩ hread
        rintro w ⟨⟩
        exact .inr ⟨rfl, hc⟩
      · refine safe_call fun _ z hunlock => safe_ret ?_
        have hunread : Unread z.failed := by
          rw [unread_noted hunlock id, hf]
          exact ⟨(.fopen .table .r, some .table), List.mem_append_right _ (List.mem_singleton_self _),
            trivial⟩
        exact iff_of_false (not_honest_of_unread hunread (Option.some_ne_none _))
          (not_not.mpr hunread)
      · rw [hfs] at hc
        refine safe_bind.mpr ((versionLoop_observed bound hreading (hf.trans hx)).post fun r z hz => ?_)
        refine safe_call fun _ u hclose => safe_call fun _ v hunlock => safe_ret ?_
        have hsame : Unread v.failed ↔ Unread z.failed :=
          (unread_noted hunlock id).trans (unread_noted hclose id)
        rcases hz with ⟨hz, rfl⟩ | ⟨hunread, hr⟩
        · have hread : ¬ Unread v.failed := by
            rw [hsame, hz]
            rintro ⟨_, h, -⟩
            cases h
          exact iff_of_true (honest_of_read hc hread) hread
        · exact iff_of_false (not_honest_of_unread (hsame.mpr hunread) hr)
            (not_not.mpr (hsame.mpr hunread))

/-- **The version is not invented**, exactly in the runs in which the lock is had, an existing
table opens and no read of it fails. -/
theorem current_version_honest_iff {cfg : ClientConfig} (hcur : cfg.currentVersion = [])
    {bound : ℕ} {fs : FileSystem Path} {r : Option Bytes} {y : Observed Path}
    (hrun : Run (observed Path) (getCurrentVersion bound cfg, .start fs) (.ret r, y)) :
    Honest cfg fs y.failed r ↔ ¬ Unread y.failed :=
  ((getCurrentVersion_observed hcur bound fs).run hrun).result

/-- A table with the client's row. -/
def tableOne : FileSystem Path := .only .table (ascii "client_001=1.0.0\n")

/-- Everything succeeds. -/
def allRead : List (Call (stdio Path)) :=
  [⟨.lock .tableLock, some 0⟩, ⟨.fopen .table .r, some 0⟩,
    ⟨.fgets 0 256, some (ascii "client_001=1.0.0\n", false)⟩, ⟨.fgets 0 256, none⟩,
    ⟨.fclose 0, true⟩, ⟨.unlock 0, ()⟩]

theorem current_version_honest_read : ∃ y,
    Run (observed Path) (getCurrentVersion 2 .client001, .start tableOne)
      (.ret (some (ascii "1.0.0")), y) ∧
    (Honest .client001 tableOne y.failed (some (ascii "1.0.0")) ↔ ¬ Unread y.failed) := by
  have hreplay : (getCurrentVersion 2 .client001).replay allRead = some (.ret (some (ascii "1.0.0"))) :=
    Prog.replay_ret (by decide +kernel)
  have hallows : (observed Path).Allows (.start tableOne) allRead _ :=
    ⟨_, .ok _ _, _, .ok _ _, _, .ok _ _, _, .ok _ _, _, .ok _ _, _, .ok _ _, rfl⟩
  have hrun := hallows.run hreplay
  exact ⟨_, hrun, current_version_honest_iff rfl hrun⟩

/-- The first read fails. -/
def noneRead : List (Call (stdio Path)) :=
  [⟨.lock .tableLock, some 0⟩, ⟨.fopen .table .r, some 0⟩, ⟨.fgets 0 256, none⟩,
    ⟨.fclose 0, true⟩, ⟨.unlock 0, ()⟩]

/-- A read that fails passes for the end of the table. -/
theorem read_error_invents_version : ∃ y,
    Run (observed Path) (getCurrentVersion 1 .client001, .start tableOne)
      (.ret (some (ascii "0.0.0")), y) ∧
    ¬ Honest .client001 tableOne y.failed (some (ascii "0.0.0")) := by
  have hreplay : (getCurrentVersion 1 .client001).replay noneRead = some (.ret (some (ascii "0.0.0"))) :=
    Prog.replay_ret (by decide +kernel)
  have hallows : (observed Path).Allows (.start tableOne) noneRead _ :=
    ⟨_, .ok _ _, _, .ok _ _, _, .fault (.fgets _ _) nofun, _, .ok _ _, _, .ok _ _, rfl⟩
  exact ⟨_, hallows.run hreplay, not_honest_of_unread
    ⟨_, List.mem_append_right _ (List.mem_singleton_self _), trivial⟩ (Option.some_ne_none _)⟩

end UpdateFramework
