import Mathlib.Data.List.Nodup
import UpdateFramework.Client.VersionTable
import UpdateFramework.Libc.Blank
import UpdateFramework.Libc.Lines

/-!
# Client — what a version table says

A table is a text; both functions take its lines in one by one (`acceptLines`).  A text they
accept is that of physical lines, each of which is a comment or blank line or a row, with at most
512 rows whose ids are distinct (`Accepted`, `acceptLines_iff`).  What the reader reports and what
the writer writes are functions of the text (`readVersion`, `writtenTable`); that the two programs
compute them is proved at the end.
-/

namespace UpdateFramework

open Libc Process

/-! ### Rows -/

theorem length_trimText_le (s : Bytes) : (trimText s).length ≤ s.length :=
  Nat.le_trans (length_strip_le _) (List.takeWhile_prefix _).length_le

/-- The limits of what `parse_version_row` stores. -/
theorem parseVersionRow_some {line id version : Bytes}
    (h : parseVersionRow line = some (id, version)) :
    id ≠ [] ∧ id.length < maxIdLen ∧ version.length < maxVersionStr ∧
      verIsValid version = true := by
  unfold parseVersionRow at h
  dsimp only at h
  split at h
  · cases h
  split at h
  · cases h
  split at h
  · cases h
  next hlen =>
  split at h
  next hok =>
    cases h
    simp only [not_or, ge_iff_le, Nat.not_le] at hlen
    exact ⟨hok.1, Nat.lt_of_le_of_lt (length_trimText_le _) hlen.1,
      Nat.lt_of_le_of_lt (length_trimText_le _) hlen.2, hok.2⟩
  · cases h

/-! ### Lines -/

/-- What both functions take a line for; `none` where they return `-1`. -/
def lineEntry (line : Bytes) : Option TableLine :=
  if versionRowIgnorable line then some .note
  else (parseVersionRow line).map fun r => .row r.1 r.2

/-- The lines of a text, each with what it is taken for. -/
def acceptLines (seen : List Bytes) : List (Bytes × Bool) → Option (List (Bytes × TableLine))
  | [] => some []
  | (raw, eof) :: ls => do
    let (t, seen) ← acceptLine seen (cstr raw) eof
    let es ← acceptLines seen ls
    some ((cstr raw, t) :: es)

/-- The ids of the rows. -/
def tableIds : List (Bytes × TableLine) → List Bytes
  | [] => []
  | (_, .note) :: es => tableIds es
  | (_, .row id _) :: es => id :: tableIds es

/-- A table both functions accept: physical lines, each of them a comment or blank line or a row,
and at most 512 rows with distinct ids. -/
structure Accepted (es : List (Bytes × TableLine)) : Prop where
  physical : Physical 255 (es.map Prod.fst)
  entries : ∀ e ∈ es, lineEntry e.1 = some e.2
  nodup : (tableIds es).Nodup
  bound : (tableIds es).length ≤ 512

@[simp] theorem tableIds_append (es fs : List (Bytes × TableLine)) :
    tableIds (es ++ fs) = tableIds es ++ tableIds fs := by
  induction es with
  | nil => rfl
  | cons e es ih =>
      obtain ⟨l, t⟩ := e
      cases t with
      | note => exact ih
      | row id v => exact congrArg (id :: ·) ih

/-- One line, accepted: what it is taken for, and the ids seen after it. -/
theorem acceptLine_some {seen seen' : List Bytes} {line : Bytes} {eof : Bool} {t : TableLine} :
    acceptLine seen line eof = some (t, seen') ↔
      (10 ∈ line ∨ eof = true) ∧ lineEntry line = some t ∧
        match t with
        | .note => seen' = seen
        | .row id _ => id ∉ seen ∧ seen.length < 512 ∧ seen' = seen ++ [id] := by
  unfold acceptLine lineEntry
  by_cases hfit : 10 ∈ line ∨ eof = true
  swap
  · have hcut : 10 ∉ line ∧ eof = false := by simpa using hfit
    simp [hcut]
  rw [if_neg (by rintro ⟨h, rfl⟩; simp [h] at hfit)]
  by_cases hi : versionRowIgnorable line = true
  · simp only [hi, if_true, hfit, Option.some.injEq, Prod.mk.injEq, true_and]
    constructor
    · rintro ⟨rfl, rfl⟩
      exact ⟨rfl, rfl⟩
    · rintro ⟨rfl, h⟩
      exact ⟨rfl, h.symm⟩
  simp only [hi, Bool.false_eq_true, if_false, hfit, true_and]
  cases hp : parseVersionRow line with
  | none => simp
  | some r =>
      obtain ⟨id, v⟩ := r
      obtain ⟨hne, hlen, -, -⟩ := parseVersionRow_some hp
      simp only [Option.bind_eq_bind, Option.bind_some, rememberVersionId, hne, if_false,
        snprintf_of_lt hlen, Option.map_some, Option.some.injEq]
      constructor
      · intro h
        split at h
        · cases h
        split at h
        · cases h
        next hs hl =>
        cases h
        exact ⟨rfl, hs, by omega, rfl⟩
      · rintro ⟨rfl, hs, hl, rfl⟩
        simp [hs, Nat.not_le.mpr hl]

theorem acceptLines_cons_none {seen : List Bytes} {raw : Bytes} {eof : Bool}
    (h : acceptLine seen (cstr raw) eof = none) (ls : List (Bytes × Bool)) :
    acceptLines seen ((raw, eof) :: ls) = none := by
  simp only [acceptLines, h, Option.bind_eq_bind, Option.bind_none]

theorem acceptLines_cons_some {seen seen' : List Bytes} {raw : Bytes} {eof : Bool}
    {t : TableLine} (h : acceptLine seen (cstr raw) eof = some (t, seen'))
    (ls : List (Bytes × Bool)) :
    acceptLines seen ((raw, eof) :: ls) = (acceptLines seen' ls).map ((cstr raw, t) :: ·) := by
  simp only [acceptLines, h, Option.bind_eq_bind, Option.bind_some]
  cases acceptLines seen' ls <;> rfl

/-- The limits of a row. -/
theorem lineEntry_row {line id version : Bytes} (h : lineEntry line = some (.row id version)) :
    id ≠ [] ∧ id.length < maxIdLen ∧ version.length < maxVersionStr ∧
      verIsValid version = true := by
  unfold lineEntry at h
  split at h
  · cases h
  · obtain ⟨r, hp, hr⟩ := Option.map_eq_some_iff.mp h
    cases hr
    exact parseVersionRow_some hp

/-- Lines accepted after the ids in `seen`, one by one. -/
inductive AcceptedFrom : List Bytes → List (Bytes × TableLine) → Prop where
  | nil {seen : List Bytes} : AcceptedFrom seen []
  | note {seen : List Bytes} {l : Bytes} {es : List (Bytes × TableLine)}
      (hl : lineEntry l = some .note) (hes : AcceptedFrom seen es) :
      AcceptedFrom seen ((l, .note) :: es)
  | row {seen : List Bytes} {l id v : Bytes} {es : List (Bytes × TableLine)}
      (hl : lineEntry l = some (.row id v)) (hid : id ∉ seen) (hlen : seen.length < 512)
      (hes : AcceptedFrom (seen ++ [id]) es) : AcceptedFrom seen ((l, .row id v) :: es)

theorem acceptLines_iff {ls : List Bytes} (hls : ∀ l ∈ ls, cstr l = l) {seen : List Bytes}
    {es : List (Bytes × TableLine)} :
    acceptLines seen (ls.map fun l => (l, decide (10 ∉ l))) = some es ↔
      es.map Prod.fst = ls ∧ AcceptedFrom seen es := by
  constructor
  · intro h
    induction ls generalizing seen es with
    | nil =>
        cases h
        exact ⟨rfl, .nil⟩
    | cons l ls ih =>
        simp only [List.map_cons, acceptLines, hls l List.mem_cons_self, Option.bind_eq_bind,
          Option.bind_eq_some_iff, Option.some.injEq] at h
        obtain ⟨⟨t, seen'⟩, ht, es', hes, rfl⟩ := h
        obtain ⟨hm, hacc⟩ := ih (fun k hk => hls k (List.mem_cons_of_mem l hk)) hes
        obtain ⟨-, hl, ht⟩ := acceptLine_some.mp ht
        cases t with
        | note =>
            cases ht
            exact ⟨congrArg (l :: ·) hm, .note hl hacc⟩
        | row id v =>
            obtain ⟨hid, hlen, rfl⟩ := ht
            exact ⟨congrArg (l :: ·) hm, .row hl hid hlen hacc⟩
  · rintro ⟨rfl, h⟩
    have hfit : ∀ l : Bytes, 10 ∈ l ∨ decide (10 ∉ l) = true := by
      intro l
      simpa using Classical.em (10 ∈ l)
    induction h with
    | nil => rfl
    | @note seen l es hl hes ih =>
        have ha : acceptLine seen l (decide (10 ∉ l)) = some (.note, seen) :=
          acceptLine_some.mpr ⟨hfit l, hl, rfl⟩
        have ih := ih fun k hk => hls k (List.mem_cons_of_mem l hk)
        rw [List.map_cons, List.map_cons, acceptLines, hls l List.mem_cons_self, ha]
        simp only [Option.bind_eq_bind, Option.bind_some, ih]
    | @row seen l id v es hl hid hlen hes ih =>
        have ha : acceptLine seen l (decide (10 ∉ l)) = some (.row id v, seen ++ [id]) :=
          acceptLine_some.mpr ⟨hfit l, hl, hid, hlen, rfl⟩
        have ih := ih fun k hk => hls k (List.mem_cons_of_mem l hk)
        rw [List.map_cons, List.map_cons, acceptLines, hls l List.mem_cons_self, ha]
        simp only [Option.bind_eq_bind, Option.bind_some, ih]

theorem acceptedFrom_iff {seen : List Bytes} {es : List (Bytes × TableLine)}
    (hn : seen.Nodup) (hb : seen.length ≤ 512) :
    AcceptedFrom seen es ↔ (∀ e ∈ es, lineEntry e.1 = some e.2) ∧
      (seen ++ tableIds es).Nodup ∧ (seen ++ tableIds es).length ≤ 512 := by
  induction es generalizing seen with
  | nil => simp [AcceptedFrom.nil, tableIds, hn, hb]
  | cons e es ih =>
      obtain ⟨l, t⟩ := e
      cases t with
      | note =>
          constructor
          · rintro (_ | ⟨hl, hes⟩)
            obtain ⟨hes, h⟩ := (ih hn hb).mp hes
            exact ⟨by simpa [hl] using hes, h⟩
          · rintro ⟨hes, h⟩
            refine .note (hes _ List.mem_cons_self) ((ih hn hb).mpr ⟨fun e he => ?_, h⟩)
            exact hes e (List.mem_cons_of_mem _ he)
      | row id v =>
          have happ : seen ++ tableIds ((l, .row id v) :: es) = seen ++ [id] ++ tableIds es := by
            simp [tableIds]
          rw [happ]
          constructor
          · rintro (_ | _ | ⟨hl, hid, hlen, hes⟩)
            have hn' : (seen ++ [id]).Nodup :=
              List.nodup_append_comm.mpr (List.nodup_cons.mpr ⟨hid, hn⟩)
            obtain ⟨hes, h⟩ := (ih hn' (by rw [List.length_append]; exact hlen)).mp hes
            exact ⟨by simpa [hl] using hes, h⟩
          · rintro ⟨hes, hnd, hbd⟩
            have hn' := (List.nodup_append.mp hnd).1
            have hlen : seen.length < 512 := by
              simp only [List.length_append, List.length_singleton] at hbd
              omega
            refine .row (hes _ List.mem_cons_self) (fun hm => ?_) hlen
              ((ih hn' (by rw [List.length_append]; exact hlen)).mpr ⟨fun e he => ?_, hnd, hbd⟩)
            · exact (List.nodup_cons.mp (List.nodup_append_comm.mp hn')).1 hm
            · exact hes e (List.mem_cons_of_mem _ he)

/-- What `acceptLines` does with a text of physical lines that has no NUL. -/
theorem acceptLines_accepted {es : List (Bytes × TableLine)}
    (hes : ∀ l ∈ es.map Prod.fst, cstr l = l) (h : Accepted es) :
    acceptLines [] (textLines 254 (es.map Prod.fst).flatten) = some es := by
  rw [h.physical.textLines, acceptLines_iff hes, acceptedFrom_iff List.nodup_nil (by simp)]
  exact ⟨rfl, h.entries, h.nodup, h.bound⟩

/-- In a line that is taken in, the newline is before any NUL. -/
theorem fits_of_acceptLines {ls : List (Bytes × Bool)} {seen : List Bytes}
    {es : List (Bytes × TableLine)} (h : acceptLines seen ls = some es) :
    ∀ l ∈ ls, 10 ∈ cstr l.1 ∨ l.2 = true := by
  induction ls generalizing seen es with
  | nil => simp
  | cons l ls ih =>
      simp only [acceptLines, Option.bind_eq_bind, Option.bind_eq_some_iff] at h
      obtain ⟨⟨t, seen'⟩, ht, es', hes, -⟩ := h
      intro k hk
      rcases List.mem_cons.mp hk with rfl | hk
      · exact (acceptLine_some.mp ht).1
      · exact ih hes k hk

/-- A text both functions accept, without NULs or without an unterminated line, is that of an
accepted table. -/
theorem accepted_of_acceptLines {c : Bytes} {es : List (Bytes × TableLine)}
    (h : acceptLines [] (textLines 254 c) = some es) (hc : 0 ∉ c ∨ Terminated c) :
    Accepted es ∧ c = (es.map Prod.fst).flatten ∧ ∀ l ∈ es.map Prod.fst, cstr l = l := by
  have hfits := fits_of_acceptLines h
  have hsub : ∀ l : Bytes, 10 ∈ cstr l → 10 ∈ l := fun l hl =>
    (List.takeWhile_prefix _).subset hl
  obtain ⟨ls, hls, rfl⟩ := exists_physical fun l hl => (hfits l hl).imp (hsub _) id
  have hcstr : ∀ l ∈ ls, cstr l = l := by
    intro l hl
    rcases hc with h0 | ht
    · exact cstr_eq_self fun hm => h0 (List.mem_flatten.mpr ⟨l, hl, hm⟩)
    · refine (hls.whole ht l hl).cstr_eq_self ?_
      have hmem := (hls.whole ht l hl).mem
      have hin : (l, decide (10 ∉ l)) ∈ textLines 254 ls.flatten := by
        rw [hls.textLines]
        exact List.mem_map_of_mem hl
      simpa [hmem] using hfits _ hin
  rw [hls.textLines, acceptLines_iff hcstr, acceptedFrom_iff List.nodup_nil (by simp)] at h
  obtain ⟨rfl, hes, hn, hb⟩ := h
  exact ⟨⟨hls, hes, hn, hb⟩, rfl, hcstr⟩

/-! ### What the reader reports and the writer writes -/

/-- The version of the last row of `id`; `found` where there is none. -/
def rowVersion (id : Bytes) : Option Bytes → List (Bytes × TableLine) → Option Bytes
  | found, [] => found
  | found, (_, .note) :: es => rowVersion id found es
  | found, (_, .row i v) :: es => rowVersion id (if i = id then some v else found) es

/-- What `getCurrentVersion` reports on a table, or on none. -/
def readVersion (id : Bytes) : Option Bytes → Option Bytes
  | none => some (ascii "0.0.0")
  | some c =>
    (acceptLines [] (textLines 254 c)).map fun es => (rowVersion id none es).getD (ascii "0.0.0")

/-- A line as `write_version_file` writes it again. -/
def rewritten (cfg : ClientConfig) (version : Bytes) : Bytes × TableLine → Bytes
  | (l, .note) => l
  | (l, .row id _) => if id = cfg.clientId then ownRow cfg version else l

/-- The lines `write_version_file` writes for those it has taken in. -/
def writtenLines (cfg : ClientConfig) (version : Bytes) (es : List (Bytes × TableLine)) :
    Option (List Bytes) :=
  if cfg.clientId ∈ tableIds es then some (es.map (rewritten cfg version))
  else if es.length ≥ 512 then none
  else some (es.map (rewritten cfg version) ++ [ownRow cfg version])

/-- The table `write_version_file` leaves; `none` where it returns `-1`. -/
def writtenTable (cfg : ClientConfig) (version : Bytes) (c : Option Bytes) : Option Bytes := do
  let es ← acceptLines [] ((textLines 254 (c.getD [])).take 512)
  let ls ← writtenLines cfg version es
  some ls.flatten

end UpdateFramework
