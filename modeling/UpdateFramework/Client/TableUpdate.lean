import UpdateFramework.Client.TableRows
import UpdateFramework.Client.TableRun

/-!
# Client — an accepted table, updated

What `write_version_file` does to the lines of an accepted table: the client's row is replaced
(`Accepted.updated`), or added where nothing is unterminated (`Accepted.added`).  Both tables are
accepted again, and say what they said before of every other id.
-/

namespace UpdateFramework

open Libc

/-! ### Rows of a table -/

theorem rowVersion_append (id : Bytes) (found : Option Bytes) (es fs : List (Bytes × TableLine)) :
    rowVersion id found (es ++ fs) = rowVersion id (rowVersion id found es) fs := by
  induction es generalizing found with
  | nil => rfl
  | cons e es ih =>
      obtain ⟨l, t⟩ := e
      cases t with
      | note => exact ih found
      | row i w => exact ih _

theorem rowVersion_of_not_mem {id : Bytes} {es : List (Bytes × TableLine)}
    (h : id ∉ tableIds es) (found : Option Bytes) : rowVersion id found es = found := by
  induction es generalizing found with
  | nil => rfl
  | cons e es ih =>
      obtain ⟨l, t⟩ := e
      cases t with
      | note => exact ih h found
      | row i w =>
          simp only [tableIds, List.mem_cons, not_or] at h
          rw [rowVersion, if_neg (Ne.symm h.1), ih h.2]

/-- A line with what it is taken for, after `write_version_file`. -/
def updated (cfg : ClientConfig) (version : Bytes) : Bytes × TableLine → Bytes × TableLine
  | (l, .note) => (l, .note)
  | (l, .row id w) =>
    if id = cfg.clientId then (ownRow cfg version, .row id version) else (l, .row id w)

theorem updated_fst (cfg : ClientConfig) (version : Bytes) (e : Bytes × TableLine) :
    (updated cfg version e).1 = rewritten cfg version e := by
  obtain ⟨l, t⟩ := e
  cases t with
  | note => rfl
  | row i w => by_cases h : i = cfg.clientId <;> simp [updated, rewritten, h]

@[simp] theorem tableIds_updated (cfg : ClientConfig) (version : Bytes)
    (es : List (Bytes × TableLine)) : tableIds (es.map (updated cfg version)) = tableIds es := by
  induction es with
  | nil => rfl
  | cons e es ih =>
      obtain ⟨l, t⟩ := e
      cases t with
      | note => exact ih
      | row i w => by_cases h : i = cfg.clientId <;> simp [updated, tableIds, h, ih]

theorem rowVersion_updated {cfg : ClientConfig} {version : Bytes} {es : List (Bytes × TableLine)}
    (h : cfg.clientId ∈ tableIds es) (found : Option Bytes) :
    rowVersion cfg.clientId found (es.map (updated cfg version)) = some version := by
  induction es generalizing found with
  | nil => simp [tableIds] at h
  | cons e es ih =>
      obtain ⟨l, t⟩ := e
      cases t with
      | note => exact ih h found
      | row i w =>
          by_cases hmem : cfg.clientId ∈ tableIds es
          · by_cases hi : i = cfg.clientId <;> simp [updated, rowVersion, hi, ih hmem]
          · have hi : cfg.clientId = i := by simpa [tableIds, hmem] using h
            simp [updated, rowVersion, ← hi, rowVersion_of_not_mem, hmem]

/-- The version of the only row of an id. -/
theorem rowVersion_of_mem {id l w : Bytes} {es : List (Bytes × TableLine)}
    (h : (l, .row id w) ∈ es) (hn : (tableIds es).Nodup) (found : Option Bytes) :
    rowVersion id found es = some w := by
  obtain ⟨fs, gs, rfl⟩ := List.append_of_mem h
  rw [tableIds_append] at hn
  have hgs : id ∉ tableIds gs := (List.nodup_cons.mp (List.nodup_append.mp hn).2.1).1
  rw [rowVersion_append, rowVersion, if_pos rfl, rowVersion_of_not_mem hgs]

/-- The update leaves the versions of all other ids. -/
theorem rowVersion_updated_of_ne {cfg : ClientConfig} {x : Bytes} (hx : x ≠ cfg.clientId)
    (version : Bytes) (es : List (Bytes × TableLine)) (found : Option Bytes) :
    rowVersion x found (es.map (updated cfg version)) = rowVersion x found es := by
  induction es generalizing found with
  | nil => rfl
  | cons e es ih =>
      obtain ⟨l, t⟩ := e
      cases t with
      | note => exact ih found
      | row i w =>
          by_cases hi : i = cfg.clientId
          · have hne : i ≠ x := fun h => hx (h ▸ hi)
            simp [updated, rowVersion, hi, Ne.symm hx, ih]
          · simp [updated, rowVersion, hi, ih]

theorem map_rewritten_of_not_mem {cfg : ClientConfig} {version : Bytes}
    {es : List (Bytes × TableLine)} (h : cfg.clientId ∉ tableIds es) :
    es.map (rewritten cfg version) = es.map Prod.fst := by
  induction es with
  | nil => rfl
  | cons e es ih =>
      obtain ⟨l, t⟩ := e
      cases t with
      | note => exact congrArg (l :: ·) (ih h)
      | row i w =>
          simp only [tableIds, List.mem_cons, not_or] at h
          simp [rewritten, Ne.symm h.1, ih h.2]

theorem length_tableIds_le (es : List (Bytes × TableLine)) :
    (tableIds es).length ≤ es.length := by
  induction es with
  | nil => exact Nat.le_refl 0
  | cons e es ih =>
      obtain ⟨l, t⟩ := e
      cases t with
      | note => exact Nat.le_succ_of_le ih
      | row i w => exact Nat.succ_le_succ ih

/-! ### Accepted tables -/

theorem tableIds_take_sublist (es : List (Bytes × TableLine)) (k : ℕ) :
    (tableIds (es.take k)).Sublist (tableIds es) := by
  conv_rhs => rw [← List.take_append_drop k es, tableIds_append]
  exact List.sublist_append_left _ _

theorem Accepted.take {es : List (Bytes × TableLine)} (h : Accepted es) (k : ℕ) :
    Accepted (es.take k) where
  physical := by
    rw [List.map_take]
    exact h.physical.take k
  entries e he := h.entries e (List.mem_of_mem_take he)
  nodup := h.nodup.sublist (tableIds_take_sublist es k)
  bound := Nat.le_trans (tableIds_take_sublist es k).length_le h.bound

theorem acceptLines_take {ls : List (Bytes × Bool)} {seen : List Bytes}
    {es : List (Bytes × TableLine)} (h : acceptLines seen ls = some es) (k : ℕ) :
    acceptLines seen (ls.take k) = some (es.take k) := by
  induction ls generalizing seen es k with
  | nil =>
      cases h
      simp [acceptLines]
  | cons l ls ih =>
      obtain ⟨raw, eof⟩ := l
      cases k with
      | zero => simp [acceptLines]
      | succ k =>
          cases ha : acceptLine seen (cstr raw) eof with
          | none =>
              rw [acceptLines_cons_none ha] at h
              cases h
          | some a =>
              obtain ⟨t, seen'⟩ := a
              rw [acceptLines_cons_some ha] at h
              obtain ⟨es', hes, rfl⟩ := Option.map_eq_some_iff.mp h
              rw [List.take_succ_cons, acceptLines_cons_some ha, ih hes]
              rfl

theorem acceptLines_append {ls ms : List (Bytes × Bool)} {seen : List Bytes}
    {es : List (Bytes × TableLine)} (h : acceptLines seen ls = some es) :
    acceptLines seen (ls ++ ms) = (acceptLines (seen ++ tableIds es) ms).map (es ++ ·) := by
  induction ls generalizing seen es with
  | nil =>
      cases h
      simp [tableIds]
  | cons l ls ih =>
      obtain ⟨raw, eof⟩ := l
      cases ha : acceptLine seen (cstr raw) eof with
      | none =>
          rw [acceptLines_cons_none ha] at h
          cases h
      | some a =>
          obtain ⟨t, seen'⟩ := a
          rw [acceptLines_cons_some ha] at h
          obtain ⟨es', hes, rfl⟩ := Option.map_eq_some_iff.mp h
          have hseen : seen' ++ tableIds es' = seen ++ tableIds ((cstr raw, t) :: es') := by
            obtain ⟨-, -, ht⟩ := acceptLine_some.mp ha
            cases t with
            | note =>
                cases ht
                rfl
            | row i w =>
                obtain ⟨-, -, rfl⟩ := ht
                simp [tableIds]
          rw [List.cons_append, acceptLines_cons_some ha, ih hes, hseen, Option.map_map]
          rfl

theorem length_of_acceptLines {ls : List (Bytes × Bool)} {seen : List Bytes}
    {es : List (Bytes × TableLine)} (h : acceptLines seen ls = some es) :
    es.length = ls.length := by
  induction ls generalizing seen es with
  | nil =>
      cases h
      rfl
  | cons l ls ih =>
      obtain ⟨raw, eof⟩ := l
      cases ha : acceptLine seen (cstr raw) eof with
      | none =>
          rw [acceptLines_cons_none ha] at h
          cases h
      | some a =>
          obtain ⟨t, seen'⟩ := a
          rw [acceptLines_cons_some ha] at h
          obtain ⟨es', hes, rfl⟩ := Option.map_eq_some_iff.mp h
          simp [ih hes]

section Client

variable {cfg : ClientConfig} (hid : RowId cfg.clientId) (v : VersionText)

include hid in
theorem ownRow_whole : Whole 255 (ownRow cfg v.text) := by
  rw [ownRow_eq hid]
  exact rowText_whole hid v

include hid in
theorem lineEntry_ownRow : lineEntry (ownRow cfg v.text) = some (.row cfg.clientId v.text) := by
  rw [ownRow_eq hid]
  exact lineEntry_own hid v

theorem VersionText.no_nul : 0 ∉ v.text := by
  obtain ⟨a, b, c, hv, ⟨-, ha⟩, ⟨-, hb⟩, -, hc⟩ := exists_of_verIsValid v.valid
  have hdigit : ∀ s : Bytes, (∀ d ∈ s, isdigit d = true) → 0 ∉ s := fun s hs h0 =>
    absurd (hs 0 h0) (by decide)
  simp [hv, hdigit a ha, hdigit b hb, hdigit c hc]

include hid in
theorem ownRow_no_nul : 0 ∉ ownRow cfg v.text := by
  rw [ownRow_eq hid, rowText]
  simp [hid.no_nul, v.no_nul]

include hid in
theorem Accepted.updated {es : List (Bytes × TableLine)} (h : Accepted es) :
    Accepted (es.map (UpdateFramework.updated cfg v.text)) where
  physical := by
    have hmap : (es.map (UpdateFramework.updated cfg v.text)).map Prod.fst =
        es.map (rewritten cfg v.text) := by
      rw [List.map_map]
      exact List.map_congr_left fun e _ => updated_fst cfg v.text e
    rw [hmap]
    refine h.physical.replace ?_
    rw [List.forall₂_map_left_iff, List.forall₂_map_right_iff, List.forall₂_same]
    -- each line is kept, or replaced by the client's row
    rintro ⟨l, _ | ⟨i, w⟩⟩ -
    · exact .inl rfl
    · by_cases hi : i = cfg.clientId
      · exact .inr (by simpa [rewritten, hi] using ownRow_whole hid v)
      · exact .inl (by simp [rewritten, hi])
  entries e he := by
    obtain ⟨⟨l, t⟩, hmem, rfl⟩ := List.mem_map.mp he
    have ht := h.entries _ hmem
    cases t with
    | note => exact ht
    | row i w =>
        by_cases hi : i = cfg.clientId
        · simp only [UpdateFramework.updated, hi, if_true, lineEntry_ownRow hid]
        · simpa [UpdateFramework.updated, hi] using ht
  nodup := by simpa using h.nodup
  bound := by simpa using h.bound

include hid in
theorem cstr_updated {es : List (Bytes × TableLine)} (hes : ∀ l ∈ es.map Prod.fst, cstr l = l) :
    ∀ l ∈ (es.map (UpdateFramework.updated cfg v.text)).map Prod.fst, cstr l = l := by
  intro l hl
  obtain ⟨e', he', rfl⟩ := List.mem_map.mp hl
  obtain ⟨⟨k, t⟩, he, rfl⟩ := List.mem_map.mp he'
  have hk := hes k (List.mem_map_of_mem he)
  cases t with
  | note => exact hk
  | row i w =>
      by_cases hi : i = cfg.clientId
      · simpa [UpdateFramework.updated, hi] using cstr_eq_self (ownRow_no_nul hid v)
      · simpa [UpdateFramework.updated, hi] using hk

include hid in
/-- The row of a client that has none, after whole lines. -/
theorem Accepted.added {es : List (Bytes × TableLine)} (h : Accepted es)
    (hw : ∀ l ∈ es.map Prod.fst, Whole 255 l) (hnew : cfg.clientId ∉ tableIds es)
    (hlen : es.length < 512) :
    Accepted (es ++ [(ownRow cfg v.text, .row cfg.clientId v.text)]) where
  physical := by
    refine .of_whole fun l hl => ?_
    rw [List.map_append, List.mem_append] at hl
    rcases hl with hl | hl
    · exact hw l hl
    · rw [List.map_singleton, List.mem_singleton] at hl
      exact hl ▸ ownRow_whole hid v
  entries e he := by
    rcases List.mem_append.mp he with he | he
    · exact h.entries e he
    · rw [List.mem_singleton.mp he]
      exact lineEntry_ownRow hid v
  nodup := by
    rw [tableIds_append]
    exact List.nodup_append_comm.mpr (List.nodup_cons.mpr ⟨hnew, h.nodup⟩)
  bound := by
    have := length_tableIds_le es
    rw [tableIds_append, List.length_append]
    simp only [tableIds, List.length_singleton]
    omega

end Client

/-! ### The written table -/

/-- What the reader reports on an accepted table. -/
theorem readVersion_accepted {es : List (Bytes × TableLine)} (h : Accepted es)
    (hes : ∀ l ∈ es.map Prod.fst, cstr l = l) (id : Bytes) :
    readVersion id (some (es.map Prod.fst).flatten) =
      some ((rowVersion id none es).getD (ascii "0.0.0")) := by
  rw [readVersion, acceptLines_accepted hes h]
  rfl

/-- The writer on a table whose lines are accepted. -/
theorem writtenTable_accepted {c : Bytes} {es : List (Bytes × TableLine)}
    (h : acceptLines [] (textLines 254 c) = some es) (cfg : ClientConfig) (version : Bytes) :
    writtenTable cfg version (some c) =
      (writtenLines cfg version (es.take 512)).map List.flatten := by
  simp only [writtenTable, Option.getD_some, acceptLines_take h, Option.bind_eq_bind,
    Option.bind_some]
  cases writtenLines cfg version (es.take 512) <;> rfl

/-- No table is as good as an empty one. -/
theorem readVersion_getD (id : Bytes) (c : Option Bytes) :
    readVersion id c = readVersion id (some (c.getD [])) := by
  cases c with
  | none => simp [readVersion, acceptLines, rowVersion]
  | some c => rfl

theorem writtenTable_getD (cfg : ClientConfig) (version : Bytes) (c : Option Bytes) :
    writtenTable cfg version c = writtenTable cfg version (some (c.getD [])) := by
  cases c <;> rfl

theorem mem_tableIds {id : Bytes} {es : List (Bytes × TableLine)} :
    id ∈ tableIds es ↔ ∃ l w, (l, .row id w) ∈ es := by
  induction es with
  | nil => simp [tableIds]
  | cons e es ih =>
      obtain ⟨l, t⟩ := e
      cases t with
      | note => simp [tableIds, ih]
      | row i w =>
          simp only [tableIds, List.mem_cons, ih, Prod.mk.injEq, TableLine.row.injEq]
          constructor
          · rintro (rfl | ⟨l', w', h⟩)
            · exact ⟨l, w, .inl ⟨rfl, rfl, rfl⟩⟩
            · exact ⟨l', w', .inr h⟩
          · rintro ⟨l', w', ⟨-, h, -⟩ | h⟩
            · exact .inl h
            · exact .inr ⟨l', w', h⟩

/-- One of the lines is a row of `id`. -/
def RowIn (id : Bytes) (ls : List (Bytes × Bool)) : Prop :=
  ∃ l ∈ ls, ∃ w, lineEntry l.1 = some (.row id w)

/-- A line of the text is a row of `id`. -/
def HasRow (id c : Bytes) : Prop := RowIn id (textLines 254 c)

theorem rowIn_iff {es : List (Bytes × TableLine)} (h : ∀ e ∈ es, lineEntry e.1 = some e.2)
    (eof : Bytes → Bool) (id : Bytes) :
    RowIn id ((es.map Prod.fst).map fun l => (l, eof l)) ↔ id ∈ tableIds es := by
  rw [RowIn, mem_tableIds]
  constructor
  · rintro ⟨l, hl, w, hw⟩
    simp only [List.map_map, List.mem_map, Function.comp_apply] at hl
    obtain ⟨e, he, rfl⟩ := hl
    have ht := h e he
    rw [hw] at ht
    exact ⟨e.1, w, by rw [Option.some.inj ht]; exact he⟩
  · rintro ⟨l, w, hmem⟩
    exact ⟨(l, eof l), List.mem_map_of_mem (List.mem_map_of_mem hmem), w, h _ hmem⟩

theorem Accepted.hasRow_iff {es : List (Bytes × TableLine)} (h : Accepted es) (id : Bytes) :
    HasRow id (es.map Prod.fst).flatten ↔ id ∈ tableIds es := by
  rw [HasRow, h.physical.textLines]
  exact rowIn_iff h.entries _ id

end UpdateFramework
