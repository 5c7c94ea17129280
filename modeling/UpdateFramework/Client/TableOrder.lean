import UpdateFramework.Client.TableFrame
import UpdateFramework.Common.VersionOrder

/-!
# Client — a table in order

A table that ends in a newline, makes sense and has at most 512 lines stays so when a client writes
its version, and every other client's version stays the same (`Orderly.written`).
-/

namespace UpdateFramework

open Libc

/-! ### Versions -/

/-- `v` is a version not above `w`. -/
def NotAbove (v w : Bytes) : Prop := ∃ cmp, verCompareText v w = some cmp ∧ cmp ≤ 0

theorem NotAbove.refl {v : Bytes} (h : verIsValid v = true) : NotAbove v v := by
  obtain ⟨s, hs⟩ := Option.isSome_iff_exists.mp h
  have hden := verParse_iff.mp hs
  exact ⟨_, verCompareText_iff.mpr ⟨s, s, hden, hden, rfl⟩, orderSign_le.mpr le_rfl⟩

theorem NotAbove.trans {u v w : Bytes} (h : NotAbove u v) (k : NotAbove v w) : NotAbove u w := by
  obtain ⟨_, h, hle⟩ := h
  obtain ⟨_, k, kle⟩ := k
  obtain ⟨a, b, ha, hb, rfl⟩ := verCompareText_iff.mp h
  obtain ⟨b', c, hb', hc, rfl⟩ := verCompareText_iff.mp k
  have hsame : some b = some b' := (verParse_iff.mpr hb).symm.trans (verParse_iff.mpr hb')
  cases hsame
  have hac := (orderSign_le.mp hle).trans (orderSign_le.mp kle)
  exact ⟨_, verCompareText_iff.mpr ⟨a, c, ha, hc, rfl⟩, orderSign_le.mpr hac⟩

/-! ### Tables -/

/-- A table, or none, that every client can read and write. -/
structure Orderly (table : Option Bytes) : Prop where
  accepted : (acceptLines [] (textLines 254 (table.getD []))).isSome = true
  terminated : Terminated (table.getD [])
  short : (textLines 254 (table.getD [])).length ≤ 512

/-- The lines of such a table. -/
structure OrderlyLines (text : Bytes) (es : List (Bytes × TableLine)) : Prop where
  lines : acceptLines [] (textLines 254 text) = some es
  accepted : Accepted es
  text : text = (es.map Prod.fst).flatten
  noNul : ∀ l ∈ es.map Prod.fst, cstr l = l
  whole : ∀ l ∈ es.map Prod.fst, Whole 255 l
  short : es.length ≤ 512

section Orderly

variable {cfg : ClientConfig} {table : Option Bytes} {es : List (Bytes × TableLine)}

theorem Orderly.lines (h : Orderly table) : ∃ es, OrderlyLines (table.getD []) es := by
  obtain ⟨es, hes⟩ := Option.isSome_iff_exists.mp h.accepted
  obtain ⟨hacc, htext, hcstr⟩ := accepted_of_acceptLines hes (.inr h.terminated)
  have hwhole := hacc.physical.whole (htext ▸ h.terminated)
  exact ⟨es, hes, hacc, htext, hcstr, hwhole, length_of_acceptLines hes ▸ h.short⟩

theorem orderly_of_lines (hacc : Accepted es) (hcstr : ∀ l ∈ es.map Prod.fst, cstr l = l)
    (hwhole : ∀ l ∈ es.map Prod.fst, Whole 255 l) (hlen : es.length ≤ 512) :
    Orderly (some (es.map Prod.fst).flatten) := by
  have hlines := acceptLines_accepted hcstr hacc
  refine ⟨?_, terminated_flatten hwhole, ?_⟩
  · rw [Option.getD_some, hlines]
    rfl
  · rw [Option.getD_some, ← length_of_acceptLines hlines]
    exact hlen

/-- What is read is a version. -/
theorem Orderly.read (h : Orderly table) (id : Bytes) :
    ∃ v, readVersion id table = some v ∧ verIsValid v = true ∧ v.length < maxVersionStr := by
  obtain ⟨es, hes⟩ := h.lines
  have hread := readVersion_accepted hes.accepted hes.noNul id
  rw [← hes.text, ← readVersion_getD] at hread
  refine ⟨_, hread, ?_⟩
  by_cases hmem : id ∈ tableIds es
  · obtain ⟨l, w, hrow⟩ := mem_tableIds.mp hmem
    rw [rowVersion_of_mem hrow hes.accepted.nodup, Option.getD_some]
    have hlimits := lineEntry_row (hes.accepted.entries _ hrow)
    exact ⟨hlimits.2.2.2, hlimits.2.2.1⟩
  · rw [rowVersion_of_not_mem hmem]
    exact ⟨by decide, by decide⟩

/-- Writing a version keeps the table in order, and touches no other client's version. -/
theorem Orderly.written (h : Orderly table) (hid : RowId cfg.clientId) (v : VersionText)
    {new : Bytes} (hnew : writtenTable cfg v.text table = some new) :
    Orderly (some new) ∧ readVersion cfg.clientId (some new) = some v.text ∧
      ∀ x ≠ cfg.clientId, readVersion x (some new) = readVersion x table := by
  obtain ⟨es, hes⟩ := h.lines
  have hall : es.take 512 = es := List.take_of_length_le hes.short
  rw [writtenTable_getD, writtenTable_accepted hes.lines, hall, writtenLines] at hnew
  have hold : ∀ x, readVersion x table = some ((rowVersion x none es).getD (ascii "0.0.0")) := by
    intro x
    rw [readVersion_getD, hes.text]
    exact readVersion_accepted hes.accepted hes.noNul x
  by_cases hin : cfg.clientId ∈ tableIds es
  · -- the row is replaced
    rw [if_pos hin] at hnew
    have hfst : es.map (rewritten cfg v.text) = (es.map (updated cfg v.text)).map Prod.fst := by
      rw [List.map_map]
      exact List.map_congr_left fun e _ => (updated_fst cfg v.text e).symm
    rw [hfst] at hnew
    cases hnew
    have hacc := hes.accepted.updated hid v
    have hcstr := cstr_updated hid v hes.noNul
    have hwhole := updated_whole hid v hes.whole
    refine ⟨orderly_of_lines hacc hcstr hwhole (by simpa using hes.short), ?_, fun x hx => ?_⟩
    · rw [readVersion_accepted hacc hcstr, rowVersion_updated hin]
      rfl
    · rw [readVersion_accepted hacc hcstr, hold, rowVersion_updated_of_ne hx]
  · -- a row is added
    rw [if_neg hin] at hnew
    by_cases hfull : es.length ≥ 512
    · rw [if_pos hfull] at hnew
      cases hnew
    rw [if_neg hfull, map_rewritten_of_not_mem hin] at hnew
    have hfst : es.map Prod.fst ++ [ownRow cfg v.text] =
        (es ++ [(ownRow cfg v.text, TableLine.row cfg.clientId v.text)]).map Prod.fst := by
      rw [List.map_append, List.map_singleton]
    rw [hfst] at hnew
    cases hnew
    have hacc := hes.accepted.added hid v hes.whole hin (Nat.lt_of_not_le hfull)
    have hlast : ∀ {P : Bytes → Prop}, (∀ l ∈ es.map Prod.fst, P l) → P (ownRow cfg v.text) →
        ∀ l ∈ (es ++ [(ownRow cfg v.text, TableLine.row cfg.clientId v.text)]).map Prod.fst, P l := by
      intro P hP hrow l hl
      rw [List.map_append, List.map_singleton] at hl
      rcases List.mem_append.mp hl with hl | hl
      · exact hP l hl
      · exact List.mem_singleton.mp hl ▸ hrow
    have hcstr := hlast hes.noNul (cstr_eq_self (ownRow_no_nul hid v))
    have hwhole := hlast hes.whole (ownRow_whole hid v)
    have hlen : (es ++ [(ownRow cfg v.text, TableLine.row cfg.clientId v.text)]).length ≤ 512 := by
      rw [List.length_append, List.length_singleton]
      omega
    refine ⟨orderly_of_lines hacc hcstr hwhole hlen, ?_, fun x hx => ?_⟩
    · rw [readVersion_accepted hacc hcstr, rowVersion_append]
      simp [rowVersion]
    · rw [readVersion_accepted hacc hcstr, hold, rowVersion_append]
      simp [rowVersion, hx.symm]

end Orderly

end UpdateFramework
