import UpdateFramework.Client.TableRoundTrip

/-!
# Client — an update touches only its own row

The writer takes in at most 512 lines, the reader at most 512 rows and any number of comments.
So where a table has more than 512 lines and the client's row is among the first 512, the rest of
the table is lost.  `Kept` lists the tables on which this changes nothing for anyone else;
`others_kept_iff` proves the list complete.
-/

namespace UpdateFramework

open Libc FileSystem

/-- The tables on which no line of another client, and no comment or blank line, is lost. -/
inductive Kept (id c : Bytes) : Prop where
  | short (h : (textLines 254 c).length ≤ 512)
  /-- The writer returns `-1`. -/
  | refused (h : ¬ RowIn id ((textLines 254 c).take 512))
  /-- What is lost are rows that say what no row says. -/
  | default (h : ∀ l ∈ (textLines 254 c).drop 512,
      ∃ i, lineEntry l.1 = some (.row i (ascii "0.0.0")))

/-- Every other id reads what it read before, and comments and blank lines are in their places. -/
structure OthersKept (id c c' : Bytes) : Prop where
  versions : ∀ x, x ≠ id → readVersion x (some c') = readVersion x (some c)
  notes : ∀ (k : ℕ) (l : Bytes) (b : Bool), (textLines 254 c)[k]? = some (l, b) → versionRowIgnorable l = true →
    (textLines 254 c')[k]? = some (l, b)

theorem lineEntry_note_iff {l : Bytes} : lineEntry l = some .note ↔ versionRowIgnorable l = true := by
  unfold lineEntry
  split
  next h => simp [h]
  next h => cases parseVersionRow l <;> simp [h]

section

variable {cfg : ClientConfig} (hid : RowId cfg.clientId) (v : VersionText)

/-- The lines of an accepted table all of whose lines are whole. -/
theorem textLines_accepted {es : List (Bytes × TableLine)}
    (hw : ∀ l ∈ es.map Prod.fst, Whole 255 l) :
    textLines 254 (es.map Prod.fst).flatten = es.map fun e => (e.1, false) := by
  have h := textLines_flatten_append hw []
  rw [List.append_nil, textLines_nil, List.append_nil] at h
  rw [h, List.map_map]
  rfl

include hid in
theorem updated_whole {es : List (Bytes × TableLine)} (hw : ∀ l ∈ es.map Prod.fst, Whole 255 l) :
    ∀ l ∈ (es.map (updated cfg v.text)).map Prod.fst, Whole 255 l := by
  intro l hl
  obtain ⟨e', he', rfl⟩ := List.mem_map.mp hl
  obtain ⟨⟨k, t⟩, he, rfl⟩ := List.mem_map.mp he'
  have hk := hw k (List.mem_map_of_mem he)
  cases t with
  | note => exact hk
  | row i w =>
      by_cases hi : i = cfg.clientId
      · simpa [updated, hi] using ownRow_whole hid v
      · simpa [updated, hi] using hk

/-- A comment or blank line is not touched. -/
theorem updated_note {e : Bytes × TableLine} (he : lineEntry e.1 = some e.2)
    (hnote : versionRowIgnorable e.1 = true) (cfg : ClientConfig) (version : Bytes) :
    updated cfg version e = e := by
  obtain ⟨l, t⟩ := e
  rw [lineEntry_note_iff.mpr hnote] at he
  cases he
  rfl

include hid in
/-- The client's row is replaced in the first 512 lines, and the others are lost: nobody else
notices where these say nothing. -/
theorem othersKept_updated_iff {es : List (Bytes × TableLine)} (hes : Accepted es)
    (hcstr : ∀ l ∈ es.map Prod.fst, cstr l = l) (hw : ∀ l ∈ es.map Prod.fst, Whole 255 l)
    (hin : cfg.clientId ∈ tableIds (es.take 512)) :
    OthersKept cfg.clientId (es.map Prod.fst).flatten
        (((es.take 512).map (updated cfg v.text)).map Prod.fst).flatten ↔
      ∀ e ∈ es.drop 512, ∃ i, e.2 = .row i (ascii "0.0.0") := by
  have hsub : ∀ l ∈ (es.take 512).map Prod.fst, l ∈ es.map Prod.fst := fun l hl => by
    rw [List.map_take] at hl
    exact List.mem_of_mem_take hl
  have hnew := textLines_accepted (updated_whole hid v fun l hl => hw l (hsub l hl))
  have hold := textLines_accepted hw
  have hread : ∀ x, readVersion x (some (((es.take 512).map (updated cfg v.text)).map
      Prod.fst).flatten) = some ((rowVersion x none
        ((es.take 512).map (updated cfg v.text))).getD (ascii "0.0.0")) :=
    readVersion_accepted ((hes.take 512).updated hid v)
      (cstr_updated hid v fun l hl => hcstr l (hsub l hl))
  have hnd : (tableIds (es.take 512) ++ tableIds (es.drop 512)).Nodup := by
    rw [← tableIds_append, List.take_append_drop]
    exact hes.nodup
  have hdisj : ∀ i, i ∈ tableIds (es.drop 512) → i ∉ tableIds (es.take 512) := fun i hd ht =>
    (List.nodup_append.mp hnd).2.2 i ht i hd rfl
  constructor
  · intro h e he
    obtain ⟨k, hk, hek⟩ := List.getElem_of_mem he
    cases ht : e.2 with
    | note =>
        -- the line is kept in its place, but there is no line in that place
        exfalso
        have hline := hes.entries e (List.mem_of_mem_drop he)
        rw [ht] at hline
        have hget : (textLines 254 (es.map Prod.fst).flatten)[512 + k]? = some (e.1, false) := by
          have hdrop : es[512 + k]? = some e := by
            rw [← List.getElem?_drop, List.getElem?_eq_getElem hk, hek]
          rw [hold, List.getElem?_map, hdrop]
          rfl
        have hkeep := h.notes _ _ _ hget (lineEntry_note_iff.mp hline)
        rw [hnew, List.getElem?_eq_none] at hkeep
        · cases hkeep
        · simp only [List.length_map, List.length_take]
          omega
    | row i w =>
        have hmem : (e.1, TableLine.row i w) ∈ es := by
          rw [← ht]
          exact List.mem_of_mem_drop he
        have hi : i ∈ tableIds (es.drop 512) :=
          mem_tableIds.mpr ⟨e.1, w, by rw [← ht]; exact he⟩
        have hne : i ≠ cfg.clientId := fun hi' => hdisj i hi (hi' ▸ hin)
        have hv := h.versions i hne
        rw [hread, rowVersion_updated_of_ne hne, rowVersion_of_not_mem (hdisj i hi),
          readVersion_accepted hes hcstr, rowVersion_of_mem hmem hes.nodup] at hv
        have hw0 : ascii "0.0.0" = w := Option.some.inj hv
        exact ⟨i, by rw [hw0]⟩
  · intro h
    refine ⟨fun x hx => ?_, fun k l b hk hnote => ?_⟩
    · rw [hread, rowVersion_updated_of_ne hx, readVersion_accepted hes hcstr]
      have hsplit : rowVersion x none es =
          rowVersion x (rowVersion x none (es.take 512)) (es.drop 512) := by
        rw [← rowVersion_append, List.take_append_drop]
      by_cases hxd : x ∈ tableIds (es.drop 512)
      · obtain ⟨l, w, hmem⟩ := mem_tableIds.mp hxd
        obtain ⟨i, hi⟩ := h _ hmem
        cases hi
        rw [rowVersion_of_not_mem (hdisj x hxd),
          rowVersion_of_mem (List.mem_of_mem_drop hmem) hes.nodup]
        rfl
      · rw [hsplit, rowVersion_of_not_mem hxd]
    · rw [hold, List.getElem?_map, Option.map_eq_some_iff] at hk
      obtain ⟨e, he, hle⟩ := hk
      cases hle
      have hline := hes.entries e (List.mem_of_getElem? he)
      have hlt : k < 512 := by
        by_contra hge
        have hdrop : (es.drop 512)[k - 512]? = some e := by
          rw [List.getElem?_drop, Nat.add_sub_cancel' (Nat.not_lt.mp hge), he]
        obtain ⟨i, hi⟩ := h e (List.mem_of_getElem? hdrop)
        rw [lineEntry_note_iff.mpr hnote, hi] at hline
        cases hline
      rw [hnew, List.getElem?_map, List.getElem?_map, List.getElem?_take_of_lt hlt, he,
        Option.map_some, updated_note hline hnote]
      rfl

include hid in
/-- On an accepted text without an unterminated line, nobody else notices a successful write
exactly where `Kept` says. -/
theorem written_kept_iff {c : Bytes} {es : List (Bytes × TableLine)}
    (h : acceptLines [] (textLines 254 c) = some es) (hterm : Terminated c) :
    (∀ c', writtenTable cfg v.text (some c) = some c' → OthersKept cfg.clientId c c') ↔
      Kept cfg.clientId c := by
  obtain ⟨hes, hc, hcstr⟩ := accepted_of_acceptLines h (.inr hterm)
  have hw := hes.physical.whole (hc ▸ hterm)
  have hlines : (textLines 254 c) = es.map fun e => (e.1, false) := by
    rw [hc]
    exact textLines_accepted hw
  have hrow : RowIn cfg.clientId ((textLines 254 c).take 512) ↔
      cfg.clientId ∈ tableIds (es.take 512) := by
    rw [hlines, ← List.map_take, ← rowIn_iff (hes.take 512).entries (fun _ => false), List.map_map]
    rfl
  rw [writtenTable_accepted h]
  by_cases hin : cfg.clientId ∈ tableIds (es.take 512)
  · have hfst : (es.take 512).map (rewritten cfg v.text) =
        ((es.take 512).map (updated cfg v.text)).map Prod.fst := by
      rw [List.map_map]
      exact List.map_congr_left fun e _ => (updated_fst cfg v.text e).symm
    rw [writtenLines, if_pos hin, hfst]
    simp only [Option.map_some, Option.some.injEq, forall_eq']
    have hiff := othersKept_updated_iff hid v hes hcstr hw hin
    rw [← hc] at hiff
    rw [hiff]
    constructor
    · intro hall
      refine .default fun l hl => ?_
      rw [hlines, ← List.map_drop] at hl
      obtain ⟨e, he, rfl⟩ := List.mem_map.mp hl
      obtain ⟨i, hi⟩ := hall e he
      exact ⟨i, by rw [hes.entries e (List.mem_of_mem_drop he), hi]⟩
    · intro hk e he
      cases hk with
      | short hs =>
          rw [hlines, List.length_map] at hs
          rw [List.drop_eq_nil_of_le hs] at he
          cases he
      | refused hr => exact absurd (hrow.mpr hin) hr
      | default hd =>
          obtain ⟨i, hi⟩ := hd (e.1, false) (by
            rw [hlines, ← List.map_drop]
            exact List.mem_map_of_mem he)
          rw [hes.entries e (List.mem_of_mem_drop he)] at hi
          exact ⟨i, Option.some.inj hi⟩
  by_cases hfull : 512 ≤ es.length
  · refine iff_of_true (fun c' hc' => ?_) (.refused fun hr => hin (hrow.mp hr))
    rw [writtenLines, if_neg hin, if_pos (by simpa using hfull)] at hc'
    cases hc'
  -- the row is added after all lines
  refine iff_of_true ?_ (.short (by rw [hlines, List.length_map]; omega))
  have hall : es.take 512 = es := List.take_of_length_le (by omega)
  rw [hall] at hin ⊢
  rw [writtenLines, if_neg hin, if_neg (by omega), map_rewritten_of_not_mem hin]
  simp only [Option.map_some, Option.some.injEq, forall_eq']
  have hadd := hes.added hid v hw hin (by omega)
  have hcstr' : ∀ l ∈ (es ++ [(ownRow cfg v.text, TableLine.row cfg.clientId v.text)]).map
      Prod.fst,
      cstr l = l := by
    intro l hl
    rw [List.map_append, List.mem_append] at hl
    rcases hl with hl | hl
    · exact hcstr l hl
    · rw [List.map_singleton, List.mem_singleton] at hl
      exact hl ▸ cstr_eq_self (ownRow_no_nul hid v)
  have hfst : es.map Prod.fst ++ [ownRow cfg v.text] =
      (es ++ [(ownRow cfg v.text, TableLine.row cfg.clientId v.text)]).map Prod.fst := by simp
  rw [hfst]
  refine ⟨fun x hx => ?_, fun k l b hk hnote => ?_⟩
  · rw [readVersion_accepted hadd hcstr', hc, readVersion_accepted hes hcstr, rowVersion_append,
      rowVersion, if_neg (Ne.symm hx), rowVersion]
  · have hcomp : (es.map Prod.fst).map (·, false) = es.map fun e => (e.1, false) := by
      rw [List.map_map]
      rfl
    rw [hlines] at hk
    have hlt : k < (es.map fun e => (e.1, false)).length := by
      by_contra hge
      rw [List.getElem?_eq_none (Nat.not_lt.mp hge)] at hk
      cases hk
    rw [← hfst, List.flatten_append, List.flatten_singleton, textLines_flatten_append hw,
      hcomp, List.getElem?_append_left hlt]
    exact hk

end

/-! ### The programs -/

/-- **An update touches only its own row**, exactly on the tables of `Kept`: where the reader
accepts the table and nothing in it is unterminated, a successful write leaves what every other id
reads, and every comment and blank line. -/
theorem others_kept_iff {cfg : ClientConfig} (hcur : cfg.currentVersion = [])
    (hfile : cfg.clientVersionFile ≠ []) (hid : RowId cfg.clientId) (v : VersionText)
    {fs : FileSystem Path} {c : Bytes} (hc : fs.disk .table = some c) (hterm : Terminated c)
    {w : Bytes} (hread : ReadsVersion cfg fs w) :
    (∀ fs', FileSystem.eval (writeVersionFile cfg v.text) fs = some (true, fs') →
      ∃ c', fs'.disk .table = some c' ∧
        (∀ x, x ≠ cfg.clientId → ∀ u, ReadsVersion { cfg with clientId := x } fs' u ↔
          ReadsVersion { cfg with clientId := x } fs u) ∧
        ∀ (k : ℕ) (l : Bytes) (b : Bool), (textLines 254 c)[k]? = some (l, b) →
          versionRowIgnorable l = true → (textLines 254 c')[k]? = some (l, b)) ↔
      Kept cfg.clientId c := by
  rw [readsVersion_iff hcur, hc] at hread
  obtain ⟨es, hes, -⟩ := Option.map_eq_some_iff.mp hread
  rw [← written_kept_iff hid v hes hterm]
  obtain ⟨fs₁, he, hd⟩ := writeVersionFile_eval cfg hfile hid.nonempty v.text fs
  rw [hc] at he hd
  have hreads : ∀ x (fs : FileSystem Path) u, ReadsVersion { cfg with clientId := x } fs u ↔
      readVersion x (fs.disk .table) = some u := fun x fs u =>
    readsVersion_iff (show { cfg with clientId := x }.currentVersion = [] from hcur) fs u
  simp only [hreads, hc]
  constructor
  · intro h c' hc'
    rw [hc'] at he hd
    have htable : fs₁.disk .table = some c' := by simp [hd]
    obtain ⟨c₂, hc₂, hversions, hnotes⟩ := h fs₁ he
    rw [htable] at hc₂
    cases hc₂
    refine ⟨fun x hx => ?_, hnotes⟩
    have hx := hversions x hx
    rw [htable] at hx
    exact Option.ext hx
  · intro h fs' hfs'
    rw [he] at hfs'
    obtain ⟨hsome, rfl⟩ := Prod.mk.inj (Option.some.inj hfs')
    obtain ⟨c', hc'⟩ := Option.isSome_iff_exists.mp hsome
    rw [hc'] at hd
    have htable : fs₁.disk .table = some c' := by simp [hd]
    obtain ⟨hversions, hnotes⟩ := h c' hc'
    exact ⟨c', htable, fun x hx u => by rw [htable, hversions x hx], hnotes⟩

/-! ### A short table and one that is too long -/

/-- The rows of two clients, with comments between them. -/
def commentedTable (comments : ℕ) : List (Bytes × TableLine) :=
  (ascii "client_001=1.0.0\n", .row (ascii "client_001") (ascii "1.0.0")) ::
    (List.replicate comments (ascii "#\n", .note) ++
      [(ascii "client_002=1.2.0\n", .row (ascii "client_002") (ascii "1.2.0"))])

@[simp] theorem tableIds_notes (n : ℕ) (l : Bytes) :
    tableIds (List.replicate n (l, .note)) = [] := by
  induction n with
  | zero => rfl
  | succ n ih => exact ih

theorem mem_commentedTable {n : ℕ} {e : Bytes × TableLine} (h : e ∈ commentedTable n) :
    e = (ascii "client_001=1.0.0\n", .row (ascii "client_001") (ascii "1.0.0")) ∨
      e = (ascii "#\n", .note) ∨
      e = (ascii "client_002=1.2.0\n", .row (ascii "client_002") (ascii "1.2.0")) := by
  simp only [commentedTable, List.mem_cons, List.mem_append, List.mem_replicate,
    List.not_mem_nil, or_false] at h
  rcases h with h | ⟨-, h⟩ | h
  · exact .inl h
  · exact .inr (.inl h)
  · exact .inr (.inr h)

theorem commentedTable_whole (n : ℕ) : ∀ l ∈ (commentedTable n).map Prod.fst, Whole 255 l := by
  intro l hl
  obtain ⟨e, he, rfl⟩ := List.mem_map.mp hl
  rcases mem_commentedTable he with rfl | rfl | rfl
  · exact ⟨⟨ascii "client_001=1.0.0", by decide, by decide⟩, by decide⟩
  · exact ⟨⟨ascii "#", by decide, by decide⟩, by decide⟩
  · exact ⟨⟨ascii "client_002=1.2.0", by decide, by decide⟩, by decide⟩

theorem commentedTable_accepted (n : ℕ) : Accepted (commentedTable n) where
  physical := .of_whole (commentedTable_whole n)
  entries e he := by rcases mem_commentedTable he with rfl | rfl | rfl <;> decide
  nodup := by
    simp only [commentedTable, tableIds, tableIds_append, tableIds_notes]
    decide
  bound := by simp [commentedTable, tableIds]

theorem commentedTable_cstr (n : ℕ) : ∀ l ∈ (commentedTable n).map Prod.fst, cstr l = l := by
  intro l hl
  obtain ⟨e, he, rfl⟩ := List.mem_map.mp hl
  rcases mem_commentedTable he with rfl | rfl | rfl <;> decide

/-- The text of the table. -/
def commentedText (n : ℕ) : Bytes := ((commentedTable n).map Prod.fst).flatten

theorem commentedText_terminated (n : ℕ) : Terminated (commentedText n) :=
  terminated_flatten (commentedTable_whole n)

theorem commentedText_read (n : ℕ) :
    ReadsVersion .client001 (.only .table (commentedText n)) (ascii "1.0.0") := by
  have hmem : (ascii "client_001=1.0.0\n", TableLine.row (ascii "client_001") (ascii "1.0.0")) ∈
      commentedTable n := List.mem_cons_self
  rw [readsVersion_iff rfl, FileSystem.only_disk, commentedText,
    readVersion_accepted (commentedTable_accepted n) (commentedTable_cstr n)]
  rw [show ClientConfig.client001.clientId = ascii "client_001" from rfl,
    rowVersion_of_mem hmem (commentedTable_accepted n).nodup]
  rfl

/-- With two comments between the rows, only the client's own changes. -/
theorem others_kept_short :
    ReadsVersion .client001 (.only .table (commentedText 2)) (ascii "1.0.0") ∧
    ∀ fs', FileSystem.eval (writeVersionFile .client001 version200.text)
        (.only .table (commentedText 2)) = some (true, fs') →
      ∃ c', fs'.disk .table = some c' ∧
        (∀ x, x ≠ ClientConfig.client001.clientId → ∀ u,
          ReadsVersion { ClientConfig.client001 with clientId := x } fs' u ↔
            ReadsVersion { ClientConfig.client001 with clientId := x }
              (.only .table (commentedText 2)) u) ∧
        ∀ (k : ℕ) (l : Bytes) (b : Bool), (textLines 254 (commentedText 2))[k]? = some (l, b) →
          versionRowIgnorable l = true → (textLines 254 c')[k]? = some (l, b) := by
  refine ⟨commentedText_read 2, (others_kept_iff rfl (by decide) client001_rowId version200
    (only_disk ..) (commentedText_terminated 2) (commentedText_read 2)).mpr (.short ?_)⟩
  rw [commentedText, textLines_accepted (commentedTable_whole 2), List.length_map]
  decide

/-- With 511 comments between them, updating the first row loses the second. -/
theorem long_table_loses_row :
    ReadsVersion .client001 (.only .table (commentedText 511)) (ascii "1.0.0") ∧
      Terminated (commentedText 511) ∧
      ReadsVersion { ClientConfig.client001 with clientId := ascii "client_002" }
        (.only .table (commentedText 511)) (ascii "1.2.0") ∧
      ∃ fs', FileSystem.eval (writeVersionFile .client001 version200.text)
          (.only .table (commentedText 511)) = some (true, fs') ∧
        ReadsVersion { ClientConfig.client001 with clientId := ascii "client_002" } fs'
          (ascii "0.0.0") := by
  have hacc := commentedTable_accepted 511
  have hcstr := commentedTable_cstr 511
  have hsecond : (ascii "client_002=1.2.0\n",
      TableLine.row (ascii "client_002") (ascii "1.2.0")) ∈ commentedTable 511 :=
    List.mem_cons_of_mem _ (List.mem_append_right _ (List.mem_singleton_self _))
  have htake : (commentedTable 511).take 512 =
      (ascii "client_001=1.0.0\n", .row (ascii "client_001") (ascii "1.0.0")) ::
        List.replicate 511 (ascii "#\n", .note) := by
    rw [commentedTable, List.take_succ_cons, List.take_left' List.length_replicate]
  have hin : ClientConfig.client001.clientId ∈ tableIds ((commentedTable 511).take 512) := by
    rw [htake]
    exact List.mem_cons_self
  refine ⟨commentedText_read 511, commentedText_terminated 511, ?_, ?_⟩
  · rw [readsVersion_iff rfl, FileSystem.only_disk, commentedText,
      readVersion_accepted hacc hcstr, rowVersion_of_mem hsecond hacc.nodup]
    rfl
  · obtain ⟨fs', he, hd⟩ := writeVersionFile_eval .client001 (by decide) (by decide)
      version200.text (.only .table (commentedText 511))
    have hwritten : writtenTable .client001 version200.text (some (commentedText 511)) =
        some ((((commentedTable 511).take 512).map
          (updated .client001 version200.text)).map Prod.fst).flatten := by
      rw [commentedText, writtenTable_accepted (acceptLines_accepted hcstr hacc), writtenLines,
        if_pos hin, List.map_map, Option.map_some]
      exact congrArg (fun ls => some (List.flatten ls))
        (List.map_congr_left fun e _ => (updated_fst _ _ e).symm)
    rw [FileSystem.only_disk, hwritten] at he hd
    refine ⟨fs', he, ?_⟩
    have hsub : ∀ l ∈ ((commentedTable 511).take 512).map Prod.fst, cstr l = l := fun l hl => by
      rw [List.map_take] at hl
      exact hcstr l (List.mem_of_mem_take hl)
    have htable : fs'.disk .table = some ((((commentedTable 511).take 512).map
        (updated .client001 version200.text)).map Prod.fst).flatten := by
      rw [hd]
      exact Function.update_self ..
    rw [readsVersion_iff rfl, htable,
      readVersion_accepted ((hacc.take 512).updated client001_rowId version200)
        (cstr_updated client001_rowId version200 hsub),
      rowVersion_updated_of_ne (by decide), rowVersion_of_not_mem]
    · rfl
    · rw [htake, tableIds, tableIds_notes]
      decide

end UpdateFramework
