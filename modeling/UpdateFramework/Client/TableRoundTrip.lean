import UpdateFramework.Client.TableUpdate

/-!
# Client — the version table returns what was written

`write_version_file` adds the row of a client that has none at the end of the table.  Where the
table's last line is unterminated the row is glued to it, and the reader finds another row, a
comment, or a line it does not accept.  `RoundTrips` lists the tables on which the version
written is the version read; `version_roundTrips_iff` proves the list complete.
-/

namespace UpdateFramework

open Libc FileSystem

/-- The client's row, glued to the unterminated line `l`, lets the reader report `v`. -/
inductive Glues (id : Bytes) (v : VersionText) (earlier l : Bytes) : Prop where
  /-- `l` is blank. -/
  | blank (hblank : ∀ b ∈ l, isspace b = true) (hcr : 13 ∉ l)
      (hfits : (l ++ (rowText id v.text ++ [10])).length ≤ 255)
  /-- The line is taken for something else, and `v` is what a client without a row has. -/
  | default (hv : v.text = ascii "0.0.0")
      (hfits : (l ++ (rowText id v.text ++ [10])).length ≤ 255) (t : TableLine)
      (ht : lineEntry (l ++ (rowText id v.text ++ [10])) = some t)
      (hfresh : ∀ i w, t = .row i w → ¬ HasRow i earlier)

/-- The tables on which what is written for `id` is read again. -/
inductive RoundTrips (id : Bytes) (v : VersionText) (c : Bytes) : Prop where
  | terminated (h : Terminated c)
  | row (h : HasRow id c)
  /-- The writer returns `-1`. -/
  | full (h : 512 ≤ (textLines 254 c).length)
  | glued (h : Glues id v (earlierLines c) (lastLine c))

section

variable {cfg : ClientConfig} (hid : RowId cfg.clientId) (v : VersionText)

include hid in
/-- A glued line within the buffer is a whole one. -/
theorem glued_whole {l : Bytes} (hl : 10 ∉ l)
    (hfits : (l ++ (rowText cfg.clientId v.text ++ [10])).length ≤ 255) :
    Whole 255 (l ++ (rowText cfg.clientId v.text ++ [10])) := by
  refine ⟨⟨l ++ rowText cfg.clientId v.text, by simp, ?_⟩, hfits⟩
  simp [hl, (rowText_solid hid v).no_newline]

include hid in
theorem glued_no_nul {l : Bytes} (hl : 0 ∉ l) :
    0 ∉ l ++ (rowText cfg.clientId v.text ++ [10]) := by
  simp [hl, rowText, hid.no_nul, v.no_nul]

/-- What the reader reports once a line that fits follows the whole lines of a table. -/
theorem readVersion_snoc {es : List (Bytes × TableLine)} (hes : Accepted es)
    (hcstr : ∀ l ∈ es.map Prod.fst, cstr l = l) (hw : ∀ l ∈ es.map Prod.fst, Whole 255 l)
    (hlen : es.length < 512) {g : Bytes} (hg : Whole 255 g) (hnul : 0 ∉ g) (id : Bytes) :
    readVersion id (some ((es.map Prod.fst).flatten ++ g)) =
      match lineEntry g with
      | none => none
      | some .note => some ((rowVersion id none es).getD (ascii "0.0.0"))
      | some (.row i w) =>
        if i ∈ tableIds es then none
        else some ((rowVersion id none (es ++ [(g, .row i w)])).getD (ascii "0.0.0")) := by
  have hids : (tableIds es).length < 512 := Nat.lt_of_le_of_lt (length_tableIds_le es) hlen
  have hlast : textLines 254 g = [(g, false)] := by simpa using textLines_whole hg []
  have hfirst : acceptLines [] ((es.map Prod.fst).map (·, false)) = some es := by
    have h := acceptLines_accepted hcstr hes
    rwa [← List.append_nil (es.map Prod.fst).flatten, textLines_flatten_append hw,
      textLines_nil, List.append_nil] at h
  rw [readVersion, textLines_flatten_append hw, hlast, acceptLines_append hfirst, List.nil_append]
  cases ha : acceptLine (tableIds es) (cstr g) false with
  | some a =>
      obtain ⟨t, seen⟩ := a
      rw [acceptLines_cons_some ha]
      rw [cstr_eq_self hnul] at ha ⊢
      obtain ⟨-, ht, hseen⟩ := acceptLine_some.mp ha
      rw [ht]
      cases t with
      | note => simp [acceptLines, rowVersion_append, rowVersion]
      | row i w => simp [acceptLines, hseen.1]
  | none =>
      rw [acceptLines_cons_none ha]
      rw [cstr_eq_self hnul] at ha
      have hnone : ∀ t seen, acceptLine (tableIds es) g false ≠ some (t, seen) := by simp [ha]
      cases ht : lineEntry g with
      | none => rfl
      | some t =>
          cases t with
          | note => exact absurd (acceptLine_some.mpr ⟨.inl hg.mem, ht, rfl⟩) (hnone _ _)
          | row i w =>
              by_cases hi : i ∈ tableIds es
              · simp [hi]
              · exact absurd (acceptLine_some.mpr ⟨.inl hg.mem, ht, hi, hids, rfl⟩) (hnone _ _)

/-- A glued line that does not fit is not accepted. -/
theorem readVersion_cut {es : List (Bytes × TableLine)}
    (hw : ∀ l ∈ es.map Prod.fst, Whole 255 l) {l : Bytes} (hl : 10 ∉ l) (hlen : 255 ≤ l.length)
    (s id : Bytes) : readVersion id (some ((es.map Prod.fst).flatten ++ (l ++ s))) = none := by
  obtain ⟨k, hk, h10⟩ := exists_cut hl hlen s
  rw [readVersion, textLines_flatten_append hw, Option.map_eq_none_iff]
  by_contra hne
  obtain ⟨fs, hfs⟩ := Option.ne_none_iff_exists'.mp hne
  rcases fits_of_acceptLines hfs _ (List.mem_append_right _ hk) with h | h
  · exact h10 ((List.takeWhile_prefix _).subset h)
  · cases h

include hid in
/-- The row glued to an unterminated line lets the version be read exactly where `Glues` says. -/
theorem glues_iff {es : List (Bytes × TableLine)} {l : Bytes} {t : TableLine}
    (hes : Accepted es) (hcstr : ∀ k ∈ es.map Prod.fst, cstr k = k)
    (hw : ∀ k ∈ es.map Prod.fst, Whole 255 k) (hlen : es.length < 512) (hl : 10 ∉ l)
    (hnul : 0 ∉ l) (ht : lineEntry l = some t) (hnew : cfg.clientId ∉ tableIds (es ++ [(l, t)])) :
    readVersion cfg.clientId (some ((es.map Prod.fst).flatten ++
        (l ++ (rowText cfg.clientId v.text ++ [10])))) = some v.text ↔
      Glues cfg.clientId v (es.map Prod.fst).flatten l := by
  have hother : ∀ w, t ≠ .row cfg.clientId w := by
    rintro w rfl
    exact hnew (by simp [tableIds])
  have hnew' : cfg.clientId ∉ tableIds es := by
    simp only [tableIds_append, List.mem_append, not_or] at hnew
    exact hnew.1
  have hnone : rowVersion cfg.clientId none es = none := rowVersion_of_not_mem hnew' none
  by_cases hfits : (l ++ (rowText cfg.clientId v.text ++ [10])).length ≤ 255
  · have hg := glued_whole hid v hl hfits
    rw [readVersion_snoc hes hcstr hw hlen hg (glued_no_nul hid v hnul)]
    constructor
    · intro h
      split at h
      · cases h
      next hline =>
        rw [hnone] at h
        exact .default (Option.some.inj h).symm hfits _ hline (by simp)
      next i w hline =>
        split at h
        · cases h
        next hfresh =>
        rw [rowVersion_append, hnone, rowVersion, rowVersion] at h
        by_cases hi : i = cfg.clientId
        · subst hi
          obtain ⟨hblank, hcr, -⟩ := blank_of_glued hid v hl ht hother hfits hline
          exact .blank hblank hcr hfits
        · rw [if_neg hi] at h
          refine .default (Option.some.inj h).symm hfits _ hline fun j u hj => ?_
          cases hj
          rwa [hes.hasRow_iff]
    · intro h
      cases h with
      | blank hblank hcr =>
          rw [lineEntry_glued_of_blank hid v hl hblank hcr hfits]
          simp [hnew', rowVersion_append, rowVersion]
      | default hv _ t' ht' hfresh =>
          rw [ht']
          cases t' with
          | note => simp [hnone, hv]
          | row i w =>
              have hi : i ∉ tableIds es := by
                rw [← hes.hasRow_iff]
                exact hfresh i w rfl
              simp only [hi, if_false, rowVersion_append, hnone, rowVersion]
              by_cases hown : i = cfg.clientId
              · subst hown
                obtain ⟨-, -, rfl⟩ := blank_of_glued hid v hl ht hother hfits ht'
                simp
              · simp [hown, hv]
  · have hcut : readVersion cfg.clientId (some ((es.map Prod.fst).flatten ++
        (l ++ (rowText cfg.clientId v.text ++ [10])))) = none := by
      rw [← List.append_assoc l]
      refine readVersion_cut hw (by simp [hl, (rowText_solid hid v).no_newline]) ?_ _ _
      simp only [List.length_append, List.length_singleton] at hfits ⊢
      omega
    rw [hcut]
    constructor
    · intro h
      cases h
    · intro h
      cases h with
      | blank _ _ h => exact absurd h hfits
      | default _ h => exact absurd h hfits

include hid in
/-- On a text the reader accepts, what is written is read again exactly where `RoundTrips` says. -/
theorem written_read_iff {c : Bytes} {es : List (Bytes × TableLine)}
    (h : acceptLines [] (textLines 254 c) = some es) (hnul : 0 ∉ c) :
    (∀ c', writtenTable cfg v.text (some c) = some c' →
        readVersion cfg.clientId (some c') = some v.text) ↔
      RoundTrips cfg.clientId v c := by
  obtain ⟨hes, hc, hcstr⟩ := accepted_of_acceptLines h (.inl hnul)
  have hlines : (textLines 254 c).length = es.length := (length_of_acceptLines h).symm
  have hrow : HasRow cfg.clientId c ↔ cfg.clientId ∈ tableIds es := by rw [hc, hes.hasRow_iff]
  rw [writtenTable_accepted h]
  by_cases hin : cfg.clientId ∈ tableIds (es.take 512)
  · -- the client's row is replaced
    refine iff_of_true (fun c' hc' => ?_) (.row (hrow.mpr ?_))
    · have hupd := (hes.take 512).updated hid v
      have htake : ∀ l ∈ (es.take 512).map Prod.fst, cstr l = l := fun l hl => by
        rw [List.map_take] at hl
        exact hcstr l (List.mem_of_mem_take hl)
      have hcstr' := cstr_updated hid v htake
      rw [writtenLines, if_pos hin] at hc'
      have hfst : (es.take 512).map (rewritten cfg v.text) =
          ((es.take 512).map (updated cfg v.text)).map Prod.fst := by
        rw [List.map_map]
        exact List.map_congr_left fun e _ => (updated_fst cfg v.text e).symm
      rw [hfst] at hc'
      cases hc'
      rw [readVersion_accepted hupd hcstr', rowVersion_updated hin]
      rfl
    · exact (tableIds_take_sublist es 512).subset hin
  by_cases hfull : 512 ≤ es.length
  · -- there is no room for another line
    refine iff_of_true (fun c' hc' => ?_) (.full (hlines ▸ hfull))
    rw [writtenLines, if_neg hin, if_pos (by simpa using hfull)] at hc'
    cases hc'
  have hall : es.take 512 = es := List.take_of_length_le (by omega)
  rw [hall] at hin ⊢
  rw [writtenLines, if_neg hin, if_neg (by omega), map_rewritten_of_not_mem hin, ownRow_eq hid]
  simp only [Option.map_some, Option.some.injEq, List.flatten_append, List.flatten_singleton,
    forall_eq', ← hc]
  by_cases hterm : Terminated c
  · -- the row is added after whole lines
    refine iff_of_true ?_ (.terminated hterm)
    have hadd := hes.added hid v (hes.physical.whole (hc ▸ hterm)) hin (by omega)
    have hread := readVersion_accepted hadd (fun l hl => ?_) cfg.clientId
    · rw [rowVersion_append, rowVersion_of_not_mem hin, ownRow_eq hid, List.map_append,
        List.flatten_append, ← hc] at hread
      simpa [rowVersion] using hread
    · rw [List.map_append, List.mem_append] at hl
      rcases hl with hl | hl
      · exact hcstr l hl
      · rw [List.map_singleton, List.mem_singleton] at hl
        exact hl ▸ cstr_eq_self (ownRow_no_nul hid v)
  -- the row is glued to the unterminated line
  obtain ⟨ks, l, hks, hw, hl⟩ := hes.physical.exists_last (hc ▸ hterm)
  obtain ⟨fs, e, rfl⟩ := List.eq_nil_or_concat es |>.resolve_left (by rintro rfl; simp at hks)
  obtain ⟨k, t⟩ := e
  simp only [List.concat_eq_append, List.map_append, List.map_singleton] at hks hes hin hcstr hc
  obtain ⟨rfl, hkl⟩ := List.append_inj' hks rfl
  cases hkl
  have hfs : Accepted fs := by simpa using hes.take fs.length
  have hcl : c = (fs.map Prod.fst).flatten ++ l := by simpa using hc
  have hlast := lastLine_append (terminated_flatten hw) hl.open_end
  rw [← hcl] at hlast
  have hglue := glues_iff hid v hfs (fun k hk => hcstr k (List.mem_append_left _ hk)) hw
    (by simp at hfull; omega) hl.open_end (fun h0 => hnul (hcl ▸ List.mem_append_right _ h0))
    (hes.entries (l, t) (by simp)) hin
  rw [hcl, List.append_assoc, hglue, ← hcl]
  constructor
  · intro hg
    exact .glued (by rw [hlast.1, hlast.2]; exact hg)
  · intro hr
    cases hr with
    | terminated ht => exact absurd ht hterm
    | row hr => exact absurd (hrow.mp hr) (by simpa using hin)
    | full hfu => exact absurd (hlines ▸ hfu) hfull
    | glued hg =>
        rw [hlast.1, hlast.2] at hg
        exact hg

end

/-! ### The programs -/

/-- A run of `getCurrentVersion` returns `0` with `w`. -/
def ReadsVersion (cfg : ClientConfig) (fs : FileSystem Path) (w : Bytes) : Prop :=
  ∃ N, ∀ n, N ≤ n → ∃ fs', FileSystem.eval (getCurrentVersion n cfg) fs = some (some w, fs')

/-- With `CURRENT_VERSION` unset it is what the table says. -/
theorem readsVersion_iff {cfg : ClientConfig} (hcur : cfg.currentVersion = [])
    (fs : FileSystem Path) (w : Bytes) :
    ReadsVersion cfg fs w ↔ readVersion cfg.clientId (fs.disk .table) = some w := by
  constructor
  · rintro ⟨N, hN⟩
    obtain ⟨fs', he⟩ :=
      hN (max N ((textLines 254 ((fs.disk .table).getD [])).length + 1)) (Nat.le_max_left _ _)
    rcases getCurrentVersion_eval hcur (max N _) fs with ⟨hnone, -⟩ | ⟨fs'', hsome, -⟩
    · rw [hnone] at he
      cases he
    · rw [hsome] at he
      exact (Prod.mk.inj (Option.some.inj he)).1
  · intro h
    refine ⟨(textLines 254 ((fs.disk .table).getD [])).length + 1, fun n hn => ?_⟩
    rcases getCurrentVersion_eval hcur n fs with ⟨-, c, hc, hle⟩ | ⟨fs', hsome, -⟩
    · rw [hc, Option.getD_some] at hn
      omega
    · exact ⟨fs', by rw [hsome, h]⟩

/-- A table that holds no NUL. -/
def NulFree (fs : FileSystem Path) : Prop := ∀ c, fs.disk .table = some c → 0 ∉ c

/-- **The version table returns what was written**, exactly on the tables of `RoundTrips`: where the
reader accepts the table, a successful write is read again. -/
theorem version_roundTrips_iff {cfg : ClientConfig} (hcur : cfg.currentVersion = [])
    (hfile : cfg.clientVersionFile ≠ []) (hid : RowId cfg.clientId) (v : VersionText)
    {fs : FileSystem Path} (hnul : NulFree fs) {w : Bytes} (hread : ReadsVersion cfg fs w) :
    (∀ fs', FileSystem.eval (writeVersionFile cfg v.text) fs = some (true, fs') →
        ReadsVersion cfg fs' v.text) ↔
      RoundTrips cfg.clientId v ((fs.disk .table).getD []) := by
  rw [readsVersion_iff hcur, readVersion_getD] at hread
  obtain ⟨es, hes, -⟩ := Option.map_eq_some_iff.mp hread
  have h0 : 0 ∉ (fs.disk .table).getD [] := by
    cases hc : fs.disk .table with
    | none => simp
    | some c => exact hnul c hc
  rw [← written_read_iff hid v hes h0]
  obtain ⟨fs₁, he, hd⟩ := writeVersionFile_eval cfg hfile hid.nonempty v.text fs
  rw [writtenTable_getD] at he hd
  constructor
  · intro h c' hc'
    rw [hc'] at he hd
    have := h fs₁ he
    rw [readsVersion_iff hcur, hd] at this
    simpa using this
  · intro h fs' hfs'
    rw [he] at hfs'
    obtain ⟨hsome, rfl⟩ := Prod.mk.inj (Option.some.inj hfs')
    obtain ⟨c', hc'⟩ := Option.isSome_iff_exists.mp hsome
    rw [hc'] at hd
    rw [readsVersion_iff hcur, hd]
    simpa using h c' hc'

/-! ### A table with and one without a newline at its end -/

theorem client001_rowId : RowId ClientConfig.client001.clientId := by
  have hall : ∀ id : Bytes, id = ascii "client_001" → id ≠ [] ∧ id.length < maxIdLen ∧ Solid id ∧
      61 ∉ id ∧ 0 ∉ id ∧ id.head? ≠ some 35 := by
    rintro id rfl
    decide +kernel
  obtain ⟨hne, hfits, hsolid, heq, hnul, hhash⟩ := hall _ rfl
  exact ⟨hne, hfits, hsolid, heq, hnul, hhash⟩

/-- `2.0.0` -/
def version200 : VersionText := ⟨ascii "2.0.0", by decide, by decide⟩

/-- Another client's row, without a newline. -/
def foreignRow : Bytes := ascii "client_002=1.2.0"

theorem foreignRow_lines : textLines 254 foreignRow = [(foreignRow, true)] :=
  textLines_unended ⟨by decide, by decide, by decide⟩

theorem foreignRow_accepted :
    acceptLines [] (textLines 254 foreignRow) =
      some [(foreignRow, .row (ascii "client_002") (ascii "1.2.0"))] := by
  rw [foreignRow_lines]
  decide

/-- With a newline after it, the new client's version is read again. -/
theorem version_roundTrips_terminated :
    ReadsVersion .client001 (.only .table (foreignRow ++ [10])) (ascii "0.0.0") ∧
      ∀ fs', FileSystem.eval (writeVersionFile .client001 version200.text)
          (.only .table (foreignRow ++ [10])) = some (true, fs') →
        ReadsVersion .client001 fs' version200.text := by
  have hlines : textLines 254 (foreignRow ++ [10]) = [(foreignRow ++ [10], false)] := by
    have hw : Whole 255 (foreignRow ++ [10]) := ⟨⟨foreignRow, rfl, by decide⟩, by decide⟩
    simpa using textLines_whole hw []
  have hread : ReadsVersion .client001 (.only .table (foreignRow ++ [10])) (ascii "0.0.0") := by
    rw [readsVersion_iff rfl, FileSystem.only_disk, readVersion, hlines]
    decide
  refine ⟨hread, (version_roundTrips_iff rfl (by decide) client001_rowId version200 ?_ hread).mpr
    (.terminated (by decide))⟩
  rintro c hc
  cases hc
  decide

/-- Without one, the write is reported as a success, and then the version cannot be read. -/
theorem unterminated_row_glued :
    ReadsVersion .client001 (.only .table foreignRow) (ascii "0.0.0") ∧
      ∃ fs', FileSystem.eval (writeVersionFile .client001 version200.text)
          (.only .table foreignRow) = some (true, fs') ∧
        ¬ ReadsVersion .client001 fs' version200.text := by
  constructor
  · rw [readsVersion_iff rfl, FileSystem.only_disk, readVersion, foreignRow_accepted]
    decide
  · obtain ⟨fs', he, hd⟩ := writeVersionFile_eval .client001 (by decide) (by decide)
      version200.text (.only .table foreignRow)
    have hw : writtenTable .client001 version200.text (some foreignRow) =
        some (foreignRow ++ (rowText (ascii "client_001") version200.text ++ [10])) := by
      rw [writtenTable_accepted foreignRow_accepted]
      decide
    rw [FileSystem.only_disk, hw] at he hd
    refine ⟨fs', he, ?_⟩
    rw [readsVersion_iff rfl, hd]
    have hline : Whole 255 (foreignRow ++ (rowText (ascii "client_001") version200.text ++ [10])) :=
      glued_whole client001_rowId version200 (by decide) (by decide)
    have hlines := textLines_whole hline []
    rw [List.append_nil, textLines_nil] at hlines
    simp only [Function.update_self, readVersion, hlines]
    decide

end UpdateFramework
