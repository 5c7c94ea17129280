import UpdateFramework.Client.TableContent

/-!
# Client — the text of a row

The row `write_version_file` adds for the client is read back as that client's (`lineEntry_own`).
After an unterminated line `l` it becomes the end of a longer line.  That line is the client's row
only where `l` is blank (`blank_of_glued`), since what stands before the first `=` is then the
client's id alone.
-/

namespace UpdateFramework

open Libc Process

/-! ### Blanks -/

/-- No blank anywhere. -/
def Solid (s : Bytes) : Prop := ∀ b ∈ s, isspace b = false

instance (s : Bytes) : Decidable (Solid s) :=
  inferInstanceAs (Decidable (∀ b ∈ s, isspace b = false))

theorem Solid.append {s t : Bytes} (hs : Solid s) (ht : Solid t) : Solid (s ++ t) := by
  intro b hb
  exact (List.mem_append.mp hb).elim (hs b) (ht b)

theorem Solid.dropWhile {s : Bytes} (h : Solid s) : s.dropWhile isspace = s := by
  cases s with
  | nil => rfl
  | cons b s => simp [List.dropWhile, h b List.mem_cons_self]

theorem Solid.no_newline {s : Bytes} (h : Solid s) : 10 ∉ s ∧ 13 ∉ s :=
  ⟨fun hb => absurd (h _ hb) (by decide), fun hb => absurd (h _ hb) (by decide)⟩

/-- What follows leading blanks and ends in no blank is kept. -/
theorem strip_append_solid (s : Bytes) {t : Bytes} (ht : Solid t) (hne : t ≠ []) :
    strip (s ++ t) = s.dropWhile isspace ++ t := by
  have hfront : (s ++ t).dropWhile isspace = s.dropWhile isspace ++ t := by
    rw [List.dropWhile_append, ht.dropWhile]
    split
    next h => simp [List.isEmpty_iff.mp h]
    next => rfl
  have hback : Solid t.reverse := fun b hb => ht b (List.mem_reverse.mp hb)
  rw [strip, hfront, List.reverse_append, List.dropWhile_append, hback.dropWhile,
    if_neg (by simpa using hne)]
  simp

theorem Solid.strip {s : Bytes} (h : Solid s) : strip s = s := strip_inked h

theorem Solid.trimText {s : Bytes} (h : Solid s) : trimText s = s := by
  rw [UpdateFramework.trimText, cutLine_eq_self h.no_newline, h.strip]

/-! ### The client's own row -/

/-- The ids `read_client_id` makes, as far as the table is concerned: one word of less than
`MAX_ID_LEN` bytes, without `=` and not a comment. -/
structure RowId (id : Bytes) : Prop where
  nonempty : id ≠ []
  fits : id.length < maxIdLen
  solid : Solid id
  no_eq : 61 ∉ id
  no_nul : 0 ∉ id
  no_hash : id.head? ≠ some 35

/-- A valid version in a `char[MAX_VERSION_STR]`. -/
structure VersionText where
  text : Bytes
  fits : text.length < maxVersionStr
  valid : verIsValid text = true

theorem parsePart_some {p q : Bytes} {n : ℕ} (h : parsePart p = some (n, q)) :
    p.takeWhile isdigit ≠ [] ∧ p = p.takeWhile isdigit ++ q := by
  unfold parsePart at h
  dsimp only at h
  split at h
  · cases h
  next hne =>
  split at h
  · cases h
  · cases h
    exact ⟨hne, (List.takeWhile_append_dropWhile).symm⟩

theorem skipDot_some {p q : Bytes} (h : skipDot p = some q) : p = 46 :: q := by
  unfold skipDot at h
  split at h
  · cases h
    rfl
  · cases h

/-- A valid version is three numbers separated by dots. -/
theorem exists_of_verIsValid {v : Bytes} (h : verIsValid v = true) :
    ∃ a b c : Bytes, v = a ++ 46 :: (b ++ 46 :: c) ∧ (a ≠ [] ∧ ∀ d ∈ a, isdigit d = true) ∧
      (b ≠ [] ∧ ∀ d ∈ b, isdigit d = true) ∧ c ≠ [] ∧ ∀ d ∈ c, isdigit d = true := by
  obtain ⟨s, hs⟩ := Option.isSome_iff_exists.mp h
  simp only [verParse, Option.bind_eq_bind, Option.bind_eq_some_iff, Prod.exists] at hs
  obtain ⟨ma, p, h₁, p', h₂, mi, q, h₃, q', h₄, pa, r, h₅, h₆⟩ := hs
  obtain ⟨hne₁, he₁⟩ := parsePart_some h₁
  obtain ⟨hne₃, he₃⟩ := parsePart_some h₃
  obtain ⟨hne₅, he₅⟩ := parsePart_some h₅
  have hr : r = [] := by
    by_contra hr
    simp [hr] at h₆
  refine ⟨_, _, _, ?_, ⟨hne₁, fun d hd => List.mem_takeWhile_imp hd⟩,
    ⟨hne₃, fun d hd => List.mem_takeWhile_imp hd⟩, hne₅, fun d hd => List.mem_takeWhile_imp hd⟩
  rw [hr, List.append_nil] at he₅
  rw [← he₅, ← skipDot_some h₄, ← he₃, ← skipDot_some h₂, ← he₁]

theorem solid_of_isdigit {s : Bytes} (h : ∀ b ∈ s, isdigit b = true) : Solid s := by
  intro b hb
  have hd := h b hb
  simp only [isdigit, Bool.and_eq_true, decide_eq_true_eq, UInt8.le_iff_toNat_le,
    UInt8.reduceToNat] at hd
  simp only [isspace, Bool.or_eq_false_iff, Bool.and_eq_false_iff, beq_eq_false_iff_ne, ne_eq,
    decide_eq_false_iff_not, UInt8.le_iff_toNat_le, UInt8.reduceToNat, ← UInt8.toNat_inj]
  omega

theorem solid_of_verIsValid {v : Bytes} (h : verIsValid v = true) : Solid v ∧ v ≠ [] := by
  obtain ⟨a, b, c, rfl, ⟨hne, ha⟩, ⟨-, hb⟩, -, hc⟩ := exists_of_verIsValid h
  have hdot : Solid [46] := by
    intro b hb
    rw [List.mem_singleton.mp hb]
    decide
  exact ⟨(solid_of_isdigit ha).append (hdot.append ((solid_of_isdigit hb).append
    (hdot.append (solid_of_isdigit hc)))), by simp⟩

/-- The client's row, before `snprintf` cuts it. -/
def rowText (id version : Bytes) : Bytes := id ++ 61 :: version

section Own

variable {id : Bytes} (hid : RowId id) (v : VersionText)

theorem VersionText.solid : Solid v.text := (solid_of_verIsValid v.valid).1

include hid in
theorem rowText_solid : Solid (rowText id v.text) := by
  have heq : Solid [61] := by
    intro b hb
    rw [List.mem_singleton.mp hb]
    decide
  exact hid.solid.append (heq.append v.solid)

theorem rowText_ne_nil : rowText id v.text ≠ [] := by
  simp [rowText]

include hid in
theorem length_rowText_lt : (rowText id v.text).length < 96 := by
  have h₁ := hid.fits
  have h₂ := v.fits
  simp only [maxIdLen, maxVersionStr] at h₁ h₂
  simp only [rowText, List.length_append, List.length_cons]
  omega

theorem ownRow_eq {cfg : ClientConfig} (hid : RowId cfg.clientId) (v : VersionText) :
    ownRow cfg v.text = rowText cfg.clientId v.text ++ [10] := by
  have h := length_rowText_lt hid v
  have htext : cfg.clientId ++ ascii "=" ++ v.text ++ ascii "\n" =
      rowText cfg.clientId v.text ++ [10] := by
    simp [rowText, ascii]
  rw [ownRow, htext]
  refine snprintf_of_lt ?_
  rw [List.length_append, List.length_singleton]
  omega

include hid in
theorem rowText_whole : Whole 255 (rowText id v.text ++ [10]) := by
  have h := length_rowText_lt hid v
  refine ⟨⟨_, rfl, (rowText_solid hid v).no_newline.1⟩, ?_⟩
  rw [List.length_append, List.length_singleton]
  omega

include hid in
/-- A row whose text is `id=version`. -/
theorem lineEntry_of_trimText {line : Bytes} (hlen : line.length ≤ 255)
    (ht : trimText line = rowText id v.text) : lineEntry line = some (.row id v.text) := by
  have hhead : (rowText id v.text).head? ≠ some 35 := by
    have h := hid.no_hash
    rw [rowText, List.head?_append]
    cases hid' : id with
    | nil => exact absurd hid' hid.nonempty
    | cons b bs => simpa [hid'] using h
  have hne : ∀ b ∈ id, decide (b ≠ 61) = true := fun b hb => by
    simpa using ne_of_mem_of_not_mem hb hid.no_eq
  have hsplit : splitRow (rowText id v.text) = some (id, v.text) := by
    rw [splitRow, if_pos (by simp [rowText]), rowText, List.takeWhile_append_of_pos hne,
      List.dropWhile_append_of_pos hne]
    simp
  rw [lineEntry, versionRowIgnorable, parseVersionRow, snprintf_of_lt (by omega), ht]
  have hfits : ¬ (id.length ≥ maxIdLen ∨ v.text.length ≥ maxVersionStr) := by
    have h₁ := hid.fits
    have h₂ := v.fits
    omega
  simp only [rowText_ne_nil, hhead, or_self, decide_false, Bool.false_eq_true, if_false, hsplit,
    hid.solid.trimText, v.solid.trimText, hfits, hid.nonempty, ne_eq, not_false_eq_true, v.valid,
    and_self, if_true, Option.map_some]

include hid in
/-- The row the client adds is read back as the client's. -/
theorem lineEntry_own : lineEntry (rowText id v.text ++ [10]) = some (.row id v.text) := by
  refine lineEntry_of_trimText hid v (rowText_whole hid v).fits ?_
  rw [trimText, cutLine_newline (rowText_solid hid v).no_newline, (rowText_solid hid v).strip]

end Own

/-! ### After an unterminated line -/

/-- A line is taken for the same as any other with the same text between its blanks. -/
theorem lineEntry_congr {l k : Bytes} (hl : l.length ≤ 255) (hk : k.length ≤ 255)
    (h : trimText l = trimText k) : lineEntry l = lineEntry k := by
  simp only [lineEntry, versionRowIgnorable, parseVersionRow, snprintf_of_lt (Nat.lt_succ_of_le hl),
    snprintf_of_lt (Nat.lt_succ_of_le hk), h]

/-- The id of a row is what stands on the left. -/
theorem lineEntry_row_left {l id w : Bytes} (hl : l.length ≤ 255)
    (h : lineEntry l = some (.row id w)) :
    (trimText l).head? ≠ some 35 ∧ ∃ left right, splitRow (trimText l) = some (left, right) ∧
      id = trimText (trimText left) := by
  unfold lineEntry at h
  split at h
  · cases h
  obtain ⟨⟨i, v⟩, hp, he⟩ := Option.map_eq_some_iff.mp h
  cases he
  rw [parseVersionRow, snprintf_of_lt (Nat.lt_succ_of_le hl)] at hp
  dsimp only at hp
  split at hp
  · cases hp
  next hne =>
  simp only [not_or] at hne
  split at hp
  · cases hp
  next left right hs =>
  split at hp
  · cases hp
  split at hp
  · cases hp
    exact ⟨hne.2, left, right, hs, rfl⟩
  · cases hp

theorem splitRow_of_mem {s : Bytes} (h : 61 ∈ s) :
    splitRow s = some (s.takeWhile (· ≠ 61), (s.dropWhile (· ≠ 61)).tail) := by
  rw [splitRow, if_pos h]

/-- What stands before the first `=` of a text, and of any beginning of it that has one. -/
theorem takeWhile_eq_of_prefix {s t : Bytes} (h : s <+: t) (hm : 61 ∈ s) :
    t.takeWhile (· ≠ 61) = s.takeWhile (· ≠ 61) := by
  obtain ⟨r, rfl⟩ := h
  rw [List.takeWhile_append, if_neg]
  intro hlen
  have := List.takeWhile_eq_self_iff.mp ((List.takeWhile_prefix _).eq_of_length hlen) 61 hm
  simp at this

section Glued

variable {id : Bytes} (hid : RowId id) (v : VersionText) {l : Bytes} (hl : 10 ∉ l)

include hid hl in
theorem trimText_glued (hcr : 13 ∉ l) :
    trimText (l ++ (rowText id v.text ++ [10])) = l.dropWhile isspace ++ rowText id v.text := by
  have hsolid := rowText_solid hid v
  have hcut : 10 ∉ l ++ rowText id v.text ∧ 13 ∉ l ++ rowText id v.text := by
    simp [hl, hcr, hsolid.no_newline]
  rw [trimText, ← List.append_assoc, cutLine_newline hcut,
    strip_append_solid l hsolid (rowText_ne_nil v)]

include hid hl in
/-- After blanks the client's row is still its row. -/
theorem lineEntry_glued_of_blank (hblank : ∀ b ∈ l, isspace b = true) (hcr : 13 ∉ l)
    (hlen : (l ++ (rowText id v.text ++ [10])).length ≤ 255) :
    lineEntry (l ++ (rowText id v.text ++ [10])) = some (.row id v.text) := by
  refine lineEntry_of_trimText hid v hlen ?_
  rw [trimText_glued hid v hl hcr, List.dropWhile_eq_nil_iff.mpr hblank]
  rfl

include hid hl in
/-- After any other line that is not the client's it is not. -/
theorem blank_of_glued {t : TableLine} {w : Bytes} (ht : lineEntry l = some t)
    (hother : ∀ w, t ≠ .row id w) (hlen : (l ++ (rowText id v.text ++ [10])).length ≤ 255)
    (h : lineEntry (l ++ (rowText id v.text ++ [10])) = some (.row id w)) :
    (∀ b ∈ l, isspace b = true) ∧ 13 ∉ l ∧ w = v.text := by
  have hlenl : l.length ≤ 255 := by
    rw [List.length_append] at hlen
    omega
  have hcr : 13 ∉ l := by
    intro hcr
    -- the carriage return ends both lines
    have hcut : trimText (l ++ (rowText id v.text ++ [10])) = trimText l := by
      rw [trimText, cutLine_append_of_mem hcr, trimText]
    rw [lineEntry_congr hlen hlenl hcut, ht] at h
    exact hother w (Option.some.inj h)
  have htrim := trimText_glued hid v hl hcr
  by_cases hblank : l.dropWhile isspace = []
  · have hall := List.dropWhile_eq_nil_iff.mp hblank
    rw [lineEntry_glued_of_blank hid v hl hall hcr hlen] at h
    cases h
    exact ⟨hall, hcr, rfl⟩
  exfalso
  obtain ⟨hhash, left, right, hsplit, hleft⟩ := lineEntry_row_left hlen h
  rw [htrim, splitRow_of_mem (by simp [rowText])] at hsplit
  have hsub : l.dropWhile isspace ⊆ l := (List.dropWhile_suffix _).subset
  by_cases heq : 61 ∈ l.dropWhile isspace
  · -- the id is that of `l` itself
    have htrimL : trimText l = strip l := by rw [trimText, cutLine_eq_self ⟨hl, hcr⟩]
    have hmem : 61 ∈ strip l := mem_strip (hsub heq) (by decide)
    have hleftL : (l.dropWhile isspace ++ rowText id v.text).takeWhile (· ≠ 61) =
        (strip l).takeWhile (· ≠ 61) :=
      takeWhile_eq_of_prefix ( strip_isPrefix l |>.trans (List.prefix_append _ _)) hmem
    have hheadL : (strip l).head? ≠ some 35 := by
      obtain ⟨r, hr⟩ := strip_isPrefix l
      intro hh
      refine hhash ?_
      rw [htrim, ← hr, List.append_assoc, List.head?_append, hh]
      rfl
    have hne : strip l ≠ [] := List.ne_nil_of_mem hmem
    have hnote : versionRowIgnorable l = false := by
      simp [versionRowIgnorable, snprintf_of_lt (Nat.lt_succ_of_le hlenl), htrimL, hne, hheadL]
    rw [lineEntry, hnote, if_neg (by simp)] at ht
    obtain ⟨⟨i, u⟩, hp, rfl⟩ := Option.map_eq_some_iff.mp ht
    have hrow : lineEntry l = some (.row i u) := by
      rw [lineEntry, hnote, hp]
      rfl
    obtain ⟨-, left', right', hsplit', hi⟩ := lineEntry_row_left hlenl hrow
    rw [htrimL, splitRow_of_mem hmem] at hsplit'
    cases hsplit
    cases hsplit'
    refine hother u (congrArg (TableLine.row · u) ?_)
    rw [hleft, hi, hleftL]
  · -- the id starts with what `l` holds
    have hpos : ∀ b ∈ l.dropWhile isspace ++ id, decide (b ≠ 61) = true := by
      intro b hb
      simpa using ne_of_mem_of_not_mem hb (by simp [heq, hid.no_eq])
    have hleft' : left = l.dropWhile isspace ++ id := by
      obtain ⟨hfst, -⟩ := Prod.mk.inj (Option.some.inj hsplit)
      rw [← hfst, rowText, ← List.append_assoc, List.takeWhile_append_of_pos hpos]
      simp
    have hkeep : trimText (l.dropWhile isspace ++ id) = l.dropWhile isspace ++ id := by
      have hcut : 10 ∉ l.dropWhile isspace ++ id ∧ 13 ∉ l.dropWhile isspace ++ id := by
        have h₁ := hid.solid.no_newline
        simp only [List.mem_append, not_or]
        exact ⟨⟨fun h => hl (hsub h), h₁.1⟩, fun h => hcr (hsub h), h₁.2⟩
      rw [trimText, cutLine_eq_self hcut, strip_append_solid _ hid.solid hid.nonempty,
        dropWhile_dropWhile]
    rw [hleft', hkeep, hkeep] at hleft
    exact hblank (List.append_left_eq_self.mp hleft.symm)

end Glued

end UpdateFramework
