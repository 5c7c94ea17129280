import UpdateFramework.Common.ConfigLines

/-!
# Common — the value of a key, as stated and as seen

A file states a value for a key where one of its lines gives it.  `cfg_load` sees the pieces of at
most 1023 bytes the lines are cut into, each up to its first NUL (`foldlM_readLines_iff`).  Of a line
that gives a key it sees the key as well, with what stands behind it in the piece
(`entry_in_pieces`); so a value that is seen is no longer than the one stated, but for blanks
(`seen_of_cut`).
-/

namespace UpdateFramework

open Collections Libc Process

/-! ### Lines around their first `=` -/

section Split

variable {line pre post key value : Bytes}

/-- What a line with a `=` says. -/
theorem directive_split (h : cutLine line = pre ++ 61 :: post) (h61 : 61 ∉ pre) :
    directive line =
      if (strip pre).head? = some 35 then .nothing
      else if strip pre = [] ∨ (strip pre).length ≥ maxKeyLen ∨ (strip post).length ≥ maxValueLen then
        .malformed
      else .entry (strip pre) (strip post) := by
  have hspace : isspace 61 = false := rfl
  have hfront : 61 ∉ pre.dropWhile isspace := fun hm => h61 ((List.dropWhile_suffix _).subset hm)
  have hs := strip_around hspace pre post
  have hkey : (pre.dropWhile isspace ++ 61 :: (post.reverse.dropWhile isspace).reverse).takeWhile
      (· ≠ 61) = pre.dropWhile isspace := takeWhile_before hfront _
  have hvalue : (pre.dropWhile isspace ++ 61 :: (post.reverse.dropWhile isspace).reverse).dropWhile
      (· ≠ 61) = 61 :: (post.reverse.dropWhile isspace).reverse := by
    have hall : ∀ b ∈ pre.dropWhile isspace, decide (b ≠ 61) = true := fun b hb =>
      decide_eq_true (ne_of_mem_of_not_mem hb hfront)
    rw [List.dropWhile_append_of_pos hall, List.dropWhile_cons_of_neg (by decide)]
  have hhead : (pre.dropWhile isspace ++ 61 :: (post.reverse.dropWhile isspace).reverse).head? =
      some 35 ↔ (strip pre).head? = some 35 := by
    rw [head_strip]
    cases pre.dropWhile isspace with
    | nil => simp
    | cons b bs => rfl
  rw [directive, h, hs]
  simp only [hkey, hvalue, hhead, List.tail_cons, strip_dropWhile, strip_reverse_dropWhile,
    List.append_eq_nil_iff, List.mem_append, List.mem_cons, reduceCtorEq, and_false, false_or,
    true_or, or_true, not_true_eq_false, if_false]

/-- A line that is an entry has a `=`. -/
theorem split_of_entry (h : directive line = .entry key value) :
    ∃ pre post, cutLine line = pre ++ 61 :: post ∧ 61 ∉ pre ∧ key = strip pre ∧
      value = strip post ∧ (strip pre).head? ≠ some 35 ∧ strip pre ≠ [] := by
  have h61 : 61 ∈ cutLine line := by
    by_contra h61
    have hs : 61 ∉ strip (cutLine line) := fun hm =>
      h61 ((List.dropWhile_suffix _).subset ((strip_isPrefix _).subset hm))
    simp only [directive, if_pos hs] at h
    split at h <;> cases h
  obtain ⟨pre, post, hcut, hpre⟩ := List.eq_append_cons_of_mem h61
  rw [directive_split hcut hpre] at h
  split at h
  · cases h
  next hhead =>
    split at h
    · cases h
    next hlimits =>
      cases h
      exact ⟨pre, post, hcut, hpre, rfl, rfl, hhead, fun hnil => hlimits (.inl hnil)⟩

/-- A line without a `=` is blank, a comment or malformed. -/
theorem malformed_of_not_mem (h61 : 61 ∉ cutLine line) (hblank : ¬ Blank (cutLine line))
    (hhead : (strip (cutLine line)).head? ≠ some 35) : directive line = .malformed := by
  have hs : 61 ∉ strip (cutLine line) := fun hm =>
    h61 ((List.dropWhile_suffix _).subset ((strip_isPrefix _).subset hm))
  have hskip : ¬ (strip (cutLine line) = [] ∨ (strip (cutLine line)).head? = some 35) :=
    not_or.mpr ⟨mt strip_eq_nil.mp hblank, hhead⟩
  simp only [directive, if_neg hskip, if_pos hs]

end Split

/-! ### A line and its pieces -/

/-- What comes before the first `b`. -/
theorem prefix_before {b : UInt8} {u pre post : Bytes} (hu : b ∉ u)
    (h : u <+: pre ++ b :: post) : u <+: pre := by
  refine List.prefix_of_prefix_length_le h (List.prefix_append _ _) ?_
  by_contra hlt
  have hpre : pre ++ [b] <+: u := by
    refine List.prefix_of_prefix_length_le ⟨post, by simp⟩ h ?_
    rw [List.length_append]
    exact Nat.not_le.mp hlt
  exact hu (hpre.subset (by simp))

theorem cutLine_cstr (s : Bytes) : cutLine (cstr s) = cstr (cutLine s) := by
  rw [cutLine, cutLine, cstr, cstr, List.takeWhile_takeWhile, List.takeWhile_takeWhile]
  refine congrArg (List.takeWhile · s) (funext fun b => ?_)
  simp only [and_comm]

/-- A piece that begins an entry is an entry with the same key, and what is seen of the value. -/
theorem directive_piece {piece s key value pre post : Bytes} (hbegins : cutLine piece <+: s)
    (hblank : ¬ Blank (cutLine piece)) (hs : s = pre ++ 61 :: post) (h61 : 61 ∉ pre)
    (hkey : key = strip pre) (hvalue : value = strip post) (hhead : (strip pre).head? ≠ some 35)
    (hnil : strip pre ≠ []) (hnul : 0 ∉ key) (hformed : directive (cstr piece) ≠ .malformed) :
    ∃ value', directive (cstr piece) = .entry key value' ∧ ink value' ≤ ink value := by
  have hcut : cutLine (cstr piece) <+: cutLine piece := by
    rw [cutLine_cstr]
    exact List.takeWhile_prefix _
  have hseen : cutLine (cstr piece) <+: pre ++ 61 :: post := hs ▸ hcut.trans hbegins
  by_cases hmem : 61 ∈ cutLine (cstr piece)
  · -- the key is seen, and a part of the value
    obtain ⟨pre', post', hsplit, hpre'⟩ := List.eq_append_cons_of_mem hmem
    obtain ⟨rest, hrest⟩ := hseen
    rw [hsplit, List.append_assoc, List.cons_append] at hrest
    have hsame : pre' = pre := by
      rw [← takeWhile_before hpre' (post' ++ rest), hrest, takeWhile_before h61]
    subst hsame
    obtain rfl : post = post' ++ rest := (List.cons.inj (List.append_cancel_left hrest)).2.symm
    rw [directive_split hsplit hpre', if_neg hhead] at hformed ⊢
    split at hformed
    · exact absurd rfl hformed
    next hlimits =>
      refine ⟨strip post', ?_, ?_⟩
      · rw [if_neg hlimits, hkey]
      · rw [hvalue, ink_strip, ink_strip, ink_append]
        exact Nat.le_add_right _ _
  · exfalso
    have hbefore := prefix_before hmem hseen
    by_cases hb : Blank (cutLine (cstr piece))
    · -- then a NUL comes next, and it would be in the key
      have hzero : cutLine (cstr piece) ++ [0] <+: cutLine piece := by
        rw [cutLine_cstr] at hb ⊢
        have h0 : 0 ∈ cutLine piece := by
          by_contra h0
          exact hblank (cstr_eq_self h0 ▸ hb)
        obtain ⟨before, after, hsplit, hbefore⟩ := List.eq_append_cons_of_mem h0
        rw [hsplit, cstr_append_zero hbefore]
        exact ⟨after, by simp⟩
      have h61' : 61 ∉ cutLine (cstr piece) ++ [0] := by
        rw [List.mem_append, not_or]
        exact ⟨hmem, by decide⟩
      have hin : 0 ∈ pre := (prefix_before h61' (hs ▸ hzero.trans hbegins)).subset (by simp)
      exact hnul (hkey ▸ mem_strip hin rfl)
    · obtain ⟨rest, rfl⟩ := hbefore
      refine hformed (malformed_of_not_mem hmem hb ?_)
      rwa [← head_strip_append hb rest]

/-- **The key is seen.**  Of the pieces of a line that gives a key, one gives the key, and a value
with no more in it than the line has. -/
theorem entry_in_pieces {ps : List Bytes} (h10 : ∀ p ∈ ps, 10 ∉ p)
    (hformed : ∀ p ∈ ps, directive (cstr p) ≠ .malformed) {key value : Bytes} (hnul : 0 ∉ key)
    (h : directive ps.flatten = .entry key value) :
    ∃ p ∈ ps, ∃ value', directive (cstr p) = .entry key value' ∧ ink value' ≤ ink value := by
  induction ps with
  | nil => cases h
  | cons piece rest ih =>
      rw [List.flatten_cons] at h
      have hpiece := h10 piece List.mem_cons_self
      by_cases hblank : Blank piece ∧ 13 ∉ piece
      · rw [directive_blank_append hpiece hblank.2 hblank.1] at h
        obtain ⟨p, hp, hseen⟩ := ih (fun p hp => h10 p (List.mem_cons_of_mem piece hp))
          (fun p hp => hformed p (List.mem_cons_of_mem piece hp)) h
        exact ⟨p, List.mem_cons_of_mem piece hp, hseen⟩
      · obtain ⟨pre, post, hs, h61, hkey, hvalue, hhead, hnil⟩ := split_of_entry h
        have hbegins : cutLine piece <+: cutLine (piece ++ rest.flatten) := by
          by_cases h13 : 13 ∈ piece
          · have hsame : cutLine (piece ++ rest.flatten) = cutLine piece := cutLine_append_of_mem h13 _
            exact hsame ▸ List.prefix_refl (cutLine piece)
          · rw [cutLine_append ⟨hpiece, h13⟩, cutLine_eq_self ⟨hpiece, h13⟩]
            exact List.prefix_append _ _
        have hink : ¬ Blank (cutLine piece) := by
          intro hb
          by_cases h13 : 13 ∈ piece
          · rw [cutLine_append_of_mem h13] at hs
            exact absurd (hb 61 (hs ▸ by simp)) (by decide)
          · rw [cutLine_eq_self ⟨hpiece, h13⟩] at hb
            exact hblank ⟨hb, h13⟩
        exact ⟨piece, List.mem_cons_self, directive_piece hbegins hink hs h61 hkey hvalue hhead hnil
          hnul (hformed piece List.mem_cons_self)⟩

/-! ### Files -/

/-- What `cfg_load` takes for the lines of a file. -/
def seenLines (content : Bytes) : List Bytes := (filePieces content).map cstr

/-- The entries read are those of the lines seen. -/
theorem foldlM_readLines_iff {content : Bytes} {cfg : Cfg} :
    (readLines content).foldlM cfgLine [] = some cfg ↔
      Acceptable [] (seenLines content) ∧ cfg = pairs (seenLines content) := by
  have hcut : ∀ (lines : List Bytes) (cfg : Cfg),
      (lines.map cstr).foldlM cfgLine cfg = lines.foldlM cfgLine cfg := by
    intro lines cfg
    rw [List.foldlM_map]
    simp only [cfgLine_cstr]
  have h0 : ∀ line ∈ seenLines content, 0 ∉ line := by
    intro line hline
    obtain ⟨piece, -, rfl⟩ := List.mem_map.mp hline
    exact zero_not_mem_cstr piece
  rw [foldlM_readLines, ← hcut]
  exact foldlM_cfgLine h0 (acceptable_nil.mpr (admits_nil.mpr ⟨List.nodup_nil, Nat.zero_le _⟩))

section Values

variable {content key fallback : Bytes}

/-- The value the lines of a file state for a key. -/
def statedValue (content key fallback : Bytes) : Bytes :=
  cfgGet (pairs (physicalLines content)) key fallback

/-- The value that is seen. -/
def seenValue (content key fallback : Bytes) : Bytes := cfgGet (pairs (seenLines content)) key fallback

/-- A value is stated by a line, or is the default. -/
theorem stated_cases (content key fallback : Bytes) :
    statedValue content key fallback = fallback ∨ ∃ line ∈ physicalLines content,
      directive line = .entry key (statedValue content key fallback) := by
  rw [statedValue, cfgGet]
  cases hfind : (pairs (physicalLines content)).find? fun entry => entry.1 = key with
  | none => exact .inl rfl
  | some entry =>
      obtain ⟨line, hline, hpair⟩ := List.mem_filterMap.mp (List.mem_of_find?_eq_some hfind)
      have hkey : entry.1 = key := by simpa using List.find?_some hfind
      refine .inr ⟨line, hline, ?_⟩
      cases hd : directive line with
      | entry k v =>
          rw [hd] at hpair
          cases hpair
          rw [← hkey]
          rfl
      | nothing => rw [hd] at hpair; cases hpair
      | malformed => rw [hd] at hpair; cases hpair

/-- Of a value a line states as much is seen, or less. -/
theorem ink_seen_le (hacc : Acceptable [] (seenLines content)) (hnul : 0 ∉ key) {line value : Bytes}
    (hline : line ∈ physicalLines content) (h : directive line = .entry key value) :
    ∃ p ∈ seenLines content, directive p = .entry key (seenValue content key fallback) ∧
      ink (seenValue content key fallback) ≤ ink value := by
  have hpieces : ∀ {p}, p ∈ pieces 1022 line → cstr p ∈ seenLines content := fun hp =>
    List.mem_map_of_mem (List.mem_flatMap.mpr ⟨line, hline, hp⟩)
  obtain ⟨p, hp, value', hd, hink⟩ := entry_in_pieces
    (fun p hp hm => newline_not_mem hline (mem_of_mem_pieces hp hm))
    (fun p hp => hacc.formed _ (hpieces hp)) hnul ((pieces_flatten 1022 line).symm ▸ h)
  have hmem : (key, value') ∈ pairs (seenLines content) :=
    List.mem_filterMap.mpr ⟨cstr p, hpieces hp, by rw [hd]; rfl⟩
  have hseen : seenValue content key fallback = value' :=
    cfgGet_of_mem hacc.room.distinct hmem fallback
  exact ⟨cstr p, hpieces hp, hseen ▸ hd, hseen ▸ hink⟩

/-- A value that is stated as it is seen, when it has been cut to fit, has not been cut. -/
theorem seen_of_cut (hacc : Acceptable [] (seenLines content)) (hnul : 0 ∉ key) {cap : ℕ}
    (hcap : fallback.length + 1 < cap)
    (hinked : ∀ b ∈ statedValue content key fallback, isspace b = false)
    (h : snprintf cap (seenValue content key fallback) = statedValue content key fallback) :
    seenValue content key fallback = statedValue content key fallback ∧
      (statedValue content key fallback).length < cap := by
  by_cases hlt : (seenValue content key fallback).length < cap
  · rw [snprintf_of_lt hlt] at h
    exact ⟨h, h ▸ hlt⟩
  -- otherwise what is stated fills the field, and more than that is seen
  exfalso
  have hlen : (statedValue content key fallback).length = cap - 1 := by
    rw [← h, snprintf, List.length_take]
    omega
  rcases stated_cases content key fallback with hdefault | ⟨line, hline, hd⟩
  · rw [hdefault] at hlen
    omega
  obtain ⟨p, -, hp, hink⟩ : ∃ p ∈ seenLines content,
      directive p = .entry key (seenValue content key fallback) ∧
        ink (seenValue content key fallback) ≤ ink (statedValue content key fallback) :=
    ink_seen_le hacc hnul hline hd
  have hsplit := List.take_append_drop (cap - 1) (seenValue content key fallback)
  have hrest : Blank ((seenValue content key fallback).drop (cap - 1)) := by
    have hfront : (seenValue content key fallback).take (cap - 1) =
        statedValue content key fallback := h
    rw [← hsplit, hfront, ink_append] at hink
    exact ink_eq_zero.mp (by omega)
  obtain ⟨pre, post, -, -, -, hvalue, -, -⟩ := split_of_entry hp
  have hself : strip (seenValue content key fallback) = seenValue content key fallback := by
    rw [hvalue, strip_strip]
  have hcut : seenValue content key fallback = statedValue content key fallback := by
    rw [← hself, ← hsplit, strip_append_blank _ hrest, ← snprintf, h, strip_inked hinked]
  rw [hcut, hlen] at hlt
  omega

/-- In a file without long lines and NULs everything is seen as it is stated. -/
theorem seenValue_of_short (h0 : 0 ∉ content)
    (hshort : ∀ line ∈ physicalLines content, line.length ≤ 1023) :
    seenValue content key fallback = statedValue content key fallback := by
  have hline : ∀ line ∈ physicalLines content,
      pairs ((pieces 1022 line).map cstr) = pairs [line] := by
    intro line hline
    have hcstr : cstr line = line := cstr_eq_self fun hm => h0 (mem_of_mem_physicalLines hline hm)
    by_cases hfits : line.length ≤ 1022
    · rw [pieces_fits hfits, List.map_singleton, hcstr]
    · have hlen : line.length = 1022 + 1 := Nat.le_antisymm (hshort line hline) (Nat.not_le.mp hfits)
      rw [pieces_long (Nat.not_le.mp hfits), List.take_of_length_le (Nat.le_of_eq hlen),
        List.drop_of_length_le (Nat.le_of_eq hlen), pieces_fits (Nat.zero_le _), List.map_cons,
        List.map_singleton, hcstr, pairs_cons, pairs_cons, pairs_cons line []]
      rfl
  rw [seenValue, statedValue, seenLines, filePieces]
  congr 1
  generalize physicalLines content = lines at hline
  induction lines with
  | nil => rfl
  | cons line lines ih =>
      rw [List.flatMap_cons, List.map_append, pairs_append, hline line List.mem_cons_self,
        ih fun l hl => hline l (List.mem_cons_of_mem line hl), ← pairs_append]
      rfl

end Values

end UpdateFramework
