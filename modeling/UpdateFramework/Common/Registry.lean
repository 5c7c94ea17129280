import Mathlib.Data.List.Perm.Lattice
import UpdateFramework.Collections.Keys
import UpdateFramework.Common.Auth
import UpdateFramework.Libc.Physical

/-!
# Common — what a client registry says

The rows of a registry are its physical lines without the blank ones and the comments
(`registryRows`).  A registry is defective when a line does not fit the buffer, when a row makes no
sense, or when the rows repeat an id or are too many (`Defect`).  `auth_client_status` looks at a
line at a time, and stops at the first one it refuses; what it answers is nevertheless a matter of
the rows as a set (`registry_decides`).
-/

namespace UpdateFramework

open Collections Libc

/-- The id and the state of a line that is neither blank nor a comment. -/
def registryRow (line : Bytes) : Option (Bytes × Option Bytes) :=
  let text := trimText line
  if text = [] ∨ text.head? = some 35 then none
  else some ((splitRegistryRow text).map trimText id)

def registryRows (content : Bytes) : List (Bytes × Option Bytes) :=
  (physicalLines content).filterMap registryRow

/-- A row that makes sense. -/
structure GoodRow (row : Bytes × Option Bytes) : Prop where
  nonempty : row.1 ≠ []
  short : row.1.length < maxIdLen
  known : validRegistryState row.2 ≠ none

/-- What closes a registry. -/
inductive Defect (content : Bytes) : Prop where
  | long {line : Bytes} (h : line ∈ physicalLines content) (hlen : 254 < line.length)
  | row {row : Bytes × Option Bytes} (h : row ∈ registryRows content) (hbad : ¬ GoodRow row)
  | repeated (h : ¬ ((registryRows content).map Prod.fst).Nodup)
  | many (h : 512 < (registryRows content).length)

/-- What a registry says of a client. -/
inductive Decides (content clientId : Bytes) : AuthClientStatus → Prop where
  | closed (h : Defect content) : Decides content clientId .invalidRegistry
  | enabled (hsound : ¬ Defect content) {state : Option Bytes}
      (h : (clientId, state) ∈ registryRows content) (hs : validRegistryState state = some true) :
      Decides content clientId .ok
  | disabled (hsound : ¬ Defect content) {state : Option Bytes}
      (h : (clientId, state) ∈ registryRows content) (hs : validRegistryState state = some false) :
      Decides content clientId .disabled
  | absent (hsound : ¬ Defect content) (h : clientId ∉ (registryRows content).map Prod.fst) :
      Decides content clientId .notFound

/-! ### One line -/

/-- What `registryRound` does with a row. -/
def rowRound (clientId : Bytes) (st : List Bytes × AuthClientStatus) (row : Bytes × Option Bytes) :
    Option (List Bytes × AuthClientStatus) :=
  if row.1 = [] ∨ row.1.length ≥ maxIdLen then none
  else if row.1 ∈ st.1 then none
  else if st.1.length ≥ 512 then none
  else
    match validRegistryState row.2 with
    | none => none
    | some enabled =>
      some (st.1 ++ [row.1],
        if row.1 = clientId then if enabled then .ok else .disabled else st.2)

/-- A line as `fgets` returns it is a row, or is passed over. -/
theorem registryRound_line {clientId raw line : Bytes} {eof : Bool}
    {st : List Bytes × AuthClientStatus} (hfit : 10 ∈ raw ∨ eof = true) (hnul : 0 ∉ raw)
    (htext : trimText raw = trimText line) :
    registryRound clientId st (raw, eof) =
      match registryRow line with
      | none => some st
      | some row => rowRound clientId st row := by
  have hcut : ¬ (10 ∉ cstr raw ∧ eof = false) := by
    rw [cstr_eq_self hnul]
    rintro ⟨h10, heof⟩
    rcases hfit with h | h
    · exact h10 h
    · rw [heof] at h
      cases h
  rw [registryRound, if_neg hcut, cstr_eq_self hnul, htext, registryRow]
  by_cases hskip : trimText line = [] ∨ (trimText line).head? = some 35
  · simp only [if_pos hskip]
  · simp only [if_neg hskip]
    rfl

/-- **A line too long.**  A piece of a line closes the registry. -/
theorem registryRound_piece {clientId raw : Bytes} {st : List Bytes × AuthClientStatus}
    (h10 : 10 ∉ raw) : registryRound clientId st (raw, false) = none := by
  rw [registryRound, if_pos]
  exact ⟨fun h => h10 ((List.takeWhile_prefix _).subset h), rfl⟩

theorem trimText_newline (line : Bytes) : trimText (line ++ [10]) = trimText line := by
  rw [trimText, cutLine_append_newline, ← trimText]

/-! ### All lines -/

theorem foldlM_cons_line {clientId line : Bytes} {lines : List Bytes}
    {st : List Bytes × AuthClientStatus} :
    ((line :: lines).filterMap registryRow).foldlM (rowRound clientId) st =
      (match registryRow line with
        | none => some st
        | some row => rowRound clientId st row).bind
        ((lines.filterMap registryRow).foldlM (rowRound clientId)) := by
  cases hrow : registryRow line with
  | none => rw [List.filterMap_cons_none hrow, Option.bind_some]
  | some row =>
      rw [List.filterMap_cons_some hrow, List.foldlM_cons]
      rfl

/-- A registry whose lines fit is read row by row. -/
theorem foldlM_registryRound (clientId : Bytes) {content : Bytes} (hnul : 0 ∉ content)
    (hfit : ∀ line ∈ physicalLines content, line.length ≤ 254)
    (st : List Bytes × AuthClientStatus) :
    (textLines 254 content).foldlM (registryRound clientId) st =
      (registryRows content).foldlM (rowRound clientId) st := by
  rw [registryRows]
  induction content using textInduction generalizing st with
  | nil => rw [textLines_nil, physicalLines_nil]; rfl
  | last line hne h10 =>
      rw [physicalLines_last hne h10] at hfit ⊢
      have hunended : Unended 255 line :=
        ⟨hne, h10, Nat.lt_succ_of_le (hfit line (List.mem_singleton_self line))⟩
      rw [textLines_unended hunended, List.foldlM_cons, registryRound_line (.inr rfl) hnul rfl,
        foldlM_cons_line]
      rfl
  | line line rest h10 ih =>
      rw [physicalLines_newline h10] at hfit ⊢
      simp only [List.mem_append, List.mem_cons, not_or] at hnul
      have hraw : 0 ∉ line ++ [10] := by
        rw [List.mem_append, List.mem_singleton, not_or]
        exact ⟨hnul.1, hnul.2.1⟩
      rw [textLines_newline h10 (hfit line List.mem_cons_self), List.foldlM_cons,
        registryRound_line (.inl (by simp)) hraw (trimText_newline line), foldlM_cons_line]
      refine congrArg _ (funext fun st' => ?_)
      exact ih hnul.2.2 (fun k hk => hfit k (List.mem_cons_of_mem line hk)) st'

/-- A line that does not fit closes the registry. -/
theorem foldlM_registryRound_long (clientId : Bytes) {content line : Bytes}
    (hmem : line ∈ physicalLines content) (hlen : 254 < line.length)
    (st : List Bytes × AuthClientStatus) :
    (textLines 254 content).foldlM (registryRound clientId) st = none := by
  have hlong : ∀ {l : Bytes} (t : Bytes), 10 ∉ l → 254 < l.length →
      ∀ st, (textLines 254 (l ++ t)).foldlM (registryRound clientId) st = none := by
    intro l t h10 hl st
    rw [textLines_long h10 hl, List.foldlM_cons,
      registryRound_piece fun h => h10 (List.mem_of_mem_take h)]
    rfl
  induction content using textInduction generalizing st with
  | nil => cases hmem
  | last l hne h10 =>
      rw [physicalLines_last hne h10, List.mem_singleton] at hmem
      have hnone := hlong [] h10 (hmem ▸ hlen) st
      rwa [List.append_nil] at hnone
  | line l rest h10 ih =>
      rw [physicalLines_newline h10, List.mem_cons] at hmem
      by_cases hl : 254 < l.length
      · exact hlong (10 :: rest) h10 hl st
      · rw [textLines_newline h10 (Nat.not_lt.mp hl), List.foldlM_cons]
        rcases hmem with rfl | hmem
        · exact absurd hlen hl
        · cases registryRound clientId st (l ++ [10], false) with
          | none => rfl
          | some st' => exact ih hmem st'

/-! ### The rows as a set -/

/-- The result for a row's state. -/
def rowStatus (state : Option Bytes) : AuthClientStatus :=
  if validRegistryState state = some true then .ok else .disabled

/-- The result after the rows: that of the last one of the client. -/
def lastStatus (clientId : Bytes) (rows : List (Bytes × Option Bytes))
    (result : AuthClientStatus) : AuthClientStatus :=
  rows.foldl (fun result row => if row.1 = clientId then rowStatus row.2 else result) result

theorem rowRound_some {clientId : Bytes} {seen : List Bytes} {result : AuthClientStatus}
    {row : Bytes × Option Bytes} {st : List Bytes × AuthClientStatus} :
    rowRound clientId (seen, result) row = some st ↔
      GoodRow row ∧ row.1 ∉ seen ∧ seen.length < 512 ∧
        st = (seen ++ [row.1], if row.1 = clientId then rowStatus row.2 else result) := by
  simp only [rowRound]
  constructor
  · intro h
    split at h
    · cases h
    next hid =>
      split at h
      · cases h
      next hseen =>
        split at h
        · cases h
        next hfew =>
          cases hs : validRegistryState row.2 with
          | none => simp only [hs] at h; cases h
          | some enabled =>
              simp only [hs] at h
              rw [not_or, Nat.not_le] at hid
              refine ⟨⟨hid.1, hid.2, by rw [hs]; exact Option.some_ne_none _⟩, hseen,
                Nat.not_le.mp hfew, ?_⟩
              rw [← Option.some.inj h, rowStatus, hs]
              cases enabled <;> rfl
  · rintro ⟨hgood, hseen, hfew, rfl⟩
    obtain ⟨enabled, hs⟩ := Option.ne_none_iff_exists'.mp hgood.known
    rw [if_neg (not_or.mpr ⟨hgood.nonempty, Nat.not_le.mpr hgood.short⟩), if_neg hseen,
      if_neg (Nat.not_le.mpr hfew), rowStatus, hs]
    cases enabled <;> rfl

/-- The loop gets through exactly the rows that make sense and whose ids can be added. -/
theorem foldlM_rowRound_some {clientId : Bytes} {rows : List (Bytes × Option Bytes)}
    {seen : List Bytes} {result : AuthClientStatus} {st : List Bytes × AuthClientStatus}
    (hseen : Admits 512 seen []) :
    rows.foldlM (rowRound clientId) (seen, result) = some st ↔
      ((∀ row ∈ rows, GoodRow row) ∧ Admits 512 seen (rows.map Prod.fst)) ∧
        st = (seen ++ rows.map Prod.fst, lastStatus clientId rows result) := by
  induction rows generalizing seen result with
  | nil =>
      rw [List.foldlM_nil, List.map_nil, List.append_nil]
      constructor
      · intro h
        exact ⟨⟨fun _ h => (List.not_mem_nil h).elim, hseen⟩, (Option.some.inj h).symm⟩
      · rintro ⟨-, rfl⟩
        rfl
  | cons row rows ih =>
      have happ : seen ++ (row :: rows).map Prod.fst = seen ++ [row.1] ++ rows.map Prod.fst :=
        List.append_cons ..
      rw [List.foldlM_cons, List.map_cons, admits_cons, List.forall_mem_cons, ← List.map_cons, happ]
      constructor
      · intro h
        obtain ⟨st', hrow, hrest⟩ := Option.bind_eq_some_iff.mp h
        obtain ⟨hgood, hnew, hlt, rfl⟩ := rowRound_some.mp hrow
        obtain ⟨⟨hgoods, hadmits⟩, hst⟩ := (ih (hseen.snoc hnew hlt)).mp hrest
        exact ⟨⟨⟨hgood, hgoods⟩, ⟨hnew, hlt⟩, hadmits⟩, hst⟩
      · rintro ⟨⟨⟨hgood, hgoods⟩, ⟨hnew, hlt⟩, hadmits⟩, rfl⟩
        exact Option.bind_eq_some_iff.mpr ⟨_, rowRound_some.mpr ⟨hgood, hnew, hlt, rfl⟩,
          (ih (hseen.snoc hnew hlt)).mpr ⟨⟨hgoods, hadmits⟩, rfl⟩⟩

theorem lastStatus_of_not_mem {clientId : Bytes} {rows : List (Bytes × Option Bytes)}
    (h : clientId ∉ rows.map Prod.fst) (result : AuthClientStatus) :
    lastStatus clientId rows result = result := by
  induction rows generalizing result with
  | nil => rfl
  | cons row rows ih =>
      rw [List.map_cons, List.mem_cons, not_or] at h
      rw [lastStatus, List.foldl_cons, if_neg (Ne.symm h.1)]
      exact ih h.2 result

/-- Where no id is repeated, the result is that of the client's row. -/
theorem lastStatus_of_mem {clientId : Bytes} {rows : List (Bytes × Option Bytes)}
    {state : Option Bytes} (hdistinct : (rows.map Prod.fst).Nodup)
    (h : (clientId, state) ∈ rows) (result : AuthClientStatus) :
    lastStatus clientId rows result = rowStatus state := by
  induction rows generalizing result with
  | nil => cases h
  | cons row rows ih =>
      rw [List.map_cons, List.nodup_cons] at hdistinct
      rw [lastStatus, List.foldl_cons]
      rcases List.mem_cons.mp h with rfl | h
      · rw [if_pos rfl]
        exact lastStatus_of_not_mem hdistinct.1 _
      · exact ih hdistinct.2 h _

/-! ### The decision -/

theorem Defect.of_perm {content content' : Bytes}
    (h : (physicalLines content).Perm (physicalLines content')) (hd : Defect content) :
    Defect content' := by
  have hrows : (registryRows content).Perm (registryRows content') := h.filterMap registryRow
  cases hd with
  | long hmem hlen => exact .long (h.mem_iff.mp hmem) hlen
  | row hmem hbad => exact .row (hrows.mem_iff.mp hmem) hbad
  | repeated hrep => exact .repeated fun hnd => hrep ((hrows.map Prod.fst).nodup_iff.mpr hnd)
  | many hlen => exact .many (hrows.length_eq ▸ hlen)

/-- What a registry says does not depend on the order of its lines. -/
theorem Decides.of_perm {content content' clientId : Bytes} {status : AuthClientStatus}
    (h : (physicalLines content).Perm (physicalLines content'))
    (hd : Decides content clientId status) : Decides content' clientId status := by
  have hrows : (registryRows content).Perm (registryRows content') := h.filterMap registryRow
  cases hd with
  | closed hdefect => exact .closed (hdefect.of_perm h)
  | enabled hsound hmem hs =>
      exact .enabled (fun hdefect => hsound (hdefect.of_perm h.symm)) (hrows.mem_iff.mp hmem) hs
  | disabled hsound hmem hs =>
      exact .disabled (fun hdefect => hsound (hdefect.of_perm h.symm)) (hrows.mem_iff.mp hmem) hs
  | absent hsound hmem =>
      exact .absent (fun hdefect => hsound (hdefect.of_perm h.symm))
        fun hin => hmem ((hrows.map Prod.fst).mem_iff.mpr hin)

/-- A registry is sound when every line fits and every row can be taken in. -/
theorem sound_iff {content : Bytes} :
    ¬ Defect content ↔ (∀ line ∈ physicalLines content, line.length ≤ 254) ∧
      (∀ row ∈ registryRows content, GoodRow row) ∧
        Admits 512 [] ((registryRows content).map Prod.fst) := by
  constructor
  · intro hsound
    refine ⟨fun line hline => ?_, fun row hrow => ?_, ?_, ?_⟩
    · exact Nat.not_lt.mp fun hlen => hsound (.long hline hlen)
    · exact not_not.mp fun hbad => hsound (.row hrow hbad)
    · exact not_not.mp fun hrep => hsound (.repeated hrep)
    · rw [List.length_nil, Nat.zero_add, List.length_map]
      exact Nat.not_lt.mp fun hlen => hsound (.many hlen)
  · rintro ⟨hfit, hgood, hadmits⟩ (⟨hline, hlen⟩ | ⟨hrow, hbad⟩ | hrep | hmany)
    · exact absurd (hfit _ hline) (Nat.not_le.mpr hlen)
    · exact hbad (hgood _ hrow)
    · exact hrep hadmits.distinct
    · have hfew := hadmits.few
      rw [List.length_nil, Nat.zero_add, List.length_map] at hfew
      exact absurd hfew (Nat.not_le.mpr hmany)

theorem admits_none : Admits 512 ([] : List Bytes) [] :=
  admits_nil.mpr ⟨List.nodup_nil, Nat.zero_le _⟩

/-- A defect closes the registry. -/
theorem authClientStatus_defect {content clientId : Bytes} (hnul : 0 ∉ content)
    (hid : clientId ≠ []) (hd : Defect content) :
    authClientStatus (some content) clientId = .invalidRegistry := by
  have hnone : (textLines 254 content).foldlM (registryRound clientId) ([], .notFound) = none := by
    by_cases hfit : ∀ line ∈ physicalLines content, line.length ≤ 254
    · rw [foldlM_registryRound clientId hnul hfit, Option.eq_none_iff_forall_ne_some]
      intro st hst
      exact sound_iff.mpr ⟨hfit, ((foldlM_rowRound_some admits_none).mp hst).1⟩ hd
    · push Not at hfit
      obtain ⟨line, hline, hlen⟩ := hfit
      exact foldlM_registryRound_long clientId hline hlen _
  rw [authClientStatus, if_neg hid, hnone]

/-- Without one, the rows are all read. -/
theorem authClientStatus_sound {content clientId : Bytes} (hnul : 0 ∉ content)
    (hid : clientId ≠ []) (hsound : ¬ Defect content) :
    authClientStatus (some content) clientId =
      lastStatus clientId (registryRows content) .notFound := by
  obtain ⟨hfit, hrows⟩ := sound_iff.mp hsound
  have hsome : (registryRows content).foldlM (rowRound clientId) ([], .notFound) = some _ :=
    (foldlM_rowRound_some admits_none).mpr ⟨hrows, rfl⟩
  rw [authClientStatus, if_neg hid, foldlM_registryRound clientId hnul hfit, hsome]

theorem Decides.sound {content clientId : Bytes} {status : AuthClientStatus} (hnul : 0 ∉ content)
    (hid : clientId ≠ []) (h : Decides content clientId status) :
    authClientStatus (some content) clientId = status := by
  cases h with
  | closed hd => exact authClientStatus_defect hnul hid hd
  | enabled hsound hmem hs =>
      rw [authClientStatus_sound hnul hid hsound,
        lastStatus_of_mem (sound_iff.mp hsound).2.2.distinct hmem, rowStatus, if_pos hs]
  | disabled hsound hmem hs =>
      rw [authClientStatus_sound hnul hid hsound,
        lastStatus_of_mem (sound_iff.mp hsound).2.2.distinct hmem, rowStatus, hs]
      rfl
  | absent hsound hmem =>
      rw [authClientStatus_sound hnul hid hsound, lastStatus_of_not_mem hmem]

/-- Every registry decides every client. -/
theorem exists_decides (content clientId : Bytes) : ∃ status, Decides content clientId status := by
  by_cases hd : Defect content
  · exact ⟨_, .closed hd⟩
  by_cases hmem : clientId ∈ (registryRows content).map Prod.fst
  · obtain ⟨⟨id, state⟩, hrow, rfl⟩ := List.mem_map.mp hmem
    have hknown := ((sound_iff.mp hd).2.1 _ hrow).known
    obtain ⟨enabled, hs⟩ := Option.ne_none_iff_exists'.mp hknown
    cases enabled with
    | true => exact ⟨_, .enabled hd hrow hs⟩
    | false => exact ⟨_, .disabled hd hrow hs⟩
  · exact ⟨_, .absent hd hmem⟩

theorem decides_iff {content clientId : Bytes} {status : AuthClientStatus} (hnul : 0 ∉ content)
    (hid : clientId ≠ []) :
    authClientStatus (some content) clientId = status ↔ Decides content clientId status := by
  refine ⟨?_, Decides.sound hnul hid⟩
  rintro rfl
  obtain ⟨status, h⟩ := exists_decides content clientId
  rwa [h.sound hnul hid]

/-- **The registry decides.**  What `auth_client_status` answers is what the rows say; a defect
anywhere denies every client; and the order of the lines does not matter. -/
theorem registry_decides {clientId : Bytes} (hid : clientId ≠ []) :
    (∀ content, 0 ∉ content → ∀ status,
      authClientStatus (some content) clientId = status ↔ Decides content clientId status) ∧
    (∀ content, 0 ∉ content → Defect content →
      authClientRegistered (some content) clientId = false) ∧
    ∀ lines lines' : List Bytes, lines.Perm lines' → (∀ line ∈ lines, 10 ∉ line ∧ 0 ∉ line) →
      ∀ last, 0 ∉ last →
        authClientStatus (some ((lines.map (· ++ [10])).flatten ++ last)) clientId =
          authClientStatus (some ((lines'.map (· ++ [10])).flatten ++ last)) clientId := by
  refine ⟨fun content hnul status => decides_iff hnul hid, fun content hnul hd => ?_, ?_⟩
  · rw [authClientRegistered, authClientStatus_defect hnul hid hd]
    rfl
  · intro lines lines' hperm hlines last hlast
    have hnul : ∀ {ls : List Bytes}, (∀ line ∈ ls, 10 ∉ line ∧ 0 ∉ line) →
        0 ∉ (ls.map (· ++ [10])).flatten ++ last := by
      intro ls hls h
      rcases List.mem_append.mp h with h | h
      · obtain ⟨_, hmem, h0⟩ := List.mem_flatten.mp h
        obtain ⟨line, hline, rfl⟩ := List.mem_map.mp hmem
        rcases List.mem_append.mp h0 with h0 | h0
        · exact (hls line hline).2 h0
        · exact absurd (List.mem_singleton.mp h0) (by decide)
      · exact hlast h
    have hlines' : ∀ line ∈ lines', 10 ∉ line ∧ 0 ∉ line := fun line hline =>
      hlines line (hperm.mem_iff.mpr hline)
    have hphysical : (physicalLines ((lines'.map (· ++ [10])).flatten ++ last)).Perm
        (physicalLines ((lines.map (· ++ [10])).flatten ++ last)) := by
      rw [physicalLines_flatten fun line hline => (hlines line hline).1,
        physicalLines_flatten fun line hline => (hlines' line hline).1]
      exact hperm.symm.append_right _
    rw [decides_iff (hnul hlines) hid]
    exact Decides.of_perm hphysical ((decides_iff (hnul hlines') hid).mp rfl)

theorem registry_decides_valve :
    Decides (ascii "# clients\npump=1\n valve : Deny") (ascii "valve") .disabled :=
  ((registry_decides (by decide)).1 _ (by decide +kernel) _).mp (by decide +kernel)

end UpdateFramework
