import UpdateFramework.Collections.Keys
import UpdateFramework.Common.Config
import UpdateFramework.Libc.Physical
import UpdateFramework.Libc.Streams

/-!
# Common — the lines of a configuration file

What a physical line says is its `directive`.  `cfg_load` reads pieces of at most 1023 bytes and
takes each for a line.  A line within one piece is read as it is; a longer one is read as it is
when its text is `Contained` in one of its pieces, and otherwise what is left of it is taken for
directives of its own (`cfgLoad_exact`).
-/

namespace UpdateFramework

open Collections Libc Process

/-- What a line says. -/
inductive Directive where
  | nothing
  | entry (key value : Bytes)
  | malformed
  deriving DecidableEq

/-- A blank line or a comment, or `KEY=VALUE`: up to the first carriage return, without the blanks
around the line, the key and the value. -/
def directive (line : Bytes) : Directive :=
  let s := strip (cutLine line)
  if s = [] ∨ s.head? = some 35 then .nothing
  else if 61 ∉ s then .malformed
  else
    let key := strip (s.takeWhile (· ≠ 61))
    let value := strip (s.dropWhile (· ≠ 61)).tail
    if key = [] ∨ key.length ≥ maxKeyLen ∨ value.length ≥ maxValueLen then .malformed
    else .entry key value

def Directive.pair : Directive → Option (Bytes × Bytes)
  | .entry key value => some (key, value)
  | _ => none

/-- The keys and values the lines give. -/
def pairs (lines : List Bytes) : Cfg := lines.filterMap fun line => (directive line).pair

/-- The lines make sense, and their entries can be added: no key is repeated, and there are at
most `CONFIG_MAX_ENTRIES`. -/
structure Acceptable (cfg : Cfg) (lines : List Bytes) : Prop where
  formed : ∀ line ∈ lines, directive line ≠ .malformed
  room : Admits configMaxEntries (cfg.map Prod.fst) ((pairs lines).map Prod.fst)

/-- The text of a line that is cut into these pieces is in one of them: the first that is not
merely blank.  Those after it read as blank or as comments, and it is the whole of what the line
says: it has the line's carriage return, or begins a comment, or has nothing but blanks behind
it. -/
def Contained : List Bytes → Prop
  | [] => True
  | piece :: rest =>
    if Blank piece ∧ 13 ∉ piece then Contained rest
    else (∀ other ∈ rest, directive other = .nothing) ∧
      (13 ∈ piece ∨ (strip piece).head? = some 35 ∨ Blank (cutLine rest.flatten))

instance decidableContained : (ps : List Bytes) → Decidable (Contained ps)
  | [] => .isTrue trivial
  | piece :: rest =>
    have := decidableContained rest
    inferInstanceAs (Decidable (if Blank piece ∧ 13 ∉ piece then Contained rest
      else (∀ other ∈ rest, directive other = .nothing) ∧
        (13 ∈ piece ∨ (strip piece).head? = some 35 ∨ Blank (cutLine rest.flatten))))

/-- A result of `cfg_load` is right for a file: the entries are those of its lines, within the
limits, and can be looked up; what cannot be accepted is refused. -/
structure Loads (content : Bytes) (result : Option Cfg) : Prop where
  entries : ∀ cfg, result = some cfg → cfg = pairs (physicalLines content)
  limits : ∀ cfg, result = some cfg → (cfg.map Prod.fst).Nodup ∧ ∀ entry ∈ cfg,
    entry.1 ≠ [] ∧ entry.1.length < maxKeyLen ∧ entry.2.length < maxValueLen
  lookup : ∀ cfg, result = some cfg → ∀ fallback,
    (∀ entry ∈ cfg, cfgGet cfg entry.1 fallback = entry.2) ∧
      ∀ key, key ∉ cfg.map Prod.fst → cfgGet cfg key fallback = fallback
  refuses : ¬ Acceptable [] (physicalLines content) → result = none

/-! ### A line and its pieces -/

theorem directive_blank {line : Bytes} (h : Blank (cutLine line)) : directive line = .nothing := by
  rw [directive, if_pos (.inl (strip_eq_nil.mpr h))]

theorem directive_comment {line : Bytes} (h : (strip (cutLine line)).head? = some 35) :
    directive line = .nothing := by
  rw [directive, if_pos (.inr h)]

/-- Only these say nothing. -/
theorem blank_or_comment {line : Bytes} (h : directive line = .nothing) :
    Blank (cutLine line) ∨ (strip (cutLine line)).head? = some 35 := by
  simp only [directive] at h
  split at h
  next hskip => exact hskip.imp strip_eq_nil.mp id
  next =>
    split at h
    · cases h
    · split at h <;> cases h

/-- What an entry is made of. -/
theorem directive_entry {line key value : Bytes} (h : directive line = .entry key value) :
    (key ≠ [] ∧ key.length < maxKeyLen ∧ value.length < maxValueLen) ∧
      ink (cutLine line) = ink key + 1 + ink value := by
  simp only [directive] at h
  split at h
  · cases h
  split at h
  · cases h
  next heq =>
    split at h
    · cases h
    next hlimits =>
      cases h
      rw [not_or, not_or, Nat.not_le, Nat.not_le] at hlimits
      refine ⟨hlimits, ?_⟩
      have hsplit := List.takeWhile_append_dropWhile (p := (· ≠ 61)) (l := strip (cutLine line))
      have hdrop : ∃ rest, (strip (cutLine line)).dropWhile (· ≠ 61) = 61 :: rest := by
        obtain ⟨as, bs, has, hno⟩ := List.eq_append_cons_of_mem (not_not.mp heq)
        refine ⟨bs, ?_⟩
        rw [has, List.dropWhile_append_of_pos, List.dropWhile_cons_of_neg]
        · simp
        · intro b hb
          simpa using ne_of_mem_of_not_mem hb hno
      obtain ⟨rest, hrest⟩ := hdrop
      have hink := congrArg ink hsplit
      rw [ink_append, hrest, ink_strip] at hink
      have heq' : ink (61 :: rest) = ink rest + 1 := List.countP_cons_of_pos rfl
      rw [hrest, ink_strip, ink_strip, ← hink, List.tail_cons, heq', Nat.add_assoc]
      exact congrArg _ (Nat.add_comm _ _)

/-- A blank piece says nothing of what comes after it. -/
theorem directive_blank_append {piece rest : Bytes} (h10 : 10 ∉ piece) (h13 : 13 ∉ piece)
    (h : Blank piece) : directive (piece ++ rest) = directive rest := by
  rw [directive, directive, cutLine_append ⟨h10, h13⟩, strip_blank_append h]

/-- A piece that says all of the line. -/
theorem directive_append {piece rest : Bytes} (h10 : 10 ∉ piece)
    (hblank : ¬ (Blank piece ∧ 13 ∉ piece))
    (h : 13 ∈ piece ∨ (strip piece).head? = some 35 ∨ Blank (cutLine rest)) :
    directive (piece ++ rest) = directive piece := by
  by_cases h13 : 13 ∈ piece
  · rw [directive, directive, cutLine_append_of_mem h13]
  · have hself := cutLine_eq_self ⟨h10, h13⟩
    have happ := cutLine_append ⟨h10, h13⟩ rest
    rcases h with h | h | h
    · exact absurd h h13
    · have hnb : ¬ Blank piece := fun hb => hblank ⟨hb, h13⟩
      rw [directive_comment, directive_comment]
      · rwa [hself]
      · rwa [happ, head_strip_append hnb]
    · rw [directive, directive, happ, hself, strip_append_blank piece h]

/-- A piece that does not say all of the line is an entry. -/
theorem exists_entry {piece rest : Bytes} (h10 : 10 ∉ piece)
    (hblank : ¬ (Blank piece ∧ 13 ∉ piece)) (hformed : directive piece ≠ .malformed)
    (h : ¬ (13 ∈ piece ∨ (strip piece).head? = some 35 ∨ Blank (cutLine rest))) :
    ∃ key value, directive piece = .entry key value := by
  rw [not_or, not_or] at h
  cases hd : directive piece with
  | malformed => exact absurd hd hformed
  | nothing =>
      have hskip := blank_or_comment hd
      rw [cutLine_eq_self ⟨h10, h.1⟩] at hskip
      exact absurd (hskip.resolve_left fun hb => hblank ⟨hb, h.1⟩) h.2.1
  | entry key value => exact ⟨key, value, rfl⟩

/-- A piece that says what the line says says all of it. -/
theorem all_of_directive_append {piece rest : Bytes} (h10 : 10 ∉ piece)
    (hblank : ¬ (Blank piece ∧ 13 ∉ piece)) (hformed : directive piece ≠ .malformed)
    (h : directive (piece ++ rest) = directive piece) :
    13 ∈ piece ∨ (strip piece).head? = some 35 ∨ Blank (cutLine rest) := by
  by_cases h13 : 13 ∈ piece
  · exact .inl h13
  have hself := cutLine_eq_self ⟨h10, h13⟩
  cases hd : directive piece with
  | malformed => exact absurd hd hformed
  | nothing =>
      have hskip := blank_or_comment hd
      rw [hself] at hskip
      exact .inr (.inl (hskip.resolve_left fun hb => hblank ⟨hb, h13⟩))
  | entry key value =>
      right
      right
      have hwhole := (directive_entry (h.trans hd)).2
      have hpiece := (directive_entry hd).2
      rw [cutLine_append ⟨h10, h13⟩, ink_append] at hwhole
      rw [hself] at hpiece
      rw [← ink_eq_zero]
      omega

@[simp] theorem pairs_nil : pairs [] = [] := rfl

theorem pairs_append (lines lines' : List Bytes) :
    pairs (lines ++ lines') = pairs lines ++ pairs lines' :=
  List.filterMap_append

theorem pairs_cons (line : Bytes) (lines : List Bytes) :
    pairs (line :: lines) = (directive line).pair.toList ++ pairs lines := by
  cases h : (directive line).pair with
  | none => exact List.filterMap_cons_none h
  | some entry => exact List.filterMap_cons_some h

theorem pairs_eq_nil {lines : List Bytes} (hformed : ∀ line ∈ lines, directive line ≠ .malformed) :
    pairs lines = [] ↔ ∀ line ∈ lines, directive line = .nothing := by
  rw [pairs, List.filterMap_eq_nil_iff]
  refine forall₂_congr fun line hline => ?_
  cases h : directive line with
  | nothing => exact ⟨fun _ => rfl, fun _ => rfl⟩
  | entry key value => exact ⟨nofun, nofun⟩
  | malformed => exact absurd h (hformed line hline)

theorem pair_injective {d d' : Directive} (hd : d ≠ .malformed) (hd' : d' ≠ .malformed)
    (h : d.pair = d'.pair) : d = d' := by
  cases d with
  | malformed => exact absurd rfl hd
  | nothing =>
      cases d' with
      | malformed => exact absurd rfl hd'
      | nothing => rfl
      | entry key value => cases h
  | entry key value =>
      cases d' with
      | malformed => exact absurd rfl hd'
      | nothing => cases h
      | entry key' value' =>
          cases h
          rfl

variable {ps : List Bytes}

/-- A contained line says what its pieces say. -/
theorem Contained.pairs (h : Contained ps) (h10 : ∀ p ∈ ps, 10 ∉ p)
    (hformed : ∀ p ∈ ps, directive p ≠ .malformed) :
    directive ps.flatten ≠ .malformed ∧
      UpdateFramework.pairs ps = (directive ps.flatten).pair.toList := by
  induction ps with
  | nil => exact ⟨Directive.noConfusion, rfl⟩
  | cons piece rest ih =>
      rw [List.flatten_cons, pairs_cons]
      have hpiece := h10 piece List.mem_cons_self
      have hrest : ∀ p ∈ rest, directive p ≠ .malformed := fun p hp =>
        hformed p (List.mem_cons_of_mem piece hp)
      by_cases hblank : Blank piece ∧ 13 ∉ piece
      · rw [Contained, if_pos hblank] at h
        rw [directive_blank_append hpiece hblank.2 hblank.1,
          directive_blank fun b hb => hblank.1 b ((List.takeWhile_prefix _).subset hb)]
        exact ih h (fun p hp => h10 p (List.mem_cons_of_mem piece hp)) hrest
      · rw [Contained, if_neg hblank] at h
        rw [directive_append hpiece hblank h.2, (pairs_eq_nil hrest).mpr h.1, List.append_nil]
        exact ⟨hformed piece List.mem_cons_self, rfl⟩

/-- The pieces give at least as many entries as the line. -/
theorem length_pair_le (h10 : ∀ p ∈ ps, 10 ∉ p) (hformed : ∀ p ∈ ps, directive p ≠ .malformed) :
    (directive ps.flatten).pair.toList.length ≤ (pairs ps).length := by
  induction ps with
  | nil => exact Nat.le_refl _
  | cons piece rest ih =>
      rw [List.flatten_cons, pairs_cons, List.length_append]
      have hpiece := h10 piece List.mem_cons_self
      by_cases hblank : Blank piece ∧ 13 ∉ piece
      · rw [directive_blank_append hpiece hblank.2 hblank.1]
        exact Nat.le_trans (ih (fun p hp => h10 p (List.mem_cons_of_mem piece hp))
          fun p hp => hformed p (List.mem_cons_of_mem piece hp)) (Nat.le_add_left _ _)
      · by_cases hall : 13 ∈ piece ∨ (strip piece).head? = some 35 ∨ Blank (cutLine rest.flatten)
        · rw [directive_append hpiece hblank hall]
          exact Nat.le_add_right _ _
        · obtain ⟨key, value, hd⟩ :=
            exists_entry hpiece hblank (hformed piece List.mem_cons_self) hall
          rw [hd]
          have hone : ∀ o : Option (Bytes × Bytes), o.toList.length ≤ 1 := by
            rintro (_ | _)
            · exact Nat.zero_le _
            · exact Nat.le_refl _
          exact Nat.le_trans (hone _) (Nat.le_add_right _ _)

/-- A line that says what its pieces say is contained. -/
theorem contained_of_pairs (h10 : ∀ p ∈ ps, 10 ∉ p)
    (hformed : ∀ p ∈ ps, directive p ≠ .malformed) (hline : directive ps.flatten ≠ .malformed)
    (h : pairs ps = (directive ps.flatten).pair.toList) : Contained ps := by
  induction ps with
  | nil => trivial
  | cons piece rest ih =>
      rw [List.flatten_cons] at hline
      rw [List.flatten_cons, pairs_cons] at h
      have hpiece := h10 piece List.mem_cons_self
      have hrest : ∀ p ∈ rest, directive p ≠ .malformed := fun p hp =>
        hformed p (List.mem_cons_of_mem piece hp)
      rw [Contained]
      by_cases hblank : Blank piece ∧ 13 ∉ piece
      · rw [if_pos hblank]
        rw [directive_blank_append hpiece hblank.2 hblank.1] at hline h
        rw [directive_blank fun b hb => hblank.1 b ((List.takeWhile_prefix _).subset hb)] at h
        exact ih (fun p hp => h10 p (List.mem_cons_of_mem piece hp)) hrest hline h
      · rw [if_neg hblank]
        have hwhole := hformed piece List.mem_cons_self
        have hall : 13 ∈ piece ∨ (strip piece).head? = some 35 ∨ Blank (cutLine rest.flatten) := by
          by_contra hall
          obtain ⟨key, value, hd⟩ := exists_entry hpiece hblank hwhole hall
          -- the line would be the same entry, and the piece would then be all of it
          refine hall (all_of_directive_append hpiece hblank hwhole ?_)
          refine pair_injective hline hwhole ?_
          rw [hd] at h ⊢
          cases hp : (directive (piece ++ rest.flatten)).pair with
          | none => rw [hp] at h; cases h
          | some entry =>
              rw [hp] at h
              exact congrArg some (List.cons.inj h).1.symm
        refine ⟨(pairs_eq_nil hrest).mp ?_, hall⟩
        rw [directive_append hpiece hblank hall] at h
        exact List.append_right_eq_self.mp h

/-! ### The lines that are read -/

theorem cfgLine_eq {line : Bytes} (h0 : 0 ∉ line) (cfg : Cfg) :
    cfgLine cfg line =
      match directive line with
      | .nothing => some cfg
      | .entry key value => cfgSet cfg key value
      | .malformed => none := by
  simp only [cfgLine, trimAscii, cstr_eq_self h0, directive]
  split
  · rfl
  split
  · rfl
  split
  · rfl
  · rfl

/-- A line is read up to its first NUL. -/
theorem cfgLine_cstr (cfg : Cfg) (line : Bytes) : cfgLine cfg (cstr line) = cfgLine cfg line := by
  rw [cfgLine, cfgLine, cstr_eq_self (zero_not_mem_cstr line)]

theorem cfgLine_newline (line : Bytes) (cfg : Cfg) :
    cfgLine cfg (line ++ [10]) = cfgLine cfg line := by
  by_cases h0 : 0 ∈ line
  · have hcut : cstr (line ++ [10]) = cstr line := by
      obtain ⟨before, after, rfl, hbefore⟩ := List.eq_append_cons_of_mem h0
      rw [List.append_assoc, List.cons_append, cstr_append_zero hbefore, cstr_append_zero hbefore]
    rw [← cfgLine_cstr, hcut, cfgLine_cstr]
  · have h0' : 0 ∉ line ++ [10] := by
      rw [List.mem_append, not_or]
      exact ⟨h0, by decide⟩
    have hd : directive (line ++ [10]) = directive line := by
      rw [directive, directive, cutLine_append_newline]
    rw [cfgLine_eq h0', cfgLine_eq h0, hd]

theorem cfgSet_some {cfg cfg' : Cfg} {key value : Bytes} (hkey : key.length < maxKeyLen)
    (hvalue : value.length < maxValueLen) :
    cfgSet cfg key value = some cfg' ↔
      key ∉ cfg.map Prod.fst ∧ cfg.length < configMaxEntries ∧ cfg' = cfg ++ [(key, value)] := by
  rw [cfgSet, snprintf_of_lt hkey, snprintf_of_lt hvalue]
  constructor
  · intro h
    split at h
    · cases h
    next hnew =>
      split at h
      · cases h
      next hfew => exact ⟨hnew, Nat.not_le.mp hfew, (Option.some.inj h).symm⟩
  · rintro ⟨hnew, hfew, rfl⟩
    rw [if_neg hnew, if_neg (Nat.not_le.mpr hfew)]

theorem acceptable_nil {cfg : Cfg} :
    Acceptable cfg [] ↔ Admits configMaxEntries (cfg.map Prod.fst) [] :=
  ⟨fun h => h.room, fun h => ⟨fun _ h => (List.not_mem_nil h).elim, h⟩⟩

/-- What is added with the first line. -/
theorem acceptable_cons {cfg : Cfg} {line : Bytes} {lines : List Bytes} :
    Acceptable cfg (line :: lines) ↔
      match directive line with
      | .nothing => Acceptable cfg lines
      | .entry key value =>
        (key ∉ cfg.map Prod.fst ∧ cfg.length < configMaxEntries) ∧
          Acceptable (cfg ++ [(key, value)]) lines
      | .malformed => False := by
  have hformed : (∀ l ∈ line :: lines, directive l ≠ .malformed) ↔
      directive line ≠ .malformed ∧ ∀ l ∈ lines, directive l ≠ .malformed := List.forall_mem_cons
  have hroom : ∀ ls, Acceptable cfg ls ↔ (∀ l ∈ ls, directive l ≠ .malformed) ∧
      Admits configMaxEntries (cfg.map Prod.fst) ((pairs ls).map Prod.fst) := fun ls =>
    ⟨fun h => ⟨h.formed, h.room⟩, fun h => ⟨h.1, h.2⟩⟩
  rw [hroom, hformed, pairs_cons]
  cases hd : directive line with
  | malformed => exact ⟨fun h => h.1.1 rfl, False.elim⟩
  | nothing => exact ⟨fun h => ⟨h.1.2, h.2⟩, fun h => ⟨⟨Directive.noConfusion, h.formed⟩, h.room⟩⟩
  | entry key value =>
      have hmap : (cfg ++ [(key, value)]).map Prod.fst = cfg.map Prod.fst ++ [key] := List.map_append
      rw [Directive.pair, Option.toList_some, List.singleton_append, List.map_cons, admits_cons,
        List.length_map, ← hmap]
      exact ⟨fun h => ⟨h.2.1, h.1.2, h.2.2⟩,
        fun h => ⟨⟨Directive.noConfusion, h.2.formed⟩, h.1, h.2.room⟩⟩

/-- The lines are all taken exactly when they can be added. -/
theorem foldlM_cfgLine {lines : List Bytes} (h0 : ∀ line ∈ lines, 0 ∉ line) {cfg cfg' : Cfg}
    (hcfg : Acceptable cfg []) :
    lines.foldlM cfgLine cfg = some cfg' ↔ Acceptable cfg lines ∧ cfg' = cfg ++ pairs lines := by
  induction lines generalizing cfg with
  | nil =>
      rw [List.foldlM_nil, pairs_nil, List.append_nil]
      constructor
      · intro h
        exact ⟨hcfg, (Option.some.inj h).symm⟩
      · rintro ⟨-, rfl⟩
        rfl
  | cons line lines ih =>
      have hrest := fun l hl => h0 l (List.mem_cons_of_mem line hl)
      rw [List.foldlM_cons, cfgLine_eq (h0 line List.mem_cons_self), acceptable_cons, pairs_cons]
      cases hd : directive line with
      | malformed =>
          constructor
          · intro h
            cases h
          · rintro ⟨h, -⟩
            exact h.elim
      | nothing => exact ih hrest hcfg
      | entry key value =>
          obtain ⟨-, hkey, hvalue⟩ := (directive_entry hd).1
          have happ : cfg ++ ((key, value) :: pairs lines) = cfg ++ [(key, value)] ++ pairs lines :=
            List.append_cons ..
          have hnext : key ∉ cfg.map Prod.fst → cfg.length < configMaxEntries →
              Acceptable (cfg ++ [(key, value)]) [] := by
            intro hnew hlt
            have hsnoc := (acceptable_nil.mp hcfg).snoc hnew (by rwa [List.length_map])
            refine acceptable_nil.mpr ?_
            rwa [List.map_append]
          rw [Directive.pair, Option.toList_some, List.singleton_append, happ]
          constructor
          · intro h
            obtain ⟨cfg₁, hset, hfold⟩ := Option.bind_eq_some_iff.mp h
            obtain ⟨hnew, hlt, rfl⟩ := (cfgSet_some hkey hvalue).mp hset
            obtain ⟨hacc, hcfg'⟩ := (ih hrest (hnext hnew hlt)).mp hfold
            exact ⟨⟨⟨hnew, hlt⟩, hacc⟩, hcfg'⟩
          · rintro ⟨⟨⟨hnew, hlt⟩, hacc⟩, hcfg'⟩
            exact Option.bind_eq_some_iff.mpr ⟨_, (cfgSet_some hkey hvalue).mpr ⟨hnew, hlt, rfl⟩,
              (ih hrest (hnext hnew hlt)).mpr ⟨hacc, hcfg'⟩⟩

/-- What `fgets` returns, without `feof`. -/
def readLines (content : Bytes) : List Bytes := (textLines 1022 content).map Prod.fst

/-- The lines of a file, cut as `fgets` into 1024 bytes cuts them. -/
def filePieces (content : Bytes) : List Bytes := (physicalLines content).flatMap (pieces 1022)

theorem readLines_line {line : Bytes} (h10 : 10 ∉ line) (rest : Bytes) (cfg : Cfg) :
    (readLines (line ++ 10 :: rest)).foldlM cfgLine cfg =
      ((pieces 1022 line).foldlM cfgLine cfg).bind ((readLines rest).foldlM cfgLine) := by
  fun_induction pieces 1022 line generalizing cfg with
  | case1 line hfits =>
      rw [readLines, textLines_newline h10 hfits, List.map_cons, List.foldlM_cons,
        cfgLine_newline, List.foldlM_cons, ← readLines]
      cases cfgLine cfg line with
      | none => rfl
      | some cfg' => rfl
  | case2 line hlong ih =>
      have hcut := textLines_long h10 (Nat.not_le.mp hlong) (10 :: rest)
      rw [readLines, hcut, List.map_cons, List.foldlM_cons, List.foldlM_cons, ← readLines]
      cases cfgLine cfg (line.take (1022 + 1)) with
      | none => rfl
      | some cfg' =>
          exact ih (fun h => h10 (List.mem_of_mem_drop h)) cfg'

theorem readLines_last {line : Bytes} (h10 : 10 ∉ line) (cfg : Cfg) :
    (readLines line).foldlM cfgLine cfg = (pieces 1022 line).foldlM cfgLine cfg := by
  fun_induction pieces 1022 line generalizing cfg with
  | case1 line hfits =>
      by_cases hnil : line = []
      · subst hnil
        rw [readLines, textLines_nil]
        rfl
      · rw [readLines, textLines_unended ⟨hnil, h10, Nat.lt_succ_of_le hfits⟩]
        rfl
  | case2 line hlong ih =>
      have hcut := textLines_long h10 (Nat.not_le.mp hlong) []
      rw [List.append_nil, List.append_nil] at hcut
      rw [readLines, hcut, List.map_cons, List.foldlM_cons, List.foldlM_cons, ← readLines]
      cases cfgLine cfg (line.take (1022 + 1)) with
      | none => rfl
      | some cfg' =>
          exact ih (fun h => h10 (List.mem_of_mem_drop h)) cfg'

/-- `cfg_load` takes the pieces for lines. -/
theorem foldlM_readLines (content : Bytes) (cfg : Cfg) :
    (readLines content).foldlM cfgLine cfg = (filePieces content).foldlM cfgLine cfg := by
  rw [filePieces]
  induction content using textInduction generalizing cfg with
  | nil => rw [readLines, textLines_nil]; rfl
  | last line hne h10 =>
      rw [physicalLines_last hne h10, List.flatMap_singleton]
      exact readLines_last h10 cfg
  | line line rest h10 ih =>
      rw [physicalLines_newline h10, List.flatMap_cons, List.foldlM_append,
        readLines_line h10]
      cases (pieces 1022 line).foldlM cfgLine cfg with
      | none => rfl
      | some cfg' => exact ih cfg'

/-! ### Running it -/

/-- The outcome of each operation on a file system where nothing fails. -/
def configOk (fs : FileSystem Bytes) : (o : ConfigOp) → Option (ConfigOp.Res o × FileSystem Bytes)
  | .file o => some (fs.ok o)
  | .ferror _ => some (false, fs)

/-- The result of `cfg_load` when nothing fails. -/
def loaded (bound : ℕ) (path : Bytes) (fs : FileSystem Bytes) : Option (Option Cfg) :=
  (Prog.eval configOk (cfgLoad bound path) fs).map Prod.fst

theorem eval_onFile {α : Type} (o : FileOp Bytes) (k : FileOp.Res o → Prog configInterface α)
    (fs : FileSystem Bytes) :
    Prog.eval configOk (onFile o >>= k) fs = Prog.eval configOk (k (fs.ok o).1) (fs.ok o).2 := rfl

/-- The loop of `cfg_load` takes in the lines left to read. -/
theorem cfgRounds_eval {fp : Handle} (n : ℕ) {fs : FileSystem Bytes} {text : Bytes}
    (hr : fs.Reading fp text) (hn : text.length < n) (cfg : Cfg) :
    ∃ fs', Prog.eval configOk (Prog.iterate n (cfgRound fp) cfg) fs =
      some ((readLines text).foldlM cfgLine cfg, fs') := by
  induction n generalizing fs text cfg with
  | zero => exact absurd hn (Nat.not_lt_zero _)
  | succ n ih =>
      rw [Prog.iterate, cfgRound, Prog.bind_bind]
      by_cases hnil : text = []
      · subst hnil
        refine ⟨fs, ?_⟩
        rw [eval_onFile, hr.fgets_end, readLines, textLines_nil]
        rfl
      · obtain ⟨fs₁, hok, hr₁, -⟩ := hr.fgets (n := 1022) hnil
        rw [eval_onFile, hok, readLines, textLines, dif_neg hnil, List.map_cons, List.foldlM_cons]
        have happ := congrArg List.length (readLine_append (1022 + 1) text)
        have hpos := List.length_pos_iff.mpr (readLine_ne_nil (n := 1022) hnil)
        rw [List.length_append] at happ
        cases hline : cfgLine cfg (readLine (1022 + 1) text).1 with
        | none => exact ⟨fs₁, by simp only [hline]; rfl⟩
        | some cfg' =>
            obtain ⟨fs', he⟩ := ih hr₁ (by omega) cfg'
            exact ⟨fs', by simp only [hline]; exact he⟩

/-- The result of `cfg_load` on a file is that of its pieces. -/
theorem loaded_eq {fs : FileSystem Bytes} {path content : Bytes} {bound : ℕ}
    (h : fs.disk path = some content) (hb : content.length < bound) :
    loaded bound path fs = some ((filePieces content).foldlM cfgLine []) := by
  obtain ⟨fs₁, hok, hr, -⟩ := FileSystem.fopen_reading h
  obtain ⟨fs₂, he⟩ := cfgRounds_eval bound hr hb []
  rw [loaded, cfgLoad, eval_onFile, hok]
  simp only [Prog.eval_bind, he, Option.bind_some]
  rw [foldlM_readLines]
  cases (filePieces content).foldlM cfgLine [] with
  | none => rfl
  | some cfg => rfl

/-! ### Whole files -/

theorem filePieces_bytes {content piece : Bytes} (h : piece ∈ filePieces content) {b : UInt8}
    (hb : b ∈ piece) : b ∈ content := by
  obtain ⟨line, hline, hpiece⟩ := List.mem_flatMap.mp h
  exact mem_of_mem_physicalLines hline (mem_of_mem_pieces hpiece hb)

section Lines

variable {lines : List Bytes}

/-- Contained lines say what their pieces say. -/
theorem pairs_of_contained (h10 : ∀ line ∈ lines, 10 ∉ line)
    (hformed : ∀ piece ∈ lines.flatMap (pieces 1022), directive piece ≠ .malformed)
    (h : ∀ line ∈ lines, Contained (pieces 1022 line)) :
    (∀ line ∈ lines, directive line ≠ .malformed) ∧
      pairs (lines.flatMap (pieces 1022)) = pairs lines := by
  induction lines with
  | nil => exact ⟨fun _ h => (List.not_mem_nil h).elim, rfl⟩
  | cons line lines ih =>
      rw [List.flatMap_cons, List.forall_mem_append] at hformed
      rw [List.forall_mem_cons] at h h10
      obtain ⟨hrest, hpairs⟩ := ih h10.2 hformed.2 h.2
      have hself := h.1.pairs (fun p hp hm => h10.1 (mem_of_mem_pieces hp hm)) hformed.1
      rw [pieces_flatten] at hself
      refine ⟨List.forall_mem_cons.mpr ⟨hself.1, hrest⟩, ?_⟩
      rw [List.flatMap_cons, pairs_append, hself.2, hpairs, pairs_cons]

theorem length_pairs_le (h10 : ∀ line ∈ lines, 10 ∉ line)
    (hformed : ∀ piece ∈ lines.flatMap (pieces 1022), directive piece ≠ .malformed) :
    (pairs lines).length ≤ (pairs (lines.flatMap (pieces 1022))).length := by
  induction lines with
  | nil => exact Nat.le_refl _
  | cons line lines ih =>
      rw [List.flatMap_cons, List.forall_mem_append] at hformed
      rw [List.forall_mem_cons] at h10
      have hself := length_pair_le (fun p hp hm => h10.1 (mem_of_mem_pieces hp hm)) hformed.1
      rw [pieces_flatten] at hself
      rw [List.flatMap_cons, pairs_append, pairs_cons, List.length_append, List.length_append]
      exact Nat.add_le_add hself (ih h10.2 hformed.2)

/-- Lines that say what their pieces say are contained, each of them: no piece makes up for what
another lost, as the pieces of a line never give fewer entries than the line. -/
theorem contained_of_pairs_eq (h10 : ∀ line ∈ lines, 10 ∉ line)
    (hformed : ∀ piece ∈ lines.flatMap (pieces 1022), directive piece ≠ .malformed)
    (hlines : ∀ line ∈ lines, directive line ≠ .malformed)
    (h : pairs (lines.flatMap (pieces 1022)) = pairs lines) :
    ∀ line ∈ lines, Contained (pieces 1022 line) := by
  induction lines with
  | nil => exact fun _ h => (List.not_mem_nil h).elim
  | cons line lines ih =>
      rw [List.flatMap_cons, List.forall_mem_append] at hformed
      rw [List.forall_mem_cons] at h10 hlines
      rw [List.flatMap_cons, pairs_append, pairs_cons] at h
      have h10p := fun p (hp : p ∈ pieces 1022 line) hm => h10.1 (mem_of_mem_pieces hp hm)
      have hself := length_pair_le h10p hformed.1
      have hrest := length_pairs_le h10.2 hformed.2
      rw [pieces_flatten] at hself
      have hlen := congrArg List.length h
      rw [List.length_append, List.length_append] at hlen
      obtain ⟨hfirst, htail⟩ := List.append_inj h (by omega)
      have hcontained := contained_of_pairs h10p hformed.1 (by rw [pieces_flatten]; exact hlines.1)
        (by rw [pieces_flatten]; exact hfirst)
      exact List.forall_mem_cons.mpr ⟨hcontained, ih h10.2 hformed.2 hlines.2 htail⟩

theorem pairs_limits {entry : Bytes × Bytes} (h : entry ∈ pairs lines) :
    entry.1 ≠ [] ∧ entry.1.length < maxKeyLen ∧ entry.2.length < maxValueLen := by
  obtain ⟨line, -, hpair⟩ := List.mem_filterMap.mp h
  cases hd : directive line with
  | entry key value =>
      rw [hd] at hpair
      cases hpair
      exact (directive_entry hd).1
  | nothing => rw [hd] at hpair; cases hpair
  | malformed => rw [hd] at hpair; cases hpair

end Lines

theorem cfgGet_of_mem {cfg : Cfg} (hnd : (cfg.map Prod.fst).Nodup) {entry : Bytes × Bytes}
    (h : entry ∈ cfg) (fallback : Bytes) : cfgGet cfg entry.1 fallback = entry.2 := by
  induction cfg with
  | nil => cases h
  | cons first cfg ih =>
      rw [List.map_cons, List.nodup_cons] at hnd
      rw [cfgGet, List.find?_cons]
      rcases List.mem_cons.mp h with rfl | h
      · rw [decide_eq_true rfl]
        rfl
      · have hne : first.1 ≠ entry.1 := fun he => hnd.1 (he ▸ List.mem_map_of_mem h)
        rw [decide_eq_false hne]
        exact ih hnd.2 h

theorem cfgGet_of_not_mem {cfg : Cfg} {key : Bytes} (h : key ∉ cfg.map Prod.fst)
    (fallback : Bytes) : cfgGet cfg key fallback = fallback := by
  rw [cfgGet, List.find?_eq_none.mpr]
  · rfl
  · intro entry hentry he
    exact h (of_decide_eq_true he ▸ List.mem_map_of_mem hentry)

/-- A result that is that of the lines is right. -/
theorem loads_of_pairs {content : Bytes} (h : Acceptable [] (physicalLines content)) :
    Loads content (some (pairs (physicalLines content))) where
  entries := by
    rintro cfg ⟨⟩
    rfl
  limits := by
    rintro cfg ⟨⟩
    exact ⟨h.room.distinct, fun entry hentry => pairs_limits hentry⟩
  lookup := by
    rintro cfg ⟨⟩ fallback
    exact ⟨fun entry hentry => cfgGet_of_mem h.room.distinct hentry fallback,
      fun key hkey => cfgGet_of_not_mem hkey fallback⟩
  refuses hno := absurd h hno

theorem loads_none (content : Bytes) : Loads content none where
  entries := nofun
  limits := nofun
  lookup := nofun
  refuses _ := rfl

/-- What the pieces give is right for the lines. -/
theorem loads_pieces {content : Bytes} (h0 : 0 ∉ content) :
    Loads content ((filePieces content).foldlM cfgLine []) ↔
      (∀ line ∈ physicalLines content, Contained (pieces 1022 line)) ∨
        ¬ Acceptable [] (filePieces content) := by
  have h10 : ∀ line ∈ physicalLines content, 10 ∉ line := fun line => newline_not_mem
  have hfold : ∀ cfg', (filePieces content).foldlM cfgLine [] = some cfg' ↔
      Acceptable [] (filePieces content) ∧ cfg' = pairs (filePieces content) := fun cfg' =>
    foldlM_cfgLine (fun piece hpiece hm => h0 (filePieces_bytes hpiece hm))
      (acceptable_nil.mpr (admits_nil.mpr ⟨List.nodup_nil, Nat.zero_le _⟩))
  by_cases hacc : Acceptable [] (filePieces content)
  · rw [(hfold _).mpr ⟨hacc, rfl⟩, or_iff_left (not_not.mpr hacc)]
    constructor
    · intro hloads
      have hlines := not_not.mp fun hno => Option.some_ne_none _ (hloads.refuses hno)
      exact contained_of_pairs_eq h10 hacc.formed hlines.formed (hloads.entries _ rfl)
    · intro hcontained
      obtain ⟨hformed, hpairs⟩ := pairs_of_contained h10 hacc.formed hcontained
      have hroom := hacc.room
      rw [filePieces, hpairs] at hroom ⊢
      exact loads_of_pairs ⟨hformed, hroom⟩
  · have hnone : (filePieces content).foldlM cfgLine [] = none :=
      Option.eq_none_iff_forall_ne_some.mpr fun cfg' he => hacc ((hfold cfg').mp he).1
    rw [hnone]
    exact iff_of_true (loads_none content) (.inr hacc)

/-- A line of at most 1023 bytes is contained. -/
theorem contained_of_short {line : Bytes} (h : line.length ≤ 1023) :
    Contained (pieces 1022 line) := by
  have hlast : ∀ rest : List Bytes, (∀ other ∈ rest, other = []) → Contained (line :: rest) := by
    intro rest hrest
    have hflat : rest.flatten = [] := List.flatten_eq_nil_iff.mpr hrest
    rw [Contained]
    split
    · clear hflat
      induction rest with
      | nil => trivial
      | cons other rest ih =>
          rw [hrest other List.mem_cons_self, Contained, if_pos ⟨nofun, List.not_mem_nil⟩]
          exact ih fun o ho => hrest o (List.mem_cons_of_mem other ho)
    · refine ⟨fun other ho => ?_, .inr (.inr ?_)⟩
      · rw [hrest other ho]
        rfl
      · rw [hflat]
        exact nofun
  by_cases hfits : line.length ≤ 1022
  · rw [pieces_fits hfits]
    exact hlast [] nofun
  · have hlen : line.length = 1022 + 1 := Nat.le_antisymm h (Nat.not_le.mp hfits)
    rw [pieces_long (Nat.not_le.mp hfits), List.take_of_length_le (Nat.le_of_eq hlen),
      List.drop_of_length_le (Nat.le_of_eq hlen), pieces_fits (Nat.zero_le _)]
    exact hlast [[]] fun other ho => List.mem_singleton.mp ho

/-- A file of such lines is read right. -/
theorem loads_of_short {fs : FileSystem Bytes} {path content : Bytes} {bound : ℕ}
    (h : fs.disk path = some content) (h0 : 0 ∉ content) (hb : content.length < bound)
    (hshort : ∀ line ∈ physicalLines content, line.length ≤ 1023) :
    ∃ result, loaded bound path fs = some result ∧ Loads content result :=
  ⟨_, loaded_eq h hb,
    (loads_pieces h0).mpr (.inl fun line hline => contained_of_short (hshort line hline))⟩

/-- **Lines and pieces.**  `cfg_load` gets a file right exactly when every line is contained in one
of its pieces, unless the pieces, taken for lines, are refused. -/
theorem cfgLoad_exact {fs : FileSystem Bytes} {path content : Bytes} {bound : ℕ}
    (h : fs.disk path = some content) (h0 : 0 ∉ content) (hb : content.length < bound) :
    ∃ result, loaded bound path fs = some result ∧
      (Loads content result ↔
        (∀ line ∈ physicalLines content, Contained (pieces 1022 line)) ∨
          ¬ Acceptable [] (filePieces content)) :=
  ⟨_, loaded_eq h hb, loads_pieces h0⟩

/-- A comment, and an entry with more blanks behind it than a piece has room for. -/
def longEntry : Bytes := ascii "# ports\nport = 5000" ++ List.replicate 1100 32 ++ ascii "\n"

theorem cfgLoad_exact_long : ∃ result,
    loaded 2000 (ascii "server.conf") (FileSystem.only (ascii "server.conf") longEntry) =
      some result ∧ Loads longEntry result := by
  have hbound : longEntry.length < 2000 := by decide +kernel
  obtain ⟨result, hloaded, hloads⟩ :=
    cfgLoad_exact (FileSystem.only_disk (ascii "server.conf") longEntry) (by decide +kernel) hbound
  exact ⟨result, hloaded, hloads.mpr (.inl (by decide +kernel))⟩

/-- A comment of 1023 bytes, and what is left of its line. -/
def longComment : Bytes := 35 :: List.replicate 1022 32 ++ ascii "port=1\n"

/-- The end of a comment becomes an entry. -/
theorem cfgLoad_comment_read :
    loaded 2000 (ascii "server.conf") (FileSystem.only (ascii "server.conf") longComment) =
      some (some [(ascii "port", ascii "1")]) ∧
      ¬ Loads longComment (some [(ascii "port", ascii "1")]) := by
  refine ⟨by decide +kernel, fun h => ?_⟩
  have hnone : pairs (physicalLines longComment) = [] := by decide +kernel
  exact List.cons_ne_nil _ _ ((h.entries _ rfl).trans hnone)

end UpdateFramework
