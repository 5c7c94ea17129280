import UpdateFramework.Common.Logger

/-!
# Common — the newest lines

`logger.c` keeps the lines written last in a ring for the GUI: `ring_add` puts a line in, over the
oldest one once the ring is full, and `logger_recent` copies the newest out.  What the ring holds is
the end of all that was put in (`Newest`), so `logger_recent` gives the last lines in their order.
-/

namespace UpdateFramework

open Libc Collections

/-- `logger_recent`, into the rows of `dst`: the result, the rows and the logger after it. -/
def loggerRecent (g : Logger) (dst : Option (List Bytes)) (max : ℤ) :
    ℕ × Option (List Bytes) × Logger :=
  match dst with
  | none => (0, none, g)
  | some dst =>
    if max ≤ 0 then (0, some dst, g)
    else
      let n := if g.ringCount < max then g.ringCount else max.toNat
      let start := (g.ringStart + g.ringCount - n + guiLogRing) % guiLogRing
      let dst := (List.range n).foldl (fun dst i =>
        let idx := (start + i) % guiLogRing
        dst.set i (snprintf logLineMax (cstr (g.ring.getD idx [])))) dst
      (n, some dst, g)

/-- The ring after these lines. -/
def ringAfter (minLevel : LogLevel) (lines : List Bytes) : Logger :=
  lines.foldl ringAdd (loggerStart minLevel)

/-- The ring holds the newest of these lines, the oldest of them first. -/
structure Newest (lines : List Bytes) (g : Logger) : Prop where
  length : g.ring.length = guiLogRing
  start : g.ringStart < guiLogRing
  count : g.ringCount = min lines.length guiLogRing
  holds : ringContents g.ring g.ringStart g.ringCount =
    lines.drop (lines.length - g.ringCount)

section Newest

variable {lines : List Bytes} {g : Logger}

theorem Newest.count_le (h : Newest lines g) : g.ringCount ≤ g.ring.length :=
  (h.count.trans_le (Nat.min_le_right ..)).trans_eq h.length.symm

theorem newest_start (minLevel : LogLevel) : Newest [] (loggerStart minLevel) where
  length := List.length_replicate
  start := Nat.zero_lt_succ _
  count := rfl
  holds := rfl

/-- A line put into the ring is the newest. -/
theorem Newest.add (h : Newest lines g) {line : Bytes} (hline : IsLine line) :
    Newest (lines ++ [line]) (ringAdd g line) := by
  have hlen : (lines ++ [line]).length = lines.length + 1 := List.length_append
  have hcount := h.count
  by_cases hfull : g.ringCount = guiLogRing
  · -- the oldest line is given up
    have hover := @ringContents_overwrite _ g.ring g.ringStart
      (h.length.symm ▸ Nat.zero_lt_succ _) line
    have hholds := h.holds
    have hmany : guiLogRing ≤ lines.length := by omega
    have hcells : 0 < guiLogRing := Nat.zero_lt_succ _
    have hkept : lines.length - guiLogRing + 1 ≤ lines.length := by omega
    rw [h.length, Nat.mod_eq_of_lt h.start] at hover
    rw [hfull] at hholds
    rw [ringAdd, if_pos hfull, hline.copy]
    refine ⟨(List.length_set ..).trans h.length, Nat.mod_lt _ (Nat.zero_lt_succ _), ?_, ?_⟩
    · show g.ringCount = min (lines ++ [line]).length guiLogRing
      omega
    · show ringContents _ _ g.ringCount = (lines ++ [line]).drop (_ - g.ringCount)
      rw [hfull, hover, hholds, List.tail_drop, hlen, Nat.sub_add_comm hmany,
        List.drop_append_of_le_length hkept]
  · -- there is a cell free
    have hfew : g.ringCount = lines.length := by omega
    have hroom : g.ringCount < g.ring.length := by
      rw [h.length]
      omega
    have hpush := ringContents_push g.ring g.ringStart hroom line
    have hholds := h.holds
    rw [h.length] at hpush
    rw [hfew, Nat.sub_self, List.drop_zero] at hholds
    rw [ringAdd, if_neg hfull, hline.copy]
    refine ⟨(List.length_set ..).trans h.length, h.start, ?_, ?_⟩
    · show g.ringCount + 1 = min (lines ++ [line]).length guiLogRing
      have hlt := hroom.trans_eq h.length
      omega
    · show ringContents _ _ (g.ringCount + 1) = (lines ++ [line]).drop (_ - (g.ringCount + 1))
      rw [hpush, hfew, hholds, hlen, Nat.sub_self, List.drop_zero]

theorem newest_ringAfter (minLevel : LogLevel) (hlines : ∀ line ∈ lines, IsLine line) :
    Newest lines (ringAfter minLevel lines) := by
  induction lines using List.reverseRecOn with
  | nil => exact newest_start minLevel
  | append_singleton lines line ih =>
      rw [ringAfter, List.foldl_append]
      exact (ih fun l hl => hlines l (List.mem_append_left _ hl)).add
        (hlines line (List.mem_append_right _ (List.mem_singleton_self _)))

end Newest

/-! ### Copying -/

/-- Rows that are written one after another. -/
theorem foldl_set_range {α : Type} (f : ℕ → α) (dst : List α) {n : ℕ} (h : n ≤ dst.length) :
    (List.range n).foldl (fun dst i => dst.set i (f i)) dst =
      (List.range n).map f ++ dst.drop n := by
  induction n with
  | zero => rfl
  | succ n ih =>
      have hrow : n < dst.length := h
      have hdone : ((List.range n).map f).length = n := by
        rw [List.length_map, List.length_range]
      rw [List.range_succ, List.foldl_append, ih (Nat.le_of_lt hrow), List.foldl_cons,
        List.foldl_nil, List.set_append_right _ _ (Nat.le_of_eq hdone), hdone, Nat.sub_self,
        List.drop_eq_getElem_cons hrow, List.set_cons_zero, List.map_append, List.append_assoc]
      rfl

/-- What is copied out of a ring that holds lines are these lines. -/
theorem copied_newest {lines : List Bytes} {g : Logger} (h : Newest lines g)
    (hlines : ∀ line ∈ lines, IsLine line) {k : ℕ} (hk : k ≤ g.ringCount) :
    ((List.range k).map fun i => snprintf logLineMax
      (cstr (g.ring.getD
        (((g.ringStart + g.ringCount - k + guiLogRing) % guiLogRing + i) % guiLogRing) []))) =
      lines.drop (lines.length - k) := by
  have hcount := h.count
  have hpos : 0 < g.ring.length := h.length.symm ▸ Nat.zero_lt_succ _
  have hnewest := ringContents_newest g.ring g.ringStart hk h.count_le
  have hdrop : (lines.drop (lines.length - g.ringCount)).drop (g.ringCount - k) =
      lines.drop (lines.length - k) := by
    rw [List.drop_drop]
    congr 1
    omega
  rw [h.holds, hdrop, ringContents_eq_map hpos (hk.trans h.count_le) [], h.length] at hnewest
  rw [← hnewest]
  refine List.map_congr_left fun i hi => ?_
  have hidx : ((g.ringStart + g.ringCount - k + guiLogRing) % guiLogRing + i) % guiLogRing =
      (g.ringStart + (g.ringCount - k) + i) % guiLogRing := by
    rw [Nat.add_mod_right, Nat.mod_add_mod, Nat.add_sub_assoc hk]
  rw [hidx]
  have hmem : g.ring.getD ((g.ringStart + (g.ringCount - k) + i) % guiLogRing) [] ∈
      lines.drop (lines.length - k) :=
    hnewest ▸ List.mem_map.mpr ⟨i, hi, rfl⟩
  exact (hlines _ ((List.drop_sublist _ _).subset hmem)).copy

/-- **The newest lines.**  After any lines have been put into the ring, `logger_recent` returns how
many of them it copies, as many as there are, as the ring holds and as the caller has room for; it
fills the rows with that many of the last lines in their order, and leaves the ring as it is. -/
theorem logger_recent_newest (minLevel : LogLevel) {lines : List Bytes}
    (hlines : ∀ line ∈ lines, IsLine line) (dst : List Bytes) {max : ℤ} (hmax : 1 ≤ max)
    (hroom : max ≤ dst.length) :
    ∃ k : ℕ, (k : ℤ) = min (min (lines.length : ℤ) guiLogRing) max ∧
      loggerRecent (ringAfter minLevel lines) (some dst) max =
        (k, some (lines.drop (lines.length - k) ++ dst.drop k), ringAfter minLevel lines) := by
  have h := newest_ringAfter minLevel hlines
  obtain ⟨g, hg⟩ : ∃ g, ringAfter minLevel lines = g := ⟨_, rfl⟩
  rw [hg] at h ⊢
  have hcount := h.count
  obtain ⟨k, hk⟩ : ∃ k, (if g.ringCount < max then g.ringCount else max.toNat) = k := ⟨_, rfl⟩
  have hle : k ≤ g.ringCount ∧ k ≤ dst.length ∧
      (k : ℤ) = min (min (lines.length : ℤ) guiLogRing) max := by
    split at hk
    · omega
    · omega
  refine ⟨k, hle.2.2, ?_⟩
  rw [loggerRecent, if_neg (by omega), hk]
  dsimp only
  rw [foldl_set_range _ _ hle.2.1, copied_newest h hlines hle.1]

/-- Three lines, and room for two. -/
theorem logger_recent_newest_two :
    loggerRecent (ringAfter .info [ascii "a", ascii "b", ascii "c"]) (some [[], []]) 2 =
      (2, some [ascii "b", ascii "c"], ringAfter .info [ascii "a", ascii "b", ascii "c"]) := by
  have hlines : ∀ line ∈ [ascii "a", ascii "b", ascii "c"], IsLine line := by
    simp only [List.forall_mem_cons, List.not_mem_nil, false_imp_iff, implies_true, and_true]
    exact ⟨⟨by decide, by decide⟩, ⟨by decide, by decide⟩, ⟨by decide, by decide⟩⟩
  obtain ⟨k, hk, hrecent⟩ := @logger_recent_newest .info _ hlines [[], []] 2 (by decide)
    (by decide)
  obtain rfl : k = 2 := Int.ofNat.inj hk
  exact hrecent

end UpdateFramework
