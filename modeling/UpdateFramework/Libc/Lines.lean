import Mathlib.Data.List.Forall2
import Mathlib.Data.List.TakeWhile
import UpdateFramework.Libc.Text

/-!
# Libc — the lines of a text, as `fgets` cuts them

`textLines n s` lists what repeated calls of `fgets` into `n + 1` bytes return on `s`, each with
`feof` afterwards.  A line that fits is either whole, with its newline (`Whole`), or the
unterminated end of the text (`Unended`).  A text all of whose lines fit is the concatenation of
its physical lines (`exists_physical`), of which only the last can be unterminated.
-/

namespace Libc

/-- A line with its newline, within `n` bytes. -/
structure Whole (n : ℕ) (l : Bytes) : Prop where
  ends : ∃ body, l = body ++ [10] ∧ 10 ∉ body
  fits : l.length ≤ n

/-- A last line without a newline, within the `n` bytes after which `fgets` meets the end. -/
structure Unended (n : ℕ) (l : Bytes) : Prop where
  nonempty : l ≠ []
  open_end : 10 ∉ l
  fits : l.length < n

theorem Whole.mem {n : ℕ} {l : Bytes} (h : Whole n l) : 10 ∈ l := by
  obtain ⟨body, rfl, -⟩ := h.ends
  simp

theorem Whole.ne_nil {n : ℕ} {l : Bytes} (h : Whole n l) : l ≠ [] :=
  List.ne_nil_of_mem h.mem

theorem zero_not_mem_cstr (s : Bytes) : 0 ∉ cstr s := fun h => by
  simpa using List.mem_takeWhile_imp h

theorem cstr_eq_self {s : Bytes} (h : 0 ∉ s) : cstr s = s := by
  rw [cstr, List.takeWhile_eq_self_iff]
  intro b hb
  simpa using ne_of_mem_of_not_mem hb h

/-- The bytes up to the first `b`. -/
theorem takeWhile_before {b : UInt8} {s : Bytes} (h : b ∉ s) (t : Bytes) :
    (s ++ b :: t).takeWhile (· ≠ b) = s := by
  have hall : ∀ c ∈ s, decide (c ≠ b) = true := fun c hc =>
    decide_eq_true (ne_of_mem_of_not_mem hc h)
  rw [List.takeWhile_append_of_pos hall, List.takeWhile_cons_of_neg (by simp), List.append_nil]

theorem cstr_append_zero {s : Bytes} (h : 0 ∉ s) (t : Bytes) : cstr (s ++ 0 :: t) = s :=
  takeWhile_before h t

/-- A whole line without a NUL before its newline is its C string. -/
theorem Whole.cstr_eq_self {n : ℕ} {l : Bytes} (h : Whole n l) (hm : 10 ∈ cstr l) :
    cstr l = l := by
  obtain ⟨body, rfl, hb⟩ := h.ends
  rw [cstr, List.takeWhile_append] at hm ⊢
  split at hm
  next hall =>
    rw [if_pos hall]
    rfl
  next => exact absurd ((List.takeWhile_prefix _).subset hm) hb

/-! ### One line -/

theorem readLine_append (n : ℕ) (s : Bytes) : (readLine n s).1 ++ (readLine n s).2.1 = s := by
  induction n generalizing s with
  | zero => rfl
  | succ n ih =>
      cases s with
      | nil => rfl
      | cons b s =>
          by_cases hb : b = 10
          · simp [readLine, hb]
          · simp [readLine, hb, ih s]

theorem readLine_whole {n : ℕ} {l : Bytes} (h : Whole n l) (s : Bytes) :
    readLine n (l ++ s) = (l, s, false) := by
  obtain ⟨⟨body, rfl, hb⟩, hn⟩ := h
  induction body generalizing n with
  | nil =>
      obtain ⟨m, rfl⟩ := Nat.exists_eq_succ_of_ne_zero (n := n) (by simp at hn; omega)
      simp [readLine]
  | cons b body ih =>
      obtain ⟨m, rfl⟩ := Nat.exists_eq_succ_of_ne_zero (n := n) (by simp at hn; omega)
      simp only [List.mem_cons, not_or] at hb
      have hrest := ih hb.2 (n := m) (by simp at hn ⊢; omega)
      rw [List.cons_append, List.cons_append, readLine, if_neg (Ne.symm hb.1), hrest]

theorem readLine_unended {n : ℕ} {l : Bytes} (hl : 10 ∉ l) (hn : l.length < n) :
    readLine n l = (l, [], true) := by
  induction l generalizing n with
  | nil =>
      obtain ⟨m, rfl⟩ := Nat.exists_eq_succ_of_ne_zero (n := n) (by simp at hn; omega)
      rfl
  | cons b l ih =>
      obtain ⟨m, rfl⟩ := Nat.exists_eq_succ_of_ne_zero (n := n) (by simp at hn; omega)
      simp only [List.mem_cons, not_or] at hl
      simp [readLine, Ne.symm hl.1, ih hl.2 (by simpa using hn)]

/-- A line longer than the buffer is cut. -/
theorem readLine_long {n : ℕ} {l : Bytes} (hl : 10 ∉ l) (hn : l.length = n) (s : Bytes) :
    readLine n (l ++ s) = (l, s, false) := by
  induction l generalizing n with
  | nil =>
      subst hn
      rfl
  | cons b l ih =>
      subst hn
      simp only [List.mem_cons, not_or] at hl
      simp [readLine, Ne.symm hl.1, ih hl.2 rfl]

/-- A line that was read is whole where it has a newline, and the end of the text where the end
was met. -/
theorem readLine_fits {n : ℕ} {s : Bytes} (hs : s ≠ [])
    (h : 10 ∈ (readLine n s).1 ∨ (readLine n s).2.2 = true) :
    (Whole n (readLine n s).1 ∧ (readLine n s).2.2 = false) ∨
      (Unended n (readLine n s).1 ∧ (readLine n s).2 = ([], true)) := by
  induction n generalizing s with
  | zero => simp [readLine] at h
  | succ n ih =>
      cases s with
      | nil => exact absurd rfl hs
      | cons b s =>
          by_cases hb : b = 10
          · subst hb
            left
            simp only [readLine, if_true]
            exact ⟨⟨⟨[], rfl, by simp⟩, by simp⟩, trivial⟩
          · simp only [readLine, if_neg hb, List.mem_cons, Ne.symm hb, false_or] at h ⊢
            by_cases hnil : s = []
            · subst hnil
              cases n with
              | zero => simp [readLine] at h
              | succ n =>
                  right
                  simp only [readLine]
                  exact ⟨⟨by simp, by simpa using Ne.symm hb, by simp⟩, trivial⟩
            · rcases ih hnil h with ⟨hw, he⟩ | ⟨hu, he⟩
              · left
                obtain ⟨body, hbody, hm⟩ := hw.ends
                refine ⟨⟨⟨b :: body, by rw [hbody]; rfl, by simp [Ne.symm hb, hm]⟩, ?_⟩, he⟩
                simpa using hw.fits
              · right
                refine ⟨⟨by simp, by simp [Ne.symm hb, hu.open_end], ?_⟩, ?_⟩
                · simpa using hu.fits
                · rw [he]

/-! ### All lines -/

theorem readLine_ne_nil {n : ℕ} {s : Bytes} (hs : s ≠ []) : (readLine (n + 1) s).1 ≠ [] := by
  cases s with
  | nil => exact absurd rfl hs
  | cons b s =>
      by_cases hb : b = 10
      · simp [readLine, hb]
      · simp [readLine, hb]

/-- What repeated calls of `fgets` into `n + 2` bytes return. -/
def textLines (n : ℕ) (s : Bytes) : List (Bytes × Bool) :=
  if hs : s = [] then []
  else
    ((readLine (n + 1) s).1, (readLine (n + 1) s).2.2) :: textLines n (readLine (n + 1) s).2.1
  termination_by s.length
  decreasing_by
    have h := congrArg List.length (readLine_append (n + 1) s)
    have := List.length_pos_iff.mpr (readLine_ne_nil (n := n) hs)
    rw [List.length_append] at h
    omega

@[simp] theorem textLines_nil (n : ℕ) : textLines n [] = [] := by
  rw [textLines]
  simp

theorem textLines_whole {n : ℕ} {l : Bytes} (h : Whole (n + 1) l) (s : Bytes) :
    textLines n (l ++ s) = (l, false) :: textLines n s := by
  rw [textLines, dif_neg (by simp [h.ne_nil]), readLine_whole h]

theorem textLines_unended {n : ℕ} {l : Bytes} (h : Unended (n + 1) l) :
    textLines n l = [(l, true)] := by
  rw [textLines, dif_neg h.nonempty, readLine_unended h.open_end h.fits]
  simp

theorem textLines_flatten_append {n : ℕ} {ls : List Bytes} (hls : ∀ l ∈ ls, Whole (n + 1) l)
    (s : Bytes) : textLines n (ls.flatten ++ s) = ls.map (·, false) ++ textLines n s := by
  induction ls with
  | nil => rfl
  | cons l ls ih =>
      rw [List.flatten_cons, List.append_assoc, textLines_whole (hls l List.mem_cons_self),
        ih fun k hk => hls k (List.mem_cons_of_mem l hk)]
      rfl

theorem textLines_newline {n : ℕ} {l : Bytes} (hl : 10 ∉ l) (hn : l.length ≤ n) (s : Bytes) :
    textLines n (l ++ 10 :: s) = (l ++ [10], false) :: textLines n s := by
  have hw : Whole (n + 1) (l ++ [10]) := ⟨⟨l, rfl, hl⟩, by simpa using hn⟩
  rw [← textLines_whole hw, List.append_assoc, List.singleton_append]

/-- A line that is too long is cut. -/
theorem textLines_long {n : ℕ} {l : Bytes} (hl : 10 ∉ l) (hn : n + 1 ≤ l.length) (s : Bytes) :
    textLines n (l ++ s) = (l.take (n + 1), false) :: textLines n (l.drop (n + 1) ++ s) := by
  have hne : l ++ s ≠ [] := by
    intro e
    rw [(List.append_eq_nil_iff.mp e).1] at hn
    exact Nat.not_succ_le_zero n hn
  have hread := readLine_long (fun h => hl (List.mem_of_mem_take h))
    (List.length_take_of_le hn) (l.drop (n + 1) ++ s)
  rw [← List.append_assoc, List.take_append_drop] at hread
  rw [textLines, dif_neg hne, hread]

/-- The first piece of a line that is too long has no newline. -/
theorem exists_cut {n : ℕ} {l : Bytes} (hl : 10 ∉ l) (hn : n + 1 ≤ l.length) (s : Bytes) :
    ∃ k, (k, false) ∈ textLines n (l ++ s) ∧ 10 ∉ k := by
  refine ⟨l.take (n + 1), ?_, fun h => hl (List.mem_of_mem_take h)⟩
  rw [textLines_long hl hn]
  exact List.mem_cons_self

/-- The physical lines of a text all of whose lines fit: whole ones, and at most one
unterminated line at the end. -/
inductive Physical (n : ℕ) : List Bytes → Prop where
  | nil : Physical n []
  | last {l : Bytes} (h : Unended n l) : Physical n [l]
  | cons {l : Bytes} {ls : List Bytes} (h : Whole n l) (hls : Physical n ls) : Physical n (l :: ls)

/-- `fgets` returns the physical lines, and meets the end at an unterminated one. -/
theorem Physical.textLines {n : ℕ} {ls : List Bytes} (h : Physical (n + 1) ls) :
    Libc.textLines n ls.flatten = ls.map fun l => (l, decide (10 ∉ l)) := by
  induction h with
  | nil => simp
  | last h => simp [textLines_unended h, h.open_end]
  | cons h _ ih => simp [textLines_whole h, ih, h.mem]

/-- A text whose lines all fit is that of its physical lines. -/
theorem exists_physical {n : ℕ} {s : Bytes}
    (h : ∀ l ∈ textLines n s, 10 ∈ l.1 ∨ l.2 = true) :
    ∃ ls, Physical (n + 1) ls ∧ s = ls.flatten := by
  fun_induction textLines n s with
  | case1 => exact ⟨[], .nil, rfl⟩
  | case2 s hs ih =>
      have happ := readLine_append (n + 1) s
      rcases readLine_fits hs (h _ List.mem_cons_self) with ⟨hw, -⟩ | ⟨hu, he⟩
      · obtain ⟨ls, hls, htext⟩ := ih fun l hl => h l (List.mem_cons_of_mem _ hl)
        exact ⟨_ :: ls, .cons hw hls, by rw [List.flatten_cons, ← htext, happ]⟩
      · rw [he, List.append_nil] at happ
        exact ⟨[s], .last (by rwa [happ] at hu), by simp⟩

theorem Physical.of_whole {n : ℕ} {ls : List Bytes} (h : ∀ l ∈ ls, Whole n l) :
    Physical n ls := by
  induction ls with
  | nil => exact .nil
  | cons l ls ih =>
      exact .cons (h l List.mem_cons_self) (ih fun k hk => h k (List.mem_cons_of_mem l hk))

theorem Physical.take {n : ℕ} {ls : List Bytes} (h : Physical n ls) (k : ℕ) :
    Physical n (ls.take k) := by
  induction h generalizing k with
  | nil => simpa using Physical.nil
  | last h =>
      cases k with
      | zero => exact .nil
      | succ k => simpa using Physical.last h
  | cons h _ ih =>
      cases k with
      | zero => exact .nil
      | succ k => exact .cons h (ih k)

/-- Lines may be replaced by whole ones. -/
theorem Physical.replace {n : ℕ} {ls ks : List Bytes} (h : Physical n ls)
    (hr : List.Forall₂ (fun l k => k = l ∨ Whole n k) ls ks) : Physical n ks := by
  induction hr with
  | nil => exact .nil
  | @cons l k ls ks hlk hrest ih =>
      cases h with
      | last hu =>
          cases hrest
          rcases hlk with rfl | hw
          · exact .last hu
          · exact .cons hw .nil
      | cons hw hls =>
          rcases hlk with rfl | hw'
          · exact .cons hw (ih hls)
          · exact .cons hw' (ih hls)

/-! ### A newline at the end -/

/-- A text of which nothing is unterminated. -/
def Terminated (s : Bytes) : Prop := s = [] ∨ s.getLast? = some 10

instance (s : Bytes) : Decidable (Terminated s) := inferInstanceAs (Decidable (_ ∨ _))

theorem Terminated.append {s t : Bytes} (h : t ≠ []) :
    Terminated (s ++ t) ↔ Terminated t := by
  simp [Terminated, h]

theorem Unended.not_terminated {n : ℕ} {l : Bytes} (h : Unended n l) : ¬ Terminated l := by
  rintro (hl | hl)
  · exact h.nonempty hl
  · exact h.open_end (List.mem_of_getLast? hl)

theorem Whole.terminated {n : ℕ} {l : Bytes} (h : Whole n l) : Terminated l := by
  obtain ⟨body, rfl, -⟩ := h.ends
  exact .inr (by simp)

/-- The lines of a terminated text are whole. -/
theorem Physical.whole {n : ℕ} {ls : List Bytes} (h : Physical n ls)
    (ht : Terminated ls.flatten) : ∀ l ∈ ls, Whole n l := by
  induction h with
  | nil => simp
  | last h =>
      rw [List.flatten_singleton] at ht
      exact absurd ht h.not_terminated
  | @cons l ls h hls ih =>
      intro k hk
      rcases List.mem_cons.mp hk with rfl | hk
      · exact h
      · have hne : ls.flatten ≠ [] := by
          cases hls with
          | nil => cases hk
          | last h => simpa using h.nonempty
          | cons h _ => simp [h.ne_nil]
        rw [List.flatten_cons, Terminated.append hne] at ht
        exact ih ht k hk

/-- The lines of a text that is not terminated: whole ones, and the unterminated one. -/
theorem Physical.exists_last {n : ℕ} {ls : List Bytes} (h : Physical n ls)
    (ht : ¬ Terminated ls.flatten) :
    ∃ ks l, ls = ks ++ [l] ∧ (∀ k ∈ ks, Whole n k) ∧ Unended n l := by
  induction h with
  | nil => exact absurd (.inl rfl) ht
  | @last l h => exact ⟨[], l, rfl, by simp, h⟩
  | @cons l ls h _ ih =>
      by_cases hnil : ls.flatten = []
      · simp [hnil, h.terminated] at ht
      · rw [List.flatten_cons, Terminated.append hnil] at ht
        obtain ⟨ks, k, rfl, hks, hk⟩ := ih ht
        exact ⟨l :: ks, k, rfl, by simpa [h] using hks, hk⟩

/-- The bytes after the last newline. -/
def lastLine (s : Bytes) : Bytes := (s.reverse.takeWhile (· ≠ 10)).reverse

/-- The bytes up to and with the last newline. -/
def earlierLines (s : Bytes) : Bytes := (s.reverse.dropWhile (· ≠ 10)).reverse

theorem lastLine_append {s l : Bytes} (hs : Terminated s) (hl : 10 ∉ l) :
    lastLine (s ++ l) = l ∧ earlierLines (s ++ l) = s := by
  have hrev : ∀ b ∈ l.reverse, decide (b ≠ 10) = true := fun b hb => by
    simpa using ne_of_mem_of_not_mem (List.mem_reverse.mp hb) hl
  have hhead : s = [] ∨ ∃ k, s.reverse = 10 :: k := by
    refine hs.imp id fun h => ?_
    obtain ⟨k, rfl⟩ := List.getLast?_eq_some_iff.mp h
    exact ⟨k.reverse, by simp⟩
  rw [lastLine, earlierLines, List.reverse_append, List.takeWhile_append_of_pos hrev,
    List.dropWhile_append_of_pos hrev]
  rcases hhead with rfl | ⟨k, hk⟩
  · simp
  · have hk' : s = (10 :: k).reverse := by rw [← hk, List.reverse_reverse]
    simp [hk']

theorem terminated_flatten {n : ℕ} {ls : List Bytes} (hls : ∀ l ∈ ls, Whole n l) :
    Terminated ls.flatten := by
  rcases List.eq_nil_or_concat ls with rfl | ⟨ks, l, rfl⟩
  · exact .inl rfl
  · have hl := hls l (by simp)
    rw [List.concat_eq_append, List.flatten_append, List.flatten_singleton,
      Terminated.append hl.ne_nil]
    exact hl.terminated

end Libc
