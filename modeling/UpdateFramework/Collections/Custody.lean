import Mathlib.Data.List.Nodup
import Mathlib.Data.List.Perm.Basic
import Mathlib.Logic.Function.Basic

/-!
# Collections — things in custody

Parties take things in, put them on a shelf, fetch the oldest from it, and dispose of what they have
in hand; each has at most one thing in hand.  A thing may come in again once it has been disposed
of.  Every step keeps it so that each thing kept is in one place, and has come in once more often than
it was disposed of (`Custody.Sole.step`); when all hands are empty, everything has been disposed of
exactly if the shelf is empty (`Custody.Sole.settled`).
-/

namespace Collections

variable {ι α : Type}

structure Custody (ι α : Type) where
  hand : ι → Option α
  shelf : List α
  /-- What has come in, in order. -/
  entered : List α
  /-- What has been disposed of, in order. -/
  disposed : List α

namespace Custody

/-- `x` is on the shelf or in a hand. -/
def Kept (c : Custody ι α) (x : α) : Prop := x ∈ c.shelf ∨ ∃ i, c.hand i = some x

variable [DecidableEq ι]

/-- Party `i` has `t` in hand from now on. -/
def holds (c : Custody ι α) (i : ι) (t : Option α) : ι → Option α := Function.update c.hand i t

@[simp] theorem holds_self (c : Custody ι α) (i : ι) (t : Option α) : c.holds i t i = t :=
  Function.update_self ..

theorem holds_ne (c : Custody ι α) {i j : ι} (h : j ≠ i) (t : Option α) :
    c.holds i t j = c.hand j :=
  Function.update_of_ne h ..

theorem holds_hand {c : Custody ι α} {i : ι} {t : Option α} (h : c.hand i = t) :
    c.holds i t = c.hand := by
  rw [holds, ← h, Function.update_eq_self]

inductive Step : Custody ι α → Custody ι α → Prop where
  | enter {c : Custody ι α} {i : ι} {x : α} (hi : c.hand i = none) (hnew : ¬ c.Kept x) :
      Step c ⟨c.holds i (some x), c.shelf, c.entered ++ [x], c.disposed⟩
  | store {c : Custody ι α} {i : ι} {x : α} (hi : c.hand i = some x) :
      Step c ⟨c.holds i none, c.shelf ++ [x], c.entered, c.disposed⟩
  | fetch {c : Custody ι α} {i : ι} {x : α} {xs : List α} (hi : c.hand i = none)
      (hshelf : c.shelf = x :: xs) : Step c ⟨c.holds i (some x), xs, c.entered, c.disposed⟩
  | dispose {c : Custody ι α} {i : ι} {x : α} (hi : c.hand i = some x) :
      Step c ⟨c.holds i none, c.shelf, c.entered, c.disposed ++ [x]⟩

variable [DecidableEq α] {c d : Custody ι α}

omit [DecidableEq ι] in
/-- Each thing is in one place; what is kept has come in once more than it was disposed of. -/
structure Sole (c : Custody ι α) : Prop where
  shelf : c.shelf.Nodup
  apart : ∀ {i x}, c.hand i = some x → x ∉ c.shelf
  one : ∀ {i j x}, c.hand i = some x → c.hand j = some x → i = j
  kept : ∀ {x}, c.Kept x → c.entered.count x = c.disposed.count x + 1
  gone : ∀ {x}, ¬ c.Kept x → c.entered.count x = c.disposed.count x

omit [DecidableEq α] in
/-- Where a thing kept is, seen from party `i`. -/
theorem kept_iff (c : Custody ι α) (i : ι) (x : α) :
    c.Kept x ↔ x ∈ c.shelf ∨ c.hand i = some x ∨ ∃ j, j ≠ i ∧ c.hand j = some x := by
  constructor
  · rintro (hx | ⟨j, hj⟩)
    · exact .inl hx
    · by_cases hji : j = i
      · exact .inr (.inl (hji ▸ hj))
      · exact .inr (.inr ⟨j, hji, hj⟩)
  · rintro (hx | hi | ⟨j, -, hj⟩)
    · exact .inl hx
    · exact .inr ⟨i, hi⟩
    · exact .inr ⟨j, hj⟩

omit [DecidableEq α] in
/-- The same, after a change of the hand of `i`. -/
theorem kept_holds (c : Custody ι α) (i : ι) (t : Option α) (shelf entered disposed : List α)
    (x : α) : (⟨c.holds i t, shelf, entered, disposed⟩ : Custody ι α).Kept x ↔
      x ∈ shelf ∨ t = some x ∨ ∃ j, j ≠ i ∧ c.hand j = some x := by
  rw [kept_iff _ i]
  dsimp only
  rw [holds_self]
  refine or_congr Iff.rfl (or_congr Iff.rfl (exists_congr fun j => and_congr_right fun hji => ?_))
  rw [holds_ne c hji]

theorem count_concat (l : List α) (x y : α) :
    (l ++ [x]).count y = l.count y + if x = y then 1 else 0 := by
  rw [List.count_append, List.count_singleton]
  simp only [beq_iff_eq]

omit [DecidableEq α] in
/-- A hand after a change of the hand of `i`. -/
theorem holds_eq_some {i j : ι} {t : Option α} {x : α} (h : c.holds i t j = some x) :
    j = i ∧ t = some x ∨ j ≠ i ∧ c.hand j = some x := by
  by_cases hji : j = i
  · subst hji
    rw [holds_self] at h
    exact .inl ⟨rfl, h⟩
  · rw [holds_ne c hji] at h
    exact .inr ⟨hji, h⟩

namespace Sole

theorem enter (h : c.Sole) {i : ι} {x : α} (hi : c.hand i = none) (hnew : ¬ c.Kept x) :
    Sole ⟨c.holds i (some x), c.shelf, c.entered ++ [x], c.disposed⟩ := by
  have hkept : ∀ y, (⟨c.holds i (some x), c.shelf, c.entered ++ [x], c.disposed⟩ :
      Custody ι α).Kept y ↔ x = y ∨ c.Kept y := by
    intro y
    rw [kept_holds, kept_iff c i, hi, Option.some.injEq]
    simp only [reduceCtorEq, false_or]
    exact or_left_comm
  refine ⟨h.shelf, fun hj => ?_, fun hj hk => ?_, fun {y} hy => ?_, fun {y} hy => ?_⟩
  · rcases holds_eq_some hj with ⟨-, hx⟩ | ⟨-, hj⟩
    · cases hx
      exact fun hm => hnew (.inl hm)
    · exact h.apart hj
  · rcases holds_eq_some hj with ⟨rfl, hx⟩ | ⟨-, hj⟩
    · cases hx
      rcases holds_eq_some hk with ⟨rfl, -⟩ | ⟨-, hk⟩
      · rfl
      · exact absurd (.inr ⟨_, hk⟩) hnew
    · rcases holds_eq_some hk with ⟨-, hx⟩ | ⟨-, hk⟩
      · cases hx
        exact absurd (.inr ⟨_, hj⟩) hnew
      · exact h.one hj hk
  · rw [count_concat]
    by_cases hxy : x = y
    · subst hxy
      rw [if_pos rfl, h.gone hnew]
    · rw [if_neg hxy]
      exact h.kept (((hkept y).mp hy).resolve_left hxy)
  · have hy := not_or.mp (mt (hkept y).mpr hy)
    rw [count_concat, if_neg hy.1]
    exact h.gone hy.2

theorem store (h : c.Sole) {i : ι} {x : α} (hi : c.hand i = some x) :
    Sole ⟨c.holds i none, c.shelf ++ [x], c.entered, c.disposed⟩ := by
  have hkept : ∀ y, (⟨c.holds i none, c.shelf ++ [x], c.entered, c.disposed⟩ :
      Custody ι α).Kept y ↔ c.Kept y := by
    intro y
    rw [kept_holds, kept_iff c i, hi, List.mem_append, List.mem_singleton, Option.some.injEq,
      eq_comm (a := y)]
    simp only [reduceCtorEq, false_or]
    exact or_assoc
  refine ⟨?_, fun hj => ?_, fun hj hk => ?_, fun {y} hy => h.kept ((hkept y).mp hy),
    fun {y} hy => h.gone (mt (hkept y).mpr hy)⟩
  · refine List.nodup_append.mpr ⟨h.shelf, List.nodup_singleton x, fun a ha b hb => ?_⟩
    rw [List.mem_singleton.mp hb]
    exact fun hax => h.apart hi (hax ▸ ha)
  · rcases holds_eq_some hj with ⟨-, hx⟩ | ⟨hji, hj⟩
    · cases hx
    · intro hm
      rcases List.mem_append.mp hm with hm | hm
      · exact h.apart hj hm
      · exact hji (h.one hj (List.mem_singleton.mp hm ▸ hi))
  · rcases holds_eq_some hj with ⟨-, hx⟩ | ⟨-, hj⟩
    · cases hx
    · rcases holds_eq_some hk with ⟨-, hx⟩ | ⟨-, hk⟩
      · cases hx
      · exact h.one hj hk

theorem fetch (h : c.Sole) {i : ι} {x : α} {xs : List α} (hi : c.hand i = none)
    (hshelf : c.shelf = x :: xs) : Sole ⟨c.holds i (some x), xs, c.entered, c.disposed⟩ := by
  have hkept : ∀ y, (⟨c.holds i (some x), xs, c.entered, c.disposed⟩ :
      Custody ι α).Kept y ↔ c.Kept y := by
    intro y
    rw [kept_holds, kept_iff c i, hi, hshelf, List.mem_cons, Option.some.injEq, eq_comm (a := x)]
    simp only [reduceCtorEq, false_or]
    rw [or_left_comm, or_assoc]
  obtain ⟨hx, hxs⟩ := List.nodup_cons.mp (hshelf ▸ h.shelf)
  have hold : ∀ {j y}, c.hand j = some y → y ≠ x ∧ y ∉ xs := fun hj =>
    not_or.mp (mt List.mem_cons.mpr (hshelf ▸ h.apart hj))
  refine ⟨hxs, fun hj => ?_, fun hj hk => ?_, fun {y} hy => h.kept ((hkept y).mp hy),
    fun {y} hy => h.gone (mt (hkept y).mpr hy)⟩
  · rcases holds_eq_some hj with ⟨-, hy⟩ | ⟨-, hj⟩
    · cases hy
      exact hx
    · exact (hold hj).2
  · rcases holds_eq_some hj with ⟨rfl, hy⟩ | ⟨-, hj⟩
    · cases hy
      rcases holds_eq_some hk with ⟨rfl, -⟩ | ⟨-, hk⟩
      · rfl
      · exact absurd rfl (hold hk).1
    · rcases holds_eq_some hk with ⟨-, hy⟩ | ⟨-, hk⟩
      · cases hy
        exact absurd rfl (hold hj).1
      · exact h.one hj hk

theorem dispose (h : c.Sole) {i : ι} {x : α} (hi : c.hand i = some x) :
    Sole ⟨c.holds i none, c.shelf, c.entered, c.disposed ++ [x]⟩ := by
  have hkept : ∀ y, (⟨c.holds i none, c.shelf, c.entered, c.disposed ++ [x]⟩ :
      Custody ι α).Kept y ↔ x ≠ y ∧ c.Kept y := by
    intro y
    rw [kept_holds, kept_iff c i, hi, Option.some.injEq]
    simp only [reduceCtorEq, false_or]
    constructor
    · rintro (hy | ⟨j, hji, hj⟩)
      · exact ⟨fun hxy => h.apart hi (hxy ▸ hy), .inl hy⟩
      · exact ⟨fun hxy => hji (h.one hj (hxy ▸ hi)), .inr (.inr ⟨j, hji, hj⟩)⟩
    · rintro ⟨hne, hy | hy | hj⟩
      · exact .inl hy
      · exact absurd hy hne
      · exact .inr hj
  refine ⟨h.shelf, fun hj => ?_, fun hj hk => ?_, fun {y} hy => ?_, fun {y} hy => ?_⟩
  · rcases holds_eq_some hj with ⟨-, hx⟩ | ⟨-, hj⟩
    · cases hx
    · exact h.apart hj
  · rcases holds_eq_some hj with ⟨-, hx⟩ | ⟨-, hj⟩
    · cases hx
    · rcases holds_eq_some hk with ⟨-, hx⟩ | ⟨-, hk⟩
      · cases hx
      · exact h.one hj hk
  · obtain ⟨hne, hy⟩ := (hkept y).mp hy
    rw [count_concat, if_neg hne]
    exact h.kept hy
  · rw [count_concat]
    by_cases hxy : x = y
    · subst hxy
      rw [if_pos rfl]
      exact h.kept (.inr ⟨i, hi⟩)
    · rw [if_neg hxy]
      exact h.gone fun hk => hy ((hkept y).mpr ⟨hxy, hk⟩)

theorem step (h : c.Sole) (hs : Step c d) : d.Sole := by
  cases hs with
  | enter hi hnew => exact h.enter hi hnew
  | store hi => exact h.store hi
  | fetch hi hshelf => exact h.fetch hi hshelf
  | dispose hi => exact h.dispose hi

omit [DecidableEq ι] in
/-- Nothing is disposed of more often than it has come in, and at most one of each is kept. -/
theorem count_le (h : c.Sole) (x : α) :
    c.disposed.count x ≤ c.entered.count x ∧ c.entered.count x ≤ c.disposed.count x + 1 := by
  by_cases hx : c.Kept x
  · rw [h.kept hx]
    exact ⟨Nat.le_succ _, Nat.le_refl _⟩
  · rw [h.gone hx]
    exact ⟨Nat.le_refl _, Nat.le_succ _⟩

omit [DecidableEq ι] in
/-- What can be counted is what is kept. -/
theorem kept_iff_count (h : c.Sole) (x : α) :
    c.Kept x ↔ c.disposed.count x < c.entered.count x := by
  constructor
  · intro hx
    rw [h.kept hx]
    exact Nat.lt_succ_self _
  · intro hlt
    by_contra hx
    exact absurd (h.gone hx) (Nat.ne_of_gt hlt)

omit [DecidableEq ι] in
/-- When all hands are empty, everything is settled exactly if nothing is on the shelf. -/
theorem settled (h : c.Sole) (hands : ∀ i, c.hand i = none) :
    c.disposed.Perm c.entered ↔ c.shelf = [] := by
  have hkept : ∀ x, c.Kept x ↔ x ∈ c.shelf := fun x =>
    ⟨fun hx => hx.elim id fun ⟨i, hi⟩ => (nomatch hi.symm.trans (hands i)), .inl⟩
  rw [List.perm_iff_count]
  constructor
  · intro hcount
    refine List.eq_nil_iff_forall_not_mem.mpr fun x hx => ?_
    exact absurd (h.kept (.inl hx)) (hcount x ▸ Nat.ne_of_lt (Nat.lt_succ_self _))
  · intro hnil x
    exact (h.gone fun hx => List.not_mem_nil (hnil ▸ (hkept x).mp hx)).symm

end Sole

omit [DecidableEq ι] in
/-- Nothing has come in. -/
theorem sole_start : Sole (⟨fun _ => none, [], [], []⟩ : Custody ι α) where
  shelf := List.nodup_nil
  apart hi := nomatch hi
  one hi := nomatch hi
  kept hx := by
    rcases hx with hx | ⟨i, hi⟩
    · cases hx
    · cases hi
  gone _ := rfl

end Custody

end Collections
