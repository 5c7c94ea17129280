import UpdateFramework.Collections.Custody

/-!
# Collections — a thing shown and taken

An owner brings in one thing after another and shows each in a slot, where any number of takers may
take it: a taker reads the slot, clears it, and leaves a notice of what it has taken.  When the
owner is done with the thing it looks at the notice; it was taken, or the owner clears the slot and
has the thing back.  Whoever has it in the end disposes of it.

Every access to the slot or the notice is a step of its own.  The conditions of `Handover.Step` on a
taker that reads the slot, on the owner that wipes the notice, and on the owner that looks at it,
are what keeps each thing in one place (`Handover.Sound.step`).
-/

namespace Collections

variable {ι α : Type}

namespace Handover

inductive Owner (α : Type) where
  | away
  | holding (x : α)
  /-- The thing is shown, an old notice not yet wiped. -/
  | posted (x : α)
  | armed (x : α)
  /-- The notice says that the thing was taken. -/
  | told (x : α)
  /-- The notice does not say so. -/
  | leaving (x : α)
  | left (x : α)

inductive Taker (α : Type) where
  | idle
  | read (x : α)
  | cleared (x : α)
  | noted (x : α)

def Owner.hand : Owner α → Option α
  | .holding x | .left x => some x
  | _ => none

def Taker.hand : Taker α → Option α
  | .idle => none
  | .read x | .cleared x | .noted x => some x

/-- What is left of a taker that is not between its reading and its notice. -/
def Taker.between : Taker α → Taker α
  | .noted _ => .idle
  | t => t

theorem Taker.eq_of_between {t u : Taker α} (h : t.between = u) (hu : u ≠ .idle) : t = u := by
  cases t with
  | noted x => exact absurd h.symm hu
  | _ => exact h

end Handover

open Handover

structure Handover (ι α : Type) where
  owner : Owner α
  taker : ι → Taker α
  slot : Option α
  notice : Option α
  /-- What was brought in, in order. -/
  entered : List α
  /-- What was disposed of, in order. -/
  disposed : List α

namespace Handover

/-- Where a thing shown has got to. -/
inductive Link (ι α : Type) where
  | free
  | shelved (x : α)
  | reading (x : α) (i : ι)
  | cleared (x : α) (i : ι)
  | noticed (x : α)

namespace Link

def thing : Link ι α → Option α
  | .free => none
  | .shelved x | .reading x _ | .cleared x _ | .noticed x => some x

def slot : Link ι α → Option α
  | .shelved x | .reading x _ => some x
  | _ => none

def notice : Link ι α → Option α
  | .noticed x => some x
  | _ => none

def shelf : Link ι α → List α
  | .shelved x => [x]
  | _ => []

variable [DecidableEq ι]

/-- The takers between their reading and their notice: one at most. -/
def between : Link ι α → ι → Taker α
  | .reading x i => Function.update (fun _ => .idle) i (.read x)
  | .cleared x i => Function.update (fun _ => .idle) i (.cleared x)
  | _ => fun _ => .idle

theorem between_reading (x : α) (i : ι) : (reading x i).between i = .read x := by
  rw [between, Function.update_self]

theorem between_cleared (x : α) (i : ι) : (cleared x i).between i = .cleared x := by
  rw [between, Function.update_self]

omit [DecidableEq ι] in
theorem notice_eq_none {l : Link ι α} {x : α} (hx : l.thing = some x) (hn : l.notice ≠ some x) :
    l.notice = none := by
  cases l with
  | noticed y => exact absurd hx hn
  | _ => rfl

theorem update_idle {i j : ι} {t u : Taker α}
    (h : Function.update (fun _ => Taker.idle) i t j = u) (hu : u ≠ .idle) : i = j ∧ t = u := by
  by_cases hij : j = i
  · subst hij
    rw [Function.update_self] at h
    exact ⟨rfl, h⟩
  · rw [Function.update_of_ne hij] at h
    exact absurd h.symm hu

theorem eq_reading {l : Link ι α} {i : ι} {x : α} (h : l.between i = .read x) :
    l = .reading x i := by
  cases l with
  | reading y j =>
      obtain ⟨rfl, ht⟩ := update_idle h (by nofun)
      cases ht
      rfl
  | cleared y j => cases (update_idle h (by nofun)).2
  | _ => cases h

theorem eq_cleared {l : Link ι α} {i : ι} {x : α} (h : l.between i = .cleared x) :
    l = .cleared x i := by
  cases l with
  | cleared y j =>
      obtain ⟨rfl, ht⟩ := update_idle h (by nofun)
      cases ht
      rfl
  | reading y j => cases (update_idle h (by nofun)).2
  | _ => cases h

end Link

/-- What an owner may find its thing to be. -/
inductive Agrees : Owner α → Link ι α → Prop where
  | away : Agrees .away .free
  | holding (x : α) : Agrees (.holding x) .free
  | posted {x : α} {l : Link ι α} (h : l.thing = some x) : Agrees (.posted x) l
  | armed {x : α} {l : Link ι α} (h : l.thing = some x) : Agrees (.armed x) l
  | told (x : α) : Agrees (.told x) (.noticed x)
  | leaving (x : α) : Agrees (.leaving x) (.shelved x)
  | left (x : α) : Agrees (.left x) .free

variable [DecidableEq ι]

/-- Taker `i` goes over to `t`. -/
def takes (h : Handover ι α) (i : ι) (t : Taker α) : ι → Taker α := Function.update h.taker i t

variable [DecidableEq α]

inductive Step : Handover ι α → Handover ι α → Prop where
  | enter {h : Handover ι α} {x : α} (ho : h.owner = .away)
      (hnew : ¬ h.disposed.count x < h.entered.count x) :
      Step h { h with owner := .holding x, entered := h.entered ++ [x] }
  | post {h : Handover ι α} {x : α} (ho : h.owner = .holding x) :
      Step h { h with owner := .posted x, slot := some x }
  /-- The notice wiped is not of the thing just shown. -/
  | arm {h : Handover ι α} {x : α} (ho : h.owner = .posted x) (hnotice : h.notice ≠ some x) :
      Step h { h with owner := .armed x, notice := none }
  | hear {h : Handover ι α} {x : α} (ho : h.owner = .armed x) (hnotice : h.notice = some x) :
      Step h { h with owner := .told x }
  /-- No taker has read the slot and not yet left its notice. -/
  | leave {h : Handover ι α} {x : α} (ho : h.owner = .armed x) (hnotice : h.notice ≠ some x)
      (hread : ∀ i y, h.taker i ≠ .read y) (hcleared : ∀ i y, h.taker i ≠ .cleared y) :
      Step h { h with owner := .leaving x }
  | forget {h : Handover ι α} {x : α} (ho : h.owner = .told x) :
      Step h { h with owner := .away, notice := none }
  | clear {h : Handover ι α} {x : α} (ho : h.owner = .leaving x) :
      Step h { h with owner := .left x, slot := none }
  | again {h : Handover ι α} {x : α} (ho : h.owner = .left x) :
      Step h { h with owner := .left x, slot := none }
  | drop {h : Handover ι α} {x : α} (ho : h.owner = .left x) :
      Step h { h with owner := .away, disposed := h.disposed ++ [x] }
  /-- No other taker has read the slot and not yet cleared it, and the owner has not found that the
  thing was not taken. -/
  | take {h : Handover ι α} {i : ι} {x : α} (hi : h.taker i = .idle) (hslot : h.slot = some x)
      (hread : ∀ j y, h.taker j ≠ .read y) (howner : ∀ y, h.owner ≠ .leaving y) :
      Step h { h with taker := h.takes i (.read x) }
  | empty {h : Handover ι α} {i : ι} {x : α} (hi : h.taker i = .read x) :
      Step h { h with taker := h.takes i (.cleared x), slot := none }
  | note {h : Handover ι α} {i : ι} {x : α} (hi : h.taker i = .cleared x) :
      Step h { h with taker := h.takes i (.noted x), notice := some x }
  | dispose {h : Handover ι α} {i : ι} {x : α} (hi : h.taker i = .noted x) :
      Step h { h with taker := h.takes i .idle, disposed := h.disposed ++ [x] }

omit [DecidableEq ι] [DecidableEq α] in
/-- The parties, the owner first, as a custody; what is shown and not taken is on the shelf. -/
def custody (h : Handover ι α) (shelf : List α) : Custody (Option ι) α where
  hand := fun
    | none => h.owner.hand
    | some i => (h.taker i).hand
  shelf := shelf
  entered := h.entered
  disposed := h.disposed

/-- The thing shown has got to `l`. -/
structure Linked (h : Handover ι α) (l : Link ι α) : Prop where
  slot : h.slot = l.slot
  notice : h.notice = l.notice
  between : (fun i => (h.taker i).between) = l.between
  agrees : Agrees h.owner l
  sole : (h.custody l.shelf).Sole

/-- Each thing is in one place. -/
def Sound (h : Handover ι α) : Prop := ∃ l, Linked h l

section Steps

variable {h h' : Handover ι α} {l : Link ι α} {i : ι} {x : α}

omit [DecidableEq α] in
theorem custody_owner (h : Handover ι α) (o : Owner α) (slot notice : Option α)
    (entered disposed shelf : List α) :
    (⟨o, h.taker, slot, notice, entered, disposed⟩ : Handover ι α).custody shelf =
      ⟨(h.custody shelf).holds none o.hand, shelf, entered, disposed⟩ := by
  rw [custody, Custody.mk.injEq]
  refine ⟨funext fun j => ?_, rfl, rfl, rfl⟩
  cases j with
  | none => exact (Custody.holds_self ..).symm
  | some j => exact (Custody.holds_ne (h.custody shelf) (Option.some_ne_none j) _).symm

omit [DecidableEq α] in
theorem custody_taker (h : Handover ι α) (i : ι) (t : Taker α) (slot notice : Option α)
    (entered disposed shelf : List α) :
    (⟨h.owner, h.takes i t, slot, notice, entered, disposed⟩ : Handover ι α).custody shelf =
      ⟨(h.custody shelf).holds (some i) t.hand, shelf, entered, disposed⟩ := by
  rw [custody, Custody.mk.injEq]
  refine ⟨funext fun j => ?_, rfl, rfl, rfl⟩
  by_cases hj : j = some i
  · subst hj
    rw [Custody.holds_self]
    exact congrArg Taker.hand (Function.update_self ..)
  · rw [Custody.holds_ne _ hj]
    cases j with
    | none => rfl
    | some j =>
        exact congrArg Taker.hand (Function.update_of_ne (fun hji => hj (congrArg some hji)) ..)

omit [DecidableEq α] in
/-- The takers between, after a change of taker `i`. -/
theorem between_takes (h : Handover ι α) (i : ι) (t : Taker α) :
    (fun j => (h.takes i t j).between) =
      Function.update (fun j => (h.taker j).between) i t.between :=
  Function.comp_update Taker.between h.taker i t

theorem Linked.between_eq (hl : Linked h l) {t : Taker α} (hi : h.taker i = t) :
    l.between i = t.between :=
  (congrFun hl.between i).symm.trans (congrArg Taker.between hi)

/-- A thing is on the shelf if nobody has read the slot and no notice is left. -/
theorem Linked.eq_shelved (hl : Linked h l) (hx : l.thing = some x) (hnotice : h.notice ≠ some x)
    (hread : ∀ i y, h.taker i ≠ .read y) (hcleared : ∀ i y, h.taker i ≠ .cleared y) :
    l = .shelved x := by
  cases l with
  | free => cases hx
  | shelved y => rw [Option.some.inj hx]
  | noticed y => exact absurd (hl.notice.trans hx) hnotice
  | reading y j =>
      have hj := (congrFun hl.between j).trans (Link.between_reading y j)
      exact absurd (Taker.eq_of_between hj nofun) (hread j y)
  | cleared y j =>
      have hj := (congrFun hl.between j).trans (Link.between_cleared y j)
      exact absurd (Taker.eq_of_between hj nofun) (hcleared j y)

/-- The owner goes over to `o`, the thing to `l'`, and what is kept to `c`. -/
theorem Linked.owner (hl : Linked h l) (l' : Link ι α) {o : Owner α} {slot notice : Option α}
    {entered disposed : List α} (hslot : slot = l'.slot) (hnotice : notice = l'.notice)
    (hbetween : l'.between = l.between) (ho : Agrees o l')
    (hsole : Custody.Sole ⟨(h.custody l'.shelf).holds none o.hand, l'.shelf, entered, disposed⟩) :
    Sound (⟨o, h.taker, slot, notice, entered, disposed⟩ : Handover ι α) := by
  refine ⟨l', hslot, hnotice, hl.between.trans hbetween.symm, ho, ?_⟩
  rw [custody_owner]
  exact hsole

/-- The same for a taker. -/
theorem Linked.taker (hl : Linked h l) (l' : Link ι α) {t : Taker α} {slot notice : Option α}
    {entered disposed : List α} (hslot : slot = l'.slot) (hnotice : notice = l'.notice)
    (hbetween : l'.between = Function.update l.between i t.between) (ho : Agrees h.owner l')
    (hsole : Custody.Sole
      ⟨(h.custody l'.shelf).holds (some i) t.hand, l'.shelf, entered, disposed⟩) :
    Sound (⟨h.owner, h.takes i t, slot, notice, entered, disposed⟩ : Handover ι α) := by
  refine ⟨l', hslot, hnotice, ?_, ho, ?_⟩
  · dsimp only
    rw [between_takes, hl.between, hbetween]
  · rw [custody_taker]
    exact hsole

/-- The owner goes on with its hand as it is. -/
theorem Linked.owner_keeps (hl : Linked h l) (l' : Link ι α) {o : Owner α} {slot notice : Option α}
    (hslot : slot = l'.slot) (hnotice : notice = l'.notice) (hbetween : l'.between = l.between)
    (ho : Agrees o l') {o₀ : Owner α} (ho₀ : h.owner = o₀) (hhand : o₀.hand = o.hand)
    (hshelf : l'.shelf = l.shelf) :
    Sound (⟨o, h.taker, slot, notice, h.entered, h.disposed⟩ : Handover ι α) := by
  refine hl.owner l' hslot hnotice hbetween ho ?_
  rw [hshelf, Custody.holds_hand ((congrArg Owner.hand ho₀).trans hhand)]
  exact hl.sole

/-- A taker goes on with its hand as it is. -/
theorem Linked.taker_keeps (hl : Linked h l) (l' : Link ι α) {t : Taker α}
    {slot notice : Option α} (hslot : slot = l'.slot) (hnotice : notice = l'.notice)
    (hbetween : l'.between = Function.update l.between i t.between) (ho : Agrees h.owner l')
    {t₀ : Taker α} (ht₀ : h.taker i = t₀) (hhand : t₀.hand = t.hand)
    (hshelf : l'.shelf = l.shelf) :
    Sound (⟨h.owner, h.takes i t, slot, notice, h.entered, h.disposed⟩ : Handover ι α) := by
  refine hl.taker l' hslot hnotice hbetween ho ?_
  rw [hshelf, Custody.holds_hand ((congrArg Taker.hand ht₀).trans hhand)]
  exact hl.sole

/-- Whatever is done under the conditions keeps each thing in one place. -/
theorem Sound.step (h₀ : Sound h) (hs : Step h h') : Sound h' := by
  obtain ⟨l, hl⟩ := h₀
  have hagrees := hl.agrees
  cases hs with
  | enter ho hnew =>
      rw [ho] at hagrees
      cases hagrees
      refine hl.owner _ hl.slot hl.notice rfl (.holding _) ?_
      exact hl.sole.enter (congrArg Owner.hand ho) (mt (hl.sole.kept_iff_count _).mp hnew)
  | post ho =>
      rw [ho] at hagrees
      cases hagrees
      exact hl.owner (.shelved _) rfl hl.notice rfl (.posted rfl)
        (hl.sole.store (congrArg Owner.hand ho))
  | arm ho hnotice =>
      rw [ho] at hagrees
      cases hagrees with
      | posted hx =>
          have hnone := Link.notice_eq_none hx (hl.notice ▸ hnotice)
          exact hl.owner_keeps _ hl.slot hnone.symm rfl (.armed hx) ho rfl rfl
  | hear ho hnotice =>
      rw [ho] at hagrees
      cases hagrees with
      | armed hx =>
          rw [hl.notice] at hnotice
          cases l with
          | noticed y =>
              cases hx
              exact hl.owner_keeps _ hl.slot hl.notice rfl (.told _) ho rfl rfl
          | _ => cases hnotice
  | leave ho hnotice hread hcleared =>
      rw [ho] at hagrees
      cases hagrees with
      | armed hx =>
          obtain rfl := hl.eq_shelved hx hnotice hread hcleared
          exact hl.owner_keeps _ hl.slot hl.notice rfl (.leaving _) ho rfl rfl
  | forget ho =>
      rw [ho] at hagrees
      cases hagrees
      exact hl.owner_keeps .free hl.slot rfl rfl .away ho rfl rfl
  | clear ho =>
      rw [ho] at hagrees
      cases hagrees
      exact hl.owner .free rfl hl.notice rfl (.left _)
        (hl.sole.fetch (congrArg Owner.hand ho) rfl)
  | again ho =>
      rw [ho] at hagrees
      cases hagrees
      exact hl.owner_keeps .free rfl hl.notice rfl (.left _) ho rfl rfl
  | drop ho =>
      rw [ho] at hagrees
      cases hagrees
      exact hl.owner _ hl.slot hl.notice rfl .away (hl.sole.dispose (congrArg Owner.hand ho))
  | take hi hslot hread howner =>
      rename_i i x
      have hslot' := hl.slot.symm.trans hslot
      cases l with
      | shelved y =>
          cases hslot'
          refine hl.taker (.reading x i) hl.slot hl.notice rfl ?_
            (hl.sole.fetch (congrArg Taker.hand hi) rfl)
          generalize h.owner = o at hagrees howner
          cases hagrees with
          | posted hx => exact .posted hx
          | armed hx => exact .armed hx
          | leaving => exact absurd rfl (howner _)
      | reading y j =>
          have hj := (congrFun hl.between j).trans (Link.between_reading y j)
          exact absurd (Taker.eq_of_between hj nofun) (hread j y)
      | _ => cases hslot'
  | empty hi =>
      rename_i i x
      obtain rfl := Link.eq_reading (hl.between_eq hi)
      refine hl.taker_keeps (.cleared x i) rfl hl.notice ?_ ?_ hi rfl rfl
      · exact (Function.update_idem ..).symm
      · generalize h.owner = o at hagrees
        cases hagrees with
        | posted hx => exact .posted hx
        | armed hx => exact .armed hx
  | note hi =>
      rename_i i x
      obtain rfl := Link.eq_cleared (hl.between_eq hi)
      refine hl.taker_keeps (.noticed x) hl.slot rfl ?_ ?_ hi rfl rfl
      · exact ((Function.update_idem ..).trans (Function.update_eq_self i _)).symm
      · generalize h.owner = o at hagrees
        cases hagrees with
        | posted hx => exact .posted hx
        | armed hx => exact .armed hx
  | dispose hi =>
      rename_i i x
      refine hl.taker _ hl.slot hl.notice ?_ hl.agrees (hl.sole.dispose (congrArg Taker.hand hi))
      have hidle : l.between i = Taker.idle := hl.between_eq hi
      have hsame := Function.update_eq_self i l.between
      rw [hidle] at hsame
      exact hsame.symm

/-- Nothing is disposed of more often than it was brought in, and at most one of each is kept. -/
theorem Sound.count_le (h₀ : Sound h) (x : α) :
    h.disposed.count x ≤ h.entered.count x ∧ h.entered.count x ≤ h.disposed.count x + 1 := by
  obtain ⟨l, hl⟩ := h₀
  exact hl.sole.count_le x

/-- When the owner is away and the takers are idle, everything has been disposed of. -/
theorem Sound.settled (h₀ : Sound h) (ho : h.owner = .away) (hi : ∀ i, h.taker i = .idle) :
    h.disposed.Perm h.entered := by
  obtain ⟨l, hl⟩ := h₀
  have hagrees := hl.agrees
  rw [ho] at hagrees
  cases hagrees
  refine (hl.sole.settled fun j => ?_).mpr rfl
  cases j with
  | none => exact congrArg Owner.hand ho
  | some j => exact congrArg Taker.hand (hi j)

end Steps

/-- Nothing was brought in. -/
theorem sound_start : Sound (⟨.away, fun _ => .idle, none, none, [], []⟩ : Handover ι α) := by
  refine ⟨.free, rfl, rfl, rfl, .away, ?_⟩
  have hempty : (⟨.away, fun _ => .idle, none, none, [], []⟩ : Handover ι α).custody [] =
      ⟨fun _ => none, [], [], []⟩ := by
    rw [custody, Custody.mk.injEq]
    refine ⟨funext fun j => ?_, rfl, rfl, rfl⟩
    cases j with
    | none => rfl
    | some j => rfl
  exact hempty ▸ Custody.sole_start

end Handover

end Collections
