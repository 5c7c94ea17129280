import Mathlib.Logic.Function.Basic
import Mathlib.Logic.Relation

/-!
# Collections — a roll call

Members post what they hold in their own slots while they are present, and take it off after they
have begun to leave.  Callers go down the slots: each takes what it catches out of its slot, and
then tells its holder.  A caller has begun before it looks at a slot.

Members and callers act in any order.  Where members sign in only before some caller has come by
(`signIn`), do not leave while they are being called (`leave`), and are not found in their slots
while they leave (`look`), whoever is present once all callers are through has been told (`Kept.told`), and
nobody is told who is not there any more (`Kept.caught`).
-/

namespace Collections

/-- What a member is doing. -/
inductive Attendance (α : Type) where
  | away
  | present (a : α)
  | leaving (a : α)
  deriving DecidableEq

/-- A caller at work: the slots it has not looked at, and what it has caught and not told. -/
structure Caller (ι α : Type) where
  unseen : ι → Prop
  caught : Option (ι × α)

structure Rollcall (ι κ α : Type) where
  member : ι → Attendance α
  slot : ι → Option α
  caller : κ → Option (Caller ι α)
  told : α → Prop
  begun : Prop

namespace Rollcall

variable {ι κ α : Type}

/-- Somebody has caught `a` in the slot of `i`, and not told it. -/
def Caught (r : Rollcall ι κ α) (i : ι) (a : α) : Prop :=
  ∃ k c, r.caller k = some c ∧ c.caught = some (i, a)

/-- Somebody is still to look at the slot of `i`. -/
def Awaited (r : Rollcall ι κ α) (i : ι) : Prop := ∃ k c, r.caller k = some c ∧ c.unseen i

/-- Slots are those of members; whoever has been caught is present; whoever is present can still be
found, or has been told. -/
structure Kept (r : Rollcall ι κ α) : Prop where
  slot : ∀ {i a}, r.slot i = some a → r.member i = .present a ∨ r.member i = .leaving a
  caught : ∀ {i a}, r.Caught i a → r.member i = .present a
  found : ∀ {i a}, r.member i = .present a → r.slot i = some a ∨ r.Caught i a ∨ r.told a
  ahead : r.begun → ∀ {i a}, r.member i = .present a → r.told a ∨ r.Caught i a ∨ r.Awaited i

variable {r s : Rollcall ι κ α} {i j : ι} {k : κ} {a b : α} {c : Caller ι α}

/-- Once all callers are through, whoever is present has been told. -/
theorem Kept.told (h : r.Kept) (hbegun : r.begun)
    (hthrough : ∀ k c, r.caller k = some c → c.caught = none ∧ ∀ i, ¬ c.unseen i)
    (hi : r.member i = .present a) : r.told a := by
  rcases h.ahead hbegun hi with htold | ⟨k, c, hk, hc⟩ | ⟨k, c, hk, hc⟩
  · exact htold
  · exact absurd ((hthrough k c hk).1.symm.trans hc) (Option.some_ne_none _).symm
  · exact absurd hc ((hthrough k c hk).2 i)

theorem update_eq {δ β : Type} [DecidableEq δ] {f : δ → β} {i j : δ} {x y : β}
    (h : Function.update f i x j = y) : j = i ∧ x = y ∨ j ≠ i ∧ f j = y := by
  by_cases hji : j = i
  · subst hji
    rw [Function.update_self] at h
    exact .inl ⟨rfl, h⟩
  · rw [Function.update_of_ne hji] at h
    exact .inr ⟨hji, h⟩

/-! ### What members do -/

section Members

variable [DecidableEq ι]

theorem Kept.signIn (h : r.Kept) (hi : r.member i = .away) (hahead : r.begun → r.Awaited i) :
    Kept { r with
      member := Function.update r.member i (.present a)
      slot := Function.update r.slot i (some a) } where
  slot {j b} hj := by
    rcases update_eq hj with ⟨rfl, hb⟩ | ⟨hji, hj⟩
    · cases hb
      exact .inl (Function.update_self ..)
    · exact (h.slot hj).imp (Function.update_of_ne hji ..).trans (Function.update_of_ne hji ..).trans
  caught {j b} hj := by
    have hpresent := h.caught hj
    have hji : j ≠ i := by
      rintro rfl
      rw [hi] at hpresent
      cases hpresent
    exact (Function.update_of_ne hji ..).trans hpresent
  found {j b} hj := by
    rcases update_eq hj with ⟨rfl, hb⟩ | ⟨hji, hj⟩
    · cases hb
      exact .inl (Function.update_self ..)
    · rcases h.found hj with hslot | hrest
      · exact .inl ((Function.update_of_ne hji ..).trans hslot)
      · exact .inr hrest
  ahead hbegun {j b} hj := by
    rcases update_eq hj with ⟨rfl, -⟩ | ⟨-, hj⟩
    · exact .inr (.inr (hahead hbegun))
    · exact h.ahead hbegun hj

theorem Kept.leave (h : r.Kept) (hi : r.member i = .present a) (hcaught : ∀ b, ¬ r.Caught i b)
    (hsole : ∀ j, r.member j = .present a → j = i) :
    Kept { r with
      member := Function.update r.member i (.leaving a)
      told := fun b => r.told b ∧ b ≠ a } where
  slot {j b} hj := by
    by_cases hji : j = i
    · subst hji
      rcases h.slot hj with hb | hb
      · cases hi.symm.trans hb
        exact .inr (Function.update_self ..)
      · cases hi.symm.trans hb
    · exact (h.slot hj).imp (Function.update_of_ne hji ..).trans (Function.update_of_ne hji ..).trans
  caught {j b} hj := by
    have hji : j ≠ i := by
      rintro rfl
      exact hcaught b hj
    exact (Function.update_of_ne hji ..).trans (h.caught hj)
  found {j b} hj := by
    rcases update_eq hj with ⟨-, hb⟩ | ⟨hji, hj⟩
    · cases hb
    · have hba : b ≠ a := fun hba => hji (hsole j (hba ▸ hj))
      exact (h.found hj).imp_right fun hrest => hrest.imp_right fun htold => ⟨htold, hba⟩
  ahead hbegun {j b} hj := by
    rcases update_eq hj with ⟨-, hb⟩ | ⟨hji, hj⟩
    · cases hb
    · have hba : b ≠ a := fun hba => hji (hsole j (hba ▸ hj))
      exact (h.ahead hbegun hj).imp_left fun htold => ⟨htold, hba⟩

theorem Kept.wipe (h : r.Kept) (hi : r.member i = .leaving a) :
    Kept { r with
      member := Function.update r.member i .away
      slot := Function.update r.slot i none } where
  slot {j b} hj := by
    rcases update_eq hj with ⟨-, hb⟩ | ⟨hji, hj⟩
    · cases hb
    · exact (h.slot hj).imp (Function.update_of_ne hji ..).trans (Function.update_of_ne hji ..).trans
  caught {j b} hj := by
    have hpresent := h.caught hj
    have hji : j ≠ i := by
      rintro rfl
      rw [hi] at hpresent
      cases hpresent
    exact (Function.update_of_ne hji ..).trans hpresent
  found {j b} hj := by
    rcases update_eq hj with ⟨-, hb⟩ | ⟨hji, hj⟩
    · cases hb
    · rcases h.found hj with hslot | hrest
      · exact .inl ((Function.update_of_ne hji ..).trans hslot)
      · exact .inr hrest
  ahead hbegun {j b} hj := by
    rcases update_eq hj with ⟨-, hb⟩ | ⟨-, hj⟩
    · cases hb
    · exact h.ahead hbegun hj

omit [DecidableEq ι] in
theorem Kept.forget (h : r.Kept) (ha : ∀ i, r.member i ≠ .present a) :
    Kept { r with told := fun b => r.told b ∧ b ≠ a } where
  slot := h.slot
  caught := h.caught
  found {j b} hj := by
    have hba : b ≠ a := fun hba => ha j (hba ▸ hj)
    exact (h.found hj).imp_right fun hrest => hrest.imp_right fun htold => ⟨htold, hba⟩
  ahead hbegun {j b} hj := by
    have hba : b ≠ a := fun hba => ha j (hba ▸ hj)
    exact (h.ahead hbegun hj).imp_left fun htold => ⟨htold, hba⟩

end Members

/-! ### What callers do -/

section Callers

variable [DecidableEq κ]

/-- Another caller, or the same one with as much caught, still has what it has caught. -/
theorem Caught.update {x : Option (Caller ι α)} (h : r.Caught j b)
    (hk : ∀ c, r.caller k = some c → c.caught = some (j, b) →
      ∃ c', x = some c' ∧ c'.caught = some (j, b)) :
    Caught { r with caller := Function.update r.caller k x } j b := by
  obtain ⟨l, c, hl, hc⟩ := h
  by_cases hlk : l = k
  · subst hlk
    obtain ⟨c', rfl, hc'⟩ := hk c hl hc
    exact ⟨l, c', Function.update_self .., hc'⟩
  · exact ⟨l, c, (Function.update_of_ne hlk ..).trans hl, hc⟩

/-- What others have caught is there, whatever becomes of a caller that has caught nothing. -/
theorem Caught.survives {x : Option (Caller ι α)} (h : r.Caught j b) (hk : r.caller k = some c)
    (hnone : c.caught = none) :
    Caught { r with caller := Function.update r.caller k x } j b := by
  refine h.update fun c' hc' hsome => ?_
  obtain rfl := Option.some.inj (hk.symm.trans hc')
  exact absurd (hnone.symm.trans hsome) (Option.some_ne_none _).symm

/-- The same, of what is still to be looked at. -/
theorem Awaited.update {x : Option (Caller ι α)} (h : r.Awaited j)
    (hk : ∀ c, r.caller k = some c → c.unseen j → ∃ c', x = some c' ∧ c'.unseen j) :
    Awaited { r with caller := Function.update r.caller k x } j := by
  obtain ⟨l, c, hl, hc⟩ := h
  by_cases hlk : l = k
  · subst hlk
    obtain ⟨c', rfl, hc'⟩ := hk c hl hc
    exact ⟨l, c', Function.update_self .., hc'⟩
  · exact ⟨l, c, (Function.update_of_ne hlk ..).trans hl, hc⟩

/-- What somebody has caught after a change of one caller. -/
theorem Caught.of_update {x : Option (Caller ι α)}
    (h : Caught { r with caller := Function.update r.caller k x } j b) :
    (∃ c, x = some c ∧ c.caught = some (j, b)) ∨ r.Caught j b := by
  obtain ⟨l, c, hl, hc⟩ := h
  rcases update_eq hl with ⟨-, hx⟩ | ⟨-, hl⟩
  · exact .inl ⟨c, hx, hc⟩
  · exact .inr ⟨l, c, hl, hc⟩

theorem Kept.start (h : r.Kept) (hk : r.caller k = none) (unseen : ι → Prop) :
    Kept { r with caller := Function.update r.caller k (some ⟨unseen, none⟩) } where
  slot := h.slot
  caught hj := by
    rcases hj.of_update with ⟨c, hc, hcaught⟩ | hj
    · cases hc
      cases hcaught
    · exact h.caught hj
  found hj := (h.found hj).imp_right fun hrest => hrest.imp_left fun hcaught =>
    hcaught.update fun c hc => absurd (hk.symm.trans hc) (Option.some_ne_none c).symm
  ahead hbegun {j b} hj := by
    rcases h.ahead hbegun hj with htold | hcaught | hawaited
    · exact .inl htold
    · exact .inr (.inl (hcaught.update fun c hc =>
        absurd (hk.symm.trans hc) (Option.some_ne_none c).symm))
    · exact .inr (.inr (hawaited.update fun c hc =>
        absurd (hk.symm.trans hc) (Option.some_ne_none c).symm))

omit [DecidableEq κ] in
theorem Kept.begin (h : r.Kept) (hk : r.caller k = some c)
    (hall : ∀ i a, r.member i = .present a → c.unseen i) : Kept { r with begun := True } where
  slot := h.slot
  caught := h.caught
  found := h.found
  ahead _ {j b} hj := .inr (.inr ⟨k, c, hk, hall j b hj⟩)

/-- A caller that looks at a slot catches who is there. -/
theorem Kept.look [DecidableEq ι] (h : r.Kept) (hk : r.caller k = some c) (hnone : c.caught = none)
    (hstays : ∀ a, r.slot i = some a → r.member i ≠ .leaving a) :
    Kept { r with
      caller := Function.update r.caller k
        (some ⟨fun j => c.unseen j ∧ j ≠ i, (r.slot i).map fun a => (i, a)⟩) } where
  slot := h.slot
  caught {j b} hj := by
    rcases hj.of_update with ⟨c', hc', hcaught⟩ | hj
    · cases hc'
      obtain ⟨a, ha, hpair⟩ := Option.map_eq_some_iff.mp hcaught
      cases hpair
      exact (h.slot ha).resolve_right (hstays b ha)
    · exact h.caught hj
  found hj := (h.found hj).imp_right fun hrest => hrest.imp_left fun hcaught =>
    hcaught.survives hk hnone
  ahead hbegun {j b} hj := by
    rcases h.ahead hbegun hj with htold | hcaught | hawaited
    · exact .inl htold
    · exact .inr (.inl (hcaught.survives hk hnone))
    by_cases hji : j = i
    · subst hji
      rcases h.found hj with hslot | hcaught | htold
      · exact .inr (.inl ⟨k, _, Function.update_self .., congrArg (Option.map _) hslot⟩)
      · exact .inr (.inl (hcaught.survives hk hnone))
      · exact .inl htold
    · refine .inr (.inr (hawaited.update fun c' hc' hunseen => ⟨_, rfl, ?_⟩))
      obtain rfl := Option.some.inj (hk.symm.trans hc')
      exact ⟨hunseen, hji⟩

/-- Whoever has been caught is told by the one who tells, or is still caught. -/
theorem Caught.told_or {x : Option (Caller ι α)} (h : r.Caught j b) (hk : r.caller k = some c)
    (hc : c.caught = some (i, a)) :
    (b = a ∨ r.told b) ∨ Caught { r with
      caller := Function.update r.caller k x
      told := fun b => b = a ∨ r.told b } j b := by
  obtain ⟨l, c', hl, hc'⟩ := h
  by_cases hlk : l = k
  · subst hlk
    obtain rfl := Option.some.inj (hk.symm.trans hl)
    cases hc.symm.trans hc'
    exact .inl (.inl rfl)
  · exact .inr ⟨l, c', (Function.update_of_ne hlk ..).trans hl, hc'⟩

theorem Kept.tell (h : r.Kept) (hk : r.caller k = some c) (hc : c.caught = some (i, a)) :
    Kept { r with
      caller := Function.update r.caller k (some ⟨c.unseen, none⟩)
      told := fun b => b = a ∨ r.told b } where
  slot := h.slot
  caught hj := by
    rcases hj.of_update with ⟨c', hc', hcaught⟩ | hj
    · cases hc'
      cases hcaught
    · exact h.caught hj
  found {j b} hj := by
    rcases h.found hj with hslot | hcaught | htold
    · exact .inl hslot
    · exact .inr (hcaught.told_or hk hc).symm
    · exact .inr (.inr (.inr htold))
  ahead hbegun {j b} hj := by
    rcases h.ahead hbegun hj with htold | hcaught | hawaited
    · exact .inl (.inr htold)
    · exact (hcaught.told_or hk hc).imp_right .inl
    · refine .inr (.inr (hawaited.update fun c' hc' hunseen => ⟨_, rfl, ?_⟩))
      obtain rfl := Option.some.inj (hk.symm.trans hc')
      exact hunseen

/-- A caller that has looked everywhere stops. -/
theorem Kept.stop (h : r.Kept) (hk : r.caller k = some c) (hnone : c.caught = none)
    (hseen : ∀ i, ¬ c.unseen i) :
    Kept { r with caller := Function.update r.caller k none } where
  slot := h.slot
  caught hj := by
    rcases hj.of_update with ⟨c', hc', -⟩ | hj
    · cases hc'
    · exact h.caught hj
  found hj := (h.found hj).imp_right fun hrest => hrest.imp_left fun hcaught =>
    hcaught.survives hk hnone
  ahead hbegun {j b} hj := by
    rcases h.ahead hbegun hj with htold | hcaught | hawaited
    · exact .inl htold
    · exact .inr (.inl (hcaught.survives hk hnone))
    · refine .inr (.inr (hawaited.update fun c' hc' hunseen => ?_))
      obtain rfl := Option.some.inj (hk.symm.trans hc')
      exact absurd hunseen (hseen j)

end Callers

/-- A caller takes off what it has caught. -/
theorem Kept.take [DecidableEq ι] (h : r.Kept) (hk : r.caller k = some c)
    (hc : c.caught = some (i, a)) :
    Kept { r with slot := Function.update r.slot i none } where
  slot {j b} hj := by
    rcases update_eq hj with ⟨-, hb⟩ | ⟨-, hj⟩
    · cases hb
    · exact h.slot hj
  caught := h.caught
  found {j b} hj := by
    by_cases hji : j = i
    · subst hji
      cases (h.caught ⟨k, c, hk, hc⟩).symm.trans hj
      exact .inr (.inl ⟨k, c, hk, hc⟩)
    · exact (h.found hj).imp_left (Function.update_of_ne hji ..).trans
  ahead := h.ahead

/-! ### Runs -/

section Runs

variable [DecidableEq ι] [DecidableEq κ]

inductive Step : Rollcall ι κ α → Rollcall ι κ α → Prop where
  | signIn {r : Rollcall ι κ α} {i : ι} {a : α} (hi : r.member i = .away)
      (hahead : r.begun → r.Awaited i) :
      Step r { r with
        member := Function.update r.member i (.present a)
        slot := Function.update r.slot i (some a) }
  | leave {r : Rollcall ι κ α} {i : ι} {a : α} (hi : r.member i = .present a)
      (hcaught : ∀ b, ¬ r.Caught i b) (hsole : ∀ j, r.member j = .present a → j = i) :
      Step r { r with
        member := Function.update r.member i (.leaving a)
        told := fun b => r.told b ∧ b ≠ a }
  | wipe {r : Rollcall ι κ α} {i : ι} {a : α} (hi : r.member i = .leaving a) :
      Step r { r with
        member := Function.update r.member i .away
        slot := Function.update r.slot i none }
  /-- What nobody holds is not told any more. -/
  | forget {r : Rollcall ι κ α} {a : α} (ha : ∀ i, r.member i ≠ .present a) :
      Step r { r with told := fun b => r.told b ∧ b ≠ a }
  | start {r : Rollcall ι κ α} {k : κ} {unseen : ι → Prop} (hk : r.caller k = none) :
      Step r { r with caller := Function.update r.caller k (some ⟨unseen, none⟩) }
  | begin {r : Rollcall ι κ α} {k : κ} {c : Caller ι α} (hk : r.caller k = some c)
      (hall : ∀ i a, r.member i = .present a → c.unseen i) : Step r { r with begun := True }
  | look {r : Rollcall ι κ α} {k : κ} {c : Caller ι α} {i : ι} (hk : r.caller k = some c)
      (hnone : c.caught = none) (hstays : ∀ a, r.slot i = some a → r.member i ≠ .leaving a) :
      Step r { r with
        caller := Function.update r.caller k
          (some ⟨fun j => c.unseen j ∧ j ≠ i, (r.slot i).map fun a => (i, a)⟩) }
  | take {r : Rollcall ι κ α} {k : κ} {c : Caller ι α} {i : ι} {a : α} (hk : r.caller k = some c)
      (hc : c.caught = some (i, a)) : Step r { r with slot := Function.update r.slot i none }
  | tell {r : Rollcall ι κ α} {k : κ} {c : Caller ι α} {i : ι} {a : α} (hk : r.caller k = some c)
      (hc : c.caught = some (i, a)) :
      Step r { r with
        caller := Function.update r.caller k (some ⟨c.unseen, none⟩)
        told := fun b => b = a ∨ r.told b }
  | stop {r : Rollcall ι κ α} {k : κ} {c : Caller ι α} (hk : r.caller k = some c)
      (hnone : c.caught = none) (hseen : ∀ i, ¬ c.unseen i) :
      Step r { r with caller := Function.update r.caller k none }

theorem Kept.step (h : r.Kept) (hs : Step r s) : s.Kept := by
  cases hs with
  | signIn hi hahead => exact h.signIn hi hahead
  | leave hi hcaught hsole => exact h.leave hi hcaught hsole
  | wipe hi => exact h.wipe hi
  | forget ha => exact h.forget ha
  | start hk => exact h.start hk _
  | begin hk hall => exact h.begin hk hall
  | look hk hnone hstays => exact h.look hk hnone hstays
  | take hk hc => exact h.take hk hc
  | tell hk hc => exact h.tell hk hc
  | stop hk hnone hseen => exact h.stop hk hnone hseen

end Runs

/-- Nobody is there, and nobody has begun. -/
theorem kept_empty (told : α → Prop) :
    Kept (⟨fun _ => .away, fun _ => none, fun _ => none, told, False⟩ : Rollcall ι κ α) where
  slot hj := absurd hj (Option.some_ne_none _).symm
  caught := by
    rintro i a ⟨k, c, hk, -⟩
    cases hk
  found hj := by cases hj
  ahead hbegun := hbegun.elim

end Rollcall

end Collections
