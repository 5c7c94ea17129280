import Mathlib.Data.List.Nodup
import Mathlib.Data.List.Perm.Subperm

/-!
# Collections — a roster

Parties join a roster under a key and with a label, change their label, and leave.  The roster has
one entry for each party on it, in the order of joining (`apply`).  Where nobody joins twice, or
under a key that is taken, the changes can be made by key (`table_relabel`, `table_leave`).
-/

namespace Collections

/-- Who joined, under which key, and the label it has. -/
structure RosterEntry (ι κ μ : Type) where
  owner : ι
  key : κ
  label : μ
  deriving DecidableEq

inductive RosterEvent (ι κ μ : Type) where
  | join (i : ι) (key : κ) (label : μ)
  | relabel (i : ι) (label : μ)
  | leave (i : ι)

/-- A count, when one of those counted changes. -/
theorem countP_change {α : Type} {l : List α} (hl : l.Nodup) {n : α} (hn : n ∈ l) {p q : α → Bool}
    (h : ∀ m ∈ l, m ≠ n → q m = p m) : l.countP q + (p n).toNat = l.countP p + (q n).toNat := by
  obtain ⟨a, b, rfl⟩ := List.append_of_mem hn
  obtain ⟨hnot, -⟩ := List.nodup_cons.mp (List.nodup_middle.mp hl)
  have hsame : ∀ m ∈ a ++ b, q m = p m := fun m hm =>
    h m ((List.Perm.mem_iff List.perm_middle).mpr (List.mem_cons_of_mem n hm))
      (ne_of_mem_of_not_mem hm hnot)
  have hcount : ∀ f : α → Bool, (a ++ n :: b).countP f = (a ++ b).countP f + (f n).toNat := by
    intro f
    rw [List.perm_middle.countP_eq, List.countP_cons]
    cases f n <;> rfl
  rw [hcount, hcount, List.countP_congr fun m hm => by rw [hsame m hm]]
  omega

abbrev Roster (ι κ μ : Type) := List (RosterEntry ι κ μ)

namespace Roster

variable {ι κ μ : Type} [DecidableEq ι]

/-- What becomes of the roster. -/
def apply (r : Roster ι κ μ) : RosterEvent ι κ μ → Roster ι κ μ
  | .join i key label => r ++ [⟨i, key, label⟩]
  | .relabel i label => r.map fun e => if e.owner = i then { e with label := label } else e
  | .leave i => r.filter fun e => e.owner ≠ i

/-- The roster after these events. -/
def after (evs : List (RosterEvent ι κ μ)) : Roster ι κ μ := evs.foldl apply []

theorem after_concat (evs : List (RosterEvent ι κ μ)) (ev : RosterEvent ι κ μ) :
    after (evs ++ [ev]) = (after evs).apply ev :=
  List.foldl_concat ..

omit [DecidableEq ι] in
/-- The keys and labels. -/
def table (r : Roster ι κ μ) : List (κ × μ) := r.map fun e => (e.key, e.label)

omit [DecidableEq ι] in
theorem table_keys (r : Roster ι κ μ) : r.table.map Prod.fst = r.map RosterEntry.key := by
  rw [table, List.map_map]
  rfl

omit [DecidableEq ι] in
/-- Each party and each key is there once. -/
structure Distinct (r : Roster ι κ μ) : Prop where
  owners : (r.map RosterEntry.owner).Nodup
  keys : (r.map RosterEntry.key).Nodup

variable {r : Roster ι κ μ} {i j : ι} {key k : κ} {label l : μ}

omit [DecidableEq ι] in
theorem mem_join {e : RosterEntry ι κ μ} :
    e ∈ r ++ [⟨i, key, label⟩] ↔ e ∈ r ∨ e = ⟨i, key, label⟩ := by
  rw [List.mem_append, List.mem_singleton]

theorem mem_leave {e : RosterEntry ι κ μ} : e ∈ r.apply (.leave i) ↔ e ∈ r ∧ e.owner ≠ i := by
  rw [apply, List.mem_filter, decide_eq_true_iff]

/-- The entries of others stay as they are; one's own has the new label. -/
theorem mem_relabel : ⟨j, k, l⟩ ∈ r.apply (.relabel i label) ↔
    (j ≠ i ∧ ⟨j, k, l⟩ ∈ r) ∨ (j = i ∧ l = label ∧ ∃ old, ⟨j, k, old⟩ ∈ r) := by
  rw [apply, List.mem_map]
  constructor
  · rintro ⟨⟨j', k', l'⟩, hmem, he⟩
    dsimp only at he
    split at he
    · rename_i hi
      cases he
      exact .inr ⟨hi, rfl, l', hmem⟩
    · rename_i hi
      cases he
      exact .inl ⟨hi, hmem⟩
  · rintro (⟨hne, hmem⟩ | ⟨rfl, rfl, old, hmem⟩)
    · exact ⟨_, hmem, if_neg hne⟩
    · exact ⟨_, hmem, if_pos rfl⟩

theorem Distinct.join (h : r.Distinct) (hi : ∀ e ∈ r, e.owner ≠ i) (hk : ∀ e ∈ r, e.key ≠ key) :
    (r.apply (.join i key label)).Distinct := by
  have snoc : ∀ {β : Type} {f : RosterEntry ι κ μ → β}, (r.map f).Nodup →
      (∀ e ∈ r, f e ≠ f ⟨i, key, label⟩) →
      ((r ++ [⟨i, key, label⟩] : Roster ι κ μ).map f).Nodup := by
    intro β f hr hnew
    rw [List.map_append, List.map_singleton]
    refine List.nodup_append.mpr ⟨hr, List.nodup_singleton _, fun x hx y hy => ?_⟩
    obtain ⟨e, he, rfl⟩ := List.mem_map.mp hx
    exact List.mem_singleton.mp hy ▸ hnew e he
  exact ⟨snoc h.owners hi, snoc h.keys hk⟩

theorem Distinct.relabel (h : r.Distinct) : (r.apply (.relabel i label)).Distinct := by
  have same : ∀ {β : Type} (f : RosterEntry ι κ μ → β),
      (∀ e, f (if e.owner = i then { e with label := label } else e) = f e) →
      (r.apply (.relabel i label)).map f = r.map f := fun f hf => by
    rw [apply, List.map_map]
    exact List.map_congr_left fun e _ => hf e
  refine ⟨same RosterEntry.owner (fun e => ?_) ▸ h.owners,
    same RosterEntry.key (fun e => ?_) ▸ h.keys⟩
  · split <;> rfl
  · split <;> rfl

theorem Distinct.leave (h : r.Distinct) : (r.apply (.leave i)).Distinct :=
  ⟨h.owners.sublist (List.filter_sublist.map _), h.keys.sublist (List.filter_sublist.map _)⟩

omit [DecidableEq ι] in
/-- A key tells whose an entry is. -/
theorem Distinct.owner_iff (h : r.Distinct) (hmem : ⟨i, key, label⟩ ∈ r) {e : RosterEntry ι κ μ}
    (he : e ∈ r) : e.owner = i ↔ e.key = key :=
  ⟨fun ho => congrArg RosterEntry.key (List.inj_on_of_nodup_map h.owners he hmem ho),
    fun hk => congrArg RosterEntry.owner (List.inj_on_of_nodup_map h.keys he hmem hk)⟩

/-- A label is changed under its key. -/
theorem table_relabel [DecidableEq κ] (h : r.Distinct) {old : μ} (hmem : ⟨i, key, old⟩ ∈ r) :
    (r.apply (.relabel i label)).table =
      r.table.map fun e => if e.1 = key then (key, label) else e := by
  rw [table, apply, table, List.map_map, List.map_map]
  refine List.map_congr_left fun e he => ?_
  dsimp only [Function.comp]
  by_cases hk : e.key = key
  · rw [if_pos ((h.owner_iff hmem he).mpr hk), if_pos hk, ← hk]
  · rw [if_neg (mt (h.owner_iff hmem he).mp hk), if_neg hk]

/-- An entry is taken out under its key. -/
theorem table_leave [DecidableEq κ] (h : r.Distinct) (hmem : ⟨i, key, label⟩ ∈ r) :
    (r.apply (.leave i)).table = r.table.filter fun e => e.1 ≠ key := by
  rw [table, apply, table, List.filter_map]
  congr 1
  refine List.filter_congr fun e he => ?_
  exact decide_eq_decide.mpr (not_congr (h.owner_iff hmem he))

omit [DecidableEq ι] in
/-- There are no more entries than parties. -/
theorem Distinct.length_le (h : r.Distinct) {parties : List ι} (hp : ∀ e ∈ r, e.owner ∈ parties) :
    r.length ≤ parties.length := by
  have hsub := (List.subperm_of_subset h.owners (List.forall_mem_map.mpr hp)).length_le
  rwa [List.length_map] at hsub

end Roster

end Collections
