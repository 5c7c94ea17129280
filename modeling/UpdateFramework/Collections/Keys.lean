import Mathlib.Data.List.Nodup

/-!
# Collections — keys taken in one at a time

A table that refuses a key it has, and any key once it holds `cap` of them, takes in the keys `ks`
after `seen` when `Admits cap seen ks`.
-/

namespace Collections

variable {κ : Type} {cap : ℕ} {seen ks : List κ} {k : κ}

/-- No key is repeated, and there is room for all of them. -/
structure Admits (cap : ℕ) (seen ks : List κ) : Prop where
  distinct : (seen ++ ks).Nodup
  few : seen.length + ks.length ≤ cap

theorem admits_nil : Admits cap seen [] ↔ seen.Nodup ∧ seen.length ≤ cap := by
  constructor
  · rintro ⟨hdistinct, hfew⟩
    exact ⟨(List.append_nil seen) ▸ hdistinct, hfew⟩
  · rintro ⟨hdistinct, hfew⟩
    exact ⟨(List.append_nil seen).symm ▸ hdistinct, hfew⟩

/-- The keys are taken in when the first is, and the others after it. -/
theorem admits_cons :
    Admits cap seen (k :: ks) ↔ (k ∉ seen ∧ seen.length < cap) ∧ Admits cap (seen ++ [k]) ks := by
  have happ : seen ++ k :: ks = seen ++ [k] ++ ks := List.append_cons seen k ks
  have hlen : seen.length + (k :: ks).length = (seen ++ [k]).length + ks.length := by
    rw [← List.length_append, happ, List.length_append]
  constructor
  · rintro ⟨hdistinct, hfew⟩
    rw [happ] at hdistinct
    rw [hlen] at hfew
    refine ⟨⟨fun h => ?_, ?_⟩, hdistinct, hfew⟩
    · exact (List.nodup_append.mp (List.nodup_append.mp hdistinct).1).2.2 k h k
        (List.mem_singleton_self k) rfl
    · rw [List.length_append] at hfew
      exact Nat.le_trans (Nat.le_add_right _ _) hfew
  · rintro ⟨-, hdistinct, hfew⟩
    exact ⟨happ ▸ hdistinct, hlen ▸ hfew⟩

/-- One more key. -/
theorem Admits.snoc (h : Admits cap seen []) (hk : k ∉ seen) (hlt : seen.length < cap) :
    Admits cap (seen ++ [k]) [] := by
  refine admits_nil.mpr
    ⟨List.nodup_append.mpr ⟨(admits_nil.mp h).1, List.pairwise_singleton _ k, ?_⟩, ?_⟩
  · rintro a ha b hb rfl
    exact hk (List.mem_singleton.mp hb ▸ ha)
  · rw [List.length_append]
    exact hlt

end Collections
