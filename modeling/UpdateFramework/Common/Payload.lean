import UpdateFramework.Common.Protocol
import UpdateFramework.Libc.Decimal
import UpdateFramework.Libc.Lines

/-!
# Common — payloads as lists of fields

A payload is a list of fields with semicolons between them; the value of a key is that of the first
field whose text before its first `=` is the key (`firstField`).  `kv_get` gives it where it fits
(`kvGet_eq`), so it decodes what `kvJoin` encodes (`kvGet_kvJoin`), and `kv_get_u64` reads a printed
number back.

`kv_get` works on a C string.  Of the bytes received it sees the fields before the first NUL, and of
the field that has the NUL what comes before it (`kvFields_eq`, `firstField_iff`).
-/

namespace UpdateFramework

open Libc

/-! ### Fields -/

/-- The value of a field, if `key` is its key. -/
def fieldValue (key part : Bytes) : Option Bytes :=
  if 61 ∈ part ∧ part.takeWhile (· ≠ 61) = key then some (part.drop (key.length + 1)) else none

/-- The value of the first field with this key. -/
def firstField (payload key : Bytes) : Option Bytes := (kvFields payload).findSome? (fieldValue key)

theorem kvLookup_eq (key : Bytes) (outLen : ℕ) (parts : List Bytes) :
    kvLookup key outLen parts =
      (parts.findSome? (fieldValue key)).filter fun value => value.length < outLen := by
  induction parts with
  | nil => rfl
  | cons part parts ih =>
      rw [kvLookup, List.findSome?_cons, fieldValue]
      by_cases h : 61 ∈ part ∧ part.takeWhile (· ≠ 61) = key
      · rw [if_pos h, if_pos h]
        dsimp only [Option.filter]
        by_cases hlt : (part.drop (key.length + 1)).length < outLen
        · rw [if_neg (Nat.not_le.mpr hlt), if_pos (decide_eq_true hlt)]
        · rw [if_pos (Nat.not_lt.mp hlt), if_neg (by rw [decide_eq_false hlt]; decide)]
      · rw [if_neg h, if_neg h]
        exact ih

/-- `kv_get` gives the first value of the key, where it fits. -/
theorem kvGet_eq (payload key : Bytes) (outLen : ℕ) :
    kvGet payload key outLen = (firstField payload key).filter fun value => value.length < outLen := by
  rw [kvGet]
  split
  next h =>
    subst h
    cases firstField payload key <;> rfl
  next => exact kvLookup_eq key outLen _

theorem kvGet_iff {payload key value : Bytes} {outLen : ℕ} : kvGet payload key outLen = some value ↔
    firstField payload key = some value ∧ value.length < outLen := by
  rw [kvGet_eq, Option.filter_eq_some_iff, decide_eq_true_iff]

/-- `kv_get_u64` gives what `strtoull` reads, where it reads all of a value of at most 63 bytes. -/
theorem kvGetU64_of_firstField {payload key value : Bytes} (fallback : ℕ)
    (h : firstField payload key = some value) :
    kvGetU64 payload key fallback =
      if value.length < 64 ∧ (strtoull value).2 = [] then (strtoull value).1 else fallback := by
  by_cases hlt : value.length < 64
  · rw [kvGetU64, kvGet_iff.mpr ⟨h, hlt⟩]
    exact if_congr (by simp [hlt]) rfl rfl
  · have hnone : kvGet payload key 64 = none := by
      rw [kvGet_eq, h, Option.filter, if_neg (by rw [decide_eq_false hlt]; decide)]
    rw [kvGetU64, hnone, if_neg fun hc => hlt hc.1]

theorem kvGetU64_of_none {payload key : Bytes} (fallback : ℕ) (h : firstField payload key = none) :
    kvGetU64 payload key fallback = fallback := by
  have hnone : kvGet payload key 64 = none := by rw [kvGet_eq, h]; rfl
  rw [kvGetU64, hnone]

/-! ### The bytes received -/

/-- The bytes received have a first field with this key: behind these fields, with this value. -/
def FieldBehind (payload key : Bytes) (before : List Bytes) (value : Bytes) : Prop :=
  (∀ part ∈ before, fieldValue key part = none) ∧
    ∃ rest, payload.splitOn 59 = before ++ (key ++ 61 :: value) :: rest

/-- The fields up to the first NUL. -/
def cutFields : List Bytes → List Bytes
  | [] => []
  | part :: parts => if 0 ∈ part then [cstr part] else part :: cutFields parts

theorem kvFields_eq (payload : Bytes) : kvFields payload = cutFields (payload.splitOn 59) := by
  have hzero : ∀ bs : Bytes, cstr (0 :: bs) = [] := fun _ => rfl
  have hcons : ∀ (b : UInt8) (bs : Bytes), b ≠ 0 → cstr (b :: bs) = b :: cstr bs := fun b bs hb =>
    List.takeWhile_cons_of_pos (decide_eq_true hb)
  rw [kvFields]
  induction payload with
  | nil => rfl
  | cons b bs ih =>
      obtain ⟨part, parts, hsplit⟩ := List.exists_cons_of_ne_nil (List.splitOn_ne_nil 59 bs)
      rw [hsplit] at ih
      by_cases hnul : b = 0
      · subst hnul
        rw [hzero, List.splitOn_cons_eq_if_modifyHead, if_neg (by decide), hsplit,
          List.modifyHead_cons, cutFields, if_pos List.mem_cons_self, hzero]
        rfl
      rw [hcons b bs hnul, List.splitOn_cons_eq_if_modifyHead, List.splitOn_cons_eq_if_modifyHead,
        ih, hsplit]
      by_cases hsep : b = 59
      · subst hsep
        rfl
      · have hsep' : ¬ (b == 59) = true := fun h => hsep (eq_of_beq h)
        rw [if_neg hsep', if_neg hsep', List.modifyHead_cons, cutFields, cutFields]
        by_cases hpart : 0 ∈ part
        · rw [if_pos hpart, if_pos (List.mem_cons_of_mem b hpart), hcons b part hnul]
          rfl
        · have hpart' : 0 ∉ b :: part := fun h => (List.mem_cons.mp h).elim (hnul ·.symm) hpart
          rw [if_neg hpart, if_neg hpart']
          rfl

/-- A field is its key, a `=` and its value. -/
theorem fieldValue_iff {key part value : Bytes} (hkey : 61 ∉ key) :
    fieldValue key part = some value ↔ part = key ++ 61 :: value := by
  constructor
  · intro h
    rw [fieldValue] at h
    split at h
    next hc =>
      obtain ⟨before, after, rfl, hbefore⟩ := List.eq_append_cons_of_mem hc.1
      have hsame : before = key := (takeWhile_before hbefore after).symm.trans hc.2
      rw [hsame, List.drop_length_add_append] at h
      rw [hsame, Option.some.inj h.symm]
      rfl
    next => cases h
  · rintro rfl
    rw [fieldValue, if_pos ⟨List.mem_append_right key List.mem_cons_self, takeWhile_before hkey value⟩,
      List.drop_length_add_append]
    rfl

section Key

variable {payload key value : Bytes} {part : Bytes} {parts before : List Bytes}

/-- A field with a NUL keeps its key, if it has one before the NUL. -/
theorem cstr_field (hnul : 0 ∉ key) (value : Bytes) :
    cstr (key ++ 61 :: value) = key ++ 61 :: cstr value := by
  have hall : ∀ b ∈ key, decide (b ≠ 0) = true := fun b hb =>
    decide_eq_true (ne_of_mem_of_not_mem hb hnul)
  rw [cstr, List.takeWhile_append_of_pos hall, List.takeWhile_cons_of_pos (by decide), cstr]

theorem fieldValue_cstr (hkey : 61 ∉ key) (hnul : 0 ∉ key) (part : Bytes) :
    fieldValue key (cstr part) = (fieldValue key part).map cstr := by
  cases hfield : fieldValue key part with
  | some value =>
      rw [(fieldValue_iff hkey).mp hfield, cstr_field hnul]
      exact (fieldValue_iff hkey).mpr rfl
  | none =>
      cases hcut : fieldValue key (cstr part) with
      | none => rfl
      | some value =>
          -- what stands before the NUL would be a field with this key
          have hpart : part = key ++ 61 :: (value ++ part.dropWhile (· ≠ 0)) := by
            conv_lhs => rw [← List.takeWhile_append_dropWhile (p := (· ≠ 0)) (l := part)]
            rw [show part.takeWhile (· ≠ 0) = _ from (fieldValue_iff hkey).mp hcut,
              List.append_assoc, List.cons_append]
          rw [(fieldValue_iff hkey).mpr hpart] at hfield
          cases hfield

/-- What is seen of a field no NUL stands before. -/
theorem findSome?_cutFields (hkey : 61 ∉ key) (hnul : 0 ∉ key) :
    (cutFields parts).findSome? (fieldValue key) = some value ↔
      ∃ before value' rest, parts = before ++ (key ++ 61 :: value') :: rest ∧
        (∀ part ∈ before, fieldValue key part = none) ∧ (∀ part ∈ before, 0 ∉ part) ∧
        cstr value' = value := by
  induction parts with
  | nil => simp [cutFields]
  | cons part parts ih =>
      rw [cutFields]
      cases hfield : fieldValue key part with
      | some first =>
          have hpart := (fieldValue_iff hkey).mp hfield
          have hseen : (if 0 ∈ part then [cstr part] else part :: cutFields parts).findSome?
              (fieldValue key) = some (cstr first) := by
            split
            · rw [List.findSome?_cons, fieldValue_cstr hkey hnul, hfield]
              rfl
            next h0 =>
              have hvalue : 0 ∉ first := fun h => h0 (hpart ▸ by simp [h])
              rw [List.findSome?_cons, hfield, cstr_eq_self hvalue]
          rw [hseen, Option.some.injEq]
          constructor
          · intro h
            exact ⟨[], first, parts, by rw [hpart, List.nil_append], nofun, nofun, h⟩
          · rintro ⟨before, value', rest, hsplit, hothers, -, hvalue⟩
            cases before with
            | nil =>
                obtain ⟨hsame, -⟩ := List.cons.inj hsplit
                rw [(fieldValue_iff hkey).mpr hsame] at hfield
                exact Option.some.inj hfield ▸ hvalue
            | cons _ before =>
                obtain ⟨rfl, -⟩ := List.cons.inj hsplit
                cases hfield.symm.trans (hothers _ List.mem_cons_self)
      | none =>
          -- the field with the key is another one
          have hother : ∀ {before value' rest},
              part :: parts = before ++ (key ++ 61 :: value') :: rest →
              ∃ before', before = part :: before' ∧
                parts = before' ++ (key ++ 61 :: value') :: rest := by
            intro before value' rest hsplit
            cases before with
            | nil =>
                rw [(fieldValue_iff hkey).mpr (List.cons.inj hsplit).1] at hfield
                cases hfield
            | cons _ before =>
                obtain ⟨rfl, hrest⟩ := List.cons.inj hsplit
                exact ⟨before, rfl, hrest⟩
          split
          next h0 =>
            have hseen : [cstr part].findSome? (fieldValue key) = none := by
              rw [List.findSome?_cons, fieldValue_cstr hkey hnul, hfield]
              rfl
            rw [hseen]
            refine ⟨nofun, ?_⟩
            rintro ⟨before, value', rest, hsplit, -, hclear, -⟩
            obtain ⟨before, rfl, -⟩ := hother hsplit
            exact absurd h0 (hclear _ List.mem_cons_self)
          next h0 =>
            rw [List.findSome?_cons, hfield]
            refine ih.trans ⟨?_, ?_⟩
            · rintro ⟨before, value', rest, rfl, hothers, hclear, hvalue⟩
              exact ⟨part :: before, value', rest, rfl, List.forall_mem_cons.mpr ⟨hfield, hothers⟩,
                List.forall_mem_cons.mpr ⟨h0, hclear⟩, hvalue⟩
            · rintro ⟨before, value', rest, hsplit, hothers, hclear, hvalue⟩
              obtain ⟨before, rfl, hparts⟩ := hother hsplit
              exact ⟨before, value', rest, hparts, (List.forall_mem_cons.mp hothers).2,
                (List.forall_mem_cons.mp hclear).2, hvalue⟩

/-- What `kv_get` sees of the first field with the key: what is before the first NUL. -/
theorem firstField_iff (hkey : 61 ∉ key) (hnul : 0 ∉ key) :
    firstField payload key = some value ↔ ∃ before value', FieldBehind payload key before value' ∧
      (∀ part ∈ before, 0 ∉ part) ∧ cstr value' = value := by
  rw [firstField, kvFields_eq, findSome?_cutFields hkey hnul]
  constructor
  · rintro ⟨before, value', rest, hsplit, hothers, hclear, hvalue⟩
    exact ⟨before, value', ⟨hothers, rest, hsplit⟩, hclear, hvalue⟩
  · rintro ⟨before, value', ⟨hothers, rest, hsplit⟩, hclear, hvalue⟩
    exact ⟨before, value', rest, hsplit, hothers, hclear, hvalue⟩

/-- There is one first field with the key. -/
theorem FieldBehind.unique {before before' : List Bytes} {value' : Bytes} (hkey : 61 ∉ key)
    (h : FieldBehind payload key before value) (h' : FieldBehind payload key before' value') :
    before = before' ∧ value = value' := by
  obtain ⟨hothers, rest, hsplit⟩ := h
  obtain ⟨hothers', rest', hsplit'⟩ := h'
  rw [hsplit'] at hsplit
  clear hsplit'
  induction before generalizing before' with
  | nil =>
      cases before' with
      | nil =>
          obtain ⟨hsame, -⟩ := List.cons.inj hsplit
          exact ⟨rfl, ((List.cons.inj (List.append_cancel_left hsame)).2).symm⟩
      | cons part before' =>
          obtain ⟨rfl, -⟩ := List.cons.inj hsplit
          cases ((fieldValue_iff hkey).mpr rfl).symm.trans (hothers' _ List.mem_cons_self)
  | cons part before ih =>
      cases before' with
      | nil =>
          obtain ⟨rfl, -⟩ := List.cons.inj hsplit
          cases ((fieldValue_iff hkey).mpr rfl).symm.trans (hothers _ List.mem_cons_self)
      | cons part' before' =>
          obtain ⟨rfl, hrest⟩ := List.cons.inj hsplit
          obtain ⟨hsame, hvalue⟩ := ih (List.forall_mem_cons.mp hothers).2
            (List.forall_mem_cons.mp hothers').2 hrest
          exact ⟨congrArg _ hsame, hvalue⟩

end Key

/-! ### Encoding -/

/-- `k=v` -/
def kvPair (pair : Bytes × Bytes) : Bytes := pair.1 ++ 61 :: pair.2

/-- `k1=v1;k2=v2;...` -/
def kvJoin (pairs : List (Bytes × Bytes)) : Bytes := [59].intercalate (pairs.map kvPair)

/-- A key without `=`, and no separator or NUL in either. -/
structure PlainPair (pair : Bytes × Bytes) : Prop where
  key : 61 ∉ pair.1 ∧ 59 ∉ pair.1 ∧ 0 ∉ pair.1
  value : 59 ∉ pair.2 ∧ 0 ∉ pair.2

theorem PlainPair.not_mem {pair : Bytes × Bytes} (h : PlainPair pair) :
    59 ∉ kvPair pair ∧ 0 ∉ kvPair pair := by
  simp [kvPair, h.key.2.1, h.key.2.2, h.value.1, h.value.2]

@[simp] theorem kvJoin_singleton (pair : Bytes × Bytes) : kvJoin [pair] = kvPair pair := by
  rw [kvJoin, List.map_singleton, List.intercalate_singleton]

theorem kvJoin_cons (pair : Bytes × Bytes) {pairs : List (Bytes × Bytes)} (h : pairs ≠ []) :
    kvJoin (pair :: pairs) = kvPair pair ++ 59 :: kvJoin pairs := by
  rw [kvJoin, List.map_cons, List.intercalate_cons_of_ne_nil (by simpa using h), List.append_assoc]
  rfl

@[simp] theorem kvJoin_cons_cons (pair pair' : Bytes × Bytes) (pairs : List (Bytes × Bytes)) :
    kvJoin (pair :: pair' :: pairs) = kvPair pair ++ 59 :: kvJoin (pair' :: pairs) :=
  kvJoin_cons pair (List.cons_ne_nil _ _)

theorem zero_not_mem_kvJoin {pairs : List (Bytes × Bytes)} (h : ∀ pair ∈ pairs, PlainPair pair) :
    0 ∉ kvJoin pairs := by
  induction pairs with
  | nil => exact List.not_mem_nil
  | cons pair pairs ih =>
      have hpair := (h pair List.mem_cons_self).not_mem.2
      by_cases hne : pairs = []
      · subst hne
        rwa [kvJoin_singleton]
      · have hrest := ih fun p hp => h p (List.mem_cons_of_mem _ hp)
        rw [kvJoin_cons pair hne, List.mem_append, List.mem_cons]
        rintro (h0 | h0 | h0)
        · exact hpair h0
        · cases h0
        · exact hrest h0

theorem fieldValue_kvPair {pair : Bytes × Bytes} (h : PlainPair pair) (key : Bytes) :
    fieldValue key (kvPair pair) = if pair.1 = key then some pair.2 else none := by
  have hkey : (kvPair pair).takeWhile (· ≠ 61) = pair.1 := takeWhile_before h.key.1 pair.2
  have hmem : 61 ∈ kvPair pair := List.mem_append_right _ List.mem_cons_self
  rw [fieldValue, hkey]
  by_cases he : pair.1 = key
  · rw [if_pos ⟨hmem, he⟩, if_pos he, ← he, kvPair, List.drop_length_add_append]
    rfl
  · rw [if_neg fun hc => he hc.2, if_neg he]

/-- The first value of a key is that of the first pair with this key. -/
theorem firstField_kvJoin {pairs : List (Bytes × Bytes)} (h : ∀ pair ∈ pairs, PlainPair pair)
    (key : Bytes) :
    firstField (kvJoin pairs) key = (pairs.find? fun pair => pair.1 = key).map Prod.snd := by
  rw [firstField, kvFields, cstr_eq_self (zero_not_mem_kvJoin h)]
  by_cases hne : pairs = []
  · subst hne
    rfl
  · have hparts : ∀ part ∈ pairs.map kvPair, 59 ∉ part := by
      intro part hpart
      obtain ⟨pair, hpair, rfl⟩ := List.mem_map.mp hpart
      exact (h pair hpair).not_mem.1
    rw [kvJoin, List.splitOn_intercalate _ hparts (by simpa using hne)]
    clear hne hparts
    induction pairs with
    | nil => rfl
    | cons pair pairs ih =>
        have hrest := ih fun p hp => h p (List.mem_cons_of_mem _ hp)
        rw [List.map_cons, List.findSome?_cons, fieldValue_kvPair (h pair List.mem_cons_self),
          List.find?_cons, hrest]
        by_cases he : pair.1 = key
        · simp [he]
        · simp [he]

/-- `kv_get` decodes. -/
theorem kvGet_kvJoin {pairs : List (Bytes × Bytes)} (h : ∀ pair ∈ pairs, PlainPair pair)
    (key : Bytes) (outLen : ℕ) :
    kvGet (kvJoin pairs) key outLen =
      ((pairs.find? fun pair => pair.1 = key).map Prod.snd).filter
        fun value => value.length < outLen := by
  rw [kvGet_eq, firstField_kvJoin h]

/-- `kv_get_u64` reads a printed number back. -/
theorem kvGetU64_kvJoin {pairs : List (Bytes × Bytes)} (h : ∀ pair ∈ pairs, PlainPair pair)
    {key k : Bytes} {n : ℕ} (hn : n < 2 ^ 64) (fallback : ℕ)
    (hfind : pairs.find? (fun pair => pair.1 = key) = some (k, decimal n)) :
    kvGetU64 (kvJoin pairs) key fallback = n := by
  have hread := strtoull_numeral (decimal_numeral n) noDigitNext_nil
  rw [List.append_nil, digitsValue_decimal, Nat.min_eq_left (by omega)] at hread
  have hlen := length_decimal_u64 hn
  have hfirst : firstField (kvJoin pairs) key = some (decimal n) := by
    rw [firstField_kvJoin h, hfind]
    rfl
  rw [kvGetU64_of_firstField fallback hfirst, hread, if_pos ⟨by omega, rfl⟩]

end UpdateFramework
