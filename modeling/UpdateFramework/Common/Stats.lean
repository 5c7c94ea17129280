import UpdateFramework.Common.Constants
import UpdateFramework.Libc.Text
import Mathlib.Data.List.Nodup

/-!
# Common — the list of active clients

`stats.c`: the keys and labels of the clients being served, in two arrays side by side.  Entries are
added at the end; a removal moves those behind it down by one.  Each function holds `active_lock`
throughout.

With distinct keys that fit their cells the arrays are always those of a list of entries
(`ActiveClients.of`), to which an entry is appended, in which one is relabelled, and from which one
is taken out.
-/

namespace UpdateFramework

open Libc

/-- `stats_t`: `active_client_keys`, `active_client_labels` and `active_client_count`. -/
structure ActiveClients where
  keys : List Bytes
  labels : List Bytes
  count : ℕ
  deriving DecidableEq

/-- `find_active_key` -/
def findActiveKey (s : ActiveClients) (key : Bytes) : Option ℕ :=
  (s.keys.take s.count).findIdx? (· = key)

/-- `label && label[0] ? label : key`, in a cell. -/
def shownLabel (key label : Bytes) : Bytes :=
  snprintf activeClientLabel (if label = [] then key else label)

/-- `stats_active_client_add` -/
def statsActiveClientAdd (s : ActiveClients) (key label : Bytes) : ActiveClients :=
  if key = [] then s
  else
    match findActiveKey s key with
    | some idx => { s with labels := s.labels.set idx (shownLabel key label) }
    | none =>
      if s.count < activeClientMax then
        { keys := s.keys.set s.count (snprintf clientInfoLen key)
          labels := s.labels.set s.count (shownLabel key label)
          count := s.count + 1 }
      else s

/-- `stats_active_client_update` -/
def statsActiveClientUpdate (s : ActiveClients) (key label : Bytes) : ActiveClients :=
  if key = [] then s
  else
    match findActiveKey s key with
    | some idx => { s with labels := s.labels.set idx (shownLabel key label) }
    | none => s

/-- Cell `i` is copied to the one before it. -/
def copyDown (len : ℕ) (cells : List Bytes) (i : ℕ) : List Bytes :=
  cells.set (i - 1) (snprintf len (cells.getD i []))

/-- A round of the loop of `stats_active_client_remove`. -/
def moveDown (s : ActiveClients) (i : ℕ) : ActiveClients :=
  { s with
    keys := copyDown clientInfoLen s.keys i
    labels := copyDown activeClientLabel s.labels i }

/-- `stats_active_client_remove` -/
def statsActiveClientRemove (s : ActiveClients) (key : Bytes) : ActiveClients :=
  if key = [] then s
  else
    match findActiveKey s key with
    | some idx =>
      let s := (List.range' (idx + 1) (s.count - (idx + 1))).foldl moveDown s
      { keys := s.keys.set (s.count - 1) []
        labels := s.labels.set (s.count - 1) []
        count := s.count - 1 }
    | none => s

namespace ActiveClients

/-- The cells of an array of `activeClientMax` that begins with these. -/
def cells (used : List Bytes) : List Bytes :=
  used ++ List.replicate (activeClientMax - used.length) []

/-- The arrays that hold these entries. -/
def of (es : List (Bytes × Bytes)) : ActiveClients :=
  ⟨cells (es.map Prod.fst), cells (es.map Prod.snd), es.length⟩

/-- The key and the label fit their cells; there is a key. -/
structure Fits (e : Bytes × Bytes) : Prop where
  named : e.1 ≠ []
  key : e.1.length < clientInfoLen
  label : e.2.length < activeClientLabel

/-- Entries with one key each, that fit their cells. -/
structure Listing (es : List (Bytes × Bytes)) : Prop where
  distinct : (es.map Prod.fst).Nodup
  fits : ∀ e ∈ es, Fits e
  few : es.length ≤ activeClientMax

section Entries

variable {es : List (Bytes × Bytes)} {key label : Bytes}

theorem snprintf_whole {n : ℕ} {s : Bytes} (h : s.length < n) : snprintf n s = s :=
  List.take_of_length_le (Nat.le_sub_one_of_lt h)

theorem cells_set_end (used : List Bytes) (h : used.length < activeClientMax) (x : Bytes) :
    (cells used).set used.length x = cells (used ++ [x]) := by
  obtain ⟨n, hn⟩ := Nat.exists_eq_add_of_lt h
  have hrest : activeClientMax - used.length = n + 1 := by omega
  have hrest' : activeClientMax - (used ++ [x]).length = n := by
    rw [List.length_append, List.length_singleton]
    omega
  rw [cells, cells, hrest, hrest', List.replicate_succ, List.set_append_right _ _ (Nat.le_refl _),
    Nat.sub_self, List.set_cons_zero, List.append_assoc, List.singleton_append]

theorem cells_set_mid (a b : List Bytes) (x y : Bytes) :
    (cells (a ++ x :: b)).set a.length y = cells (a ++ y :: b) := by
  have hlen : (a ++ x :: b).length = (a ++ y :: b).length := by
    rw [List.length_append, List.length_append, List.length_cons, List.length_cons]
  rw [cells, cells, hlen, List.append_assoc, List.append_assoc,
    List.set_append_right _ _ (Nat.le_refl _), Nat.sub_self, List.cons_append, List.cons_append,
    List.set_cons_zero]

theorem take_cells (used : List Bytes) : (cells used).take used.length = used :=
  List.take_left' rfl

theorem findActiveKey_of : findActiveKey (of es) key = (es.map Prod.fst).findIdx? (· = key) := by
  have htake := take_cells (es.map Prod.fst)
  rw [List.length_map] at htake
  rw [findActiveKey, of, htake]

/-- A key that is not there. -/
theorem findActiveKey_none (h : key ∉ es.map Prod.fst) : findActiveKey (of es) key = none := by
  rw [findActiveKey_of]
  refine List.findIdx?_eq_none_iff.mpr fun k hk => decide_eq_false ?_
  rintro rfl
  exact h hk

/-- An entry with its key, and those around it. -/
theorem findActiveKey_some {a b : List (Bytes × Bytes)} {old : Bytes}
    (h : key ∉ a.map Prod.fst) : findActiveKey (of (a ++ (key, old) :: b)) key = some a.length := by
  rw [findActiveKey_of, List.map_append, List.findIdx?_append,
    List.findIdx?_eq_none_iff.mpr fun k hk => decide_eq_false (ne_of_mem_of_not_mem hk h)]
  simp [List.findIdx?_cons]

/-- A new key is added at the end. -/
theorem add_of (hkey : key ∉ es.map Prod.fst) (hlen : es.length < activeClientMax)
    (hfits : Fits (key, label)) (hlabel : label ≠ []) :
    statsActiveClientAdd (of es) key label = of (es ++ [(key, label)]) := by
  have hshown : shownLabel key label = label := by
    rw [shownLabel, if_neg hlabel, snprintf_whole hfits.label]
  have hkeys := cells_set_end (es.map Prod.fst) ((List.length_map ..).trans_lt hlen) key
  have hlabels := cells_set_end (es.map Prod.snd) ((List.length_map ..).trans_lt hlen) label
  rw [List.length_map] at hkeys hlabels
  have hroom : (of es).count < activeClientMax := hlen
  rw [statsActiveClientAdd, if_neg hfits.named, findActiveKey_none hkey, hshown,
    snprintf_whole hfits.key]
  dsimp only
  rw [if_pos hroom]
  dsimp only [of]
  rw [hkeys, hlabels, List.map_append, List.map_append, List.length_append]
  rfl

/-- With distinct keys, the entry of a key is found, and no other has the key. -/
theorem Listing.split (h : Listing es) {old : Bytes} (hmem : (key, old) ∈ es) :
    ∃ a b, es = a ++ (key, old) :: b ∧ ∀ e ∈ a ++ b, e.1 ≠ key := by
  obtain ⟨a, b, rfl⟩ := List.append_of_mem hmem
  have hdistinct := h.distinct
  rw [List.map_append, List.map_cons, List.nodup_middle, List.nodup_cons] at hdistinct
  refine ⟨a, b, rfl, fun e he hek => hdistinct.1 ?_⟩
  rw [← List.map_append]
  exact List.mem_map.mpr ⟨e, he, hek⟩

/-- The label of a key that is there is changed. -/
theorem update_of (h : Listing es) {old : Bytes} (hmem : (key, old) ∈ es)
    (hfits : label.length < activeClientLabel) (hlabel : label ≠ []) :
    statsActiveClientUpdate (of es) key label =
      of (es.map fun e => if e.1 = key then (key, label) else e) := by
  obtain ⟨a, b, rfl, hne⟩ := h.split hmem
  have hsame : ∀ l : List (Bytes × Bytes), (∀ e ∈ l, e ∈ a ++ b) →
      l.map (fun e => if e.1 = key then (key, label) else e) = l := fun l hl =>
    (List.map_congr_left (g := id) fun e he => if_neg (hne e (hl e he))).trans (List.map_id l)
  have hkey : key ∉ a.map Prod.fst := by
    intro hk
    obtain ⟨e, he, hek⟩ := List.mem_map.mp hk
    exact hne e (List.mem_append_left b he) hek
  have hlabels := cells_set_mid (a.map Prod.snd) (b.map Prod.snd) old label
  rw [List.length_map] at hlabels
  rw [statsActiveClientUpdate, if_neg (h.fits _ hmem).named, findActiveKey_some hkey, shownLabel,
    if_neg hlabel, snprintf_whole hfits, List.map_append, List.map_cons, if_pos rfl,
    hsame a fun e => List.mem_append_left b, hsame b fun e => List.mem_append_right a]
  simp only [of, List.map_append, List.map_cons, hlabels, List.length_append, List.length_cons]

/-- The cells behind one are moved down, and the last is left twice. -/
theorem foldl_copyDown {len : ℕ} (a b rest : List Bytes) (x : Bytes)
    (h : ∀ y ∈ b, y.length < len) : ∃ z, (List.range' (a.length + 1) b.length).foldl (copyDown len)
      (a ++ x :: (b ++ rest)) = a ++ (b ++ z :: rest) := by
  induction b generalizing a x with
  | nil => exact ⟨x, rfl⟩
  | cons y b ih =>
      have hstep : copyDown len (a ++ x :: (y :: b ++ rest)) (a.length + 1) =
          (a ++ [y]) ++ y :: (b ++ rest) := by
        have hget : (a ++ x :: (y :: b ++ rest)).getD (a.length + 1) [] = y := by
          simp [List.getD_eq_getElem?_getD]
        rw [copyDown, hget, snprintf_whole (h y (List.mem_cons_self ..)), Nat.add_sub_cancel,
          List.set_append_right _ _ (Nat.le_refl _), Nat.sub_self, List.set_cons_zero]
        simp
      obtain ⟨z, hz⟩ := ih (a ++ [y]) y fun w hw => h w (List.mem_cons_of_mem y hw)
      refine ⟨z, ?_⟩
      rw [List.length_cons, List.range'_succ, List.foldl_cons, hstep]
      rw [List.length_append, List.length_singleton] at hz
      rw [hz]
      simp

theorem foldl_moveDown (s : ActiveClients) (l : List ℕ) : l.foldl moveDown s =
    ⟨l.foldl (copyDown clientInfoLen) s.keys, l.foldl (copyDown activeClientLabel) s.labels,
      s.count⟩ := by
  induction l generalizing s with
  | nil => rfl
  | cons i l ih => exact ih _

/-- A removal from the cells. -/
theorem foldl_cells (len : ℕ) (a b : List Bytes) (x : Bytes) (h : ∀ y ∈ b, y.length < len)
    (hfew : (a ++ x :: b).length ≤ activeClientMax) :
    ((List.range' (a.length + 1) b.length).foldl (copyDown len) (cells (a ++ x :: b))).set
      (a.length + b.length) [] = cells (a ++ b) := by
  obtain ⟨z, hz⟩ := foldl_copyDown a b
    (List.replicate (activeClientMax - (a ++ x :: b).length) []) x h
  have hcells : cells (a ++ x :: b) =
      a ++ x :: (b ++ List.replicate (activeClientMax - (a ++ x :: b).length) []) := by
    rw [cells, List.append_assoc, List.cons_append]
  have hlen : (a ++ x :: b).length = a.length + b.length + 1 := by
    rw [List.length_append, List.length_cons, Nat.add_assoc]
  have hrest : activeClientMax - (a ++ b).length = activeClientMax - (a ++ x :: b).length + 1 := by
    rw [hlen] at hfew ⊢
    rw [List.length_append]
    omega
  rw [hcells, hz, ← List.append_assoc, ← List.length_append,
    List.set_append_right _ _ (Nat.le_refl _), Nat.sub_self, List.set_cons_zero, cells, hrest,
    List.replicate_succ]

/-- The entry of a key that is there is taken out. -/
theorem remove_of (h : Listing es) {old : Bytes} (hmem : (key, old) ∈ es) :
    statsActiveClientRemove (of es) key = of (es.filter fun e => e.1 ≠ key) := by
  obtain ⟨a, b, rfl, hne⟩ := h.split hmem
  have hfilter : (a ++ (key, old) :: b).filter (fun e => e.1 ≠ key) = a ++ b := by
    have hkeep : ∀ l : List (Bytes × Bytes), (∀ e ∈ l, e ∈ a ++ b) →
        l.filter (fun e => e.1 ≠ key) = l := fun l hl =>
      List.filter_eq_self.mpr fun e he => decide_eq_true (hne e (hl e he))
    rw [List.filter_append, List.filter_cons_of_neg (by simp),
      hkeep a fun e => List.mem_append_left b, hkeep b fun e => List.mem_append_right a]
  have hkey : key ∉ a.map Prod.fst := by
    intro hk
    obtain ⟨e, he, hek⟩ := List.mem_map.mp hk
    exact hne e (List.mem_append_left b he) hek
  have hfits : ∀ e ∈ b, Fits e := fun e he =>
    h.fits e (List.mem_append_right a (List.mem_cons_of_mem _ he))
  have hfew := h.few
  have hkeys := foldl_cells clientInfoLen (a.map Prod.fst) (b.map Prod.fst) key
    (List.forall_mem_map.mpr fun e he => (hfits e he).key)
    (by simpa only [List.length_append, List.length_cons, List.length_map] using hfew)
  have hlabels := foldl_cells activeClientLabel (a.map Prod.snd) (b.map Prod.snd) old
    (List.forall_mem_map.mpr fun e he => (hfits e he).label)
    (by simpa only [List.length_append, List.length_cons, List.length_map] using hfew)
  have hbehind : (a ++ (key, old) :: b).length - (a.length + 1) = b.length := by
    rw [List.length_append, List.length_cons]
    omega
  have hlast : (a ++ (key, old) :: b).length - 1 = a.length + b.length := by
    rw [List.length_append, List.length_cons]
    omega
  rw [List.length_map, List.length_map] at hkeys hlabels
  rw [statsActiveClientRemove, if_neg (h.fits _ hmem).named, findActiveKey_some hkey, hfilter]
  dsimp only
  rw [foldl_moveDown]
  dsimp only [of]
  rw [hbehind, hlast, List.map_append, List.map_cons, hkeys, List.map_append, List.map_cons,
    hlabels, List.map_append, List.map_append, List.length_append]

end Entries

end ActiveClients

end UpdateFramework
