import UpdateFramework.Libc.Streams

/-!
# Libc — streams when anything may fail

What each operation can do, its failures included (`may_*`), and what no failure can do: an
operation changes only the files it names or whose streams it works on (`may_disk`), and only
writing leaves bytes pending (`may_pending`).

`PendingOnly fs hs`: no stream but those of `hs` holds bytes back.  `Owns fs h p`: if `h` is open,
it is open on `p`.
-/

namespace Libc

open Process

namespace FileSystem

variable {P : Type} [DecidableEq P] {fs fs' : FileSystem P}

/-! ### What each operation can do -/

theorem may_stat {p : P} {r : Option ℕ} (h : fs.may (.stat p) r fs') :
    fs' = fs ∧ (r = none ∨ r = (fs.disk p).map List.length) := by
  rcases h with h | h
  · cases h
    exact ⟨rfl, .inr rfl⟩
  · cases h
    exact ⟨rfl, .inl rfl⟩

theorem may_fopen_r {p : P} {r : Option Handle} (h : fs.may (.fopen p .r) r fs') :
    (r = none ∧ fs' = fs) ∨
      ∃ c, fs.disk p = some c ∧ r = some fs.fresh ∧ fs' = (fs.opened p .r c).2 := by
  rcases h with h | h
  · cases hc : fs.disk p with
    | none =>
        simp only [ok, hc] at h
        cases h
        exact .inl ⟨rfl, rfl⟩
    | some c =>
        simp only [ok, hc] at h
        cases h
        exact .inr ⟨c, rfl, rfl, rfl⟩
  · cases h
    exact .inl ⟨rfl, rfl⟩

/-- The content a file begins with when it is opened for writing. -/
def opening (fs : FileSystem P) (p : P) : Mode → Bytes
  | .a => (fs.disk p).getD []
  | _ => []

theorem may_fopen_w {p : P} {m : Mode} {r : Option Handle} (hm : m ≠ .r)
    (h : fs.may (.fopen p m) r fs') :
    (r = none ∧ fs' = fs) ∨
      (r = some fs.fresh ∧ fs' = ((fs.set p (some (fs.opening p m))).opened p m []).2) := by
  rcases h with h | h
  · cases m with
    | r => exact absurd rfl hm
    | w =>
        cases h
        exact .inr ⟨rfl, rfl⟩
    | a =>
        cases h
        exact .inr ⟨rfl, rfl⟩
  · cases h
    exact .inl ⟨rfl, rfl⟩

theorem may_fwrite {h : Handle} {bs : Bytes} {r : ℕ} (hm : fs.may (.fwrite h bs) r fs') :
    ∃ taken m, taken <+: bs ∧ r = taken.length ∧ fs' = fs.written h taken m := by
  rcases hm with hm | hm
  · cases hs : fs.streams h with
    | none =>
        simp only [ok, hs] at hm
        cases hm
        exact ⟨[], 0, List.nil_prefix, rfl, by simp only [written, hs]⟩
    | some s =>
        simp only [ok, hs] at hm
        cases hm
        exact ⟨bs, 0, List.prefix_refl bs, rfl, rfl⟩
  · cases hm with
    | fwrite _ _ _ m hk =>
        exact ⟨bs.take r, m, List.take_prefix r bs, (List.length_take_of_le hk).symm, rfl⟩

theorem may_fputs {h : Handle} {text : Bytes} {r : Bool} (hm : fs.may (.fputs h text) r fs') :
    ∃ taken m, taken <+: text ∧ (r = true → taken = text) ∧ fs' = fs.written h taken m := by
  rcases hm with hm | hm
  · cases hs : fs.streams h with
    | none =>
        simp only [ok, hs] at hm
        cases hm
        exact ⟨[], 0, List.nil_prefix, fun h => absurd h Bool.false_ne_true, by simp only [written, hs]⟩
    | some s =>
        simp only [ok, hs] at hm
        cases hm
        exact ⟨text, 0, List.prefix_refl text, fun _ => rfl, rfl⟩
  · cases hm with
    | fputs _ _ k m r hr =>
        exact ⟨text.take k, m, List.take_prefix k text,
          fun h => List.take_of_length_le (hr h), rfl⟩

theorem may_fflush {h : Handle} {r : Bool} (hm : fs.may (.fflush h) r fs') :
    fs' = fs.flushed h := by
  rcases hm with hm | hm
  · cases hm
    rfl
  · cases hm
    rfl

theorem may_fsync {h : Handle} {r : Bool} (hm : fs.may (.fsync h) r fs') : fs' = fs := by
  rcases hm with hm | hm
  · cases hm
    rfl
  · cases hm
    rfl

theorem may_fclose {h : Handle} {r : Bool} (hm : fs.may (.fclose h) r fs') :
    ∃ m, fs' = fs.closed h m ∧
      (r = true → ∃ s, fs.streams h = some s ∧ m = s.pending.length) := by
  rcases hm with hm | hm
  · cases hs : fs.streams h with
    | none =>
        simp only [ok, hs] at hm
        cases hm
        exact ⟨0, by simp only [closed, hs], fun h => absurd h Bool.false_ne_true⟩
    | some s =>
        simp only [ok, hs] at hm
        cases hm
        exact ⟨_, rfl, fun _ => ⟨s, rfl, rfl⟩⟩
  · cases hm with
    | fclose _ m => exact ⟨m, rfl, fun h => absurd h Bool.false_ne_true⟩

theorem may_rename {a b : P} {r : Bool} (hm : fs.may (.rename a b) r fs') :
    (r = false ∧ fs' = fs) ∨ (r = true ∧ (fs.disk a).isSome = true ∧ fs' = fs.renamed a b) := by
  rcases hm with hm | hm
  · by_cases ha : (fs.disk a).isSome = true
    · simp only [ok, ha, if_true] at hm
      cases hm
      exact .inr ⟨rfl, ha, rfl⟩
    · simp only [ok, ha] at hm
      cases hm
      exact .inl ⟨rfl, rfl⟩
  · cases hm
    exact .inl ⟨rfl, rfl⟩

theorem may_unlink {p : P} {r : Bool} (hm : fs.may (.unlink p) r fs') :
    fs' = fs ∨ (r = true ∧ fs' = fs.unlinked p) := by
  rcases hm with hm | hm
  · by_cases hp : (fs.disk p).isSome = true
    · simp only [ok, hp, if_true] at hm
      cases hm
      exact .inr ⟨rfl, rfl⟩
    · simp only [ok, hp] at hm
      cases hm
      exact .inl rfl
  · cases hm
    exact .inl rfl

/-- Operations that only read a stream. -/
inductive Reads : FileOp P → Handle → Prop where
  | fseeko (h : Handle) (n : ℕ) : Reads (.fseeko h n) h
  | fgets (h : Handle) (size : ℕ) : Reads (.fgets h size) h
  | fread (h : Handle) (n : ℕ) : Reads (.fread h n) h

theorem may_read {o : FileOp P} {h : Handle} (ho : Reads o h) {r : FileOp.Res o}
    (hm : fs.may o r fs') :
    fs' = fs ∨ ∃ s pos, fs.streams h = some s ∧ fs' = fs.setStream h (some { s with pos := pos }) := by
  cases ho with
  | fseeko n =>
      rcases hm with hm | hm
      · cases hs : fs.streams h with
        | none =>
            simp only [ok, hs] at hm
            cases hm
            exact .inl rfl
        | some s =>
            simp only [ok, hs] at hm
            cases hm
            exact .inr ⟨s, _, rfl, rfl⟩
      · cases hm
        exact .inl rfl
  | fgets size =>
      rcases hm with hm | hm
      · cases hs : fs.streams h with
        | none =>
            simp only [ok, hs] at hm
            cases hm
            exact .inl rfl
        | some s =>
            simp only [ok, hs] at hm
            split at hm
            · cases hm
              exact .inr ⟨s, _, rfl, rfl⟩
            · cases hm
              exact .inl rfl
      · cases hm
        exact .inl rfl
  | fread n =>
      rcases hm with hm | hm
      · cases hs : fs.streams h with
        | none =>
            simp only [ok, hs] at hm
            cases hm
            exact .inl rfl
        | some s =>
            simp only [ok, hs] at hm
            cases hm
            exact .inr ⟨s, _, rfl, rfl⟩
      · cases hm with
        | fread _ _ m s hs => exact .inr ⟨s, _, hs, rfl⟩

theorem may_fgets {h : Handle} {size : ℕ} {r : Option (Bytes × Bool)}
    (hm : fs.may (.fgets h size) r fs') : (r, fs') = fs.ok (.fgets h size) ∨ (r = none ∧ fs' = fs) := by
  rcases hm with hm | hm
  · exact .inl hm
  · cases hm
    exact .inr ⟨rfl, rfl⟩

theorem may_lock {p : P} {r : Option ℕ} (hm : fs.may (.lock p) r fs') : fs' = fs := by
  rcases hm with hm | hm
  · cases hm
    rfl
  · cases hm
    rfl

/-- A lock is had or not. -/
theorem may_lock_res {p : P} {r : Option ℕ} (hm : fs.may (.lock p) r fs') : r = none ∨ r = some 0 := by
  rcases hm with hm | hm
  · cases hm
    exact .inr rfl
  · cases hm
    exact .inl rfl

theorem may_unlock {fd : ℕ} {r : Unit} (hm : fs.may (.unlock fd) r fs') : fs' = fs := by
  rcases hm with hm | hm
  · cases hm
    rfl
  · cases hm

/-! ### What no failure can do -/

@[simp] theorem append_streams (fs : FileSystem P) (p : Option P) (bs : Bytes) :
    (fs.append p bs).streams = fs.streams := by
  cases p <;> rfl

@[simp] theorem append_fresh (fs : FileSystem P) (p : Option P) (bs : Bytes) :
    (fs.append p bs).fresh = fs.fresh := by
  cases p <;> rfl

theorem append_disk_ne {q : P} {p : Option P} (hne : p ≠ some q) (bs : Bytes) :
    (fs.append p bs).disk q = fs.disk q := by
  cases p with
  | none => rfl
  | some p => exact Function.update_of_ne (fun h => hne (congrArg some h.symm)) ..

/-- An operation may change the content of `p`. -/
def Touches (fs : FileSystem P) (o : FileOp P) (p : P) : Prop :=
  match o with
  | .fopen q m => q = p ∧ m ≠ .r
  | .fwrite h _ | .fputs h _ => ∃ s, fs.streams h = some s ∧ s.path = some p
  | .fflush h | .fclose h => ∃ s, fs.streams h = some s ∧ s.path = some p ∧ s.pending ≠ []
  | .rename a b => p = a ∨ p = b
  | .unlink q => q = p
  | _ => False

theorem written_disk {h : Handle} {taken : Bytes} {m : ℕ} {p : P}
    (hne : ∀ s, fs.streams h = some s → s.path ≠ some p) :
    (fs.written h taken m).disk p = fs.disk p := by
  cases hs : fs.streams h with
  | none => simp only [written, hs]
  | some s =>
      rw [written_eq hs]
      exact append_disk_ne (hne s hs) _

theorem flushed_disk {h : Handle} {p : P}
    (hne : ∀ s, fs.streams h = some s → s.pending ≠ [] → s.path ≠ some p) :
    (fs.flushed h).disk p = fs.disk p := by
  cases hs : fs.streams h with
  | none => simp only [flushed, hs]
  | some s =>
      rw [flushed_eq hs]
      by_cases hp : s.pending = []
      · simp [setStream, hp]
      · exact append_disk_ne (hne s hs hp) _

theorem closed_disk {h : Handle} {m : ℕ} {p : P}
    (hne : ∀ s, fs.streams h = some s → s.pending ≠ [] → s.path ≠ some p) :
    (fs.closed h m).disk p = fs.disk p := by
  cases hs : fs.streams h with
  | none => simp only [closed, hs]
  | some s =>
      rw [closed_eq hs]
      by_cases hp : s.pending = []
      · simp [setStream, hp]
      · exact append_disk_ne (hne s hs hp) _

theorem renamed_disk_ne {a b p : P} (ha : p ≠ a) (hb : p ≠ b) :
    (fs.renamed a b).disk p = fs.disk p :=
  (Function.update_of_ne hb ..).trans (Function.update_of_ne ha ..)

/-- An operation changes only the files it touches. -/
theorem may_disk {o : FileOp P} {r : FileOp.Res o} (hm : fs.may o r fs') {p : P}
    (h : ¬ fs.Touches o p) : fs'.disk p = fs.disk p := by
  cases o with
  | stat q => rw [(may_stat hm).1]
  | fopen q m =>
      by_cases hr : m = .r
      · subst hr
        rcases may_fopen_r hm with ⟨-, rfl⟩ | ⟨c, -, -, rfl⟩
        · rfl
        · rfl
      · rcases may_fopen_w hr hm with ⟨-, rfl⟩ | ⟨-, rfl⟩
        · rfl
        · exact Function.update_of_ne (fun hq => h ⟨hq.symm, hr⟩) ..
  | fseeko k n =>
      rcases may_read (.fseeko k n) hm with rfl | ⟨s, pos, -, rfl⟩
      · rfl
      · rfl
  | fgets k size =>
      rcases may_read (.fgets k size) hm with rfl | ⟨s, pos, -, rfl⟩
      · rfl
      · rfl
  | fread k n =>
      rcases may_read (.fread k n) hm with rfl | ⟨s, pos, -, rfl⟩
      · rfl
      · rfl
  | fwrite k bs =>
      obtain ⟨taken, m, -, -, rfl⟩ := may_fwrite hm
      exact written_disk fun s hs hp => h ⟨s, hs, hp⟩
  | fputs k text =>
      obtain ⟨taken, m, -, -, rfl⟩ := may_fputs hm
      exact written_disk fun s hs hp => h ⟨s, hs, hp⟩
  | fflush k =>
      rw [may_fflush hm]
      exact flushed_disk fun s hs hp hpath => h ⟨s, hs, hpath, hp⟩
  | fsync k => rw [may_fsync hm]
  | fclose k =>
      obtain ⟨m, rfl, -⟩ := may_fclose hm
      exact closed_disk fun s hs hp hpath => h ⟨s, hs, hpath, hp⟩
  | rename a b =>
      rcases may_rename hm with ⟨-, rfl⟩ | ⟨-, -, rfl⟩
      · rfl
      · exact renamed_disk_ne (fun hp => h (.inl hp)) (fun hp => h (.inr hp))
  | unlink q =>
      rcases may_unlink hm with rfl | ⟨-, rfl⟩
      · rfl
      · exact Function.update_of_ne (fun hq => h hq.symm) ..
  | lock q => rw [may_lock hm]
  | unlock fd => rw [may_unlock hm]

/-! ### Who holds bytes back, and who is open on what -/

/-- No stream but those of `hs` has bytes pending. -/
def PendingOnly (fs : FileSystem P) (hs : List Handle) : Prop :=
  ∀ h s, fs.streams h = some s → s.pending ≠ [] → h ∈ hs

/-- Nothing is pending anywhere. -/
abbrev Settled (fs : FileSystem P) : Prop := fs.PendingOnly []

/-- `h` has been given out, and is open on `p` if it is open. -/
def Owns (fs : FileSystem P) (h : Handle) (p : P) : Prop :=
  h < fs.fresh ∧ ∀ s, fs.streams h = some s → s.path = some p

omit [DecidableEq P] in
theorem PendingOnly.mono {hs ks : List Handle} (h : fs.PendingOnly hs)
    (hk : ∀ x ∈ hs, x ∈ ks) : fs.PendingOnly ks :=
  fun x s hx hp => hk x (h x s hx hp)

omit [DecidableEq P] in
theorem setStream_streams_ne {h k : Handle} (hne : k ≠ h) (s : Option (Stream P)) :
    (fs.setStream h s).streams k = fs.streams k :=
  Function.update_of_ne hne ..

section Streams

variable {h k : Handle} {hs : List Handle} {q : P}

/-- A stream that is replaced by one with nothing pending drops out. -/
theorem PendingOnly.setStream (hp : fs.PendingOnly (h :: hs)) (p : Option P) (bs : Bytes)
    {s : Option (Stream P)} (hs' : ∀ t, s = some t → t.pending = []) :
    ((fs.append p bs).setStream h s).PendingOnly hs := by
  intro k t hk ht
  by_cases hkh : k = h
  · subst hkh
    rw [setStream_streams] at hk
    exact absurd (hs' t hk) ht
  · rw [setStream_streams_ne hkh, append_streams] at hk
    rcases List.mem_cons.mp (hp k t hk ht) with rfl | hmem
    · exact absurd rfl hkh
    · exact hmem

theorem PendingOnly.flushed (hp : fs.PendingOnly (h :: hs)) : (fs.flushed h).PendingOnly hs := by
  cases hs' : fs.streams h with
  | none =>
      rw [show fs.flushed h = fs by simp only [FileSystem.flushed, hs']]
      intro k t hk ht
      rcases List.mem_cons.mp (hp k t hk ht) with rfl | hmem
      · rw [hs'] at hk
        cases hk
      · exact hmem
  | some s =>
      rw [flushed_eq hs']
      exact hp.setStream _ _ fun t ht => by cases ht; rfl

theorem PendingOnly.closed (hp : fs.PendingOnly (h :: hs)) (m : ℕ) :
    (fs.closed h m).PendingOnly hs := by
  cases hs' : fs.streams h with
  | none =>
      rw [show fs.closed h m = fs by simp only [FileSystem.closed, hs']]
      intro k t hk ht
      rcases List.mem_cons.mp (hp k t hk ht) with rfl | hmem
      · rw [hs'] at hk
        cases hk
      · exact hmem
  | some s =>
      rw [closed_eq hs']
      exact hp.setStream _ _ fun _ hu => by cases hu

theorem PendingOnly.written (hp : fs.PendingOnly hs) (hmem : h ∈ hs) (taken : Bytes) (m : ℕ) :
    (fs.written h taken m).PendingOnly hs := by
  cases hs' : fs.streams h with
  | none =>
      rw [show fs.written h taken m = fs by simp only [FileSystem.written, hs']]
      exact hp
  | some s =>
      rw [written_eq hs']
      intro k t hk ht
      by_cases hkh : k = h
      · exact hkh ▸ hmem
      · rw [setStream_streams_ne hkh, append_streams] at hk
        exact hp k t hk ht

theorem PendingOnly.opened (hp : fs.PendingOnly hs) (p : P) (m : Mode) (c : Option Bytes)
    (content : Bytes) : ((fs.set p c).opened p m content).2.PendingOnly hs := by
  intro k t hk ht
  by_cases hkh : k = fs.fresh
  · subst hkh
    rw [show ((fs.set p c).opened p m content).2.streams fs.fresh = _ from
      Function.update_self ..] at hk
    cases hk
    exact absurd rfl ht
  · rw [show ((fs.set p c).opened p m content).2.streams k = fs.streams k from
      Function.update_of_ne hkh ..] at hk
    exact hp k t hk ht

theorem Owns.opened (ho : fs.Owns k q) (p : P) (m : Mode) (c : Option Bytes) (content : Bytes) :
    ((fs.set p c).opened p m content).2.Owns k q := by
  refine ⟨Nat.lt_succ_of_lt ho.1, fun t ht => ho.2 t ?_⟩
  rwa [show ((fs.set p c).opened p m content).2.streams k = fs.streams k from
    Function.update_of_ne (Nat.ne_of_lt ho.1) ..] at ht

theorem owns_opened (p : P) (m : Mode) (c : Option Bytes) (content : Bytes) :
    ((fs.set p c).opened p m content).2.Owns fs.fresh p := by
  refine ⟨Nat.lt_succ_self _, fun t ht => ?_⟩
  rw [show ((fs.set p c).opened p m content).2.streams fs.fresh = _ from
    Function.update_self ..] at ht
  cases ht
  rfl

/-- A stream keeps its file when its position or its buffer changes, or when it is closed. -/
theorem Owns.setStream (ho : fs.Owns k q) (p : Option P) (bs : Bytes) {s : Option (Stream P)}
    (hs' : ∀ t, s = some t → ∃ t', fs.streams h = some t' ∧ t'.path = t.path) :
    ((fs.append p bs).setStream h s).Owns k q := by
  refine ⟨by simpa [FileSystem.setStream] using ho.1, fun t ht => ?_⟩
  by_cases hkh : k = h
  · subst hkh
    rw [setStream_streams] at ht
    obtain ⟨t', ht', hpath⟩ := hs' t ht
    rw [← hpath]
    exact ho.2 t' ht'
  · rw [setStream_streams_ne hkh, append_streams] at ht
    exact ho.2 t ht

theorem Owns.flushed (ho : fs.Owns k q) : (fs.flushed h).Owns k q := by
  cases hs' : fs.streams h with
  | none => rwa [show fs.flushed h = fs by simp only [FileSystem.flushed, hs']]
  | some s =>
      rw [flushed_eq hs']
      exact ho.setStream _ _ fun t ht => ⟨s, hs', by cases ht; rfl⟩

theorem Owns.written (ho : fs.Owns k q) (taken : Bytes) (m : ℕ) : (fs.written h taken m).Owns k q := by
  cases hs' : fs.streams h with
  | none => rwa [show fs.written h taken m = fs by simp only [FileSystem.written, hs']]
  | some s =>
      rw [written_eq hs']
      exact ho.setStream _ _ fun t ht => ⟨s, hs', by cases ht; rfl⟩

theorem Owns.closed (ho : fs.Owns k q) (m : ℕ) : (fs.closed h m).Owns k q := by
  cases hs' : fs.streams h with
  | none => rwa [show fs.closed h m = fs by simp only [FileSystem.closed, hs']]
  | some s =>
      rw [closed_eq hs']
      exact ho.setStream _ _ fun _ hu => by cases hu

end Streams

/-! ### The operations -/

section Operations

variable {h k : Handle} {hs : List Handle} {q : P}

theorem PendingOnly.fopen (hp : fs.PendingOnly hs) {p : P} {m : Mode} {r : Option Handle}
    (hm : fs.may (.fopen p m) r fs') : fs'.PendingOnly hs := by
  by_cases hr : m = .r
  · subst hr
    rcases may_fopen_r hm with ⟨-, rfl⟩ | ⟨c, hc, -, rfl⟩
    · exact hp
    · have hset : fs.set p (some c) = fs := by
        rw [FileSystem.set, ← hc, Function.update_eq_self]
      exact hset ▸ hp.opened p .r (some c) c
  · rcases may_fopen_w hr hm with ⟨-, rfl⟩ | ⟨-, rfl⟩
    · exact hp
    · exact hp.opened p m _ _

theorem Owns.fopen (ho : fs.Owns k q) {p : P} {m : Mode} {r : Option Handle}
    (hm : fs.may (.fopen p m) r fs') : fs'.Owns k q := by
  by_cases hr : m = .r
  · subst hr
    rcases may_fopen_r hm with ⟨-, rfl⟩ | ⟨c, hc, -, rfl⟩
    · exact ho
    · have hset : fs.set p (some c) = fs := by
        rw [FileSystem.set, ← hc, Function.update_eq_self]
      exact hset ▸ ho.opened p .r (some c) c
  · rcases may_fopen_w hr hm with ⟨-, rfl⟩ | ⟨-, rfl⟩
    · exact ho
    · exact ho.opened p m _ _

theorem owns_fopen {p : P} {m : Mode} (hm : fs.may (.fopen p m) (some h) fs') : fs'.Owns h p := by
  by_cases hr : m = .r
  · subst hr
    rcases may_fopen_r hm with ⟨hn, -⟩ | ⟨c, hc, heq, rfl⟩
    · cases hn
    · cases heq
      have hset : fs.set p (some c) = fs := by
        rw [FileSystem.set, ← hc, Function.update_eq_self]
      exact hset ▸ owns_opened p .r (some c) c
  · rcases may_fopen_w hr hm with ⟨hn, -⟩ | ⟨heq, rfl⟩
    · cases hn
    · cases heq
      exact owns_opened p m _ _

theorem PendingOnly.read {o : FileOp P} (hp : fs.PendingOnly hs) (ho : Reads o h)
    {r : FileOp.Res o} (hm : fs.may o r fs') : fs'.PendingOnly hs := by
  rcases may_read ho hm with rfl | ⟨s, pos, hs', rfl⟩
  · exact hp
  · intro k t hk ht
    by_cases hkh : k = h
    · subst hkh
      rw [setStream_streams] at hk
      cases hk
      exact hp k s hs' ht
    · rw [setStream_streams_ne hkh] at hk
      exact hp k t hk ht

theorem Owns.read {o : FileOp P} (ho : fs.Owns k q) (hr : Reads o h) {r : FileOp.Res o}
    (hm : fs.may o r fs') : fs'.Owns k q := by
  rcases may_read hr hm with rfl | ⟨s, pos, hs', rfl⟩
  · exact ho
  · have happ := ho.setStream none [] (s := some { s with pos := pos })
      fun t ht => ⟨s, hs', by cases ht; rfl⟩
    exact happ

theorem PendingOnly.renamed (hp : fs.PendingOnly hs) (a b : P) : (fs.renamed a b).PendingOnly hs := by
  intro k t hk ht
  cases hs' : fs.streams k with
  | none =>
      simp only [FileSystem.renamed, hs', Option.map_none] at hk
      cases hk
  | some s =>
      simp only [FileSystem.renamed, hs', Option.map_some] at hk
      cases hk
      exact hp k s hs' ht

theorem PendingOnly.unlink (hp : fs.PendingOnly hs) {p : P} {r : Bool}
    (hm : fs.may (.unlink p) r fs') : fs'.PendingOnly hs := by
  rcases may_unlink hm with rfl | ⟨-, rfl⟩
  · exact hp
  · intro k t hk ht
    cases hs' : fs.streams k with
    | none =>
        simp only [FileSystem.unlinked, hs', Option.map_none] at hk
        cases hk
    | some s =>
        simp only [FileSystem.unlinked, hs', Option.map_some] at hk
        cases hk
        exact hp k s hs' ht

theorem PendingOnly.rename (hp : fs.PendingOnly hs) {a b : P} {r : Bool}
    (hm : fs.may (.rename a b) r fs') : fs'.PendingOnly hs := by
  rcases may_rename hm with ⟨-, rfl⟩ | ⟨-, -, rfl⟩
  · exact hp
  · exact hp.renamed a b

/-- `h` writes the file `p`, which holds `text` once nothing is pending. -/
def Composing (fs : FileSystem P) (h : Handle) (p : P) (text : Bytes) : Prop :=
  ∃ s c, fs.streams h = some s ∧ s.path = some p ∧ fs.disk p = some c ∧ c ++ s.pending = text

omit [DecidableEq P] in
theorem Composing.same {p : P} {text : Bytes} (hc : fs.Composing h p text)
    (hs : fs'.streams = fs.streams) (hd : fs'.disk p = fs.disk p) : fs'.Composing h p text := by
  obtain ⟨s, c, hstream, hp, hdisk, htext⟩ := hc
  exact ⟨s, c, hs ▸ hstream, hp, hd.trans hdisk, htext⟩

theorem Composing.fputs {p : P} {text line : Bytes} (hc : fs.Composing h p text)
    (hm : fs.may (.fputs h line) true fs') : fs'.Composing h p (text ++ line) := by
  obtain ⟨s, c, hs, hp, hdisk, rfl⟩ := hc
  obtain ⟨taken, m, -, ht, rfl⟩ := may_fputs hm
  rw [ht rfl, written_eq hs, hp]
  refine ⟨_, c ++ (s.pending ++ line).take m, setStream_streams .., rfl, ?_, ?_⟩
  · show (fs.set p _).disk p = _
    rw [hdisk]
    exact Function.update_self ..
  · rw [List.append_assoc, List.take_append_drop, List.append_assoc]

/-- What is composed is in the file after a flush. -/
theorem Composing.fflush {p : P} {text : Bytes} {r : Bool} (hc : fs.Composing h p text)
    (hm : fs.may (.fflush h) r fs') : fs'.disk p = some text := by
  obtain ⟨s, c, hs, hp, hdisk, rfl⟩ := hc
  rw [may_fflush hm, flushed_eq hs, hp]
  show (fs.set p _).disk p = _
  rw [hdisk]
  exact Function.update_self ..

/-- Bytes pending towards `p` were pending before, unless the operation touches `p`. -/
theorem may_pending {o : FileOp P} {r : FileOp.Res o} (hm : fs.may o r fs') {x : Handle}
    {s : Stream P} (hs : fs'.streams x = some s) (hp : s.pending ≠ []) {p : P}
    (hpath : s.path = some p) :
    fs.Touches o p ∨
      ∃ s', fs.streams x = some s' ∧ s'.pending ≠ [] ∧ s'.path = some p := by
  have hsame : ∀ {t : FileSystem P}, fs' = t → t.streams = fs.streams →
      ∃ s', fs.streams x = some s' ∧ s'.pending ≠ [] ∧ s'.path = some p :=
    fun ht hstreams => ⟨s, by rw [← hstreams, ← ht]; exact hs, hp, hpath⟩
  -- what changes is one stream, which then has nothing pending or is the one written to
  have hone : ∀ (k : Handle) (q : Option P) (bs : Bytes) (t : Option (Stream P)),
      fs' = (fs.append q bs).setStream k t →
      (∀ u, t = some u → u.pending ≠ [] → u.path = some p → fs.Touches o p ∨
        ∃ s', fs.streams k = some s' ∧ s'.pending ≠ [] ∧ s'.path = some p) →
      fs.Touches o p ∨ ∃ s', fs.streams x = some s' ∧ s'.pending ≠ [] ∧ s'.path = some p := by
    intro k q bs t hfs ht
    rw [hfs] at hs
    by_cases hxk : x = k
    · subst hxk
      rw [setStream_streams] at hs
      exact ht s hs hp hpath
    · rw [setStream_streams_ne hxk, append_streams] at hs
      exact .inr ⟨s, hs, hp, hpath⟩
  have hwrite : ∀ (k : Handle) (taken : Bytes) (m : ℕ), fs' = fs.written k taken m →
      (∀ s', fs.streams k = some s' → s'.path = some p → fs.Touches o p) →
      fs.Touches o p ∨ ∃ s', fs.streams x = some s' ∧ s'.pending ≠ [] ∧ s'.path = some p := by
    intro k taken m hfs ht
    cases hk : fs.streams k with
    | none => exact .inr (hsame hfs (by simp only [written, hk]))
    | some s' =>
        rw [written_eq hk] at hfs
        exact hone k _ _ _ hfs fun u hu _ hup => .inl (ht s' hk (by cases hu; exact hup))
  have hread : ∀ k, Reads o k →
      ∃ s', fs.streams x = some s' ∧ s'.pending ≠ [] ∧ s'.path = some p := by
    intro k hk
    rcases may_read hk hm with rfl | ⟨s', pos, hs', hfs⟩
    · exact ⟨s, hs, hp, hpath⟩
    · rw [hfs] at hs
      by_cases hxk : x = k
      · subst hxk
        rw [setStream_streams] at hs
        cases hs
        exact ⟨s', hs', hp, hpath⟩
      · rw [setStream_streams_ne hxk] at hs
        exact ⟨s, hs, hp, hpath⟩
  have hopen : ∀ (q : P) (m : Mode) (c : Option Bytes) (content : Bytes),
      fs' = ((fs.set q c).opened q m content).2 →
      ∃ s', fs.streams x = some s' ∧ s'.pending ≠ [] ∧ s'.path = some p := by
    intro q m c content hfs
    rw [hfs] at hs
    by_cases hx : x = fs.fresh
    · subst hx
      rw [show ((fs.set q c).opened q m content).2.streams fs.fresh = _ from
        Function.update_self ..] at hs
      cases hs
      exact absurd rfl hp
    · rw [show ((fs.set q c).opened q m content).2.streams x = fs.streams x from
        Function.update_of_ne hx ..] at hs
      exact ⟨s, hs, hp, hpath⟩
  cases o with
  | stat q => exact .inr (hsame (may_stat hm).1 rfl)
  | fopen q m =>
      by_cases hr : m = .r
      · subst hr
        rcases may_fopen_r hm with ⟨-, hfs⟩ | ⟨c, hc, -, hfs⟩
        · exact .inr (hsame hfs rfl)
        · have hset : fs.set q (some c) = fs := by
            rw [FileSystem.set, ← hc, Function.update_eq_self]
          exact .inr (hopen q .r (some c) c (hset.symm ▸ hfs))
      · rcases may_fopen_w hr hm with ⟨-, hfs⟩ | ⟨-, hfs⟩
        · exact .inr (hsame hfs rfl)
        · exact .inr (hopen q m _ _ hfs)
  | fseeko k n => exact .inr (hread k (.fseeko k n))
  | fgets k size => exact .inr (hread k (.fgets k size))
  | fread k n => exact .inr (hread k (.fread k n))
  | fwrite k bs =>
      obtain ⟨taken, m, -, -, hfs⟩ := may_fwrite hm
      exact hwrite k taken m hfs fun s' hk hq => ⟨s', hk, hq⟩
  | fputs k text =>
      obtain ⟨taken, m, -, -, hfs⟩ := may_fputs hm
      exact hwrite k taken m hfs fun s' hk hq => ⟨s', hk, hq⟩
  | fflush k =>
      have hfs := may_fflush hm
      cases hk : fs.streams k with
      | none => exact .inr (hsame hfs (by simp only [flushed, hk]))
      | some s' =>
          rw [flushed_eq hk] at hfs
          exact hone k _ _ _ hfs fun u hu hne _ => absurd (by cases hu; rfl) hne
  | fsync k => exact .inr (hsame (may_fsync hm) rfl)
  | fclose k =>
      obtain ⟨m, hfs, -⟩ := may_fclose hm
      cases hk : fs.streams k with
      | none => exact .inr (hsame hfs (by simp only [closed, hk]))
      | some s' =>
          rw [closed_eq hk] at hfs
          exact hone k _ _ _ hfs fun _ hu => by cases hu
  | rename a b =>
      rcases may_rename hm with ⟨-, hfs⟩ | ⟨-, -, hfs⟩
      · exact .inr (hsame hfs rfl)
      · rw [hfs, renamed, Option.map_eq_some_iff] at hs
        obtain ⟨s', hs', rfl⟩ := hs
        rw [newName] at hpath
        split at hpath
        · exact .inl (.inr (Option.some.inj hpath).symm)
        · split at hpath
          · cases hpath
          · exact .inr ⟨s', hs', hp, hpath⟩
  | unlink q =>
      rcases may_unlink hm with hfs | ⟨-, hfs⟩
      · exact .inr (hsame hfs rfl)
      · rw [hfs, unlinked, Option.map_eq_some_iff] at hs
        obtain ⟨s', hs', rfl⟩ := hs
        by_cases hq : s'.path = some q
        · simp only [hq, if_true] at hpath
          cases hpath
        · simp only [hq, if_false] at hpath
          exact .inr ⟨s', hs', hp, hpath⟩
  | lock q => exact .inr (hsame (may_lock hm) rfl)
  | unlock fd => exact .inr (hsame (may_unlock hm) rfl)

/-- A process that dies with nothing pending leaves the disk as it is. -/
theorem Dies.disk {P : Type} [DecidableEq P] {fs fs' : FileSystem P} (hd : Dies fs fs') {p : P}
    (h : ∀ k s, fs.streams k = some s → s.pending ≠ [] → s.path ≠ some p) :
    fs'.disk p = fs.disk p := by
  induction hd with
  | done fs hs => rfl
  | close k m hd ih =>
      rename_i fs fs'
      cases hs : fs.streams k with
      | none =>
          rw [show fs.closed k m = fs by simp only [FileSystem.closed, hs]] at ih
          exact ih h
      | some s =>
          rw [closed_eq hs] at ih
          refine (ih ?_).trans ?_
          · intro k' s' hk' hp'
            by_cases hkk : k' = k
            · subst hkk
              rw [setStream_streams] at hk'
              cases hk'
            · rw [setStream_streams_ne hkk, append_streams] at hk'
              exact h k' s' hk' hp'
          · rw [← closed_eq hs]
            exact closed_disk (h k)

end Operations

end FileSystem

end Libc
