import UpdateFramework.Libc.Apart

/-!
# Libc — what is open on a set of files

`NoneOn fs S`: no stream is open on a file of `S`.  `OneOn fs S h`: no stream but `h` is.  A program
that has opened one stream on such a file and has closed it again leaves none behind.
-/

namespace Libc.FileSystem

variable {P : Type} [DecidableEq P] {fs fs' : FileSystem P} {S : P → Prop} {h : Handle} {p : P}

/-- No stream but `h` is open on a file of `S`. -/
def OneOn (fs : FileSystem P) (S : P → Prop) (h : Handle) : Prop :=
  ∀ k s p, k ≠ h → fs.streams k = some s → s.path = some p → ¬ S p

/-- No stream is open on a file of `S`. -/
def NoneOn (fs : FileSystem P) (S : P → Prop) : Prop :=
  ∀ k s p, fs.streams k = some s → s.path = some p → ¬ S p

omit [DecidableEq P] in
theorem NoneOn.idle (hn : fs.NoneOn S) (hp : S p) : fs.Idle p :=
  fun k s hs hpath => absurd hp (hn k s p hs hpath)

omit [DecidableEq P] in
/-- What is pending towards a file of `S` is pending on `h`. -/
theorem OneOn.idle (ho : fs.OneOn S h) (hp : S p)
    (hown : ∀ s, fs.streams h = some s → s.path = some p → s.pending = []) : fs.Idle p := by
  intro k s hs hpath
  by_cases hk : k = h
  · subst hk
    exact hown s hs hpath
  · exact absurd hp (ho k s p hk hs hpath)

omit [DecidableEq P] in
/-- An operation on the stream `h`. -/
theorem OneOn.stream (ho : fs.OneOn S h) (hsame : ∀ k, k ≠ h → fs'.streams k = fs.streams k) :
    fs'.OneOn S h :=
  fun k s p hk hs => ho k s p hk (hsame k hk ▸ hs)

omit [DecidableEq P] in
theorem OneOn.closed (ho : fs.OneOn S h) (hsame : ∀ k, k ≠ h → fs'.streams k = fs.streams k)
    (hgone : fs'.streams h = none) : fs'.NoneOn S := by
  intro k s p hs
  by_cases hk : k = h
  · subst hk
    rw [hgone] at hs
    cases hs
  · exact ho k s p hk (hsame k hk ▸ hs)

theorem written_streams_ne {k : Handle} (hk : k ≠ h) (taken : Bytes) (m : ℕ) :
    (fs.written h taken m).streams k = fs.streams k := by
  cases hs : fs.streams h with
  | none => simp only [written, hs]
  | some s => rw [written_eq hs, setStream_streams_ne hk, append_streams]

theorem flushed_streams_ne {k : Handle} (hk : k ≠ h) : (fs.flushed h).streams k = fs.streams k := by
  cases hs : fs.streams h with
  | none => simp only [flushed, hs]
  | some s => rw [flushed_eq hs, setStream_streams_ne hk, append_streams]

theorem closed_streams (m : ℕ) : (fs.closed h m).streams h = none ∧
    ∀ k, k ≠ h → (fs.closed h m).streams k = fs.streams k := by
  cases hs : fs.streams h with
  | none => simp only [closed, hs, implies_true, and_self]
  | some s =>
      rw [closed_eq hs]
      refine ⟨setStream_streams .., fun k hk => ?_⟩
      rw [setStream_streams_ne hk, append_streams]

/-- Operations on a stream that stays open. -/
inductive WorksOn (h : Handle) : FileOp P → Prop where
  | fgets (size : ℕ) : WorksOn h (.fgets h size)
  | fputs (text : Bytes) : WorksOn h (.fputs h text)
  | fflush : WorksOn h (.fflush h)
  | fsync : WorksOn h (.fsync h)

/-- They leave the other streams as they are. -/
theorem WorksOn.streams_ne {o : FileOp P} (ho : WorksOn h o) {r : FileOp.Res o}
    (hm : fs.may o r fs') {k : Handle} (hk : k ≠ h) : fs'.streams k = fs.streams k := by
  cases ho with
  | fgets size =>
      rcases may_read (.fgets h size) hm with rfl | ⟨s, pos, -, rfl⟩
      · rfl
      · exact setStream_streams_ne hk _
  | fputs text =>
      obtain ⟨taken, m, -, -, rfl⟩ := may_fputs hm
      exact written_streams_ne hk taken m
  | fflush => rw [may_fflush hm, flushed_streams_ne hk]
  | fsync => rw [may_fsync hm]

/-- A stream on a file of `S` is opened, if any. -/
theorem NoneOn.fopen (hn : fs.NoneOn S) {m : Mode} {r : Option Handle}
    (hm : fs.may (.fopen p m) r fs') :
    (r = none ∧ fs' = fs) ∨ ∃ h, r = some h ∧ fs'.OneOn S h := by
  have hopened : ∀ c content, ((fs.set p c).opened p m content).2.OneOn S fs.fresh := by
    intro c content k s q hk hs
    rw [show ((fs.set p c).opened p m content).2.streams k = fs.streams k from
      Function.update_of_ne hk ..] at hs
    exact hn k s q hs
  by_cases hr : m = .r
  · subst hr
    rcases may_fopen_r hm with hnone | ⟨c, hc, rfl, rfl⟩
    · exact .inl hnone
    · have hset : fs.set p (some c) = fs := by
        rw [FileSystem.set, ← hc, Function.update_eq_self]
      exact .inr ⟨_, rfl, hset ▸ hopened (some c) c⟩
  · rcases may_fopen_w hr hm with hnone | ⟨rfl, rfl⟩
    · exact .inl hnone
    · exact .inr ⟨_, rfl, hopened _ _⟩

/-- A file of `S` is renamed. -/
theorem NoneOn.rename (hn : fs.NoneOn S) {a b : P} (ha : S a) {r : Bool}
    (hm : fs.may (.rename a b) r fs') : fs'.NoneOn S := by
  rcases may_rename hm with ⟨-, rfl⟩ | ⟨-, -, rfl⟩
  · exact hn
  · intro k s p hs hpath
    obtain ⟨t, ht, rfl⟩ := Option.map_eq_some_iff.mp hs
    dsimp only [newName] at hpath
    split at hpath
    · rename_i hta
      exact absurd ha (hn k t a ht hta)
    · split at hpath
      · cases hpath
      · exact hn k t p ht hpath

/-- What names no file of `S` leaves none open on one, and leaves those files as they are. -/
theorem NoneOn.spared (hn : fs.NoneOn S) {o : FileOp P} (ho : ∀ p, S p → fs.Spares p o)
    {r : FileOp.Res o} (hm : fs.may o r fs') : fs'.NoneOn S ∧ ∀ p, S p → fs'.disk p = fs.disk p := by
  refine ⟨fun k s p hs hpath hp => ?_, fun p hp => (may_spared hm (ho p hp)).disk⟩
  exact hn k s p ((may_spared hm (ho p hp)).old k s hs hpath) hpath hp

end Libc.FileSystem
