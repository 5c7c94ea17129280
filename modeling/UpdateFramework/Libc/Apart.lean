import UpdateFramework.Libc.Faults

/-!
# Libc — what leaves a file alone

`SameAt p fs fs'`: the file `p` and the streams on it are the same.  An operation that neither names
`p` nor works on one of its streams leaves them so (`may_spared`), and so does a program that works
only with other files, through streams it has opened itself (`safe_apart`).

`Idle fs p`: nothing is pending towards `p`.
-/

namespace Libc.FileSystem

open Process

variable {P : Type} [DecidableEq P] {fs fs' : FileSystem P} {p : P} {h : Handle}

/-! ### What leaves a file alone -/

/-- Nothing is pending towards `p`. -/
def Idle (fs : FileSystem P) (p : P) : Prop :=
  ∀ k s, fs.streams k = some s → s.path = some p → s.pending = []

/-- The file `p` and the streams on it are as they were. -/
structure SameAt (p : P) (fs fs' : FileSystem P) : Prop where
  disk : fs'.disk p = fs.disk p
  fresh : fs.fresh ≤ fs'.fresh
  old : ∀ k s, fs'.streams k = some s → s.path = some p → fs.streams k = some s
  stays : ∀ k < fs.fresh, ∀ s, fs.streams k = some s → s.path = some p → fs'.streams k = some s

omit [DecidableEq P] in
theorem SameAt.refl (p : P) (fs : FileSystem P) : SameAt p fs fs :=
  ⟨rfl, Nat.le_refl _, fun _ _ hs _ => hs, fun _ _ _ hs _ => hs⟩

/-- An operation that neither names `p` nor works on a stream of it. -/
def Spares (fs : FileSystem P) (p : P) : FileOp P → Prop
  | .fopen q _ | .unlink q => q ≠ p
  | .rename a b => a ≠ p ∧ b ≠ p
  | .fseeko h _ | .fgets h _ | .fread h _ | .fwrite h _ | .fputs h _ | .fflush h | .fclose h =>
      ∀ s, fs.streams h = some s → s.path ≠ some p
  | .stat _ | .fsync _ | .lock _ | .unlock _ => True

/-- Bytes for another file, and a change of a stream that is not on `p`. -/
theorem sameAt_setStream {q : Option P} (hq : q ≠ some p) (bs : Bytes) {s : Stream P}
    (hs : fs.streams h = some s) (hpath : s.path ≠ some p) {t : Option (Stream P)}
    (ht : ∀ u, t = some u → u.path = s.path) : SameAt p fs ((fs.append q bs).setStream h t) where
  disk := append_disk_ne hq bs
  fresh := by simp [setStream]
  old k u hu hup := by
    by_cases hkh : k = h
    · subst hkh
      rw [setStream_streams] at hu
      exact absurd ((ht u hu).symm.trans hup) hpath
    · rwa [setStream_streams_ne hkh, append_streams] at hu
  stays k _ u hu hup := by
    by_cases hkh : k = h
    · subst hkh
      rw [hs] at hu
      cases hu
      exact absurd hup hpath
    · rwa [setStream_streams_ne hkh, append_streams]

/-- A new stream on another file. -/
theorem sameAt_opened {q : P} (hq : q ≠ p) (m : Mode) (c : Option Bytes) (content : Bytes) :
    SameAt p fs ((fs.set q c).opened q m content).2 where
  disk := Function.update_of_ne hq.symm ..
  fresh := Nat.le_succ _
  old k u hu hup := by
    by_cases hk : k = fs.fresh
    · subst hk
      rw [show ((fs.set q c).opened q m content).2.streams fs.fresh = _ from
        Function.update_self ..] at hu
      cases hu
      exact absurd (Option.some.inj hup) hq
    · rwa [show ((fs.set q c).opened q m content).2.streams k = fs.streams k from
        Function.update_of_ne hk ..] at hu
  stays k hk u hu _ := by
    rwa [show ((fs.set q c).opened q m content).2.streams k = fs.streams k from
      Function.update_of_ne (Nat.ne_of_lt hk) ..]

omit [DecidableEq P] in
/-- Names of other files change. -/
theorem sameAt_mapped {disk : P → Option Bytes} (hd : disk p = fs.disk p)
    (name : Option P → Option P) (hname : ∀ q, name q = some p ↔ q = some p) :
    SameAt p fs { fs with
      disk := disk
      streams := fun h => (fs.streams h).map fun s => { s with path := name s.path } } where
  disk := hd
  fresh := Nat.le_refl _
  old k u hu hup := by
    obtain ⟨s, hs, rfl⟩ := Option.map_eq_some_iff.mp hu
    have hsame : name s.path = s.path := hup.trans ((hname _).mp hup).symm
    rw [hsame, hs]
  stays k _ u hu hup := by
    have hsame : name u.path = u.path := ((hname _).mpr hup).trans hup.symm
    simp only [hu, Option.map_some, hsame]

theorem may_spared {o : FileOp P} {r : FileOp.Res o} (hm : fs.may o r fs') (ho : fs.Spares p o) :
    SameAt p fs fs' := by
  -- an operation on one stream
  have hone : ∀ (k : Handle) (bs : Stream P → Bytes) (t : Stream P → Option (Stream P)),
      (∀ s, fs.streams k = some s → s.path ≠ some p) →
      (∀ s u, t s = some u → u.path = s.path) →
      (fs.streams k = none → fs' = fs) →
      (∀ s, fs.streams k = some s → fs' = (fs.append s.path (bs s)).setStream k (t s)) →
      SameAt p fs fs' := by
    intro k bs t hpath ht hnone hsome
    cases hs : fs.streams k with
    | none => exact hnone hs ▸ .refl p fs
    | some s => exact hsome s hs ▸ sameAt_setStream (hpath s hs) _ hs (hpath s hs) (ht s)
  have hread : ∀ k, Reads o k → (∀ s, fs.streams k = some s → s.path ≠ some p) →
      SameAt p fs fs' := by
    intro k hk hpath
    rcases may_read hk hm with hfs | ⟨s, pos, hs, rfl⟩
    · exact hfs ▸ .refl p fs
    · have hset := sameAt_setStream (t := some { s with pos := pos }) (hpath s hs) [] hs (hpath s hs)
        fun u hu => by cases hu; rfl
      rwa [append_nil] at hset
  cases o with
  | stat q => exact (may_stat hm).1 ▸ .refl p fs
  | fopen q m =>
      by_cases hr : m = .r
      · subst hr
        rcases may_fopen_r hm with ⟨-, hfs⟩ | ⟨c, hc, -, hfs⟩
        · exact hfs ▸ .refl p fs
        · have hset : fs.set q (some c) = fs := by
            rw [FileSystem.set, ← hc, Function.update_eq_self]
          have hopened := @sameAt_opened P _ fs p q ho .r (some c) c
          rw [hset] at hopened
          exact hfs ▸ hopened
      · rcases may_fopen_w hr hm with ⟨-, hfs⟩ | ⟨-, hfs⟩
        · exact hfs ▸ .refl p fs
        · exact hfs ▸ sameAt_opened ho m _ _
  | fseeko k n => exact hread k (.fseeko k n) ho
  | fgets k size => exact hread k (.fgets k size) ho
  | fread k n => exact hread k (.fread k n) ho
  | fwrite k bs =>
      obtain ⟨taken, m, -, -, hfs⟩ := may_fwrite hm
      refine hone k (fun s => (s.pending ++ taken).take m)
        (fun s => some { s with pending := (s.pending ++ taken).drop m }) ho ?_ ?_ ?_
      · rintro s u ⟨⟩
        rfl
      · exact fun hk => hfs.trans (by simp only [written, hk])
      · exact fun s hs => hfs.trans (written_eq hs taken m)
  | fputs k text =>
      obtain ⟨taken, m, -, -, hfs⟩ := may_fputs hm
      refine hone k (fun s => (s.pending ++ taken).take m)
        (fun s => some { s with pending := (s.pending ++ taken).drop m }) ho ?_ ?_ ?_
      · rintro s u ⟨⟩
        rfl
      · exact fun hk => hfs.trans (by simp only [written, hk])
      · exact fun s hs => hfs.trans (written_eq hs taken m)
  | fflush k =>
      refine hone k Stream.pending (fun s => some { s with pending := [] }) ho ?_ ?_ ?_
      · rintro s u ⟨⟩
        rfl
      · exact fun hk => (may_fflush hm).trans (by simp only [flushed, hk])
      · exact fun s hs => (may_fflush hm).trans (flushed_eq hs)
  | fsync k => exact may_fsync hm ▸ .refl p fs
  | fclose k =>
      obtain ⟨m, hfs, -⟩ := may_fclose hm
      refine hone k (fun s => s.pending.take m) (fun _ => none) ho (by rintro s u ⟨⟩) ?_ ?_
      · exact fun hk => hfs.trans (by simp only [closed, hk])
      · exact fun s hs => hfs.trans (closed_eq hs m)
  | rename a b =>
      rcases may_rename hm with ⟨-, hfs⟩ | ⟨-, -, hfs⟩
      · exact hfs ▸ .refl p fs
      · refine hfs ▸ sameAt_mapped (renamed_disk_ne ho.1.symm ho.2.symm) (newName a b) fun q => ?_
        rw [newName]
        have ha : some p ≠ some a := fun h => ho.1 (Option.some.inj h).symm
        have hb : some b ≠ some p := fun h => ho.2 (Option.some.inj h)
        split
        · rename_i hq
          simp [hq, hb, ha.symm]
        · split
          · rename_i hq
            simp [hq, hb]
          · rfl
  | unlink q =>
      rcases may_unlink hm with hfs | ⟨-, hfs⟩
      · exact hfs ▸ .refl p fs
      · refine hfs ▸ sameAt_mapped (Function.update_of_ne (Ne.symm ho) ..)
          (fun q' => if q' = some q then none else q') fun q' => ?_
        have hne : some q ≠ some p := fun h => ho (Option.some.inj h)
        split
        · rename_i hq
          simp [hq, hne]
        · rfl
  | lock q => exact may_lock hm ▸ .refl p fs
  | unlock fd => exact may_unlock hm ▸ .refl p fs

omit [DecidableEq P] in
theorem SameAt.trans {fs'' : FileSystem P} (h : SameAt p fs fs') (k : SameAt p fs' fs'') :
    SameAt p fs fs'' where
  disk := k.disk.trans h.disk
  fresh := h.fresh.trans k.fresh
  old j s hs hp := h.old j s (k.old j s hs hp) hp
  stays j hj s hs hp := k.stays j (hj.trans_le h.fresh) s (h.stays j hj s hs hp) hp

/-- What is idle stays idle where the file is not touched. -/
theorem Idle.untouched (hi : fs.Idle p) {o : FileOp P} {r : FileOp.Res o} (hm : fs.may o r fs')
    (ho : ¬ fs.Touches o p) : fs'.Idle p := by
  intro k s hs hpath
  by_contra hne
  rcases may_pending hm hs hne hpath with ht | ⟨s', hs', hne', hpath'⟩
  · exact ho ht
  · exact hne' (hi k s' hs' hpath')

omit [DecidableEq P] in
theorem SameAt.idle (hd : SameAt p fs fs') (hi : fs.Idle p) : fs'.Idle p :=
  fun k s hs hpath => hi k s (hd.old k s hs hpath) hpath

/-! ### Programs that leave a file alone -/

/-- An operation that writes nothing, where nothing is pending. -/
def Looks : FileOp P → Prop
  | .fopen _ m => m = .r
  | .fwrite _ _ | .fputs _ _ | .fflush _ | .rename _ _ | .unlink _ => False
  | _ => True

omit [DecidableEq P] in
theorem Idle.looks (hi : fs.Idle p) {o : FileOp P} (ho : Looks o) : ¬ fs.Touches o p := by
  cases o with
  | fopen q m => exact fun ht => ht.2 ho
  | fclose k =>
      rintro ⟨s, hs, hpath, hne⟩
      exact hne (hi k s hs hpath)
  | fwrite k bs | fputs k text | fflush k | rename a b | unlink q => exact ho.elim
  | stat q | fseeko k n | fgets k n | fread k n | fsync k | lock q | unlock fd => exact id

/-- The streams a program has opened. -/
def given (hs : List Handle) : Call (stdio P) → List Handle
  | ⟨.fopen _ _, some h⟩ => h :: hs
  | _ => hs

/-- An operation on another file than `p`, or on one of the streams `hs`. -/
def Shuns (p : P) (hs : List Handle) : FileOp P → Prop
  | .fopen q _ | .unlink q => q ≠ p
  | .rename a b => a ≠ p ∧ b ≠ p
  | .fseeko h _ | .fgets h _ | .fread h _ | .fwrite h _ | .fputs h _ | .fflush h | .fclose h =>
      h ∈ hs
  | .stat _ | .fsync _ | .lock _ | .unlock _ => True

/-- A program that works with other files than `p`, through the streams it has opened itself. -/
abbrev Apart {α : Type} (p : P) (prog : Prog (stdio P) α) (hs : List Handle) : Prop :=
  Safe (Env.folding given) (fun hs => Shuns p hs) (fun _ _ => True) prog hs

/-- The streams `hs` are on other files. -/
def Elsewhere (p : P) (hs : List Handle) (fs : FileSystem P) : Prop :=
  ∀ h ∈ hs, h < fs.fresh ∧ ∀ s, fs.streams h = some s → s.path ≠ some p

omit [DecidableEq P] in
theorem Elsewhere.spares {hs : List Handle} (he : Elsewhere p hs fs) {o : FileOp P}
    (ho : Shuns p hs o) : fs.Spares p o := by
  cases o with
  | fseeko h n | fgets h n | fread h n | fwrite h bs | fputs h text | fflush h | fclose h =>
      exact (he h ho).2
  | fopen q m | unlink q | rename a b => exact ho
  | stat q | fsync h | lock q | unlock fd => trivial

omit [DecidableEq P] in
theorem Elsewhere.same {hs : List Handle} (he : Elsewhere p hs fs) (hd : SameAt p fs fs') :
    Elsewhere p hs fs' :=
  fun h hh => ⟨(he h hh).1.trans_le hd.fresh, fun s hs hp => (he h hh).2 s (hd.old h s hs hp) hp⟩

theorem Elsewhere.given {hs : List Handle} (he : Elsewhere p hs fs) {o : FileOp P}
    (ho : Shuns p hs o) {r : FileOp.Res o} (hm : fs.may o r fs') :
    Elsewhere p (given hs ⟨o, r⟩) fs' := by
  have hsame := he.same (may_spared hm (he.spares ho))
  cases o with
  | fopen q m =>
      cases r with
      | none => exact hsame
      | some h =>
          obtain ⟨hlt, hown⟩ := owns_fopen hm
          intro k hk
          rcases List.mem_cons.mp hk with rfl | hk
          · exact ⟨hlt, fun s hs hp => ho (Option.some.inj ((hown s hs).symm.trans hp))⟩
          · exact hsame k hk
  | _ => exact hsame

/-- Such a program leaves `p` as it is, whatever fails. -/
theorem safe_apart {α : Type} {env : Env (stdio P) (FileSystem P)}
    (hmay : ∀ {fs o r fs'}, env.may fs o r fs' → fs.may o r fs')
    (hdrift : ∀ {fs fs'}, env.drift fs fs' → SameAt p fs fs') (hspins : env.spins)
    {prog : Prog (stdio P) α} {hs : List Handle} (hprog : Apart p prog hs) {fs₀ : FileSystem P}
    (hsame : SameAt p fs₀ fs) (he : Elsewhere p hs fs) :
    Safe env (fun fs o => SameAt p fs₀ fs ∧ fs.Spares p o) (fun _ => SameAt p fs₀) prog fs := by
  induction prog generalizing hs fs with
  | ret a => exact fun fs' hd => hsame.trans (hdrift hd)
  | call o k ih =>
      obtain ⟨ho, hk⟩ := safe_folding_call.mp hprog
      intro fs₁ hd
      have he₁ := he.same (hdrift hd)
      have hsame₁ := hsame.trans (hdrift hd)
      refine ⟨⟨hsame₁, he₁.spares ho⟩, fun r fs₂ hm => ih r (hk r) ?_ ?_⟩
      · exact hsame₁.trans (may_spared (hmay hm) (he₁.spares ho))
      · exact he₁.given ho (hmay hm)
  | spin => exact hspins

/-- Nor does one in which nothing fails. -/
theorem eval_apart {α : Type} {prog : Prog (stdio P) α} {hs : List Handle}
    (hprog : Apart p prog hs) (he : Elsewhere p hs fs) {a : α}
    (heval : FileSystem.eval prog fs = some (a, fs')) : SameAt p fs fs' := by
  induction prog generalizing hs fs with
  | ret b =>
      cases heval
      exact .refl ..
  | call o k ih =>
      obtain ⟨ho, hk⟩ := safe_folding_call.mp hprog
      have hm : fs.may o (fs.ok o).1 (fs.ok o).2 := .inl rfl
      exact (may_spared hm (he.spares ho)).trans (ih _ (hk _) (he.given ho hm) heval)
  | spin => cases heval

end Libc.FileSystem
