import UpdateFramework.Libc.Apart

/-!
# Libc — a file that is only appended to

One stream writes to the end of a file, and may be cut short at any point: by a write that takes only
some of the bytes, by an `fclose` that loses what is pending, or by the death of the process.  What the
file holds is then still a prefix of what was written (`Kept.dies`).

`Appending fs h p sofar`: the file `p` and what is pending on `h` make up `sofar`, and no other stream
holds anything back from `p`.  Nothing but truncating, unlinking and renaming takes bytes from a file
(`may_grows`, `Dies.grows`).
-/

namespace Libc.FileSystem

open Process

variable {P : Type} [DecidableEq P] {fs fs' : FileSystem P} {p : P} {h : Handle}
  {sofar target : Bytes}

/-! ### Reading among failures -/

/-- A file opened for reading. -/
theorem may_fopen_reading {c : Bytes} (hc : fs.disk p = some c)
    (hm : fs.may (.fopen p .r) (some h) fs') : fs'.Reading h c ∧ fs'.disk = fs.disk := by
  rcases may_fopen_r hm with ⟨hnone, -⟩ | ⟨c', hc', hh, rfl⟩
  · cases hnone
  · cases hc.symm.trans hc'
    cases hh
    exact ⟨⟨_, setStream_streams .., rfl, rfl⟩, rfl⟩

/-- A file opened and read from the middle. -/
theorem may_fopen_fseeko {c : Bytes} (hc : fs.disk p = some c) {fs₁ : FileSystem P} {n : ℕ}
    (ho : fs.may (.fopen p .r) (some h) fs₁) (hs : fs₁.may (.fseeko h n) true fs') :
    fs'.Reading h (c.drop n) := by
  rcases may_fopen_r ho with ⟨hnone, -⟩ | ⟨c', hc', hh, rfl⟩
  · cases hnone
  cases hc.symm.trans hc'
  cases hh
  have hstream : (fs.opened p .r c).2.streams fs.fresh = some ⟨some p, .r, c, 0, []⟩ :=
    setStream_streams ..
  rcases hs with hs | hs
  · simp only [ok, hstream] at hs
    cases hs
    exact ⟨_, setStream_streams .., rfl, rfl⟩
  · cases hs

/-- Wherever `fseeko` leaves a stream. -/
theorem Reading.may_fseeko {text : Bytes} (hr : fs.Reading h text) {n : ℕ} {r : Bool}
    (hm : fs.may (.fseeko h n) r fs') : (∃ text', fs'.Reading h text') ∧ fs'.disk = fs.disk := by
  obtain ⟨s, hs, ht, hp⟩ := hr
  rcases may_read (.fseeko h n) hm with rfl | ⟨s', pos, hs', rfl⟩
  · exact ⟨⟨text, s, hs, ht, hp⟩, rfl⟩
  · cases hs.symm.trans hs'
    exact ⟨⟨_, _, setStream_streams .., rfl, hp⟩, rfl⟩

/-- Closing a stream that has been read changes no file. -/
theorem Reading.may_fclose {text : Bytes} (hr : fs.Reading h text) {r : Bool}
    (hm : fs.may (.fclose h) r fs') : fs'.disk = fs.disk := by
  obtain ⟨k, rfl, -⟩ := FileSystem.may_fclose hm
  obtain ⟨s, hs, -, hp⟩ := hr
  refine funext fun q => closed_disk fun t ht hne => ?_
  cases hs.symm.trans ht
  exact absurd hp hne

/-- `fread` gets what comes next, or the beginning of it. -/
theorem Reading.may_fread {text : Bytes} (hr : fs.Reading h text) {n : ℕ} {r : Bytes × Bool}
    (hm : fs.may (.fread h n) r fs') :
    r.1 = text.take r.1.length ∧ (r.2 = false → r.1 = text.take n) ∧
      fs'.Reading h (text.drop r.1.length) ∧ fs'.disk = fs.disk := by
  obtain ⟨s, hs, rfl, hp⟩ := hr
  -- what is left after `k` bytes
  have hleft : ∀ k, (fs.setStream h (some { s with pos := s.pos + k })).Reading h
      ((s.content.drop s.pos).drop ((s.content.drop s.pos).take k).length) := by
    intro k
    refine ⟨_, setStream_streams .., ?_, hp⟩
    rw [List.length_take, List.drop_drop]
    rcases Nat.le_total k (s.content.drop s.pos).length with hk | hk
    · rw [Nat.min_eq_left hk]
    · rw [Nat.min_eq_right hk, ← List.drop_drop, ← List.drop_drop, List.drop_length]
      exact List.drop_eq_nil_of_le hk
  have htook : ∀ k, (s.content.drop s.pos).take k =
      (s.content.drop s.pos).take ((s.content.drop s.pos).take k).length := fun k =>
    List.prefix_iff_eq_take.mp (List.take_prefix ..)
  rcases hm with hm | hm
  · simp only [ok, hs] at hm
    cases hm
    exact ⟨htook n, fun _ => rfl, hleft n, rfl⟩
  · cases hm with
    | fread _ _ m s' hs' hm =>
        cases hs.symm.trans hs'
        rw [List.take_take, Nat.min_eq_left (Nat.le_of_lt hm)]
        exact ⟨htook m, fun h => Bool.noConfusion h, hleft m, rfl⟩

/-! ### Appending -/

/-- The file `p` and what is pending on `h` make up `sofar`; nothing else is pending towards `p`. -/
structure Appending (fs : FileSystem P) (h : Handle) (p : P) (sofar : Bytes) : Prop where
  given : h < fs.fresh
  stream : ∃ s c, fs.streams h = some s ∧ s.path = some p ∧ fs.disk p = some c ∧
    c ++ s.pending = sofar
  others : ∀ k s, k ≠ h → fs.streams k = some s → s.path = some p → s.pending = []

omit [DecidableEq P] in
theorem Appending.same (ha : fs.Appending h p sofar) (hd : SameAt p fs fs') :
    fs'.Appending h p sofar := by
  obtain ⟨s, c, hs, hpath, hc, hsofar⟩ := ha.stream
  exact ⟨ha.given.trans_le hd.fresh,
    ⟨s, c, hd.stays h ha.given s hs hpath, hpath, hd.disk.trans hc, hsofar⟩,
    fun k t hk ht htp => ha.others k t hk (hd.old k t ht htp) htp⟩

omit [DecidableEq P] in
/-- With nothing pending, the file holds everything. -/
theorem Appending.whole (ha : fs.Appending h p sofar) (hi : fs.Idle p) :
    fs.disk p = some sofar := by
  obtain ⟨s, c, hs, hpath, hc, rfl⟩ := ha.stream
  rw [hc, hi h s hs hpath, List.append_nil]

/-- The first of some more bytes reach the stream's file, and the rest stays pending. -/
theorem Appending.moves (ha : fs.Appending h p sofar) {s : Stream P} {c gone left : Bytes}
    (hpath : s.path = some p) (hc : fs.disk p = some c) {t : Option (Stream P)}
    (hleft : ∀ u, t = some u → u.path = some p ∧ u.pending = left) :
    ((fs.append s.path gone).setStream h t).disk p = some (c ++ gone) ∧
      (t ≠ none → ((fs.append s.path gone).setStream h t).Appending h p (c ++ gone ++ left)) ∧
      (left = [] ∨ t = none → ((fs.append s.path gone).setStream h t).Idle p) := by
  rw [hpath]
  have hdisk : ((fs.append (some p) gone).setStream h t).disk p = some (c ++ gone) := by
    show Function.update fs.disk p _ p = _
    rw [Function.update_self, hc, Option.map_some]
  have hothers : ∀ k u, k ≠ h → ((fs.append (some p) gone).setStream h t).streams k = some u →
      u.path = some p → u.pending = [] := by
    intro k u hk hu hup
    rw [setStream_streams_ne hk, append_streams] at hu
    exact ha.others k u hk hu hup
  refine ⟨hdisk, fun ht => ⟨?_, ?_, hothers⟩, fun hempty k u hu hup => ?_⟩
  · simpa [setStream] using ha.given
  · obtain ⟨u, rfl⟩ := Option.ne_none_iff_exists'.mp ht
    obtain ⟨hup, rfl⟩ := hleft u rfl
    exact ⟨u, _, setStream_streams .., hup, hdisk, rfl⟩
  · by_cases hk : k = h
    · subst hk
      rw [setStream_streams] at hu
      rcases hempty with rfl | hnone
      · exact (hleft u hu).2
      · rw [hnone] at hu
        cases hu
    · exact hothers k u hk hu hup

/-- Of what is written, a part is taken. -/
theorem Appending.fwrite (ha : fs.Appending h p sofar) {bs : Bytes} {r : ℕ}
    (hm : fs.may (.fwrite h bs) r fs') :
    ∃ taken, taken <+: bs ∧ r = taken.length ∧ fs'.Appending h p (sofar ++ taken) := by
  obtain ⟨taken, m, htaken, hr, rfl⟩ := may_fwrite hm
  obtain ⟨s, c, hs, hpath, hc, rfl⟩ := ha.stream
  refine ⟨taken, htaken, hr, ?_⟩
  rw [written_eq hs]
  have hmoves := (@Appending.moves P _ fs p h _ ha s c ((s.pending ++ taken).take m) _ hpath hc
    (some { s with pending := (s.pending ++ taken).drop m })
    fun u hu => by cases hu; exact ⟨hpath, rfl⟩).2.1 nofun
  rwa [List.append_assoc, List.take_append_drop, ← List.append_assoc] at hmoves

theorem Appending.fflush (ha : fs.Appending h p sofar) {r : Bool} (hm : fs.may (.fflush h) r fs') :
    fs'.Appending h p sofar ∧ fs'.Idle p := by
  obtain ⟨s, c, hs, hpath, hc, rfl⟩ := ha.stream
  rw [may_fflush hm, flushed_eq hs]
  obtain ⟨-, hmoves, hidle⟩ := @Appending.moves P _ fs p h _ ha s c s.pending [] hpath hc
    (some { s with pending := [] }) fun u hu => by cases hu; exact ⟨hpath, rfl⟩
  have happ := hmoves nofun
  rw [List.append_nil] at happ
  exact ⟨happ, hidle (.inl rfl)⟩

/-- `fclose` may lose what is pending. -/
theorem Appending.fclose (ha : fs.Appending h p sofar) {r : Bool} (hm : fs.may (.fclose h) r fs') :
    fs'.Idle p ∧ ∃ c, fs'.disk p = some c ∧ c <+: sofar := by
  obtain ⟨m, rfl, -⟩ := may_fclose hm
  obtain ⟨s, c, hs, hpath, hc, rfl⟩ := ha.stream
  rw [closed_eq hs]
  obtain ⟨hdisk, -, hidle⟩ :=
    @Appending.moves P _ fs p h _ ha s c (s.pending.take m) [] hpath hc none nofun
  exact ⟨hidle (.inr rfl), _, hdisk, List.prefix_append_right_inj c |>.mpr (List.take_prefix ..)⟩

theorem Idle.fopen (hi : fs.Idle p) {m : Mode} (hr : m ≠ .r) {r : Option Handle}
    (hm : fs.may (.fopen p m) r fs') :
    (r = none ∧ fs' = fs) ∨
      ∃ h, r = some h ∧ fs'.Appending h p (fs.opening p m) ∧ fs'.Idle p := by
  rcases may_fopen_w hr hm with ⟨rfl, rfl⟩ | ⟨rfl, rfl⟩
  · exact .inl ⟨rfl, rfl⟩
  have hself : ((fs.set p (some (fs.opening p m))).opened p m []).2.streams fs.fresh =
      some ⟨some p, m, [], 0, []⟩ := Function.update_self ..
  have hne : ∀ {k}, k ≠ fs.fresh →
      ((fs.set p (some (fs.opening p m))).opened p m []).2.streams k = fs.streams k :=
    fun hk => Function.update_of_ne hk ..
  refine .inr ⟨fs.fresh, rfl, ⟨Nat.lt_succ_self _, ⟨_, fs.opening p m, hself, rfl, ?_, ?_⟩, ?_⟩, ?_⟩
  · exact Function.update_self ..
  · exact List.append_nil _
  · intro k u hk hu hup
    rw [hne hk] at hu
    exact hi k u hu hup
  · intro k u hu hup
    by_cases hk : k = fs.fresh
    · subst hk
      rw [hself] at hu
      cases hu
      rfl
    · rw [hne hk] at hu
      exact hi k u hu hup

/-! ### Whatever becomes of the pending bytes -/

/-- The file holds a prefix of `target`, and so it does with the bytes pending towards it. -/
structure Kept (target : Bytes) (p : P) (fs : FileSystem P) : Prop where
  disk : (fs.disk p).getD [] <+: target
  pending : ∃ h, ∀ k s, fs.streams k = some s → s.path = some p → s.pending ≠ [] →
    k = h ∧ (fs.disk p).getD [] ++ s.pending <+: target

omit [DecidableEq P] in
theorem Appending.kept (ha : fs.Appending h p sofar) (hs : sofar <+: target) :
    fs.Kept target p := by
  obtain ⟨s, c, hstream, hpath, hc, rfl⟩ := ha.stream
  refine ⟨?_, h, fun k t ht htp hne => ?_⟩
  · rw [hc]
    exact (List.prefix_append ..).trans hs
  · by_cases hk : k = h
    · subst hk
      rw [hstream] at ht
      cases ht
      exact ⟨rfl, by rwa [hc]⟩
    · exact absurd (ha.others k t hk ht htp) hne

omit [DecidableEq P] in
theorem Idle.kept (hi : fs.Idle p) (hd : (fs.disk p).getD [] <+: target) : fs.Kept target p :=
  ⟨hd, 0, fun k s hs hpath hne => absurd (hi k s hs hpath) hne⟩

omit [DecidableEq P] in
theorem Kept.same (hk : fs.Kept target p) (hd : SameAt p fs fs') : fs'.Kept target p := by
  obtain ⟨h, hpending⟩ := hk.pending
  refine ⟨hd.disk ▸ hk.disk, h, fun k s hs hpath hne => ?_⟩
  rw [hd.disk]
  exact hpending k s (hd.old k s hs hpath) hpath hne

/-- A stream is closed, with some of its pending bytes written. -/
theorem Kept.closed (hk : fs.Kept target p) (k : Handle) (m : ℕ) :
    (fs.closed k m).Kept target p := by
  cases hs : fs.streams k with
  | none =>
      rw [show fs.closed k m = fs by simp only [FileSystem.closed, hs]]
      exact hk
  | some s =>
      rw [closed_eq hs]
      by_cases hpath : s.path = some p
      · obtain ⟨h, hpending⟩ := hk.pending
        rw [hpath]
        have hdisk : (((fs.append (some p) (s.pending.take m)).setStream k none).disk p).getD [] <+:
            target := by
          show (Function.update fs.disk p _ p).getD [] <+: target
          rw [Function.update_self]
          cases hc : fs.disk p with
          | none => exact List.nil_prefix
          | some c =>
              by_cases hne : s.pending = []
              · rw [hne, List.take_nil, Option.map_some, List.append_nil]
                exact hc ▸ hk.disk
              · have hall := (hpending k s hs hpath hne).2
                rw [hc] at hall
                exact (List.prefix_append_right_inj c |>.mpr (List.take_prefix ..)).trans hall
        refine ⟨hdisk, h, fun j u hu hup hne => ?_⟩
        have hjk : j ≠ k := by
          rintro rfl
          rw [setStream_streams] at hu
          cases hu
        rw [setStream_streams_ne hjk, append_streams] at hu
        obtain ⟨rfl, hrest⟩ := hpending j u hu hup hne
        -- only one stream holds bytes back, so this one has written none
        have hnil : s.pending = [] := by
          by_contra hs'
          exact hjk (hpending k s hs hpath hs').1.symm
        refine ⟨rfl, ?_⟩
        rw [hnil, List.take_nil, append_nil]
        exact hrest
      · exact hk.same (sameAt_setStream hpath _ hs hpath (by rintro u ⟨⟩))

/-- When the process dies, the file holds a prefix, and no stream is left. -/
theorem Kept.dies (hk : fs.Kept target p) (hd : Dies fs fs') :
    (fs'.disk p).getD [] <+: target ∧ ∀ k, fs'.streams k = none := by
  induction hd with
  | done fs hs => exact ⟨hk.disk, hs⟩
  | close k m hd ih => exact ih (hk.closed k m)

/-! ### What a file loses -/

theorem append_grows (q : Option P) (bs : Bytes) :
    (fs.disk p).getD [] <+: ((fs.append q bs).disk p).getD [] := by
  by_cases hq : q = some p
  · subst hq
    show _ <+: (Function.update fs.disk p _ p).getD []
    rw [Function.update_self]
    cases fs.disk p with
    | none => exact List.nil_prefix
    | some c => exact List.prefix_append ..
  · exact append_disk_ne hq bs ▸ List.prefix_refl _

/-- Only truncating, unlinking and renaming a file takes bytes from it. -/
theorem may_grows {o : FileOp P} {r : FileOp.Res o} (hm : fs.may o r fs') (hopen : o ≠ .fopen p .w)
    (hunlink : o ≠ .unlink p) (hrename : ∀ q, o ≠ .rename p q ∧ o ≠ .rename q p) :
    (fs.disk p).getD [] <+: (fs'.disk p).getD [] := by
  by_cases ht : fs.Touches o p
  swap
  · exact may_disk hm ht ▸ List.prefix_refl _
  -- bytes are taken in, or reach the file
  have hone : ∀ (k : Handle) (bs : Stream P → Bytes) (t : Stream P → Option (Stream P)),
      (fs.streams k = none → fs' = fs) →
      (∀ s, fs.streams k = some s → fs' = (fs.append s.path (bs s)).setStream k (t s)) →
      (fs.disk p).getD [] <+: (fs'.disk p).getD [] := by
    intro k bs t hnone hsome
    cases hs : fs.streams k with
    | none => exact hnone hs ▸ List.prefix_refl _
    | some s => exact hsome s hs ▸ append_grows s.path (bs s)
  cases o with
  | fopen q m =>
      obtain ⟨rfl, hr⟩ := ht
      rcases may_fopen_w hr hm with ⟨-, rfl⟩ | ⟨-, rfl⟩
      · exact List.prefix_refl _
      · have hdisk : ((fs.set q (some (fs.opening q m))).opened q m []).2.disk q =
            some (fs.opening q m) := Function.update_self ..
        rw [hdisk]
        cases m with
        | r => exact absurd rfl hr
        | w => exact absurd rfl hopen
        | a => exact List.prefix_refl _
  | fwrite k bs =>
      obtain ⟨taken, m, -, -, hfs⟩ := may_fwrite hm
      exact hone k (fun s => (s.pending ++ taken).take m)
        (fun s => some { s with pending := (s.pending ++ taken).drop m })
        (fun hk => hfs.trans (by simp only [written, hk])) fun s hs => hfs.trans (written_eq hs taken m)
  | fputs k text =>
      obtain ⟨taken, m, -, -, hfs⟩ := may_fputs hm
      exact hone k (fun s => (s.pending ++ taken).take m)
        (fun s => some { s with pending := (s.pending ++ taken).drop m })
        (fun hk => hfs.trans (by simp only [written, hk])) fun s hs => hfs.trans (written_eq hs taken m)
  | fflush k =>
      exact hone k Stream.pending (fun s => some { s with pending := [] })
        (fun hk => (may_fflush hm).trans (by simp only [flushed, hk]))
        fun s hs => (may_fflush hm).trans (flushed_eq hs)
  | fclose k =>
      obtain ⟨m, hfs, -⟩ := may_fclose hm
      exact hone k (fun s => s.pending.take m) (fun _ => none)
        (fun hk => hfs.trans (by simp only [closed, hk])) fun s hs => hfs.trans (closed_eq hs m)
  | unlink q => exact absurd (congrArg FileOp.unlink ht) hunlink
  | rename a b =>
      rcases ht with rfl | rfl
      · exact absurd rfl (hrename b).1
      · exact absurd rfl (hrename a).2
  | stat q | fseeko k n | fgets k n | fread k n | fsync k | lock q | unlock fd => exact ht.elim

/-- Dying takes nothing from a file. -/
theorem Dies.grows (hd : Dies fs fs') (p : P) : (fs.disk p).getD [] <+: (fs'.disk p).getD [] := by
  induction hd with
  | done fs hs => exact List.prefix_refl _
  | @close fs fs' k m hd ih =>
      refine List.IsPrefix.trans ?_ ih
      cases hs : fs.streams k with
      | none => simp only [FileSystem.closed, hs, List.prefix_refl]
      | some s =>
          rw [closed_eq hs]
          exact append_grows s.path (s.pending.take m)

end Libc.FileSystem
