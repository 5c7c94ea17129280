import UpdateFramework.Client.TableOrder
import UpdateFramework.Client.TableRun
import UpdateFramework.Client.World
import UpdateFramework.Libc.Opened

/-!
# Client — the version table under its lock

Several clients work on one table, each only while it holds the lock.  Where nothing fails under the
lock, `getCurrentVersion` and `write_version_file` leave the files the clients share alone without it,
and change the table with it in one way only: the client's own version goes up (`Decent`).
-/

namespace UpdateFramework

open Libc Process FileSystem

/-! ### The lock -/

def takesLock : FileOp Path → Prop
  | .lock _ => True
  | _ => False

/-- Whether the lock is held after an operation. -/
def heldAfter (o : FileOp Path) (holds : Bool) : Bool :=
  match o with
  | .lock _ => true
  | .unlock _ => false
  | _ => holds

/-- The lock can be had, and nothing fails while it is held.  Everything else may fail. -/
def lockRules (holds : Bool) : ClientRules :=
  { hostileRules with
    file := fun fs o r fs' => fs.may o r fs' ∧ (holds = true ∨ takesLock o → (r, fs') = fs.ok o)
    file_may := And.left
    others := Eq
    others_refl := fun _ => rfl
    others_trans := Eq.trans
    others_shared := fun h => h ▸ .refl _ }

/-- What other clients do between two operations of the client `id`. -/
structure Around (id : Bytes) (holds : Bool) (fs fs' : FileSystem Path) : Prop where
  shared : OnlyShared fs fs'
  held : holds = true → fs' = fs
  orderly : Orderly (fs.disk .table) → Orderly (fs'.disk .table)
  recorded : readVersion id (fs'.disk .table) = readVersion id (fs.disk .table)

theorem Around.refl (id : Bytes) (holds : Bool) (fs : FileSystem Path) : Around id holds fs fs :=
  ⟨.refl fs, fun _ => rfl, fun h => h, rfl⟩

theorem Around.trans {id : Bytes} {holds : Bool} {a b c : FileSystem Path}
    (h : Around id holds a b) (k : Around id holds b c) : Around id holds a c where
  shared := h.shared.trans k.shared
  held hb := (k.held hb).trans (h.held hb)
  orderly ho := k.orderly (h.orderly ho)
  recorded := k.recorded.trans h.recorded

/-- The files, and whether the client holds the lock. -/
def lockedEnv (id : Bytes) : Env (stdio Path) (FileSystem Path × Bool) where
  may x o r y := (lockRules x.2).file x.1 o r y.1 ∧ y.2 = heldAfter o x.2
  drift x y := y.2 = x.2 ∧ Around id x.2 x.1 y.1
  drift_refl x := ⟨rfl, .refl ..⟩
  drift_trans := by
    rintro ⟨a, i⟩ ⟨b, j⟩ ⟨c, k⟩ ⟨rfl, h⟩ ⟨rfl, h'⟩
    exact ⟨rfl, h.trans h'⟩

/-! ### What a client may do -/

/-- The version of `cfg` goes up, to one that is `allowed`, and nothing else changes in the table. -/
def Advance (cfg : ClientConfig) (allowed : Bytes → Prop) (old new : Option Bytes) : Prop :=
  ∃ (v : VersionText) (current c : Bytes), allowed v.text ∧
    readVersion cfg.clientId old = some current ∧ NotAbove current v.text ∧
    writtenTable cfg v.text old = some c ∧ new = some c

/-- What an operation may make of the files. -/
structure Decent (cfg : ClientConfig) (allowed : Bytes → Prop) (holds holds' : Bool)
    (fs fs' : FileSystem Path) : Prop where
  table : fs'.disk .table = fs.disk .table ∨
    holds = true ∧ Advance cfg allowed (fs.disk .table) (fs'.disk .table)
  shared : holds = false → ∀ p : Path, p.shared = true → fs'.disk p = fs.disk p
  idle : fs'.Idle .table
  quiet : holds' = false → ∀ p : Path, p.shared = true → fs'.Idle p

/-- Before each operation: the lock is not taken twice, and what comes of it is decent. -/
def decent (cfg : ClientConfig) (allowed : Bytes → Prop) (x : FileSystem Path × Bool)
    (o : FileOp Path) : Prop :=
  (takesLock o → x.2 = false) ∧ ∀ r fs', (lockRules x.2).file x.1 o r fs' →
    Decent cfg allowed x.2 (heldAfter o x.2) x.1 fs'

/-- No stream is open on a file the clients share. -/
abbrev Clear (fs : FileSystem Path) : Prop := fs.NoneOn (·.shared = true)

/-- No stream but `h` is open on such a file. -/
abbrev ClearBut (fs : FileSystem Path) (h : Handle) : Prop := fs.OneOn (·.shared = true) h

/-- Without the lock. -/
structure Calm (x : FileSystem Path × Bool) : Prop where
  free : x.2 = false
  orderly : Orderly (x.1.disk .table)
  clear : Clear x.1

section Locked

variable {cfg : ClientConfig} {allowed : Bytes → Prop} {fs fs' : FileSystem Path} {α : Type}
  {h : Handle} {Q : α → FileSystem Path × Bool → Prop} {x y : FileSystem Path × Bool}

theorem Calm.drift {id : Bytes} (hx : Calm x) (hd : (lockedEnv id).drift x y) : Calm y := by
  obtain ⟨hb, ha⟩ := hd
  refine ⟨hb.trans hx.free, ha.orderly hx.orderly, ?_⟩
  rw [Clear, NoneOn, ha.shared.streams]
  exact hx.clear

theorem Clear.table (hc : Clear fs) : fs.Idle .table := hc.idle (p := .table) rfl

/-- The table stands. -/
theorem decent_of_same {holds : Bool} (hb : holds = true) (hdisk : fs'.disk .table = fs.disk .table)
    (hidle : fs'.Idle .table) : Decent cfg allowed true holds fs fs' :=
  ⟨.inl hdisk, nofun, hidle, fun h => Bool.noConfusion (hb.symm.trans h)⟩

/-- An operation under the lock. -/
theorem held_call {o : FileOp Path} {k : FileOp.Res o → Prog (stdio Path) α} (ho : ¬ takesLock o)
    (hG : Decent cfg allowed true (heldAfter o true) fs (fs.ok o).2)
    (hk : Safe (lockedEnv cfg.clientId) (decent cfg allowed) Q (k (fs.ok o).1)
      ((fs.ok o).2, heldAfter o true)) :
    Safe (lockedEnv cfg.clientId) (decent cfg allowed) Q (.call o k) (fs, true) := by
  rintro ⟨fs₁, b⟩ ⟨hb, ha⟩
  obtain rfl : b = true := hb
  obtain rfl : fs₁ = fs := ha.held rfl
  refine ⟨⟨fun h => absurd h ho, fun r fs' hm => ?_⟩, ?_⟩
  · obtain rfl : fs' = _ := congrArg Prod.snd (hm.2 (.inl rfl))
    exact hG
  · rintro r ⟨fs', b'⟩ ⟨hm, hb'⟩
    have hok := hm.2 (.inl rfl)
    obtain rfl : fs' = _ := congrArg Prod.snd hok
    obtain rfl : r = _ := congrArg Prod.fst hok
    obtain rfl : b' = _ := hb'
    exact hk

theorem held_ret {a : α} (hQ : Q a (fs, true)) :
    Safe (lockedEnv cfg.clientId) (decent cfg allowed) Q (.ret a) (fs, true) := by
  rintro ⟨fs₁, b⟩ ⟨hb, ha⟩
  obtain rfl : b = true := hb
  obtain rfl : fs₁ = fs := ha.held rfl
  exact hQ

/-- The lock is given back. -/
theorem held_unlock {fd : ℕ} {k : Unit → Prog (stdio Path) α} (hc : Clear fs)
    (hk : Safe (lockedEnv cfg.clientId) (decent cfg allowed) Q (k ()) (fs, false)) :
    Safe (lockedEnv cfg.clientId) (decent cfg allowed) Q (.call (.unlock fd) k) (fs, true) :=
  held_call nofun ⟨.inl rfl, nofun, hc.table, fun _ _ hp => hc.idle hp⟩ hk

/-- The lock is taken. -/
theorem calm_lock {k : Option ℕ → Prog (stdio Path) α} (hx : Calm (fs, false))
    (hk : ∀ fs', Around cfg.clientId false fs fs' → Calm (fs', false) →
      Safe (lockedEnv cfg.clientId) (decent cfg allowed) Q (k (some 0)) (fs', true)) :
    Safe (lockedEnv cfg.clientId) (decent cfg allowed) Q (.call (.lock .tableLock) k) (fs, false) := by
  rintro ⟨fs₁, b⟩ ⟨hb, ha⟩
  obtain rfl : b = false := hb
  have hx₁ : Calm (fs₁, false) := hx.drift (y := (fs₁, false)) ⟨rfl, ha⟩
  refine ⟨⟨fun _ => rfl, fun r fs' hm => ?_⟩, ?_⟩
  · obtain rfl : fs' = fs₁ := may_lock hm.1
    exact ⟨.inl rfl, fun _ _ _ => rfl, hx₁.clear.table, nofun⟩
  · rintro r ⟨fs', b'⟩ ⟨hm, hb'⟩
    obtain rfl : fs' = fs₁ := may_lock hm.1
    obtain rfl : b' = true := hb'
    have hok := hm.2 (.inr trivial)
    obtain rfl : r = some 0 := congrArg Prod.fst hok
    exact hk fs' ha hx₁

/-! ### Reading -/

/-- A program that reads lines from `h`. -/
def readsLines (h : Handle) (o : FileOp Path) : Prop := ∃ size, o = .fgets h size

/-- What such a program leaves. -/
structure ReadBy (h : Handle) (fs fs' : FileSystem Path) : Prop where
  disk : fs'.disk = fs.disk
  clear : ClearBut fs' h
  nothing : ∀ s, fs'.streams h = some s → s.pending = []

theorem held_reads {p : Prog (stdio Path) α} (hp : p.Only (readsLines h)) (hr : ReadBy h fs fs) :
    Safe (lockedEnv cfg.clientId) (decent cfg allowed)
      (fun a x => x.2 = true ∧ FileSystem.eval p fs = some (a, x.1) ∧ ReadBy h fs x.1) p (fs, true) := by
  suffices hfrom : ∀ fs₁, ReadBy h fs fs₁ → Safe (lockedEnv cfg.clientId) (decent cfg allowed)
      (fun a x => x.2 = true ∧ FileSystem.eval p fs₁ = some (a, x.1) ∧ ReadBy h fs x.1) p
        (fs₁, true) from hfrom fs hr
  induction p with
  | ret a => exact fun fs₁ h₁ => held_ret ⟨rfl, rfl, h₁⟩
  | call o k ih =>
      intro fs₁ h₁
      obtain ⟨size, rfl⟩ := hp.1
      have hm : fs₁.may (.fgets h size) (fs₁.ok (.fgets h size)).1 (fs₁.ok (.fgets h size)).2 :=
        .inl rfl
      have hclear := h₁.clear.stream fun k hk => (WorksOn.fgets size).streams_ne hm hk
      have hnext : ReadBy h fs (fs₁.ok (.fgets h size)).2 := by
        rcases may_read (.fgets h size) hm with hsame | ⟨s, pos, hs, hsame⟩
        · rw [hsame]
          exact h₁
        · rw [hsame] at hclear ⊢
          refine ⟨h₁.disk, hclear, fun t ht => ?_⟩
          rw [setStream_streams] at ht
          cases ht
          exact h₁.nothing s hs
      refine held_call nofun (decent_of_same rfl ?_ ?_) ((ih _ (hp.2 _) _ hnext).post ?_)
      · rw [hnext.disk, h₁.disk]
      · exact hnext.clear.idle (p := .table) rfl fun s hs _ => hnext.nothing s hs
      · rintro a x ⟨hb, he, hx⟩
        exact ⟨hb, (eval_call _ _).trans he, hx⟩
  | spin => exact fun _ _ => trivial

/-- The table is opened. -/
theorem held_open {k : Option Handle → Prog (stdio Path) α} (hc : Clear fs)
    (hnone : fs.disk .table = none →
      Safe (lockedEnv cfg.clientId) (decent cfg allowed) Q (k none) (fs, true))
    (hsome : ∀ c fs' h, fs.disk .table = some c → fs'.Reading h c → ReadBy h fs' fs' →
      fs'.disk = fs.disk → Safe (lockedEnv cfg.clientId) (decent cfg allowed) Q (k (some h)) (fs', true)) :
    Safe (lockedEnv cfg.clientId) (decent cfg allowed) Q (.call (.fopen .table .r) k) (fs, true) := by
  cases hdisk : fs.disk .table with
  | none =>
      have hok := fopen_absent hdisk
      refine held_call nofun ?_ ?_
      · rw [hok]
        exact decent_of_same rfl rfl hc.table
      · rw [hok]
        exact hnone hdisk
  | some c =>
      obtain ⟨fs', hok, hr, hd⟩ := fopen_reading hdisk
      have hm : fs.may (.fopen .table .r) (some fs.fresh) fs' := .inl hok.symm
      obtain ⟨⟨⟩, -⟩ | ⟨h, hh, hone⟩ := hc.fopen hm
      obtain rfl : fs.fresh = h := Option.some.inj hh
      obtain ⟨s, hs, hleft, hpending⟩ := hr
      have hread : ReadBy fs.fresh fs' fs' := by
        refine ⟨rfl, hone, fun t ht => ?_⟩
        cases hs.symm.trans ht
        exact hpending
      refine held_call nofun ?_ ?_
      · rw [hok]
        refine decent_of_same rfl (congrFun hd _) ?_
        exact hone.idle (p := .table) rfl fun s hs _ => hread.nothing s hs
      · rw [hok]
        exact hsome c fs' _ hdisk ⟨s, hs, hleft, hpending⟩ hread hd

/-- The table is closed. -/
theorem held_close {k : Bool → Prog (stdio Path) α} (hr : ReadBy h fs' fs)
    (hk : ∀ r fs', Clear fs' → fs'.disk = fs.disk →
      Safe (lockedEnv cfg.clientId) (decent cfg allowed) Q (k r) (fs', true)) :
    Safe (lockedEnv cfg.clientId) (decent cfg allowed) Q (.call (.fclose h) k) (fs, true) := by
  have hm : fs.may (.fclose h) (fs.ok (.fclose h)).1 (fs.ok (.fclose h)).2 := .inl rfl
  obtain ⟨m, hfs, -⟩ := may_fclose hm
  obtain ⟨hgone, hsame⟩ := @closed_streams Path _ fs h m
  have hclear : Clear (fs.ok (.fclose h)).2 := by
    rw [hfs]
    exact hr.clear.closed hsame hgone
  have hdisk : (fs.ok (.fclose h)).2.disk = fs.disk := by
    funext p
    rw [hfs]
    exact closed_disk fun s hs hne => absurd (hr.nothing s hs) hne
  exact held_call nofun (decent_of_same rfl (congrFun hdisk _) hclear.table) (hk _ _ hclear hdisk)

theorem fgetsText_reads {β : Type} {size : ℕ} {k : Option (Bytes × Bool) → Prog (stdio Path) β}
    (hk : ∀ r, (k r).Only (readsLines h)) : (fgetsText h size >>= k).Only (readsLines h) := by
  refine .call ⟨size, rfl⟩ fun l => ?_
  cases l with
  | none => exact hk none
  | some l => exact hk (some (cstr l.1, l.2))

theorem versionRound_reads (st : List Bytes × Option Bytes) :
    (versionRound cfg h st).Only (readsLines h) := by
  refine fgetsText_reads fun r => ?_
  cases r with
  | none => trivial
  | some l =>
      dsimp only
      split
      · trivial
      · trivial
      · trivial

theorem tableRound_reads (version : Bytes) (t : TableRead) :
    (tableRound cfg version h t).Only (readsLines h) := by
  unfold tableRound
  split
  · trivial
  refine fgetsText_reads fun r => ?_
  cases r with
  | none => trivial
  | some l =>
      dsimp only
      split
      · trivial
      · trivial
      · split
        · trivial
        · trivial

/-- What is read is what is recorded, and nothing changes. -/
theorem getCurrentVersion_decent (hcur : cfg.currentVersion = []) (bound : ℕ) (hx : Calm (fs, false)) :
    Safe (lockedEnv cfg.clientId) (decent cfg allowed)
      (fun r x => Calm x ∧ ∀ v, r = some v → readVersion cfg.clientId (x.1.disk .table) = some v)
      (getCurrentVersion bound cfg) (fs, false) := by
  have hend : ∀ {fs : FileSystem Path} {r : Option Bytes}, Calm (fs, false) →
      (∀ v, r = some v → readVersion cfg.clientId (fs.disk .table) = some v) →
      Safe (lockedEnv cfg.clientId) (decent cfg allowed) (fun r x => Calm x ∧
        ∀ v, r = some v → readVersion cfg.clientId (x.1.disk .table) = some v) (.ret r) (fs, false) :=
    fun hx hr _ hd => ⟨hx.drift hd, fun v hv => hd.2.recorded.trans (hr v hv)⟩
  rw [getCurrentVersion, if_neg (by simp [hcur])]
  simp only [Prog.call_bind, Prog.ret_bind]
  refine calm_lock hx fun fs₁ _ hx₁ => ?_
  refine held_open hx₁.clear (fun hnone => ?_) fun c fs₂ h hsome hread hr hd₂ => ?_
  · refine held_unlock hx₁.clear (hend hx₁ fun v hv => ?_)
    rw [hnone]
    exact hv
  · have hreads : (Prog.iterate bound (versionRound cfg h) ([], none)).Only (readsLines h) :=
      .iterate versionRound_reads _ _
    refine safe_bind.mpr ((held_reads hreads hr).post ?_)
    rintro r ⟨fs₃, b⟩ ⟨hb, he, hr₃⟩
    obtain rfl : b = true := hb
    have hr₃' : r = readVersion cfg.clientId (some c) := by
      rcases versionLoop_eval cfg bound hread [] none with ⟨hnone, -⟩ | ⟨fs', rest, heq, -, -⟩
      · cases hnone.symm.trans he
      · exact (Prod.mk.inj (Option.some.inj (he.symm.trans heq))).1
    refine held_close hr₃ fun _ fs₄ hc₄ hd₄ => held_unlock hc₄ (hend ⟨rfl, ?_, hc₄⟩ fun v hv => ?_)
    · show Orderly (fs₄.disk .table)
      rw [hd₄, hr₃.disk, hd₂]
      exact hx₁.orderly
    · rw [hd₄, hr₃.disk, hd₂, hsome, ← hr₃', hv]

/-- What the reading half of `write_version_file` ends with. -/
theorem readTable_decent (version : Bytes) (hc : Clear fs) :
    Safe (lockedEnv cfg.clientId) (decent cfg allowed)
      (fun r x => x.2 = true ∧ Clear x.1 ∧ x.1.disk = fs.disk ∧
        r.map (fun t => (t.lines, t.updated)) =
          (acceptLines [] ((textLines 254 ((fs.disk .table).getD [])).take 512)).map fun es =>
            (es.map (rewritten cfg version), decide (cfg.clientId ∈ tableIds es)))
      (readTable cfg version) (fs, true) := by
  unfold readTable
  simp only [Prog.call_bind, Prog.ret_bind]
  refine held_open hc (fun hnone => held_ret ⟨rfl, hc, rfl, ?_⟩) fun c fs₁ h hsome hread hr hd₁ => ?_
  · simp [hnone, acceptLines, tableIds]
  · have hreads : (Prog.iterate 513 (tableRound cfg version h) ⟨[], [], false⟩).Only (readsLines h) :=
      .iterate (tableRound_reads version) _ _
    refine safe_bind.mpr ((held_reads hreads hr).post ?_)
    rintro r ⟨fs₂, b⟩ ⟨hb, he, hr₂⟩
    obtain rfl : b = true := hb
    obtain ⟨fs', rest, r', heq, -, -, hres⟩ :=
      tableLoop_eval cfg version 513 hread ⟨[], [], false⟩ (by decide) rfl
    obtain rfl : r = r' := (Prod.mk.inj (Option.some.inj (he.symm.trans heq))).1
    refine held_close hr₂ fun _ fs₃ hc₃ hd₃ => held_ret ⟨rfl, hc₃, ?_, ?_⟩
    · rw [hd₃, hr₂.disk, hd₁]
    · simpa [hsome] using hres

/-! ### Writing -/

/-- A new table is being written through `h`: `sofar` has reached the temporary file. -/
structure DraftOn (h : Handle) (old : Option Bytes) (sofar pending : Bytes)
    (fs : FileSystem Path) : Prop where
  clear : ClearBut fs h
  writing : fs.Writing h .tableTmp pending
  table : fs.disk .table = old
  temporary : fs.disk .tableTmp = some sofar

variable {old : Option Bytes} {sofar pending : Bytes}

theorem DraftOn.idle (hd : DraftOn h old sofar pending fs) : fs.Idle .table := by
  refine hd.clear.idle (p := .table) rfl fun s hs hpath => ?_
  obtain ⟨t, ht, htmp, -⟩ := hd.writing
  cases hs.symm.trans ht
  cases hpath.symm.trans htmp

/-- The next operation on the temporary file. -/
theorem held_draft {o : FileOp Path} {k : FileOp.Res o → Prog (stdio Path) α} (ho : WorksOn h o)
    {r : FileOp.Res o} {sofar' pending' : Bytes} (hd : DraftOn h old sofar pending fs)
    (hstep : ∃ fs', fs.ok o = (r, fs') ∧ fs'.Writing h .tableTmp pending' ∧
      fs'.disk .table = fs.disk .table ∧ fs'.disk .tableTmp = some sofar')
    (hk : ∀ fs', DraftOn h old sofar' pending' fs' →
      Safe (lockedEnv cfg.clientId) (decent cfg allowed) Q (k r) (fs', true)) :
    Safe (lockedEnv cfg.clientId) (decent cfg allowed) Q (.call o k) (fs, true) := by
  obtain ⟨fs', hok, hwriting, htable, htemporary⟩ := hstep
  have hm : fs.may o r fs' := .inl hok.symm
  have hclear : ClearBut fs' h :=
    hd.clear.stream fun k hk => ho.streams_ne hm hk
  have hd' : DraftOn h old sofar' pending' fs' :=
    ⟨hclear, hwriting, htable.trans hd.table, htemporary⟩
  have hkeeps : heldAfter o true = true ∧ ¬ takesLock o := by
    cases ho with
    | fgets size | fputs text | fflush | fsync => exact ⟨rfl, nofun⟩
  refine held_call hkeeps.2 ?_ ?_
  · rw [hok]
    exact decent_of_same hkeeps.1 htable hd'.idle
  · rw [hok, hkeeps.1]
    exact hk fs' hd'

theorem putLines_decent (lines : List Bytes) (hd : DraftOn h old sofar pending fs) :
    Safe (lockedEnv cfg.clientId) (decent cfg allowed)
      (fun r x => r = true ∧ x.2 = true ∧ DraftOn h old sofar (pending ++ lines.flatten) x.1)
      (putLines h lines) (fs, true) := by
  induction lines generalizing fs pending with
  | nil =>
      refine held_ret ⟨rfl, rfl, ?_⟩
      rw [List.flatten_nil, List.append_nil]
      exact hd
  | cons line lines ih =>
      obtain ⟨fs', hok, hwriting, hdisk⟩ := hd.writing.fputs line
      refine held_draft (.fputs line) hd ⟨fs', hok, hwriting, congrFun hdisk _,
        (congrFun hdisk _).trans hd.temporary⟩ fun fs' hd' => (ih hd').post fun r x hx => ?_
      rw [List.flatten_cons, ← List.append_assoc]
      exact hx

/-- The temporary file takes the table's place. -/
theorem replaceTable_decent {lines : List Bytes} (hc : Clear fs)
    (hadvance : Advance cfg allowed (fs.disk .table) (some lines.flatten)) :
    Safe (lockedEnv cfg.clientId) (decent cfg allowed)
      (fun r x => r = true ∧ x.2 = true ∧ Clear x.1 ∧ x.1.disk .table = some lines.flatten)
      (replaceTable lines) (fs, true) := by
  have hne : Path.table ≠ .tableTmp := nofun
  unfold replaceTable
  simp only [Prog.call_bind, Prog.ret_bind]
  obtain ⟨fs₁, hopen, hw₁, hd₁⟩ := fopen_writing fs Path.tableTmp
  have hm : fs.may (.fopen .tableTmp .w) (some fs.fresh) fs₁ := .inl hopen.symm
  obtain ⟨⟨⟩, -⟩ | ⟨h, hh, hone⟩ := hc.fopen hm
  obtain rfl : fs.fresh = h := Option.some.inj hh
  have hdraft : DraftOn fs.fresh (fs.disk .table) [] [] fs₁ := by
    refine ⟨hone, hw₁, ?_, ?_⟩
    · rw [hd₁, Function.update_of_ne hne]
    · rw [hd₁, Function.update_self]
  refine held_call nofun ?_ ?_
  · rw [hopen]
    exact decent_of_same rfl hdraft.table hdraft.idle
  rw [hopen]
  generalize hold : fs.disk .table = old at hdraft hadvance
  refine safe_bind.mpr ((putLines_decent lines hdraft).post ?_)
  rintro _ ⟨fs₂, b⟩ ⟨rfl, hb, hd₂⟩
  obtain rfl : b = true := hb
  simp only [if_true]
  -- everything reaches the file
  obtain ⟨fs₃, hflush, hw₃, hd₃⟩ := hd₂.writing.fflush
  have htable₃ : fs₃.disk .table = fs₂.disk .table := by
    rw [hd₃]
    exact Function.update_of_ne hne ..
  have htemporary₃ : fs₃.disk .tableTmp = some lines.flatten := by
    rw [hd₃, Function.update_self, hd₂.temporary]
    rfl
  refine @held_draft cfg allowed fs₂ _ _ _ _ _ _ _ _ .fflush _ _ _ hd₂
    ⟨fs₃, hflush, hw₃, htable₃, htemporary₃⟩ fun fs₄ hd₄ => ?_
  refine @held_draft cfg allowed fs₄ _ _ _ _ _ _ _ _ .fsync _ _ _ hd₄
    ⟨fs₄, hd₄.writing.fsync, hd₄.writing, rfl, hd₄.temporary⟩ fun fs₅ hd₅ => ?_
  -- the stream is closed
  obtain ⟨fs₆, hclose, hd₆⟩ := hd₅.writing.fclose
  have hm₆ : fs₅.may (.fclose fs.fresh) true fs₆ := .inl hclose.symm
  obtain ⟨m, hfs₆, -⟩ := may_fclose hm₆
  obtain ⟨hgone, hsame⟩ := @closed_streams Path _ fs₅ fs.fresh m
  have hc₆ : Clear fs₆ := hfs₆ ▸ hd₅.clear.closed hsame hgone
  refine held_call nofun ?_ ?_
  · rw [hclose]
    exact decent_of_same rfl (congrFun hd₆ _) hc₆.table
  rw [hclose]
  -- and renamed
  have htemporary : fs₆.disk .tableTmp = some lines.flatten := by
    rw [hd₆, hd₅.temporary]
  obtain ⟨fs₇, hrename, hd₇⟩ := ok_rename htemporary Path.table
  have hc₇ : Clear fs₇ := hc₆.rename (a := .tableTmp) rfl (.inl hrename.symm)
  have htable : fs₇.disk .table = some lines.flatten := by
    rw [hd₇, Function.update_self]
  simp only [Bool.and_self, if_true]
  refine held_call nofun ?_ ?_
  · rw [hrename]
    refine ⟨.inr ⟨rfl, ?_⟩, nofun, hc₇.table, nofun⟩
    rw [htable, hd₆, hd₅.table]
    exact hadvance
  · rw [hrename]
    simp only [if_true]
    exact held_ret ⟨rfl, rfl, hc₇, htable⟩

/-- **Under the lock a version is recorded, or nothing happens.** -/
theorem writeVersionFile_decent (hid : RowId cfg.clientId) {v : VersionText} {current : Bytes}
    (hallowed : allowed v.text) (hup : NotAbove current v.text) (hx : Calm (fs, false))
    (hrecorded : readVersion cfg.clientId (fs.disk .table) = some current) :
    Safe (lockedEnv cfg.clientId) (decent cfg allowed)
      (fun r x => Calm x ∧ (r = false → readVersion cfg.clientId (x.1.disk .table) = some current))
      (writeVersionFile cfg v.text) (fs, false) := by
  have hend : ∀ {fs : FileSystem Path} {r : Bool}, Calm (fs, false) →
      (r = false → readVersion cfg.clientId (fs.disk .table) = some current) →
      Safe (lockedEnv cfg.clientId) (decent cfg allowed) (fun r x => Calm x ∧
        (r = false → readVersion cfg.clientId (x.1.disk .table) = some current)) (.ret r)
        (fs, false) :=
    fun hx hr _ hd => ⟨hx.drift hd, fun hf => hd.2.recorded.trans (hr hf)⟩
  unfold writeVersionFile
  split
  · exact hend hx fun _ => hrecorded
  simp only [Prog.call_bind, Prog.ret_bind]
  refine calm_lock hx fun fs₁ ha hx₁ => ?_
  have hrecorded₁ := ha.recorded.trans hrecorded
  refine safe_bind.mpr ((readTable_decent v.text hx₁.clear).post ?_)
  rintro t ⟨fs₂, b⟩ ⟨hb, hc₂, hd₂, hgot⟩
  obtain rfl : b = true := hb
  have htable : fs₂.disk .table = fs₁.disk .table := congrFun hd₂ _
  have hx₂ : Calm (fs₂, false) := ⟨rfl, htable ▸ hx₁.orderly, hc₂⟩
  have hrecorded₂ : readVersion cfg.clientId (fs₂.disk .table) = some current := htable ▸ hrecorded₁
  cases t with
  | none => exact held_unlock hc₂ (hend hx₂ fun _ => hrecorded₂)
  | some t =>
      obtain ⟨es, hes, heq⟩ := Option.map_eq_some_iff.mp hgot.symm
      obtain ⟨hlines, hupdated⟩ := Prod.mk.inj heq
      have hlen : t.lines.length = es.length := by rw [← hlines, List.length_map]
      have hput : ∀ lines : List Bytes, writtenTable cfg v.text (fs₁.disk .table) =
          some lines.flatten → Safe (lockedEnv cfg.clientId) (decent cfg allowed)
            (fun r x => Calm x ∧
              (r = false → readVersion cfg.clientId (x.1.disk .table) = some current))
            (replaceTable lines >>= fun rc => .call (.unlock 0) fun _ => .ret rc) (fs₂, true) := by
        intro lines hwritten
        have hadvance : Advance cfg allowed (fs₂.disk .table) (some lines.flatten) :=
          ⟨v, current, _, hallowed, hrecorded₂, hup, htable ▸ hwritten, rfl⟩
        refine safe_bind.mpr ((replaceTable_decent hc₂ hadvance).post ?_)
        rintro _ ⟨fs₃, b⟩ ⟨rfl, hb, hc₃, hd₃⟩
        obtain rfl : b = true := hb
        refine held_unlock hc₃ (hend ⟨rfl, ?_, hc₃⟩ nofun)
        show Orderly (fs₃.disk .table)
        rw [hd₃]
        exact (hx₁.orderly.written hid v hwritten).1
      dsimp only
      by_cases hmem : cfg.clientId ∈ tableIds es
      · rw [if_pos (by simpa [← hupdated] using hmem)]
        refine hput _ ?_
        simp [writtenTable, hes, writtenLines, hmem, hlines]
      · rw [if_neg (by simpa [← hupdated] using hmem)]
        by_cases hfull : t.lines.length ≥ 512
        · rw [if_pos hfull]
          exact held_unlock hc₂ (hend hx₂ fun _ => hrecorded₂)
        · rw [if_neg hfull]
          refine hput _ ?_
          simp [writtenTable, hes, writtenLines, hmem, hlen ▸ hfull, hlines]

end Locked

end UpdateFramework
