import UpdateFramework.System.Download

/-!
# System — a client that resumes where it was

From the digest to the version table, and around it: `checkForUpdate` is faithful from every state in
which its partial file holds a beginning of the package and nothing is pending
(`checkForUpdate_faithful`).
-/

namespace UpdateFramework.System

open Libc Process Client FileSystem
open Server (requestedOffset)

section Client

variable {cfg : ServerConfig} {m : Manifest} {path content : Bytes} {reliable : Prop}
  {ccfg : ClientConfig} {w w' : ClientWorld} {α : Type} {fp : Handle} {offset written got : ℕ}

/-! ### The digest -/

/-- The part of the package before what `fp` has left to read has been hashed. -/
structure Hashed (v content : Bytes) (fp : Handle) (ctx : Sha256Ctx) (fs : FileSystem Path) :
    Prop where
  idle : fs.Idle (.part v)
  disk : fs.disk (.part v) = some content
  stream : ∃ done rest, content = done ++ rest ∧ ctx = sha256Update sha256Init done ∧
    fs.Reading fp rest

/-- What the digest is computed from. -/
structure Digested (v content : Bytes) (reliable : Prop) (r : Option Sha256Ctx)
    (fs : FileSystem Path) : Prop where
  idle : fs.Idle (.part v)
  disk : fs.disk (.part v) = some content
  whole : ∀ ctx, r = some ctx → ctx = sha256Update sha256Init content
  found : reliable → r ≠ none

theorem Hashed.drift {v : Bytes} {ctx : Sha256Ctx} {fs fs' : FileSystem Path}
    (h : Hashed v content fp ctx fs) (hd : OnlyShared fs fs') : Hashed v content fp ctx fs' := by
  have hsame := sameAt_of_onlyShared (p := .part v) hd rfl
  refine ⟨hsame.idle h.idle, hsame.disk.trans h.disk, ?_⟩
  obtain ⟨done, rest, hsum, hctx, s, hs, hr⟩ := h.stream
  exact ⟨done, rest, hsum, hctx, s, hd.streams ▸ hs, hr⟩

theorem Digested.drift {v : Bytes} {r : Option Sha256Ctx} {fs fs' : FileSystem Path}
    (h : Digested v content reliable r fs) (hd : OnlyShared fs fs') :
    Digested v content reliable r fs' := by
  have hsame := sameAt_of_onlyShared (p := .part v) hd rfl
  exact ⟨hsame.idle h.idle, hsame.disk.trans h.disk, h.whole, h.found⟩

/-- An operation that only reads, on the partial file or another. -/
theorem careful_looks {v : Bytes} {fs : FileSystem Path} (hi : fs.Idle (.part v))
    (hd : fs.disk (.part v) = some content) {o : FileOp Path} (ho : Looks o) :
    Careful v content reliable fs o ∧ ∀ r fs', fs.may o r fs' →
      fs'.Idle (.part v) ∧ fs'.disk (.part v) = some content := by
  have hno := hi.looks ho
  refine ⟨careful_of_untouched hi (by rw [hd]; exact List.prefix_refl _) hno, fun r fs' hm => ?_⟩
  exact ⟨hi.untouched hm hno, (may_disk hm hno).trans hd⟩

theorem sha256FileRound_hashes {v : Bytes} {ctx : Sha256Ctx} {fs : FileSystem Path}
    (h : Hashed v content fp ctx fs) :
    Safe (fileEnv (readerRules reliable)) (Careful v content reliable)
      (fun r fs' => r.elim (fun ctx => Hashed v content fp ctx fs')
        fun r => Digested v content reliable r fs') (sha256FileRound fp ctx) fs := by
  unfold sha256FileRound
  simp only [Prog.call_bind, Prog.ret_bind]
  intro fs₁ hd
  obtain ⟨hi, hdisk, done, rest, hsum, rfl, hr⟩ := h.drift hd
  obtain ⟨hcareful, hkeep⟩ := @careful_looks content reliable v fs₁ hi hdisk (.fread fp 65536) trivial
  refine ⟨hcareful, ?_⟩
  rintro ⟨buf, ferror⟩ fs₂ ⟨hm, hok⟩
  obtain ⟨hi₂, hdisk₂⟩ := hkeep _ _ hm
  obtain ⟨hbuf, hall, hleft, -⟩ := hr.may_fread hm
  dsimp only at hbuf hall hleft
  by_cases hlast : buf.length < 65536
  · simp only [if_pos hlast]
    refine fun fs₃ hd₃ => Digested.drift ⟨hi₂, hdisk₂, fun ctx hctx => ?_, fun hrel => ?_⟩ hd₃
    · cases ferror with
      | true => cases hctx
      | false =>
          cases hctx
          have hbuf := hall rfl
          have hrest : rest.take 65536 = rest := by
            refine List.take_of_length_le ?_
            rw [hbuf, List.length_take] at hlast
            omega
          rw [← sha256Update_append, hbuf, hrest, ← hsum]
    · obtain ⟨fs₂', hread, -⟩ := hr.fread 65536
      obtain ⟨hr', -⟩ := Prod.mk.inj ((hok hrel trivial).trans hread)
      have hno : ferror = false := congrArg Prod.snd hr'
      rw [hno]
      exact nofun
  · simp only [if_neg hlast]
    refine fun fs₃ hd₃ => Hashed.drift ⟨hi₂, hdisk₂, done ++ buf, rest.drop buf.length, ?_, ?_, hleft⟩
      hd₃
    · have hparts : buf ++ rest.drop buf.length = rest := calc
        buf ++ rest.drop buf.length = rest.take buf.length ++ rest.drop buf.length := by rw [← hbuf]
        _ = rest := List.take_append_drop ..
      rw [List.append_assoc, hparts, hsum]
    · rw [sha256Update_append]

/-- The digest of the partial file, where it is the package. -/
theorem sha256FileHex_faithful (bound : ℕ) (h : Whole cfg m content w) :
    Faithful cfg m content reliable (fun r w' => Whole cfg m content w' ∧
        (∀ hex, r = some hex → hex = hexText (Fips180.sha256 content)) ∧ (reliable → r ≠ none))
      (file (sha256FileHex bound (.part m.latestVersion))) w := by
  have hsafe : Safe (fileEnv (readerRules reliable)) (Careful m.latestVersion content reliable)
      (fun r fs => (fs.Idle (.part m.latestVersion) ∧ fs.disk (.part m.latestVersion) = some content) ∧
        (∀ hex, r = some hex → hex = hexText (Fips180.sha256 content)) ∧ (reliable → r ≠ none))
      (sha256FileHex bound (.part m.latestVersion)) w.fs := by
    obtain ⟨⟨-, hi, -⟩, hdisk⟩ := h
    unfold sha256FileHex
    simp only [Prog.call_bind, Prog.ret_bind]
    intro fs₁ hd
    have hsame := sameAt_of_onlyShared (p := .part m.latestVersion) hd rfl
    have hdisk₁ := hsame.disk.trans hdisk
    obtain ⟨hcareful, hkeep⟩ := @careful_looks content reliable _ fs₁ (hsame.idle hi) hdisk₁
      (.fopen (.part m.latestVersion) .r) rfl
    refine ⟨hcareful, ?_⟩
    rintro fp fs₂ ⟨hm, hok⟩
    obtain ⟨hi₂, hdisk₂⟩ := hkeep _ _ hm
    cases fp with
    | none =>
        refine fun fs₃ hd₃ => ?_
        have hsame₃ := sameAt_of_onlyShared (p := .part m.latestVersion) hd₃ rfl
        refine ⟨⟨hsame₃.idle hi₂, hsame₃.disk.trans hdisk₂⟩, nofun, fun hrel => ?_⟩
        obtain ⟨fs₂', hopen, -⟩ := fopen_reading hdisk₁
        cases (Prod.mk.inj ((hok hrel rfl).trans hopen)).1
    | some fp =>
        obtain ⟨hr, -⟩ := may_fopen_reading hdisk₁ hm
        have hstart : Hashed m.latestVersion content fp sha256Init fs₂ :=
          ⟨hi₂, hdisk₂, [], content, rfl, rfl, hr⟩
        refine safe_bind.mpr (Safe.post (Q := Digested m.latestVersion content reliable) (safe_loop _
          trivial (Hashed m.latestVersion content fp) (fun ctx fs h => ?_) bound hstart)
          fun ctx fs₃ h => ?_)
        · refine (sha256FileRound_hashes h).post fun r fs' h => ?_
          cases r with
          | inl ctx => exact h
          | inr ctx => exact fun fs'' hd' => h.drift hd'
        · intro fs₄ hd₄
          obtain ⟨hi₄, hdisk₄, hwhole, hfound⟩ := h.drift hd₄
          obtain ⟨hcareful, hkeep⟩ := @careful_looks content reliable _ fs₄ hi₄ hdisk₄
            (.fclose fp) trivial
          refine ⟨hcareful, fun _ fs₅ hm₅ fs₆ hd₆ => ?_⟩
          obtain ⟨hi₅, hdisk₅⟩ := hkeep _ _ hm₅.1
          have hsame₆ := sameAt_of_onlyShared (p := .part m.latestVersion) hd₆ rfl
          refine ⟨⟨hsame₆.idle hi₅, hsame₆.disk.trans hdisk₅⟩, fun hex hhex => ?_, fun hrel => ?_⟩
          · obtain ⟨ctx, hctx, rfl⟩ := Option.map_eq_some_iff.mp hhex
            rw [hwhole ctx hctx, sha256_digest, bytesToHex_hexText]
          · exact fun hnone => hfound hrel (Option.map_eq_none_iff.mp hnone)
  refine (faithful_file h.1.heard hsafe).post ?_
  rintro r w' ⟨⟨⟨hi, hd⟩, hr⟩, hheard, -, -⟩
  exact ⟨⟨⟨hheard, hi, by rw [hd]; exact List.prefix_refl _⟩, hd⟩, hr⟩

/-! ### Installing -/

/-- The partial file is given up. -/
theorem faithful_discard (hrel : ¬ reliable) (h : Resting cfg m content w) {k : Bool → ClientProg α}
    {Q : α → ClientWorld → Prop}
    (hk : ∀ r w', Resting cfg m content w' → Faithful cfg m content reliable Q (k r) w') :
    Faithful cfg m content reliable Q (.call (.file (.unlink (.part m.latestVersion))) k) w := by
  -- whether it is gone or not, nothing is pending towards it
  have hgone : ∀ {fs fs' : FileSystem Path} {r : Bool}, fs.Idle (.part m.latestVersion) →
      (fs.disk (.part m.latestVersion)).getD [] <+: content →
      fs.may (.unlink (.part m.latestVersion)) r fs' →
      fs'.Idle (.part m.latestVersion) ∧ (fs'.disk (.part m.latestVersion)).getD [] <+: content := by
    intro fs fs' r hi hd hm
    rcases may_unlink hm with rfl | ⟨-, rfl⟩
    · exact ⟨hi, hd⟩
    · refine ⟨fun j s hs hp => ?_, ?_⟩
      · obtain ⟨t, ht, rfl⟩ := Option.map_eq_some_iff.mp hs
        dsimp only at hp
        split at hp
        · cases hp
        · exact hi j t ht hp
      · have hnone : (fs.unlinked (.part m.latestVersion)).disk (.part m.latestVersion) = none :=
          Function.update_self ..
        rw [hnone]
        exact List.nil_prefix
  refine faithful_fileOp stays_resting h (fun w h => ⟨fun r fs' hm => ?_, fun h => absurd h hrel,
    nofun⟩) fun w r fs h hm _ => ?_
  · obtain ⟨hi, hd⟩ := hgone h.idle h.disk hm
    exact hi.kept hd
  · obtain ⟨hi, hd⟩ := hgone h.idle h.disk hm
    exact hk r _ ⟨h.heard, hi, hd⟩

/-- The partial file becomes the final one. -/
theorem faithful_rename (h : Whole cfg m content w) {k : Bool → ClientProg α}
    {Q : α → ClientWorld → Prop}
    (hk : ∀ r w', Resting cfg m content w' →
      (r = true → w'.fs.disk (.final m.latestVersion) = some content) →
      Faithful cfg m content reliable Q (k r) w') :
    Faithful cfg m content reliable Q
      (.call (.file (.rename (.part m.latestVersion) (.final m.latestVersion))) k) w := by
  have hmoved : ∀ {fs fs' : FileSystem Path} {r : Bool}, fs.Idle (.part m.latestVersion) →
      (fs.disk (.part m.latestVersion)).getD [] <+: content →
      fs.may (.rename (.part m.latestVersion) (.final m.latestVersion)) r fs' →
      fs'.Idle (.part m.latestVersion) ∧ (fs'.disk (.part m.latestVersion)).getD [] <+: content := by
    intro fs fs' r hi hd hm
    rcases may_rename hm with ⟨-, rfl⟩ | ⟨-, -, rfl⟩
    · exact ⟨hi, hd⟩
    · refine ⟨fun j s hs hp => ?_, ?_⟩
      · obtain ⟨t, ht, rfl⟩ := Option.map_eq_some_iff.mp hs
        dsimp only [newName] at hp
        split at hp
        · cases hp
        · split at hp
          · cases hp
          · exact hi j t ht hp
      · have hnone : (fs.renamed (.part m.latestVersion) (.final m.latestVersion)).disk
            (.part m.latestVersion) = none := by
          simp [renamed, FileSystem.set]
        rw [hnone]
        exact List.nil_prefix
  refine faithful_fileOp stays_whole h (fun w h => ⟨fun r fs' hm => ?_, fun _ hno => absurd rfl
    (hno _), ?_⟩) fun w r fs h hm _ => ?_
  · obtain ⟨hi, hd⟩ := hmoved h.1.idle h.1.disk hm
    exact hi.kept hd
  · rintro q ⟨⟩
    exact ⟨rfl, h.2⟩
  · obtain ⟨hi, hd⟩ := hmoved h.1.idle h.1.disk hm
    refine hk r _ ⟨h.1.heard, hi, hd⟩ ?_
    rintro rfl
    rcases may_rename hm with ⟨hno, -⟩ | ⟨-, -, rfl⟩
    · cases hno
    · exact (Function.update_self ..).trans h.2

/-- `fclose(fp)` once everything is written and flushed. -/
theorem faithful_fclose_whole {k : Bool → ClientProg α} {Q : α → ClientWorld → Prop}
    (h : Flushed cfg m content fp offset content.length w)
    (hk : ∀ r w', Whole cfg m content w' → Faithful cfg m content reliable Q (k r) w') :
    Faithful cfg m content reliable Q (.call (.file (.fclose fp)) k) w := by
  refine faithful_fileOp stays_flushed h (fun w h => h.1.careful_stream.2) fun w r fs h hm _ => ?_
  have hwhole : w.fs.disk (.part m.latestVersion) = some content := by
    rw [h.1.appending.whole h.2, List.take_length]
  obtain ⟨-, hkeep⟩ := @careful_looks content True _ w.fs h.2 hwhole (.fclose fp) trivial
  obtain ⟨hi, hd⟩ := hkeep r fs hm
  exact hk r _ ⟨⟨h.1.heard, hi, by rw [hd]; exact List.prefix_refl _⟩, hd⟩

theorem rests_ret {a : α} (h : Resting cfg m content w) :
    Faithful cfg m content reliable (fun _ => Resting cfg m content) (.ret a) w :=
  faithful_ret stays_resting h fun _ h => h

/-- After the rename: the result, the version table and the resume file. -/
theorem recordUpdate_faithful (h : Resting cfg m content w) :
    Faithful cfg m content reliable (fun _ => Resting cfg m content) (do
      if ¬ (← file (writeVersionFile ccfg m.latestVersion)) then .ret .fatal
      else if ¬ (Path.resume m.latestVersion).fits ccfg then .ret .fatal
      else
        let _ ← file (unlink (.resume m.latestVersion))
        setResumeRetryActive false
        .ret .success : ClientProg AttemptResult) w := by
  refine safe_bind.mpr ((faithful_apart stays_resting (writeVersionFile_apart _) h).post
    fun _ w h => ?_)
  split
  · exact rests_ret h
  · split
    · exact rests_ret h
    · refine faithful_spared stays_resting h (o := .unlink (.resume m.latestVersion))
        (fun _ => nofun) fun _ w h => ?_
      exact faithful_aside stays_resting h (by trivial) fun _ w h => rests_ret h

/-- The package has the digest, so what does not match has not been read. -/
theorem judgeUpdate_faithful (hoffered : Offered cfg m path content) {d : Download}
    (hd : DownloadOf m content d) {actual : Option Bytes} (h : Whole cfg m content w)
    (hhex : ∀ hex, actual = some hex → hex = hexText (Fips180.sha256 content))
    (hfound : reliable → actual ≠ none) :
    Faithful cfg m content reliable (fun _ => Resting cfg m content) (judgeUpdate ccfg d actual)
      w := by
  unfold judgeUpdate
  simp only [Prog.call_bind, Prog.ret_bind, file_call, file_ret, hd.latest, hd.sha]
  cases actual with
  | none =>
      have hrel : ¬ reliable := fun hrel => hfound hrel rfl
      simp only [Option.any_none, Bool.false_eq_true, not_false_eq_true, if_true]
      refine faithful_call stays_resting h.1 fun w h =>
        ⟨⟨nofun, fun h => absurd h hrel, fun hf => absurd hf (by decide)⟩, ?_⟩
      intro r w' hm
      have h' := stays_resting.aside h (aside_of_send (f := checksumFail) nofun hm) hm.2
      exact faithful_discard hrel h' fun _ _ h => rests_ret h
  | some hex =>
      cases hhex hex rfl
      simp only [Option.any_some, hoffered.checksum, not_true_eq_false, if_false]
      refine faithful_rename h fun renamed w h hfinal => ?_
      cases renamed with
      | false => exact rests_ret h
      | true =>
          intro w₁ hd₁
          have h₁ := stays_resting.drift h hd₁
          have hfinal₁ : w₁.fs.disk (.final m.latestVersion) = some content := by
            obtain ⟨⟨fs, wire, hfs, -, rfl⟩, -⟩ := hd₁
            exact (hfs.disk _ rfl).trans (hfinal rfl)
          refine ⟨⟨nofun, fun _ => by decide, fun _ => hfinal₁⟩, fun r w₂ hm => ?_⟩
          have h₂ := stays_resting.aside h₁ (aside_of_send (f := statusOk) nofun hm) hm.2
          exact faithful_recvControl listens_resting h₂ (fun _ h => recordUpdate_faithful h)
            fun _ _ h _ => recordUpdate_faithful h

theorem installUpdate_faithful (hoffered : Offered cfg m path content) (bound : ℕ) {d : Download}
    (hd : DownloadOf m content d)
    (h : Loading cfg m content d.fp offset content.length content.length w) :
    Faithful cfg m content reliable (fun _ => Resting cfg m content) (installUpdate bound ccfg d)
      w := by
  have hdigest : ∀ {w}, Whole cfg m content w → Faithful cfg m content reliable
      (fun _ => Resting cfg m content)
      (file (sha256FileHex bound (.part d.latest)) >>= judgeUpdate ccfg d) w := by
    intro w h
    rw [hd.latest]
    refine safe_bind.mpr ((sha256FileHex_faithful bound h).post ?_)
    rintro actual w ⟨h, hhex, hfound⟩
    exact judgeUpdate_faithful hoffered hd h hhex hfound
  unfold installUpdate
  simp only [Prog.call_bind, Prog.ret_bind, file_call, file_ret]
  refine faithful_aside stays_loading h (by trivial) fun _ w h => ?_
  refine faithful_fflush h fun flushed w h => ?_
  cases flushed with
  | false => exact faithful_fclose h.1 fun _ _ h => rests_ret h
  | true =>
      refine faithful_spared stays_flushed h (o := .fsync _) (fun _ => trivial) fun synced w h => ?_
      cases synced with
      | false => exact faithful_fclose h.1 fun _ _ h => rests_ret h
      | true => exact faithful_fclose_whole h fun _ _ h => hdigest h

/-! ### Asking for the rest -/

/-- The offset the client goes on from. -/
def GoesOnFrom (m : Manifest) (reliable : Prop) (offset : ℕ) (fs : FileSystem Path) : Prop :=
  (offset = 0 ∨ offset = ((fs.disk (.part m.latestVersion)).getD []).length) ∧
    (reliable → offset = ((fs.disk (.part m.latestVersion)).getD []).length)

theorem GoesOnFrom.same {fs fs' : FileSystem Path} (h : GoesOnFrom m reliable offset fs)
    (hd : SameAt (.part m.latestVersion) fs fs') : GoesOnFrom m reliable offset fs' := by
  rw [GoesOnFrom, hd.disk]
  exact h

/-- The request for what comes after `offset`. -/
abbrev requestFrame (offset : ℕ) : Frame :=
  fieldFrame .downloadReq (ascii "offset=" ++ decimal offset)

theorem requestedOffset_request (hoffset : offset ≤ content.length)
    (hsmall : content.length < 2 ^ 63) :
    requestedOffset m (requestFrame offset).payload = offset := by
  have hkey : 61 ∉ ascii "offset" ∧ 59 ∉ ascii "offset" ∧ 0 ∉ ascii "offset" := by decide
  exact kvGetU64_fieldFrame hkey (by decide) ((hoffset.trans_lt hsmall).trans (by decide)) _

/-- What was heard before anything was asked for has no part of the package. -/
theorem Unasked.nothing (h : Unasked cfg m content w) :
    ∀ f ∈ w.wire.ins, f.type ≠ .data := by
  intro f hf
  rcases h.heard.stream with hnone | ⟨r, hr, htype, -⟩
  · exact (hnone f (List.mem_append_left _ hf)).1
  · exact absurd htype (h.unasked r hr)

/-- The package has been asked for from `offset` on, and nothing else has changed. -/
structure Requested (cfg : ServerConfig) (m : Manifest) (content : Bytes) (reliable : Prop)
    (offset : ℕ) (w : ClientWorld) : Prop where
  resting : Resting cfg m content w
  asked : Asked cfg m content offset offset w
  goesOn : GoesOnFrom m reliable offset w.fs

theorem stays_requested : Stays cfg m content (Requested cfg m content reliable offset) where
  kept h := stays_resting.kept h.resting
  aside h ha hh :=
    ⟨stays_resting.aside h.resting ha hh, h.asked.aside ha hh, h.goesOn.same ha.files⟩

/-- `fopen(part_path, offset > 0 ? "ab" : "wb")` -/
def partMode (offset : ℕ) : Mode := if offset > 0 then .a else .w

/-- What the stream begins with is what there is up to the offset. -/
theorem Requested.opening (h : Requested cfg m content reliable offset w) :
    w.fs.opening (.part m.latestVersion) (partMode offset) = content.take offset := by
  unfold partMode
  split
  next hpos =>
    rcases h.goesOn.1 with rfl | rfl
    · exact absurd hpos (Nat.lt_irrefl 0)
    · exact List.prefix_iff_eq_take.mp h.resting.disk
  next hpos =>
    rw [Nat.eq_zero_of_not_pos hpos]
    rfl

theorem Requested.fopen (h : Requested cfg m content reliable offset w) {r : Option Handle}
    {fs : FileSystem Path} (hm : w.fs.may (.fopen (.part m.latestVersion) (partMode offset)) r fs) :
    (r = none ∧ fs = w.fs) ∨
      ∃ fp, r = some fp ∧ Flushed cfg m content fp offset offset { w with fs := fs } := by
  have hmode : partMode offset ≠ .r := by
    unfold partMode
    split
    · nofun
    · nofun
  rcases h.resting.idle.fopen hmode hm with hnone | ⟨fp, hfp, happ, hi⟩
  · exact .inl hnone
  · rw [h.opening] at happ
    have hasked := h.asked
    exact .inr ⟨fp, hfp, ⟨⟨hasked.heard, hasked.asked, hasked.data, hasked.range⟩, happ⟩, hi⟩

theorem Requested.careful (h : Requested cfg m content reliable offset w) :
    Careful m.latestVersion content reliable w.fs
      (.fopen (.part m.latestVersion) (partMode offset)) where
  kept r fs hm := by
    rcases h.fopen hm with ⟨-, rfl⟩ | ⟨fp, -, hf⟩
    · exact h.resting.idle.kept h.resting.disk
    · exact (stays_flushed.kept hf).2
  grows hrel _ r fs hm := by
    by_cases hpos : offset > 0
    · have hmode : partMode offset = .a := if_pos hpos
      rw [hmode] at hm
      exact may_grows hm nofun nofun fun _ => ⟨nofun, nofun⟩
    · have hnone := (h.goesOn.2 hrel).symm.trans (Nat.eq_zero_of_not_pos hpos)
      rw [List.length_eq_zero_iff.mp hnone]
      exact List.nil_prefix
  installs := nofun

theorem downloadFrom_faithful (hoffered : Offered cfg m path content) (bound chunk : ℕ)
    (h : Unasked cfg m content w) (hfrom : GoesOnFrom m reliable offset w.fs) :
    Faithful cfg m content reliable (fun _ => Resting cfg m content)
      (downloadFrom bound ccfg m.latestVersion m.checksumSha256 content.length chunk offset) w := by
  have hoffset : offset ≤ content.length := by
    rcases hfrom.1 with rfl | rfl
    · exact Nat.zero_le _
    · exact h.disk.length_le
  have hreq := @requestedOffset_request m content offset hoffset hoffered.small
  have hJ : Stays cfg m content
      (fun w => Unasked cfg m content w ∧ GoesOnFrom m reliable offset w.fs) :=
    listens_unasked.toStays.files GoesOnFrom.same
  unfold downloadFrom
  simp only [Prog.call_bind, Prog.ret_bind, file_call, file_ret]
  refine faithful_call hJ ⟨h, hfrom⟩ fun w h =>
    ⟨⟨fun _ => ?_, fun _ hf => ?_, fun hf => ?_⟩, fun sent w' hm => ?_⟩
  · exact ⟨hreq.trans_le hoffset, fun hrel => hreq.trans (h.2.2 hrel)⟩
  · cases congrArg Frame.type hf
  · cases congrArg Frame.type hf
  obtain ⟨⟨wire, hs, rfl⟩, hheard⟩ := hm
  cases hs with
  | failed _ =>
      exact faithful_aside stays_resting h.1.toResting (by trivial) fun stop w h =>
        (@saveInterruptedDownload_faithful cfg m content reliable ccfg w 0 0 0 _ _ _ _ _).1 h
  | sent _ =>
      have hrequested : Requested cfg m content reliable offset
          { w with wire := w.wire.sent (requestFrame offset) } := by
        refine ⟨⟨hheard, h.1.idle, h.1.disk⟩, ⟨hheard, fun r hr htype => ?_, ?_, le_rfl, hoffset⟩, h.2⟩
        · rcases List.mem_append.mp hr with hr | hr
          · exact absurd htype (h.1.unasked r hr)
          · cases List.mem_singleton.mp hr
            exact hreq
        · rw [Nat.sub_self, List.take_zero]
          exact dataOf_eq_nil h.1.nothing
      simp only [not_true_eq_false, if_false]
      refine faithful_fileOp stays_requested hrequested (fun _ h => h.careful) fun w r fs h hm _ => ?_
      rcases h.fopen hm with ⟨rfl, rfl⟩ | ⟨fp, rfl, h⟩
      · exact rests_ret h.resting
      refine faithful_aside stays_flushed h (by trivial) fun allocated w h => ?_
      cases allocated with
      | false => exact faithful_fclose h.1 fun _ _ h => rests_ret h
      | true =>
          have hd : DownloadOf m content
              ⟨fp, m.latestVersion, m.checksumSha256, content.length, chunk⟩ := ⟨rfl, rfl, rfl⟩
          refine safe_bind.mpr (Safe.post
            (Q := fun rc w => AfterDownload cfg m content fp offset w (.inr rc)) (safe_loop _ trivial
              (fun got w => Loading cfg m content fp offset got got w) (fun got w h => ?_) bound h.1)
            fun rc w h => ?_)
          · refine (downloadRound_faithful hoffered hd h).post fun r w h => ?_
            cases r with
            | inl got => exact h
            | inr rc =>
                cases rc with
                | none => exact fun _ hd => stays_loading.drift h hd
                | some rc => exact fun _ hd => stays_resting.drift h hd
          · cases rc with
            | none => exact installUpdate_faithful hoffered bound hd h
            | some rc => exact rests_ret h

theorem receiveOffer_faithful (hoffered : Offered cfg m path content) (bound chunk : ℕ)
    (h : Unasked cfg m content w) :
    Faithful cfg m content reliable (fun _ => Resting cfg m content)
      (receiveOffer bound ccfg m.latestVersion m.checksumSha256 content.length chunk) w := by
  unfold receiveOffer
  split
  · exact rests_ret h.toResting
  split
  · exact rests_ret h.toResting
  unfold fileSizeOrZero
  simp only [Prog.call_bind, Prog.ret_bind, file_call, file_ret]
  refine faithful_fileOp listens_unasked.toStays h (fun w h => ?_) fun w size fs h hm hok => ?_
  · exact careful_of_untouched h.idle h.disk nofun
  obtain ⟨rfl, hsize⟩ := may_stat hm
  have hlen : ((w.fs.disk (.part m.latestVersion)).map List.length).getD 0 =
      ((w.fs.disk (.part m.latestVersion)).getD []).length := by
    cases w.fs.disk (.part m.latestVersion) with
    | none => rfl
    | some c => rfl
  have hfrom : GoesOnFrom m reliable (size.getD 0) w.fs := by
    refine ⟨?_, fun hrel => ?_⟩
    · rcases hsize with rfl | rfl
      · exact .inl rfl
      · exact .inr hlen
    · rw [show size = _ from congrArg Prod.fst (hok hrel trivial)]
      exact hlen
  have hfit : ¬ size.getD 0 > content.length := by
    rcases hfrom.1 with hzero | hpart
    · rw [hzero]
      exact Nat.not_lt_zero _
    · rw [hpart]
      exact Nat.not_lt.mpr h.disk.length_le
  rw [if_neg hfit]
  exact downloadFrom_faithful hoffered bound chunk h hfrom

/-! ### Attempts -/

theorem requestVersion_faithful (hoffered : Offered cfg m path content) (bound : ℕ)
    (current : Bytes) (fd : ℕ) (ssl : Bool) (h : Unasked cfg m content w) :
    Faithful cfg m content reliable (fun _ => Resting cfg m content)
      (requestVersion bound ccfg current fd ssl) w := by
  have hclose := closeAttemptConnection_internal fd ssl
  have hgiveUp : (closeWith fd ssl pausedOrRetry).Only internal :=
    closeWith_internal fd ssl pausedOrRetry_internal
  unfold requestVersion
  simp only [Prog.call_bind, Prog.ret_bind]
  refine faithful_aside listens_unasked.toStays h (by exact ⟨nofun, nofun⟩)
    fun sent w h => ?_
  cases sent with
  | false => exact rests_of_internal hgiveUp h.toResting
  | true =>
      refine faithful_recvControl listens_unasked h (fun w h => ?_) fun f w h hf => ?_
      · exact rests_of_internal hgiveUp h.toResting
      obtain ⟨type, flags, payload⟩ := f
      cases type with
      | uptodate =>
          have hrest : (do
              closeAttemptConnection fd ssl
              setResumeRetryActive false
              if ← interruptibleSleepMs 10000 then .ret .paused else .ret .success :
                ClientProg AttemptResult).Only internal :=
            hclose.bind fun _ => .call trivial fun _ => settledSleep_internal _ _
          exact faithful_recvControl listens_unasked h
            (fun _ h => rests_of_internal hrest h.toResting)
            fun _ _ h _ => rests_of_internal hrest h.toResting
      | updateAvailable =>
          have hoffer := h.heard.offers _ (List.mem_append_left _ hf) rfl
          obtain ⟨hframe, -, -, hreceive⟩ := offerArrives cfg hoffered.advertisable
            hoffered.latestVersion
          have hpayload : payload = Server.updateMeta cfg m := by
            have hwhole := (updateMeta_eq cfg hoffered.advertisable).1
            rw [hwhole]
            exact congrArg Frame.payload (hoffer.trans hframe)
          simp only [hpayload, hreceive, hoffered.packageSize]
          refine safe_bind.mpr ((receiveOffer_faithful hoffered bound _ h).post fun rc w h => ?_)
          refine rests_of_internal (hclose.bind fun _ => ?_) h
          split
          · exact settledSleep_internal _ _
          · trivial
      | error =>
          exact rests_of_internal (refusal_internal ..) h.toResting
      | _ => exact rests_of_internal hgiveUp h.toResting

theorem converse_faithful (hoffered : Offered cfg m path content) (bound : ℕ) (current : Bytes)
    (fd : ℕ) (ssl : Bool) (h : Unasked cfg m content w) :
    Faithful cfg m content reliable (fun _ => Resting cfg m content)
      (converse bound ccfg current fd ssl) w := by
  have hgiveUp : (closeWith fd ssl pausedOrRetry).Only internal :=
    closeWith_internal fd ssl pausedOrRetry_internal
  unfold converse
  refine faithful_recvControl listens_unasked h (fun w h => ?_) fun f w h _ => ?_
  · exact rests_of_internal hgiveUp h.toResting
  obtain ⟨type, flags, payload⟩ := f
  cases type with
  | hello =>
      simp only [Prog.call_bind, Prog.ret_bind]
      refine faithful_aside listens_unasked.toStays h (by exact ⟨nofun, nofun⟩)
        fun sent w h => ?_
      cases sent with
      | false => exact rests_of_internal hgiveUp h.toResting
      | true =>
          refine faithful_recvControl listens_unasked h (fun w h => ?_) fun f w h _ => ?_
          · exact rests_of_internal hgiveUp h.toResting
          obtain ⟨type, flags, payload⟩ := f
          cases type with
          | authOk => exact requestVersion_faithful hoffered bound current fd ssl h
          | error =>
              exact rests_of_internal (refusal_internal ..) h.toResting
          | _ => exact rests_of_internal hgiveUp h.toResting
  | _ => exact rests_of_internal hgiveUp h.toResting

theorem runAttempt_faithful (hoffered : Offered cfg m path content) (bound : ℕ) (current : Bytes)
    (h : Resting cfg m content w) :
    Faithful cfg m content reliable (fun _ => Resting cfg m content) (runAttempt bound ccfg current)
      w := by
  unfold runAttempt
  simp only [Prog.call_bind, Prog.ret_bind]
  refine faithful_call stays_resting h fun w h => ⟨trivial, fun fd w' hm => ?_⟩
  obtain ⟨hm, hheard⟩ := hm
  cases fd with
  | none =>
      obtain ⟨-, rfl⟩ := hm
      exact rests_of_internal pausedOrRetry_internal h
  | some fd =>
      cases hm
      have h' : Unasked cfg m content { w with wire := {} } := ⟨⟨hheard, h.idle, h.disk⟩, nofun⟩
      refine faithful_aside listens_unasked.toStays h' (by trivial) fun _ w h => ?_
      refine faithful_aside listens_unasked.toStays h (by trivial) fun stop w h => ?_
      cases stop with
      | true => exact rests_of_internal (closeWith_internal fd false trivial) h.toResting
      | false =>
          simp only [Bool.false_eq_true, if_false]
          split
          · refine faithful_aside listens_unasked.toStays h (by trivial) fun tls w h => ?_
            cases tls with
            | true => exact converse_faithful hoffered bound current fd true h
            | false =>
                exact rests_of_internal (closeWith_internal fd false pausedOrRetry_internal) h.toResting
          · exact converse_faithful hoffered bound current fd false h

theorem attemptRound_faithful (hoffered : Offered cfg m path content) (bound : ℕ) (current : Bytes)
    (attempt : ℕ) (h : Resting cfg m content w) :
    Faithful cfg m content reliable (fun _ => Resting cfg m content)
      (attemptRound ccfg (runAttempt bound ccfg current) attempt) w := by
  unfold attemptRound
  split
  · exact rests_ret h
  simp only [Prog.call_bind, Prog.ret_bind]
  refine faithful_aside stays_resting h (by trivial) fun stop w h => ?_
  cases stop with
  | true => exact faithful_aside stays_resting h (by trivial) fun _ _ h => rests_ret h
  | false =>
      refine safe_bind.mpr ((runAttempt_faithful hoffered bound current h).post fun rc w h => ?_)
      refine rests_of_internal ?_ h
      cases rc with
      | success => trivial
      | paused => trivial
      | fatal => trivial
      | resumeReconnect =>
          dsimp only
          split
          · trivial
          · trivial
      | reconnect =>
          dsimp only
          split
          · exact retrySleep_internal _ _
          · trivial
      | retry =>
          dsimp only
          split
          · exact retrySleep_internal _ _
          · trivial

/-- **The client is faithful**: from every state in which its partial file holds a beginning of the
package and nothing is pending, whatever fails and wherever an attempt is cut. -/
theorem checkForUpdate_faithful (hoffered : Offered cfg m path content) (bound : ℕ)
    (h : Resting cfg m content w) :
    Faithful cfg m content reliable (fun _ => Resting cfg m content) (checkForUpdate bound ccfg)
      w := by
  unfold checkForUpdate
  refine safe_bind.mpr ((faithful_looks (getCurrentVersion_looks bound) h).post fun current w h => ?_)
  cases current with
  | none => exact rests_ret h
  | some current =>
      refine safe_loop _ trivial (fun _ => Resting cfg m content) (fun attempt w h => ?_) bound h
      refine (attemptRound_faithful hoffered bound current attempt h).post fun r w h => ?_
      cases r with
      | inl _ => exact h
      | inr _ => exact fun _ hd => stays_resting.drift h hd

end Client

end UpdateFramework.System
