import UpdateFramework.System.Partial

/-!
# System — a download that is cut

Every part of the client, from the connection to the version table, follows what `Partial` allows it.
-/

namespace UpdateFramework.System

open Libc Process Client FileSystem
open Server (requestedOffset)

/-! ### Parts that work on other files -/

section Parts

variable {ccfg : ClientConfig} {v : Bytes}

/-- What is written goes to a stream that is held. -/
theorem printLines_apart {p : Path} {h : Handle} {hs : List Handle} (hh : h ∈ hs)
    (lines : List Bytes) : Safe (Env.folding given) (fun hs => Shuns p hs) (fun _ hs' => hs' = hs)
      (printLines h lines) hs := by
  induction lines with
  | nil => exact safe_folding_ret.mpr rfl
  | cons line lines ih => exact safe_folding_call.mpr ⟨hh, fun _ => ih⟩

theorem writeResumeMetadata_apart {p : Path} {version : Bytes} (hp : p ≠ .resume version)
    (offset totalSize : ℕ) (sha256 : Bytes) :
    Apart p (writeResumeMetadata ccfg version offset totalSize sha256) [] := by
  unfold writeResumeMetadata
  split
  · exact safe_folding_ret.mpr trivial
  simp only [Prog.call_bind, Prog.ret_bind]
  refine safe_folding_call.mpr ⟨hp.symm, fun r => ?_⟩
  cases r with
  | none => exact safe_folding_ret.mpr trivial
  | some fp =>
      have hfp : fp ∈ [fp] := List.mem_singleton_self fp
      refine safe_bind.mpr ((printLines_apart hfp _).post fun _ hs hsame => ?_)
      subst hsame
      refine safe_folding_call.mpr ⟨hfp, fun _ => ?_⟩
      refine safe_folding_call.mpr ⟨trivial, fun _ => ?_⟩
      exact safe_folding_call.mpr ⟨hfp, fun _ => safe_folding_ret.mpr trivial⟩

theorem putLines_apart {h : Handle} {hs : List Handle} (hh : h ∈ hs) (lines : List Bytes) :
    Safe (Env.folding given) (fun hs => Shuns (Path.part v) hs) (fun _ hs' => hs' = hs)
      (putLines h lines) hs := by
  induction lines with
  | nil => exact safe_folding_ret.mpr rfl
  | cons line lines ih =>
      refine safe_folding_call.mpr ⟨hh, fun ok => ?_⟩
      cases ok with
      | true => exact ih
      | false => exact safe_folding_ret.mpr rfl

theorem readTable_apart (version : Bytes) (hs : List Handle) :
    Apart (.part v) (readTable ccfg version) hs := by
  unfold readTable
  simp only [Prog.call_bind, Prog.ret_bind]
  refine safe_folding_call.mpr ⟨nofun, fun r => ?_⟩
  cases r with
  | none => exact safe_folding_ret.mpr trivial
  | some fp =>
      have hround : ∀ t hs, fp ∈ hs → Safe (Env.folding given) (fun hs => Shuns (Path.part v) hs)
          (fun _ hs' => fp ∈ hs') (tableRound ccfg version fp t) hs := by
        intro t hs hfp
        unfold tableRound fgetsText
        split
        · exact safe_folding_ret.mpr hfp
        simp only [Prog.call_bind]
        refine safe_folding_call.mpr ⟨hfp, fun l => ?_⟩
        cases l with
        | none => exact safe_folding_ret.mpr hfp
        | some l =>
            simp only [Prog.ret_bind]
            split
            · exact safe_folding_ret.mpr hfp
            · exact safe_folding_ret.mpr hfp
            · split
              · exact safe_folding_ret.mpr hfp
              · exact safe_folding_ret.mpr hfp
      refine safe_bind.mpr (Safe.post (Q := fun _ hs' => fp ∈ hs') (safe_loop _ trivial
        (fun _ hs => fp ∈ hs) (fun t hs hfp => (hround t hs hfp).post fun r hs' hfp' => ?_) 513
        List.mem_cons_self) fun t hs' hfp => ?_)
      · cases r with
        | inl t => exact hfp'
        | inr t => exact fun _ hd => hd ▸ hfp'
      · exact safe_folding_call.mpr ⟨hfp, fun _ => safe_folding_ret.mpr trivial⟩

theorem replaceTable_apart (lines : List Bytes) (hs : List Handle) :
    Apart (.part v) (replaceTable lines) hs := by
  have hunlink : ∀ hs, Apart (.part v) (.call (.unlink .tableTmp) fun _ => .ret false :
      Prog (stdio Path) Bool) hs :=
    fun hs => safe_folding_call.mpr ⟨nofun, fun _ => safe_folding_ret.mpr trivial⟩
  unfold replaceTable
  simp only [Prog.call_bind, Prog.ret_bind]
  refine safe_folding_call.mpr ⟨nofun, fun r => ?_⟩
  cases r with
  | none => exact safe_folding_ret.mpr trivial
  | some fp =>
      have hfp : fp ∈ fp :: hs := List.mem_cons_self
      refine safe_bind.mpr ((putLines_apart hfp lines).post fun ok hs' hsame => ?_)
      subst hsame
      cases ok with
      | false => exact safe_folding_call.mpr ⟨hfp, fun _ => hunlink _⟩
      | true =>
          refine safe_folding_call.mpr ⟨hfp, fun flushed => ?_⟩
          cases flushed with
          | false => exact safe_folding_call.mpr ⟨hfp, fun _ => hunlink _⟩
          | true =>
              refine safe_folding_call.mpr ⟨trivial, fun synced => ?_⟩
              refine safe_folding_call.mpr ⟨hfp, fun closed => ?_⟩
              split
              · refine safe_folding_call.mpr ⟨⟨nofun, nofun⟩, fun renamed => ?_⟩
                cases renamed with
                | true => exact safe_folding_ret.mpr trivial
                | false => exact hunlink _
              · exact hunlink _

theorem writeVersionFile_apart (version : Bytes) :
    Apart (.part v) (writeVersionFile ccfg version) [] := by
  unfold writeVersionFile
  split
  · exact safe_folding_ret.mpr trivial
  simp only [Prog.call_bind, Prog.ret_bind]
  refine safe_folding_call.mpr ⟨trivial, fun fd => ?_⟩
  cases fd with
  | none => exact safe_folding_ret.mpr trivial
  | some fd =>
      have hunlock : ∀ (rc : Bool) hs, Apart (.part v) (.call (.unlock fd) fun _ => .ret rc :
          Prog (stdio Path) Bool) hs :=
        fun rc hs => safe_folding_call.mpr ⟨trivial, fun _ => safe_folding_ret.mpr trivial⟩
      refine safe_bind.mpr ((readTable_apart version _).post fun t hs _ => ?_)
      cases t with
      | none => exact hunlock false hs
      | some t =>
          dsimp only
          split
          · exact safe_bind.mpr ((replaceTable_apart _ hs).post fun rc hs _ => hunlock rc hs)
          · split
            · exact hunlock false hs
            · exact safe_bind.mpr ((replaceTable_apart _ hs).post fun rc hs _ => hunlock rc hs)

/-- `getCurrentVersion` only reads. -/
theorem getCurrentVersion_looks (bound : ℕ) : (getCurrentVersion bound ccfg).Only Looks := by
  unfold getCurrentVersion
  split
  · trivial
  refine .call trivial fun fd => ?_
  cases fd with
  | none => trivial
  | some fd =>
      refine .call rfl fun fp => ?_
      cases fp with
      | none => exact .call trivial fun _ => trivial
      | some fp =>
          refine (Prog.Only.iterate (fun st => ?_) bound _).bind fun r =>
            .call trivial fun _ => .call trivial fun _ => trivial
          unfold versionRound fgetsText
          simp only [Prog.call_bind]
          refine .call trivial fun l => ?_
          cases l with
          | none => trivial
          | some l =>
              simp only [Prog.ret_bind]
              split
              · trivial
              · trivial
              · trivial

end Parts

/-! ### Where the client is -/

section Client

variable {cfg : ServerConfig} {m : Manifest} {path content : Bytes} {reliable : Prop}
  {ccfg : ClientConfig} {w w' : ClientWorld} {α : Type} {fp : Handle} {offset written got : ℕ}

/-- Between two downloads. -/
structure Resting (cfg : ServerConfig) (m : Manifest) (content : Bytes) (w : ClientWorld) : Prop where
  heard : Heard cfg m content w
  idle : w.fs.Idle (.part m.latestVersion)
  disk : (w.fs.disk (.part m.latestVersion)).getD [] <+: content

/-- On this connection nothing has been asked for. -/
structure Unasked (cfg : ServerConfig) (m : Manifest) (content : Bytes) (w : ClientWorld) : Prop
    extends Resting cfg m content w where
  unasked : ∀ f ∈ w.wire.outs, f.type ≠ .downloadReq

/-- On this connection what the package has from `offset` on has been asked for, and `got` says how
far it has come. -/
structure Asked (cfg : ServerConfig) (m : Manifest) (content : Bytes) (offset got : ℕ)
    (w : ClientWorld) : Prop where
  heard : Heard cfg m content w
  asked : ∀ r ∈ w.wire.outs, r.type = .downloadReq → requestedOffset m r.payload = offset
  data : dataOf w.wire.ins = (content.drop offset).take (got - offset)
  range : offset ≤ got ∧ got ≤ content.length

/-- The download has come as far as `got`, and has been written as far as `written`. -/
structure Loading (cfg : ServerConfig) (m : Manifest) (content : Bytes) (fp : Handle)
    (offset written got : ℕ) (w : ClientWorld) : Prop extends Asked cfg m content offset got w where
  appending : w.fs.Appending fp (.part m.latestVersion) (content.take written)

/-- What is known of the files as well. -/
theorem Stays.files {J : ClientWorld → Prop} (hJ : Stays cfg m content J)
    {K : FileSystem Path → Prop}
    (hK : ∀ {fs fs'}, K fs → SameAt (.part m.latestVersion) fs fs' → K fs') :
    Stays cfg m content fun w => J w ∧ K w.fs :=
  ⟨fun h => hJ.kept h.1, fun h ha hh => ⟨hJ.aside h.1 ha hh, hK h.2 ha.files⟩⟩

theorem listens_resting : Listens cfg m content (Resting cfg m content) where
  kept h := ⟨h.heard, h.idle.kept h.disk⟩
  aside h ha hh := ⟨hh, ha.files.idle h.idle, ha.files.disk ▸ h.disk⟩
  hears h hfs _ hh := ⟨hh, hfs ▸ h.idle, hfs ▸ h.disk⟩

theorem stays_resting : Stays cfg m content (Resting cfg m content) := listens_resting.toStays

theorem listens_unasked : Listens cfg m content (Unasked cfg m content) where
  kept h := listens_resting.kept h.toResting
  aside h ha hh := by
    refine ⟨listens_resting.aside h.toResting ha hh, fun f hf => ?_⟩
    obtain ⟨more, hmore, hno⟩ := ha.outs
    rw [hmore] at hf
    rcases List.mem_append.mp hf with hf | hf
    · exact h.unasked f hf
    · exact hno f hf
  hears h hfs houts hh := ⟨listens_resting.hears h.toResting hfs houts hh, houts ▸ h.unasked⟩

theorem Asked.aside (h : Asked cfg m content offset got w) (ha : Aside m w w')
    (hh : Heard cfg m content w') : Asked cfg m content offset got w' := by
  refine ⟨hh, fun r hr htype => ?_, ha.ins ▸ h.data, h.range⟩
  obtain ⟨more, hmore, hno⟩ := ha.outs
  rw [hmore] at hr
  rcases List.mem_append.mp hr with hr | hr
  · exact h.asked r hr htype
  · exact absurd htype (hno r hr)

theorem stays_loading : Stays cfg m content (Loading cfg m content fp offset written got) where
  kept h := ⟨h.heard, h.appending.kept (List.take_prefix ..)⟩
  aside h ha hh := ⟨h.toAsked.aside ha hh, h.appending.same ha.files⟩

/-- With nothing pending. -/
abbrev Flushed (cfg : ServerConfig) (m : Manifest) (content : Bytes) (fp : Handle)
    (offset got : ℕ) (w : ClientWorld) : Prop :=
  Loading cfg m content fp offset got got w ∧ w.fs.Idle (.part m.latestVersion)

theorem stays_flushed : Stays cfg m content (Flushed cfg m content fp offset got) :=
  stays_loading.files fun hi hd => hd.idle hi

theorem Flushed.resting (h : Flushed cfg m content fp offset got w) : Resting cfg m content w := by
  refine ⟨h.1.heard, h.2, ?_⟩
  rw [h.1.appending.whole h.2]
  exact List.take_prefix ..

/-- The whole package is in the partial file. -/
abbrev Whole (cfg : ServerConfig) (m : Manifest) (content : Bytes) (w : ClientWorld) : Prop :=
  Resting cfg m content w ∧ w.fs.disk (.part m.latestVersion) = some content

theorem stays_whole : Stays cfg m content (Whole cfg m content) :=
  stays_resting.files fun h hd => hd.disk.trans h

/-! ### Operations on the partial file -/

/-- An operation on files. -/
theorem faithful_fileOp {J : ClientWorld → Prop} (hJ : Stays cfg m content J) (h : J w)
    {o : FileOp Path} {k : FileOp.Res o → ClientProg α} {Q : α → ClientWorld → Prop}
    (hG : ∀ w, J w → Careful m.latestVersion content reliable w.fs o)
    (hk : ∀ w r fs, J w → w.fs.may o r fs → (reliable → inspects o → (r, fs) = w.fs.ok o) →
      Faithful cfg m content reliable Q (k r) { w with fs := fs }) :
    Faithful cfg m content reliable Q (.call (.file o) k) w := by
  refine faithful_call hJ h fun w h => ⟨hG w h, ?_⟩
  rintro r _ ⟨⟨fs, ⟨hm, hok⟩, rfl⟩, -⟩
  exact hk w r fs h hm hok

/-- An operation on other files. -/
theorem faithful_spared {J : ClientWorld → Prop} (hJ : Stays cfg m content J) (h : J w)
    {o : FileOp Path} (ho : ∀ fs : FileSystem Path, fs.Spares (.part m.latestVersion) o)
    {k : FileOp.Res o → ClientProg α} {Q : α → ClientWorld → Prop}
    (hk : ∀ r w', J w' → Faithful cfg m content reliable Q (k r) w') :
    Faithful cfg m content reliable Q (.call (.file o) k) w := by
  refine faithful_call hJ h fun w h => ⟨careful_of_spares (hJ.kept h).2 (ho _), ?_⟩
  rintro r _ ⟨⟨fs, ⟨hm, -⟩, rfl⟩, hh⟩
  exact hk r _ (hJ.aside h ⟨may_spared hm (ho _), rfl, [], (List.append_nil _).symm, nofun⟩ hh)

theorem Loading.careful_stream (h : Loading cfg m content fp offset written got w) :
    Careful m.latestVersion content reliable w.fs (.fflush fp) ∧
      Careful m.latestVersion content reliable w.fs (.fclose fp) := by
  have hprefix : content.take written <+: content := List.take_prefix ..
  refine ⟨careful_of_kept (fun r fs' hm => ?_) nofun nofun fun _ => ⟨nofun, nofun⟩,
    careful_of_kept (fun r fs' hm => ?_) nofun nofun fun _ => ⟨nofun, nofun⟩⟩
  · exact (h.appending.fflush hm).1.kept hprefix
  · obtain ⟨hi, c, hc, hcut⟩ := h.appending.fclose hm
    exact hi.kept (hc ▸ hcut.trans hprefix)

/-- `fflush(fp)` -/
theorem faithful_fflush {k : Bool → ClientProg α} {Q : α → ClientWorld → Prop}
    (h : Loading cfg m content fp offset got got w)
    (hk : ∀ r w', Flushed cfg m content fp offset got w' →
      Faithful cfg m content reliable Q (k r) w') :
    Faithful cfg m content reliable Q (.call (.file (.fflush fp)) k) w := by
  refine faithful_fileOp stays_loading h (fun _ h => h.careful_stream.1) fun w r fs h hm _ => ?_
  obtain ⟨happ, hi⟩ := h.appending.fflush hm
  exact hk r _ ⟨⟨⟨h.heard, h.asked, h.data, h.range⟩, happ⟩, hi⟩

/-- `fclose(fp)`, after which some of what was pending may be lost. -/
theorem faithful_fclose {k : Bool → ClientProg α} {Q : α → ClientWorld → Prop}
    (h : Loading cfg m content fp offset written got w)
    (hk : ∀ r w', Resting cfg m content w' → Faithful cfg m content reliable Q (k r) w') :
    Faithful cfg m content reliable Q (.call (.file (.fclose fp)) k) w := by
  refine faithful_fileOp stays_loading h (fun _ h => h.careful_stream.2) fun w r fs h hm _ => ?_
  obtain ⟨hi, c, hc, hcut⟩ := h.appending.fclose hm
  exact hk r _ ⟨h.heard, hi, hc ▸ hcut.trans (List.take_prefix ..)⟩

/-- A part that only reads. -/
theorem faithful_looks {p : Prog (stdio Path) α} (hp : p.Only Looks) (h : Resting cfg m content w) :
    Faithful cfg m content reliable (fun _ => Resting cfg m content) (file p) w := by
  have hsafe : Safe (fileEnv (readerRules reliable)) (Careful m.latestVersion content reliable)
      (fun _ fs => fs.Idle (.part m.latestVersion) ∧
        (fs.disk (.part m.latestVersion)).getD [] <+: content) p w.fs := by
    obtain ⟨-, hi, hd⟩ := h
    generalize w.fs = fs at hi hd
    induction p generalizing fs with
    | ret a =>
        intro fs' hdr
        have hsame := sameAt_of_onlyShared (p := .part m.latestVersion) hdr rfl
        exact ⟨hsame.idle hi, hsame.disk ▸ hd⟩
    | call o k ih =>
        intro fs₁ hdr
        have hsame := sameAt_of_onlyShared (p := .part m.latestVersion) hdr rfl
        have hi₁ := hsame.idle hi
        have hd₁ : (fs₁.disk (.part m.latestVersion)).getD [] <+: content := hsame.disk ▸ hd
        refine ⟨careful_of_untouched hi₁ hd₁ (hi₁.looks hp.1), fun r fs₂ hm => ?_⟩
        refine ih r (hp.2 r) fs₂ (hi₁.untouched hm.1 (hi₁.looks hp.1)) ?_
        rw [may_disk hm.1 (hi₁.looks hp.1)]
        exact hd₁
    | spin => trivial
  exact (faithful_file h.heard hsafe).post fun a w' ⟨⟨hi, hd⟩, hh, _, _⟩ => ⟨hh, hi, hd⟩

/-! ### Parts beside the download -/

theorem aside_of_internal {o : ClientOp} (h : internal o) : aside o := by
  cases o with
  | file o | protoSend f | protoRecv cap dataCap | netConnectTcp => exact h.elim
  | _ => trivial

theorem waitForGuiResumeOnConnection_aside : (waitForGuiResumeOnConnection ccfg).Only aside := by
  refine (waitForGuiResumeOnConnection_internal ccfg).mono fun o ho => ?_
  rcases ho with ho | rfl
  · exact aside_of_internal ho
  · exact ⟨nofun, nofun⟩

/-- What follows an attempt on its connection. -/
theorem rests_of_internal {p : ClientProg α} (hp : p.Only internal) (h : Resting cfg m content w) :
    Faithful cfg m content reliable (fun _ => Resting cfg m content) p w :=
  faithful_of_only stays_resting (hp.mono fun _ => aside_of_internal) h

/-! ### Interruptions -/

theorem saveInterruptedDownload_faithful (v : Bytes) (at' total : ℕ) (sha : Bytes)
    (result : AttemptResult) :
    (Resting cfg m content w → Faithful cfg m content reliable (fun _ => Resting cfg m content)
      (saveInterruptedDownload ccfg none v at' total sha result) w) ∧
    (Loading cfg m content fp offset got got w →
      Faithful cfg m content reliable (fun _ => Resting cfg m content)
        (saveInterruptedDownload ccfg (some fp) v at' total sha result) w) := by
  -- the resume file and the flags, once the stream is closed
  have hrest : ∀ {w}, Resting cfg m content w →
      Faithful cfg m content reliable (fun _ => Resting cfg m content) (do
        file (writeResumeMetadata ccfg v at' total sha)
        if result = .paused then setPaused
        else if result = .reconnect then setResumeRetryActive true
        else .ret ()
        .ret result) w := by
    intro w h
    refine safe_bind.mpr ((faithful_apart stays_resting
      (writeResumeMetadata_apart (by simp) at' total sha)
      h).post fun _ w h => rests_of_internal ?_ h)
    split
    · exact .call trivial fun _ => trivial
    · split
      · exact .call trivial fun _ => trivial
      · trivial
  unfold saveInterruptedDownload
  simp only [Prog.call_bind, Prog.ret_bind, file_call, file_ret]
  refine ⟨hrest, fun h => faithful_fflush h fun _ w h => ?_⟩
  refine faithful_spared stays_flushed h (o := .fsync _) (fun _ => trivial) fun _ w h => ?_
  refine faithful_fclose h.1 fun _ w h => ?_
  exact faithful_aside stays_resting h (by trivial) fun _ w h => hrest h

/-- Where a round of the download leaves it. -/
def AfterDownload (cfg : ServerConfig) (m : Manifest) (content : Bytes) (fp : Handle) (offset : ℕ)
    (w : ClientWorld) : ℕ ⊕ Option AttemptResult → Prop
  | .inl got => Loading cfg m content fp offset got got w
  | .inr none => Loading cfg m content fp offset content.length content.length w
  | .inr (some _) => Resting cfg m content w

theorem pauseDownload_faithful (d : Download) (hfp : d.fp = fp)
    (h : Loading cfg m content fp offset got got w) :
    Faithful cfg m content reliable (fun r w' => AfterDownload cfg m content fp offset w' r)
      (pauseDownload ccfg d got) w := by
  subst hfp
  -- an attempt that ends with the stream left open
  have hleave : ∀ {rc : AttemptResult} {w}, Flushed cfg m content d.fp offset got w →
      Faithful cfg m content reliable (fun r w' => AfterDownload cfg m content d.fp offset w' r)
        (.ret (.inr (some rc))) w :=
    fun h => faithful_ret stays_flushed h fun _ h => h.resting
  unfold pauseDownload
  simp only [Prog.call_bind, Prog.ret_bind, file_call, file_ret]
  refine faithful_fflush h fun _ w h => ?_
  refine faithful_spared stays_flushed h (o := .fsync _) (fun _ => trivial) fun _ w h => ?_
  refine safe_bind.mpr ((faithful_apart stays_flushed
    (writeResumeMetadata_apart (by simp) ..) h).post
    fun _ w h => ?_)
  refine faithful_aside stays_flushed h (by exact ⟨nofun, nofun⟩) fun sent w h => ?_
  cases sent with
  | false => exact faithful_aside stays_flushed h (by trivial) fun _ w h => hleave h
  | true =>
      refine safe_bind.mpr ((faithful_of_only stays_flushed waitForGuiResumeOnConnection_aside
        h).post fun r w h => ?_)
      cases r with
      | resumed => exact faithful_ret stays_flushed h fun _ h => h.1
      | expired => exact hleave h
      | ended => exact hleave h

/-! ### Frames -/

/-- What the download keeps to is what was offered. -/
structure DownloadOf (m : Manifest) (content : Bytes) (d : Download) : Prop where
  latest : d.latest = m.latestVersion
  sha : d.sha = m.checksumSha256
  size : d.size = content.length

/-- The next part of the package arrives. -/
theorem Loading.data_received (h : Loading cfg m content fp offset written got w) {flags : UInt8}
    {p : Bytes} (hheard : Heard cfg m content { w with wire := w.wire.received ⟨.data, flags, p⟩ }) :
    p <+: content.drop got ∧ Loading cfg m content fp offset written (got + p.length)
      { w with wire := w.wire.received ⟨.data, flags, p⟩ } := by
  obtain ⟨hle, hlen⟩ := h.range
  have hnext : p <+: content.drop got := by
    rcases hheard.stream with hnone | ⟨r, hr, htype, hd⟩
    · refine absurd rfl (hnone ⟨.data, flags, p⟩ ?_).1
      exact List.mem_append_left _ (List.mem_append_right _ (List.mem_singleton_self _))
    · have hdata := (hd.of_prefix (List.prefix_append ..)).data
      rw [h.asked r hr htype] at hdata
      have hsum : (content.drop offset).take (got - offset) ++ p <+:
          (content.drop offset).take (got - offset) ++ content.drop got := by
        have hall := List.take_append_drop (got - offset) (content.drop offset)
        rw [List.drop_drop, Nat.add_sub_cancel' hle] at hall
        rw [hall, ← h.data]
        simpa [Wire.received] using hdata
      exact (List.prefix_append_right_inj _).mp hsum
  have hshort : p.length ≤ content.length - got := by
    rw [← List.length_drop]
    exact hnext.length_le
  refine ⟨hnext, ⟨⟨hheard, h.asked, ?_, by omega⟩, h.appending⟩⟩
  show dataOf (w.wire.ins ++ [⟨.data, flags, p⟩]) = _
  rw [dataOf_append, dataOf_data, h.data, show got + p.length - offset = (got - offset) + p.length by
    omega, List.take_add, List.drop_drop, Nat.add_sub_cancel' hle,
    ← List.prefix_iff_eq_take.mp hnext]

/-- `TRANSFER_DONE` arrives after all of the package, and is the session's. -/
theorem Loading.done_received (h : Loading cfg m content fp offset got got w) {f : Frame}
    (htype : f.type = .transferDone)
    (hheard : Heard cfg m content { w with wire := w.wire.received f }) :
    f = doneFrame m ∧ Loading cfg m content fp offset content.length content.length
      { w with wire := w.wire.received f } := by
  obtain ⟨hle, hlen⟩ := h.range
  have hmem : f ∈ w.wire.ins ++ [f] ++ w.wire.inbox.tail :=
    List.mem_append_left _ (List.mem_append_right _ (List.mem_singleton_self _))
  rcases hheard.stream with hnone | ⟨r, hr, hreq, hd⟩
  · exact absurd htype (hnone f hmem).2
  obtain ⟨hall, hf⟩ := hd.done w.wire.ins f w.wire.inbox.tail (List.append_cons ..).symm htype
  rw [h.asked r hr hreq, h.data] at hall
  have hend : got = content.length := by
    have hcount := congrArg List.length hall
    rw [List.length_take, List.length_drop] at hcount
    omega
  subst hend
  refine ⟨hf, ⟨⟨hheard, h.asked, ?_, h.range⟩, h.appending⟩⟩
  have hquiet : dataOf [f] = [] := by simp [dataOf, htype]
  show dataOf (w.wire.ins ++ [f]) = _
  rw [dataOf_append, hquiet, List.append_nil, h.data]

/-- Any other frame leaves the download where it is. -/
theorem Loading.frame_received (h : Loading cfg m content fp offset written got w) {f : Frame}
    (htype : f.type ≠ .data)
    (hheard : Heard cfg m content { w with wire := w.wire.received f }) :
    Loading cfg m content fp offset written got { w with wire := w.wire.received f } := by
  have hquiet : dataOf [f] = [] := dataOf_eq_nil fun g hg => List.mem_singleton.mp hg ▸ htype
  refine ⟨⟨hheard, h.asked, ?_, h.range⟩, h.appending⟩
  show dataOf (w.wire.ins ++ [f]) = _
  rw [dataOf_append, hquiet, List.append_nil, h.data]

/-- The buffer is freed, and the stream closed. -/
theorem faithful_leave {k : Bool → ClientProg α} {Q : α → ClientWorld → Prop}
    (h : Loading cfg m content fp offset written got w)
    (hk : ∀ r w', Resting cfg m content w' → Faithful cfg m content reliable Q (k r) w') :
    Faithful cfg m content reliable Q (.call .free fun _ => .call (.file (.fclose fp)) k) w :=
  faithful_aside stays_loading h (by trivial) fun _ _ h => faithful_fclose h hk

/-- A part is written, or a beginning of it. -/
theorem faithful_fwrite {p : Bytes} {k : ℕ → ClientProg α} {Q : α → ClientWorld → Prop}
    (hp : p <+: content.drop written)
    (h : Loading cfg m content fp offset written (written + p.length) w)
    (hk : ∀ taken w', taken ≤ p.length →
      Loading cfg m content fp offset (written + taken) (written + p.length) w' →
      Faithful cfg m content reliable Q (k taken) w') :
    Faithful cfg m content reliable Q (.call (.file (.fwrite fp p)) k) w := by
  -- what has been written, with the beginning that is taken
  have hsum : ∀ {taken : Bytes}, taken <+: p →
      content.take written ++ taken = content.take (written + taken.length) := by
    intro taken htaken
    rw [List.take_add, ← List.prefix_iff_eq_take.mp (htaken.trans hp)]
  refine faithful_fileOp stays_loading h (fun w h => careful_of_kept (fun r fs' hm => ?_) nofun nofun
    fun _ => ⟨nofun, nofun⟩) fun w r fs h hm _ => ?_
  · obtain ⟨taken, htaken, -, happ⟩ := h.appending.fwrite hm
    exact happ.kept (hsum htaken ▸ List.take_prefix ..)
  · obtain ⟨taken, htaken, rfl, happ⟩ := h.appending.fwrite hm
    exact hk _ _ htaken.length_le ⟨⟨h.heard, h.asked, h.data, h.range⟩, hsum htaken ▸ happ⟩

/-- The digest in `TRANSFER_DONE`, as the client reads it. -/
theorem doneFrame_sha (h : Advertisable m) :
    kvGet (doneFrame m).payload (ascii "sha256") sha256HexBuf = some m.checksumSha256 := by
  have hkey : 61 ∉ ascii "sha256" ∧ 59 ∉ ascii "sha256" ∧ 0 ∉ ascii "sha256" := by decide
  have hshort : (kvPair (ascii "sha256", m.checksumSha256)).length ≤ maxControlPayload := by
    rw [length_kvPair, h.checksum]
    decide
  refine kvGet_iff.mpr ⟨?_, by rw [h.checksum]; decide⟩
  exact @firstField_fieldFrame .transferDone _ _ ⟨hkey, h.plainChecksum⟩ hshort

theorem handleFrame_faithful (hoffered : Offered cfg m path content) {d : Download}
    (hd : DownloadOf m content d) {f : Frame} (h : Loading cfg m content d.fp offset got got w)
    (hheard : Heard cfg m content { w with wire := w.wire.received f }) :
    Faithful cfg m content reliable (fun r w' => AfterDownload cfg m content d.fp offset w' r)
      (handleFrame d got f) { w with wire := w.wire.received f } := by
  have hout : ∀ {written got : ℕ} {rc : AttemptResult} {w : ClientWorld},
      Loading cfg m content d.fp offset written got w →
      Faithful cfg m content reliable (fun r w' => AfterDownload cfg m content d.fp offset w' r)
        (.call .free fun _ => .call (.file (.fclose d.fp)) fun _ => .ret (.inr (some rc))) w :=
    fun h => faithful_leave h fun _ _ h => faithful_ret stays_resting h fun _ h => h
  obtain ⟨type, flags, payload⟩ := f
  cases type with
  | data =>
      obtain ⟨hnext, h⟩ := h.data_received hheard
      obtain ⟨-, hlen⟩ := h.range
      have hsmall := hoffered.small
      have hmod : (got + payload.length) % 2 ^ 64 = got + payload.length :=
        Nat.mod_eq_of_lt (by omega)
      have hfit : ¬ got + payload.length > d.size := by
        rw [hd.size]
        exact Nat.not_lt.mpr hlen
      unfold handleFrame
      simp only [hmod, if_neg hfit]
      by_cases hnone : payload.length > 0
      · simp only [if_pos hnone, file_call, file_ret, Prog.call_bind, Prog.ret_bind]
        refine faithful_fwrite hnext h fun taken w _ h => ?_
        by_cases hall : taken ≠ payload.length
        · simp only [if_pos hall]
          exact hout h
        · simp only [if_neg hall]
          rw [not_not.mp hall] at h
          exact faithful_ret stays_loading h fun _ h => h
      · have hzero : payload.length = 0 := Nat.eq_zero_of_not_pos hnone
        simp only [Prog.ret_bind, hzero, ne_eq, not_true_eq_false, if_false]
        rw [hzero] at h
        exact faithful_ret stays_loading h fun _ h => h
  | transferDone =>
      obtain ⟨hf, h⟩ := h.done_received rfl hheard
      have hsame : strcaseeq d.sha d.sha = true := beq_self_eq_true _
      have hsha : kvGet payload (ascii "sha256") sha256HexBuf = some d.sha := by
        rw [hd.sha, ← doneFrame_sha hoffered.advertisable, ← hf]
      unfold handleFrame
      simp only [hsha, hsame, if_true]
      exact faithful_ret stays_loading h fun _ h => h
  | _ => exact hout (h.frame_received nofun hheard)

theorem downloadRound_faithful (hoffered : Offered cfg m path content) {d : Download}
    (hd : DownloadOf m content d) (h : Loading cfg m content d.fp offset got got w) :
    Faithful cfg m content reliable (fun r w' => AfterDownload cfg m content d.fp offset w' r)
      (downloadRound ccfg d got) w := by
  have hsave : ∀ {v sha : Bytes} {total : ℕ} {rc : AttemptResult} {w : ClientWorld},
      Loading cfg m content d.fp offset got got w →
      Faithful cfg m content reliable (fun r w' => AfterDownload cfg m content d.fp offset w' r)
        (do
          let rc ← saveInterruptedDownload ccfg (some d.fp) v got total sha rc
          .ret (.inr (some rc))) w := by
    intro v sha total rc w h
    refine safe_bind.mpr (((saveInterruptedDownload_faithful v got total sha rc).2 h).post
      fun rc w h => ?_)
    exact faithful_ret stays_resting h fun _ h => h
  unfold downloadRound
  simp only [Prog.call_bind, Prog.ret_bind]
  refine faithful_aside stays_loading h (by trivial) fun pause w h => ?_
  cases pause with
  | true => exact pauseDownload_faithful d rfl h
  | false =>
      refine faithful_aside stays_loading h (by trivial) fun stop w h => ?_
      cases stop with
      | true => exact hsave h
      | false =>
          refine faithful_call stays_loading h fun w h => ⟨trivial, fun r w' hm => ?_⟩
          obtain ⟨⟨wire, hr, rfl⟩, hheard⟩ := hm
          have hfail : Faithful cfg m content reliable
              (fun r w' => AfterDownload cfg m content d.fp offset w' r) (do
                let stop ← stopRequested
                let rc ← saveInterruptedDownload ccfg (some d.fp) d.latest got d.size d.sha
                  (if stop then .paused else .reconnect)
                .ret (.inr (some rc))) w :=
            faithful_aside stays_loading h (by trivial) fun stop w h => hsave h
          cases hr with
          | ok f fs hin hfit => exact handleFrame_faithful hoffered hd h hheard
          | tooLarge f fs hin hfit => exact hfail
          | failed hl r hr =>
              cases r with
              | ok f => exact absurd rfl (hr f)
              | eof | bad | tooLarge => exact hfail

end Client

end UpdateFramework.System
