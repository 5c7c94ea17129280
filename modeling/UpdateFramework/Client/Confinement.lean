import Mathlib.Data.List.Chain
import UpdateFramework.Client.Downloader
import UpdateFramework.Client.World
import UpdateFramework.Common.VersionOrder
import UpdateFramework.Libc.Blank

/-!
# Client — the files a server can name

Whatever a server advertises and sends, `receive_update` opens for writing, renames and unlinks
nothing but the version table with its temporary file and its lock, and `app-<version>.bin`,
`.bin.part` and `.bin.part.resume` of one version in the download directory
(`receiveUpdate_confined`).  The names are those in the buffers of the code, and no buffer holds a
name that is cut.
-/

namespace UpdateFramework

open Libc Process Client

/-! ### Names -/

/-- What the buffer of a name holds: each `snprintf` cuts at `MAX_PATH_LEN * 2`. -/
def Path.buffer (cfg : ClientConfig) : Path → Bytes
  | .final v => snprintf (maxPathLen * 2) (cfg.downloadDir ++ ascii "/app-" ++ v ++ ascii ".bin")
  | .part v =>
    let finalPath :=
      snprintf (maxPathLen * 2) (cfg.downloadDir ++ ascii "/app-" ++ v ++ ascii ".bin")
    snprintf (maxPathLen * 2) (finalPath ++ ascii ".part")
  | .resume v =>
    let finalPath :=
      snprintf (maxPathLen * 2) (cfg.downloadDir ++ ascii "/app-" ++ v ++ ascii ".bin")
    let partPath := snprintf (maxPathLen * 2) (finalPath ++ ascii ".part")
    snprintf (maxPathLen * 2) (partPath ++ ascii ".resume")
  | .table => cfg.clientVersionFile
  | .tableTmp => snprintf (maxPathLen * 2) (cfg.clientVersionFile ++ ascii ".tmp")
  | .tableLock => snprintf (maxPathLen * 2) (cfg.clientVersionFile ++ ascii ".lock")

/-- The paths an operation opens for writing, renames or unlinks. -/
def changedPaths : FileOp Path → List Path
  | .fopen p .w | .fopen p .a | .unlink p | .lock p => [p]
  | .rename a b => [a, b]
  | _ => []

/-- What may follow the download directory: `/app-`, a version, `.bin`, and how far the file has
come.  No second `/` and no `..` comes with the version. -/
structure AppName (tail : Bytes) : Prop where
  shape : ∃ a b c suffix, Numeral a ∧ Numeral b ∧ Numeral c ∧
    suffix ∈ [[], ascii ".part", ascii ".part.resume"] ∧
    tail = ascii "/app-" ++ (a ++ 46 :: (b ++ 46 :: c)) ++ ascii ".bin" ++ suffix
  slash : 47 ∉ tail.tail
  dots : ¬ ascii ".." <:+: tail

/-- A name `receive_update` may change the file of. -/
def Confined (cfg : ClientConfig) (name : Bytes) : Prop :=
  name ∈ [cfg.clientVersionFile, cfg.clientVersionFile ++ ascii ".tmp",
    cfg.clientVersionFile ++ ascii ".lock"] ∨
  ∃ tail, name = cfg.downloadDir ++ tail ∧ AppName tail

/-- No two dots in a row. -/
def Spaced (s : Bytes) : Prop := s.IsChain fun x y => x ≠ 46 ∨ y ≠ 46

instance (s : Bytes) : Decidable (Spaced s) :=
  inferInstanceAs (Decidable (s.IsChain fun x y => x ≠ 46 ∨ y ≠ 46))

theorem Spaced.no_dots {s : Bytes} (h : Spaced s) : ¬ ascii ".." <:+: s := by
  intro hdots
  have hpair := List.IsChain.infix h hdots
  rcases (List.isChain_cons_cons.mp hpair).1 with hne | hne
  · exact hne rfl
  · exact hne rfl

theorem Spaced.append {s t : Bytes} (hs : 46 ∉ s) (ht : Spaced t) : Spaced (s ++ t) := by
  induction s with
  | nil => exact ht
  | cons b s ih =>
      have hb : b ≠ 46 := fun h => hs (h ▸ List.mem_cons_self)
      exact List.isChain_cons.mpr
        ⟨fun _ _ => .inl hb, ih fun hm => hs (List.mem_cons_of_mem b hm)⟩

/-- A dot between digits. -/
theorem Spaced.dot {ds t : Bytes} (hds : Numeral ds) (ht : Spaced t) : Spaced (46 :: (ds ++ t)) := by
  refine List.isChain_cons.mpr ⟨fun d hd => .inr fun hdot => ?_, ht.append (hds.not_mem rfl)⟩
  rw [List.head?_append_of_ne_nil _ hds.nonempty] at hd
  exact hds.not_mem rfl (hdot ▸ List.mem_of_mem_head? hd)

/-- The name of a version, as far as its file has come. -/
theorem appName_of_valid {v suffix : Bytes} (hv : verIsValid v = true)
    (hsuffix : suffix ∈ [[], ascii ".part", ascii ".part.resume"]) :
    AppName (ascii "/app-" ++ v ++ ascii ".bin" ++ suffix) := by
  obtain ⟨sv, hsv⟩ := Option.isSome_iff_exists.mp hv
  have hdenotes := verParse_iff.mp hsv
  have hslash : 47 ∉ v := hdenotes.not_mem rfl (by decide)
  have htail : 47 ∉ suffix ∧ Spaced (ascii ".bin" ++ suffix) := by
    rcases List.mem_cons.mp hsuffix with rfl | hsuffix
    · decide
    rcases List.mem_cons.mp hsuffix with rfl | hsuffix
    · decide
    · rcases List.mem_singleton.mp hsuffix with rfl
      decide
  obtain ⟨a, b, c, rfl, ha, hb, hc⟩ := hdenotes
  refine ⟨⟨a, b, c, suffix, ha.numeral, hb.numeral, hc.numeral, hsuffix, rfl⟩, ?_, ?_⟩
  · have hhead : 47 ∉ ascii "app-" := by decide
    have hbin : 47 ∉ ascii ".bin" := by decide
    have htailEq : (ascii "/app-" ++ (a ++ 46 :: (b ++ 46 :: c)) ++ ascii ".bin" ++ suffix).tail =
        ascii "app-" ++ (a ++ 46 :: (b ++ 46 :: c)) ++ ascii ".bin" ++ suffix := rfl
    rw [htailEq, List.mem_append, List.mem_append, List.mem_append]
    rintro (((h | h) | h) | h)
    · exact hhead h
    · exact hslash h
    · exact hbin h
    · exact htail.1 h
  · have hspaced : Spaced (ascii "/app-" ++ (a ++ 46 :: (b ++ 46 :: (c ++ (ascii ".bin" ++ suffix))))) :=
      Spaced.append (by decide) (Spaced.append (ha.numeral.not_mem rfl)
        (Spaced.dot hb.numeral (Spaced.dot hc.numeral htail.2)))
    simpa only [List.append_assoc, List.cons_append] using hspaced.no_dots

/-! ### The files an update names -/

/-- A file of the version `v`, or of the table; a name made of the payload fits its buffer. -/
def NamedFor (cfg : ClientConfig) (v : Bytes) (p : Path) : Prop :=
  p.shared = true ∨ (p ∈ [.final v, .part v, .resume v] ∧ p.fits cfg = true)

theorem Path.buffer_eq {cfg : ClientConfig} {p : Path} (h : p.fits cfg = true) :
    p.buffer cfg = p.text cfg := by
  have hlen : (p.text cfg).length < maxPathLen * 2 := of_decide_eq_true h
  cases p with
  | final v => exact snprintf_of_lt hlen
  | part v =>
      have hfinal : (cfg.downloadDir ++ ascii "/app-" ++ v ++ ascii ".bin").length < maxPathLen * 2 :=
        Nat.lt_of_le_of_lt (List.sublist_append_left _ _).length_le hlen
      rw [Path.buffer, snprintf_of_lt hfinal]
      exact snprintf_of_lt hlen
  | resume v =>
      have hpart : (cfg.downloadDir ++ ascii "/app-" ++ v ++ ascii ".bin" ++ ascii ".part").length <
          maxPathLen * 2 :=
        Nat.lt_of_le_of_lt (List.sublist_append_left _ _).length_le hlen
      have hfinal : (cfg.downloadDir ++ ascii "/app-" ++ v ++ ascii ".bin").length < maxPathLen * 2 :=
        Nat.lt_of_le_of_lt (List.sublist_append_left _ _).length_le hpart
      rw [Path.buffer, snprintf_of_lt hfinal, snprintf_of_lt hpart]
      exact snprintf_of_lt hlen
  | table => rfl
  | tableTmp => exact snprintf_of_lt hlen
  | tableLock => exact snprintf_of_lt hlen

theorem Path.fits_of_shared {cfg : ClientConfig} (hfile : cfg.clientVersionFile.length < maxPathLen)
    {p : Path} (h : p.shared = true) : p.fits cfg = true := by
  have hmax : maxPathLen = 256 := rfl
  refine decide_eq_true ?_
  cases p with
  | table => exact Nat.lt_of_lt_of_le hfile (by decide)
  | tableTmp =>
      rw [Path.text, List.length_append]
      exact Nat.lt_of_lt_of_le (Nat.add_lt_add_right hfile _) (by decide)
  | tableLock =>
      rw [Path.text, List.length_append]
      exact Nat.lt_of_lt_of_le (Nat.add_lt_add_right hfile _) (by decide)
  | final v | part v | resume v => cases h

/-- The buffer holds the whole name, and a confined one. -/
theorem NamedFor.confined {cfg : ClientConfig} {v : Bytes} {p : Path} (h : NamedFor cfg v p)
    (hv : verIsValid v = true) (hfile : cfg.clientVersionFile.length < maxPathLen) :
    p.buffer cfg = p.text cfg ∧ Confined cfg (p.buffer cfg) := by
  have hfits : p.fits cfg = true := h.elim (Path.fits_of_shared hfile) fun hp => hp.2
  have hbuffer := Path.buffer_eq hfits
  refine ⟨hbuffer, ?_⟩
  rw [hbuffer]
  have own {suffix : Bytes} (hsuffix : suffix ∈ [[], ascii ".part", ascii ".part.resume"])
      {name : Bytes} (hname : name = cfg.downloadDir ++ ascii "/app-" ++ v ++ ascii ".bin" ++ suffix) :
      Confined cfg name := by
    refine .inr ⟨_, ?_, appName_of_valid hv hsuffix⟩
    simp only [hname, List.append_assoc]
  rcases h with hshared | ⟨hmem, -⟩
  · cases p with
    | table | tableTmp | tableLock => exact .inl (by simp [Path.text])
    | final v | part v | resume v => cases hshared
  · rcases List.mem_cons.mp hmem with rfl | hmem
    · exact own (by simp) (List.append_nil _).symm
    rcases List.mem_cons.mp hmem with rfl | hmem
    · exact own (by simp) rfl
    · rcases List.mem_singleton.mp hmem with rfl
      have hlast : ascii ".part" ++ ascii ".resume" ∈ [[], ascii ".part", ascii ".part.resume"] := by
        decide
      exact own hlast (List.append_assoc _ _ _)

/-! ### Every operation of an update -/

/-- A file operation that changes files of `v` and of the table only. -/
def namesOnly (cfg : ClientConfig) (v : Bytes) (o : FileOp Path) : Prop :=
  ∀ p ∈ changedPaths o, NamedFor cfg v p

/-- The same of an operation of the client. -/
def keepsTo (cfg : ClientConfig) (v : Bytes) : ClientOp → Prop
  | .file o => namesOnly cfg v o
  | _ => True

variable {cfg : ClientConfig} {v : Bytes}

theorem namesOnly_nil {o : FileOp Path} (h : changedPaths o = []) : namesOnly cfg v o :=
  fun _ hp => absurd hp (h ▸ List.not_mem_nil)

theorem namesOnly_one {o : FileOp Path} {p : Path} (h : changedPaths o = [p])
    (hp : NamedFor cfg v p) : namesOnly cfg v o := by
  intro q hq
  rw [h] at hq
  exact List.mem_singleton.mp hq ▸ hp

/-- Renaming changes two files. -/
theorem namesOnly_rename {a b : Path} (ha : NamedFor cfg v a) (hb : NamedFor cfg v b) :
    namesOnly cfg v (.rename a b) := by
  intro q hq
  rcases List.mem_cons.mp hq with rfl | hq
  · exact ha
  · exact List.mem_singleton.mp hq ▸ hb

theorem file_keepsTo {α : Type} {p : Prog (stdio Path) α} (h : p.Only (namesOnly cfg v)) :
    (file p).Only (keepsTo cfg v) := by
  induction p with
  | ret a => trivial
  | call o k ih => exact .call h.1 fun r => ih r (h.2 r)
  | spin => trivial

theorem tableRound_names (version : Bytes) (fp : Handle) (t : TableRead) :
    (tableRound cfg version fp t).Only (namesOnly cfg v) := by
  unfold tableRound fgetsText
  split
  · trivial
  · simp only [Prog.call_bind]
    refine .call (namesOnly_nil rfl) fun r => ?_
    cases r with
    | none => trivial
    | some r =>
        simp only [Prog.ret_bind]
        split
        · trivial
        · trivial
        · split
          · trivial
          · trivial

theorem putLines_names (fp : Handle) (lines : List Bytes) :
    (putLines fp lines).Only (namesOnly cfg v) := by
  induction lines with
  | nil => trivial
  | cons line lines ih =>
      refine .call (namesOnly_nil rfl) fun ok => ?_
      cases ok with
      | true => exact ih
      | false => trivial

theorem readTable_names (version : Bytes) : (readTable cfg version).Only (namesOnly cfg v) := by
  refine .call (namesOnly_nil rfl) fun fp => ?_
  cases fp with
  | none => trivial
  | some fp =>
      exact (Prog.Only.iterate (tableRound_names version fp) _ _).bind fun _ =>
        .call (namesOnly_nil rfl) fun _ => trivial

theorem replaceTable_names (lines : List Bytes) :
    (replaceTable lines).Only (namesOnly cfg v) := by
  have htmp : NamedFor cfg v .tableTmp := .inl rfl
  have hunlink : Prog.Only (namesOnly cfg v)
      (.call (FileOp.unlink .tableTmp) fun _ => .ret false : Prog (stdio Path) Bool) :=
    .call (namesOnly_one rfl htmp) fun _ => trivial
  unfold replaceTable
  simp only [Prog.call_bind, Prog.ret_bind]
  refine .call (namesOnly_one rfl htmp) fun fp => ?_
  cases fp with
  | none => trivial
  | some fp =>
      refine (putLines_names fp lines).bind fun rc => ?_
      cases rc with
      | false => exact .call (namesOnly_nil rfl) fun _ => hunlink
      | true =>
          refine .call (namesOnly_nil rfl) fun flushed => ?_
          cases flushed with
          | false => exact .call (namesOnly_nil rfl) fun _ => hunlink
          | true =>
              refine .call (namesOnly_nil rfl) fun synced => .call (namesOnly_nil rfl) fun closed => ?_
              split
              · refine .call (namesOnly_rename htmp (.inl rfl)) fun renamed => ?_
                split
                · trivial
                · exact hunlink
              · exact hunlink

theorem writeVersionFile_names (version : Bytes) :
    (writeVersionFile cfg version).Only (namesOnly cfg v) := by
  unfold writeVersionFile
  split
  · trivial
  simp only [Prog.call_bind, Prog.ret_bind]
  refine .call (namesOnly_one rfl (.inl rfl)) fun fd => ?_
  cases fd with
  | none => trivial
  | some fd =>
      have hunlock : ∀ rc : Bool, Prog.Only (namesOnly cfg v)
          (.call (FileOp.unlock fd) fun _ => .ret rc : Prog (stdio Path) Bool) :=
        fun rc => .call (namesOnly_nil rfl) fun _ => trivial
      dsimp only
      refine (readTable_names version).bind fun t => ?_
      cases t with
      | none => exact hunlock false
      | some t =>
          dsimp only
          split
          · exact (replaceTable_names _).bind hunlock
          · split
            · exact hunlock false
            · exact (replaceTable_names _).bind hunlock

theorem sha256FileHex_names (bound : ℕ) (p : Path) :
    (sha256FileHex bound p).Only (namesOnly cfg v) := by
  unfold sha256FileHex
  simp only [Prog.call_bind, Prog.ret_bind]
  refine .call (namesOnly_nil rfl) fun fp => ?_
  cases fp with
  | none => trivial
  | some fp =>
      have hround (ctx : Sha256Ctx) :
          (sha256FileRound (P := Path) fp ctx).Only (namesOnly cfg v) := by
        unfold sha256FileRound
        simp only [Prog.call_bind, Prog.ret_bind]
        refine .call (namesOnly_nil rfl) fun r => ?_
        split
        · trivial
        · trivial
      exact (Prog.Only.iterate hround _ _).bind fun ctx =>
        .call (namesOnly_nil rfl) fun _ => trivial

theorem printLines_names (fp : Handle) (lines : List Bytes) :
    (printLines fp lines).Only (namesOnly cfg v) := by
  induction lines with
  | nil => trivial
  | cons line lines ih => exact .call (namesOnly_nil rfl) fun _ => ih

theorem writeResumeMetadata_names (offset totalSize : ℕ) (sha : Bytes) :
    (writeResumeMetadata cfg v offset totalSize sha).Only (namesOnly cfg v) := by
  unfold writeResumeMetadata
  split
  · trivial
  · rename_i hfits
    refine .call (namesOnly_one rfl (.inr ⟨by simp, not_not.mp hfits⟩)) fun fp => ?_
    cases fp with
    | none => trivial
    | some fp =>
        exact (printLines_names fp _).bind fun _ => .call (namesOnly_nil rfl) fun _ =>
          .call (namesOnly_nil rfl) fun _ => .call (namesOnly_nil rfl) fun _ => trivial

/-! ### An update -/

theorem waitForGuiResumeOnConnection_keeps :
    (waitForGuiResumeOnConnection cfg).Only (keepsTo cfg v) := by
  refine Prog.Only.bind (.iterate (fun waited => ?_) _ _) fun r => ?_
  · unfold waitRound
    simp only [Prog.call_bind, Prog.ret_bind]
    split
    · trivial
    refine .call trivial fun stop => ?_
    split
    · trivial
    refine .call trivial fun resume => ?_
    split
    · refine .call trivial fun ok => ?_
      split
      · trivial
      · exact .call trivial fun _ => trivial
    · exact .call trivial fun _ => trivial
  · cases r with
    | ended => exact .call trivial fun _ => .call trivial fun _ => trivial
    | resumed | expired => trivial

theorem saveInterruptedDownload_keeps (fp : Option Handle) (offset totalSize : ℕ) (sha : Bytes)
    (result : AttemptResult) :
    (saveInterruptedDownload cfg fp v offset totalSize sha result).Only (keepsTo cfg v) := by
  have hrest : Prog.Only (keepsTo cfg v) (do
      file (writeResumeMetadata cfg v offset totalSize sha)
      if result = .paused then setPaused
      else if result = .reconnect then setResumeRetryActive true
      else .ret ()
      .ret result) := by
    refine (file_keepsTo (writeResumeMetadata_names offset totalSize sha)).bind fun _ => ?_
    split
    · exact .call trivial fun _ => trivial
    · split
      · exact .call trivial fun _ => trivial
      · trivial
  unfold saveInterruptedDownload
  simp only [Prog.call_bind, Prog.ret_bind, file_call, file_ret]
  cases fp with
  | none => exact hrest
  | some fp =>
      exact .call (namesOnly_nil rfl) fun _ => .call (namesOnly_nil rfl) fun _ =>
        .call (namesOnly_nil rfl) fun _ => .call trivial fun _ => hrest

variable {d : Download}

/-- Closing the stream, and unlinking the part file. -/
theorem dropPart_keeps (hpart : (Path.part d.latest).fits cfg = true)
    (r : ℕ ⊕ Option AttemptResult) :
    Prog.Only (keepsTo cfg d.latest) (.call (ClientOp.file (.fclose d.fp)) fun _ =>
      .call (ClientOp.file (.unlink (.part d.latest))) fun _ => .ret r : ClientProg _) :=
  .call (namesOnly_nil rfl) fun _ =>
    .call (namesOnly_one rfl (.inr ⟨by simp, hpart⟩)) fun _ => trivial

theorem handleFrame_keeps (hpart : (Path.part d.latest).fits cfg = true) (received : ℕ) (f : Frame) :
    (handleFrame d received f).Only (keepsTo cfg d.latest) := by
  unfold handleFrame
  simp only [Prog.call_bind, Prog.ret_bind, file_call, file_ret]
  split
  · split
    · exact .call trivial fun _ => dropPart_keeps hpart _
    have hwritten (written : ℕ) : Prog.Only (keepsTo cfg d.latest)
        (if written ≠ f.payload.length then .call ClientOp.free fun _ =>
            .call (ClientOp.file (.fclose d.fp)) fun _ => .ret (.inr (some .retry))
          else .ret (.inl ((received + f.payload.length) % 2 ^ 64)) :
          ClientProg (ℕ ⊕ Option AttemptResult)) := by
      split
      · exact .call trivial fun _ => .call (namesOnly_nil rfl) fun _ => trivial
      · trivial
    split
    · exact .call (namesOnly_nil rfl) hwritten
    · exact hwritten 0
  · split
    · split
      · trivial
      · exact .call trivial fun _ => dropPart_keeps hpart _
    · exact .call trivial fun _ => dropPart_keeps hpart _
  · exact .call trivial fun _ => .call (namesOnly_nil rfl) fun _ => trivial

theorem downloadRound_keeps (d : Download) (hpart : (Path.part d.latest).fits cfg = true) (received : ℕ) :
    (downloadRound cfg d received).Only (keepsTo cfg d.latest) := by
  unfold downloadRound
  simp only [Prog.call_bind, Prog.ret_bind]
  refine .call trivial fun pause => ?_
  split
  · unfold pauseDownload
    simp only [Prog.call_bind, Prog.ret_bind, file_call, file_ret]
    refine .call (namesOnly_nil rfl) fun _ => .call (namesOnly_nil rfl) fun _ => ?_
    refine (file_keepsTo (writeResumeMetadata_names _ _ _)).bind fun _ => ?_
    refine .call trivial fun ok => ?_
    split
    · exact .call trivial fun _ => trivial
    · refine waitForGuiResumeOnConnection_keeps.bind fun r => ?_
      cases r with
      | resumed | expired | ended => trivial
  refine .call trivial fun stop => ?_
  split
  · exact (saveInterruptedDownload_keeps _ _ _ _ _).bind fun _ => trivial
  refine .call trivial fun r => ?_
  split
  · exact handleFrame_keeps hpart received _
  · refine .call trivial fun stop => ?_
    exact (saveInterruptedDownload_keeps _ _ _ _ _).bind fun _ => trivial

theorem installUpdate_keeps (bound : ℕ) (hpart : (Path.part d.latest).fits cfg = true)
    (hfinal : (Path.final d.latest).fits cfg = true) :
    (installUpdate bound cfg d).Only (keepsTo cfg d.latest) := by
  have hnamed : NamedFor cfg d.latest (.part d.latest) := .inr ⟨by simp, hpart⟩
  have hfail : Prog.Only (keepsTo cfg d.latest) (.call (ClientOp.file (.fclose d.fp)) fun _ =>
      .ret AttemptResult.retry : ClientProg _) :=
    .call (namesOnly_nil rfl) fun _ => trivial
  unfold installUpdate
  simp only [Prog.call_bind, Prog.ret_bind, file_call, file_ret]
  refine .call trivial fun _ => .call (namesOnly_nil rfl) fun flushed => ?_
  cases flushed with
  | false => exact hfail
  | true =>
      refine .call (namesOnly_nil rfl) fun synced => ?_
      cases synced with
      | false => exact hfail
      | true =>
          refine .call (namesOnly_nil rfl) fun _ => ?_
          refine (file_keepsTo (sha256FileHex_names bound _)).bind fun actual => ?_
          split
          · exact .call trivial fun _ => .call (namesOnly_one rfl hnamed) fun _ => trivial
          refine .call (namesOnly_rename hnamed (.inr ⟨by simp, hfinal⟩)) fun renamed => ?_
          split
          · trivial
          refine .call trivial fun _ => Prog.Only.bind ?_ fun _ => ?_
          · refine .call trivial fun r => ?_
            cases r with
            | ok f => trivial
            | eof | tooLarge | bad => trivial
          refine (file_keepsTo (writeVersionFile_names _)).bind fun ok => ?_
          split
          · trivial
          split
          · trivial
          · rename_i hresume
            exact .call (namesOnly_one rfl (.inr ⟨by simp, not_not.mp hresume⟩)) fun _ =>
              .call trivial fun _ => trivial

theorem downloadFrom_keeps (bound : ℕ) (sha : Bytes) (size chunk offset : ℕ)
    (hpart : (Path.part v).fits cfg = true) (hfinal : (Path.final v).fits cfg = true) :
    (downloadFrom bound cfg v sha size chunk offset).Only (keepsTo cfg v) := by
  have hopen : ∀ m : Mode, namesOnly cfg v (.fopen (.part v) m) := by
    intro m
    have hnamed : NamedFor cfg v (.part v) := .inr ⟨by simp, hpart⟩
    cases m with
    | r => exact namesOnly_nil rfl
    | w => exact namesOnly_one rfl hnamed
    | a => exact namesOnly_one rfl hnamed
  unfold downloadFrom
  simp only [Prog.call_bind, Prog.ret_bind, file_call, file_ret]
  refine .call trivial fun sent => ?_
  split
  · exact .call trivial fun _ => saveInterruptedDownload_keeps _ _ _ _ _
  refine .call (hopen _) fun fp => ?_
  cases fp with
  | none => trivial
  | some fp =>
      refine .call trivial fun buf => ?_
      split
      · exact .call (namesOnly_nil rfl) fun _ => trivial
      have hround (received : ℕ) :
          (downloadRound cfg ⟨fp, v, sha, size, chunk⟩ received).Only (keepsTo cfg v) :=
        downloadRound_keeps ⟨fp, v, sha, size, chunk⟩ hpart received
      refine (Prog.Only.iterate hround _ _).bind fun rc => ?_
      cases rc with
      | some rc => trivial
      | none => exact installUpdate_keeps bound hpart hfinal

/-- Each file an operation changes is confined, and its buffer holds the whole name. -/
def confines (cfg : ClientConfig) : ClientOp → Prop
  | .file o => ∀ p ∈ changedPaths o, p.buffer cfg = p.text cfg ∧ Confined cfg (p.buffer cfg)
  | _ => True

theorem receiveUpdate_confines (bound : ℕ) (info : Bytes)
    (hfile : cfg.clientVersionFile.length < maxPathLen) :
    (receiveUpdate bound cfg info).Only (confines cfg) := by
  have hmono {v : Bytes} (hv : verIsValid v = true) (o : ClientOp) (ho : keepsTo cfg v o) :
      confines cfg o := by
    cases o with
    | file o => exact fun p hp => (ho p hp).confined hv hfile
    | _ => trivial
  unfold receiveUpdate fileSizeOrZero
  simp only [Prog.call_bind, Prog.ret_bind, file_call, file_ret]
  split
  · rename_i latest sha _ _
    split
    · trivial
    rename_i hvalid
    refine Prog.Only.mono (hmono (not_not.mp hvalid)) ?_
    split
    · trivial
    rename_i hfinal
    split
    · trivial
    rename_i hpart
    rw [not_not] at hfinal hpart
    refine .call (namesOnly_nil rfl) fun size => ?_
    split
    · exact .call (namesOnly_one rfl (.inr ⟨by simp, hpart⟩)) fun _ =>
        downloadFrom_keeps bound sha _ _ 0 hpart hfinal
    · exact downloadFrom_keeps bound sha _ _ _ hpart hfinal
  · trivial

/-- **No server steers a file name.**  Whatever `UPDATE_AVAILABLE` carries, and whatever is answered
to every operation, each path `receive_update` is about to open for writing, rename or unlink is
whole in its buffer, and confined. -/
theorem receiveUpdate_confined (bound : ℕ) (cfg : ClientConfig) (info : Bytes)
    (hfile : cfg.clientVersionFile.length < maxPathLen) {o : FileOp Path}
    {k : FileOp.Res o → ClientProg AttemptResult} {tr : List (Call clientInterface)}
    (h : History (receiveUpdate bound cfg info) (.call (.file o) k) tr) :
    ∀ p ∈ changedPaths o, p.buffer cfg = p.text cfg ∧ Confined cfg (p.buffer cfg) :=
  show confines cfg (.file o) from
    ((receiveUpdate_confines bound info hfile).history h).2 (.file o) k rfl

/-- The part file of a padded version is about to be opened. -/
theorem receiveUpdate_confined_padded :
    ∃ k, History (receiveUpdate 1 .client001 (ascii "ver=01.05.0;sha256=00;size=3"))
        (.call (.file (.fopen (.part (ascii "01.05.0")) .w)) k)
        [⟨.file (.stat (.part (ascii "01.05.0"))), none⟩,
          ⟨.protoSend (textFrame .downloadReq (ascii "offset=0")), true⟩] ∧
      Confined .client001 (ascii "./clients/client_001/downloads/app-01.05.0.bin.part") := by
  have hreplay : ((receiveUpdate 1 .client001 (ascii "ver=01.05.0;sha256=00;size=3")).replay
      ([⟨.file (.stat (.part (ascii "01.05.0"))), none⟩,
        ⟨.protoSend (textFrame .downloadReq (ascii "offset=0")), true⟩] ++
        [⟨.file (.fopen (.part (ascii "01.05.0")) .w), none⟩])).isSome := by
    decide +kernel
  obtain ⟨k, hrun⟩ := Prog.history_call_of_replay (E := clientInterface) hreplay
  refine ⟨k, hrun, ?_⟩
  have hpath := receiveUpdate_confined 1 .client001 _ (by decide +kernel) hrun
    (.part (ascii "01.05.0")) (List.mem_singleton_self _)
  have hname : Path.buffer .client001 (.part (ascii "01.05.0")) =
      ascii "./clients/client_001/downloads/app-01.05.0.bin.part" := by decide +kernel
  exact hname ▸ hpath.2

end UpdateFramework
