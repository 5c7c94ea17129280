import UpdateFramework.Client.TableRun
import UpdateFramework.System.Service

/-!
# System — an attempt, as the client has it

What `run_attempt` does in a session where nothing fails, from the connection to the sleep after an
update.  A download keeps the bytes of the partial file (`kept`) unless there are more than the
package has, and appends the rest of the package to them (`stored`); what comes of it is the client's,
or is thrown away, as its digest says (`verdict`).
-/

namespace UpdateFramework.System

open Collections Libc Process Client

/-- What a download keeps of a partial file. -/
def kept (part : Option Bytes) (size : ℕ) : Bytes :=
  if (part.getD []).length > size then [] else part.getD []

/-- The partial file once the rest of the package has come. -/
def stored (part : Option Bytes) (content : Bytes) : Bytes :=
  kept part content.length ++ content.drop (kept part content.length).length

/-- What the client makes of a partial file. -/
def verdict (sha file : Bytes) : Bytes :=
  if strcaseeq (hexText (Fips180.sha256 file)) sha then ascii "ok" else ascii "checksum_fail"

theorem length_kept_le (part : Option Bytes) (size : ℕ) : (kept part size).length ≤ size := by
  rw [kept]
  split_ifs with h
  · exact Nat.zero_le _
  · exact not_lt.mp h

theorem verdict_status (sha file : Bytes) : Status (verdict sha file) := by
  rw [verdict]
  split
  · exact .inl rfl
  · exact .inr rfl

/-- What the client's configuration promises. -/
structure Configured (cfg : ClientConfig) : Prop where
  id : RowId cfg.clientId
  plain : 59 ∉ cfg.clientId
  table : cfg.clientVersionFile ≠ []
  downloadDir : cfg.downloadDir.length < maxPathLen

/-- No path of a download is cut. -/
theorem Configured.fits {cfg : ClientConfig} (h : Configured cfg) {v : Bytes}
    (hv : v.length < maxVersionStr) : (Path.final v).fits cfg = true ∧
      (Path.part v).fits cfg = true ∧ (Path.resume v).fits cfg = true := by
  have hdir : cfg.downloadDir.length < 256 := h.downloadDir
  have hversion : v.length < 32 := hv
  have hnames : (ascii "/app-").length = 5 ∧ (ascii ".bin").length = 4 ∧
      (ascii ".part").length = 5 ∧ (ascii ".resume").length = 7 := by decide
  have hmax : maxPathLen = 256 := rfl
  simp only [Path.fits, Path.text, List.length_append, hnames, decide_eq_true_eq]
  omega

theorem length_kept_add (part : Option Bytes) (content : Bytes) :
    (kept part content.length).length +
      (content.drop (kept part content.length).length).length = content.length := by
  have hle := length_kept_le part content.length
  rw [List.length_drop]
  omega

/-- The digest of an offer is sent as a field, and read as it is. -/
theorem Offered.digestField {scfg : ServerConfig} {m : Manifest} {path content : Bytes}
    (h : Offered scfg m path content) : PlainPair (ascii "sha256", m.checksumSha256) ∧
      m.checksumSha256.length = sha256HexLen := by
  have hkey : 61 ∉ ascii "sha256" ∧ 59 ∉ ascii "sha256" ∧ 0 ∉ ascii "sha256" := by decide
  exact ⟨⟨hkey, h.advertisable.plainChecksum⟩, h.advertisable.checksum⟩

theorem kvGet_transferDone {sha : Bytes}
    (h : PlainPair (ascii "sha256", sha) ∧ sha.length = sha256HexLen) :
    kvGet (fieldFrame .transferDone (ascii "sha256=" ++ sha)).payload (ascii "sha256")
      sha256HexBuf = some sha := by
  have hshort : (kvPair (ascii "sha256", sha)).length ≤ maxControlPayload := by
    have hlen : sha.length = 64 := h.2
    rw [length_kvPair, hlen]
    decide
  exact kvGet_iff.mpr ⟨firstField_fieldFrame h.1 hshort, by rw [h.2]; decide⟩

section Download

variable {fd : ℕ} {α : Type} {Q : α → ClientSide → Transcript Frame → List (Transcript Frame) → Prop}
  {s : ClientSide} {T : Transcript Frame} {Ts : List (Transcript Frame)} {d : Download}
  {received : ℕ} {bs : Bytes}

/-- A part that arrives is written. -/
theorem handleFrame_data {p : Bytes} {flags : UInt8} (hne : p ≠ [])
    (hfit : received + p.length ≤ d.size)
    (hsize : d.size < 2 ^ 63) (hw : s.files.Writing d.fp (.part d.latest) bs) :
    ∃ fs : FileSystem Path, s.files.ok (.fwrite d.fp p) = (p.length, fs) ∧
      fs.Writing d.fp (.part d.latest) (bs ++ p) ∧ fs.disk = s.files.disk ∧
      ClientLeads fd (handleFrame d received ⟨.data, flags, p⟩) s T
        (.ret (.inl (received + p.length))) { s with files := fs } T := by
  have hmod : (received + p.length) % 2 ^ 64 = received + p.length := Nat.mod_eq_of_lt (by omega)
  have hpos : p.length > 0 := List.length_pos_iff.mpr hne
  obtain ⟨fs, hok, hw', hd⟩ := hw.fwrite p
  refine ⟨fs, hok, hw', hd, ?_⟩
  unfold handleFrame
  simp only [hmod, if_neg (not_lt.mpr hfit), if_pos hpos]
  refine client_file (a := p.length) (congrArg some hok) ?_
  rw [if_neg (not_not_intro rfl)]
  exact .refl ..

/-- A round in which a frame arrives. -/
theorem downloadRound_takes (cfg : ClientConfig) {f : Frame}
    (hf : arrival (d.chunk + 1) d.chunk f = .ok f) {k : ℕ ⊕ Option AttemptResult → ClientProg α}
    (hk : Plays (clientSide fd) .left Q (handleFrame d received f >>= k) s T Ts) :
    Plays (clientSide fd) .left Q (downloadRound cfg d received >>= k) s ((.right, f) :: T) Ts := by
  unfold downloadRound
  simp only [Prog.call_bind, Prog.ret_bind]
  refine (plays_does rfl).mpr ((plays_does rfl).mpr ?_)
  refine ⟨f, T, rfl, ?_⟩
  simp only [hf]
  exact hk

theorem handleFrame_done {done : Frame} (htype : done.type = .transferDone)
    (hsha : kvGet done.payload (ascii "sha256") sha256HexBuf = some d.sha) :
    handleFrame d received done = .ret (.inr none) := by
  have hsame : strcaseeq d.sha d.sha = true := beq_self_eq_true _
  rw [handleFrame, htype]
  simp only [hsha, hsame, if_true]

/-- The part that comes first, and what is left. -/
theorem first_part {chunk : ℕ} (hpos : 0 < chunk) {rest : Bytes} (hne : rest ≠ []) :
    rest.take chunk ≠ [] ∧ (rest.take chunk).length ≤ chunk ∧
      (rest.take chunk).length + (rest.drop chunk).length = rest.length ∧
      0 < (rest.take chunk).length := by
  have hnonempty : rest.take chunk ≠ [] := by
    intro h
    rcases List.take_eq_nil_iff.mp h with h | h
    · exact Nat.ne_of_gt hpos h
    · exact hne h
  refine ⟨hnonempty, List.length_take_le .., ?_, List.length_pos_iff.mpr hnonempty⟩
  rw [← List.length_append, List.take_append_drop]

/-- The loop takes in the parts of `rest`, and ends at the `TRANSFER_DONE` that names the digest. -/
theorem downloadRounds_plays (cfg : ClientConfig) (hchunk : minChunkSize ≤ d.chunk)
    (hsize : d.size < 2 ^ 63) {done : Frame} (htype : done.type = .transferDone)
    (hfits : done.payload.length ≤ maxControlPayload)
    (hsha : kvGet done.payload (ascii "sha256") sha256HexBuf = some d.sha) {rest : Bytes}
    (hrest : received + rest.length = d.size) (hw : s.files.Writing d.fp (.part d.latest) bs) {n : ℕ}
    (hn : rest.length < n) :
    Plays (clientSide fd) .left (fun r t U Us => r = none ∧ U = T ∧ Us = Ts ∧
        ∃ fs : FileSystem Path, t = { s with files := fs } ∧ fs.disk = s.files.disk ∧
          fs.Writing d.fp (.part d.latest) (bs ++ rest))
      (Prog.iterate n (downloadRound cfg d) received) s
      (said .right (dataFrames (cut d.chunk rest)) ++ (.right, done) :: T) Ts := by
  have hpos : 0 < d.chunk := Nat.lt_of_lt_of_le (by decide) hchunk
  have hlimit : maxControlPayload ≤ d.chunk + 1 :=
    (show maxControlPayload ≤ minChunkSize by decide).trans (Nat.le_succ_of_le hchunk)
  induction rest using cutInduction hpos generalizing s received bs n with
  | nil =>
      obtain ⟨n, rfl⟩ : ∃ k, n = k + 1 := ⟨n - 1, by omega⟩
      rw [cut_nil, dataFrames, said_nil, List.nil_append, Prog.iterate]
      have hallowed : allowedLen done.type d.chunk = maxControlPayload := by
        rw [htype]
        exact if_neg (by decide)
      refine downloadRound_takes cfg (if_pos ⟨hallowed ▸ hfits, hfits.trans hlimit⟩) ?_
      rw [handleFrame_done htype hsha, List.append_nil]
      exact ⟨rfl, rfl, rfl, s.files, rfl, rfl, hw⟩
  | part rest hne ih =>
      obtain ⟨n, rfl⟩ : ∃ k, n = k + 1 := ⟨n - 1, by omega⟩
      obtain ⟨hnonempty, hpart, hlen, hfirst⟩ := first_part hpos hne
      rw [cut_of_ne_nil hpos hne, dataFrames, said_cons, List.cons_append, Prog.iterate]
      refine downloadRound_takes cfg (if_pos ⟨hpart, Nat.le_succ_of_le hpart⟩) ?_
      have hfit : received + (rest.take d.chunk).length ≤ d.size := by omega
      obtain ⟨fs, -, hw', hd, hleads⟩ := handleFrame_data hnonempty hfit hsize hw
      refine (hleads.bind _).plays ?_
      refine Plays.post (ih (s := { s with files := fs }) (by omega) hw' (by omega)) ?_
      rintro r t U Us ⟨hr, hU, hUs, fs', rfl, hd', hw''⟩
      rw [List.append_assoc, List.take_append_drop] at hw''
      exact ⟨hr, hU, hUs, fs', rfl, hd'.trans hd, hw''⟩

/-- `installUpdate` once the partial file's digest is known. -/
def judgeUpdate (cfg : ClientConfig) (d : Download) (actual : Option Bytes) :
    ClientProg AttemptResult := do
  if ¬ actual.any (strcaseeq · d.sha) then
    let _ ← protoSendText .result (ascii "status=checksum_fail")
    let _ ← file (unlink (.part d.latest))
    .ret .retry
  else if ¬ (← file (rename (.part d.latest) (.final d.latest))) then .ret .fatal
  else
    let _ ← protoSendText .result (ascii "status=ok")
    let _ ← Client.recvControl
    if ¬ (← file (writeVersionFile cfg d.latest)) then .ret .fatal
    else if ¬ (Path.resume d.latest).fits cfg then .ret .fatal
    else
      let _ ← file (unlink (.resume d.latest))
      setResumeRetryActive false
      .ret .success

variable {R : AttemptResult → ClientSide → Transcript Frame → List (Transcript Frame) → Prop}

/-- Everything written is in the partial file when its digest is computed. -/
theorem installUpdate_leads (cfg : ClientConfig) {bound : ℕ} {before : Bytes}
    (hw : s.files.Writing d.fp (.part d.latest) bs) (hpart : s.files.disk (.part d.latest) = some before)
    (hbound : (before ++ bs).length / 65536 < bound) :
    ∃ fs : FileSystem Path,
      fs.disk = Function.update s.files.disk (.part d.latest) (some (before ++ bs)) ∧
      ClientLeads fd (installUpdate bound cfg d) s T
        (judgeUpdate cfg d (some (hexText (Fips180.sha256 (before ++ bs))))) { s with files := fs } T := by
  obtain ⟨fs₁, hflush, hw₁, hd₁⟩ := hw.fflush
  obtain ⟨fs₂, hclose, hd₂⟩ := hw₁.fclose
  have hdisk : fs₂.disk = Function.update s.files.disk (.part d.latest) (some (before ++ bs)) := by
    rw [hd₂, hd₁, hpart, Option.map_some]
  obtain ⟨fs₃, hsha, hd₃⟩ := @sha256FileHex_eval Path _ bound fs₂ (.part d.latest) _
    (hdisk ▸ Function.update_self ..) hbound
  refine ⟨fs₃, hd₃.trans hdisk, ?_⟩
  unfold installUpdate
  simp only [Prog.call_bind, Prog.ret_bind]
  refine .does trivial rfl ?_
  refine client_file (a := true) (congrArg some hflush) ?_
  simp only [if_true]
  refine client_file (s := ⟨fs₁, _, _⟩) (a := true) (congrArg some hw₁.fsync) ?_
  simp only [not_true_eq_false, if_false]
  refine client_file (s := ⟨fs₁, _, _⟩) (a := true) (congrArg some hclose) ?_
  exact client_file (s := ⟨fs₂, _, _⟩) hsha (.refl ..)

/-- The version is installed, and in the table. -/
structure Installed (latest file table : Bytes) (fs : FileSystem Path) : Prop where
  final : fs.disk (.final latest) = some file
  part : fs.disk (.part latest) = none
  table : fs.disk .table = some table

theorem judgeUpdate_installs {cfg : ClientConfig} (hcfg : Configured cfg) {file table : Bytes}
    (hlatest : d.latest.length < maxVersionStr) (hpart : s.files.disk (.part d.latest) = some file)
    (hdigest : strcaseeq (hexText (Fips180.sha256 file)) d.sha = true)
    (htable : writtenTable cfg d.latest (s.files.disk .table) = some table) :
    ∃ t : ClientSide, t.connections = s.connections ∧ Installed d.latest file table t.files ∧
      ClientLeads fd (judgeUpdate cfg d (some (hexText (Fips180.sha256 file)))) s
        ((.left, textFrame .result (ascii "status=ok")) :: (.right, emptyFrame .bye) :: T)
        (.ret .success) t T := by
  obtain ⟨fs₁, hrename, hd₁⟩ := FileSystem.ok_rename hpart (Path.final d.latest)
  obtain ⟨fs₂, hwrite, hd₂⟩ := writeVersionFile_eval cfg hcfg.table hcfg.id.nonempty d.latest fs₁
  obtain ⟨r, fs₃, hunlink, hd₃⟩ := FileSystem.ok_unlink fs₂ (Path.resume d.latest)
  have hsame : fs₁.disk .table = s.files.disk .table := by
    rw [hd₁]
    rfl
  rw [hsame, htable] at hwrite hd₂
  have hdisk : fs₃.disk = Function.update (Function.update (Function.update (Function.update
      (Function.update s.files.disk (.part d.latest) none) (.final d.latest) (some file))
        .tableTmp none) .table (some table)) (.resume d.latest) none := by
    rw [hd₃, hd₂, hd₁]
  refine ⟨⟨fs₃, false, s.connections⟩, rfl, ⟨by simp [hdisk], by simp [hdisk], by simp [hdisk]⟩, ?_⟩
  have hok : Control (textFrame .result (ascii "status=ok")) := Status.control (.inl rfl)
  unfold judgeUpdate
  simp only [Option.any_some, hdigest, not_true_eq_false, if_false, Prog.call_bind, Prog.ret_bind]
  refine client_file (a := true) (congrArg some hrename) ?_
  simp only [not_true_eq_false, if_false]
  refine client_sends hok (client_recvControl (control_emptyFrame (by decide)) ?_)
  refine client_file (s := ⟨fs₁, _, _⟩) hwrite ?_
  simp only [Option.isSome_some, not_true_eq_false, if_false, (hcfg.fits hlatest).2.2]
  refine client_file (s := ⟨fs₂, _, _⟩) (a := r) (congrArg some hunlink) ?_
  exact .does trivial rfl (.refl ..)

/-- A partial file with another digest is thrown away, and the table is not touched; what the server
says to it is never read. -/
theorem judgeUpdate_discards (cfg : ClientConfig) {file : Bytes}
    (hdigest : strcaseeq (hexText (Fips180.sha256 file)) d.sha = false) :
    ∃ fs : FileSystem Path, fs.disk = Function.update s.files.disk (.part d.latest) none ∧
      ClientLeads fd (judgeUpdate cfg d (some (hexText (Fips180.sha256 file)))) s
        ((.left, textFrame .result (ascii "status=checksum_fail")) :: T) (.ret .retry)
        { s with files := fs } T := by
  obtain ⟨r, fs, hunlink, hd⟩ := FileSystem.ok_unlink s.files (Path.part d.latest)
  have hfail : Control (textFrame .result (ascii "status=checksum_fail")) := Status.control (.inr rfl)
  refine ⟨fs, hd, ?_⟩
  unfold judgeUpdate
  simp only [Option.any_some, hdigest, Bool.false_eq_true, not_false_eq_true, if_true,
    Prog.call_bind, Prog.ret_bind]
  refine client_sends hfail ?_
  exact client_file (a := r) (congrArg some hunlink) (.refl ..)

/-- `downloadFrom` after its loop. -/
def afterRounds (bound : ℕ) (cfg : ClientConfig) (d : Download) :
    Option AttemptResult → ClientProg AttemptResult
  | some rc => .ret rc
  | none => installUpdate bound cfg d

/-- A download up to its loop: the stream goes on where the bytes that are kept end. -/
theorem downloadFrom_leads (cfg : ClientConfig) (bound size chunk : ℕ) (latest sha : Bytes)
    {keep : Bytes} (hkeep : keep ≠ [] → s.files.disk (.part latest) = some keep) :
    ∃ fs : FileSystem Path,
      (∃ mode, s.files.ok (.fopen (.part latest) mode) = (some s.files.fresh, fs)) ∧
      fs.Writing s.files.fresh (.part latest) [] ∧
      fs.disk = Function.update s.files.disk (.part latest) (some keep) ∧
      ClientLeads fd (downloadFrom bound cfg latest sha size chunk keep.length) s
        ((.left, fieldFrame .downloadReq (ascii "offset=" ++ decimal keep.length)) :: T)
        (Prog.iterate bound (downloadRound cfg ⟨s.files.fresh, latest, sha, size, chunk⟩) keep.length >>=
          afterRounds bound cfg ⟨s.files.fresh, latest, sha, size, chunk⟩) { s with files := fs } T := by
  have hopen : ∃ fs : FileSystem Path,
      s.files.ok (.fopen (.part latest) (if keep.length > 0 then .a else .w)) =
        (some s.files.fresh, fs) ∧ fs.Writing s.files.fresh (.part latest) [] ∧
      fs.disk = Function.update s.files.disk (.part latest) (some keep) := by
    by_cases hnil : keep = []
    · subst hnil
      exact s.files.fopen_writing _
    · rw [if_pos (List.length_pos_iff.mpr hnil)]
      have happend := s.files.fopen_appending (Path.part latest)
      rwa [hkeep hnil] at happend
  obtain ⟨fs, hok, hw, hd⟩ := hopen
  refine ⟨fs, ⟨_, hok⟩, hw, hd, ?_⟩
  unfold downloadFrom
  simp only [Prog.call_bind, Prog.ret_bind]
  refine client_sends (control_fieldFrame (by decide) _) ?_
  simp only [not_true_eq_false, if_false]
  refine client_file (a := some s.files.fresh) (congrArg some hok) ?_
  refine .does trivial rfl ?_
  simp only [not_true_eq_false, if_false]
  exact .refl ..

/-- A download from the end of the bytes that are kept. -/
theorem downloadFrom_plays (cfg : ClientConfig) {bound size chunk : ℕ}
    {latest sha keep rest : Bytes}
    (hkeep : keep ≠ [] → s.files.disk (.part latest) = some keep)
    (hchunk : minChunkSize ≤ chunk) (hsize : size < 2 ^ 63)
    (hrest : keep.length + rest.length = size)
    (hsha : PlainPair (ascii "sha256", sha) ∧ sha.length = sha256HexLen) (hbound : size < bound)
    (hk : ∀ (fp : Handle) (fs : FileSystem Path),
      fs.disk = Function.update s.files.disk (.part latest) (some (keep ++ rest)) →
      Plays (clientSide fd) .left R (judgeUpdate cfg ⟨fp, latest, sha, size, chunk⟩
        (some (hexText (Fips180.sha256 (keep ++ rest))))) { s with files := fs } T Ts) :
    Plays (clientSide fd) .left R (downloadFrom bound cfg latest sha size chunk keep.length) s
      ((.left, fieldFrame .downloadReq (ascii "offset=" ++ decimal keep.length)) ::
        (said .right (dataFrames (cut chunk rest)) ++
          (.right, fieldFrame .transferDone (ascii "sha256=" ++ sha)) :: T)) Ts := by
  obtain ⟨fs₁, -, hw, hd₁, hleads⟩ := downloadFrom_leads cfg bound size chunk latest sha hkeep
  refine hleads.plays (plays_bind.mpr ?_)
  refine Plays.post (downloadRounds_plays (s := ⟨fs₁, _, _⟩) cfg hchunk hsize rfl
    (control_fieldFrame (by decide) _).2 (kvGet_transferDone hsha) hrest hw (by omega)) ?_
  rintro r t U Us ⟨rfl, rfl, rfl, fs₂, rfl, hd₂, hw₂⟩
  have hdisk : fs₂.disk = Function.update s.files.disk (.part latest) (some keep) := hd₂.trans hd₁
  have hlen : (keep ++ rest).length / 65536 < bound := by
    rw [List.length_append]
    omega
  obtain ⟨fs, hd, hinstall⟩ := installUpdate_leads (s := ⟨fs₂, _, _⟩) cfg hw₂
    (hdisk ▸ Function.update_self ..) hlen
  refine hinstall.plays (hk _ fs ?_)
  rw [hd, List.nil_append, hdisk, Function.update_idem]

/-- What is left of the conversation once the client has the offer, up to its verdict. -/
def downloadTurn (cfg : ServerConfig) (m : Manifest) (content : Bytes) (offset : ℕ)
    (T : Transcript Frame) : Transcript Frame :=
  (.left, fieldFrame .downloadReq (ascii "offset=" ++ decimal offset)) ::
    (said .right (dataFrames (cut cfg.chunkSize (content.drop offset))) ++
      (.right, fieldFrame .transferDone (ascii "sha256=" ++ m.checksumSha256)) :: T)

/-- `receive_update` up to its request: a partial file that is too long is gone. -/
theorem receiveUpdate_leads {scfg : ServerConfig} {m : Manifest} {path content : Bytes}
    (hoffered : Offered scfg m path content) {cfg : ClientConfig} (hcfg : Configured cfg) (bound : ℕ)
    {part : Option Bytes} (hpart : s.files.disk (.part m.latestVersion) = part) :
    ∃ fs : FileSystem Path,
      (kept part content.length ≠ [] →
        fs.disk (.part m.latestVersion) = some (kept part content.length)) ∧
      (∀ c, Function.update fs.disk (.part m.latestVersion) c =
        Function.update s.files.disk (.part m.latestVersion) c) ∧
      ClientLeads fd (Client.receiveUpdate bound cfg (Server.updateMeta scfg m)) s T
        (downloadFrom bound cfg m.latestVersion m.checksumSha256 m.packageSize scfg.chunkSize
          (kept part content.length).length) { s with files := fs } T := by
  have hstat : s.files.ok (.stat (.part m.latestVersion)) = (part.map List.length, s.files) := by
    rw [FileSystem.ok_stat, hpart]
  have hsize : (part.map List.length).getD 0 = (part.getD []).length := by
    cases part
    · rfl
    · rfl
  obtain ⟨hfinal, hpartFits, -⟩ := hcfg.fits hoffered.advertisable.version
  rw [(offerArrives scfg hoffered.advertisable hoffered.latestVersion).2.2.2]
  unfold receiveOffer
  simp only [hfinal, hpartFits, not_true_eq_false, if_false, fileSizeOrZero, Prog.bind_bind]
  rw [kept]
  split_ifs with hlong
  · obtain ⟨r, fs, hunlink, hd⟩ := FileSystem.ok_unlink s.files (Path.part m.latestVersion)
    refine ⟨fs, fun h => absurd rfl h, fun c => by rw [hd, Function.update_idem], ?_⟩
    refine client_file (a := part.map List.length) (congrArg some hstat) ?_
    simp only [Prog.ret_bind, hsize, hoffered.packageSize, if_pos hlong]
    exact client_file (a := r) (congrArg some hunlink) (.refl ..)
  · refine ⟨s.files, fun hne => ?_, fun c => rfl, ?_⟩
    · cases part with
      | none => exact absurd rfl hne
      | some c => exact hpart
    · refine client_file (a := part.map List.length) (congrArg some hstat) ?_
      simp only [Prog.ret_bind, hsize, hoffered.packageSize, if_neg hlong]
      exact .refl ..

theorem receiveUpdate_plays {scfg : ServerConfig} {m : Manifest} {path content : Bytes}
    (hoffered : Offered scfg m path content) {cfg : ClientConfig} (hcfg : Configured cfg) {bound : ℕ}
    (hbound : content.length < bound) {part : Option Bytes}
    (hpart : s.files.disk (.part m.latestVersion) = part)
    (hk : ∀ (fp : Handle) (fs : FileSystem Path),
      fs.disk = Function.update s.files.disk (.part m.latestVersion) (some (stored part content)) →
      Plays (clientSide fd) .left R
        (judgeUpdate cfg ⟨fp, m.latestVersion, m.checksumSha256, m.packageSize, scfg.chunkSize⟩
          (some (hexText (Fips180.sha256 (stored part content))))) { s with files := fs } T Ts) :
    Plays (clientSide fd) .left R (Client.receiveUpdate bound cfg (Server.updateMeta scfg m)) s
      (downloadTurn scfg m content (kept part content.length).length T) Ts := by
  obtain ⟨fs, hkeep, hsame, hleads⟩ := receiveUpdate_leads hoffered hcfg bound hpart
  refine hleads.plays ?_
  rw [hoffered.packageSize] at hk ⊢
  refine downloadFrom_plays (s := ⟨fs, _, _⟩) cfg hkeep scfg.chunkSize_range.1 hoffered.small
    (length_kept_add part content) hoffered.digestField hbound fun fp fs' hd' => hk fp fs' ?_
  rw [hd', hsame]
  rfl

/-! ### A whole attempt -/

/-- The conversation up to the version of the client. -/
theorem converse_leads (cfg : ClientConfig) (bound : ℕ) (current : Bytes) (ssl : Bool) :
    ClientLeads fd (converse bound cfg current fd ssl) s (introduction cfg.clientId current ++ T)
      (requestVersion bound cfg current fd ssl) s
      ((.left, fieldFrame .versionReq (ascii "cur=" ++ current)) :: T) := by
  have hhello : Control (textFrame .hello (ascii "srv=updctl;proto=1")) := ⟨by decide, by decide⟩
  unfold converse introduction
  simp only [Prog.call_bind, Prog.ret_bind, List.cons_append, List.nil_append]
  refine client_recvControl hhello ?_
  refine client_sends (control_fieldFrame (by decide) _) ?_
  simp only [not_true_eq_false, if_false]
  exact client_recvControl (control_emptyFrame (by decide)) (.refl ..)

/-- A client with the latest version is dismissed. -/
theorem requestVersion_dismissed (cfg : ClientConfig) (bound : ℕ) (current : Bytes) (ssl : Bool)
    (m : Manifest) :
    ClientLeads fd (requestVersion bound cfg current fd ssl) s
      ((.left, fieldFrame .versionReq (ascii "cur=" ++ current)) :: dismissal m) (.ret .success)
      { s with resumeRetry := false } [] := by
  unfold requestVersion dismissal
  simp only [Prog.call_bind, Prog.ret_bind]
  refine client_sends (control_fieldFrame (by decide) _) ?_
  simp only [not_true_eq_false, if_false]
  refine client_recvControl (control_fieldFrame (by decide) _) ?_
  refine client_recvControl (control_emptyFrame (by decide)) ?_
  refine client_closes (.does trivial rfl ?_)
  exact client_sleeps 10000 (.refl ..)

/-- `requestVersion` after an update. -/
def closeAfter (fd : ℕ) (ssl : Bool) (rc : AttemptResult) : ClientProg AttemptResult := do
  closeAttemptConnection fd ssl
  if rc = .success then
    if ← interruptibleSleepMs 10000 then .ret .paused else .ret rc
  else .ret rc

/-- An offer is taken up. -/
theorem requestVersion_offered {scfg : ServerConfig} {m : Manifest} (h : Advertisable m)
    (cfg : ClientConfig) (bound : ℕ) (current : Bytes) (ssl : Bool) :
    ClientLeads fd (requestVersion bound cfg current fd ssl) s
      ((.left, fieldFrame .versionReq (ascii "cur=" ++ current)) ::
        (.right, textFrame .updateAvailable (Server.updateMeta scfg m)) :: T)
      (receiveUpdate bound cfg (Server.updateMeta scfg m) >>= closeAfter fd ssl) s T := by
  have hcontrol : Control (textFrame .updateAvailable (Server.updateMeta scfg m)) :=
    control_textFrame (by decide) _
  have hpayload : cstr (Server.updateMeta scfg m) = Server.updateMeta scfg m := by
    rw [(updateMeta_eq scfg h).1]
    exact cstr_eq_self (zero_not_mem_kvJoin (offerFields_plain scfg h))
  unfold requestVersion
  simp only [Prog.call_bind, Prog.ret_bind]
  refine client_sends (control_fieldFrame (by decide) _) ?_
  simp only [not_true_eq_false, if_false]
  refine client_recvControl hcontrol ?_
  simp only [textFrame, hpayload]
  exact .refl ..

/-- After an update the client sleeps. -/
theorem closeAfter_leads (ssl : Bool) {rc : AttemptResult} :
    ClientLeads fd (closeAfter fd ssl rc) s T (.ret rc) s T := by
  unfold closeAfter
  refine client_closes ?_
  split_ifs with hrc
  · exact client_sleeps 10000 (.refl ..)
  · exact .refl ..

theorem runAttempt_plays (cfg : ClientConfig) (bound : ℕ) (current : Bytes) {U : Transcript Frame}
    (hT : ∀ x ∈ T, x.1 ≠ .left)
    (hk : ∀ ssl, Plays (clientSide fd) .left R (converse bound cfg current fd ssl)
      { s with connections := s.connections + 1 } U Ts) :
    Plays (clientSide fd) .left R (runAttempt bound cfg current) s T (U :: Ts) := by
  unfold runAttempt
  simp only [Prog.call_bind, Prog.ret_bind]
  refine (plays_opens rfl hT).mpr ?_
  refine (plays_does rfl).mpr ((plays_does rfl).mpr ?_)
  simp only [Bool.false_eq_true, if_false]
  by_cases htls : cfg.enableTls = true
  · rw [if_pos htls]
    refine (plays_does rfl).mpr ?_
    exact hk true
  · rw [if_neg htls]
    exact hk false

/-- An attempt that is offered a version: what is left is what comes of the download. -/
theorem runAttempt_offered {scfg : ServerConfig} {m : Manifest} (h : Advertisable m)
    (cfg : ClientConfig) (bound : ℕ) (current : Bytes) {U : Transcript Frame}
    (hT : ∀ x ∈ T, x.1 ≠ .left)
    (hk : Plays (clientSide fd) .left R (receiveUpdate bound cfg (Server.updateMeta scfg m))
      { s with connections := s.connections + 1 } U Ts) :
    Plays (clientSide fd) .left R (runAttempt bound cfg current) s T
      ((introduction cfg.clientId current ++
        (.right, textFrame .updateAvailable (Server.updateMeta scfg m)) :: U) :: Ts) := by
  refine runAttempt_plays cfg bound current hT fun ssl => ?_
  refine ((converse_leads cfg bound current ssl).trans
    (requestVersion_offered h cfg bound current ssl)).plays (plays_bind.mpr (hk.post ?_))
  exact fun rc t U Us hR => (closeAfter_leads ssl).plays hR

end Download

/-! ### Attempts of a client -/

/-- The conversation of a client whose version compares to the latest as `cmp` says, and who has
`part` of the package. -/
def conversation (scfg : ServerConfig) (m : Manifest) (content clientId current : Bytes) (cmp : ℤ)
    (part : Option Bytes) : Transcript Frame :=
  introduction clientId current ++ reply scfg m cmp (kept part content.length).length
    (content.drop (kept part content.length).length) (verdict m.checksumSha256 (stored part content))

section Attempts

variable {fd : ℕ} {scfg : ServerConfig} {m : Manifest} {path content : Bytes} {cfg : ClientConfig}
  {bound : ℕ} {current : Bytes} {cmp : ℤ} {part : Option Bytes} {s : ClientSide}
  {T : Transcript Frame} {Ts : List (Transcript Frame)}

/-- A client with the latest version changes no file. -/
theorem runAttempt_dismissed (hcmp : 0 ≤ cmp) (hT : ∀ x ∈ T, x.1 ≠ .left) :
    Plays (clientSide fd) .left (fun rc t U Us => rc = .success ∧ U = [] ∧ Us = Ts ∧
        t.connections = s.connections + 1 ∧ t.files = s.files)
      (runAttempt bound cfg current) s T
      (conversation scfg m content cfg.clientId current cmp part :: Ts) := by
  refine runAttempt_plays cfg bound current hT fun ssl => ?_
  rw [conversation, reply, if_pos hcmp]
  refine ((converse_leads cfg bound current ssl).trans
    (requestVersion_dismissed cfg bound current ssl m)).plays ?_
  exact ⟨rfl, rfl, rfl, rfl, rfl⟩

/-- What a client with an older version downloads is installed where it has the right digest. -/
theorem runAttempt_installs (hoffered : Offered scfg m path content) (hcfg : Configured cfg)
    (hbound : content.length < bound) (hcmp : cmp < 0)
    (hpart : s.files.disk (.part m.latestVersion) = part)
    (hdigest : strcaseeq (hexText (Fips180.sha256 (stored part content))) m.checksumSha256 = true)
    {table : Bytes} (htable : writtenTable cfg m.latestVersion (s.files.disk .table) = some table)
    (hT : ∀ x ∈ T, x.1 ≠ .left) :
    Plays (clientSide fd) .left (fun rc t U Us => rc = .success ∧ U = [] ∧ Us = Ts ∧
        t.connections = s.connections + 1 ∧
        Installed m.latestVersion (stored part content) table t.files)
      (runAttempt bound cfg current) s T
      (conversation scfg m content cfg.clientId current cmp part :: Ts) := by
  rw [conversation, reply, if_neg (not_le.mpr hcmp), verdict, if_pos hdigest]
  refine runAttempt_offered hoffered.advertisable cfg bound current hT ?_
  refine receiveUpdate_plays (s := ⟨s.files, _, _⟩) hoffered hcfg hbound hpart fun fp fs hd => ?_
  have hfile : fs.disk (.part m.latestVersion) = some (stored part content) :=
    hd ▸ Function.update_self ..
  have hsame : fs.disk .table = s.files.disk .table := by
    rw [hd]
    exact Function.update_of_ne (by simp) ..
  obtain ⟨t, hconnections, h, hleads⟩ := judgeUpdate_installs (s := ⟨fs, s.resumeRetry, _⟩)
    (d := ⟨fp, _, _, _, _⟩) hcfg hoffered.advertisable.version hfile hdigest (hsame.symm ▸ htable)
  exact hleads.plays ⟨rfl, rfl, rfl, hconnections, h⟩

/-- What has another digest is thrown away, and nothing else has changed; `BYE` is never read. -/
theorem runAttempt_discards (hoffered : Offered scfg m path content) (hcfg : Configured cfg)
    (hbound : content.length < bound) (hcmp : cmp < 0)
    (hpart : s.files.disk (.part m.latestVersion) = part)
    (hdigest : strcaseeq (hexText (Fips180.sha256 (stored part content))) m.checksumSha256 = false)
    (hT : ∀ x ∈ T, x.1 ≠ .left) :
    Plays (clientSide fd) .left (fun rc t U Us => rc = .retry ∧ U = [(.right, emptyFrame .bye)] ∧
        Us = Ts ∧ t.connections = s.connections + 1 ∧
        t.files.disk = Function.update s.files.disk (.part m.latestVersion) none)
      (runAttempt bound cfg current) s T
      (conversation scfg m content cfg.clientId current cmp part :: Ts) := by
  rw [conversation, reply, if_neg (not_le.mpr hcmp), verdict,
    if_neg (by rw [hdigest]; exact Bool.false_ne_true)]
  refine runAttempt_offered hoffered.advertisable cfg bound current hT ?_
  refine receiveUpdate_plays (s := ⟨s.files, _, _⟩) hoffered hcfg hbound hpart fun fp fs hd => ?_
  obtain ⟨fs', hd', hleads⟩ := judgeUpdate_discards (s := ⟨fs, s.resumeRetry, _⟩)
    (d := ⟨fp, _, _, _, _⟩) cfg hdigest
  refine hleads.plays ⟨rfl, rfl, rfl, rfl, ?_⟩
  rw [hd', hd, Function.update_idem]

end Attempts

end UpdateFramework.System
