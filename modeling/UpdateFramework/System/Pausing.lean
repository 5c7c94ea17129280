import UpdateFramework.System.Agreement
import UpdateFramework.System.Clicks
import UpdateFramework.System.Download

/-!
# System — a download the user interrupts

The client's part of a session whose user clicks Pause in any rounds of the download, and each time
Resume before the client's own time is over.  Its download keeps what it has received: on the disk, or
pending towards it (`Gathering`).  A pause flushes it, writes the resume file beside it, and goes on
where it was, so that the client keeps to the conversation but for its requests
(`converse_interrupts`).
-/

namespace UpdateFramework.System

open Collections Libc Process Client FileSystem

/-! ### What has been received -/

/-- What has been received is on the disk, or pending. -/
structure Gathering (d : Download) (fs : FileSystem Path) (sofar : Bytes) : Prop where
  given : d.fp < fs.fresh
  stream : ∃ before bs, fs.Writing d.fp (.part d.latest) bs ∧
    fs.disk (.part d.latest) = some before ∧ before ++ bs = sofar

section Gathering

variable {d : Download} {fs fs' : FileSystem Path} {sofar : Bytes}

theorem Gathering.same (hg : Gathering d fs sofar) (h : SameAt (.part d.latest) fs fs') :
    Gathering d fs' sofar := by
  obtain ⟨before, bs, ⟨stream, hs, hpath, hbs⟩, hdisk, hsofar⟩ := hg.stream
  exact ⟨hg.given.trans_le h.fresh, before, bs,
    ⟨stream, h.stays _ hg.given stream hs hpath, hpath, hbs⟩, h.disk.trans hdisk, hsofar⟩

/-- Nothing that is done to the stream touches another file. -/
theorem Gathering.spares (hg : Gathering d fs sofar) {p : Path} (hp : p ≠ .part d.latest) :
    ∀ s, fs.streams d.fp = some s → s.path ≠ some p := by
  obtain ⟨-, -, ⟨stream, hs, hpath, -⟩, -⟩ := hg.stream
  intro s hs' hsp
  rw [hs] at hs'
  cases hs'
  rw [hpath] at hsp
  exact hp (Option.some.inj hsp).symm

theorem Gathering.fflush (hg : Gathering d fs sofar) :
    ∃ fs', fs.ok (.fflush d.fp) = (true, fs') ∧ Gathering d fs' sofar ∧ SameAt .table fs fs' := by
  have hspares : fs.Spares .table (.fflush d.fp) := hg.spares (by simp)
  obtain ⟨before, bs, hw, hdisk, rfl⟩ := hg.stream
  obtain ⟨fs', hok, hw', hd⟩ := hw.fflush
  have hsame := may_spared (.inl hok.symm) hspares
  refine ⟨fs', hok, ⟨hg.given.trans_le hsame.fresh, before ++ bs, [], hw', ?_, List.append_nil _⟩, hsame⟩
  rw [hd, Function.update_self, hdisk, Option.map_some]

theorem Gathering.fsync (hg : Gathering d fs sofar) : fs.ok (.fsync d.fp) = (true, fs) := by
  obtain ⟨before, bs, hw, -⟩ := hg.stream
  exact hw.fsync

end Gathering

theorem printLines_eval (h : Handle) (lines : List Bytes) (fs : FileSystem Path) :
    ∃ fs', FileSystem.eval (printLines h lines) fs = some ((), fs') := by
  induction lines generalizing fs with
  | nil => exact ⟨fs, rfl⟩
  | cons line lines ih => exact ih (fs.ok (.fputs h line)).2

/-- The resume file is written, and no other. -/
theorem writeResumeMetadata_eval (cfg : ClientConfig) (version : Bytes) (offset totalSize : ℕ)
    (sha256 : Bytes) (fs : FileSystem Path) :
    ∃ fs', FileSystem.eval (writeResumeMetadata cfg version offset totalSize sha256) fs =
        some ((), fs') ∧ ∀ p, p ≠ .resume version → SameAt p fs fs' := by
  suffices htotal : ∃ fs', FileSystem.eval
      (writeResumeMetadata cfg version offset totalSize sha256) fs = some ((), fs') by
    obtain ⟨fs', heval⟩ := htotal
    exact ⟨fs', heval, fun p hp =>
      eval_apart (writeResumeMetadata_apart hp offset totalSize sha256) (by simp [Elsewhere]) heval⟩
  unfold writeResumeMetadata
  by_cases hfits : (Path.resume version).fits cfg = true
  · rw [if_neg (not_not_intro hfits)]
    obtain ⟨fs₁, hok, -, -⟩ := fs.fopen_writing (Path.resume version)
    simp only [Prog.call_bind, Prog.ret_bind, eval_call, hok]
    obtain ⟨fs₂, hlines⟩ := printLines_eval fs.fresh
      (resumeLines cfg version offset totalSize sha256) fs₁
    rw [eval_bind, hlines]
    exact ⟨_, rfl⟩
  · rw [if_pos hfits]
    exact ⟨fs, rfl⟩

/-! ### A pause -/

section Pause

variable {fd : ℕ} {cfg : ClientConfig} {d : Download} {received : ℕ} {s : ClientSide}
  {T : Transcript Frame} {sofar : Bytes} {rounds : List (Option ℕ)} {looks : ℕ}

/-- The client waits for the user, and asks for the rest. -/
theorem waitForGuiResumeOnConnection_interrupts (htime : looks * 100 < cfg.pauseTimeoutSec * 1000) :
    Interrupts (pausingSide fd) pausing
      (fun r x U paused => r = .resumed ∧ x = (s, ⟨rounds, 0⟩) ∧ U = T ∧ paused = false)
      (waitForGuiResumeOnConnection cfg) (s, ⟨rounds, looks⟩) T true := by
  have hresume : isRequest .resume (textFrame .resume (ascii "status=resume")) = true := by decide
  unfold waitForGuiResumeOnConnection
  refine interrupts_bind (interrupts_iterate _
    (fun n waited x U paused => paused = true ∧ U = T ∧ ∃ looks, x = (s, ⟨rounds, looks⟩) ∧
      waited + looks * 100 < cfg.pauseTimeoutSec * 1000 ∧ looks < n) ?_ ?_ _
    ⟨rfl, rfl, looks, rfl, by omega, by omega⟩)
  · rintro waited x U paused ⟨-, -, looks, -, -, hlt⟩
    exact Nat.not_lt_zero _ hlt
  · rintro n waited x U paused ⟨rfl, rfl, looks, rfl, htime, hlt⟩
    unfold waitRound
    rw [if_neg (not_not_intro (Nat.lt_of_le_of_lt (Nat.le_add_right _ _) htime))]
    simp only [Prog.call_bind, Prog.ret_bind]
    refine (interrupts_does rfl).mpr ?_
    rw [if_neg Bool.false_ne_true]
    refine (interrupts_does rfl).mpr ?_
    cases looks with
    | zero =>
        refine interrupts_resumes
          (pausingSide_sends (isRequest_control (by decide) hresume).sendable fd _) hresume ?_
        exact ⟨rfl, rfl, rfl, rfl⟩
    | succ looks =>
        refine (interrupts_does rfl).mpr ⟨rfl, rfl, looks, rfl, by omega, by omega⟩

/-- `pauseDownload` once what has been received is on the disk. -/
def awaitResume (cfg : ClientConfig) (received : ℕ) : ClientProg (ℕ ⊕ Option AttemptResult) := do
  if ¬ (← protoSendText .pause
      (snprintf (maxControlPayload + 1) (ascii "offset=" ++ decimal received))) then
    setResumeRetryActive true
    .ret (.inr (some .reconnect))
  else
    match ← waitForGuiResumeOnConnection cfg with
    | .resumed => .ret (.inl received)
    | .expired => .ret (.inr (some .resumeReconnect))
    | .ended => .ret (.inr (some .paused))

/-- A pause: everything received is on the disk, and the download goes on where it was. -/
theorem pauseDownload_interrupts (hg : Gathering d s.files sofar)
    (htime : looks * 100 < cfg.pauseTimeoutSec * 1000) (hT : pausing.Open T) :
    Interrupts (pausingSide fd) pausing
      (fun r x U paused => r = .inl received ∧ U = T ∧ paused = false ∧
        ∃ fs : FileSystem Path, x = ({ s with files := fs }, ⟨rounds, 0⟩) ∧ Gathering d fs sofar ∧
          SameAt .table s.files fs)
      (pauseDownload cfg d received) (s, ⟨rounds, looks⟩) T false := by
  have hpause : isRequest .pause (textFrame .pause (snprintf (maxControlPayload + 1)
      (ascii "offset=" ++ decimal received))) = true := isRequest_textFrame (by decide) _
  obtain ⟨fs₁, hflush, hg₁, hsame₁⟩ := hg.fflush
  obtain ⟨fs₂, hwrite, hsame₂⟩ := writeResumeMetadata_eval cfg d.latest received d.size d.sha fs₁
  have hg₂ := hg₁.same (hsame₂ (.part d.latest) (by simp))
  have hleads : ClientLeads fd (pauseDownload cfg d received) s T
      (awaitResume cfg received) { s with files := fs₂ } T := by
    unfold pauseDownload
    refine client_file (a := true) (congrArg some hflush) ?_
    refine client_file (s := ⟨fs₁, _, _⟩) (a := true) (congrArg some hg₁.fsync) ?_
    exact client_file (s := ⟨fs₁, _, _⟩) hwrite (.refl ..)
  refine interrupts_of_leads hleads ?_
  unfold awaitResume
  simp only [Prog.call_bind, Prog.ret_bind]
  refine interrupts_pauses (pausingSide_sends (isRequest_control (by decide) hpause).sendable fd _)
    hpause hT ?_
  rw [if_neg (not_not_intro rfl)]
  refine interrupts_bind ((waitForGuiResumeOnConnection_interrupts htime).post ?_)
  rintro r x U paused ⟨rfl, rfl, rfl, rfl⟩
  exact ⟨rfl, rfl, rfl, fs₂, rfl, hg₂, hsame₁.trans (hsame₂ .table (by simp))⟩

end Pause

/-! ### The loop -/

/-- What is left of the conversation while the rest of a package is on its way. -/
def remaining (chunk : ℕ) (done : Frame) (rest : Bytes) : Transcript Frame :=
  said .right (dataFrames (cut chunk rest) ++ [done]) ++ pausing.tail

theorem remaining_open (chunk : ℕ) (done : Frame) (rest : Bytes) :
    pausing.Open (remaining chunk done rest) := by
  obtain ⟨f, fs, hfs⟩ := List.exists_cons_of_ne_nil
    (List.append_ne_nil_of_right_ne_nil (dataFrames (cut chunk rest)) (List.cons_ne_nil done []))
  exact ⟨f, fs, congrArg (said .right · ++ pausing.tail) hfs⟩

theorem remaining_nil (chunk : ℕ) (done : Frame) :
    remaining chunk done [] = (.right, done) :: pausing.tail := by
  rw [remaining, cut_nil]
  rfl

theorem remaining_length (chunk : ℕ) (done : Frame) (rest : Bytes) :
    pausing.tail.length ≤ (remaining chunk done rest).length := by
  rw [remaining, List.length_append]
  exact Nat.le_add_left ..

theorem remaining_part {chunk : ℕ} (hpos : 0 < chunk) (done : Frame) {rest : Bytes} (hne : rest ≠ []) :
    remaining chunk done rest =
      (.right, ⟨.data, if rest.drop chunk = [] then flagLastChunk else 0, rest.take chunk⟩) ::
        remaining chunk done (rest.drop chunk) := by
  rw [remaining, cut_of_ne_nil hpos hne, dataFrames]
  simp only [cut_eq_nil hpos]
  rfl

/-- The download has `sofar` of the package, waits for `rest`, and has `n` rounds for it. -/
structure Downloading (cfg : ClientConfig) (d : Download) (content : Bytes) (fs₀ : FileSystem Path)
    (sofar rest : Bytes) (n : ℕ) (x : ClientSide × Clicks) : Prop where
  gathering : Gathering d x.1.files sofar
  whole : sofar ++ rest = content
  table : SameAt .table fs₀ x.1.files
  rounds : rest.length + x.2.rounds.length < n
  /-- The user resumes before the time of the client is over. -/
  brief : ∀ looks, some looks ∈ x.2.rounds → looks * 100 < cfg.pauseTimeoutSec * 1000

/-- A round in which the user has not clicked. -/
def hearFrame (cfg : ClientConfig) (d : Download) (received : ℕ) :
    ClientProg (ℕ ⊕ Option AttemptResult) := do
  if ← stopRequested then
    let rc ← saveInterruptedDownload cfg (some d.fp) d.latest received d.size d.sha .paused
    .ret (.inr (some rc))
  else
    match ← Client.protoRecv (d.chunk + 1) d.chunk with
    | .ok f => handleFrame d received f
    | _ =>
      let stop ← stopRequested
      let rc ← saveInterruptedDownload cfg (some d.fp) d.latest received d.size d.sha
        (if stop then .paused else .reconnect)
      .ret (.inr (some rc))

theorem downloadRound_eq (cfg : ClientConfig) (d : Download) (received : ℕ) :
    downloadRound cfg d received = .call ClientOp.consumePauseRequest fun clicked =>
      if clicked then pauseDownload cfg d received else hearFrame cfg d received := rfl

section Loop

variable {fd : ℕ} {cfg : ClientConfig} {d : Download} {content sofar rest : Bytes}
  {fs₀ : FileSystem Path} {done : Frame} {n : ℕ} {x : ClientSide × Clicks}

/-- What a round comes to: the download goes on, or everything has arrived. -/
def RoundOver (cfg : ClientConfig) (d : Download) (content : Bytes) (fs₀ : FileSystem Path)
    (done : Frame) (n : ℕ) (r : ℕ ⊕ Option AttemptResult) (x : ClientSide × Clicks)
    (U : Transcript Frame) (paused : Bool) : Prop :=
  paused = false ∧
    ((∃ sofar rest, r = .inl sofar.length ∧ U = remaining d.chunk done rest ∧
        Downloading cfg d content fs₀ sofar rest n x) ∨
      (r = .inr none ∧ U = pausing.tail ∧ Gathering d x.1.files content ∧
        SameAt .table fs₀ x.1.files))

/-- The `TRANSFER_DONE` that names the digest of a download. -/
structure Concludes (d : Download) (done : Frame) : Prop where
  type : done.type = .transferDone
  fits : done.payload.length ≤ maxControlPayload
  digest : kvGet done.payload (ascii "sha256") sha256HexBuf = some d.sha

theorem Concludes.arrival (h : Concludes d done) (hchunk : minChunkSize ≤ d.chunk) :
    arrival (d.chunk + 1) d.chunk done = .ok done := by
  have hallowed : allowedLen done.type d.chunk = maxControlPayload := by
    rw [h.type]
    exact if_neg (by decide)
  have hlimit : maxControlPayload ≤ d.chunk + 1 :=
    (show maxControlPayload ≤ minChunkSize by decide).trans (Nat.le_succ_of_le hchunk)
  exact if_pos ⟨hallowed ▸ h.fits, h.fits.trans hlimit⟩

/-- A part arrives, or the end of the transfer. -/
theorem hearFrame_interrupts (hchunk : minChunkSize ≤ d.chunk) (hsize : d.size < 2 ^ 63)
    (hcontent : content.length = d.size) (hdone : Concludes d done)
    (hx : Downloading cfg d content fs₀ sofar rest (n + 1) x) :
    Interrupts (pausingSide fd) pausing (RoundOver cfg d content fs₀ done n)
      (hearFrame cfg d sofar.length) x (remaining d.chunk done rest) false := by
  have hpos : 0 < d.chunk := Nat.lt_of_lt_of_le (by decide) hchunk
  obtain ⟨s, c⟩ := x
  unfold hearFrame
  simp only [Prog.call_bind, Prog.ret_bind]
  refine (interrupts_does rfl).mpr ?_
  rw [if_neg Bool.false_ne_true]
  by_cases hne : rest = []
  · subst hne
    rw [remaining_nil]
    refine interrupts_hears rfl ?_
    simp only [hdone.arrival hchunk, handleFrame_done hdone.type hdone.digest]
    have hwhole : sofar = content := (List.append_nil sofar).symm.trans hx.whole
    exact ⟨rfl, .inr ⟨rfl, rfl, hwhole ▸ hx.gathering, hx.table⟩⟩
  · obtain ⟨hnonempty, hpart, hlen, hfirst⟩ := first_part hpos hne
    have harrival : ∀ flags, arrival (d.chunk + 1) d.chunk ⟨.data, flags, rest.take d.chunk⟩ =
        .ok ⟨.data, flags, rest.take d.chunk⟩ := fun flags =>
      if_pos ⟨hpart, Nat.le_succ_of_le hpart⟩
    have hsum : sofar.length + rest.length = d.size := by
      rw [← hcontent, ← hx.whole, List.length_append]
    have hfit : sofar.length + (rest.take d.chunk).length ≤ d.size := by omega
    obtain ⟨before, bs, hw, hdisk, hsofar⟩ := hx.gathering.stream
    obtain ⟨fs, hok, hw', hd, hleads⟩ := handleFrame_data hnonempty hfit hsize hw
    have hspares : s.files.Spares .table (.fwrite d.fp (rest.take d.chunk)) :=
      hx.gathering.spares (by simp)
    have hsame : SameAt .table s.files fs := may_spared (.inl hok.symm) hspares
    rw [remaining_part hpos done hne]
    refine interrupts_hears rfl ?_
    simp only [harrival]
    refine interrupts_of_leads hleads ⟨rfl, .inl ⟨sofar ++ rest.take d.chunk, rest.drop d.chunk, ?_,
      rfl, ⟨⟨hx.gathering.given.trans_le hsame.fresh, before, _, hw', ?_, ?_⟩, ?_, ?_, ?_, hx.brief⟩⟩⟩
    · rw [List.length_append]
    · rw [hd]
      exact hdisk
    · rw [← List.append_assoc, hsofar]
    · rw [List.append_assoc, List.take_append_drop]
      exact hx.whole
    · exact hx.table.trans hsame
    · have hrounds := hx.rounds
      dsimp only at hrounds ⊢
      omega

/-- A round, in which the user may click. -/
theorem downloadRound_interrupts (hchunk : minChunkSize ≤ d.chunk) (hsize : d.size < 2 ^ 63)
    (hcontent : content.length = d.size) (hdone : Concludes d done)
    (hx : Downloading cfg d content fs₀ sofar rest (n + 1) x) :
    Interrupts (pausingSide fd) pausing (RoundOver cfg d content fs₀ done n)
      (downloadRound cfg d sofar.length) x (remaining d.chunk done rest) false := by
  obtain ⟨s, ⟨rounds, looks⟩⟩ := x
  rw [downloadRound_eq]
  refine (interrupts_does rfl).mpr ?_
  cases rounds with
  | nil => exact hearFrame_interrupts hchunk hsize hcontent hdone hx
  | cons click rounds =>
      have hrounds := hx.rounds
      rw [List.length_cons] at hrounds
      have hbrief : ∀ looks, some looks ∈ rounds → looks * 100 < cfg.pauseTimeoutSec * 1000 :=
        fun looks hlooks => hx.brief looks (List.mem_cons_of_mem _ hlooks)
      cases click with
      | none =>
          exact hearFrame_interrupts hchunk hsize hcontent hdone
            ⟨hx.gathering, hx.whole, hx.table, by dsimp only [Clicks.pause]; omega, hbrief⟩
      | some again =>
          refine (pauseDownload_interrupts hx.gathering (hx.brief again List.mem_cons_self)
            (remaining_open ..)).post ?_
          rintro r x U paused ⟨rfl, rfl, rfl, fs, rfl, hg, hsame⟩
          exact ⟨rfl, .inl ⟨sofar, rest, rfl, rfl, hg, hx.whole, hx.table.trans hsame,
            by dsimp only; omega, hbrief⟩⟩

/-- The loop takes in the rest of the package, however often it is interrupted. -/
theorem downloadRounds_interrupts (hchunk : minChunkSize ≤ d.chunk) (hsize : d.size < 2 ^ 63)
    (hcontent : content.length = d.size) (hdone : Concludes d done)
    (hx : Downloading cfg d content fs₀ sofar rest n x) :
    Interrupts (pausingSide fd) pausing
      (fun r x U paused => r = none ∧ U = pausing.tail ∧ paused = false ∧
        Gathering d x.1.files content ∧ SameAt .table fs₀ x.1.files)
      (Prog.iterate n (downloadRound cfg d) sofar.length) x (remaining d.chunk done rest) false := by
  refine interrupts_iterate _
    (fun n received x U paused => paused = false ∧ ∃ sofar rest, received = sofar.length ∧
      U = remaining d.chunk done rest ∧ Downloading cfg d content fs₀ sofar rest n x) ?_ ?_ n
    ⟨rfl, sofar, rest, rfl, rfl, hx⟩
  · rintro received x U paused ⟨-, sofar, rest, -, -, hx⟩
    exact Nat.not_lt_zero _ hx.rounds
  · rintro n received x U paused ⟨rfl, sofar, rest, rfl, rfl, hx⟩
    refine (downloadRound_interrupts hchunk hsize hcontent hdone hx).post ?_
    rintro r x U paused ⟨rfl, ⟨sofar, rest, rfl, rfl, hx⟩ | ⟨rfl, rfl, hg, htable⟩⟩
    · exact ⟨rfl, sofar, rest, rfl, rfl, hx⟩
    · exact ⟨rfl, rfl, rfl, hg, htable⟩

end Loop

/-! ### A session -/

section Session

variable {fd : ℕ} {scfg : ServerConfig} {m : Manifest} {path content : Bytes} {cfg : ClientConfig}
  {bound : ℕ} {part : Option Bytes} {s : ClientSide} {clicks : Clicks}

/-- What the server says last of a package. -/
def lastFrame (m : Manifest) : Frame := fieldFrame .transferDone (ascii "sha256=" ++ m.checksumSha256)

/-- The conversation of a client that takes up an offer, and has a beginning of the package. -/
theorem conversation_eq {cmp : ℤ} (hcmp : cmp < 0) (hoffered : Offered scfg m path content)
    (hpart : part.getD [] <+: content) (clientId current : Bytes) :
    conversation scfg m content clientId current cmp part = introduction clientId current ++
      (.right, textFrame .updateAvailable (Server.updateMeta scfg m)) ::
      (.left, fieldFrame .downloadReq (ascii "offset=" ++ decimal (kept part content.length).length)) ::
      remaining scfg.chunkSize (lastFrame m) (content.drop (kept part content.length).length) := by
  rw [conversation, reply, if_neg (not_le.mpr hcmp), verdict, stored_of_prefix hpart,
    if_pos hoffered.checksum]
  simp only [delivery, remaining, lastFrame, Interruption.tail, pausing, said_append, said_cons,
    said_nil, List.append_assoc]
  rfl

theorem lastFrame_concludes (hoffered : Offered scfg m path content) (fp : Handle) (chunk : ℕ) :
    Concludes ⟨fp, m.latestVersion, m.checksumSha256, m.packageSize, chunk⟩ (lastFrame m) where
  type := rfl
  fits := (control_fieldFrame (by decide) _).2
  digest := kvGet_transferDone hoffered.digestField

/-- A client that has everything installs it. -/
theorem installs_interrupts {d : Download} (hcfg : Configured cfg)
    (hlatest : d.latest.length < maxVersionStr)
    (hdigest : strcaseeq (hexText (Fips180.sha256 content)) d.sha = true) {table : Bytes}
    (htable : writtenTable cfg d.latest (s.files.disk .table) = some table)
    (hg : Gathering d s.files content) (hbound : content.length < bound) (ssl : Bool) :
    Interrupts (pausingSide fd) pausing
      (Settled fun rc x => rc = .success ∧ Installed d.latest content table x.1.files)
      (installUpdate bound cfg d >>= closeAfter fd ssl) (s, clicks) pausing.tail false := by
  obtain ⟨before, bs, hw, hdisk, rfl⟩ := hg.stream
  obtain ⟨fs, hd, hinstall⟩ := installUpdate_leads cfg hw hdisk
    (Nat.lt_of_le_of_lt (Nat.div_le_self ..) hbound)
  have hfile : fs.disk (.part d.latest) = some (before ++ bs) := hd ▸ Function.update_self ..
  have hsame : fs.disk .table = s.files.disk .table := by
    rw [hd]
    exact Function.update_of_ne (by simp) ..
  obtain ⟨t, -, hinstalled, hjudge⟩ := judgeUpdate_installs (s := ⟨fs, _, _⟩) hcfg hlatest hfile
    hdigest (hsame.symm ▸ htable)
  refine interrupts_of_leads ((hinstall.trans hjudge).bind _) ?_
  exact interrupts_of_leads (closeAfter_leads ssl) ⟨rfl, rfl, rfl, hinstalled⟩

/-- A session up to the loop of the download, which has what is kept of the partial file. -/
theorem converse_downloads (hoffered : Offered scfg m path content) (hcfg : Configured cfg)
    (hpart : s.files.disk (.part m.latestVersion) = part) (bound : ℕ) (current : Bytes) (ssl : Bool)
    {T : Transcript Frame} :
    ∃ (fp : Handle) (fs : FileSystem Path),
      Gathering ⟨fp, m.latestVersion, m.checksumSha256, m.packageSize, scfg.chunkSize⟩ fs
        (kept part content.length) ∧ fs.disk .table = s.files.disk .table ∧
      ClientLeads fd (converse bound cfg current fd ssl) s (introduction cfg.clientId current ++
          (.right, textFrame .updateAvailable (Server.updateMeta scfg m)) ::
          (.left, fieldFrame .downloadReq
            (ascii "offset=" ++ decimal (kept part content.length).length)) :: T)
        (Prog.iterate bound (downloadRound cfg
            ⟨fp, m.latestVersion, m.checksumSha256, m.packageSize, scfg.chunkSize⟩)
            (kept part content.length).length >>= fun r =>
          afterRounds bound cfg
            ⟨fp, m.latestVersion, m.checksumSha256, m.packageSize, scfg.chunkSize⟩ r >>=
          closeAfter fd ssl) { s with files := fs } T := by
  obtain ⟨fs, hkeep, hsame, hreceive⟩ := receiveUpdate_leads hoffered hcfg bound hpart
  obtain ⟨fs₁, ⟨mode, hopen⟩, hw, hd, hdownload⟩ := downloadFrom_leads (s := { s with files := fs })
    cfg bound m.packageSize scfg.chunkSize m.latestVersion m.checksumSha256 hkeep
  have hgathering : Gathering ⟨fs.fresh, m.latestVersion, m.checksumSha256, m.packageSize,
      scfg.chunkSize⟩ fs₁ (kept part content.length) :=
    ⟨(owns_fopen (.inl hopen.symm)).1, _, [], hw, hd ▸ Function.update_self .., List.append_nil _⟩
  refine ⟨fs.fresh, fs₁, hgathering, ?_, ?_⟩
  · rw [hd, hsame]
    exact Function.update_of_ne (by simp) ..
  · refine ((converse_leads cfg bound current ssl).trans
      (requestVersion_offered hoffered.advertisable cfg bound current ssl)).trans ?_
    rw [← Prog.bind_bind]
    exact (hreceive.trans hdownload).bind (closeAfter fd ssl)

/-- It keeps to the conversation but for its requests, and installs the package. -/
theorem converse_interrupts (hoffered : Offered scfg m path content) (hcfg : Configured cfg)
    (hpart : s.files.disk (.part m.latestVersion) = part) (hbeginning : part.getD [] <+: content)
    {table : Bytes} (htable : writtenTable cfg m.latestVersion (s.files.disk .table) = some table)
    (hbrief : ∀ looks, some looks ∈ clicks.rounds → looks * 100 < cfg.pauseTimeoutSec * 1000)
    (hbound : content.length + clicks.rounds.length < bound) {cmp : ℤ} (hcmp : cmp < 0)
    (current : Bytes) (ssl : Bool) :
    Interrupts (pausingSide fd) pausing
      (Settled fun rc x => rc = .success ∧ Installed m.latestVersion content table x.1.files)
      (converse bound cfg current fd ssl) (s, clicks)
      (conversation scfg m content cfg.clientId current cmp part) false := by
  obtain ⟨fp, fs, hg, htab, hleads⟩ := converse_downloads hoffered hcfg hpart bound current ssl
  have hkept : kept part content.length = part.getD [] := if_neg (not_lt.mpr hbeginning.length_le)
  have hwhole : kept part content.length ++ content.drop (kept part content.length).length = content := by
    rw [hkept]
    exact (List.prefix_append_drop hbeginning).symm
  have hlength := length_kept_add part content
  have hx : Downloading cfg
      ⟨fp, m.latestVersion, m.checksumSha256, m.packageSize, scfg.chunkSize⟩ content fs
      (kept part content.length) (content.drop (kept part content.length).length) bound
      ({ s with files := fs }, clicks) :=
    ⟨hg, hwhole, .refl .., by dsimp only; omega, hbrief⟩
  rw [conversation_eq hcmp hoffered hbeginning]
  refine interrupts_of_leads hleads (interrupts_bind ((downloadRounds_interrupts
    scfg.chunkSize_range.1 (hoffered.packageSize ▸ hoffered.small) hoffered.packageSize.symm
    (lastFrame_concludes hoffered fp scfg.chunkSize) hx).post ?_))
  rintro r ⟨s', c⟩ U paused ⟨rfl, rfl, rfl, hg', htab'⟩
  refine installs_interrupts hcfg hoffered.advertisable.version hoffered.checksum ?_ hg' (by omega) ssl
  rw [htab'.disk, htab]
  exact htable

/-- **The client's side of a session with pauses.** -/
theorem runAttempt_interrupts (hoffered : Offered scfg m path content) (hcfg : Configured cfg)
    (hpart : s.files.disk (.part m.latestVersion) = part) (hbeginning : part.getD [] <+: content)
    {table : Bytes} (htable : writtenTable cfg m.latestVersion (s.files.disk .table) = some table)
    (hbrief : ∀ looks, some looks ∈ clicks.rounds → looks * 100 < cfg.pauseTimeoutSec * 1000)
    (hbound : content.length + clicks.rounds.length < bound) {cmp : ℤ} (hcmp : cmp < 0)
    (fd : ℕ) (current : Bytes) :
    Interrupts (pausingSide fd) pausing
      (Settled fun rc x => rc = .success ∧ Installed m.latestVersion content table x.1.files)
      (runAttempt bound cfg current) (s, clicks)
      (conversation scfg m content cfg.clientId current cmp part) false := by
  unfold runAttempt
  simp only [Prog.call_bind, Prog.ret_bind]
  refine (interrupts_does rfl).mpr ((interrupts_does rfl).mpr ((interrupts_does rfl).mpr ?_))
  rw [if_neg Bool.false_ne_true]
  by_cases htls : cfg.enableTls = true
  · rw [if_pos htls]
    refine (interrupts_does rfl).mpr ?_
    rw [if_pos rfl]
    exact converse_interrupts (s := ⟨s.files, s.resumeRetry, s.connections + 1⟩) hoffered hcfg hpart
      hbeginning htable hbrief hbound hcmp current true
  · rw [if_neg htls]
    exact converse_interrupts (s := ⟨s.files, s.resumeRetry, s.connections + 1⟩) hoffered hcfg hpart
      hbeginning htable hbrief hbound hcmp current false

end Session

end UpdateFramework.System
