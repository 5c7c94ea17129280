import UpdateFramework.Client.Operations
import UpdateFramework.Client.VersionTable
import UpdateFramework.Common.Sha256

/-!
# Client — an update, from the connection to the version table

`downloader.c`: `receive_update` downloads, verifies and installs a version, `run_attempt` is a
session with the server around it, and `CheckForUpdate` makes attempts until one settles the
matter.  The loops that end only when the server or the user makes them end have a bound.
-/

namespace UpdateFramework.Client

open Libc Process

/-- `attempt_result_t` -/
inductive AttemptResult where
  | success | retry | reconnect | resumeReconnect | fatal | paused
  deriving DecidableEq

/-! ### Helpers -/

/-- `file_size_or_zero` -/
def fileSizeOrZero (path : Path) : ClientProg ℕ := do
  let size ← file (stat path)
  .ret (size.getD 0)

/-- A round of the loop of `interruptible_sleep_ms`. -/
def sleepRound (totalMs slept : ℕ) : ClientProg (ℕ ⊕ Unit) := do
  if ¬ slept < totalMs then .ret (.inr ())
  else if ← stopRequested then .ret (.inr ())
  else
    let step := if totalMs - slept < 100 then totalMs - slept else 100
    usleep (step * 1000)
    .ret (.inl (slept + step))

/-- `interruptible_sleep_ms` -/
def interruptibleSleepMs (totalMs : ℕ) : ClientProg Bool := do
  Prog.iterate (totalMs + 1) (sleepRound totalMs) 0
  stopRequested

/-- `retry_or_reconnect` -/
def retryOrReconnect : ClientProg AttemptResult := do
  if ← resumeRetryActive then .ret .reconnect else .ret .retry

/-- `client_stop_requested(ctx) ? ATTEMPT_PAUSED : retry_or_reconnect(ctx)` -/
def pausedOrRetry : ClientProg AttemptResult := do
  if ← stopRequested then .ret .paused else retryOrReconnect

/-- `recv_control`: the type and the payload of a frame, unless `proto_recv` failed. -/
def recvControl : ClientProg (Option (MsgType × Bytes)) := do
  match ← protoRecv (maxControlPayload + 1) 0 with
  | .ok f => .ret (some (f.type, f.payload))
  | _ => .ret none

/-- `close_attempt_connection` -/
def closeAttemptConnection (fd : ℕ) (ssl : Bool) : ClientProg Unit := do
  if ← activeFdWasSignalClosed fd then
    if ssl then sslFree else .ret ()
  else
    setActiveFd none
    connClose fd

/-! ### Pausing -/

/-- How the wait for the user ends: `0`, `1`, or the end of the loop. -/
inductive Resumed where
  | resumed | expired | ended
  deriving DecidableEq

/-- A round of the loop of `wait_for_gui_resume_on_connection`. -/
def waitRound (cfg : ClientConfig) (waitedMs : ℕ) : ClientProg (ℕ ⊕ Resumed) := do
  if ¬ waitedMs < cfg.pauseTimeoutSec * 1000 then .ret (.inr .ended)
  else if ← stopRequested then .ret (.inr .ended)
  else if ← consumeResumeRequest then
    if ← protoSendText .resume (ascii "status=resume") then .ret (.inr .resumed)
    else
      setResumeRetryActive true
      .ret (.inr .expired)
  else
    usleep 100000
    .ret (.inl (waitedMs + 100))

/-- `wait_for_gui_resume_on_connection` -/
def waitForGuiResumeOnConnection (cfg : ClientConfig) : ClientProg Resumed := do
  match ← Prog.iterate (cfg.pauseTimeoutSec * 10 + 1) (waitRound cfg) 0 with
  | .ended =>
    -- a stop and the end of the time differ only in what is shown
    let _ ← stopRequested
    setPaused
    .ret .ended
  | r => .ret r

/-! ### Interruptions -/

/-- The five lines of the resume file. -/
def resumeLines (cfg : ClientConfig) (version : Bytes) (offset totalSize : ℕ) (sha256 : Bytes) :
    List Bytes :=
  [ascii "version=" ++ version ++ ascii "\n", ascii "offset=" ++ decimal offset ++ ascii "\n",
    ascii "total_size=" ++ decimal totalSize ++ ascii "\n", ascii "sha256=" ++ sha256 ++ ascii "\n",
    ascii "part_file=" ++ (Path.part version).text cfg ++ ascii "\n"]

/-- `fprintf` for each line, whatever its result. -/
def printLines (fp : Handle) : List Bytes → Prog (stdio Path) Unit
  | [] => .ret ()
  | line :: lines => do
    let _ ← fputs line fp
    printLines fp lines

/-- `write_resume_metadata` -/
def writeResumeMetadata (cfg : ClientConfig) (version : Bytes) (offset totalSize : ℕ)
    (sha256 : Bytes) : Prog (stdio Path) Unit := do
  if ¬ (Path.resume version).fits cfg then .ret ()
  else
    match ← fopen (.resume version) .w with
    | none => .ret ()
    | some fp =>
      printLines fp (resumeLines cfg version offset totalSize sha256)
      let _ ← fflush fp
      let _ ← fsync fp
      let _ ← fclose fp
      .ret ()

/-- `save_interrupted_download`, with the stream and the buffer or with neither. -/
def saveInterruptedDownload (cfg : ClientConfig) (fp : Option Handle) (version : Bytes)
    (offset totalSize : ℕ) (sha256 : Bytes) (result : AttemptResult) :
    ClientProg AttemptResult := do
  match fp with
  | some fp =>
    let _ ← file (fflush fp)
    let _ ← file (fsync fp)
    let _ ← file (fclose fp)
    free
  | none => .ret ()
  file (writeResumeMetadata cfg version offset totalSize sha256)
  if result = .paused then setPaused
  else if result = .reconnect then setResumeRetryActive true
  else .ret ()
  .ret result

/-! ### Downloading -/

/-- `(int)advertised_chunk`, brought between the two limits. -/
def clampChunk (advertised : ℕ) : ℕ :=
  let low : ℕ := advertised % 2 ^ 32
  let chunk : ℤ := if low < 2 ^ 31 then (low : ℤ) else (low : ℤ) - 2 ^ 32
  if chunk < minChunkSize then minChunkSize
  else if chunk > maxChunkSize then maxChunkSize
  else chunk.toNat

/-- What the download loop keeps to. -/
structure Download where
  fp : Handle
  latest : Bytes
  sha : Bytes
  size : ℕ
  chunk : ℕ

/-- The pause the user asked for: the loop goes on, or the attempt ends. -/
def pauseDownload (cfg : ClientConfig) (d : Download) (received : ℕ) :
    ClientProg (ℕ ⊕ Option AttemptResult) := do
  let _ ← file (fflush d.fp)
  let _ ← file (fsync d.fp)
  file (writeResumeMetadata cfg d.latest received d.size d.sha)
  if ¬ (← protoSendText .pause
      (snprintf (maxControlPayload + 1) (ascii "offset=" ++ decimal received))) then
    setResumeRetryActive true
    .ret (.inr (some .reconnect))
  else
    match ← waitForGuiResumeOnConnection cfg with
    | .resumed => .ret (.inl received)
    | .expired => .ret (.inr (some .resumeReconnect))
    | .ended => .ret (.inr (some .paused))

/-- What the loop makes of a frame. -/
def handleFrame (d : Download) (received : ℕ) (f : Frame) :
    ClientProg (ℕ ⊕ Option AttemptResult) := do
  match f.type with
  | .data =>
    if (received + f.payload.length) % 2 ^ 64 > d.size then
      free
      let _ ← file (fclose d.fp)
      let _ ← file (unlink (.part d.latest))
      .ret (.inr (some .fatal))
    else
      let written ← if f.payload.length > 0 then file (fwrite d.fp f.payload) else .ret 0
      if written ≠ f.payload.length then
        free
        let _ ← file (fclose d.fp)
        .ret (.inr (some .retry))
      else .ret (.inl ((received + f.payload.length) % 2 ^ 64))
  | .transferDone =>
    match kvGet f.payload (ascii "sha256") sha256HexBuf with
    | some serverSha =>
      if strcaseeq serverSha d.sha then .ret (.inr none)
      else
        free
        let _ ← file (fclose d.fp)
        let _ ← file (unlink (.part d.latest))
        .ret (.inr (some .retry))
    | none =>
      free
      let _ ← file (fclose d.fp)
      let _ ← file (unlink (.part d.latest))
      .ret (.inr (some .retry))
  | _ =>
    free
    let _ ← file (fclose d.fp)
    .ret (.inr (some .retry))

/-- A round of the loop of `receive_update`: the bytes received, or the result of the attempt, or
nothing when the transfer is done. -/
def downloadRound (cfg : ClientConfig) (d : Download) (received : ℕ) :
    ClientProg (ℕ ⊕ Option AttemptResult) := do
  if ← consumePauseRequest then pauseDownload cfg d received
  else if ← stopRequested then
    let rc ← saveInterruptedDownload cfg (some d.fp) d.latest received d.size d.sha .paused
    .ret (.inr (some rc))
  else
    match ← protoRecv (d.chunk + 1) d.chunk with
    | .ok f => handleFrame d received f
    | _ =>
      let stop ← stopRequested
      let rc ← saveInterruptedDownload cfg (some d.fp) d.latest received d.size d.sha
        (if stop then .paused else .reconnect)
      .ret (.inr (some rc))

/-- `receive_update` after its loop: the digest, the rename, the result and the version table. -/
def installUpdate (bound : ℕ) (cfg : ClientConfig) (d : Download) : ClientProg AttemptResult := do
  free
  if ¬ (← if ← file (fflush d.fp) then file (fsync d.fp) else .ret false) then
    let _ ← file (fclose d.fp)
    .ret .retry
  else
    let _ ← file (fclose d.fp)
    let actual ← file (sha256FileHex bound (.part d.latest))
    if ¬ actual.any (strcaseeq · d.sha) then
      let _ ← protoSendText .result (ascii "status=checksum_fail")
      let _ ← file (unlink (.part d.latest))
      .ret .retry
    else if ¬ (← file (rename (.part d.latest) (.final d.latest))) then .ret .fatal
    else
      let _ ← protoSendText .result (ascii "status=ok")
      let _ ← recvControl
      if ¬ (← file (writeVersionFile cfg d.latest)) then .ret .fatal
      else if ¬ (Path.resume d.latest).fits cfg then .ret .fatal
      else
        let _ ← file (unlink (.resume d.latest))
        setResumeRetryActive false
        .ret .success

/-- `receive_update` once the offset is settled. -/
def downloadFrom (bound : ℕ) (cfg : ClientConfig) (latest sha : Bytes) (size chunk offset : ℕ) :
    ClientProg AttemptResult := do
  if ¬ (← protoSendText .downloadReq
      (snprintf (maxControlPayload + 1) (ascii "offset=" ++ decimal offset))) then
    let stop ← stopRequested
    saveInterruptedDownload cfg none latest offset size sha (if stop then .paused else .reconnect)
  else
    match ← file (fopen (.part latest) (if offset > 0 then .a else .w)) with
    | none => .ret .fatal
    | some fp =>
      if ¬ (← malloc (chunk + 1)) then
        let _ ← file (fclose fp)
        .ret .fatal
      else
        let d : Download := ⟨fp, latest, sha, size, chunk⟩
        match ← Prog.iterate bound (downloadRound cfg d) offset with
        | some rc => .ret rc
        | none => installUpdate bound cfg d

/-- `receive_update` -/
def receiveUpdate (bound : ℕ) (cfg : ClientConfig) (info : Bytes) : ClientProg AttemptResult := do
  match kvGet info (ascii "ver") maxVersionStr, kvGet info (ascii "sha256") sha256HexBuf with
  | some latest, some sha =>
    if ¬ verIsValid latest then .ret .fatal
    else
      let size := kvGetU64 info (ascii "size") 0
      let chunk := clampChunk (kvGetU64 info (ascii "chunk") defaultChunkSize)
      if ¬ (Path.final latest).fits cfg then .ret .fatal
      else if ¬ (Path.part latest).fits cfg then .ret .fatal
      else
        let offset ← fileSizeOrZero (.part latest)
        if offset > size then
          let _ ← file (unlink (.part latest))
          downloadFrom bound cfg latest sha size chunk 0
        else downloadFrom bound cfg latest sha size chunk offset
  | _, _ => .ret .fatal

/-! ### Attempts -/

/-- The rest of an attempt after its connection is closed. -/
def closeWith (fd : ℕ) (ssl : Bool) (p : ClientProg AttemptResult) : ClientProg AttemptResult := do
  closeAttemptConnection fd ssl
  p

/-- `run_attempt` from `VERSION_REQ` on. -/
def requestVersion (bound : ℕ) (cfg : ClientConfig) (current : Bytes) (fd : ℕ) (ssl : Bool) :
    ClientProg AttemptResult := do
  if ¬ (← protoSendText .versionReq
      (snprintf (maxControlPayload + 1) (ascii "cur=" ++ current))) then
    closeWith fd ssl pausedOrRetry
  else
    match ← recvControl with
    | none => closeWith fd ssl pausedOrRetry
    | some (.uptodate, _) =>
      let _ ← recvControl
      closeAttemptConnection fd ssl
      setResumeRetryActive false
      if ← interruptibleSleepMs 10000 then .ret .paused else .ret .success
    | some (.updateAvailable, payload) =>
      let rc ← receiveUpdate bound cfg payload
      closeAttemptConnection fd ssl
      if rc = .success then
        if ← interruptibleSleepMs 10000 then .ret .paused else .ret rc
      else .ret rc
    | some (.error, payload) =>
      let code := (kvGet payload (ascii "code") 64).getD []
      if code = ascii "DUPLICATE_CLIENT" then closeWith fd ssl (.ret .fatal)
      else if code = ascii "BAD_VERSION" then closeWith fd ssl (.ret .fatal)
      else closeWith fd ssl (.ret .retry)
    | some _ => closeWith fd ssl pausedOrRetry

/-- `run_attempt` on an open connection. -/
def converse (bound : ℕ) (cfg : ClientConfig) (current : Bytes) (fd : ℕ) (ssl : Bool) :
    ClientProg AttemptResult := do
  match ← recvControl with
  | some (.hello, _) =>
    if ¬ (← protoSendText .auth
        (snprintf (maxControlPayload + 1) (ascii "id=" ++ cfg.clientId))) then
      closeWith fd ssl pausedOrRetry
    else
      match ← recvControl with
      | none => closeWith fd ssl pausedOrRetry
      | some (.error, payload) =>
        let code := (kvGet payload (ascii "code") 64).getD []
        if code = ascii "DUPLICATE_CLIENT" then closeWith fd ssl (.ret .fatal)
        else if code = ascii "AUTH_FAIL" then closeWith fd ssl (.ret .fatal)
        else closeWith fd ssl (.ret .retry)
      | some (.authOk, _) => requestVersion bound cfg current fd ssl
      | some _ => closeWith fd ssl pausedOrRetry
  | _ => closeWith fd ssl pausedOrRetry

/-- `run_attempt` -/
def runAttempt (bound : ℕ) (cfg : ClientConfig) (current : Bytes) : ClientProg AttemptResult := do
  match ← netConnectTcp with
  | none => pausedOrRetry
  | some fd =>
    setActiveFd (some fd)
    if ← stopRequested then closeWith fd false (.ret .paused)
    else if cfg.enableTls then
      if ← tlsConnectConnection fd then converse bound cfg current fd true
      else closeWith fd false pausedOrRetry
    else converse bound cfg current fd false

/-! ### Retrying -/

/-- What `CheckForUpdate` returns: `0`, `-1` or `130`. -/
inductive CheckResult where
  | ok | failed | interrupted
  deriving DecidableEq

/-- A round of the loop of `CheckForUpdate`, with the number of the attempt. -/
def attemptRound (cfg : ClientConfig) (runAttempt : ClientProg AttemptResult) (attempt : ℕ) :
    ClientProg (ℕ ⊕ CheckResult) := do
  if ¬ attempt ≤ cfg.retryMax then .ret (.inr .failed)
  else if ← stopRequested then
    setPaused
    .ret (.inr .interrupted)
  else
    match ← runAttempt with
    | .success => .ret (.inr .ok)
    | .resumeReconnect => if attempt < cfg.retryMax then .ret (.inl attempt) else .ret (.inr .failed)
    | .reconnect =>
      if attempt < cfg.retryMax then
        if ← interruptibleSleepMs 10000 then
          setPaused
          .ret (.inr .interrupted)
        else .ret (.inl (attempt + 1))
      else .ret (.inr .failed)
    | .paused => .ret (.inr .interrupted)
    | .fatal => .ret (.inr .failed)
    | .retry =>
      if attempt < cfg.retryMax then
        if ← interruptibleSleepMs (cfg.retryBackoffMs * attempt) then
          setPaused
          .ret (.inr .interrupted)
        else .ret (.inl (attempt + 1))
      else .ret (.inl (attempt + 1))

/-- `CheckForUpdate`.  `bound` limits the lines of the table, the attempts, and the rounds of the
loops within an attempt. -/
def checkForUpdate (bound : ℕ) (cfg : ClientConfig) : ClientProg CheckResult := do
  match ← file (getCurrentVersion bound cfg) with
  | none => .ret .failed
  | some current =>
    Prog.iterate bound (attemptRound cfg (runAttempt bound cfg current)) 1

end UpdateFramework.Client
