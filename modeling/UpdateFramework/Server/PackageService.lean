import UpdateFramework.Server.Context

/-!
# Server — streaming a package

`package_service.c`: where a package is, and the chunk loop, which holds the stream while the
client has paused.  The chunk loop reads at least one byte a round, so it has as many rounds as the
file has bytes left.
-/

namespace UpdateFramework.Server

open Libc Process

/-- A program that works on files, as a part of the server's. -/
def file {α : Type} (p : Prog (stdio Bytes) α) : ServerProg α :=
  Prog.interp (fun o => Prog.perform (E := serverInterface) (.file o)) p

@[simp] theorem file_ret {α : Type} (a : α) : file (.ret a) = .ret a := rfl

@[simp] theorem file_call {α : Type} (o : FileOp Bytes) (k : FileOp.Res o → Prog (stdio Bytes) α) :
    file (.call o k) = .call (.file o) fun r => file (k r) := rfl

abbrev protoSend (f : Frame) : ServerProg Bool := .call (ServerOp.protoSend f) .ret
abbrev protoRecv (cap dataCap : ℕ) : ServerProg RecvResult :=
  .call (ServerOp.protoRecv cap dataCap) .ret
abbrev select (timeoutMs : ℕ) : ServerProg SelectResult := .call (ServerOp.select timeoutMs) .ret
abbrev statsAdd (c : Counter) (n : ℕ) : ServerProg Unit := .call (ServerOp.statsAdd c n) .ret
abbrev statsSub (c : Counter) (n : ℕ) : ServerProg Unit := .call (ServerOp.statsSub c n) .ret
abbrev malloc (n : ℕ) : ServerProg Bool := .call (ServerOp.malloc n) .ret
abbrev free : ServerProg Unit := .call ServerOp.free .ret
abbrev usleep (us : ℕ) : ServerProg Unit := .call (ServerOp.usleep us) .ret
abbrev logMsg (level : LogLevel) (text : Bytes) : ServerProg Unit :=
  .call (ServerOp.logMsg level text) .ret

/-! ### Pausing -/

/-- The results of `recv_control_if_ready`: `1` with the frame's type and payload, `0`, or `-1`. -/
inductive Polled where
  | got (type : MsgType) (payload : Bytes)
  | nothing
  | failed
  deriving DecidableEq

/-- `recv_control_if_ready` -/
def recvControlIfReady (timeoutMs : ℕ) : ServerProg Polled := do
  match ← select timeoutMs with
  | .timedOut => .ret .nothing
  | .interrupted | .failed => .ret .failed
  | .ready =>
    match ← protoRecv (maxControlPayload + 1) 0 with
    | .ok f => .ret (.got f.type f.payload)
    | _ => .ret .failed

/-- `handle_pause_if_requested`: whether it returns `0`. -/
def handlePauseIfRequested (pauseHoldTimeoutSec offset : ℕ) : ServerProg Bool := do
  match ← recvControlIfReady 0 with
  | .nothing => .ret true
  | .failed => .ret false
  | .got type payload =>
    if type ≠ .pause then
      logMsg .warn (ascii "UNEXPECTED_CONTROL during_stream type=" ++ protoMsgName type)
      .ret false
    else
      let clientOffset := kvGetU64 payload (ascii "offset") offset
      logMsg .info (ascii "STREAM_PAUSED client_offset=" ++ decimal clientOffset ++
        ascii " server_offset=" ++ decimal offset ++
        ascii " hold_sec=" ++ decimal pauseHoldTimeoutSec)
      match ← recvControlIfReady (pauseHoldTimeoutSec * 1000) with
      | .nothing =>
        logMsg .warn (ascii "STREAM_PAUSE_TIMEOUT hold_sec=" ++ decimal pauseHoldTimeoutSec ++
          ascii " offset=" ++ decimal offset)
        .ret false
      | .failed =>
        logMsg .warn (ascii "STREAM_RESUME_FAILED type=recv_error")
        .ret false
      | .got type _ =>
        if type ≠ .resume then
          logMsg .warn (ascii "STREAM_RESUME_FAILED type=" ++ protoMsgName type)
          .ret false
        else
          logMsg .info (ascii "STREAM_RESUMED offset=" ++ decimal offset)
          .ret true

/-! ### Packages -/

/-- `strstr(s, "..")` -/
def hasDotDot : Bytes → Bool
  | a :: b :: s => (a == 46 && b == 46) || hasDotDot (b :: s)
  | _ => false

/-- `pkg_resolve_path`, into `outLen` bytes. -/
def pkgResolvePath (packageDir packageFile : Bytes) (outLen : ℕ) : Option Bytes :=
  if outLen = 0 ∨ packageFile = [] ∨ packageFile.head? = some 47 ∨ hasDotDot packageFile ∨
      47 ∈ packageFile ∨ 92 ∈ packageFile then none
  else
    let out := packageDir ++ ascii "/" ++ packageFile
    if out.length < outLen then some out else none

/-- `pkg_file_size` -/
def pkgFileSize (path : Bytes) : ServerProg (Option ℕ) := file (stat path)

/-- A round of the chunk loop of `pkg_stream_file`: the bytes sent, or whether the loop is left
with `rc == 0`. -/
def streamRound (fp : Handle) (size chunkSize packetDelayUs pauseHoldTimeoutSec sent : ℕ) :
    ServerProg (ℕ ⊕ Bool) := do
  if ¬ sent < size then .ret (.inr true)
  else if ¬ (← handlePauseIfRequested pauseHoldTimeoutSec sent) then .ret (.inr false)
  else
    let want := min (size - sent) chunkSize
    let (buf, ferror) ← file (fread fp want)
    if buf.length = 0 then .ret (.inr false)
    else
      let sent := sent + buf.length
      let flags := if sent = size then flagLastChunk else 0
      if ¬ (← protoSend ⟨.data, flags, buf⟩) then .ret (.inr false)
      else
        statsAdd .bytesSent buf.length
        if packetDelayUs > 0 ∧ sent < size then usleep packetDelayUs
        if buf.length < want ∧ ferror then .ret (.inr false)
        else .ret (.inl sent)

/-- `pkg_stream_file`: whether it returns `0`. -/
def pkgStreamFile (path : Bytes) (offset chunkSize packetDelayUs pauseHoldTimeoutSec : ℕ) :
    ServerProg Bool := do
  match ← pkgFileSize path with
  | none => .ret false
  | some size =>
    if offset > size ∨ chunkSize < minChunkSize ∨ chunkSize > maxChunkSize then .ret false
    else
      match ← file (fopen path .r) with
      | none => .ret false
      | some fp =>
        if ¬ (← file (fseeko fp offset)) then
          let _ ← file (fclose fp)
          .ret false
        else if ¬ (← malloc chunkSize) then
          let _ ← file (fclose fp)
          .ret false
        else
          let rc ← Prog.iterate (size - offset + 1)
            (streamRound fp size chunkSize packetDelayUs pauseHoldTimeoutSec) offset
          free
          let _ ← file (fclose fp)
          if rc then
            logMsg .info (ascii "PACKAGE_STREAM complete path=" ++ path ++ ascii " bytes=" ++
              decimal (size - offset) ++ ascii " offset=" ++ decimal offset ++ ascii " chunk=" ++
              decimal chunkSize ++ ascii " delay_us=" ++ decimal packetDelayUs)
          .ret rc

end UpdateFramework.Server
