import UpdateFramework.Common.Auth
import UpdateFramework.Common.Logger
import UpdateFramework.Common.Wire
import UpdateFramework.Libc.Stdio

/-!
# Server — what a session works with

The configuration and the manifest a session reads, the table of active client ids and the
counters the sessions share, and the operations a session calls (`ServerOp`).

`auth_client_registered` is called as one operation.  What a session writes to the log is kept as
text; the thread's tag and the client's address, which `log_msg` puts before it, are not.
-/

namespace UpdateFramework

open Libc Process

/-- `server_config_t`: the fields a session uses, with the ranges `server_config_load` checks. -/
structure ServerConfig where
  chunkSize : ℕ
  packetDelayUs : ℕ
  pauseHoldTimeoutSec : ℕ
  packageDir : Bytes
  clientRegistry : Bytes
  chunkSize_range : minChunkSize ≤ chunkSize ∧ chunkSize ≤ maxChunkSize
  pauseHold_range : 1 ≤ pauseHoldTimeoutSec ∧ pauseHoldTimeoutSec ≤ 600

/-- The server, as `config/server.conf` configures it. -/
def ServerConfig.shipped : ServerConfig where
  chunkSize := 32768
  packetDelayUs := 40000
  pauseHoldTimeoutSec := 5
  packageDir := ascii "./packages"
  clientRegistry := ascii "./config/clients.keys"
  chunkSize_range := by decide
  pauseHold_range := by decide

/-- `version_manifest_t`: the fields a session uses. -/
structure Manifest where
  latestVersion : Bytes
  packageFile : Bytes
  checksumSha256 : Bytes
  packageSize : ℕ
  deriving DecidableEq

/-! ### Active client ids -/

/-- The results `0`, `1` and `-1` of `reserve_active_client_id`. -/
inductive Reservation where
  | reserved | duplicate | full
  deriving DecidableEq

/-- `reserve_active_client_id`: the result, and the slots after it. -/
def reserveActiveClientId (slots : List Bytes) (clientId : Bytes) : Reservation × List Bytes :=
  if clientId = [] then (.full, slots)
  else if clientId ∈ slots then (.duplicate, slots)
  else
    match slots.findIdx? (· = []) with
    | none => (.full, slots)
    | some i => (.reserved, slots.set i (snprintf maxIdLen clientId))

/-- `release_active_client_id` -/
def releaseActiveClientId (slots : List Bytes) (clientId : Bytes) : List Bytes :=
  if clientId = [] then slots
  else
    match slots.findIdx? (· = clientId) with
    | none => slots
    | some i => slots.set i []

/-! ### Operations -/

/-- The counters of `stats_t` a session changes. -/
inductive Counter where
  | activeTransfers | updatesServed | uptodateResponses | authFailures | errors | bytesSent
  deriving DecidableEq

/-- What `select` reports: a positive number, `0`, or `-1` with `EINTR` or another error. -/
inductive SelectResult where
  | ready | timedOut | interrupted | failed
  deriving DecidableEq

inductive ServerOp where
  | file (o : FileOp Bytes)
  | protoSend (f : Frame)
  | protoRecv (payloadCap dataPayloadCap : ℕ)
  | select (timeoutMs : ℕ)
  /-- The name, unless the connection has no TLS or its peer no certificate with a name. -/
  | tlsPeerCommonName (outLen : ℕ)
  | authClientRegistered (registry clientId : Bytes)
  | reserveActiveClientId (clientId : Bytes)
  | releaseActiveClientId (clientId : Bytes)
  | vmGetSnapshot
  | statsAdd (c : Counter) (n : ℕ)
  | statsSub (c : Counter) (n : ℕ)
  | statsActiveClientUpdate (key label : Bytes)
  | malloc (n : ℕ)
  | free
  | usleep (us : ℕ)
  | logMsg (level : LogLevel) (text : Bytes)
  deriving DecidableEq

@[reducible] def ServerOp.Res : ServerOp → Type
  | .file o => FileOp.Res o
  | .protoSend _ | .authClientRegistered _ _ | .malloc _ => Bool
  | .protoRecv _ _ => RecvResult
  | .select _ => SelectResult
  | .tlsPeerCommonName _ => Option Bytes
  | .reserveActiveClientId _ => Reservation
  | .vmGetSnapshot => Option Manifest
  | .releaseActiveClientId _ | .statsAdd _ _ | .statsSub _ _ | .statsActiveClientUpdate _ _
  | .free | .usleep _ | .logMsg _ _ => Unit

@[reducible] def serverInterface : Interface := ⟨ServerOp, ServerOp.Res⟩

/-- A part of the server's program. -/
abbrev ServerProg (α : Type) := Prog serverInterface α

end UpdateFramework
