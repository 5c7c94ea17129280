import UpdateFramework.Common.Version
import UpdateFramework.Server.PackageService

/-!
# Server — a client's session

`worker.c`: `authenticate_client` and `handle_client_session`.  A `goto done` leaves the part of the
session that holds the client id (`reservedSession`).
-/

namespace UpdateFramework.Server

open Libc Process

abbrev tlsPeerCommonName (outLen : ℕ) : ServerProg (Option Bytes) :=
  .call (ServerOp.tlsPeerCommonName outLen) .ret
abbrev authClientRegistered (registry clientId : Bytes) : ServerProg Bool :=
  .call (ServerOp.authClientRegistered registry clientId) .ret
abbrev reserveActiveClientId (clientId : Bytes) : ServerProg Reservation :=
  .call (ServerOp.reserveActiveClientId clientId) .ret
abbrev releaseActiveClientId (clientId : Bytes) : ServerProg Unit :=
  .call (ServerOp.releaseActiveClientId clientId) .ret
abbrev vmGetSnapshot : ServerProg (Option Manifest) := .call ServerOp.vmGetSnapshot .ret
abbrev statsActiveClientUpdate (key label : Bytes) : ServerProg Unit :=
  .call (ServerOp.statsActiveClientUpdate key label) .ret

abbrev protoSendText (type : MsgType) (text : Bytes) : ServerProg Bool :=
  protoSend (textFrame type text)

/-- `proto_send_error`, whose result no caller looks at. -/
abbrev protoSendError (code message : Bytes) : ServerProg Unit :=
  .call (ServerOp.protoSend (errorFrame code message)) fun _ => .ret ()

/-- `rc`, as `%d` prints it. -/
def recvCode : RecvResult → Bytes
  | .ok _ => ascii "0"
  | .eof => ascii "1"
  | .bad => ascii "-1"
  | .tooLarge => ascii "-2"

/-- `recv_control`: the type and the payload of a frame, unless `proto_recv` failed. -/
def recvControl : ServerProg (Option (MsgType × Bytes)) := do
  match ← protoRecv (maxControlPayload + 1) 0 with
  | .ok f => .ret (some (f.type, f.payload))
  | rc =>
    logMsg .warn (ascii "PROTO_RECV failed rc=" ++ recvCode rc)
    .ret none

/-- `authenticate_client`: the client's id, unless it returns `-1`. -/
def authenticateClient (cfg : ServerConfig) : ServerProg (Option Bytes) := do
  match ← tlsPeerCommonName maxIdLen with
  | none =>
    statsAdd .authFailures 1
    logMsg .warn (ascii "AUTH fail missing TLS client certificate identity")
    protoSendError (ascii "AUTH_FAIL") (ascii "missing client certificate")
    .ret none
  | some certId =>
    match ← recvControl with
    | some (.auth, payload) =>
      match kvGet payload (ascii "id") maxIdLen with
      | none =>
        protoSendError (ascii "AUTH_FAIL") (ascii "missing credentials")
        .ret none
      | some clientId =>
        let ok ← if clientId = certId then authClientRegistered cfg.clientRegistry clientId
          else .ret false
        if ¬ ok then
          statsAdd .authFailures 1
          let registered ← authClientRegistered cfg.clientRegistry certId
          logMsg .warn (ascii "AUTH fail id=" ++ clientId ++ ascii " cert_id=" ++ certId ++
            ascii " registered=" ++ decimal registered.toNat)
          protoSendError (ascii "AUTH_FAIL") (ascii "invalid credentials")
          .ret none
        else
          logMsg .info (ascii "AUTH ok id=" ++ clientId ++ ascii " method=mTLS")
          .ret (some clientId)
    | _ =>
      protoSendError (ascii "BAD_REQUEST") (ascii "expected AUTH")
      .ret none

/-- The payload of `UPDATE_AVAILABLE`. -/
def updateMeta (cfg : ServerConfig) (manifest : Manifest) : Bytes :=
  let chunks := (manifest.packageSize + cfg.chunkSize - 1) % 2 ^ 64 / cfg.chunkSize
  snprintf (maxControlPayload + 1)
    (ascii "ver=" ++ manifest.latestVersion ++ ascii ";size=" ++ decimal manifest.packageSize ++
      ascii ";chunk=" ++ decimal cfg.chunkSize ++ ascii ";chunks=" ++ decimal chunks ++
      ascii ";sha256=" ++ manifest.checksumSha256)

/-- `handle_client_session` after the stream: the result of the client, and `BYE`. -/
def finishTransfer (manifest : Manifest) (clientId : Bytes) (offset : ℕ) : ServerProg Bool := do
  let done := snprintf (maxControlPayload + 1) (ascii "sha256=" ++ manifest.checksumSha256)
  if ¬ (← protoSendText .transferDone done) then .ret false
  else
    match ← recvControl with
    | some (.result, payload) =>
      let status := kvGet payload (ascii "status") 32
      if status ≠ some (ascii "ok") then
        statsAdd .errors 1
        let shown := if status.getD [] = [] then ascii "missing" else status.getD []
        logMsg .warn (ascii "TRANSFER_RESULT id=" ++ clientId ++ ascii " status=" ++ shown)
      else
        statsAdd .updatesServed 1
        logMsg .info (ascii "TRANSFER_DONE id=" ++ clientId ++ ascii " bytes=" ++
          decimal ((manifest.packageSize + 2 ^ 64 - offset) % 2 ^ 64) ++ ascii " status=OK")
      protoSend (emptyFrame .bye)
    | _ => .ret false

/-- `handle_client_session` for a client with an older version. -/
def offerUpdate (cfg : ServerConfig) (manifest : Manifest) (clientId current : Bytes) :
    ServerProg Bool := do
  match pkgResolvePath cfg.packageDir manifest.packageFile (maxPathLen * 2) with
  | none =>
    statsAdd .errors 1
    protoSendError (ascii "NO_PACKAGE") (ascii "package path invalid")
    .ret false
  | some packagePath =>
    logMsg .info (ascii "VERSION_CHECK id=" ++ clientId ++ ascii " cur=" ++ current ++
      ascii " latest=" ++ manifest.latestVersion ++ ascii " decision=UPDATE size=" ++
      decimal manifest.packageSize)
    if ¬ (← protoSendText .updateAvailable (updateMeta cfg manifest)) then .ret false
    else
      match ← recvControl with
      | some (.downloadReq, payload) =>
        let offset := kvGetU64 payload (ascii "offset") ((manifest.packageSize + 1) % 2 ^ 64)
        if offset > manifest.packageSize then
          protoSendError (ascii "BAD_REQUEST") (ascii "offset beyond package size")
          .ret false
        else
          statsAdd .activeTransfers 1
          let streamed ← pkgStreamFile packagePath offset cfg.chunkSize cfg.packetDelayUs
            cfg.pauseHoldTimeoutSec
          statsSub .activeTransfers 1
          if ¬ streamed then
            statsAdd .errors 1
            .ret false
          else finishTransfer manifest clientId offset
      | _ =>
        protoSendError (ascii "BAD_REQUEST") (ascii "expected DOWNLOAD_REQ")
        .ret false

/-- `handle_client_session` between the reservation and `done:`. -/
def reservedSession (cfg : ServerConfig) (clientInfo clientId : Bytes) : ServerProg Bool := do
  if ¬ (← protoSend (emptyFrame .authOk)) then .ret false
  else
    statsActiveClientUpdate clientInfo
      (snprintf activeClientLabel (clientId ++ ascii " (" ++ clientInfo ++ ascii ")"))
    match ← recvControl with
    | some (.versionReq, payload) =>
      match kvGet payload (ascii "cur") maxVersionStr with
      | none =>
        statsAdd .errors 1
        protoSendError (ascii "BAD_VERSION") (ascii "invalid semantic version")
        .ret false
      | some current =>
        if ¬ verIsValid current then
          statsAdd .errors 1
          protoSendError (ascii "BAD_VERSION") (ascii "invalid semantic version")
          .ret false
        else
          match ← vmGetSnapshot with
          | none =>
            protoSendError (ascii "IO_ERROR") (ascii "manifest unavailable")
            .ret false
          | some manifest =>
            match verCompareText current manifest.latestVersion with
            | none =>
              protoSendError (ascii "BAD_VERSION") (ascii "invalid semantic version")
              .ret false
            | some cmp =>
              if cmp ≥ 0 then
                let reply := snprintf (maxControlPayload + 1)
                  (ascii "latest=" ++ manifest.latestVersion)
                logMsg .info (ascii "VERSION_CHECK id=" ++ clientId ++ ascii " cur=" ++ current ++
                  ascii " latest=" ++ manifest.latestVersion ++ ascii " decision=UPTODATE")
                statsAdd .uptodateResponses 1
                if ← protoSendText .uptodate reply then protoSend (emptyFrame .bye)
                else .ret false
              else offerUpdate cfg manifest clientId current
    | _ =>
      protoSendError (ascii "BAD_REQUEST") (ascii "expected VERSION_REQ")
      .ret false

/-- `handle_client_session`: whether it returns `0`. -/
def handleClientSession (cfg : ServerConfig) (clientInfo : Bytes) : ServerProg Bool := do
  if ¬ (← protoSendText .hello (ascii "srv=updctl;proto=1")) then .ret false
  else
    match ← authenticateClient cfg with
    | none => .ret false
    | some clientId =>
      match ← reserveActiveClientId clientId with
      | .duplicate =>
        logMsg .warn (ascii "AUTH duplicate active id=" ++ clientId)
        protoSendError (ascii "DUPLICATE_CLIENT") (ascii "client id already has an active session")
        .ret false
      | .full =>
        logMsg .warn (ascii "AUTH active client registry full id=" ++ clientId)
        protoSendError (ascii "SERVER_BUSY") (ascii "server active client registry is full")
        .ret false
      | .reserved =>
        let rc ← reservedSession cfg clientInfo clientId
        releaseActiveClientId clientId
        .ret rc

end UpdateFramework.Server
