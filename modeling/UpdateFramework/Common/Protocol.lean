import UpdateFramework.Common.Constants
import UpdateFramework.Common.Netutil
import UpdateFramework.Libc.Text

/-!
# Common — the wire protocol

`protocol.c`: frames, the two ends of the framing, and the key=value payloads.
-/

namespace UpdateFramework

open Libc

/-! ### Message types -/

/-- `msg_type_t`.  `proto_recv` casts the header's byte without a check, so a type may be a byte
that has no name. -/
inductive MsgType where
  | hello | auth | authOk | versionReq | uptodate | updateAvailable | downloadReq | data
  | transferDone | result | error | bye | pause | resume
  | unknown (b : UInt8) (unnamed : b = 0 ∨ 14 < b)
  deriving DecidableEq

/-- `(uint8_t)type` -/
def MsgType.toByte : MsgType → UInt8
  | .hello => 1
  | .auth => 2
  | .authOk => 3
  | .versionReq => 4
  | .uptodate => 5
  | .updateAvailable => 6
  | .downloadReq => 7
  | .data => 8
  | .transferDone => 9
  | .result => 10
  | .error => 11
  | .bye => 12
  | .pause => 13
  | .resume => 14
  | .unknown b _ => b

/-- `(msg_type_t)b` -/
def MsgType.ofByte (b : UInt8) : MsgType :=
  if h : b = 0 ∨ 14 < b then .unknown b h
  else if b = 1 then .hello
  else if b = 2 then .auth
  else if b = 3 then .authOk
  else if b = 4 then .versionReq
  else if b = 5 then .uptodate
  else if b = 6 then .updateAvailable
  else if b = 7 then .downloadReq
  else if b = 8 then .data
  else if b = 9 then .transferDone
  else if b = 10 then .result
  else if b = 11 then .error
  else if b = 12 then .bye
  else if b = 13 then .pause
  else .resume

def protoMsgName : MsgType → Bytes
  | .hello => ascii "HELLO"
  | .auth => ascii "AUTH"
  | .authOk => ascii "AUTH_OK"
  | .versionReq => ascii "VERSION_REQ"
  | .uptodate => ascii "UPTODATE"
  | .updateAvailable => ascii "UPDATE_AVAILABLE"
  | .downloadReq => ascii "DOWNLOAD_REQ"
  | .data => ascii "DATA"
  | .transferDone => ascii "TRANSFER_DONE"
  | .result => ascii "RESULT"
  | .error => ascii "ERROR"
  | .bye => ascii "BYE"
  | .pause => ascii "PAUSE"
  | .resume => ascii "RESUME"
  | .unknown _ _ => ascii "UNKNOWN"

/-- `FLAG_LAST_CHUNK` -/
def flagLastChunk : UInt8 := 1

/-! ### Frames -/

structure Frame where
  type : MsgType
  flags : UInt8
  payload : Bytes
  deriving DecidableEq

/-- `put_u32_be` -/
def putU32Be (v : ℕ) : Bytes :=
  [UInt8.ofNat (v / 2 ^ 24), UInt8.ofNat (v / 2 ^ 16), UInt8.ofNat (v / 2 ^ 8), UInt8.ofNat v]

/-- `get_u32_be` -/
def getU32Be (p : Bytes) : ℕ :=
  (p.getD 0 0).toNat * 2 ^ 24 + (p.getD 1 0).toNat * 2 ^ 16 + (p.getD 2 0).toNat * 2 ^ 8 +
    (p.getD 3 0).toNat

/-- `hdr` as `proto_send` fills it in; `payload_len` is a `uint32_t`. -/
def frameHeader (f : Frame) : Bytes :=
  [0x55, 0x50, 0x44, 0x54, protoVersion, f.type.toByte, f.flags, 0] ++ putU32Be f.payload.length

/-- The length rule of `proto_send`. -/
def sendable (f : Frame) : Bool := f.type = .data || f.payload.length ≤ maxControlPayload

/-- `proto_send`: the status, the bytes the transport took, and the schedule that is left. -/
def protoSend (c : Conn) (f : Frame) (es : List (Event Unit)) :
    Status × Bytes × List (Event Unit) :=
  if !sendable f then (.failed, [], es)
  else
    match connWriteAll c (frameHeader f) es with
    | (.done, hdr, es) =>
      if f.payload.length > 0 then
        let (st, body, es) := connWriteAll c f.payload es
        (st, hdr ++ body, es)
      else (.done, hdr, es)
    | r => r

/-- `proto_recv_status_t`, with what is stored through the pointers on `PROTO_RECV_OK`. -/
inductive RecvResult where
  | ok (f : Frame)
  | eof
  | bad
  | tooLarge
  deriving DecidableEq

/-- The length rules of `proto_recv`. -/
def allowedLen (mt : MsgType) (dataPayloadCap : ℕ) : ℕ :=
  if mt = .data then dataPayloadCap else maxControlPayload

/-- A header `proto_recv` does not call `PROTO_RECV_BAD`. -/
def headerOk (hdr : Bytes) : Bool :=
  hdr.getD 0 0 = 0x55 && hdr.getD 1 0 = 0x50 && hdr.getD 2 0 = 0x44 && hdr.getD 3 0 = 0x54 &&
    hdr.getD 4 0 = protoVersion && hdr.getD 7 0 = 0

/-- `proto_recv`: the result, if the call ends, and the schedule that is left. -/
def protoRecv (c : Conn) (payloadCap dataPayloadCap : ℕ) (es : List (Event UInt8)) :
    Option RecvResult × List (Event UInt8) :=
  let h := connReadAll c frameHeaderSize es
  match h.status with
  | .waiting => (none, h.rest)
  | .failed => (some .eof, h.rest)
  | .done =>
    if !headerOk h.moved then (some .bad, h.rest)
    else
      let mt := MsgType.ofByte (h.moved.getD 5 0)
      let len := getU32Be (h.moved.drop 8)
      if len > allowedLen mt dataPayloadCap || len > payloadCap then (some .tooLarge, h.rest)
      else
        let p := connReadAll c len h.rest
        match p.status with
        | .waiting => (none, p.rest)
        | .failed => (some .eof, p.rest)
        | .done => (some (.ok ⟨mt, h.moved.getD 6 0, p.moved⟩), p.rest)

/-! ### Key=value payloads -/

/-- The fields of a payload, read as a C string: `k1=v1;k2=v2;...` -/
def kvFields (payload : Bytes) : List Bytes := (cstr payload).splitOn 59

/-- The value of the first field of the key `key`; `none` also when it does not fit. -/
def kvLookup (key : Bytes) (outLen : ℕ) : List Bytes → Option Bytes
  | [] => none
  | part :: parts =>
    if 61 ∈ part ∧ part.takeWhile (· ≠ 61) = key then
      let value := part.drop (key.length + 1)
      if value.length ≥ outLen then none else some value
    else kvLookup key outLen parts

/-- `kv_get` -/
def kvGet (payload key : Bytes) (outLen : ℕ) : Option Bytes :=
  if outLen = 0 then none else kvLookup key outLen (kvFields payload)

/-- `kv_get_u64` -/
def kvGetU64 (payload key : Bytes) (fallback : ℕ) : ℕ :=
  match kvGet payload key 64 with
  | none => fallback
  | some tmp => if (strtoull tmp).2 = [] then (strtoull tmp).1 else fallback

end UpdateFramework
