import UpdateFramework.Client.Context
import UpdateFramework.Common.Wire
import UpdateFramework.Libc.Stdio

/-!
# Client — what an attempt works with

The operations `downloader.c` calls (`ClientOp`).  Two fields of `client_context_t`, `paused` and
`resume_retry_active`, are read and set by operations; the stop flag and the requests of the window
are answers of the surroundings.  What the client shows, prints or logs, and the directories it
creates, are left out.
-/

namespace UpdateFramework

open Libc Process

inductive ClientOp where
  | file (o : FileOp Path)
  | protoSend (f : Frame)
  | protoRecv (payloadCap dataPayloadCap : ℕ)
  /-- `net_connect_tcp`: the descriptor. -/
  | netConnectTcp
  | tlsConnectConnection (fd : ℕ)
  | connClose (fd : ℕ)
  | sslFree
  /-- `client_set_active_fd`; nothing for `-1`. -/
  | setActiveFd (fd : Option ℕ)
  | activeFdWasSignalClosed (fd : ℕ)
  | stopRequested
  | consumePauseRequest
  | consumeResumeRequest
  | setPaused
  | resumeRetryActive
  | setResumeRetryActive (active : Bool)
  | malloc (n : ℕ)
  | free
  | usleep (us : ℕ)
  deriving DecidableEq

@[reducible] def ClientOp.Res : ClientOp → Type
  | .file o => FileOp.Res o
  | .protoRecv _ _ => RecvResult
  | .netConnectTcp => Option ℕ
  | .protoSend _ | .tlsConnectConnection _ | .activeFdWasSignalClosed _ | .stopRequested
  | .consumePauseRequest | .consumeResumeRequest | .resumeRetryActive | .malloc _ => Bool
  | .connClose _ | .sslFree | .setActiveFd _ | .setPaused | .setResumeRetryActive _ | .free
  | .usleep _ => Unit

@[reducible] def clientInterface : Interface := ⟨ClientOp, ClientOp.Res⟩

/-- A part of the client's program. -/
abbrev ClientProg (α : Type) := Prog clientInterface α

namespace Client

/-- A program that works on files, as a part of the client's. -/
def file {α : Type} (p : Prog (stdio Path) α) : ClientProg α :=
  Prog.interp (fun o => Prog.perform (E := clientInterface) (.file o)) p

@[simp] theorem file_ret {α : Type} (a : α) : file (.ret a) = .ret a := rfl

@[simp] theorem file_call {α : Type} (o : FileOp Path) (k : FileOp.Res o → Prog (stdio Path) α) :
    file (.call o k) = .call (.file o) fun r => file (k r) := rfl

theorem file_bind {α β : Type} (p : Prog (stdio Path) α) (f : α → Prog (stdio Path) β) :
    file (p >>= f) = file p >>= fun a => file (f a) :=
  Prog.interp_bind _ p f

theorem file_iterate {α γ : Type} (n : ℕ) (body : γ → Prog (stdio Path) (γ ⊕ α)) (x : γ) :
    file (Prog.iterate n body x) = Prog.iterate n (fun y => file (body y)) x :=
  Prog.interp_iterate _ body n x

abbrev protoSend (f : Frame) : ClientProg Bool := .call (ClientOp.protoSend f) .ret
abbrev protoSendText (type : MsgType) (text : Bytes) : ClientProg Bool :=
  protoSend (textFrame type text)
abbrev protoRecv (payloadCap dataPayloadCap : ℕ) : ClientProg RecvResult :=
  .call (ClientOp.protoRecv payloadCap dataPayloadCap) .ret
abbrev netConnectTcp : ClientProg (Option ℕ) := .call ClientOp.netConnectTcp .ret
abbrev tlsConnectConnection (fd : ℕ) : ClientProg Bool :=
  .call (ClientOp.tlsConnectConnection fd) .ret
abbrev connClose (fd : ℕ) : ClientProg Unit := .call (ClientOp.connClose fd) .ret
abbrev sslFree : ClientProg Unit := .call ClientOp.sslFree .ret
abbrev setActiveFd (fd : Option ℕ) : ClientProg Unit := .call (ClientOp.setActiveFd fd) .ret
abbrev activeFdWasSignalClosed (fd : ℕ) : ClientProg Bool :=
  .call (ClientOp.activeFdWasSignalClosed fd) .ret
abbrev stopRequested : ClientProg Bool := .call ClientOp.stopRequested .ret
abbrev consumePauseRequest : ClientProg Bool := .call ClientOp.consumePauseRequest .ret
abbrev consumeResumeRequest : ClientProg Bool := .call ClientOp.consumeResumeRequest .ret
abbrev setPaused : ClientProg Unit := .call ClientOp.setPaused .ret
abbrev resumeRetryActive : ClientProg Bool := .call ClientOp.resumeRetryActive .ret
abbrev setResumeRetryActive (active : Bool) : ClientProg Unit :=
  .call (ClientOp.setResumeRetryActive active) .ret
abbrev malloc (n : ℕ) : ClientProg Bool := .call (ClientOp.malloc n) .ret
abbrev free : ClientProg Unit := .call ClientOp.free .ret
abbrev usleep (us : ℕ) : ClientProg Unit := .call (ClientOp.usleep us) .ret

end Client

end UpdateFramework
