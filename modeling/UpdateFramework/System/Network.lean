import UpdateFramework.Client.Downloader
import UpdateFramework.Process.Pool
import UpdateFramework.Server.ActiveClients

/-!
# System — a client process and the server's workers

One process runs `CheckForUpdate` with its client id, and opens one connection after another; the
workers run sessions on these and on the connections of others.  The frames of a connection arrive
in order, and at any time a call on it may fail.  The certificate of the process names its id, and no
other client's does.
-/

namespace UpdateFramework.System

open Libc Process

/-- A connection: the process's `k`-th, or another client's. -/
inductive ConnId where
  | own (k : ℕ)
  | other (k : ℕ)
  deriving DecidableEq

inductive SystemOp where
  | client (o : ClientOp)
  /-- A call of the session on this connection. -/
  | server (conn : ConnId) (o : ServerOp)
  deriving DecidableEq

@[reducible] def SystemOp.Res : SystemOp → Type
  | .client o => ClientOp.Res o
  | .server _ o => ServerOp.Res o

@[reducible] def systemInterface : Interface := ⟨SystemOp, SystemOp.Res⟩

abbrev SystemProg (α : Type) := Prog systemInterface α

abbrev SystemHistory := List (Call systemInterface)

/-- What the process and the workers share. -/
structure Network where
  /-- `g_active_client_ids` -/
  table : List Bytes
  /-- How many connections the process has opened. -/
  opened : ℕ
  /-- The frames under way on its connections, the oldest first. -/
  toServer : ℕ → List Frame
  toClient : ℕ → List Frame

/-- The connection the process has opened last. -/
def Network.current (w : Network) : ℕ := w.opened - 1

/-- The outcomes of a call of the process: anything, except that frames come from the session. -/
def clientMay (w : Network) : (o : ClientOp) → ClientOp.Res o → Network → Prop
  | .netConnectTcp, some _, w' => w' = { w with opened := w.opened + 1 }
  | .protoSend f, true, w' => w' = { w with
      toServer := Function.update w.toServer w.current (w.toServer w.current ++ [f]) }
  | .protoRecv _ _, .ok f, w' => ∃ fs, w.toClient w.current = f :: fs ∧
      w' = { w with toClient := Function.update w.toClient w.current fs }
  | _, _, w' => w' = w

/-- The outcomes of a call of the session on one of the process's connections. -/
def sessionMay (clientId : Bytes) (k : ℕ) (w : Network) :
    (o : ServerOp) → ServerOp.Res o → Network → Prop
  | .protoSend f, true, w' => w' = { w with
      toClient := Function.update w.toClient k (w.toClient k ++ [f]) }
  | .protoRecv _ _, .ok f, w' => ∃ fs, w.toServer k = f :: fs ∧
      w' = { w with toServer := Function.update w.toServer k fs }
  | .tlsPeerCommonName _, r, w' => (r = none ∨ r = some clientId) ∧ w' = w
  | .reserveActiveClientId id, r, w' =>
      ∃ slots, UpdateFramework.reserveActiveClientId w.table id = (r, slots) ∧
        w' = { w with table := slots }
  | .releaseActiveClientId id, _, w' =>
      w' = { w with table := UpdateFramework.releaseActiveClientId w.table id }
  | _, _, w' => w' = w

/-- The same, on a connection of another client. -/
def otherMay (clientId : Bytes) (w : Network) : (o : ServerOp) → ServerOp.Res o → Network → Prop
  | .tlsPeerCommonName _, r, w' => r ≠ some clientId ∧ w' = w
  | .reserveActiveClientId id, r, w' =>
      ∃ slots, UpdateFramework.reserveActiveClientId w.table id = (r, slots) ∧
        w' = { w with table := slots }
  | .releaseActiveClientId id, _, w' =>
      w' = { w with table := UpdateFramework.releaseActiveClientId w.table id }
  | _, _, w' => w' = w

/-- A session runs on a connection once it has been opened. -/
def networkEnv (clientId : Bytes) : Env systemInterface Network where
  may w o r w' :=
    match o, r with
    | .client o, r => clientMay w o r w'
    | .server (.own k) o, r => k < w.opened ∧ sessionMay clientId k w o r w'
    | .server (.other _) o, r => otherMay clientId w o r w'

/-! ### Who runs what -/

/-- The threads: the client process, and the server's workers. -/
inductive Party (ω : Type) where
  | process
  | worker (i : ω)
  deriving DecidableEq

/-- A run of `CheckForUpdate`. -/
def clientRun (bound : ℕ) (cfg : ClientConfig) : SystemProg (Client.CheckResult ⊕ Bool) :=
  Prog.interp (fun o => .call (SystemOp.client o) .ret) (Client.checkForUpdate bound cfg) >>=
    fun r => .ret (.inl r)

/-- A part of a session, on a connection. -/
def onConn (conn : ConnId) (p : ServerProg Bool) : SystemProg (Client.CheckResult ⊕ Bool) :=
  Prog.interp (fun o => .call (SystemOp.server conn o) .ret) p >>= fun rc => .ret (.inr rc)

/-- What the threads run, one after another. -/
def parties {ω : Type} (cfg : ClientConfig) (serverCfg : ServerConfig) :
    Party ω → SystemProg (Client.CheckResult ⊕ Bool) → Prop
  | .process, p => ∃ bound, p = clientRun bound cfg
  | .worker _, p => ∃ conn clientInfo,
      p = onConn conn (Server.handleClientSession serverCfg clientInfo)

/-- The process and the workers. -/
abbrev Parties (ω : Type) := Pool (Party ω) systemInterface (Client.CheckResult ⊕ Bool) Network

/-- Before the first connection. -/
def freshParties (ω : Type) : Parties ω :=
  .idle ⟨List.replicate activeClientMax [], 0, fun _ => [], fun _ => []⟩

end UpdateFramework.System
