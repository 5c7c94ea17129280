import Mathlib.Logic.Function.Basic
import UpdateFramework.Common.Threadpool
import UpdateFramework.Server.Worker

/-!
# Server — the threads

`acceptor.c`, `worker_thread` of `worker.c`, and the shutdown of `server_main.c`: `acceptor_thread`
puts accepted connections into the work queue, workers serve them, and `server_request_shutdown`
stops both.  What the threads share is `ThreadWorld`.

`while` loops are bounded by `bound`.  The listening socket is kept apart from the accepted ones.
-/

namespace UpdateFramework.Server

open Collections Libc Process

/-- `server_config_t`: the fields the threads use, too. -/
structure ThreadsConfig extends ServerConfig where
  maxWorkers : ℕ
  queueCapacity : ℕ
  clientTimeoutSec : ℕ
  enableTls : Bool
  maxWorkers_range : 1 ≤ maxWorkers ∧ maxWorkers ≤ 256
  queueCapacity_range : 1 ≤ queueCapacity ∧ queueCapacity ≤ 4096

/-- `tpq_item_t` -/
structure TpqItem where
  fd : ℕ
  clientInfo : Bytes
  deriving DecidableEq, Inhabited

/-- `TRACKED_WORKER_FDS` -/
def trackedWorkerFds : ℕ := 257

/-! ### Operations -/

/-- `errno`: `EINTR`, one of `EBADF` and `EINVAL`, or another one. -/
inductive Errno where
  | interrupted | badFd
  | other (n : ℕ)
  deriving DecidableEq

inductive Selected where
  | ready | timedOut
  | failed (errno : Errno)
  deriving DecidableEq

inductive AcceptResult where
  | fd (n : ℕ)
  | failed (errno : Errno)
  deriving DecidableEq

/-- The counters of `stats_t` the threads change. -/
inductive ThreadCounter where
  | connections | busyWorkers | errors
  deriving DecidableEq

inductive ThreadOp where
  | logMsg (level : LogLevel) (text : Bytes)
  /-- `*(ctx->running)` -/
  | loadRunning
  /-- `g_running = 0` -/
  | clearRunning
  | select (fd timeoutUs : ℕ)
  | accept (fd : ℕ)
  | netSetTimeouts (fd sec : ℕ)
  | netPeerInfo (fd len : ℕ)
  | connSendPlainBusy (fd : ℕ)
  | tpqPush (item : TpqItem)
  | tpqPop
  | tpqShutdown
  | statsAdd (c : ThreadCounter)
  | statsSub (c : ThreadCounter)
  | statsActiveClientAdd (key label : Bytes)
  | statsActiveClientRemove (key : Bytes)
  /-- Whether the handshake gives an `SSL`. -/
  | tlsAcceptConnection (fd : ℕ)
  /-- `SSL_shutdown` and `SSL_free`. -/
  | sslFree (fd : ℕ)
  /-- `close`, of an accepted socket. -/
  | close (fd : ℕ)
  /-- `shutdown(fd, SHUT_RDWR)`, of an accepted socket. -/
  | shutdown (fd : ℕ)
  /-- `close` and `shutdown`, of the listening socket. -/
  | closeListener (fd : ℕ)
  | shutdownListener (fd : ℕ)
  /-- `g_worker_fds[i]`; `none` is `-1`. -/
  | loadWorkerFd (i : ℕ)
  | storeWorkerFd (i : ℕ) (fd : Option ℕ)
  | loadListenFd
  | clearListenFd
  | lockShutdown
  | unlockShutdown
  /-- What a session calls. -/
  | session (o : ServerOp)
  deriving DecidableEq

@[reducible] def ThreadOp.Res : ThreadOp → Type
  | .loadRunning | .tpqPush _ | .tlsAcceptConnection _ => Bool
  | .select _ _ => Selected
  | .accept _ => AcceptResult
  | .netPeerInfo _ _ => Bytes
  | .tpqPop => Option TpqItem
  | .loadWorkerFd _ | .loadListenFd => Option ℕ
  | .session o => ServerOp.Res o
  | _ => Unit

@[reducible] def threadInterface : Interface := ⟨ThreadOp, ThreadOp.Res⟩

abbrev ThreadProg (α : Type) := Prog threadInterface α

namespace Thread

abbrev logMsg (level : LogLevel) (text : Bytes) : ThreadProg Unit :=
  .call (ThreadOp.logMsg level text) .ret
abbrev loadRunning : ThreadProg Bool := .call ThreadOp.loadRunning .ret
abbrev clearRunning : ThreadProg Unit := .call ThreadOp.clearRunning .ret
abbrev select (fd timeoutUs : ℕ) : ThreadProg Selected := .call (ThreadOp.select fd timeoutUs) .ret
abbrev accept (fd : ℕ) : ThreadProg AcceptResult := .call (ThreadOp.accept fd) .ret
abbrev netSetTimeouts (fd sec : ℕ) : ThreadProg Unit :=
  .call (ThreadOp.netSetTimeouts fd sec) .ret
abbrev netPeerInfo (fd len : ℕ) : ThreadProg Bytes := .call (ThreadOp.netPeerInfo fd len) .ret
abbrev connSendPlainBusy (fd : ℕ) : ThreadProg Unit := .call (ThreadOp.connSendPlainBusy fd) .ret
abbrev tpqPush (item : TpqItem) : ThreadProg Bool := .call (ThreadOp.tpqPush item) .ret
abbrev tpqPop : ThreadProg (Option TpqItem) := .call ThreadOp.tpqPop .ret
abbrev tpqShutdown : ThreadProg Unit := .call ThreadOp.tpqShutdown .ret
abbrev statsAdd (c : ThreadCounter) : ThreadProg Unit := .call (ThreadOp.statsAdd c) .ret
abbrev statsSub (c : ThreadCounter) : ThreadProg Unit := .call (ThreadOp.statsSub c) .ret
abbrev statsActiveClientAdd (key label : Bytes) : ThreadProg Unit :=
  .call (ThreadOp.statsActiveClientAdd key label) .ret
abbrev statsActiveClientRemove (key : Bytes) : ThreadProg Unit :=
  .call (ThreadOp.statsActiveClientRemove key) .ret
abbrev tlsAcceptConnection (fd : ℕ) : ThreadProg Bool :=
  .call (ThreadOp.tlsAcceptConnection fd) .ret
abbrev sslFree (fd : ℕ) : ThreadProg Unit := .call (ThreadOp.sslFree fd) .ret
abbrev close (fd : ℕ) : ThreadProg Unit := .call (ThreadOp.close fd) .ret
abbrev closeListener (fd : ℕ) : ThreadProg Unit := .call (ThreadOp.closeListener fd) .ret
abbrev shutdown (fd : ℕ) : ThreadProg Unit := .call (ThreadOp.shutdown fd) .ret
abbrev shutdownListener (fd : ℕ) : ThreadProg Unit := .call (ThreadOp.shutdownListener fd) .ret
abbrev loadWorkerFd (i : ℕ) : ThreadProg (Option ℕ) := .call (ThreadOp.loadWorkerFd i) .ret
abbrev storeWorkerFd (i : ℕ) (fd : Option ℕ) : ThreadProg Unit :=
  .call (ThreadOp.storeWorkerFd i fd) .ret
abbrev loadListenFd : ThreadProg (Option ℕ) := .call ThreadOp.loadListenFd .ret
abbrev clearListenFd : ThreadProg Unit := .call ThreadOp.clearListenFd .ret
abbrev lockShutdown : ThreadProg Unit := .call ThreadOp.lockShutdown .ret
abbrev unlockShutdown : ThreadProg Unit := .call ThreadOp.unlockShutdown .ret

end Thread

open Thread

/-! ### The acceptor -/

/-- After a failed `select` or `accept`: whether the loop is left. -/
def acceptorFailed (text : Bytes) (errno : Errno) : ThreadProg (Unit ⊕ Unit) := do
  if ¬ (← loadRunning) then .ret (.inr ())
  else
    match errno with
    | .badFd => .ret (.inr ())
    | .interrupted => .ret (.inl ())
    | .other n =>
      Thread.logMsg .warn (text ++ decimal n)
      .ret (.inl ())

/-- An accepted connection is queued, or turned away. -/
def queueConnection (cfg : ThreadsConfig) (fd : ℕ) : ThreadProg (Unit ⊕ Unit) := do
  netSetTimeouts fd cfg.clientTimeoutSec
  let clientInfo ← netPeerInfo fd clientInfoLen
  Thread.statsAdd .connections
  if ¬ (← Thread.tpqPush ⟨fd, clientInfo⟩) then
    connSendPlainBusy fd
    Thread.logMsg .warn (ascii "REJECT busy queue_full=1")
    close fd
    .ret (.inl ())
  else
    Thread.logMsg .info (ascii "ACCEPT queued")
    .ret (.inl ())

/-- A round of the loop of `acceptor_thread`; `listenFd` is `ctx->listen_fd`. -/
def acceptorRound (cfg : ThreadsConfig) (listenFd : Option ℕ) (_ : Unit) :
    ThreadProg (Unit ⊕ Unit) := do
  if ¬ (← loadRunning) then .ret (.inr ())
  else
    match listenFd with
    | none => .ret (.inr ())
    | some listenFd =>
      match ← Thread.select listenFd 200000 with
      | .failed errno => acceptorFailed (ascii "SELECT failed errno=") errno
      | .timedOut => .ret (.inl ())
      | .ready =>
        match ← accept listenFd with
        | .failed errno => acceptorFailed (ascii "ACCEPT failed errno=") errno
        | .fd fd => queueConnection cfg fd

/-- A descriptor, as `%d` prints it. -/
def fdText : Option ℕ → Bytes
  | some fd => decimal fd
  | none => ascii "-1"

/-- `acceptor_thread` -/
def acceptorThread (bound : ℕ) (cfg : ThreadsConfig) (listenFd : Option ℕ) : ThreadProg Unit := do
  Thread.logMsg .info (ascii "ACCEPTOR_START listen_fd=" ++ fdText listenFd)
  Prog.iterate bound (acceptorRound cfg listenFd) ()
  Thread.logMsg .info (ascii "ACCEPTOR_STOP")

/-! ### The workers -/

/-- `server_track_worker_fd` -/
def serverTrackWorkerFd (workerId : ℕ) (fd : Option ℕ) : ThreadProg Unit :=
  if workerId = 0 ∨ workerId ≥ trackedWorkerFds then .ret () else storeWorkerFd workerId fd

/-- `conn_close` -/
def connClose (fd : ℕ) (ssl : Bool) : ThreadProg Unit := do
  if ssl then sslFree fd
  close fd

/-- The end of a connection a worker has taken up. -/
def dropConnection (workerId : ℕ) (item : TpqItem) (ssl : Bool) : ThreadProg (Unit ⊕ Unit) := do
  connClose item.fd ssl
  serverTrackWorkerFd workerId none
  Thread.statsActiveClientRemove item.clientInfo
  Thread.statsSub .busyWorkers
  .ret (.inl ())

/-- A session, in a thread. -/
def threadSession (cfg : ThreadsConfig) (clientInfo : Bytes) : ThreadProg Bool :=
  Prog.interp (fun o => .call (ThreadOp.session o) .ret)
    (handleClientSession cfg.toServerConfig clientInfo)

/-- A connection whose handshake, if any, is done. -/
def serveConnection (cfg : ThreadsConfig) (workerId : ℕ) (item : TpqItem) (ssl : Bool) :
    ThreadProg (Unit ⊕ Unit) := do
  if ¬ (← threadSession cfg item.clientInfo) then
    Thread.statsAdd .errors
    Thread.logMsg .warn (ascii "SESSION_END status=ERROR")
    dropConnection workerId item ssl
  else
    Thread.logMsg .info (ascii "SESSION_END status=OK")
    dropConnection workerId item ssl

/-- A round of the loop of `worker_thread`. -/
def workerRound (cfg : ThreadsConfig) (workerId : ℕ) (_ : Unit) : ThreadProg (Unit ⊕ Unit) := do
  if ¬ (← loadRunning) then .ret (.inr ())
  else
    match ← Thread.tpqPop with
    | none => .ret (.inr ())
    | some item =>
      if ¬ (← loadRunning) then
        connClose item.fd false
        .ret (.inr ())
      else
        Thread.statsAdd .busyWorkers
        Thread.statsActiveClientAdd item.clientInfo item.clientInfo
        serverTrackWorkerFd workerId (some item.fd)
        if cfg.enableTls then
          if ¬ (← tlsAcceptConnection item.fd) then
            Thread.statsAdd .errors
            Thread.logMsg .warn (ascii "TLS_FAIL handshake")
            dropConnection workerId item false
          else serveConnection cfg workerId item true
        else serveConnection cfg workerId item false

/-- `worker_thread` -/
def workerThread (bound : ℕ) (cfg : ThreadsConfig) (workerId : ℕ) : ThreadProg Unit := do
  Thread.logMsg .info (ascii "WORKER_START")
  Prog.iterate bound (workerRound cfg workerId) ()
  Thread.logMsg .info (ascii "WORKER_STOP")

/-! ### Shutdown -/

/-- The loop of `shutdown_active_worker_fds`, over these slots. -/
def shutdownSlots : List ℕ → ThreadProg Unit
  | [] => .ret ()
  | i :: slots => do
    match ← loadWorkerFd i with
    | none => shutdownSlots slots
    | some fd =>
      storeWorkerFd i none
      shutdown fd
      shutdownSlots slots

/-- `shutdown_active_worker_fds` -/
def shutdownActiveWorkerFds : ThreadProg Unit := shutdownSlots (List.range trackedWorkerFds)

/-- `server_request_shutdown`, while the queue is there. -/
def serverRequestShutdown : ThreadProg Unit := do
  lockShutdown
  clearRunning
  match ← loadListenFd with
  | none => .ret ()
  | some fd =>
    clearListenFd
    shutdownListener fd
    closeListener fd
  shutdownActiveWorkerFds
  Thread.tpqShutdown
  unlockShutdown

/-! ### What the threads share -/

structure ThreadWorld where
  /-- `g_running` -/
  running : Bool
  queue : Tpq TpqItem
  /-- The descriptors `accept` has returned, in order. -/
  accepted : List ℕ
  /-- Those that were closed, in order. -/
  closed : List ℕ
  /-- The open ones `shutdown()` was called on. -/
  shut : List ℕ
  /-- `g_listen_fd` -/
  listenFd : Option ℕ
  /-- `g_worker_fds` -/
  workerFds : ℕ → Option ℕ
  /-- `g_shutdown_lock` -/
  locked : Bool

/-- The descriptor has been returned by `accept` since it was closed last. -/
def ThreadWorld.Open (w : ThreadWorld) (fd : ℕ) : Prop := w.closed.count fd < w.accepted.count fd

/-- `accept` returns a descriptor that is not open; the queue does what `threadpool.c` does, a
`tpq_pop` returning when it need not wait; a signal may clear `g_running` at any time; everything
else may have any outcome. -/
def threadEnv : Env threadInterface ThreadWorld where
  may w o r w' :=
    match o, r with
    | .loadRunning, r => r = w.running ∧ w' = w
    | .clearRunning, _ => w' = { w with running := false }
    | .accept _, .fd fd => ¬ w.Open fd ∧ w' = { w with accepted := w.accepted ++ [fd] }
    | .tpqPush item, r => r = (UpdateFramework.tpqPush w.queue item).1 ∧
        w' = { w with queue := (UpdateFramework.tpqPush w.queue item).2 }
    | .tpqPop, some item => (UpdateFramework.tpqPop w.queue).1 = .item item ∧
        w' = { w with queue := (UpdateFramework.tpqPop w.queue).2 }
    | .tpqPop, none => (UpdateFramework.tpqPop w.queue).1 = .stopped ∧ w' = w
    | .tpqShutdown, _ => w' = { w with queue := UpdateFramework.tpqShutdown w.queue }
    | .close fd, _ => w' = { w with closed := w.closed ++ [fd], shut := w.shut.filter (· ≠ fd) }
    | .shutdown fd, _ => w' = { w with shut := fd :: w.shut }
    | .loadWorkerFd i, r => r = w.workerFds i ∧ w' = w
    | .storeWorkerFd i fd, _ => w' = { w with workerFds := Function.update w.workerFds i fd }
    | .loadListenFd, r => r = w.listenFd ∧ w' = w
    | .clearListenFd, _ => w' = { w with listenFd := none }
    | .lockShutdown, _ => w.locked = false ∧ w' = { w with locked := true }
    | .unlockShutdown, _ => w' = { w with locked := false }
    | _, _ => w' = w
  drift w w' := w' = w ∨ w' = { w with running := false }
  drift_refl _ := .inl rfl
  drift_trans h k := by
    rcases h with rfl | rfl
    · exact k
    · rcases k with rfl | rfl <;> exact .inr rfl

/-- The threads the server starts. -/
inductive Role where
  | acceptor
  | worker (id : ℕ)
  /-- A caller of `server_request_shutdown`. -/
  | stopper (n : ℕ)
  deriving DecidableEq

/-- What each of them runs. -/
def roles (cfg : ThreadsConfig) (listenFd : Option ℕ) : Role → ThreadProg Unit → Prop
  | .acceptor, p => ∃ bound, p = acceptorThread bound cfg listenFd
  | .worker id, p => (1 ≤ id ∧ id ≤ cfg.maxWorkers) ∧ ∃ bound, p = workerThread bound cfg id
  | .stopper _, p => p = serverRequestShutdown

end UpdateFramework.Server
