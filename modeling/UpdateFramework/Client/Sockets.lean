import UpdateFramework.Client.Downloader
import UpdateFramework.Process.Pool

/-!
# Client — who closes a socket

`client_main.c` lets whoever asks the client to stop close the socket of the attempt under way: the
descriptor stands in `g_active_fd`, and what was closed so in `g_signal_closed_fd`.  Here every
access to the two, and every `close`, is an operation of its own (`SocketOp`); the client's thread
runs `CheckForUpdate` with them, and any number of others run `client_request_stop`.

`Phase` is how far the client's thread is with its descriptor, read off what it has called.
-/

namespace UpdateFramework.Client

open Libc Process

inductive SocketOp where
  /-- `g_client_stop = 1` -/
  | setStop
  /-- `g_active_fd`; nothing for `-1`. -/
  | loadActive
  | storeActive (fd : Option ℕ)
  /-- `g_signal_closed_fd` -/
  | loadSignalClosed
  | storeSignalClosed (fd : Option ℕ)
  | close (fd : ℕ)
  /-- An operation of `downloader.c` that is none of these. -/
  | other (o : ClientOp)
  deriving DecidableEq

@[reducible] def SocketOp.Res : SocketOp → Type
  | .loadActive | .loadSignalClosed => Option ℕ
  | .other o => ClientOp.Res o
  | .setStop | .storeActive _ | .storeSignalClosed _ | .close _ => Unit

@[reducible] def socketInterface : Interface := ⟨SocketOp, SocketOp.Res⟩

abbrev SocketProg (α : Type) := Prog socketInterface α

abbrev setStop : SocketProg Unit := .call SocketOp.setStop .ret
abbrev loadActive : SocketProg (Option ℕ) := .call SocketOp.loadActive .ret
abbrev storeActive (fd : Option ℕ) : SocketProg Unit := .call (SocketOp.storeActive fd) .ret
abbrev loadSignalClosed : SocketProg (Option ℕ) := .call SocketOp.loadSignalClosed .ret
abbrev storeSignalClosed (fd : Option ℕ) : SocketProg Unit :=
  .call (SocketOp.storeSignalClosed fd) .ret
abbrev close (fd : ℕ) : SocketProg Unit := .call (SocketOp.close fd) .ret

/-! ### `client_main.c` -/

/-- `client_request_stop` -/
def clientRequestStop : SocketProg Unit := do
  setStop
  match ← loadActive with
  | none => .ret ()
  | some fd =>
    storeActive none
    storeSignalClosed (some fd)
    close fd

/-- `client_set_active_fd`; nothing for `-1`. -/
def clientSetActiveFd (fd : Option ℕ) : SocketProg Unit := do
  storeActive fd
  if fd.isSome then storeSignalClosed none else .ret ()

/-- `client_active_fd_was_signal_closed` -/
def clientActiveFdWasSignalClosed (fd : ℕ) : SocketProg Bool := do
  if (← loadSignalClosed) = some fd then
    storeSignalClosed none
    .ret true
  else if (← loadActive) = some fd then
    storeActive none
    .ret false
  else .ret false

/-- What an operation of `downloader.c` does to the flags and descriptors. -/
def onSockets : (o : ClientOp) → SocketProg (ClientOp.Res o)
  | .setActiveFd fd => clientSetActiveFd fd
  | .activeFdWasSignalClosed fd => clientActiveFdWasSignalClosed fd
  | .connClose fd => close fd
  | o => Prog.perform (E := socketInterface) (.other o)

/-- The thread that runs `CheckForUpdate`. -/
def updateThread (bound : ℕ) (cfg : ClientConfig) : SocketProg Unit := do
  let _ ← Prog.interp onSockets (checkForUpdate bound cfg)
  .ret ()

/-! ### The surroundings -/

structure SocketWorld where
  stop : Bool
  active : Option ℕ
  signalClosed : Option ℕ
  /-- What `net_connect_tcp` has returned, in order. -/
  opened : List ℕ
  /-- What was passed to `close`, in order. -/
  closed : List ℕ

/-- The descriptor is open. -/
def SocketWorld.Open (w : SocketWorld) (fd : ℕ) : Prop := w.closed.count fd < w.opened.count fd

/-- What an operation may answer, and do. -/
def socketMay (w : SocketWorld) : (o : SocketOp) → SocketOp.Res o → SocketWorld → Prop
  | .setStop, _, w' => w' = { w with stop := true }
  | .loadActive, r, w' => r = w.active ∧ w' = w
  | .storeActive fd, _, w' => w' = { w with active := fd }
  | .loadSignalClosed, r, w' => r = w.signalClosed ∧ w' = w
  | .storeSignalClosed fd, _, w' => w' = { w with signalClosed := fd }
  | .close fd, _, w' => w' = { w with closed := w.closed ++ [fd] }
  | .other .netConnectTcp, some fd, w' => ¬ w.Open fd ∧ w' = { w with opened := w.opened ++ [fd] }
  | .other .stopRequested, r, w' => r = w.stop ∧ w' = w
  | .other _, _, w' => w' = w

def socketEnv : Env socketInterface SocketWorld where
  may := socketMay

/-- The client's thread, and whoever asks it to stop: a signal, or the window. -/
inductive Party where
  | client
  | stopper (n : ℕ)
  deriving DecidableEq

/-- What the threads run. -/
def parties (cfg : ClientConfig) : Party → SocketProg Unit → Prop
  | .client, p => ∃ bound, p = updateThread bound cfg
  | .stopper _, p => p = clientRequestStop

/-! ### The client's thread -/

/-- How far the client's thread is with its descriptor. -/
inductive Phase where
  | away
  | connected (fd : ℕ)
  /-- `g_active_fd` is set, `g_signal_closed_fd` not yet. -/
  | posted (fd : ℕ)
  | armed (fd : ℕ)
  /-- `g_signal_closed_fd` was this descriptor. -/
  | told (fd : ℕ)
  /-- `g_signal_closed_fd` was another, or nothing. -/
  | leaving (fd : ℕ)
  /-- And `g_active_fd` was this descriptor. -/
  | seen (fd : ℕ)
  | withdrawn (fd : ℕ)
  | dropped (fd : ℕ)
  deriving DecidableEq

/-- The phase after an operation of `downloader.c`. -/
def attemptStep : Phase → Call clientInterface → Phase
  | _, ⟨.netConnectTcp, some fd⟩ => .connected fd
  | _, ⟨.setActiveFd (some fd), _⟩ => .armed fd
  | .withdrawn fd, ⟨.setActiveFd none, _⟩ => .dropped fd
  | _, ⟨.activeFdWasSignalClosed _, true⟩ => .away
  | _, ⟨.activeFdWasSignalClosed fd, false⟩ => .withdrawn fd
  | _, ⟨.connClose _, _⟩ => .away
  | p, _ => p

/-- What `downloader.c` does to its descriptor, and when. -/
def attemptHandles : Phase → ClientOp → Prop
  | p, .netConnectTcp => p = .away
  | p, .setActiveFd (some fd) => p = .connected fd
  | p, .setActiveFd none => ∃ fd, p = .withdrawn fd
  | p, .activeFdWasSignalClosed fd => p = .armed fd
  | p, .connClose fd => p = .dropped fd
  | _, _ => True

/-- The phase after an operation. -/
def phaseStep : Phase → Call socketInterface → Phase
  | _, ⟨.other .netConnectTcp, some fd⟩ => .connected fd
  | _, ⟨.storeActive (some fd), _⟩ => .posted fd
  | .posted fd, ⟨.storeSignalClosed none, _⟩ => .armed fd
  | .armed fd, ⟨.loadSignalClosed, r⟩ => if r = some fd then .told fd else .leaving fd
  | .told _, ⟨.storeSignalClosed none, _⟩ => .away
  | .leaving fd, ⟨.loadActive, r⟩ => if r = some fd then .seen fd else .withdrawn fd
  | .seen fd, ⟨.storeActive none, _⟩ => .withdrawn fd
  | .withdrawn fd, ⟨.storeActive none, _⟩ => .dropped fd
  | _, ⟨.close _, _⟩ => .away
  | p, _ => p

/-- What the client's thread does to the flags and its descriptor, and when. -/
def phaseHandles : Phase → SocketOp → Prop
  | p, .other .netConnectTcp => p = .away
  | p, .storeActive (some fd) => p = .connected fd
  | p, .storeSignalClosed none => ∃ fd, p = .posted fd ∨ p = .told fd
  | p, .loadSignalClosed => ∃ fd, p = .armed fd
  | p, .loadActive => ∃ fd, p = .leaving fd
  | p, .storeActive none => ∃ fd, p = .seen fd ∨ p = .withdrawn fd
  | p, .close fd => p = .dropped fd
  | _, .other _ => True
  | _, _ => False

/-- An operation of `downloader.c` that leaves the phase as it is. -/
def aside : ClientOp → Prop
  | .netConnectTcp | .setActiveFd _ | .activeFdWasSignalClosed _ | .connClose _ => False
  | _ => True

theorem attemptStep_aside {o : ClientOp} (h : aside o) (p : Phase) (r : ClientOp.Res o) :
    attemptStep p ⟨o, r⟩ = p := by
  cases o with
  | netConnectTcp | setActiveFd _ | activeFdWasSignalClosed _ | connClose _ => exact h.elim
  | _ => cases p <;> rfl

theorem attemptHandles_aside {o : ClientOp} (h : aside o) (p : Phase) : attemptHandles p o := by
  cases o with
  | netConnectTcp | setActiveFd _ | activeFdWasSignalClosed _ | connClose _ => exact h.elim
  | _ => trivial

section Attempts

variable {α β : Type} {cfg : ClientConfig} {p : Phase}

/-- What a part of the client's program makes of the phase. -/
abbrev Tracked (Q : α → Phase → Prop) (prog : ClientProg α) (p : Phase) : Prop :=
  Safe (Env.folding attemptStep) attemptHandles Q prog p

theorem aside_tracked {prog : ClientProg α} (h : prog.Only aside) :
    Tracked (fun _ q => q = p) prog p := by
  induction prog with
  | ret a => exact safe_folding_ret.mpr rfl
  | call o k ih =>
      refine safe_folding_call.mpr ⟨attemptHandles_aside h.1 p, fun r => ?_⟩
      rw [attemptStep_aside h.1]
      exact ih r (h.2 r)
  | spin => trivial

/-- The same, with what follows. -/
theorem aside_bind {prog : ClientProg α} {f : α → ClientProg β} {Q : β → Phase → Prop}
    (h : prog.Only aside) (hf : ∀ a, Tracked Q (f a) p) : Tracked Q (prog >>= f) p := by
  refine safe_bind.mpr ((aside_tracked h).post ?_)
  rintro a q rfl
  exact hf a

theorem aside_call {o : ClientOp} {k : ClientOp.Res o → ClientProg β} {Q : β → Phase → Prop}
    (h : aside o) (hk : ∀ r, Tracked Q (k r) p) : Tracked Q (.call o k) p := by
  refine safe_folding_call.mpr ⟨attemptHandles_aside h p, fun r => ?_⟩
  rw [attemptStep_aside h]
  exact hk r

theorem file_aside (prog : Prog (stdio Path) α) : (file prog).Only aside := by
  have hone : ∀ o : FileOp Path, (Prog.call (E := clientInterface) (.file o) .ret).Only aside :=
    fun _ => .call trivial fun _ => trivial
  exact .interp hone prog

theorem recvControl_aside : recvControl.Only aside := by
  refine .call trivial fun r => ?_
  cases r with
  | ok f => trivial
  | eof | tooLarge | bad => trivial

theorem interruptibleSleepMs_aside (ms : ℕ) : (interruptibleSleepMs ms).Only aside := by
  refine Prog.Only.bind (.iterate (fun slept => ?_) _ _) fun _ => .call trivial fun _ => trivial
  unfold sleepRound
  simp only [Prog.call_bind, Prog.ret_bind]
  split
  · trivial
  refine .call trivial fun stop => ?_
  split
  · trivial
  · exact .call trivial fun _ => trivial

theorem pausedOrRetry_aside : pausedOrRetry.Only aside := by
  unfold pausedOrRetry retryOrReconnect
  simp only [Prog.call_bind, Prog.ret_bind]
  refine .call trivial fun stop => ?_
  split
  · trivial
  · refine .call trivial fun active => ?_
    split
    · trivial
    · trivial

/-! ### An update -/

theorem waitForGuiResumeOnConnection_aside (cfg : ClientConfig) :
    (waitForGuiResumeOnConnection cfg).Only aside := by
  refine Prog.Only.bind (.iterate (fun waited => ?_) _ _) fun r => ?_
  · unfold waitRound
    simp only [Prog.call_bind, Prog.ret_bind]
    split
    · trivial
    refine .call trivial fun stop => ?_
    split
    · trivial
    refine .call trivial fun resume => ?_
    split
    · refine .call trivial fun ok => ?_
      split
      · trivial
      · exact .call trivial fun _ => trivial
    · exact .call trivial fun _ => trivial
  · cases r with
    | ended => exact .call trivial fun _ => .call trivial fun _ => trivial
    | resumed | expired => trivial

theorem saveInterruptedDownload_aside (fp : Option Handle) (version : Bytes)
    (offset totalSize : ℕ) (sha : Bytes) (result : AttemptResult) :
    (saveInterruptedDownload cfg fp version offset totalSize sha result).Only aside := by
  have hrest : Prog.Only aside (do
      file (writeResumeMetadata cfg version offset totalSize sha)
      if result = .paused then setPaused
      else if result = .reconnect then setResumeRetryActive true
      else .ret ()
      .ret result) := by
    refine (file_aside _).bind fun _ => ?_
    split
    · exact .call trivial fun _ => trivial
    · split
      · exact .call trivial fun _ => trivial
      · trivial
  cases fp with
  | none => exact hrest
  | some fp =>
      exact .call trivial fun _ => .call trivial fun _ => .call trivial fun _ =>
        .call trivial fun _ => hrest

theorem handleFrame_aside (d : Download) (received : ℕ) (f : Frame) :
    (handleFrame d received f).Only aside := by
  have hdrop : ∀ r : ℕ ⊕ Option AttemptResult, Prog.Only aside (do
      free
      let _ ← file (fclose d.fp)
      let _ ← file (unlink (.part d.latest))
      .ret r) := fun r =>
    .call trivial fun _ => (file_aside _).bind fun _ => (file_aside _).bind fun _ => trivial
  have hretry : Prog.Only aside (do
      free
      let _ ← file (fclose d.fp)
      .ret (.inr (some AttemptResult.retry) : ℕ ⊕ Option AttemptResult)) :=
    .call trivial fun _ => (file_aside _).bind fun _ => trivial
  unfold handleFrame
  split
  · split
    · exact hdrop _
    have hwritten : ∀ written : ℕ, Prog.Only aside
        (if written ≠ f.payload.length then do
          free
          let _ ← file (fclose d.fp)
          .ret (.inr (some .retry))
        else .ret (.inl ((received + f.payload.length) % 2 ^ 64)) :
          ClientProg (ℕ ⊕ Option AttemptResult)) := by
      intro written
      split
      · exact hretry
      · trivial
    dsimp only
    split
    · exact (file_aside _).bind hwritten
    · exact hwritten 0
  · split
    · split
      · trivial
      · exact hdrop _
    · exact hdrop _
  · exact hretry

theorem pauseDownload_aside (d : Download) (received : ℕ) :
    (pauseDownload cfg d received).Only aside := by
  unfold pauseDownload
  simp only [Prog.call_bind, Prog.ret_bind, file_call, file_ret]
  refine .call trivial fun _ => .call trivial fun _ => (file_aside _).bind fun _ => ?_
  refine .call trivial fun sent => ?_
  split
  · exact .call trivial fun _ => trivial
  · refine (waitForGuiResumeOnConnection_aside cfg).bind fun r => ?_
    cases r with
    | resumed | expired | ended => trivial

theorem downloadRound_aside (d : Download) (received : ℕ) :
    (downloadRound cfg d received).Only aside := by
  unfold downloadRound
  simp only [Prog.call_bind, Prog.ret_bind]
  refine .call trivial fun pause => ?_
  split
  · exact pauseDownload_aside d received
  refine .call trivial fun stop => ?_
  split
  · exact (saveInterruptedDownload_aside _ _ _ _ _ _).bind fun _ => trivial
  refine .call trivial fun r => ?_
  split
  · exact handleFrame_aside d received _
  · refine .call trivial fun stop => ?_
    exact (saveInterruptedDownload_aside _ _ _ _ _ _).bind fun _ => trivial

theorem installUpdate_aside (bound : ℕ) (d : Download) :
    (installUpdate bound cfg d).Only aside := by
  have hfail : Prog.Only aside (do
      let _ ← file (fclose d.fp)
      .ret AttemptResult.retry) := (file_aside _).bind fun _ => trivial
  unfold installUpdate
  simp only [Prog.call_bind, Prog.ret_bind, file_call, file_ret]
  refine .call trivial fun _ => .call trivial fun flushed => ?_
  cases flushed with
  | false => exact hfail
  | true =>
      refine .call trivial fun synced => ?_
      cases synced with
      | false => exact hfail
      | true =>
          refine .call trivial fun _ => (file_aside _).bind fun actual => ?_
          split
          · exact .call trivial fun _ => .call trivial fun _ => trivial
          refine .call trivial fun renamed => ?_
          split
          · trivial
          refine .call trivial fun _ => recvControl_aside.bind fun _ => ?_
          refine (file_aside _).bind fun wrote => ?_
          split
          · trivial
          split
          · trivial
          · exact .call trivial fun _ => .call trivial fun _ => trivial

theorem receiveUpdate_aside (bound : ℕ) (cfg : ClientConfig) (info : Bytes) :
    (receiveUpdate bound cfg info).Only aside := by
  have hfrom : ∀ latest sha size chunk offset,
      (downloadFrom bound cfg latest sha size chunk offset).Only aside := by
    intro latest sha size chunk offset
    unfold downloadFrom
    simp only [Prog.call_bind, Prog.ret_bind, file_call, file_ret]
    refine .call trivial fun sent => ?_
    split
    · exact .call trivial fun _ => saveInterruptedDownload_aside _ _ _ _ _ _
    refine .call trivial fun fp => ?_
    cases fp with
    | none => trivial
    | some fp =>
        refine .call trivial fun buf => ?_
        split
        · exact .call trivial fun _ => trivial
        refine (Prog.Only.iterate (fun received => downloadRound_aside _ received) _ _).bind
          fun rc => ?_
        cases rc with
        | some rc => trivial
        | none => exact installUpdate_aside bound _
  unfold receiveUpdate fileSizeOrZero
  split
  · split
    · trivial
    dsimp only
    split
    · trivial
    split
    · trivial
    refine Prog.Only.bind ((file_aside _).bind fun _ => trivial) fun offset => ?_
    split
    · exact (file_aside _).bind fun _ => hfrom _ _ _ _ _
    · exact hfrom _ _ _ _ _
  · trivial

/-! ### Attempts -/

/-- The thread has no descriptor. -/
abbrev Away {α : Type} (_ : α) (p : Phase) : Prop := p = .away

theorem closeAttemptConnection_tracked (fd : ℕ) (ssl : Bool) :
    Tracked Away (closeAttemptConnection fd ssl) (.armed fd) := by
  unfold closeAttemptConnection
  refine safe_folding_call.mpr ⟨rfl, fun told => ?_⟩
  cases told with
  | true =>
      have haway : Tracked Away (if ssl then sslFree else .ret ()) .away := by
        split
        · exact aside_call trivial fun _ => safe_folding_ret.mpr rfl
        · exact safe_folding_ret.mpr rfl
      exact haway
  | false =>
      refine safe_folding_call.mpr ⟨⟨fd, rfl⟩, fun _ => ?_⟩
      exact safe_folding_call.mpr ⟨rfl, fun _ => safe_folding_ret.mpr rfl⟩

/-- Once the connection is closed, nothing is done to a descriptor. -/
theorem closed_bind {fd : ℕ} {ssl : Bool} {f : Unit → ClientProg β} (h : ∀ u, (f u).Only aside) :
    Tracked Away (closeAttemptConnection fd ssl >>= f) (.armed fd) := by
  refine safe_bind.mpr ((closeAttemptConnection_tracked fd ssl).post ?_)
  rintro u q rfl
  exact aside_tracked (h u)

theorem requestVersion_tracked (bound : ℕ) (current : Bytes) (fd : ℕ) (ssl : Bool) :
    Tracked Away (requestVersion bound cfg current fd ssl) (.armed fd) := by
  have hpaused : Tracked Away (closeWith fd ssl pausedOrRetry) (.armed fd) :=
    closed_bind fun _ => pausedOrRetry_aside
  have hsleep : ∀ rc : AttemptResult, Prog.Only aside (do
      if ← interruptibleSleepMs 10000 then .ret AttemptResult.paused else .ret rc) := by
    refine fun rc => (interruptibleSleepMs_aside _).bind fun stop => ?_
    split
    · trivial
    · trivial
  unfold requestVersion
  simp only [Prog.call_bind, Prog.ret_bind]
  refine aside_call trivial fun sent => ?_
  split
  · exact hpaused
  refine aside_bind recvControl_aside fun r => ?_
  split
  · exact hpaused
  · exact aside_bind recvControl_aside fun _ => closed_bind fun _ =>
      .call trivial fun _ => hsleep .success
  · refine aside_bind (receiveUpdate_aside bound cfg _) fun rc => closed_bind fun _ => ?_
    split
    · exact hsleep rc
    · trivial
  · split
    · exact closed_bind fun _ => trivial
    split
    · exact closed_bind fun _ => trivial
    · exact closed_bind fun _ => trivial
  · exact hpaused

theorem converse_tracked (bound : ℕ) (current : Bytes) (fd : ℕ) (ssl : Bool) :
    Tracked Away (converse bound cfg current fd ssl) (.armed fd) := by
  have hpaused : Tracked Away (closeWith fd ssl pausedOrRetry) (.armed fd) :=
    closed_bind fun _ => pausedOrRetry_aside
  unfold converse
  simp only [Prog.call_bind, Prog.ret_bind]
  refine aside_bind recvControl_aside fun r => ?_
  split
  · refine aside_call trivial fun sent => ?_
    split
    · exact hpaused
    refine aside_bind recvControl_aside fun r => ?_
    split
    · exact hpaused
    · split
      · exact closed_bind fun _ => trivial
      split
      · exact closed_bind fun _ => trivial
      · exact closed_bind fun _ => trivial
    · exact requestVersion_tracked bound current fd ssl
    · exact hpaused
  · exact hpaused

theorem runAttempt_tracked (bound : ℕ) (current : Bytes) :
    Tracked Away (runAttempt bound cfg current) .away := by
  unfold runAttempt
  simp only [Prog.call_bind, Prog.ret_bind]
  refine safe_folding_call.mpr ⟨rfl, fun fd => ?_⟩
  cases fd with
  | none => exact aside_tracked pausedOrRetry_aside
  | some fd =>
      refine safe_folding_call.mpr ⟨rfl, fun _ => aside_call trivial fun stop => ?_⟩
      split
      · exact closed_bind fun _ => trivial
      split
      · refine aside_call trivial fun ssl => ?_
        split
        · exact converse_tracked bound current fd true
        · exact closed_bind fun _ => pausedOrRetry_aside
      · exact converse_tracked bound current fd false

theorem attemptRound_tracked (bound : ℕ) (current : Bytes) (attempt : ℕ) :
    Tracked Away (attemptRound cfg (runAttempt bound cfg current) attempt) .away := by
  have hsleep : ∀ (ms : ℕ) (go : ℕ), Prog.Only aside (do
      if ← interruptibleSleepMs ms then
        setPaused
        .ret (.inr .interrupted)
      else .ret (.inl go) : ClientProg (ℕ ⊕ CheckResult)) := by
    refine fun ms go => (interruptibleSleepMs_aside ms).bind fun stop => ?_
    split
    · exact .call trivial fun _ => trivial
    · trivial
  unfold attemptRound
  simp only [Prog.call_bind, Prog.ret_bind]
  split
  · exact safe_folding_ret.mpr rfl
  refine aside_call trivial fun stop => ?_
  split
  · exact aside_call trivial fun _ => safe_folding_ret.mpr rfl
  refine safe_bind.mpr ((runAttempt_tracked bound current).post ?_)
  rintro rc q rfl
  cases rc with
  | success | paused | fatal => exact safe_folding_ret.mpr rfl
  | resumeReconnect =>
      dsimp only
      split
      · exact safe_folding_ret.mpr rfl
      · exact safe_folding_ret.mpr rfl
  | reconnect | retry =>
      dsimp only
      split
      · exact aside_tracked (hsleep _ _)
      · exact safe_folding_ret.mpr rfl

/-- However many attempts are made, each ends with its descriptor given up. -/
theorem checkForUpdate_tracked (bound : ℕ) (cfg : ClientConfig) :
    Tracked Away (checkForUpdate bound cfg) .away := by
  unfold checkForUpdate
  refine aside_bind (file_aside _) fun current => ?_
  cases current with
  | none => exact safe_folding_ret.mpr rfl
  | some current =>
      refine safe_loop _ trivial (fun _ => Away ()) (fun attempt p hp => ?_) bound rfl
      subst hp
      refine (attemptRound_tracked bound current attempt).post fun r p hp => ?_
      cases r with
      | inl _ => exact hp
      | inr _ => exact safe_folding_ret (G := attemptHandles).mpr hp

end Attempts

/-! ### The same with the flags -/

theorem onSockets_safe (p : Phase) (o : ClientOp) (ho : attemptHandles p o) :
    Safe (Env.folding phaseStep) phaseHandles (fun r q => q = attemptStep p ⟨o, r⟩) (onSockets o)
      p := by
  cases o with
  | netConnectTcp =>
      refine safe_folding_call.mpr ⟨ho, fun r => safe_folding_ret.mpr ?_⟩
      cases r <;> cases p <;> rfl
  | setActiveFd fd =>
      cases fd with
      | none =>
          obtain ⟨fd, rfl⟩ := ho
          exact safe_folding_call.mpr ⟨⟨fd, .inr rfl⟩, fun _ => safe_folding_ret.mpr rfl⟩
      | some fd =>
          obtain rfl : p = .connected fd := ho
          refine safe_folding_call.mpr ⟨rfl, fun _ => ?_⟩
          exact safe_folding_call.mpr ⟨⟨fd, .inl rfl⟩, fun _ => safe_folding_ret.mpr rfl⟩
  | activeFdWasSignalClosed fd =>
      obtain rfl : p = .armed fd := ho
      change Safe (Env.folding phaseStep) phaseHandles _ (clientActiveFdWasSignalClosed fd) _
      unfold clientActiveFdWasSignalClosed
      simp only [Prog.call_bind, Prog.ret_bind]
      refine safe_folding_call.mpr ⟨⟨fd, rfl⟩, fun told => ?_⟩
      by_cases htold : told = some fd
      · rw [if_pos htold, phaseStep, if_pos htold]
        exact safe_folding_call.mpr ⟨⟨fd, .inr rfl⟩, fun _ => safe_folding_ret.mpr rfl⟩
      · rw [if_neg htold, phaseStep, if_neg htold]
        refine safe_folding_call.mpr ⟨⟨fd, rfl⟩, fun active => ?_⟩
        by_cases hactive : active = some fd
        · rw [if_pos hactive, phaseStep, if_pos hactive]
          exact safe_folding_call.mpr ⟨⟨fd, .inl rfl⟩, fun _ => safe_folding_ret.mpr rfl⟩
        · rw [if_neg hactive, phaseStep, if_neg hactive]
          exact safe_folding_ret.mpr rfl
  | connClose fd =>
      obtain rfl : p = .dropped fd := ho
      exact safe_folding_call.mpr ⟨rfl, fun _ => safe_folding_ret.mpr rfl⟩
  | _ =>
      refine safe_folding_call.mpr ⟨trivial, fun r => safe_folding_ret.mpr ?_⟩
      cases p <;> rfl

/-- The client's thread goes through the phases in order, and ends away. -/
theorem updateThread_safe (bound : ℕ) (cfg : ClientConfig) :
    Safe (Env.folding phaseStep) phaseHandles (fun _ p => p = .away) (updateThread bound cfg)
      .away := by
  have hinterp : Safe (Env.folding phaseStep) phaseHandles (fun _ p => p = .away ∧ True)
      (Prog.interp onSockets (checkForUpdate bound cfg)) .away := by
    refine safe_interp id (fun _ => True) (fun _ => trivial) (fun _ (h : _ = _) => ⟨h, trivial⟩)
      (fun p o _ hG => ?_) trivial (checkForUpdate_tracked bound cfg)
    refine (onSockets_safe p o (hG p rfl)).post ?_
    rintro r q rfl
    exact ⟨⟨p, _, rfl, rfl, rfl⟩, trivial⟩
  unfold updateThread
  refine safe_bind.mpr (hinterp.post fun _ p hp => ?_)
  exact safe_folding_ret.mpr hp.1

end UpdateFramework.Client
