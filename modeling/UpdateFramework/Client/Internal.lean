import UpdateFramework.Client.Downloader

/-!
# Client — what it does by itself

The parts of an attempt that neither work on files nor say or hear anything: waiting, giving up and
closing the connection.
-/

namespace UpdateFramework.Client

open Libc Process

/-- An operation on neither files nor frames, that opens no connection. -/
def internal : ClientOp → Prop
  | .file _ | .protoSend _ | .protoRecv _ _ | .netConnectTcp => False
  | _ => True

theorem interruptibleSleepMs_internal (ms : ℕ) : (interruptibleSleepMs ms).Only internal := by
  refine (Prog.Only.iterate (fun slept => ?_) _ _).bind fun _ => .call trivial fun _ => trivial
  unfold sleepRound
  split
  · trivial
  · refine .call trivial fun stop => ?_
    cases stop with
    | true => trivial
    | false => exact .call trivial fun _ => trivial

theorem pausedOrRetry_internal : pausedOrRetry.Only internal := by
  refine .call trivial fun stop => ?_
  cases stop with
  | true => trivial
  | false =>
      refine .call trivial fun active => ?_
      cases active with
      | true => trivial
      | false => trivial

theorem closeAttemptConnection_internal (fd : ℕ) (ssl : Bool) :
    (closeAttemptConnection fd ssl).Only internal := by
  refine .call trivial fun closed => ?_
  cases closed with
  | false => exact .call trivial fun _ => .call trivial fun _ => trivial
  | true =>
      cases ssl with
      | true => exact .call trivial fun _ => trivial
      | false => trivial

theorem closeWith_internal (fd : ℕ) (ssl : Bool) {p : ClientProg AttemptResult}
    (hp : p.Only internal) : (closeWith fd ssl p).Only internal :=
  (closeAttemptConnection_internal fd ssl).bind fun _ => hp

/-- What is made of an `ERROR`: two of its codes are final. -/
theorem refusal_internal (fd : ℕ) (ssl : Bool) (c c' : Prop) [Decidable c] [Decidable c'] :
    (if c then closeWith fd ssl (.ret .fatal)
      else if c' then closeWith fd ssl (.ret .fatal)
      else closeWith fd ssl (.ret .retry)).Only internal := by
  split
  · exact closeWith_internal fd ssl trivial
  · split
    · exact closeWith_internal fd ssl trivial
    · exact closeWith_internal fd ssl trivial

/-- The sleep after an attempt that has settled the matter. -/
theorem settledSleep_internal (ms : ℕ) (rc : AttemptResult) : Prog.Only internal (do
    if ← interruptibleSleepMs ms then .ret .paused else .ret rc : ClientProg AttemptResult) := by
  refine (interruptibleSleepMs_internal ms).bind fun stop => ?_
  cases stop with
  | true => trivial
  | false => trivial

/-- The sleep between two attempts. -/
theorem retrySleep_internal (ms attempt : ℕ) : Prog.Only internal (do
    if ← interruptibleSleepMs ms then
      setPaused
      .ret (.inr .interrupted)
    else .ret (.inl (attempt + 1)) : ClientProg (ℕ ⊕ CheckResult)) := by
  refine (interruptibleSleepMs_internal ms).bind fun stop => ?_
  cases stop with
  | true => exact .call trivial fun _ => trivial
  | false => trivial

/-- Waiting for the user, with the frame that says that the download goes on. -/
theorem waitForGuiResumeOnConnection_internal (cfg : ClientConfig) :
    (waitForGuiResumeOnConnection cfg).Only fun o =>
      internal o ∨ o = ClientOp.protoSend (textFrame .resume (ascii "status=resume")) := by
  refine (Prog.Only.iterate (fun waited => ?_) _ _).bind fun r => ?_
  · unfold waitRound
    split
    · trivial
    refine .call (.inl trivial) fun stop => ?_
    cases stop with
    | true => trivial
    | false =>
        refine .call (.inl trivial) fun resume => ?_
        cases resume with
        | false => exact .call (.inl trivial) fun _ => trivial
        | true =>
            refine .call (.inr rfl) fun sent => ?_
            cases sent with
            | true => trivial
            | false => exact .call (.inl trivial) fun _ => trivial
  · cases r with
    | resumed => trivial
    | expired => trivial
    | ended => exact .call (.inl trivial) fun _ => .call (.inl trivial) fun _ => trivial

end UpdateFramework.Client
