import UpdateFramework.Client.Downloader

/-!
# Client — retries

`CheckForUpdate` as a program of its own, over attempts that may end in any way (`retryProgram`): the
real one is this program with each attempt carried out by `run_attempt` (`checkForUpdate_eq`).  What
is true of every history of it is true of every sequence of outcomes.

`ATTEMPT_RESUME_RECONNECT` is to cost no retry and to be followed by another attempt.  It is, except
on the last attempt permitted (`retry_accounting_iff`).
-/

namespace UpdateFramework.Client

open Libc Process

/-- What `CheckForUpdate` calls. -/
inductive RetryOp where
  | getCurrentVersion
  | runAttempt (current : Bytes)
  | stopRequested
  | setPaused
  | interruptibleSleepMs (ms : ℕ)

@[reducible] def RetryOp.Res : RetryOp → Type
  | .getCurrentVersion => Option Bytes
  | .runAttempt _ => AttemptResult
  | .stopRequested | .interruptibleSleepMs _ => Bool
  | .setPaused => Unit

@[reducible] def retryInterface : Interface := ⟨RetryOp, RetryOp.Res⟩

abbrev RetryProg (α : Type) := Prog retryInterface α

/-- `ctx->paused = 1` and `130` -/
def pausedReturn : RetryProg (ℕ ⊕ CheckResult) :=
  .call RetryOp.setPaused fun _ => .ret (.inr .interrupted)

/-- A round of the loop of `CheckForUpdate`. -/
def retryRound (cfg : ClientConfig) (current : Bytes) (attempt : ℕ) :
    RetryProg (ℕ ⊕ CheckResult) :=
  if ¬ attempt ≤ cfg.retryMax then .ret (.inr .failed)
  else .call RetryOp.stopRequested fun stop =>
    if stop then pausedReturn
    else .call (RetryOp.runAttempt current) fun
      | .success => .ret (.inr .ok)
      | .resumeReconnect =>
        if attempt < cfg.retryMax then .ret (.inl attempt) else .ret (.inr .failed)
      | .reconnect =>
        if attempt < cfg.retryMax then
          .call (RetryOp.interruptibleSleepMs 10000) fun stop =>
            if stop then pausedReturn else .ret (.inl (attempt + 1))
        else .ret (.inr .failed)
      | .paused => .ret (.inr .interrupted)
      | .fatal => .ret (.inr .failed)
      | .retry =>
        if attempt < cfg.retryMax then
          .call (RetryOp.interruptibleSleepMs (cfg.retryBackoffMs * attempt)) fun stop =>
            if stop then pausedReturn else .ret (.inl (attempt + 1))
        else .ret (.inl (attempt + 1))

/-- `CheckForUpdate`, over attempts. -/
def retryProgram (bound : ℕ) (cfg : ClientConfig) : RetryProg CheckResult :=
  .call RetryOp.getCurrentVersion fun
    | none => .ret .failed
    | some current => Prog.iterate bound (retryRound cfg current) 1

/-- What the operations are in the client. -/
def carryOut (bound : ℕ) (cfg : ClientConfig) : (o : RetryOp) → ClientProg (RetryOp.Res o)
  | .getCurrentVersion => file (getCurrentVersion bound cfg)
  | .runAttempt current => runAttempt bound cfg current
  | .stopRequested => stopRequested
  | .setPaused => setPaused
  | .interruptibleSleepMs ms => interruptibleSleepMs ms

theorem attemptRound_eq (bound : ℕ) (cfg : ClientConfig) (current : Bytes) (attempt : ℕ) :
    attemptRound cfg (runAttempt bound cfg current) attempt =
      Prog.interp (carryOut bound cfg) (retryRound cfg current attempt) := by
  unfold attemptRound retryRound pausedReturn
  by_cases hlast : attempt ≤ cfg.retryMax
  swap
  · simp only [hlast, not_false_eq_true, if_true, Prog.interp]
  simp only [hlast, not_true_eq_false, if_false, Prog.interp, carryOut, Prog.call_bind,
    Prog.ret_bind]
  congr 1
  funext stop
  cases stop with
  | true => rfl
  | false =>
      simp only [Bool.false_eq_true, if_false, Prog.interp, carryOut]
      congr 1
      funext rc
      cases rc with
      | success => rfl
      | paused => rfl
      | fatal => rfl
      | resumeReconnect =>
          by_cases hlt : attempt < cfg.retryMax
          · simp only [if_pos hlt, Prog.interp]
          · simp only [if_neg hlt, Prog.interp]
      | reconnect =>
          by_cases hlt : attempt < cfg.retryMax
          · simp only [if_pos hlt, Prog.interp, carryOut]
            congr 1
            funext stop
            cases stop with
            | true => rfl
            | false => rfl
          · simp only [if_neg hlt, Prog.interp]
      | retry =>
          by_cases hlt : attempt < cfg.retryMax
          · simp only [if_pos hlt, Prog.interp, carryOut]
            congr 1
            funext stop
            cases stop with
            | true => rfl
            | false => rfl
          · simp only [if_neg hlt, Prog.interp]

/-- `CheckForUpdate` is this program, with the attempts carried out. -/
theorem checkForUpdate_eq (bound : ℕ) (cfg : ClientConfig) :
    checkForUpdate bound cfg = Prog.interp (carryOut bound cfg) (retryProgram bound cfg) := by
  unfold checkForUpdate retryProgram
  simp only [Prog.interp, carryOut]
  congr 1
  funext current
  cases current with
  | none => rfl
  | some current =>
      simp only [Prog.interp_iterate]
      congr 1
      funext attempt
      exact attemptRound_eq bound cfg current attempt

/-! ### Outcomes -/

/-- The calls of `CheckForUpdate` so far, with their answers. -/
abbrev RetryHistory := List (Call retryInterface)

def outcomeOf : Call retryInterface → Option AttemptResult
  | ⟨.runAttempt _, rc⟩ => some rc
  | _ => none

/-- How the attempts ended. -/
def outcomes (tr : RetryHistory) : List AttemptResult := tr.filterMap outcomeOf

/-- `ATTEMPT_RETRY` and `ATTEMPT_RECONNECT`, which use up an attempt. -/
def AttemptResult.costs : AttemptResult → Bool
  | .retry | .reconnect => true
  | _ => false

/-- The attempts used up. -/
def used (os : List AttemptResult) : ℕ := os.countP AttemptResult.costs

def stopAnswer : Call retryInterface → Bool
  | ⟨.stopRequested, stop⟩ => stop
  | ⟨.interruptibleSleepMs _, stop⟩ => stop
  | _ => false

/-- No stop was requested. -/
def Unstopped (tr : RetryHistory) : Prop := ∀ x ∈ tr, stopAnswer x = false

instance (tr : RetryHistory) : Decidable (Unstopped tr) := List.decidableBAll _ tr

/-- What `CheckForUpdate` returns agrees with its attempts. -/
structure RetryAccounting (retryMax : ℕ) (os : List AttemptResult) (rc : CheckResult) : Prop where
  /-- Another attempt follows every `ATTEMPT_RESUME_RECONNECT`. -/
  resumed : ∀ before after, os = before ++ .resumeReconnect :: after → after ≠ []
  used_le : used os ≤ retryMax
  ok_iff : rc = .ok ↔ os.getLast? = some .success
  interrupted_iff : rc = .interrupted ↔ os.getLast? = some .paused
  failed : rc = .failed → os.getLast? = some .fatal ∨ used os = retryMax

/-- The user resumes on the last attempt permitted. -/
def ResumedLast (retryMax : ℕ) (os : List AttemptResult) : Prop :=
  ∃ before after, os = before ++ .resumeReconnect :: after ∧ used before + 1 = retryMax

/-- The current version could be read. -/
def VersionRead (tr : RetryHistory) : Prop :=
  ∃ current, (⟨.getCurrentVersion, some current⟩ : Call retryInterface) ∈ tr

section Lists

variable {retryMax : ℕ} {os : List AttemptResult} {o : AttemptResult}

theorem used_snoc (os : List AttemptResult) (o : AttemptResult) :
    used (os ++ [o]) = used os + if o.costs then 1 else 0 := by
  rw [used, List.countP_append, List.countP_singleton, used]

theorem outcomes_append (tr tr' : RetryHistory) :
    outcomes (tr ++ tr') = outcomes tr ++ outcomes tr' :=
  List.filterMap_append

theorem resumedLast_snoc : ResumedLast retryMax (os ++ [o]) ↔
    ResumedLast retryMax os ∨ (o = .resumeReconnect ∧ used os + 1 = retryMax) := by
  constructor
  · rintro ⟨before, after, h, hused⟩
    rcases List.eq_nil_or_concat after with rfl | ⟨after, x, rfl⟩
    · obtain ⟨rfl, ho⟩ := List.append_inj' h rfl
      cases ho
      exact .inr ⟨rfl, hused⟩
    · rw [List.concat_eq_append, ← List.cons_append, ← List.append_assoc] at h
      exact .inl ⟨before, after, (List.append_inj' h rfl).1, hused⟩
  · rintro (⟨before, after, rfl, hused⟩ | ⟨rfl, hused⟩)
    · exact ⟨before, after ++ [o], by rw [List.append_assoc, List.cons_append], hused⟩
    · exact ⟨os, [], rfl, hused⟩

/-- Another attempt follows, if the last did not ask for one. -/
theorem resumed_of_last (h : os.getLast? ≠ some .resumeReconnect) (before after : List AttemptResult)
    (hos : os = before ++ .resumeReconnect :: after) : after ≠ [] := by
  rintro rfl
  exact h (by rw [hos, List.getLast?_concat])

end Lists

/-! ### The loop -/

/-- What is known at the head of the loop. -/
structure AtAttempt (retryMax attempt : ℕ) (tr : RetryHistory) : Prop where
  positive : 1 ≤ attempt
  le : attempt ≤ retryMax + 1
  spent : used (outcomes tr) + 1 = attempt
  open_end : ∀ o, (outcomes tr).getLast? = some o → o.costs = true ∨ o = .resumeReconnect
  last : attempt = retryMax + 1 → (outcomes tr).getLast? ≠ some .resumeReconnect
  early : ¬ ResumedLast retryMax (outcomes tr)
  read : VersionRead tr

/-- How `CheckForUpdate` may end. -/
def EndsWith (retryMax : ℕ) (rc : CheckResult) (tr : RetryHistory) : Prop :=
  Unstopped tr →
    (RetryAccounting retryMax (outcomes tr) rc ↔
      VersionRead tr ∧ ¬ ResumedLast retryMax (outcomes tr))

section Loop

variable {cfg : ClientConfig} {attempt : ℕ} {tr : RetryHistory}

theorem Unstopped.left {tr' : RetryHistory} (h : Unstopped (tr ++ tr')) : Unstopped tr :=
  fun x hx => h x (List.mem_append_left tr' hx)

theorem Unstopped.last {x : Call retryInterface} (h : Unstopped (tr ++ [x])) :
    stopAnswer x = false :=
  h x (List.mem_append_right tr (List.mem_singleton_self x))

theorem VersionRead.append (h : VersionRead tr) (tr' : RetryHistory) : VersionRead (tr ++ tr') := by
  obtain ⟨current, hm⟩ := h
  exact ⟨current, List.mem_append_left tr' hm⟩

/-- The accounts balance where the loop is left after an attempt that asked for no other. -/
theorem AtAttempt.endsWith {o : AttemptResult} {rc : CheckResult}
    (h : AtAttempt cfg.retryMax attempt tr) (hle : attempt ≤ cfg.retryMax)
    {tr' : RetryHistory} (htr : outcomes tr' = outcomes tr ++ [o]) (hread : VersionRead tr')
    (hnot : o ≠ .resumeReconnect) (hok : rc = .ok ↔ o = .success)
    (hint : rc = .interrupted ↔ o = .paused)
    (hfail : rc = .failed → o = .fatal ∨ (o.costs = true ∧ attempt = cfg.retryMax)) :
    EndsWith cfg.retryMax rc tr' := by
  have hlast : (outcomes tr').getLast? = some o := by rw [htr, List.getLast?_concat]
  have hused : used (outcomes tr') = used (outcomes tr) + if o.costs then 1 else 0 := by
    rw [htr, used_snoc]
  have hprev := h.spent
  refine fun _ => ⟨fun _ => ⟨hread, ?_⟩, fun _ => ⟨resumed_of_last ?_, ?_, ?_, ?_, ?_⟩⟩
  · rw [htr, resumedLast_snoc]
    rintro (hr | ⟨rfl, -⟩)
    · exact h.early hr
    · exact hnot rfl
  · rw [hlast]
    exact fun heq => hnot (Option.some.inj heq)
  · rw [hused]
    split
    · exact hprev.trans_le hle
    · exact Nat.le_of_succ_le (hprev.trans_le hle)
  · rw [hlast, Option.some.injEq]
    exact hok
  · rw [hlast, Option.some.injEq]
    exact hint
  · rw [hlast, Option.some.injEq]
    refine fun hrc => (hfail hrc).imp id ?_
    rintro ⟨hc, rfl⟩
    rw [hused, if_pos hc]
    exact h.spent

/-- The attempts go on. -/
theorem AtAttempt.next {o : AttemptResult} (h : AtAttempt cfg.retryMax attempt tr)
    (hle : attempt ≤ cfg.retryMax) {tr' : RetryHistory} (htr : outcomes tr' = outcomes tr ++ [o])
    (hread : VersionRead tr') (hgo : o.costs = true ∨ (o = .resumeReconnect ∧ attempt < cfg.retryMax)) :
    AtAttempt cfg.retryMax (if o.costs then attempt + 1 else attempt) tr' := by
  have hlast : (outcomes tr').getLast? = some o := by rw [htr, List.getLast?_concat]
  have hprev := h.spent
  have hpos := h.positive
  refine ⟨?_, ?_, ?_, ?_, ?_, ?_, hread⟩
  · split
    · exact Nat.le_add_left 1 attempt
    · exact hpos
  · split
    · exact Nat.succ_le_succ hle
    · exact h.le
  · rw [htr, used_snoc]
    split
    · rw [hprev]
    · exact hprev
  · rw [hlast]
    rintro o' ⟨⟩
    exact hgo.imp id And.left
  · rw [hlast]
    rintro hmax ⟨⟩
    rcases hgo with hc | ⟨-, hlt⟩
    · cases hc
    · exact absurd hmax (Nat.ne_of_lt (Nat.lt_succ_of_lt hlt))
  · rw [htr, resumedLast_snoc]
    rintro (hr | ⟨rfl, hr⟩)
    · exact h.early hr
    · rcases hgo with hc | ⟨-, hlt⟩
      · cases hc
      · exact absurd (hprev.symm.trans hr) (Nat.ne_of_lt hlt)

/-- The history after an attempt. -/
abbrev attempted (tr : RetryHistory) (current : Bytes) (o : AttemptResult) : RetryHistory :=
  tr ++ [⟨.stopRequested, false⟩] ++ [⟨.runAttempt current, o⟩]

/-- What a round leaves. -/
def AfterAttempt (retryMax : ℕ) : ℕ ⊕ CheckResult → RetryHistory → Prop
  | .inl attempt, tr => Unstopped tr → AtAttempt retryMax attempt tr
  | .inr rc, tr => EndsWith retryMax rc tr

/-- A stop ends the function, and here there is none. -/
theorem pausedReturn_safe {ms : ℕ} :
    Safe (Env.any retryInterface) (fun _ _ => True) (AfterAttempt cfg.retryMax) pausedReturn
      (tr ++ [⟨.interruptibleSleepMs ms, true⟩]) := by
  refine safe_any_call.mpr ⟨trivial, fun _ => safe_any_ret.mpr fun hu => ?_⟩
  have hstop := hu.left.last
  cases hstop

theorem retryRound_safe (current : Bytes) (h : Unstopped tr → AtAttempt cfg.retryMax attempt tr) :
    Safe (Env.any retryInterface) (fun _ _ => True) (AfterAttempt cfg.retryMax)
      (retryRound cfg current attempt) tr := by
  unfold retryRound
  by_cases hle : attempt ≤ cfg.retryMax
  swap
  · -- the attempts are used up
    rw [if_pos hle]
    refine safe_any_ret.mpr fun hu => ?_
    have hat := h hu
    have hmax : attempt = cfg.retryMax + 1 := Nat.le_antisymm hat.le (Nat.lt_of_not_le hle)
    have hspent : used (outcomes tr) = cfg.retryMax := Nat.succ.inj (hat.spent.trans hmax)
    refine ⟨fun _ => ⟨hat.read, hat.early⟩, fun _ =>
      ⟨resumed_of_last (hat.last hmax), Nat.le_of_eq hspent, ⟨nofun, fun hl => ?_⟩,
        ⟨nofun, fun hl => ?_⟩, fun _ => .inr hspent⟩⟩
    · rcases hat.open_end _ hl with hc | hc <;> cases hc
    · rcases hat.open_end _ hl with hc | hc <;> cases hc
  rw [if_neg (not_not_intro hle)]
  refine safe_any_call.mpr ⟨trivial, fun stop => ?_⟩
  cases stop with
  | true =>
      refine safe_any_call.mpr ⟨trivial, fun _ => safe_any_ret.mpr fun hu => ?_⟩
      have hstop := hu.left.last
      cases hstop
  | false =>
      refine safe_any_call.mpr ⟨trivial, fun o => ?_⟩
      -- the history after the attempt
      have hout : ∀ more : RetryHistory, outcomes more = [] →
          outcomes (attempted tr current o ++ more) = outcomes tr ++ [o] := by
        intro more hmore
        rw [outcomes_append, hmore, List.append_nil, outcomes_append, outcomes_append]
        exact congrArg (· ++ [o]) (List.append_nil _)
      have hat : ∀ more : RetryHistory, Unstopped (attempted tr current o ++ more) →
          AtAttempt cfg.retryMax attempt tr :=
        fun more hu => h hu.left.left.left
      have hread : ∀ more : RetryHistory, Unstopped (attempted tr current o ++ more) →
          VersionRead (attempted tr current o ++ more) :=
        fun more hu => (((hat more hu).read.append _).append _).append more
      have hends : ∀ {rc}, o ≠ .resumeReconnect → (rc = .ok ↔ o = .success) →
          (rc = .interrupted ↔ o = .paused) →
          (rc = .failed → o = .fatal ∨ (o.costs = true ∧ attempt = cfg.retryMax)) →
          EndsWith cfg.retryMax rc (attempted tr current o) := by
        intro rc hnot hok hint hfail hu
        have hu' : Unstopped (attempted tr current o ++ []) := by rwa [List.append_nil]
        have hends := (hat [] hu').endsWith hle (hout [] rfl) (hread [] hu') hnot hok hint hfail
        rw [List.append_nil] at hends
        exact hends hu
      have hgo : ∀ more : RetryHistory, outcomes more = [] →
          (o.costs = true ∨ (o = .resumeReconnect ∧ attempt < cfg.retryMax)) →
          Unstopped (attempted tr current o ++ more) →
          AtAttempt cfg.retryMax (if o.costs then attempt + 1 else attempt)
            (attempted tr current o ++ more) :=
        fun more hmore hgo hu => (hat more hu).next hle (hout more hmore) (hread more hu) hgo
      cases o with
      | success => exact safe_any_ret.mpr (hends nofun (by simp) (by simp) nofun)
      | paused => exact safe_any_ret.mpr (hends nofun (by simp) (by simp) nofun)
      | fatal => exact safe_any_ret.mpr (hends nofun (by simp) (by simp) fun _ => .inl rfl)
      | resumeReconnect =>
          by_cases hlt : attempt < cfg.retryMax
          · simp only [if_pos hlt]
            refine safe_any_ret.mpr fun hu => ?_
            have hnext := hgo [] rfl (.inr ⟨rfl, hlt⟩) (by rwa [List.append_nil])
            rwa [List.append_nil] at hnext
          · -- the attempt was the last one permitted
            simp only [if_neg hlt]
            refine safe_any_ret.mpr fun hu => ?_
            have hat' := hat [] (by rwa [List.append_nil])
            have hout' := hout [] rfl
            rw [List.append_nil] at hout'
            have hmax : attempt = cfg.retryMax := Nat.le_antisymm hle (Nat.le_of_not_lt hlt)
            have hresumed : ResumedLast cfg.retryMax
                (outcomes (attempted tr current .resumeReconnect)) := by
              rw [hout', resumedLast_snoc]
              exact .inr ⟨rfl, hat'.spent.trans hmax⟩
            exact ⟨fun hacc => absurd rfl (hacc.resumed _ [] hout'), fun hno => absurd hresumed hno.2⟩
      | reconnect =>
          by_cases hlt : attempt < cfg.retryMax
          · simp only [if_pos hlt]
            refine safe_any_call.mpr ⟨trivial, fun stop => ?_⟩
            cases stop with
            | true => exact pausedReturn_safe
            | false => exact safe_any_ret.mpr fun hu => hgo _ rfl (.inl rfl) hu
          · simp only [if_neg hlt]
            exact safe_any_ret.mpr (hends nofun (by simp) (by simp) fun _ =>
              .inr ⟨rfl, Nat.le_antisymm hle (Nat.le_of_not_lt hlt)⟩)
      | retry =>
          by_cases hlt : attempt < cfg.retryMax
          · simp only [if_pos hlt]
            refine safe_any_call.mpr ⟨trivial, fun stop => ?_⟩
            cases stop with
            | true => exact pausedReturn_safe
            | false => exact safe_any_ret.mpr fun hu => hgo _ rfl (.inl rfl) hu
          · simp only [if_neg hlt]
            refine safe_any_ret.mpr fun hu => ?_
            have hnext := hgo [] rfl (.inl rfl) (by rwa [List.append_nil])
            rwa [List.append_nil] at hnext

end Loop

/-- **Retry accounting.**  For every sequence of outcomes of the attempts, where no stop is
requested: what `CheckForUpdate` returns agrees with its attempts, and every
`ATTEMPT_RESUME_RECONNECT` is followed by another attempt, exactly when the current version could be
read and the user does not resume on the last attempt permitted. -/
theorem retry_accounting_iff (bound : ℕ) {cfg : ClientConfig} (hmax : 1 ≤ cfg.retryMax)
    {rc : CheckResult} {tr : RetryHistory} (h : History (retryProgram bound cfg) (.ret rc) tr)
    (hu : Unstopped tr) :
    RetryAccounting cfg.retryMax (outcomes tr) rc ↔
      VersionRead tr ∧ ¬ ResumedLast cfg.retryMax (outcomes tr) := by
  have hsafe : Safe (Env.any retryInterface) (fun _ _ => True) (EndsWith cfg.retryMax)
      (retryProgram bound cfg) [] := by
    refine safe_any_call.mpr ⟨trivial, fun current => ?_⟩
    cases current with
    | none =>
        refine safe_any_ret.mpr fun _ => ⟨fun hacc => ?_, fun hread => ?_⟩
        · rcases hacc.failed rfl with hlast | hused
          · cases hlast
          · exact absurd hused (Nat.ne_of_lt hmax)
        · obtain ⟨⟨current, hm⟩, -⟩ := hread
          cases List.mem_singleton.mp hm
    | some current =>
        refine safe_loop _ trivial (fun attempt tr => AfterAttempt cfg.retryMax (.inl attempt) tr)
          (fun attempt tr hat => ?_) bound ?_
        · refine (retryRound_safe current hat).post fun r tr hr => ?_
          cases r with
          | inl attempt => exact hr
          | inr rc => exact fun _ ht => ht ▸ hr
        · refine fun _ => ⟨Nat.le_refl 1, Nat.le_add_left 1 _, rfl, nofun, nofun, ?_,
            ⟨current, List.mem_singleton_self _⟩⟩
          rintro ⟨before, after, hos, -⟩
          exact List.append_ne_nil_of_right_ne_nil before (List.cons_ne_nil _ after) hos.symm
  exact (hsafe.run h).result hu

/-- The first attempt is to be made again, in the second the user resumes too late for the connection,
and the third succeeds. -/
def thirdTime : RetryHistory :=
  [⟨.getCurrentVersion, some (ascii "1.0.0")⟩, ⟨.stopRequested, false⟩,
    ⟨.runAttempt (ascii "1.0.0"), .retry⟩, ⟨.interruptibleSleepMs 500, false⟩, ⟨.stopRequested, false⟩,
    ⟨.runAttempt (ascii "1.0.0"), .resumeReconnect⟩, ⟨.stopRequested, false⟩,
    ⟨.runAttempt (ascii "1.0.0"), .success⟩]

theorem retry_accounting_third :
    History (retryProgram 4 .client001) (.ret .ok) thirdTime ∧
      RetryAccounting 5 [.retry, .resumeReconnect, .success] .ok := by
  have hrun : History (retryProgram 4 .client001) (.ret .ok) thirdTime :=
    run_any_call (some (ascii "1.0.0")) <| run_any_call false <| run_any_call .retry <|
      run_any_call false <| run_any_call false <| run_any_call .resumeReconnect <|
        run_any_call false <| run_any_call .success .refl
  have hgoing : Unstopped thirdTime := by decide
  refine ⟨hrun, (retry_accounting_iff 4 (by decide) hrun hgoing).mpr
    ⟨⟨_, List.mem_cons_self⟩, ?_⟩⟩
  -- one attempt was used up before the user resumed, of five
  rintro ⟨before, after, hos, hused⟩
  have hall : used (outcomes thirdTime) = 1 := rfl
  have hle : used before ≤ used (outcomes thirdTime) := by
    rw [hos, used, used, List.countP_append]
    exact Nat.le_add_right ..
  rw [hall] at hle
  have hmax : ClientConfig.client001.retryMax = 5 := rfl
  omega

/-- A client that makes one attempt. -/
def once : ClientConfig := { ClientConfig.client001 with retryMax := 1 }

/-- The user resumes in the only attempt. -/
def onceHistory : RetryHistory :=
  [⟨.getCurrentVersion, some (ascii "1.0.0")⟩, ⟨.stopRequested, false⟩,
    ⟨.runAttempt (ascii "1.0.0"), .resumeReconnect⟩]

/-- A resume that asks for another connection gets none, and `CheckForUpdate` fails. -/
theorem resume_reconnect_lost :
    ∃ tr, History (retryProgram 1 once) (.ret .failed) tr ∧ Unstopped tr ∧
      outcomes tr = [.resumeReconnect] ∧ ¬ RetryAccounting 1 (outcomes tr) .failed := by
  have hrun : History (retryProgram 1 once) (.ret .failed) onceHistory :=
    run_any_call (some (ascii "1.0.0")) (run_any_call false (run_any_call .resumeReconnect .refl))
  have hgoing : Unstopped onceHistory := by decide
  exact ⟨onceHistory, hrun, hgoing, rfl, fun hacc => hacc.resumed [] [] rfl rfl⟩

end UpdateFramework.Client
