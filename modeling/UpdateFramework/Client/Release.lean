import UpdateFramework.Client.Resources
import UpdateFramework.Client.Retry

/-!
# Client — what an attempt leaves behind

`receive_update` opens the part file and allocates a buffer, and gives both back on every way out but
those that leave a pause: there the stream stays open and the buffer allocated.  So a run leaves the
resources as they were exactly if every pause was ended by a RESUME on its own connection
(`releases_iff`).  Nothing is used, closed or freed that is not there.
-/

namespace UpdateFramework.Client

open Libc Process

/-! ### Parts that hold nothing -/

/-- What has nothing to do with streams, buffers and pauses. -/
def aloof : ClientOp → Prop
  | .file _ | .malloc _ | .free | .consumePauseRequest | .netConnectTcp => False
  | .protoSend f => f.type ≠ .resume
  | .protoRecv _ dataPayloadCap => dataPayloadCap = 0
  | _ => True

theorem aloof_tidy {α : Type} {p : ClientProg α} (h : p.Only aloof) : Tidy p := by
  intro s
  induction p with
  | ret a => exact careful_ret rfl
  | call o k ih =>
      obtain ⟨ho, hk⟩ := h
      have huses : s.1.uses o := by
        cases o with
        | file _ | malloc _ | free | consumePauseRequest | netConnectTcp => exact ho.elim
        | protoRecv _ _ => exact .inl ho
        | _ => trivial
      have hleaves : leaves o := by
        cases o with
        | file _ | malloc _ | free | consumePauseRequest | netConnectTcp => exact ho.elim
        | protoSend f => exact ho
        | _ => trivial
      exact careful_leaves hleaves huses fun r => ih r (hk r)
  | spin => exact trivial

theorem retryOrReconnect_aloof : retryOrReconnect.Only aloof := by
  unfold retryOrReconnect
  simp only [Prog.call_bind, Prog.ret_bind]
  refine .call trivial fun active => ?_
  split
  · trivial
  · trivial

theorem pausedOrRetry_aloof : pausedOrRetry.Only aloof := by
  unfold pausedOrRetry
  simp only [Prog.call_bind, Prog.ret_bind]
  refine .call trivial fun stop => ?_
  split
  · trivial
  · exact retryOrReconnect_aloof

theorem recvControl_aloof : recvControl.Only aloof := by
  unfold recvControl
  simp only [Prog.call_bind, Prog.ret_bind]
  refine .call rfl fun rc => ?_
  split
  · trivial
  · trivial

theorem closeAttemptConnection_aloof (fd : ℕ) (ssl : Bool) :
    (closeAttemptConnection fd ssl).Only aloof := by
  unfold closeAttemptConnection
  simp only [Prog.call_bind, Prog.ret_bind]
  refine .call trivial fun closed => ?_
  split
  · split
    · exact .call trivial fun _ => trivial
    · trivial
  · exact .call trivial fun _ => .call trivial fun _ => trivial

theorem closeWith_aloof (fd : ℕ) (ssl : Bool) {p : ClientProg AttemptResult} (hp : p.Only aloof) :
    (closeWith fd ssl p).Only aloof :=
  (closeAttemptConnection_aloof fd ssl).bind fun _ => hp

theorem interruptibleSleepMs_aloof (ms : ℕ) : (interruptibleSleepMs ms).Only aloof := by
  refine Prog.Only.bind (.iterate (fun slept => ?_) _ _) fun _ => .call trivial fun _ => trivial
  unfold sleepRound
  simp only [Prog.call_bind, Prog.ret_bind]
  split
  · trivial
  refine .call trivial fun stop => ?_
  split
  · trivial
  · exact .call trivial fun _ => trivial

/-! ### A download under way -/

section Download

variable {α : Type} {Q : α → Resources × Pausing → Prop} {s : Resources × Pausing}

/-- `s`, with one more buffer. -/
def buffered (s : Resources × Pausing) : Resources × Pausing :=
  ({ s.1 with buffers := s.1.buffers + 1 }, s.2)

/-- `s`, with the stream and the buffer of a download. -/
def downloading (s : Resources × Pausing) (fp : Handle) : Resources × Pausing :=
  buffered (opened s fp)

/-- `s`, with what a download has not given back. -/
def leaked (s : Resources × Pausing) (fp : Handle) : Resources × Pausing :=
  ((downloading s fp).1, s.2.asked)

theorem careful_malloc {n : ℕ} {k : Bool → ClientProg α} (hfalse : Careful Q (k false) s)
    (htrue : Careful Q (k true) (buffered s)) : Careful Q (.call (ClientOp.malloc n) k) s := by
  refine careful_call trivial fun r _ => ?_
  have hsame : s.2.after ⟨.malloc n, r⟩ = s.2 := by
    cases s.2 with
    | running | held | lost => rfl
  rw [hsame]
  cases r with
  | false => exact hfalse
  | true => exact htrue

theorem careful_free {k : Unit → ClientProg α} (hk : Careful Q (k ()) s) :
    Careful Q (.call ClientOp.free k) (buffered s) := by
  refine careful_call (Nat.succ_pos _) fun _ _ => ?_
  have hsame : (buffered s).2.after ⟨.free, ()⟩ = s.2 := by
    change s.2.after ⟨.free, ()⟩ = s.2
    cases s.2 with
    | running | held | lost => rfl
  rw [hsame]
  exact hk

/-- A pause is asked for, or not. -/
theorem careful_consumePauseRequest {k : Bool → ClientProg α} (hs : s.2 ≠ .held)
    (hfalse : Careful Q (k false) s) (htrue : Careful Q (k true) (s.1, s.2.asked)) :
    Careful Q (.call ClientOp.consumePauseRequest k) s := by
  refine careful_call trivial fun r _ => ?_
  obtain ⟨resources, pausing⟩ := s
  cases pausing with
  | held => exact absurd rfl hs
  | running | lost =>
      cases r with
      | false => exact hfalse
      | true => exact htrue

/-- RESUME ends the pause it is sent in. -/
theorem careful_resume {f : Frame} (hf : f.type = .resume) {k : Bool → ClientProg α} {R : Resources}
    {p : Pausing} (hp : p ≠ .held) (hfalse : Careful Q (k false) (R, p.asked))
    (htrue : Careful Q (k true) (R, p)) :
    Careful Q (.call (ClientOp.protoSend f) k) (R, p.asked) := by
  refine careful_call trivial fun r _ => ?_
  cases p with
  | held => exact absurd rfl hp
  | running =>
      cases r with
      | false =>
          have hafter : Pausing.after .held ⟨.protoSend f, false⟩ = .held :=
            if_neg fun h => Bool.false_ne_true h.2
          exact Eq.mpr (congrArg (fun p => Careful Q (k false) (R, p)) hafter) hfalse
      | true =>
          have hafter : Pausing.after .held ⟨.protoSend f, true⟩ = .running := if_pos ⟨hf, rfl⟩
          exact Eq.mpr (congrArg (fun p => Careful Q (k true) (R, p)) hafter) htrue
  | lost =>
      cases r with
      | false => exact hfalse
      | true => exact htrue

theorem waitForGuiResumeOnConnection_careful (cfg : ClientConfig) {R : Resources} {p : Pausing}
    (hp : p ≠ .held) :
    Careful (fun r t => t = (R, if r = .resumed then p else p.asked))
      (waitForGuiResumeOnConnection cfg) (R, p.asked) := by
  unfold waitForGuiResumeOnConnection
  refine safe_bind.mpr (Safe.post
    (Q := fun r t => t = (R, if r = Resumed.resumed then p else p.asked)) ?_ fun r t ht => ?_)
  · refine careful_loop (fun t => t = (R, p.asked)) (fun waited t ht => ?_) _ _ rfl
    subst ht
    unfold waitRound
    simp only [Prog.call_bind, Prog.ret_bind]
    split
    · exact careful_ret rfl
    refine careful_leaves trivial trivial fun stop => ?_
    split
    · exact careful_ret rfl
    refine careful_leaves trivial trivial fun resume => ?_
    split
    · refine careful_resume rfl hp ?_ ?_
      · exact careful_leaves trivial trivial fun _ => careful_ret rfl
      · exact careful_ret rfl
    · exact careful_leaves trivial trivial fun _ => careful_ret rfl
  · cases r with
    | resumed | expired => exact careful_ret ht
    | ended =>
        subst ht
        exact careful_leaves trivial trivial fun _ =>
          careful_leaves trivial trivial fun _ => careful_ret rfl

/-- What a round leaves: the download as it was, or everything given back, or nothing. -/
def ReleasedRound (s : Resources × Pausing) (fp : Handle) : ℕ ⊕ Option AttemptResult →
    Resources × Pausing → Prop
  | .inl _, t | .inr none, t => t = downloading s fp
  | .inr (some _), t => t = s ∨ t = leaked s fp

variable {cfg : ClientConfig}

theorem pauseDownload_careful (d : Download) (received : ℕ) (hs : s.2 ≠ .held) :
    Careful (ReleasedRound s d.fp) (pauseDownload cfg d received) (leaked s d.fp) := by
  have hfp : d.fp ∈ (leaked s d.fp).1.streams := mem_opened s d.fp
  unfold pauseDownload
  simp only [Prog.call_bind, Prog.ret_bind, file_call, file_ret]
  refine careful_leaves trivial hfp fun _ => careful_leaves trivial hfp fun _ => ?_
  refine careful_then (writeResumeMetadata_tidy cfg _ _ _ _ _) fun _ => ?_
  refine careful_leaves (fun h => by cases h) trivial fun ok => ?_
  split
  · exact careful_leaves trivial trivial fun _ => careful_ret (.inr rfl)
  refine safe_bind.mpr ((waitForGuiResumeOnConnection_careful cfg hs).post fun r t ht => ?_)
  subst ht
  cases r with
  | resumed => exact careful_ret rfl
  | expired | ended => exact careful_ret (.inr rfl)

/-- What becomes of an interrupted download: nothing stays open. -/
theorem saveInterruptedDownload_careful (fp : Option Handle) (v : Bytes) (offset totalSize : ℕ)
    (sha : Bytes) (result : AttemptResult) :
    Careful (fun _ t => t = s) (saveInterruptedDownload cfg fp v offset totalSize sha result)
      (fp.elim s (downloading s)) := by
  have hrest : Careful (fun _ t => t = s) (do
      file (writeResumeMetadata cfg v offset totalSize sha)
      if result = .paused then setPaused
      else if result = .reconnect then setResumeRetryActive true
      else .ret ()
      .ret result) s := by
    refine careful_then (writeResumeMetadata_tidy cfg v offset totalSize sha s) fun _ => ?_
    split
    · exact careful_leaves trivial trivial fun _ => careful_ret rfl
    · split
      · exact careful_leaves trivial trivial fun _ => careful_ret rfl
      · exact careful_ret rfl
  unfold saveInterruptedDownload
  simp only [Prog.call_bind, Prog.ret_bind, file_call, file_ret]
  cases fp with
  | none => exact hrest
  | some fp =>
      have hfp : fp ∈ (downloading s fp).1.streams := mem_opened s fp
      refine careful_leaves trivial hfp fun _ => careful_leaves trivial hfp fun _ => ?_
      exact careful_fclose (s := buffered s) fun _ => careful_free hrest

/-- Both are given back. -/
theorem careful_dispose {fp : Handle} {α : Type} {Q : α → Resources × Pausing → Prop}
    {k : Bool → ClientProg α} (hk : ∀ r, Careful Q (k r) s) :
    Careful Q (.call ClientOp.free fun _ => .call (ClientOp.file (.fclose fp)) k)
      (downloading s fp) :=
  careful_free (careful_fclose hk)

theorem handleFrame_careful (d : Download) (received : ℕ) (f : Frame) :
    Careful (ReleasedRound s d.fp) (handleFrame d received f) (downloading s d.fp) := by
  have hunlink (rc : AttemptResult) : Careful (ReleasedRound s d.fp)
      (.call (ClientOp.file (.unlink (.part d.latest))) fun _ => .ret (.inr (some rc))) s :=
    careful_leaves trivial trivial fun _ => careful_ret (.inl rfl)
  unfold handleFrame
  simp only [Prog.call_bind, Prog.ret_bind, file_call, file_ret]
  split
  · split
    · exact careful_dispose fun _ => hunlink _
    have hwritten (written : ℕ) : Careful (ReleasedRound s d.fp)
        (if written ≠ f.payload.length then .call ClientOp.free fun _ =>
            .call (ClientOp.file (.fclose d.fp)) fun _ => .ret (.inr (some .retry))
          else .ret (.inl ((received + f.payload.length) % 2 ^ 64)) :
          ClientProg (ℕ ⊕ Option AttemptResult)) (downloading s d.fp) := by
      split
      · exact careful_dispose fun _ => careful_ret (.inl rfl)
      · exact careful_ret rfl
    split
    · exact careful_leaves trivial ⟨mem_opened s d.fp, Nat.succ_pos _⟩ hwritten
    · exact hwritten 0
  · split
    · split
      · exact careful_ret rfl
      · exact careful_dispose fun _ => hunlink _
    · exact careful_dispose fun _ => hunlink _
  · exact careful_dispose fun _ => careful_ret (.inl rfl)

theorem downloadRound_careful (d : Download) (received : ℕ) (hs : s.2 ≠ .held) :
    Careful (ReleasedRound s d.fp) (downloadRound cfg d received) (downloading s d.fp) := by
  have hsave (result : AttemptResult) : Careful (ReleasedRound s d.fp) (do
      let rc ← saveInterruptedDownload cfg (some d.fp) d.latest received d.size d.sha result
      .ret (.inr (some rc))) (downloading s d.fp) := by
    refine safe_bind.mpr ((saveInterruptedDownload_careful (some d.fp) _ _ _ _ result).post
      fun rc t ht => ?_)
    exact careful_ret (.inl ht)
  unfold downloadRound
  simp only [Prog.call_bind, Prog.ret_bind]
  refine careful_consumePauseRequest hs ?_ (pauseDownload_careful d received hs)
  rw [if_neg Bool.false_ne_true]
  refine careful_leaves trivial trivial fun stop => ?_
  split
  · exact hsave _
  refine careful_leaves trivial (.inr (Nat.succ_pos _)) fun rc => ?_
  split
  · exact handleFrame_careful d received _
  · exact careful_leaves trivial trivial fun stop => hsave _

theorem installUpdate_careful (bound : ℕ) (d : Download) :
    Careful (fun _ t => t = s) (installUpdate bound cfg d) (downloading s d.fp) := by
  have hfail : Careful (fun _ t => t = s)
      (.call (ClientOp.file (.fclose d.fp)) fun _ => .ret AttemptResult.retry) (opened s d.fp) :=
    careful_fclose fun _ => careful_ret rfl
  unfold installUpdate
  simp only [Prog.call_bind, Prog.ret_bind, file_call, file_ret]
  refine careful_free (careful_leaves trivial (mem_opened s d.fp) fun flushed => ?_)
  cases flushed with
  | false => exact hfail
  | true =>
      refine careful_leaves trivial (mem_opened s d.fp) fun synced => ?_
      cases synced with
      | false => exact hfail
      | true =>
          refine careful_fclose fun _ => ?_
          refine careful_then (sha256FileHex_tidy bound _ s) fun actual => ?_
          split
          · exact careful_leaves (fun h => by cases h) trivial fun _ =>
              careful_leaves trivial trivial fun _ => careful_ret rfl
          refine careful_leaves trivial trivial fun renamed => ?_
          split
          · exact careful_ret rfl
          refine careful_leaves (fun h => by cases h) trivial fun _ => ?_
          refine careful_then (aloof_tidy recvControl_aloof s) fun _ => ?_
          refine careful_then (writeVersionFile_tidy cfg _ s) fun ok => ?_
          split
          · exact careful_ret rfl
          split
          · exact careful_ret rfl
          · exact careful_leaves trivial trivial fun _ =>
              careful_leaves trivial trivial fun _ => careful_ret rfl

/-- What an update leaves: everything given back, or a stream and a buffer out of a pause. -/
def AfterUpdate (s t : Resources × Pausing) : Prop := t = s ∨ ∃ fp, t = leaked s fp

theorem downloadFrom_careful (bound : ℕ) (latest sha : Bytes) (size chunk offset : ℕ)
    (hs : s.2 ≠ .held) :
    Careful (fun _ => AfterUpdate s) (downloadFrom bound cfg latest sha size chunk offset) s := by
  unfold downloadFrom
  simp only [Prog.call_bind, Prog.ret_bind, file_call, file_ret]
  refine careful_leaves (fun h => by cases h) trivial fun sent => ?_
  split
  · refine careful_leaves trivial trivial fun stop => ?_
    exact (saveInterruptedDownload_careful none latest offset size sha _).post fun _ _ => .inl
  refine careful_fopen (careful_ret (.inl rfl)) fun fp => ?_
  dsimp only
  refine careful_malloc ?_ ?_
  · exact careful_fclose fun _ => careful_ret (.inl rfl)
  · refine safe_bind.mpr
      (Safe.post (Q := fun rc => ReleasedRound s fp (.inr rc)) ?_ fun rc t ht => ?_)
    · refine careful_loop (fun t => t = downloading s fp) (fun received t ht => ?_) _ _ rfl
      subst ht
      refine (downloadRound_careful ⟨fp, latest, sha, size, chunk⟩ received hs).post fun r t hr => ?_
      cases r with
      | inl _ => exact hr
      | inr rc => exact hr
    · cases rc with
      | some rc => exact careful_ret (ht.imp id fun h => ⟨fp, h⟩)
      | none =>
          subst ht
          exact (installUpdate_careful bound _).post fun _ _ => .inl

theorem receiveUpdate_careful (bound : ℕ) (info : Bytes) (hs : s.2 ≠ .held) :
    Careful (fun _ => AfterUpdate s) (receiveUpdate bound cfg info) s := by
  unfold receiveUpdate fileSizeOrZero
  simp only [Prog.call_bind, Prog.ret_bind, file_call, file_ret]
  split
  · split
    · exact careful_ret (.inl rfl)
    split
    · exact careful_ret (.inl rfl)
    split
    · exact careful_ret (.inl rfl)
    refine careful_leaves trivial trivial fun size => ?_
    split
    · exact careful_leaves trivial trivial fun _ => downloadFrom_careful bound _ _ _ _ _ hs
    · exact downloadFrom_careful bound _ _ _ _ _ hs
  · exact careful_ret (.inl rfl)

theorem requestVersion_careful (bound : ℕ) (current : Bytes) (fd : ℕ) (ssl : Bool)
    (hs : s.2 ≠ .held) :
    Careful (fun _ => AfterUpdate s) (requestVersion bound cfg current fd ssl) s := by
  have aloof_done {p : ClientProg AttemptResult} (hp : p.Only aloof) :
      Careful (fun _ => AfterUpdate s) p s :=
    (aloof_tidy hp s).post fun _ _ => .inl
  have hfailed := aloof_done (closeWith_aloof fd ssl pausedOrRetry_aloof)
  have hclosed (rc : AttemptResult) := aloof_done (closeWith_aloof fd ssl (p := .ret rc) trivial)
  unfold requestVersion
  simp only [Prog.call_bind, Prog.ret_bind]
  refine careful_leaves (fun h => by cases h) trivial fun sent => ?_
  split
  · exact hfailed
  refine careful_then (aloof_tidy recvControl_aloof s) fun r => ?_
  split
  · exact hfailed
  · refine aloof_done (recvControl_aloof.bind fun _ => ?_)
    refine (closeAttemptConnection_aloof fd ssl).bind fun _ => .call trivial fun _ => ?_
    refine (interruptibleSleepMs_aloof 10000).bind fun stop => ?_
    split
    · trivial
    · trivial
  · refine safe_bind.mpr ((receiveUpdate_careful bound _ hs).post fun rc t ht => ?_)
    -- the connection is closed, whatever is left
    refine (aloof_tidy (p := do
      closeAttemptConnection fd ssl
      if rc = .success then
        if ← interruptibleSleepMs 10000 then .ret .paused else .ret rc
      else .ret rc) ?_ t).post fun _ _ h => h ▸ ht
    refine (closeAttemptConnection_aloof fd ssl).bind fun _ => ?_
    split
    · refine (interruptibleSleepMs_aloof 10000).bind fun stop => ?_
      split
      · trivial
      · trivial
    · trivial
  · split
    · exact hclosed _
    · split
      · exact hclosed _
      · exact hclosed _
  · exact hfailed

theorem converse_careful (bound : ℕ) (current : Bytes) (fd : ℕ) (ssl : Bool) (hs : s.2 ≠ .held) :
    Careful (fun _ => AfterUpdate s) (converse bound cfg current fd ssl) s := by
  have aloof_done {p : ClientProg AttemptResult} (hp : p.Only aloof) :
      Careful (fun _ => AfterUpdate s) p s :=
    (aloof_tidy hp s).post fun _ _ => .inl
  have hfailed := aloof_done (closeWith_aloof fd ssl pausedOrRetry_aloof)
  have hclosed (rc : AttemptResult) := aloof_done (closeWith_aloof fd ssl (p := .ret rc) trivial)
  unfold converse
  refine careful_then (aloof_tidy recvControl_aloof s) fun r => ?_
  split
  · simp only [Prog.call_bind, Prog.ret_bind]
    refine careful_leaves (fun h => by cases h) trivial fun sent => ?_
    split
    · exact hfailed
    refine careful_then (aloof_tidy recvControl_aloof s) fun r => ?_
    split
    · exact hfailed
    · split
      · exact hclosed _
      · split
        · exact hclosed _
        · exact hclosed _
    · exact requestVersion_careful bound current fd ssl hs
    · exact hfailed
  · exact hfailed

/-! ### Attempts -/

/-- What a run that began with `s₀` has not given back: nothing, exactly if no pause was left. -/
def Tally (s₀ : Resources) (t : Resources × Pausing) : Prop :=
  ∃ kept : List Handle, t.1 = ⟨kept ++ s₀.streams, kept.length + s₀.buffers⟩ ∧
    (kept = [] ↔ t.2 = .running)

theorem Tally.afterUpdate {s₀ : Resources} {t : Resources × Pausing} (h : Tally s₀ s)
    (hs : s.2 ≠ .held) (ht : AfterUpdate s t) : Tally s₀ t := by
  rcases ht with rfl | ⟨fp, rfl⟩
  · exact h
  obtain ⟨kept, hkept, -⟩ := h
  refine ⟨fp :: kept, ?_, iff_of_false (List.cons_ne_nil _ _) fun hrun => ?_⟩
  · change ({ streams := fp :: s.1.streams, buffers := s.1.buffers + 1 } : Resources) = _
    rw [hkept, List.length_cons, Nat.add_right_comm]
    rfl
  · obtain ⟨resources, pausing⟩ := s
    cases pausing with
    | held => exact hs rfl
    | running | lost => cases hrun

theorem Tally.connect {s₀ : Resources} (h : Tally s₀ s) (r : Option ℕ) :
    Tally s₀ (s.1.after ⟨.netConnectTcp, r⟩, s.2.after ⟨.netConnectTcp, r⟩) ∧
      s.2.after ⟨.netConnectTcp, r⟩ ≠ .held := by
  obtain ⟨resources, pausing⟩ := s
  obtain ⟨kept, hkept, hiff⟩ := h
  cases pausing with
  | running => exact ⟨⟨kept, hkept, hiff⟩, Pausing.noConfusion⟩
  | lost => exact ⟨⟨kept, hkept, hiff⟩, Pausing.noConfusion⟩
  | held =>
      have hne : kept ≠ [] := fun hnil => Pausing.noConfusion (hiff.mp hnil)
      exact ⟨⟨kept, hkept, iff_of_false hne Pausing.noConfusion⟩, Pausing.noConfusion⟩

theorem runAttempt_careful (bound : ℕ) (current : Bytes) {s₀ : Resources} (h : Tally s₀ s) :
    Careful (fun _ => Tally s₀) (runAttempt bound cfg current) s := by
  unfold runAttempt
  simp only [Prog.call_bind, Prog.ret_bind]
  refine careful_call trivial fun fd _ => ?_
  obtain ⟨htally, hheld⟩ := h.connect fd
  obtain ⟨u, hu⟩ : ∃ u, (s.1.after ⟨.netConnectTcp, fd⟩, s.2.after ⟨.netConnectTcp, fd⟩) = u :=
    ⟨_, rfl⟩
  have hnot : u.2 ≠ .held := hu ▸ hheld
  rw [hu] at htally ⊢
  have aloof_done {p : ClientProg AttemptResult} (hp : p.Only aloof) :
      Careful (fun _ => Tally s₀) p u :=
    (aloof_tidy hp u).post fun _ _ ht => ht ▸ htally
  have hconverse (fd : ℕ) (ssl : Bool) :
      Careful (fun _ => Tally s₀) (converse bound cfg current fd ssl) u :=
    (converse_careful bound current fd ssl hnot).post fun _ _ => htally.afterUpdate hnot
  cases fd with
  | none => exact aloof_done pausedOrRetry_aloof
  | some fd =>
      refine careful_leaves trivial trivial fun _ => careful_leaves trivial trivial fun stop => ?_
      split
      · exact aloof_done (closeWith_aloof fd false trivial)
      split
      · refine careful_leaves trivial trivial fun ok => ?_
        split
        · exact hconverse fd true
        · exact aloof_done (closeWith_aloof fd false pausedOrRetry_aloof)
      · exact hconverse fd false

end Download

theorem checkForUpdate_careful (bound : ℕ) (cfg : ClientConfig) (s₀ : Resources) :
    Careful (fun _ => Tally s₀) (checkForUpdate bound cfg) (s₀, .running) := by
  rw [checkForUpdate_eq]
  refine safe_interp_keeps (Tally s₀) trivial (fun {a b} ht (hd : a = b) => hd ▸ ht)
    (fun t o ht => ?_) _
    ⟨[], by rw [List.nil_append, List.length_nil, Nat.zero_add], iff_of_true rfl rfl⟩
  have tidy {α : Type} {p : ClientProg α} (hp : Tidy p) : Careful (fun _ => Tally s₀) p t :=
    (hp t).post fun _ _ hu => hu ▸ ht
  cases o with
  | getCurrentVersion => exact tidy (getCurrentVersion_tidy bound cfg)
  | runAttempt current => exact runAttempt_careful bound current ht
  | stopRequested => exact tidy (aloof_tidy (.call trivial fun _ => trivial))
  | setPaused => exact tidy (aloof_tidy (.call trivial fun _ => trivial))
  | interruptibleSleepMs ms => exact tidy (aloof_tidy (interruptibleSleepMs_aloof ms))

/-- What is left is nothing, exactly if no pause was left. -/
theorem Tally.iff {s₀ : Resources} {t : Resources × Pausing} (h : Tally s₀ t) :
    t.1 = s₀ ↔ t.2 = .running := by
  obtain ⟨kept, hkept, hiff⟩ := h
  rw [← hiff, hkept]
  constructor
  · intro heq
    have hlen := congrArg Resources.buffers heq
    dsimp only at hlen
    exact List.length_eq_zero_iff.mp (by omega)
  · rintro rfl
    rw [List.nil_append, List.length_nil, Nat.zero_add]

/-- **What an update gives back.**  Along every run of `receive_update`, and of `CheckForUpdate` with
all its attempts, only streams that are open and buffers that are allocated are used, closed and
freed.  On return the streams and buffers are those there were before, exactly if every pause was
ended by a RESUME on the connection it was asked for on. -/
theorem releases_iff (bound : ℕ) (cfg : ClientConfig) (info : Bytes) (s : Resources) :
    (∀ {o k t}, Run resourceEnv (receiveUpdate bound cfg info, s, .running) (.call o k, t) →
      t.1.uses o) ∧
    (∀ {rc t}, Run resourceEnv (receiveUpdate bound cfg info, s, .running) (.ret rc, t) →
      (t.1 = s ↔ t.2 = .running)) ∧
    (∀ {o k t}, Run resourceEnv (checkForUpdate bound cfg, s, .running) (.call o k, t) →
      t.1.uses o) ∧
    ∀ {rc t}, Run resourceEnv (checkForUpdate bound cfg, s, .running) (.ret rc, t) →
      (t.1 = s ↔ t.2 = .running) := by
  have hupdate : Careful (fun _ => AfterUpdate (s, .running)) (receiveUpdate bound cfg info)
      (s, .running) :=
    receiveUpdate_careful bound info Pausing.noConfusion
  have hstart : Tally s (s, .running) :=
    ⟨[], by rw [List.nil_append, List.length_nil, Nat.zero_add], iff_of_true rfl rfl⟩
  refine ⟨fun h => (hupdate.run h).guard, fun h => ?_,
    fun h => ((checkForUpdate_careful bound cfg s).run h).guard, fun h => ?_⟩
  · exact (hstart.afterUpdate Pausing.noConfusion (hupdate.run h).result).iff
  · exact ((checkForUpdate_careful bound cfg s).run h).result.iff

/-- The update to a new version, up to the first round of its download. -/
def beginsDownload : List (Call clientInterface) :=
  [⟨.file (.stat (.part (ascii "2.0.0"))), none⟩,
    ⟨.protoSend (textFrame .downloadReq (ascii "offset=0")), true⟩,
    ⟨.file (.fopen (.part (ascii "2.0.0")) .w), some 3⟩, ⟨.malloc 65537, true⟩]

theorem allows_beginsDownload {tr : List (Call clientInterface)} {t : Resources × Pausing}
    (h : resourceEnv.Allows (⟨[3], 1⟩, .running) tr t) :
    resourceEnv.Allows (⟨[], 0⟩, .running) (beginsDownload ++ tr) t :=
  ⟨_, ⟨trivial, rfl⟩, _, ⟨trivial, rfl⟩, _, ⟨List.not_mem_nil, rfl⟩, _, ⟨trivial, rfl⟩, h⟩

/-- A download that is stopped gives everything back. -/
theorem releases_iff_stopped : ∃ t,
    Run resourceEnv (receiveUpdate 1 .client001 (ascii "ver=2.0.0;size=3;sha256=0a"), ⟨[], 0⟩,
      .running) (.ret .paused, t) ∧ t.1 = ⟨[], 0⟩ := by
  have hallows : resourceEnv.Allows (⟨[3], 1⟩, .running)
      [⟨.consumePauseRequest, false⟩, ⟨.stopRequested, true⟩, ⟨.file (.fflush 3), true⟩,
        ⟨.file (.fsync 3), true⟩, ⟨.file (.fclose 3), true⟩, ⟨.free, ()⟩,
        ⟨.file (.fopen (.resume (ascii "2.0.0")) .w), none⟩, ⟨.setPaused, ()⟩]
      (⟨[], 0⟩, .running) :=
    ⟨_, ⟨trivial, rfl⟩, _, ⟨trivial, rfl⟩, _, ⟨trivial, rfl⟩, _, ⟨trivial, rfl⟩, _, ⟨trivial, rfl⟩,
      _, ⟨trivial, rfl⟩, _, ⟨trivial, rfl⟩, _, ⟨trivial, rfl⟩, rfl⟩
  have hrun := (allows_beginsDownload hallows).run
    (p := receiveUpdate 1 .client001 (ascii "ver=2.0.0;size=3;sha256=0a"))
    (q := .ret .paused) (Prog.replay_ret (by decide +kernel))
  exact ⟨_, hrun, ((releases_iff 1 .client001 _ _).2.1 hrun).mpr rfl⟩

/-- A download that is paused while its connection fails keeps its stream and its buffer. -/
theorem pause_keeps_stream : ∃ t,
    Run resourceEnv (receiveUpdate 1 .client001 (ascii "ver=2.0.0;size=3;sha256=0a"), ⟨[], 0⟩,
      .running) (.ret .reconnect, t) ∧ t.1 = ⟨[3], 1⟩ := by
  have hallows : resourceEnv.Allows (⟨[3], 1⟩, .running)
      [⟨.consumePauseRequest, true⟩, ⟨.file (.fflush 3), true⟩, ⟨.file (.fsync 3), true⟩,
        ⟨.file (.fopen (.resume (ascii "2.0.0")) .w), none⟩,
        ⟨.protoSend (textFrame .pause (ascii "offset=0")), false⟩, ⟨.setResumeRetryActive true, ()⟩]
      (⟨[3], 1⟩, .held) :=
    ⟨_, ⟨trivial, rfl⟩, _, ⟨trivial, rfl⟩, _, ⟨trivial, rfl⟩, _, ⟨trivial, rfl⟩, _, ⟨trivial, rfl⟩,
      _, ⟨trivial, rfl⟩, rfl⟩
  have hrun := (allows_beginsDownload hallows).run
    (p := receiveUpdate 1 .client001 (ascii "ver=2.0.0;size=3;sha256=0a"))
    (q := .ret .reconnect) (Prog.replay_ret (by decide +kernel))
  exact ⟨_, hrun, rfl⟩

end UpdateFramework.Client
