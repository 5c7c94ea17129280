import UpdateFramework.Common.Wire
import UpdateFramework.Server.PackageService

/-!
# Server — what ends a stream

A stream goes on until something ends it: the connection fails, the peer sends another frame than
PAUSE, or than RESUME after it, a hold goes by without one, or the package cannot be read.  What has
been called and answered says how a stream stands (`stage`).  `pkg_stream_file` gives up a stream
that nothing has ended exactly if a `select` was interrupted (`given_up_iff`).
-/

namespace UpdateFramework.Server

open Libc Process

/-- A stream is under way, or held, or there is none, or none any more. -/
inductive Stage where
  | closed | streaming | held
  deriving DecidableEq

/-- What a call and its answer make of a stream. -/
def stageStep : Stage → Call serverInterface → Stage
  | .closed, ⟨.malloc _, r⟩ => if r = true then .streaming else .closed
  | .closed, _ => .closed
  | .streaming, ⟨.select _, r⟩ => if r = .failed then .closed else .streaming
  | .held, ⟨.select _, r⟩ => if r = .failed ∨ r = .timedOut then .closed else .held
  | .streaming, ⟨.protoRecv _ _, .ok f⟩ => if f.type = .pause then .held else .closed
  | .held, ⟨.protoRecv _ _, .ok f⟩ => if f.type = .resume then .streaming else .closed
  | _, ⟨.protoRecv _ _, _⟩ => .closed
  | s, ⟨.protoSend _, r⟩ => if r = true then s else .closed
  | s, ⟨.file (.fread _ n), (buf, ferror)⟩ =>
    if buf = [] ∨ (buf.length < n ∧ ferror = true) then .closed else s
  | s, _ => s

/-- How a stream stands after these calls. -/
def stage (s : Stage) (tr : List (Call serverInterface)) : Stage := tr.foldl stageStep s

/-- A `select` that a signal has interrupted. -/
def isInterrupted : Call serverInterface → Bool
  | ⟨.select _, r⟩ => r = .interrupted
  | _ => false

/-- How a stream stands, and whether a `select` was interrupted. -/
def holdStep (s : Stage × Bool) (x : Call serverInterface) : Stage × Bool :=
  (stageStep s.1 x, s.2 || isInterrupted x)

theorem foldl_holdStep (tr : List (Call serverInterface)) (s : Stage × Bool) :
    tr.foldl holdStep s = (stage s.1 tr, s.2 || tr.any isInterrupted) := by
  induction tr generalizing s with
  | nil => exact Prod.ext rfl (Bool.or_false _).symm
  | cons x tr ih =>
      rw [List.foldl_cons, ih, List.any_cons, ← Bool.or_assoc]
      rfl

/-- A stream given up: something ended it, or nothing did and a `select` was interrupted. -/
def GivenUp (s : Stage × Bool) : Prop := s = (.closed, false) ∨ (s.1 ≠ .closed ∧ s.2 = true)

/-- What the functions leave that return whether the stream goes on. -/
def GoesOnOrGivenUp (ok : Bool) (s : Stage × Bool) : Prop :=
  if ok = true then s = (.streaming, false) else GivenUp s

theorem goesOnOrGivenUp_iff {ok : Bool} {s : Stage × Bool} (h : GoesOnOrGivenUp ok s) :
    (ok = false → s.1 = .closed) ↔ s.2 = false := by
  cases ok with
  | true =>
      obtain rfl : s = (.streaming, false) := h
      exact iff_of_true (fun hok => by cases hok) rfl
  | false =>
      rcases h with rfl | ⟨hopen, hint⟩
      · exact iff_of_true (fun _ => rfl) rfl
      · exact iff_of_false (fun hclosed => hopen (hclosed rfl)) fun hclear =>
          Bool.false_ne_true (hclear.symm.trans hint)

/-- The surroundings that keep account of a stream. -/
abbrev holdEnv : Env serverInterface (Stage × Bool) := Env.folding holdStep

/-- What `recv_control_if_ready` tells of a stream that stands at `s`. -/
def polledAt (s : Stage) : Polled → Stage × Bool → Prop
  | .nothing, t => t = (if s = .held then .closed else .streaming, false)
  | .failed, t => GivenUp t
  | .got type _, t =>
    t = (if s = .held then if type = .resume then .streaming else .closed
      else if type = .pause then .held else .closed, false)

theorem recvControlIfReady_hold (timeoutMs : ℕ) {s : Stage} (hs : s ≠ .closed) :
    Safe holdEnv (fun _ _ => True) (polledAt s) (recvControlIfReady timeoutMs) (s, false) := by
  unfold recvControlIfReady
  simp only [Prog.call_bind, Prog.ret_bind]
  refine safe_folding_call.mpr ⟨trivial, fun polled => ?_⟩
  cases s with
  | closed => exact absurd rfl hs
  | streaming =>
      cases polled with
      | ready =>
          refine safe_folding_call.mpr ⟨trivial, fun rc => ?_⟩
          cases rc with
          | ok f => exact safe_folding_ret.mpr rfl
          | eof | bad | tooLarge => exact safe_folding_ret.mpr (.inl rfl)
      | timedOut => exact safe_folding_ret.mpr rfl
      | interrupted => exact safe_folding_ret.mpr (.inr ⟨Stage.noConfusion, rfl⟩)
      | failed => exact safe_folding_ret.mpr (.inl rfl)
  | held =>
      cases polled with
      | ready =>
          refine safe_folding_call.mpr ⟨trivial, fun rc => ?_⟩
          cases rc with
          | ok f => exact safe_folding_ret.mpr rfl
          | eof | bad | tooLarge => exact safe_folding_ret.mpr (.inl rfl)
      | timedOut => exact safe_folding_ret.mpr rfl
      | interrupted => exact safe_folding_ret.mpr (.inr ⟨Stage.noConfusion, rfl⟩)
      | failed => exact safe_folding_ret.mpr (.inl rfl)

/-- What does not matter to a stream. -/
def sparesStream : ServerOp → Prop
  | .select _ | .protoRecv _ _ | .protoSend _ | .malloc _ | .file (.fread _ _) => False
  | _ => True

theorem holdStep_spared {o : ServerOp} (h : sparesStream o) (r : ServerOp.Res o)
    (s : Stage × Bool) : holdStep s ⟨o, r⟩ = s := by
  obtain ⟨stage, interrupted⟩ := s
  cases o with
  | select _ | protoRecv _ _ | protoSend _ | malloc _ => exact h.elim
  | file o =>
      cases o with
      | fread _ _ => exact h.elim
      | _ =>
          cases stage with
          | closed | streaming | held => exact Prod.ext rfl (Bool.or_false _)
  | _ =>
      cases stage with
      | closed | streaming | held => exact Prod.ext rfl (Bool.or_false _)

theorem spared_hold {α : Type} {o : ServerOp} {k : ServerOp.Res o → ServerProg α}
    {Q : α → Stage × Bool → Prop} {s : Stage × Bool} (ho : sparesStream o)
    (h : ∀ r, Safe holdEnv (fun _ _ => True) Q (k r) s) :
    Safe holdEnv (fun _ _ => True) Q (.call o k) s := by
  refine safe_folding_call.mpr ⟨trivial, fun r => ?_⟩
  rw [holdStep_spared ho]
  exact h r

theorem handlePauseIfRequested_hold (hold offset : ℕ) :
    Safe holdEnv (fun _ _ => True) GoesOnOrGivenUp (handlePauseIfRequested hold offset)
      (.streaming, false) := by
  unfold handlePauseIfRequested
  refine safe_bind.mpr ((recvControlIfReady_hold 0 Stage.noConfusion).post fun polled t ht => ?_)
  cases polled with
  | nothing => exact safe_folding_ret.mpr ht
  | failed => exact safe_folding_ret.mpr ht
  | got type payload =>
      simp only [Prog.call_bind, Prog.ret_bind]
      obtain rfl : t = (if type = .pause then .held else .closed, false) := ht
      by_cases htype : type = .pause
      swap
      · rw [if_pos htype, if_neg htype]
        exact spared_hold trivial fun _ => safe_folding_ret.mpr (.inl rfl)
      rw [if_neg (not_not_intro htype), if_pos htype]
      refine spared_hold trivial fun _ => safe_bind.mpr ?_
      refine (recvControlIfReady_hold _ Stage.noConfusion).post fun polled t ht => ?_
      cases polled with
      | nothing => exact spared_hold trivial fun _ => safe_folding_ret.mpr (.inl ht)
      | failed => exact spared_hold trivial fun _ => safe_folding_ret.mpr ht
      | got type payload =>
          obtain rfl : t = (if type = .resume then .streaming else .closed, false) := ht
          by_cases hresume : type = .resume
          · rw [if_pos hresume]
            simp only [hresume, ne_eq, not_true_eq_false, if_false]
            exact spared_hold trivial fun _ => safe_folding_ret.mpr rfl
          · rw [if_neg hresume]
            simp only [hresume, ne_eq, not_false_eq_true, if_true]
            exact spared_hold trivial fun _ => safe_folding_ret.mpr (.inl rfl)

theorem streamRound_hold (fp : Handle) (size chunkSize delay hold sent : ℕ) :
    Safe holdEnv (fun _ _ => True)
      (fun r t => r.elim (fun _ => t = (.streaming, false)) fun rc => GoesOnOrGivenUp rc t)
      (streamRound fp size chunkSize delay hold sent) (.streaming, false) := by
  unfold streamRound
  by_cases hmore : sent < size
  swap
  · simp only [hmore, not_false_eq_true, if_true]
    exact safe_folding_ret.mpr rfl
  simp only [hmore, not_true_eq_false, if_false, Prog.call_bind, Prog.ret_bind, file_call, file_ret]
  refine safe_bind.mpr ((handlePauseIfRequested_hold _ _).post fun go t ht => ?_)
  cases go with
  | false => exact safe_folding_ret.mpr ht
  | true =>
      obtain rfl : t = (.streaming, false) := ht
      refine safe_folding_call.mpr ⟨trivial, fun read => ?_⟩
      obtain ⟨buf, ferror⟩ := read
      obtain ⟨want, hwant⟩ : ∃ want, min (size - sent) chunkSize = want := ⟨_, rfl⟩
      rw [hwant]
      have hread : holdStep (.streaming, false) ⟨.file (.fread fp want), (buf, ferror)⟩ =
          (if buf = [] ∨ (buf.length < want ∧ ferror = true) then .closed else .streaming, false) :=
        rfl
      rw [hread]
      by_cases hbuf : buf.length = 0
      · simp only [if_pos hbuf]
        refine safe_folding_ret.mpr (.inl ?_)
        rw [if_pos (.inl (List.length_eq_zero_iff.mp hbuf))]
      simp only [if_neg hbuf]
      refine safe_folding_call.mpr ⟨trivial, fun ok => ?_⟩
      by_cases hshort : buf.length < want ∧ ferror = true
      · -- the bytes read are sent, and then the error is found
        have hstage : (if buf = [] ∨ (buf.length < want ∧ ferror = true) then Stage.closed
            else .streaming) = .closed := if_pos (.inr hshort)
        rw [hstage]
        cases ok with
        | false => exact safe_folding_ret.mpr (.inl rfl)
        | true =>
            refine spared_hold trivial fun _ => ?_
            split
            · exact spared_hold trivial fun _ => safe_folding_ret.mpr (.inl rfl)
            · exact safe_folding_ret.mpr (.inl rfl)
      · have hstage : (if buf = [] ∨ (buf.length < want ∧ ferror = true) then Stage.closed
            else .streaming) = .streaming :=
          if_neg fun h => h.elim (fun hnil => hbuf (List.length_eq_zero_iff.mpr hnil)) hshort
        rw [hstage]
        cases ok with
        | false => exact safe_folding_ret.mpr (.inl rfl)
        | true =>
            refine spared_hold trivial fun _ => ?_
            split
            · exact spared_hold trivial fun _ => safe_folding_ret.mpr rfl
            · exact safe_folding_ret.mpr rfl

theorem pkgStreamFile_hold (path : Bytes) (offset chunkSize delay hold : ℕ) :
    Safe holdEnv (fun _ _ => True) GoesOnOrGivenUp (pkgStreamFile path offset chunkSize delay hold)
      (.closed, false) := by
  unfold pkgStreamFile pkgFileSize
  simp only [Prog.call_bind, Prog.ret_bind, file_call, file_ret]
  refine spared_hold trivial fun size => ?_
  cases size with
  | none => exact safe_folding_ret.mpr (.inl rfl)
  | some size =>
      dsimp only
      split
      · exact safe_folding_ret.mpr (.inl rfl)
      refine spared_hold trivial fun fp => ?_
      cases fp with
      | none => exact safe_folding_ret.mpr (.inl rfl)
      | some fp =>
          refine spared_hold trivial fun seeked => ?_
          cases seeked with
          | false => exact spared_hold trivial fun _ => safe_folding_ret.mpr (.inl rfl)
          | true =>
              refine safe_folding_call.mpr ⟨trivial, fun buf => ?_⟩
              cases buf with
              | false => exact spared_hold trivial fun _ => safe_folding_ret.mpr (.inl rfl)
              | true =>
                  refine safe_bind.mpr (Safe.post (Q := GoesOnOrGivenUp) ?_ fun rc t ht => ?_)
                  · refine safe_loop _ trivial (fun _ t => t = (.streaming, false))
                      (fun sent t ht => ?_) _ rfl
                    subst ht
                    refine (streamRound_hold fp size chunkSize delay hold sent).post
                      fun r t hr => ?_
                    cases r with
                    | inl sent => exact hr
                    | inr rc =>
                        exact show Safe holdEnv (fun _ _ => True) GoesOnOrGivenUp (.ret rc) t from
                          safe_folding_ret.mpr hr
                  · refine spared_hold trivial fun _ => spared_hold trivial fun _ => ?_
                    cases rc with
                    | true => exact spared_hold trivial fun _ => safe_folding_ret.mpr ht
                    | false => exact safe_folding_ret.mpr ht

/-- **Who gives up a stream.**  When `handle_pause_if_requested` has it aborted, or `pkg_stream_file`
fails, something has ended the stream, exactly if no `select` was interrupted. -/
theorem given_up_iff (path : Bytes) (offset chunkSize delay hold : ℕ) :
    (∀ ok tr, History (handlePauseIfRequested hold offset) (.ret ok) tr →
      ((ok = false → stage .streaming tr = .closed) ↔ ∀ x ∈ tr, ¬ isInterrupted x)) ∧
    ∀ rc tr, History (pkgStreamFile path offset chunkSize delay hold) (.ret rc) tr →
      ((rc = false → stage .closed tr = .closed) ↔ ∀ x ∈ tr, ¬ isInterrupted x) := by
  have settle {ok : Bool} {s : Stage} {tr : List (Call serverInterface)}
      (h : GoesOnOrGivenUp ok (tr.foldl holdStep (s, false))) :
      (ok = false → stage s tr = .closed) ↔ ∀ x ∈ tr, ¬ isInterrupted x := by
    rw [foldl_holdStep, Bool.false_or] at h
    exact (goesOnOrGivenUp_iff h).trans List.any_eq_false
  refine ⟨fun ok tr h => settle ?_, fun rc tr h => settle ?_⟩
  · exact ((handlePauseIfRequested_hold hold offset).folded h).result
  · exact ((pkgStreamFile_hold path offset chunkSize delay hold).folded h).result

/-- A hold that goes by has ended its stream. -/
theorem given_up_iff_timeout :
    stage .streaming [⟨.select 0, .ready⟩, ⟨.protoRecv 1025 0, .ok (emptyFrame .pause)⟩,
      ⟨.logMsg .info (ascii "STREAM_PAUSED client_offset=7 server_offset=7 hold_sec=30"), ()⟩,
      ⟨.select 30000, .timedOut⟩,
      ⟨.logMsg .warn (ascii "STREAM_PAUSE_TIMEOUT hold_sec=30 offset=7"), ()⟩] = .closed := by
  have hrun : History (handlePauseIfRequested 30 7) (.ret false)
      [⟨.select 0, .ready⟩, ⟨.protoRecv 1025 0, .ok (emptyFrame .pause)⟩,
        ⟨.logMsg .info (ascii "STREAM_PAUSED client_offset=7 server_offset=7 hold_sec=30"), ()⟩,
        ⟨.select 30000, .timedOut⟩,
        ⟨.logMsg .warn (ascii "STREAM_PAUSE_TIMEOUT hold_sec=30 offset=7"), ()⟩] :=
    Prog.history_of_replay (Prog.replay_ret (by decide +kernel))
  exact ((given_up_iff [] 7 4096 0 30).1 false _ hrun).mpr (by decide +kernel) rfl

/-- A hold that a signal interrupts: the stream is given up, and nothing has ended it. -/
theorem interrupted_hold_given_up : ∃ tr,
    History (pkgStreamFile (ascii "./packages/app.bin") 0 4096 0 30) (.ret false) tr ∧
      stage .closed tr = .held := by
  refine ⟨[⟨.file (.stat (ascii "./packages/app.bin")), some 10⟩,
    ⟨.file (.fopen (ascii "./packages/app.bin") .r), some 3⟩, ⟨.file (.fseeko 3 0), true⟩,
    ⟨.malloc 4096, true⟩, ⟨.select 0, .ready⟩,
    ⟨.protoRecv 1025 0, .ok (textFrame .pause (ascii "offset=0"))⟩,
    ⟨.logMsg .info (ascii "STREAM_PAUSED client_offset=0 server_offset=0 hold_sec=30"), ()⟩,
    ⟨.select 30000, .interrupted⟩,
    ⟨.logMsg .warn (ascii "STREAM_RESUME_FAILED type=recv_error"), ()⟩, ⟨.free, ()⟩,
    ⟨.file (.fclose 3), true⟩], ?_, by decide +kernel⟩
  exact Prog.history_of_replay (Prog.replay_ret (by decide +kernel))

end UpdateFramework.Server
