import UpdateFramework.Server.Worker

/-!
# Server — the calls of a session

Which operations the functions of a session can call at all, whatever they are answered.
-/

namespace UpdateFramework.Server

open Libc Process

/-! ### Receiving -/

/-- What receiving and pausing call. -/
def listens : ServerOp → Prop
  | .protoRecv _ _ | .select _ | .logMsg _ _ => True
  | _ => False

theorem recvControl_listens : recvControl.Only listens := by
  refine .call trivial fun rc => ?_
  cases rc with
  | ok f => trivial
  | _ => exact .call trivial fun _ => trivial

theorem recvControlIfReady_listens (timeoutMs : ℕ) :
    (recvControlIfReady timeoutMs).Only listens := by
  unfold recvControlIfReady
  refine .call trivial fun n => ?_
  cases n with
  | ready =>
      refine .call trivial fun rc => ?_
      cases rc with
      | _ => trivial
  | _ => trivial

theorem handlePauseIfRequested_listens (hold offset : ℕ) :
    (handlePauseIfRequested hold offset).Only listens := by
  unfold handlePauseIfRequested
  simp only [Prog.call_bind, Prog.ret_bind]
  refine (recvControlIfReady_listens 0).bind fun polled => ?_
  cases polled with
  | nothing => trivial
  | failed => trivial
  | got type payload =>
      by_cases htype : type ≠ .pause
      · simp only [if_pos htype]
        exact .call trivial fun _ => trivial
      simp only [if_neg htype]
      refine .call trivial fun _ => (recvControlIfReady_listens _).bind fun polled => ?_
      cases polled with
      | nothing => exact .call trivial fun _ => trivial
      | failed => exact .call trivial fun _ => trivial
      | got type payload =>
          by_cases htype : type ≠ .resume
          · simp only [if_pos htype]
            exact .call trivial fun _ => trivial
          · simp only [if_neg htype]
            exact .call trivial fun _ => trivial

/-! ### Authenticating -/

/-- How `authenticate_client` refuses. -/
def refusals : List Frame :=
  [errorFrame (ascii "AUTH_FAIL") (ascii "missing client certificate"),
    errorFrame (ascii "AUTH_FAIL") (ascii "missing credentials"),
    errorFrame (ascii "AUTH_FAIL") (ascii "invalid credentials"),
    errorFrame (ascii "BAD_REQUEST") (ascii "expected AUTH")]

theorem refusal_type {f : Frame} (h : f ∈ refusals) : f.type = .error := by
  simp only [refusals, List.mem_cons, List.not_mem_nil, or_false] at h
  rcases h with rfl | rfl | rfl | rfl <;> rfl

/-- What authenticating calls. -/
def talks : ServerOp → Prop
  | .protoSend f => f ∈ refusals
  | .protoRecv _ _ | .select _ | .tlsPeerCommonName _ | .authClientRegistered _ _ | .statsAdd _ _
  | .logMsg _ _ => True
  | _ => False

theorem talks_of_listens {o : ServerOp} (h : listens o) : talks o := by
  cases o with
  | protoRecv _ _ | select _ | logMsg _ _ => trivial
  | _ => exact h.elim

/-- The same, with the counter authenticating changes. -/
def authenticates : ServerOp → Prop
  | .statsAdd c _ => c = .authFailures
  | o => talks o

theorem authenticates_of_listens {o : ServerOp} (h : listens o) : authenticates o := by
  cases o with
  | protoRecv _ _ | select _ | logMsg _ _ => trivial
  | _ => exact h.elim

theorem talks_of_authenticates {o : ServerOp} (h : authenticates o) : talks o := by
  cases o with
  | statsAdd _ _ => trivial
  | _ => exact h

theorem authenticateClient_authenticates (cfg : ServerConfig) :
    (authenticateClient cfg).Only authenticates := by
  have refuse : ∀ {code message : Bytes}, errorFrame code message ∈ refusals →
      (Prog.call (E := serverInterface) (.protoSend (errorFrame code message)) fun _ =>
        .ret (none : Option Bytes)).Only authenticates :=
    fun h => .call h fun _ => trivial
  unfold authenticateClient
  simp only [Prog.call_bind, Prog.ret_bind]
  refine .call trivial fun name => ?_
  cases name with
  | none =>
      exact .call rfl fun _ => .call trivial fun _ => refuse (by simp [refusals])
  | some certId =>
      refine (recvControl_listens.mono fun _ => authenticates_of_listens).bind fun r => ?_
      split
      · split
        · exact refuse (by simp [refusals])
        · split
          · refine .call trivial fun ok => ?_
            split
            · refine .call rfl fun _ => .call trivial fun _ => .call trivial fun _ => ?_
              exact refuse (by simp [refusals])
            · exact .call trivial fun _ => trivial
          · refine .call rfl fun _ => .call trivial fun _ => .call trivial fun _ => ?_
            exact refuse (by simp [refusals])
      · exact refuse (by simp [refusals])

theorem authenticateClient_talks (cfg : ServerConfig) : (authenticateClient cfg).Only talks :=
  (authenticateClient_authenticates cfg).mono fun _ => talks_of_authenticates

/-! ### Streaming -/

/-- What streaming a package calls. -/
def streams : ServerOp → Prop
  | .protoSend f => f.type = .data
  | .statsAdd c _ => c = .bytesSent
  | .file _ | .malloc _ | .free | .usleep _ => True
  | o => listens o

theorem streams_of_listens {o : ServerOp} (h : listens o) : streams o := by
  cases o with
  | protoRecv _ _ | select _ | logMsg _ _ => trivial
  | _ => exact h.elim

theorem streamRound_streams (fp : Handle) (size chunkSize delay hold sent : ℕ) :
    (streamRound fp size chunkSize delay hold sent).Only streams := by
  unfold streamRound
  by_cases hmore : sent < size
  swap
  · simp only [hmore, not_false_eq_true, if_true]
    trivial
  simp only [hmore, not_true_eq_false, if_false, Prog.call_bind, Prog.ret_bind, file_call, file_ret]
  refine ((handlePauseIfRequested_listens _ _).mono fun _ => streams_of_listens).bind fun go => ?_
  split
  · trivial
  refine .call trivial fun read => ?_
  split
  · trivial
  refine .call rfl fun ok => ?_
  split
  · trivial
  refine .call rfl fun _ => ?_
  split
  · refine .call trivial fun _ => ?_
    split <;> trivial
  · split <;> trivial

theorem pkgStreamFile_streams (path : Bytes) (offset chunkSize delay hold : ℕ) :
    (pkgStreamFile path offset chunkSize delay hold).Only streams := by
  unfold pkgStreamFile pkgFileSize
  simp only [Prog.call_bind, Prog.ret_bind, file_call, file_ret]
  refine .call trivial fun size => ?_
  split
  · trivial
  split
  · trivial
  refine .call trivial fun fp => ?_
  split
  · trivial
  refine .call trivial fun seeked => ?_
  split
  · exact .call trivial fun _ => trivial
  refine .call trivial fun buf => ?_
  split
  · exact .call trivial fun _ => trivial
  refine Prog.Only.bind (.iterate (streamRound_streams _ _ _ _ _) _ _) fun rc => ?_
  refine .call trivial fun _ => .call trivial fun _ => ?_
  split
  · exact .call trivial fun _ => trivial
  · trivial

/-- What streaming a package and finishing the transfer call. -/
def serves : ServerOp → Prop
  | .protoSend f => f.type = .data ∨ f.type = .transferDone ∨ f.type = .bye
  | .tlsPeerCommonName _ | .authClientRegistered _ _ | .reserveActiveClientId _
  | .releaseActiveClientId _ | .vmGetSnapshot => False
  | _ => True

theorem serves_of_listens {o : ServerOp} (h : listens o) : serves o := by
  cases o with
  | protoRecv _ _ | select _ | logMsg _ _ => trivial
  | _ => exact h.elim

theorem serves_of_streams {o : ServerOp} (h : streams o) : serves o := by
  cases o with
  | protoSend f => exact .inl h
  | tlsPeerCommonName _ | authClientRegistered _ _ | reserveActiveClientId _
  | releaseActiveClientId _ | vmGetSnapshot => exact h.elim
  | _ => trivial

theorem pkgStreamFile_serves (path : Bytes) (offset chunkSize delay hold : ℕ) :
    (pkgStreamFile path offset chunkSize delay hold).Only serves :=
  (pkgStreamFile_streams path offset chunkSize delay hold).mono fun _ => serves_of_streams

theorem finishTransfer_serves (manifest : Manifest) (clientId : Bytes) (offset : ℕ) :
    (finishTransfer manifest clientId offset).Only serves := by
  have bye : (protoSend (emptyFrame .bye)).Only serves :=
    .call (.inr (.inr rfl)) fun _ => trivial
  unfold finishTransfer
  simp only [Prog.call_bind, Prog.ret_bind]
  refine .call (.inr (.inl rfl)) fun ok => ?_
  split
  · trivial
  refine (recvControl_listens.mono fun _ => serves_of_listens).bind fun r => ?_
  split
  · split
    · exact .call trivial fun _ => .call trivial fun _ => bye
    · exact .call trivial fun _ => .call trivial fun _ => bye
  · trivial

/-! ### A session that holds its client id -/

/-- The errors of a session that holds its client id. -/
def complaints : List Frame :=
  [errorFrame (ascii "BAD_REQUEST") (ascii "expected VERSION_REQ"),
    errorFrame (ascii "BAD_VERSION") (ascii "invalid semantic version"),
    errorFrame (ascii "IO_ERROR") (ascii "manifest unavailable"),
    errorFrame (ascii "NO_PACKAGE") (ascii "package path invalid"),
    errorFrame (ascii "BAD_REQUEST") (ascii "expected DOWNLOAD_REQ"),
    errorFrame (ascii "BAD_REQUEST") (ascii "offset beyond package size")]

/-- What a session calls between its reserve and its release. -/
def converses : ServerOp → Prop
  | .protoSend f => f.type ≠ .error ∨ f ∈ complaints
  | .tlsPeerCommonName _ | .authClientRegistered _ _ | .reserveActiveClientId _
  | .releaseActiveClientId _ => False
  | _ => True

theorem converses_of_listens {o : ServerOp} (h : listens o) : converses o := by
  cases o with
  | protoRecv _ _ | select _ | logMsg _ _ => trivial
  | _ => exact h.elim

theorem converses_of_serves {o : ServerOp} (h : serves o) : converses o := by
  cases o with
  | protoSend f =>
      refine .inl fun hf => ?_
      rcases h with h | h | h <;> rw [hf] at h <;> cases h
  | tlsPeerCommonName _ | authClientRegistered _ _ | reserveActiveClientId _
  | releaseActiveClientId _ => exact h.elim
  | _ => trivial

theorem recvControl_converses : recvControl.Only converses :=
  recvControl_listens.mono fun _ => converses_of_listens

theorem complain_converses {code message : Bytes} (h : errorFrame code message ∈ complaints) :
    (Prog.call (E := serverInterface) (.protoSend (errorFrame code message)) fun _ =>
      .ret false).Only converses :=
  .call (.inr h) fun _ => trivial

theorem offerUpdate_converses (cfg : ServerConfig) (manifest : Manifest)
    (clientId current : Bytes) : (offerUpdate cfg manifest clientId current).Only converses := by
  unfold offerUpdate
  simp only [Prog.call_bind, Prog.ret_bind]
  split
  · exact .call trivial fun _ => complain_converses (by simp [complaints])
  refine .call trivial fun _ => .call (.inl nofun) fun ok => ?_
  split
  · trivial
  refine recvControl_converses.bind fun r => ?_
  split
  · split
    · exact complain_converses (by simp [complaints])
    refine .call trivial fun _ => Prog.Only.bind
      ((pkgStreamFile_serves _ _ _ _ _).mono fun _ => converses_of_serves) fun streamed => ?_
    refine .call trivial fun _ => ?_
    split
    · exact .call trivial fun _ => trivial
    · exact (finishTransfer_serves _ _ _).mono fun _ => converses_of_serves
  · exact complain_converses (by simp [complaints])

theorem reservedSession_converses (cfg : ServerConfig) (clientInfo clientId : Bytes) :
    (reservedSession cfg clientInfo clientId).Only converses := by
  unfold reservedSession
  simp only [Prog.call_bind, Prog.ret_bind]
  refine .call (.inl nofun) fun ok => ?_
  split
  · trivial
  refine .call trivial fun _ => recvControl_converses.bind fun r => ?_
  split
  · split
    · exact .call trivial fun _ => complain_converses (by simp [complaints])
    split
    · exact .call trivial fun _ => complain_converses (by simp [complaints])
    refine .call trivial fun snapshot => ?_
    split
    · exact complain_converses (by simp [complaints])
    split
    · exact complain_converses (by simp [complaints])
    split
    · refine .call trivial fun _ => .call trivial fun _ => .call (.inl nofun) fun ok => ?_
      split
      · exact .call (.inl nofun) fun _ => trivial
      · trivial
    · exact offerUpdate_converses _ _ _ _
  · exact complain_converses (by simp [complaints])

/-! ### The table of active clients -/

/-- An operation that leaves the table of active client ids alone. -/
def sparesTable : ServerOp → Prop
  | .reserveActiveClientId _ | .releaseActiveClientId _ => False
  | _ => True

theorem sparesTable_of_talks {o : ServerOp} (h : talks o) : sparesTable o := by
  cases o with
  | reserveActiveClientId _ => exact h.elim
  | releaseActiveClientId _ => exact h.elim
  | _ => trivial

/-- Between the reservation and the release, the table is left alone. -/
theorem sparesTable_of_converses {o : ServerOp} (h : converses o) : sparesTable o := by
  cases o with
  | reserveActiveClientId _ => exact h.elim
  | releaseActiveClientId _ => exact h.elim
  | _ => trivial

end UpdateFramework.Server
