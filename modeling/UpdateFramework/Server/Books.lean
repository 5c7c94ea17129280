import UpdateFramework.Common.LogRecord
import UpdateFramework.Server.Authorization
import UpdateFramework.Server.Connections
import UpdateFramework.Server.Conversation

/-!
# Server — what a worker puts on the books

A worker counts itself and its transfers, and is on the list of active clients.  Whatever becomes of
a connection, it takes all of it back, in the order in which it was put there
(`workerThread_books`).
-/

namespace UpdateFramework.Server

open Collections Libc Process

/-! ### A session -/

/-- Whether a session is in `pkg_stream_file`, after a call. -/
def transferStep (sending : Bool) : Call serverInterface → Bool
  | ⟨.statsAdd .activeTransfers _, _⟩ => true
  | ⟨.statsSub .activeTransfers _, _⟩ => false
  | _ => sending

/-- A session has counted itself among the active transfers, and has not taken it back. -/
def inTransfer (tr : ServerHistory) : Bool := tr.foldl transferStep false

@[simp] theorem inTransfer_concat (tr : ServerHistory) (x : Call serverInterface) :
    inTransfer (tr ++ [x]) = transferStep (inTransfer tr) x :=
  List.foldl_concat ..

/-- A session counts itself once, and only then calls on files; it relabels itself outside. -/
def keepsStats (clientInfo : Bytes) (tr : ServerHistory) : ServerOp → Prop
  | .statsAdd .activeTransfers n => n = 1 ∧ inTransfer tr = false
  | .statsSub c n => c = .activeTransfers ∧ n = 1 ∧ inTransfer tr = true
  | .statsActiveClientUpdate key label =>
    key = clientInfo ∧ label ≠ [] ∧ label.length < activeClientLabel ∧ inTransfer tr = false
  | .file _ => inTransfer tr = true
  | _ => True

/-- An operation that neither counts nor relabels, and reads a file in a transfer only. -/
def unstated (sending : Bool) : ServerOp → Prop
  | .statsAdd c _ => c ≠ .activeTransfers
  | .statsSub _ _ | .statsActiveClientUpdate _ _ => False
  | .file _ => sending = true
  | _ => True

theorem unstated_of_authenticates {o : ServerOp} (h : authenticates o) : unstated false o := by
  cases o with
  | statsAdd c _ =>
      rintro rfl
      cases h
  | statsSub _ _ | statsActiveClientUpdate _ _ | file _ => exact h.elim
  | _ => trivial

theorem unstated_of_listens {sending : Bool} {o : ServerOp} (h : listens o) :
    unstated sending o := by
  cases o with
  | protoRecv _ _ | select _ | logMsg _ _ => trivial
  | _ => exact h.elim

theorem unstated_of_streams {o : ServerOp} (h : streams o) : unstated true o := by
  cases o with
  | statsAdd c _ =>
      rintro rfl
      cases h
  | statsSub _ _ | statsActiveClientUpdate _ _ => exact h.elim
  | file _ => exact rfl
  | _ => trivial

section Session

variable {clientInfo : Bytes} {sending : Bool} {tr : ServerHistory} {α β : Type}

theorem transferStep_unstated {o : ServerOp} (h : unstated sending o) (r : ServerOp.Res o)
    (b : Bool) : transferStep b ⟨o, r⟩ = b := by
  cases o with
  | statsAdd c _ =>
      cases c with
      | activeTransfers => exact absurd rfl h
      | _ => rfl
  | statsSub _ _ => exact h.elim
  | _ => rfl

theorem keepsStats_unstated {o : ServerOp} (h : unstated sending o)
    (htr : inTransfer tr = sending) : keepsStats clientInfo tr o := by
  cases o with
  | statsAdd c _ =>
      cases c with
      | activeTransfers => exact absurd rfl h
      | _ => trivial
  | statsSub _ _ | statsActiveClientUpdate _ _ => exact h.elim
  | file _ => exact htr.trans h
  | _ => trivial

/-- A part of a session that changes nothing of what is kept. -/
theorem unstated_safe {p : ServerProg α} (hp : p.Only (unstated sending))
    (h : inTransfer tr = sending) :
    Safe (Env.any serverInterface) (keepsStats clientInfo) (fun _ tr => inTransfer tr = sending) p
      tr := by
  induction p generalizing tr with
  | ret a => exact safe_any_ret.mpr h
  | call o k ih =>
      refine safe_any_call.mpr ⟨keepsStats_unstated hp.1 h, fun r => ih r (hp.2 r) ?_⟩
      rw [inTransfer_concat, transferStep_unstated hp.1, h]
  | spin => trivial

theorem unstated_bind {p : ServerProg α} {f : α → ServerProg β} {Q : β → ServerHistory → Prop}
    (hp : p.Only (unstated sending)) (h : inTransfer tr = sending)
    (hf : ∀ a tr, inTransfer tr = sending →
      Safe (Env.any serverInterface) (keepsStats clientInfo) Q (f a) tr) :
    Safe (Env.any serverInterface) (keepsStats clientInfo) Q (p >>= f) tr :=
  safe_bind.mpr ((unstated_safe hp h).post hf)

theorem unstated_call {o : ServerOp} {k : ServerOp.Res o → ServerProg β}
    {Q : β → ServerHistory → Prop} (ho : unstated sending o) (h : inTransfer tr = sending)
    (hk : ∀ r tr, inTransfer tr = sending →
      Safe (Env.any serverInterface) (keepsStats clientInfo) Q (k r) tr) :
    Safe (Env.any serverInterface) (keepsStats clientInfo) Q (.call o k) tr :=
  safe_any_call.mpr ⟨keepsStats_unstated ho h, fun r =>
    hk r _ (by rw [inTransfer_concat, transferStep_unstated ho, h])⟩

/-- A session that is in no transfer. -/
abbrev Settled {α : Type} (_ : α) (tr : ServerHistory) : Prop := inTransfer tr = false

theorem recvControl_unstated : recvControl.Only (unstated sending) :=
  recvControl_listens.mono fun _ => unstated_of_listens

theorem pkgStreamFile_unstated (path : Bytes) (offset chunkSize delay hold : ℕ) :
    (pkgStreamFile path offset chunkSize delay hold).Only (unstated true) :=
  (pkgStreamFile_streams path offset chunkSize delay hold).mono fun _ => unstated_of_streams

theorem finishTransfer_unstated (manifest : Manifest) (clientId : Bytes) (offset : ℕ) :
    (finishTransfer manifest clientId offset).Only (unstated false) := by
  have bye : (protoSend (emptyFrame .bye)).Only (unstated false) :=
    .call trivial fun _ => trivial
  unfold finishTransfer
  simp only [Prog.call_bind, Prog.ret_bind]
  refine .call trivial fun ok => ?_
  split
  · trivial
  refine recvControl_unstated.bind fun r => ?_
  split
  · split
    · exact .call nofun fun _ => .call trivial fun _ => bye
    · exact .call nofun fun _ => .call trivial fun _ => bye
  · trivial

/-- A package is sent between the count and its taking back, whatever becomes of it. -/
theorem offerUpdate_stats (cfg : ServerConfig) (manifest : Manifest) (clientId current : Bytes)
    (h : inTransfer tr = false) :
    Safe (Env.any serverInterface) (keepsStats clientInfo) Settled
      (offerUpdate cfg manifest clientId current) tr := by
  have complain : ∀ {f : Frame}, (Prog.call (E := serverInterface) (.protoSend f) fun _ =>
      .ret false).Only (unstated false) := .call trivial fun _ => trivial
  unfold offerUpdate
  simp only [Prog.call_bind, Prog.ret_bind]
  split
  · exact unstated_call nofun h fun _ _ h => unstated_safe complain h
  refine unstated_call trivial h fun _ _ h => unstated_call trivial h fun ok _ h => ?_
  split
  · exact safe_any_ret.mpr h
  refine unstated_bind recvControl_unstated h fun r _ h => ?_
  split
  · split
    · exact unstated_safe complain h
    refine safe_any_call.mpr ⟨⟨rfl, h⟩, fun _ => ?_⟩
    refine unstated_bind (pkgStreamFile_unstated ..) (inTransfer_concat ..) fun streamed _ h => ?_
    refine safe_any_call.mpr ⟨⟨rfl, rfl, h⟩, fun _ => ?_⟩
    split
    · exact unstated_call nofun (inTransfer_concat ..) fun _ _ h => safe_any_ret.mpr h
    · exact unstated_safe (finishTransfer_unstated _ _ _) (inTransfer_concat ..)
  · exact unstated_safe complain h

/-- The label of a session that has authenticated. -/
theorem label_fits (clientId clientInfo : Bytes) :
    snprintf activeClientLabel (clientId ++ ascii " (" ++ clientInfo ++ ascii ")") ≠ [] ∧
      (snprintf activeClientLabel
        (clientId ++ ascii " (" ++ clientInfo ++ ascii ")")).length < activeClientLabel := by
  refine ⟨fun hnil => ?_, ?_⟩
  · rcases List.take_eq_nil_iff.mp hnil with h | h
    · cases h
    · simp [ascii] at h
  · exact Nat.lt_of_le_of_lt (List.length_take_le _ _) (by decide)

theorem reservedSession_stats (cfg : ServerConfig) (clientId : Bytes)
    (h : inTransfer tr = false) :
    Safe (Env.any serverInterface) (keepsStats clientInfo) Settled
      (reservedSession cfg clientInfo clientId) tr := by
  have complain : ∀ {f : Frame}, (Prog.call (E := serverInterface) (.protoSend f) fun _ =>
      .ret false).Only (unstated false) := .call trivial fun _ => trivial
  obtain ⟨hne, hlen⟩ := label_fits clientId clientInfo
  unfold reservedSession
  simp only [Prog.call_bind, Prog.ret_bind]
  refine unstated_call trivial h fun ok _ h => ?_
  split
  · exact safe_any_ret.mpr h
  refine safe_any_call.mpr ⟨⟨rfl, hne, hlen, h⟩, fun _ => ?_⟩
  have hreceives : recvControl.Only (unstated false) := recvControl_unstated
  refine unstated_bind hreceives ((inTransfer_concat ..).trans h) fun r _ h => ?_
  split
  · split
    · exact unstated_call nofun h fun _ _ h => unstated_safe complain h
    split
    · exact unstated_call nofun h fun _ _ h => unstated_safe complain h
    refine unstated_call trivial h fun snapshot _ h => ?_
    split
    · exact unstated_safe complain h
    split
    · exact unstated_safe complain h
    split
    · refine unstated_call trivial h fun _ _ h => unstated_call nofun h fun _ _ h => ?_
      refine unstated_call trivial h fun ok _ h => ?_
      split
      · exact unstated_call trivial h fun _ _ h => safe_any_ret.mpr h
      · exact safe_any_ret.mpr h
    · exact offerUpdate_stats _ _ _ _ h
  · exact unstated_safe complain h

/-- What a session counts it takes back. -/
theorem handleClientSession_stats (cfg : ServerConfig) (clientInfo : Bytes) :
    Safe (Env.any serverInterface) (keepsStats clientInfo) Settled
      (handleClientSession cfg clientInfo) [] := by
  unfold handleClientSession
  simp only [Prog.call_bind, Prog.ret_bind]
  have hstart : inTransfer [] = false := rfl
  refine unstated_call trivial hstart fun ok _ h => ?_
  split
  · exact safe_any_ret.mpr h
  refine unstated_bind ((authenticateClient_authenticates cfg).mono fun _ =>
    unstated_of_authenticates) h fun clientId _ h => ?_
  cases clientId with
  | none => exact safe_any_ret.mpr h
  | some clientId =>
      refine unstated_call trivial h fun reservation _ h => ?_
      cases reservation with
      | reserved =>
          refine safe_bind.mpr ((reservedSession_stats cfg clientId h).post fun rc _ h => ?_)
          exact unstated_call trivial h fun _ _ h => safe_any_ret.mpr h
      | _ =>
          exact unstated_call trivial h fun _ _ h => unstated_call trivial h fun _ _ h =>
            safe_any_ret.mpr h

end Session

/-! ### A worker -/

/-- What a worker has put on the books: whether it counts as busy, the key it is listed under with
its label, and whether its session counts as a transfer. -/
structure Books where
  busy : Bool
  listing : Option (Bytes × Bytes)
  sending : Bool
  deriving DecidableEq

/-- Nothing. -/
def Books.blank : Books := ⟨false, none, false⟩

/-- The books after a call. -/
def booksStep (b : Books) : Call threadInterface → Books
  | ⟨.statsAdd .busyWorkers, _⟩ => { b with busy := true }
  | ⟨.statsSub .busyWorkers, _⟩ => { b with busy := false }
  | ⟨.statsActiveClientAdd key label, _⟩ => { b with listing := some (key, label) }
  | ⟨.statsActiveClientRemove _, _⟩ => { b with listing := none }
  | ⟨.session (.statsActiveClientUpdate _ label), _⟩ =>
    { b with listing := b.listing.map fun e => (e.1, label) }
  | ⟨.session o, r⟩ => { b with sending := transferStep b.sending ⟨o, r⟩ }
  | _ => b

def books (tr : ThreadHistory) : Books := tr.foldl booksStep .blank

@[simp] theorem books_nil : books [] = .blank := rfl

@[simp] theorem books_concat (tr : ThreadHistory) (x : Call threadInterface) :
    books (tr ++ [x]) = booksStep (books tr) x :=
  List.foldl_concat ..

/-- The text fits a key of the list, and is no empty one. -/
def Named (clientInfo : Bytes) : Prop := clientInfo ≠ [] ∧ clientInfo.length < clientInfoLen

/-- Before each call on the books, what is on them.  A worker takes a connection with blank books,
counts itself, is listed under the connection's `client_info`, and goes the same way back; its
session relabels it and counts its transfer in between, and reads a package only in a transfer. -/
def keepsBooks (tr : ThreadHistory) : ThreadOp → Prop
  | .tpqPop | .statsAdd .busyWorkers => books tr = .blank
  | .statsActiveClientAdd key label =>
    books tr = ⟨true, none, false⟩ ∧ label = key ∧ ∃ fd, made .tpqPop (some ⟨fd, key⟩) ∈ tr
  | .session (.statsActiveClientUpdate key label) =>
    (∃ old, books tr = ⟨true, some (key, old), false⟩) ∧ label ≠ [] ∧
      label.length < activeClientLabel
  | .session (.statsAdd .activeTransfers n) =>
    n = 1 ∧ ∃ e, books tr = ⟨true, some e, false⟩
  | .session (.statsSub c n) =>
    c = .activeTransfers ∧ n = 1 ∧ ∃ e, books tr = ⟨true, some e, true⟩
  | .session (.file _) => ∃ e, books tr = ⟨true, some e, true⟩
  | .statsActiveClientRemove key => ∃ label, books tr = ⟨true, some (key, label), false⟩
  | .statsSub c => c = .busyWorkers ∧ books tr = ⟨true, none, false⟩
  | .tpqPush _ => False
  | _ => True

/-- An operation that leaves the books alone. -/
def offBooks : ThreadOp → Prop
  | .statsAdd c => c ≠ .busyWorkers
  | .tpqPush _ | .tpqPop | .statsSub _ | .statsActiveClientAdd _ _ | .statsActiveClientRemove _
  | .session _ => False
  | _ => True

theorem booksStep_off {o : ThreadOp} (h : offBooks o) (r : ThreadOp.Res o) (b : Books) :
    booksStep b ⟨o, r⟩ = b := by
  cases o with
  | statsAdd c =>
      cases c with
      | busyWorkers => exact absurd rfl h
      | _ => rfl
  | tpqPush _ | tpqPop | statsSub _ | statsActiveClientAdd _ _ | statsActiveClientRemove _
  | session _ => exact h.elim
  | _ => rfl

theorem keepsBooks_off {tr : ThreadHistory} {o : ThreadOp} (h : offBooks o) : keepsBooks tr o := by
  cases o with
  | statsAdd c =>
      cases c with
      | busyWorkers => exact absurd rfl h
      | _ => trivial
  | tpqPush _ | tpqPop | statsSub _ | statsActiveClientAdd _ _ | statsActiveClientRemove _
  | session _ => exact h.elim
  | _ => trivial

/-- The call of a session a thread has made. -/
def ofSession : Call threadInterface → Option (Call serverInterface)
  | ⟨.session o, r⟩ => some ⟨o, r⟩
  | _ => none

section Worker

variable {b : Books} {tr : ThreadHistory} {α β : Type}

/-- A part of a worker that leaves the books alone. -/
theorem off_safe {p : ThreadProg α} (hp : p.Only offBooks) (h : books tr = b) :
    Safe (Env.any threadInterface) keepsBooks (fun _ tr => books tr = b) p tr := by
  induction p generalizing tr with
  | ret a => exact safe_any_ret.mpr h
  | call o k ih =>
      refine safe_any_call.mpr ⟨keepsBooks_off hp.1, fun r => ih r (hp.2 r) ?_⟩
      rw [books_concat, booksStep_off hp.1, h]
  | spin => trivial

theorem off_bind {p : ThreadProg α} {f : α → ThreadProg β} {Q : β → ThreadHistory → Prop}
    (hp : p.Only offBooks) (h : books tr = b)
    (hf : ∀ a tr, books tr = b → Safe (Env.any threadInterface) keepsBooks Q (f a) tr) :
    Safe (Env.any threadInterface) keepsBooks Q (p >>= f) tr :=
  safe_bind.mpr ((off_safe hp h).post hf)

theorem off_call {o : ThreadOp} {k : ThreadOp.Res o → ThreadProg β}
    {Q : β → ThreadHistory → Prop} (ho : offBooks o) (h : books tr = b)
    (hk : ∀ r tr, books tr = b → Safe (Env.any threadInterface) keepsBooks Q (k r) tr) :
    Safe (Env.any threadInterface) keepsBooks Q (.call o k) tr :=
  safe_any_call.mpr ⟨keepsBooks_off ho, fun r =>
    hk r _ (by rw [books_concat, booksStep_off ho, h])⟩

/-- The books of a worker during a session are those before it, with the label last set. -/
theorem books_session {info label : Bytes} (h : books tr = ⟨true, some (info, label), false⟩)
    (seg : ThreadHistory) (hseg : ∀ x ∈ seg, ∃ o, x.1 = ThreadOp.session o) : ∃ label',
      books (tr ++ seg) = ⟨true, some (info, label'), inTransfer (seg.filterMap ofSession)⟩ := by
  induction seg using List.reverseRecOn with
  | nil => exact ⟨label, (List.append_nil tr).symm ▸ h⟩
  | append_singleton seg x ih =>
      obtain ⟨label', hbooks⟩ := ih fun y hy => hseg y (List.mem_append_left _ hy)
      obtain ⟨o, ho⟩ := hseg x (List.mem_append_right _ (List.mem_singleton_self x))
      obtain ⟨o', r⟩ := x
      obtain rfl : o' = ThreadOp.session o := ho
      have hlast : [(⟨.session o, r⟩ : Call threadInterface)].filterMap ofSession = [⟨o, r⟩] := rfl
      rw [← List.append_assoc, books_concat, hbooks, List.filterMap_append, hlast,
        inTransfer_concat]
      cases o with
      | statsActiveClientUpdate key label => exact ⟨label, rfl⟩
      | _ => exact ⟨label', rfl⟩

/-- A session keeps the books of its worker. -/
theorem threadSession_books (cfg : ThreadsConfig) {info label : Bytes}
    (h : books tr = ⟨true, some (info, label), false⟩) :
    Safe (Env.any threadInterface) keepsBooks
      (fun _ tr => ∃ label', books tr = ⟨true, some (info, label'), false⟩)
      (threadSession cfg info) tr := by
  have hguard : ∀ seg o, (∀ x ∈ seg, ∃ o, x.1 = ThreadOp.session o) →
      keepsStats info (seg.filterMap ofSession) o → keepsBooks (tr ++ seg) (.session o) := by
    intro seg o hseg ho
    obtain ⟨label', hbooks⟩ := books_session h seg hseg
    cases o with
    | statsAdd c n =>
        cases c with
        | activeTransfers => exact ⟨ho.1, _, ho.2 ▸ hbooks⟩
        | _ => trivial
    | statsSub c n => exact ⟨ho.1, ho.2.1, _, ho.2.2 ▸ hbooks⟩
    | statsActiveClientUpdate key label =>
        obtain ⟨rfl, hne, hlen, hsending⟩ := ho
        exact ⟨⟨label', hsending ▸ hbooks⟩, hne, hlen⟩
    | file o =>
        have hsending : inTransfer (seg.filterMap ofSession) = true := ho
        exact ⟨_, hsending ▸ hbooks⟩
    | _ => trivial
  refine (safe_interp_any ThreadOp.session (fun _ r => r) ofSession (fun _ => rfl)
    (fun _ _ => rfl) hguard (handleClientSession_stats cfg.toServerConfig info)).post ?_
  rintro rc _ ⟨seg, rfl, hseg, hsettled⟩
  obtain ⟨label', hbooks⟩ := books_session h seg hseg
  have hsettled : inTransfer (seg.filterMap ofSession) = false := hsettled
  exact ⟨label', hsettled ▸ hbooks⟩

/-- A worker without a connection. -/
abbrev Blank {α : Type} (_ : α) (tr : ThreadHistory) : Prop := books tr = .blank

theorem serverTrackWorkerFd_off (workerId : ℕ) (fd : Option ℕ) :
    (serverTrackWorkerFd workerId fd).Only offBooks := by
  unfold serverTrackWorkerFd
  split
  · trivial
  · exact .call trivial fun _ => trivial

theorem connClose_off (fd : ℕ) (ssl : Bool) : (connClose fd ssl).Only offBooks := by
  cases ssl with
  | true => exact .call trivial fun _ => .call trivial fun _ => trivial
  | false => exact .call trivial fun _ => trivial

theorem dropConnection_books (workerId : ℕ) (item : TpqItem) (ssl : Bool) {label : Bytes}
    (h : books tr = ⟨true, some (item.clientInfo, label), false⟩) :
    Safe (Env.any threadInterface) keepsBooks Blank (dropConnection workerId item ssl) tr := by
  unfold dropConnection
  refine off_bind (connClose_off item.fd ssl) h fun _ tr h => ?_
  refine off_bind (serverTrackWorkerFd_off workerId none) h fun _ tr h => ?_
  refine safe_any_call.mpr ⟨⟨label, h⟩, fun _ => ?_⟩
  have h : books (tr ++ [made (.statsActiveClientRemove item.clientInfo) ()]) =
      ⟨true, none, false⟩ := by
    rw [books_concat, h]
    rfl
  refine safe_any_call.mpr ⟨⟨rfl, h⟩, fun _ => safe_any_ret.mpr ?_⟩
  rw [Blank, books_concat, h]
  rfl

theorem serveConnection_books (cfg : ThreadsConfig) (workerId : ℕ) (item : TpqItem) (ssl : Bool)
    {label : Bytes} (h : books tr = ⟨true, some (item.clientInfo, label), false⟩) :
    Safe (Env.any threadInterface) keepsBooks Blank (serveConnection cfg workerId item ssl) tr := by
  unfold serveConnection
  refine safe_bind.mpr ((threadSession_books cfg h).post fun rc tr h => ?_)
  obtain ⟨label', h⟩ := h
  split
  · refine off_call nofun h fun _ tr h => off_call trivial h fun _ tr h => ?_
    exact dropConnection_books workerId item ssl h
  · exact off_call trivial h fun _ tr h => dropConnection_books workerId item ssl h

/-- A worker leaves the books blank, whatever becomes of a connection. -/
theorem workerRound_books (cfg : ThreadsConfig) (workerId : ℕ) (h : books tr = .blank) :
    Safe (Env.any threadInterface) keepsBooks Blank (workerRound cfg workerId ()) tr := by
  unfold workerRound
  simp only [Prog.call_bind, Prog.ret_bind]
  refine off_call trivial h fun running tr h => ?_
  split
  · exact safe_any_ret.mpr h
  refine safe_any_call.mpr ⟨h, fun popped => ?_⟩
  have h : books (tr ++ [made .tpqPop popped]) = .blank := (books_concat ..).trans h
  cases popped with
  | none => exact safe_any_ret.mpr h
  | some item =>
      refine safe_any_call.mpr ⟨trivial, fun running => ?_⟩
      have h : books (tr ++ [made .tpqPop (some item)] ++ [made .loadRunning running]) = .blank :=
        (books_concat ..).trans h
      have hpopped : made .tpqPop (some item) ∈
          tr ++ [made .tpqPop (some item)] ++ [made .loadRunning running] ++
            [made (.statsAdd .busyWorkers) ()] := by simp
      split
      · exact off_bind (connClose_off item.fd false) h fun _ tr h => safe_any_ret.mpr h
      refine safe_any_call.mpr ⟨h, fun _ => ?_⟩
      have h : books (tr ++ [made .tpqPop (some item)] ++ [made .loadRunning running] ++
          [made (.statsAdd .busyWorkers) ()]) = ⟨true, none, false⟩ := by
        rw [books_concat, h]
        rfl
      refine safe_any_call.mpr ⟨⟨h, rfl, item.fd, hpopped⟩, fun _ => ?_⟩
      have h : books (tr ++ [made .tpqPop (some item)] ++ [made .loadRunning running] ++
          [made (.statsAdd .busyWorkers) ()] ++
          [made (.statsActiveClientAdd item.clientInfo item.clientInfo) ()]) =
            ⟨true, some (item.clientInfo, item.clientInfo), false⟩ := by
        rw [books_concat, h]
        rfl
      refine off_bind (serverTrackWorkerFd_off workerId _) h fun _ tr h => ?_
      split
      · refine off_call trivial h fun ssl tr h => ?_
        split
        · refine off_call nofun h fun _ tr h => off_call trivial h fun _ tr h => ?_
          exact dropConnection_books workerId item false h
        · exact serveConnection_books cfg workerId item true h
      · exact serveConnection_books cfg workerId item false h

theorem workerThread_books (bound : ℕ) (cfg : ThreadsConfig) (workerId : ℕ) :
    Safe (Env.any threadInterface) keepsBooks Blank (workerThread bound cfg workerId) [] := by
  unfold workerThread
  simp only [Prog.call_bind, Prog.ret_bind]
  refine off_call trivial books_nil fun _ tr h => safe_bind.mpr ?_
  refine (safe_loop (workerRound cfg workerId) trivial (fun _ => Blank ()) (fun _ tr h => ?_) bound
    h).post fun _ tr h => off_call trivial h fun _ tr h => safe_any_ret.mpr h
  refine (workerRound_books cfg workerId h).post fun r tr h => ?_
  cases r with
  | inl _ => exact h
  | inr _ => exact safe_any_ret (G := keepsBooks).mpr h

end Worker

/-! ### The other threads -/

/-- `net_peer_info` writes the address, if it can be told, and the descriptor. -/
def peerAnswer : Call threadInterface → Prop
  | ⟨.netPeerInfo fd len, info⟩ => ∃ peer, info = netPeerInfoText peer fd len
  | _ => True

/-- What the others call: nothing on the books, and what is queued has a name. -/
def admits : ThreadOp → Prop
  | .tpqPush item => Named item.clientInfo
  | o => offBooks o

theorem named_netPeerInfoText (peer : Option (Bytes × ℕ)) (fd : ℕ) :
    Named (netPeerInfoText peer fd clientInfoLen) := by
  have fits : ∀ {s : Bytes}, s ≠ [] → Named (snprintf clientInfoLen s) := by
    intro s hs
    refine ⟨fun hnil => ?_, Nat.lt_of_le_of_lt (List.length_take_le _ _) (by decide)⟩
    rcases List.take_eq_nil_iff.mp hnil with h | h
    · cases h
    · exact hs h
  cases peer with
  | none => exact fits (by simp [ascii])
  | some x => exact fits (by simp [ascii])

theorem admits_of_off {o : ThreadOp} (h : offBooks o) : admits o := by
  cases o with
  | tpqPush _ => exact h.elim
  | _ => exact h

section Others

variable {α : Type}

/-- A part of a thread that calls nothing on the books. -/
theorem off_admits {p : ThreadProg α} (hp : p.Only offBooks) (tr : ThreadHistory) :
    Safe (Env.anyOf peerAnswer) (fun _ => admits) (fun _ _ => True) p tr := by
  induction p generalizing tr with
  | ret a => exact safe_anyOf_ret.mpr trivial
  | call o k ih =>
      exact safe_anyOf_call.mpr ⟨admits_of_off hp.1, fun r _ => ih r (hp.2 r) _⟩
  | spin => trivial

theorem acceptorFailed_off (text : Bytes) (errno : Errno) :
    (acceptorFailed text errno).Only offBooks := by
  unfold acceptorFailed
  simp only [Prog.call_bind, Prog.ret_bind]
  refine .call trivial fun running => ?_
  split
  · trivial
  · cases errno with
    | other n => exact .call trivial fun _ => trivial
    | _ => trivial

theorem queueConnection_admits (cfg : ThreadsConfig) (fd : ℕ) (tr : ThreadHistory) :
    Safe (Env.anyOf peerAnswer) (fun _ => admits) (fun _ _ => True) (queueConnection cfg fd)
      tr := by
  have rejected : (do
      Thread.connSendPlainBusy fd
      Thread.logMsg .warn (ascii "REJECT busy queue_full=1")
      Thread.close fd
      .ret (.inl ()) : ThreadProg (Unit ⊕ Unit)).Only offBooks :=
    .call trivial fun _ => .call trivial fun _ => .call trivial fun _ => trivial
  have queued : (do
      Thread.logMsg .info (ascii "ACCEPT queued")
      .ret (.inl ()) : ThreadProg (Unit ⊕ Unit)).Only offBooks := .call trivial fun _ => trivial
  unfold queueConnection
  simp only [Prog.call_bind, Prog.ret_bind]
  refine safe_anyOf_call.mpr ⟨trivial, fun _ _ => ?_⟩
  refine safe_anyOf_call.mpr ⟨trivial, fun info hinfo => ?_⟩
  obtain ⟨peer, rfl⟩ := hinfo
  refine safe_anyOf_call.mpr ⟨nofun, fun _ _ => ?_⟩
  refine safe_anyOf_call.mpr ⟨named_netPeerInfoText peer fd, fun pushed _ => ?_⟩
  split
  · exact off_admits rejected _
  · exact off_admits queued _

theorem acceptorRound_admits (cfg : ThreadsConfig) (listenFd : Option ℕ) (tr : ThreadHistory) :
    Safe (Env.anyOf peerAnswer) (fun _ => admits) (fun _ _ => True)
      (acceptorRound cfg listenFd ()) tr := by
  unfold acceptorRound
  simp only [Prog.call_bind, Prog.ret_bind]
  refine safe_anyOf_call.mpr ⟨trivial, fun running _ => ?_⟩
  split
  · exact safe_anyOf_ret.mpr trivial
  cases listenFd with
  | none => exact safe_anyOf_ret.mpr trivial
  | some listenFd =>
      refine safe_anyOf_call.mpr ⟨trivial, fun selected _ => ?_⟩
      cases selected with
      | failed errno => exact off_admits (acceptorFailed_off _ errno) _
      | timedOut => exact safe_anyOf_ret.mpr trivial
      | ready =>
          refine safe_anyOf_call.mpr ⟨trivial, fun accepted _ => ?_⟩
          cases accepted with
          | failed errno => exact off_admits (acceptorFailed_off _ errno) _
          | fd fd => exact queueConnection_admits cfg fd _

/-- The acceptor queues connections by name. -/
theorem acceptorThread_admits (bound : ℕ) (cfg : ThreadsConfig) (listenFd : Option ℕ) :
    Safe (Env.anyOf peerAnswer) (fun _ => admits) (fun _ _ => True)
      (acceptorThread bound cfg listenFd) [] := by
  have hloop : ∀ tr, Safe (Env.anyOf peerAnswer) (fun _ => admits) (fun _ _ => True)
      (Prog.iterate bound (acceptorRound cfg listenFd) ()) tr := by
    intro tr
    refine safe_loop _ trivial (fun _ _ => True) (fun _ tr _ => ?_) bound trivial
    refine (acceptorRound_admits cfg listenFd tr).post fun r tr _ => ?_
    cases r with
    | inl _ => trivial
    | inr _ => exact fun _ _ => trivial
  unfold acceptorThread
  simp only [Prog.call_bind, Prog.ret_bind]
  have hlast : (Thread.logMsg .info (ascii "ACCEPTOR_STOP")).Only offBooks :=
    .call trivial fun _ => trivial
  refine safe_anyOf_call.mpr ⟨trivial, fun _ _ => safe_bind.mpr ?_⟩
  exact (hloop _).post fun _ tr _ => off_admits hlast tr

theorem serverRequestShutdown_off : serverRequestShutdown.Only offBooks := by
  have hslots : ∀ slots, (shutdownSlots slots).Only offBooks := by
    intro slots
    induction slots with
    | nil => trivial
    | cons i slots ih =>
        refine .call trivial fun fd => ?_
        cases fd with
        | none => exact ih
        | some fd => exact .call trivial fun _ => .call trivial fun _ => ih
  have hrest : ∀ u : Unit, (do
      shutdownActiveWorkerFds
      Thread.tpqShutdown
      Thread.unlockShutdown).Only offBooks := fun _ =>
    (hslots _).bind fun _ => .call trivial fun _ => .call trivial fun _ => trivial
  refine .call trivial fun _ => .call trivial fun _ => .call trivial fun fd => ?_
  cases fd with
  | none => exact hrest ()
  | some fd => exact .call trivial fun _ => .call trivial fun _ => .call trivial fun _ => hrest ()

end Others

end UpdateFramework.Server
