import UpdateFramework.Process.Crossing
import UpdateFramework.System.Service

/-!
# System — the two sides of a connection whose user may pause

The client and a worker of the server in one session, where nothing fails but the user may click Pause
and Resume, each time the client looks for it.  The worker looks for a message now and then, and may
miss one on its way; while it holds, `RESUME` comes in time.  A side that has ended has closed the
connection.
-/

namespace UpdateFramework.System

open Libc Process

/-! ### The client -/

/-- What the client finds each time it looks for a click. -/
structure Clicks where
  /-- For each round of the download: nothing, or a click on Pause and how often the client then looks
  for one on Resume in vain. -/
  rounds : List (Option ℕ)
  /-- How often it still looks for Resume in vain. -/
  looks : ℕ

/-- What `consume_pause_request` returns. -/
def Clicks.pause (c : Clicks) : Bool × Clicks :=
  match c.rounds with
  | some looks :: rounds => (true, ⟨rounds, looks⟩)
  | none :: rounds => (false, ⟨rounds, c.looks⟩)
  | [] => (false, c)

/-- What `consume_resume_request` returns. -/
def Clicks.resume (c : Clicks) : Bool × Clicks :=
  match c.looks with
  | 0 => (true, c)
  | looks + 1 => (false, ⟨c.rounds, looks⟩)

/-- The client in a session, with `fd` for its connection. -/
def pausingSide (fd : ℕ) : Actor clientInterface Frame (ClientSide × Clicks) := fun x o =>
  match o with
  | .consumePauseRequest => .does x.2.pause.1 (x.1, x.2.pause.2)
  | .consumeResumeRequest => .does x.2.resume.1 (x.1, x.2.resume.2)
  | .protoSend f => if sendable f then .sends f true x (false, x) else .does false x
  | .protoRecv payloadCap dataPayloadCap =>
    .takes (fun f => (arrival payloadCap dataPayloadCap f, x)) (.eof, x)
  | .file o => .does (x.1.files.ok o).1 ({ x.1 with files := (x.1.files.ok o).2 }, x.2)
  | .setResumeRetryActive active => .does () ({ x.1 with resumeRetry := active }, x.2)
  | .resumeRetryActive => .does x.1.resumeRetry x
  -- the session has its connection
  | .netConnectTcp => .does (some fd) ({ x.1 with connections := x.1.connections + 1 }, x.2)
  | .tlsConnectConnection _ => .does true x
  | .activeFdWasSignalClosed _ => .does false x
  | .stopRequested => .does false x
  | .malloc _ => .does true x
  | .connClose _ => .does () x
  | .sslFree => .does () x
  | .setActiveFd _ => .does () x
  | .setPaused => .does () x
  | .free => .does () x
  | .usleep _ => .does () x

theorem pausingSide_sends {f : Frame} (h : sendable f = true) (fd : ℕ) (x : ClientSide × Clicks) :
    pausingSide fd x (.protoSend f) = .sends f true x (false, x) :=
  if_pos h

/-- Where the user is not asked, the client does what it does without one. -/
theorem pausingSide_mirrors (fd : ℕ) (c : Clicks) :
    Mirrors (clientSide fd) (pausingSide fd) (fun s => (s, c)) unclicked := by
  intro s o ho
  cases o with
  | consumePauseRequest | consumeResumeRequest => exact ho.elim
  | protoSend f =>
      simp only [clientSide, pausingSide]
      cases sendable f with
      | true => exact ⟨_, rfl⟩
      | false => rfl
  | protoRecv payloadCap dataPayloadCap => exact ⟨_, rfl⟩
  | netConnectTcp => trivial
  | _ => rfl

/-! ### The server -/

/-- A worker in a session. -/
def attendingSide (pr : Premises) : Actor serverInterface Frame ServerSide := fun s o =>
  match o with
  | .protoSend f => if sendable f then .sends f true s (false, s) else .does false s
  | .protoRecv payloadCap dataPayloadCap =>
    .takes (fun f => (arrival payloadCap dataPayloadCap f, s)) (.eof, s)
  | .select ms =>
    if ms = 0 then .asks fun there => (if there then .ready else .timedOut, s) else .awaits .ready s
  | .file o => .does (s.files.ok o).1 { s with files := (s.files.ok o).2 }
  | .tlsPeerCommonName _ => .does (some pr.certName) s
  | .authClientRegistered registry clientId => .does (pr.registered registry clientId) s
  | .reserveActiveClientId clientId => .does (UpdateFramework.reserveActiveClientId s.slots clientId).1
      { s with slots := (UpdateFramework.reserveActiveClientId s.slots clientId).2 }
  | .releaseActiveClientId clientId => .does ()
      { s with slots := UpdateFramework.releaseActiveClientId s.slots clientId }
  | .vmGetSnapshot => .does (some pr.manifest) s
  | .statsAdd c n => .does ()
      { s with counters := Function.update s.counters c (s.counters c + n) }
  | .statsSub c n => .does ()
      { s with counters := Function.update s.counters c (s.counters c - n) }
  | .statsActiveClientUpdate _ _ => .does () s
  | .malloc _ => .does true s
  | .free => .does () s
  | .usleep _ => .does () s
  | .logMsg _ _ => .does () s

/-- `select` with no time to wait. -/
theorem attendingSide_asks (pr : Premises) (s : ServerSide) : attendingSide pr s (.select 0) =
    .asks fun there => (if there then .ready else .timedOut, s) := rfl

theorem attendingSide_awaits {ms : ℕ} (h : 0 < ms) (pr : Premises) (s : ServerSide) :
    attendingSide pr s (.select ms) = .awaits .ready s := by
  simp only [attendingSide, if_neg (Nat.ne_of_gt h)]

theorem attendingSide_mirrors (pr : Premises) :
    Mirrors (serverSide pr) (attendingSide pr) id fun _ => True := by
  intro s o _
  cases o with
  | protoSend f =>
      simp only [serverSide, attendingSide]
      cases sendable f with
      | true => exact ⟨_, rfl⟩
      | false => rfl
  | protoRecv payloadCap dataPayloadCap => exact ⟨_, rfl⟩
  | select ms => trivial
  | _ => rfl

/-! ### Requests -/

/-- A frame of this type that `proto_send` sends. -/
def isRequest (type : MsgType) (f : Frame) : Bool :=
  f.type = type && f.payload.length ≤ maxControlPayload

theorem isRequest_iff {type : MsgType} {f : Frame} :
    isRequest type f = true ↔ f.type = type ∧ f.payload.length ≤ maxControlPayload := by
  rw [isRequest, Bool.and_eq_true, decide_eq_true_eq, decide_eq_true_eq]

theorem isRequest_control {type : MsgType} (htype : type ≠ .data) {f : Frame}
    (h : isRequest type f = true) : Control f := by
  obtain ⟨rfl, hlen⟩ := isRequest_iff.mp h
  exact ⟨htype, hlen⟩

theorem isRequest_textFrame {type : MsgType} (htype : type ≠ .data) (text : Bytes) :
    isRequest type (textFrame type (snprintf (maxControlPayload + 1) text)) = true :=
  isRequest_iff.mpr ⟨rfl, (control_textFrame htype text).2⟩

/-- How the user interrupts a download, which the client concludes with its result and the server with
`BYE`. -/
def pausing : Interruption Frame where
  pause := isRequest .pause
  resume := isRequest .resume
  verdict := textFrame .result (ascii "status=ok")
  after := [emptyFrame .bye]

/-- A frame of the conversation itself. -/
theorem pausing_main {x : Side × Frame} (h : x.2.type ≠ .pause ∧ x.2.type ≠ .resume) :
    pausing.main x = true := by
  have hpause : pausing.pause x.2 = false :=
    Bool.eq_false_iff.mpr fun hp => h.1 (isRequest_iff.mp hp).1
  have hresume : pausing.resume x.2 = false :=
    Bool.eq_false_iff.mpr fun hr => h.2 (isRequest_iff.mp hr).1
  rw [Interruption.main, hpause, hresume]
  simp

/-! ### Stretches without requests -/

theorem interrupts_of_leads {fd : ℕ} {c : Clicks} {α : Type} {p q : ClientProg α} {s t : ClientSide}
    {T U : Transcript Frame} {R : α → ClientSide × Clicks → Transcript Frame → Bool → Prop}
    (h : ClientLeads fd p s T q t U) (hq : Interrupts (pausingSide fd) pausing R q (t, c) U false) :
    Interrupts (pausingSide fd) pausing R p (s, c) T false :=
  Leads.interrupts (e := fun s => (s, c)) (pausingSide_mirrors fd c) h hq

/-- What a worker hears before the stream and after the result. -/
theorem holds_of_leads {pr : Premises} {α : Type} {p q : ServerProg α} {s t : ServerSide}
    {T U : Transcript Frame} {R : α → ServerSide → Transcript Frame → Attention → Prop}
    {Late : α → ServerSide → Prop} (h : ServerLeads pr p s T q t U)
    (hlen : T.length < pausing.tail.length ∨ pausing.tail.length ≤ U.length)
    (hq : Process.Holds (attendingSide pr) pausing R Late q t U .free) :
    Process.Holds (attendingSide pr) pausing R Late p s T .free :=
  Leads.holds (e := id) (attendingSide_mirrors pr) h hlen hq

end UpdateFramework.System
