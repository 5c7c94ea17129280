import UpdateFramework.Client.Downloader
import UpdateFramework.Libc.Streams
import UpdateFramework.Process.Leads
import UpdateFramework.Server.Worker

/-!
# System — the two sides of a connection where nothing fails

The client process and a server that sessions run on, as agents: files, locks and memory do what
they are asked for, nobody requests a stop or a pause, and the connection delivers every frame.  Files
and everything else a side keeps to itself are its state.
-/

namespace UpdateFramework.System

open Libc Process

/-! ### Frames -/

/-- What `proto_recv` makes of a frame that arrives whole. -/
def arrival (payloadCap dataPayloadCap : ℕ) (f : Frame) : RecvResult :=
  if f.payload.length ≤ allowedLen f.type dataPayloadCap ∧ f.payload.length ≤ payloadCap then .ok f
  else .tooLarge

/-- A frame `recv_control` takes. -/
def Control (f : Frame) : Prop := f.type ≠ .data ∧ f.payload.length ≤ maxControlPayload

theorem Control.sendable {f : Frame} (h : Control f) : sendable f = true := by
  rw [UpdateFramework.sendable, Bool.or_eq_true, decide_eq_true_eq, decide_eq_true_eq]
  exact .inr h.2

theorem Control.arrival {f : Frame} (h : Control f) :
    arrival (maxControlPayload + 1) 0 f = .ok f := by
  have hallowed : allowedLen f.type 0 = maxControlPayload := if_neg h.1
  rw [System.arrival, hallowed, if_pos ⟨h.2, Nat.le_succ_of_le h.2⟩]

theorem length_cstr_le (s : Bytes) : (cstr s).length ≤ s.length :=
  (List.takeWhile_prefix _).length_le

theorem control_textFrame {type : MsgType} (htype : type ≠ .data) (text : Bytes) :
    Control (textFrame type (snprintf (maxControlPayload + 1) text)) := by
  refine ⟨htype, (length_cstr_le _).trans ?_⟩
  rw [snprintf, List.length_take]
  exact Nat.min_le_left ..

theorem control_emptyFrame {type : MsgType} (htype : type ≠ .data) : Control (emptyFrame type) :=
  ⟨htype, Nat.zero_le _⟩

/-! ### The client -/

/-- What the client process keeps. -/
structure ClientSide where
  files : FileSystem Path
  /-- `resume_retry_active` -/
  resumeRetry : Bool
  /-- The connections opened. -/
  connections : ℕ

/-- The client, with `fd` for its connections. -/
def clientSide (fd : ℕ) : Agent clientInterface Frame ClientSide := fun s o =>
  match o with
  | .file o => .does (s.files.ok o).1 { s with files := (s.files.ok o).2 }
  | .protoSend f => if sendable f then .sends f true s else .does false s
  | .protoRecv payloadCap dataPayloadCap => .takes fun f => (arrival payloadCap dataPayloadCap f, s)
  | .netConnectTcp => .opens (some fd) { s with connections := s.connections + 1 }
  | .tlsConnectConnection _ => .does true s
  | .activeFdWasSignalClosed _ => .does false s
  | .stopRequested => .does false s
  | .consumePauseRequest => .does false s
  | .consumeResumeRequest => .does false s
  | .resumeRetryActive => .does s.resumeRetry s
  | .setResumeRetryActive active => .does () { s with resumeRetry := active }
  | .malloc _ => .does true s
  | .connClose _ => .does () s
  | .sslFree => .does () s
  | .setActiveFd _ => .does () s
  | .setPaused => .does () s
  | .free => .does () s
  | .usleep _ => .does () s

/-- What does not ask whether the user has clicked. -/
def unclicked : ClientOp → Prop
  | .consumePauseRequest | .consumeResumeRequest => False
  | _ => True

/-- The course of the client through a stretch that does not look for clicks. -/
abbrev ClientLeads (fd : ℕ) {α : Type} : ClientProg α → ClientSide → Transcript Frame →
    ClientProg α → ClientSide → Transcript Frame → Prop :=
  Leads (clientSide fd) .left unclicked

section ClientRules

variable {fd : ℕ} {α : Type} {q : ClientProg α} {s t : ClientSide} {T U : Transcript Frame}

/-- A part of the program that works on files is carried out as it is on its own. -/
theorem client_file {γ : Type} {p : Prog (stdio Path) γ} {k : γ → ClientProg α} {a : γ}
    {fs : FileSystem Path} (h : FileSystem.eval p s.files = some (a, fs))
    (hk : ClientLeads fd (k a) { s with files := fs } T q t U) :
    ClientLeads fd (Client.file p >>= k) s T q t U := by
  induction p generalizing s with
  | ret b =>
      cases h
      exact hk
  | call o p ih => exact .does trivial rfl (ih (s.files.ok o).1 h hk)
  | spin => cases h

theorem client_sends {f : Frame} (h : Control f) {k : Bool → ClientProg α}
    (hk : ClientLeads fd (k true) s T q t U) :
    ClientLeads fd (.call (ClientOp.protoSend f) k) s ((.left, f) :: T) q t U :=
  .sends trivial (if_pos h.sendable) hk

theorem client_recvControl {f : Frame} (h : Control f)
    {k : Option (MsgType × Bytes) → ClientProg α}
    (hk : ClientLeads fd (k (some (f.type, f.payload))) s T q t U) :
    ClientLeads fd (Client.recvControl >>= k) s ((.right, f) :: T) q t U := by
  refine .takes trivial rfl ?_
  simp only [h.arrival]
  exact hk

theorem client_closes {ssl : Bool} {k : Unit → ClientProg α}
    (hk : ClientLeads fd (k ()) s T q t U) :
    ClientLeads fd (Client.closeAttemptConnection fd ssl >>= k) s T q t U :=
  .does trivial rfl (.does trivial rfl (.does trivial rfl hk))

/-- A round of a sleep nobody interrupts. -/
theorem client_sleepRound (fd : ℕ) (s : ClientSide) (T : Transcript Frame) {ms slept : ℕ}
    (h : slept < ms) : ∃ next, slept < next ∧ next ≤ ms ∧
    ClientLeads fd (Client.sleepRound ms slept) s T (.ret (.inl next)) s T := by
  unfold Client.sleepRound
  rw [if_neg (not_not_intro h)]
  refine ⟨_, ?_, ?_, .does trivial rfl (.does trivial rfl (.refl ..))⟩
  · split
    · omega
    · omega
  · split
    · omega
    · omega

/-- A sleep nobody interrupts. -/
theorem client_sleeps (ms : ℕ) {k : Bool → ClientProg α}
    (hk : ClientLeads fd (k false) s T q t U) :
    ClientLeads fd (Client.interruptibleSleepMs ms >>= k) s T q t U := by
  have hrounds : ∀ n slept, ms < slept + n → slept ≤ ms →
      ClientLeads fd (Prog.iterate n (Client.sleepRound ms) slept) s T (.ret ()) s T := by
    intro n
    induction n with
    | zero =>
        intro slept hlt hle
        omega
    | succ n ih =>
        intro slept hlt hle
        rw [Prog.iterate]
        rcases Nat.lt_or_ge slept ms with hless | hdone
        · obtain ⟨next, hnext, hmax, hround⟩ := client_sleepRound fd s T hless
          exact (hround.bind _).trans (ih next (by omega) hmax)
        · unfold Client.sleepRound
          rw [if_pos (not_lt.mpr hdone)]
          exact .refl ..
  rw [Client.interruptibleSleepMs, Prog.bind_bind]
  exact ((hrounds (ms + 1) 0 (by omega) (Nat.zero_le ms)).bind _).trans (.does trivial rfl hk)

end ClientRules

/-! ### The server -/

/-- What the server keeps between sessions. -/
structure ServerSide where
  files : FileSystem Bytes
  /-- `g_active_client_ids` -/
  slots : List Bytes
  counters : Counter → ℕ

/-- What does not change: the published manifest, the name in the peer's certificate, and
`auth_client_registered`. -/
structure Premises where
  manifest : Manifest
  certName : Bytes
  registered : Bytes → Bytes → Bool

/-- A worker of the server. -/
def serverSide (pr : Premises) : Agent serverInterface Frame ServerSide := fun s o =>
  match o with
  | .file o => .does (s.files.ok o).1 { s with files := (s.files.ok o).2 }
  | .protoSend f => if sendable f then .sends f true s else .does false s
  | .protoRecv payloadCap dataPayloadCap => .takes fun f => (arrival payloadCap dataPayloadCap f, s)
  | .select _ => .polls fun there => (if there then .ready else .timedOut, s)
  | .tlsPeerCommonName _ => .does (some pr.certName) s
  | .authClientRegistered registry clientId => .does (pr.registered registry clientId) s
  | .reserveActiveClientId clientId => .does (UpdateFramework.reserveActiveClientId s.slots clientId).1
      { s with slots := (UpdateFramework.reserveActiveClientId s.slots clientId).2 }
  | .releaseActiveClientId clientId => .does ()
      { s with slots := UpdateFramework.releaseActiveClientId s.slots clientId }
  | .vmGetSnapshot => .does (some pr.manifest) s
  | .statsAdd c n => .does ()
      { s with counters := Function.update s.counters c (s.counters c + n) }
  | .statsSub c n => .does ()
      { s with counters := Function.update s.counters c (s.counters c - n) }
  | .statsActiveClientUpdate _ _ => .does () s
  | .malloc _ => .does true s
  | .free => .does () s
  | .usleep _ => .does () s
  | .logMsg _ _ => .does () s

/-- The course of a worker through a stretch that does not look for messages. -/
abbrev ServerLeads (pr : Premises) {α : Type} : ServerProg α → ServerSide → Transcript Frame →
    ServerProg α → ServerSide → Transcript Frame → Prop :=
  Leads (serverSide pr) .right fun _ => True

section ServerRules

variable {pr : Premises} {α : Type} {q : ServerProg α} {s t : ServerSide} {T U : Transcript Frame}

theorem server_sends {f : Frame} (h : sendable f = true) {k : Bool → ServerProg α}
    (hk : ServerLeads pr (k true) s T q t U) :
    ServerLeads pr (.call (ServerOp.protoSend f) k) s ((.right, f) :: T) q t U :=
  .sends trivial (if_pos h) hk

theorem server_recvControl {f : Frame} (h : Control f)
    {k : Option (MsgType × Bytes) → ServerProg α}
    (hk : ServerLeads pr (k (some (f.type, f.payload))) s T q t U) :
    ServerLeads pr (Server.recvControl >>= k) s ((.left, f) :: T) q t U := by
  refine .takes trivial rfl ?_
  simp only [h.arrival]
  exact hk

end ServerRules

end UpdateFramework.System
