import UpdateFramework.System.Holding

/-!
# System — whether a pause is transparent

A session whose user clicks Pause and Resume, in every order of the steps of its two sides.  Its end
is that of a session without clicks if and only if at no point a pause is on its way to a server that
has sent `TRANSFER_DONE` (`pause_transparent_iff`): the server looks for a pause before each part of
the package and not behind the last, where it waits for the result.
-/

namespace UpdateFramework.System

open Collections Libc Process

/-- The two sides of a session whose user may pause. -/
abbrev PausedSession := Exchange clientInterface serverInterface Frame Client.AttemptResult Bool
  (ClientSide × Clicks) ServerSide

/-- An attempt of the client and a worker for it. -/
abbrev PausedSession.start (bound : ℕ) (cfg : ClientConfig) (current : Bytes) (s : ClientSide)
    (clicks : Clicks) (scfg : ServerConfig) (clientInfo : Bytes) (t : ServerSide) : PausedSession :=
  Exchange.start (Client.runAttempt bound cfg current) (s, clicks)
    (Server.handleClientSession scfg clientInfo) t

/-- Consecutive states of a session. -/
abbrev PausedSession.Run (fd : ℕ) (pr : Premises) : List PausedSession → Prop :=
  List.IsChain (Exchange.Step (pausingSide fd) (attendingSide pr))

/-- A pause is on its way to a server that has sent `TRANSFER_DONE`. -/
def PauseCrossed (c : PausedSession) : Prop :=
  (∃ x ∈ c.sent, x.1 = .right ∧ x.2.type = .transferDone) ∧
    ∃ f ∈ c.toRight, isRequest .pause f = true

instance : DecidablePred PauseCrossed := fun c =>
  inferInstanceAs (Decidable ((∃ x ∈ c.sent, x.1 = .right ∧ x.2.type = .transferDone) ∧
    ∃ f ∈ c.toRight, isRequest .pause f = true))

/-- A session that began with the server in `t` has ended as without pauses: but for the requests the
two have said what they say without them, and each has read all of it. -/
structure AsWithoutPauses (said : Transcript Frame) (latest content clientId : Bytes) (t : ServerSide)
    (c : PausedSession) : Prop where
  sent : c.sent.filter pausing.main = said
  toLeft : c.toLeft = []
  toRight : c.toRight = []
  left : c.left = .ret .success
  right : c.right = .ret true
  final : c.leftState.1.files.disk (.final latest) = some content
  part : c.leftState.1.files.disk (.part latest) = none
  row : readVersion clientId (c.leftState.1.files.disk .table) = some latest
  updatesServed : c.rightState.counters .updatesServed = t.counters .updatesServed + 1

/-! ### The conversation -/

section Conversation

variable {scfg : ServerConfig} {m : Manifest} {path content clientId current : Bytes} {cmp : ℤ}
  {part : Option Bytes}

theorem introduction_main {x : Side × Frame} (h : x ∈ introduction clientId current) :
    x.2.type ≠ .transferDone ∧ x.2.type ≠ .pause ∧ x.2.type ≠ .resume := by
  simp only [introduction, List.mem_cons, List.not_mem_nil, or_false] at h
  rcases h with rfl | rfl | rfl | rfl <;> simp [fieldFrame, textFrame, emptyFrame]

/-- What is said up to the end of the stream, and then. -/
theorem conversation_split (hnewer : cmp < 0) (hoffered : Offered scfg m path content)
    (hbeginning : part.getD [] <+: content) (clientId current : Bytes) :
    ∃ before : Transcript Frame, conversation scfg m content clientId current cmp part =
        before ++ (.right, lastFrame m) :: pausing.tail ∧
      ∀ x ∈ before, x.2.type ≠ .transferDone ∧ x.2.type ≠ .pause ∧ x.2.type ≠ .resume := by
  refine ⟨introduction clientId current ++
    (.right, textFrame .updateAvailable (Server.updateMeta scfg m)) ::
    (.left, fieldFrame .downloadReq (ascii "offset=" ++ decimal (kept part content.length).length)) ::
    said .right (dataFrames (cut scfg.chunkSize (content.drop (kept part content.length).length))),
    ?_, ?_⟩
  · rw [conversation_eq hnewer hoffered hbeginning, remaining, said_append]
    simp only [List.append_assoc, List.cons_append]
    rfl
  · intro x hx
    simp only [List.mem_append, List.mem_cons] at hx
    rcases hx with hx | rfl | rfl | hx
    · exact introduction_main hx
    · simp [textFrame]
    · simp [fieldFrame, textFrame]
    · obtain ⟨f, hf, rfl⟩ := List.mem_map.mp hx
      simp [dataFrames_type hf]

/-- None of it is a request. -/
theorem conversation_main (hnewer : cmp < 0) (hoffered : Offered scfg m path content)
    (hbeginning : part.getD [] <+: content) {x : Side × Frame}
    (h : x ∈ conversation scfg m content clientId current cmp part) : pausing.main x = true := by
  obtain ⟨before, hall, hbefore⟩ := conversation_split hnewer hoffered hbeginning clientId current
  rw [hall, List.mem_append, List.mem_cons] at h
  rcases h with h | rfl | h
  · exact pausing_main (hbefore x h).2
  · exact Interruption.main_right _
  · have htail : x = (.left, pausing.verdict) ∨ x = (.right, emptyFrame .bye) := by
      simpa [Interruption.tail, pausing] using h
    rcases htail with rfl | rfl
    · exact pausing_main (by simp [pausing, textFrame])
    · exact Interruption.main_right _

end Conversation

/-- Where what has been said is a beginning of the conversation, a pause has crossed its last part. -/
theorem pauseCrossed_of_crossed {before all : Transcript Frame} {done : Frame}
    (hall : all = before ++ (.right, done) :: pausing.tail) (hdone : done.type = .transferDone)
    {c : PausedSession} (h : Exchange.Crossed pausing all c) : PauseCrossed c := by
  obtain ⟨⟨rest, ⟨heard, hheard⟩, hsent⟩, hpause⟩ := h
  have hsame : c.sent.filter pausing.main ++ rest = (before ++ (.right, done) :: heard) ++ rest := by
    rw [hsent, hall, ← hheard, List.append_assoc, List.cons_append]
  have hbegun := List.append_cancel_right hsame
  have hmem : ((.right : Side), done) ∈ c.sent.filter pausing.main := by
    rw [hbegun]
    exact List.mem_append_right _ List.mem_cons_self
  exact ⟨⟨_, (List.mem_filter.mp hmem).1, rfl, hdone⟩, hpause⟩

theorem crossed_of_pauseCrossed {before all : Transcript Frame} {done : Frame}
    (hall : all = before ++ (.right, done) :: pausing.tail)
    (hbefore : ∀ x ∈ before, x.2.type ≠ .transferDone) {c : PausedSession}
    (hsent : c.sent.filter pausing.main <+: all) (h : PauseCrossed c) :
    Exchange.Crossed pausing all c := by
  obtain ⟨⟨⟨d, f⟩, hx, rfl, htype⟩, hpause⟩ := h
  obtain ⟨rest, hrest⟩ := hsent
  have hmem : ((.right : Side), f) ∈ c.sent.filter pausing.main :=
    List.mem_filter.mpr ⟨hx, Interruption.main_right f⟩
  refine ⟨⟨rest, ?_, hrest⟩, hpause⟩
  rcases List.append_eq_append_iff.mp (hrest.trans hall) with
    ⟨more, hmore, -⟩ | ⟨more, hmore, hmore'⟩
  · exact absurd htype (hbefore _ (hmore ▸ List.mem_append_left _ hmem))
  · cases more with
    | nil =>
        rw [List.append_nil] at hmore
        exact absurd htype (hbefore _ (hmore ▸ hmem))
    | cons y more =>
        obtain ⟨-, htail⟩ := List.cons.inj hmore'
        exact ⟨more, htail.symm⟩

/-! ### The session -/

/-- **Pauses are transparent exactly where none crosses the end of the stream.**  As long as no pause
is on its way to a server that has sent `TRANSFER_DONE`, the two say what they say without pauses and
can go on until both have ended.  A session that has ended has ended as one without pauses if and only
if there was no such pause; where there was, the server has given up without counting an update. -/
theorem pause_transparent_iff {scfg : ServerConfig} {cfg : ClientConfig} {pr : Premises}
    {path content : Bytes} {s : ClientSide} {t : ServerSide}
    (hadmitted : Admitted scfg pr cfg.clientId) (hcfg : Configured cfg)
    (hoffered : Offered scfg pr.manifest path content) (hready : Ready path content cfg.clientId t)
    (current : VersionText) {cmp : ℤ}
    (hcmp : verCompareText current.text pr.manifest.latestVersion = some cmp) (hnewer : cmp < 0)
    {part : Option Bytes} (hpart : s.files.disk (.part pr.manifest.latestVersion) = part)
    (hbeginning : part.getD [] <+: content)
    (htable : Writable cfg.clientId (s.files.disk .table)) {clicks : Clicks}
    (hbrief : ∀ looks, some looks ∈ clicks.rounds → looks * 100 < cfg.pauseTimeoutSec * 1000)
    {bound : ℕ} (hbound : content.length + clicks.rounds.length < bound) (fd : ℕ) (clientInfo : Bytes)
    {run : List PausedSession} {c d : PausedSession}
    (hc : c = .start bound cfg current.text s clicks scfg clientInfo t)
    (hrun : PausedSession.Run fd pr (c :: run))
    (hd : (c :: run).getLast (List.cons_ne_nil _ _) = d) :
    Acc (fun e d => Exchange.Step (pausingSide fd) (attendingSide pr) d e) d ∧
    ((∀ x ∈ c :: run, ¬ PauseCrossed x) →
      d.sent.filter pausing.main <+:
          conversation scfg pr.manifest content cfg.clientId current.text cmp part ∧
        (d.Ended ∨ ∃ e, Exchange.Step (pausingSide fd) (attendingSide pr) d e)) ∧
    (d.Ended →
      (AsWithoutPauses (conversation scfg pr.manifest content cfg.clientId current.text cmp part)
          pr.manifest.latestVersion content cfg.clientId t d ↔ ∀ x ∈ c :: run, ¬ PauseCrossed x) ∧
      ((∃ x ∈ c :: run, PauseCrossed x) → d.right = .ret false ∧
        d.rightState.counters .updatesServed = t.counters .updatesServed)) := by
  obtain ⟨table, hwritten, hread⟩ := htable.written hcfg.id
    ⟨pr.manifest.latestVersion, hoffered.advertisable.version, hoffered.latestVersion⟩
  have hleft := runAttempt_interrupts hoffered hcfg hpart hbeginning hwritten hbrief hbound hnewer fd
    current.text
  have hright := session_holds hadmitted hoffered hready current hcmp hnewer hbeginning clientInfo
  obtain ⟨before, hall, hbefore⟩ := conversation_split hnewer hoffered hbeginning cfg.clientId
    current.text
  obtain ⟨hgoes, hends⟩ := Exchange.interruptible_iff hleft hright
    (fun _ => conversation_main hnewer hoffered hbeginning) (List.cons_ne_nil _ _) hc hrun hd
  have hclear : (∀ x ∈ c :: run, ¬ PauseCrossed x) ↔ ∀ x ∈ c :: run, ¬ Exchange.Crossed pausing
      (conversation scfg pr.manifest content cfg.clientId current.text cmp part) x := by
    constructor
    · intro h x hx hcrossed
      exact h x hx (pauseCrossed_of_crossed hall rfl hcrossed)
    · intro h x hx hcrossed
      exact h x hx (crossed_of_pauseCrossed hall (fun y hy => (hbefore y hy).1) ((hgoes h).1 x hx)
        hcrossed)
  have hgave : d.Ended → (∃ x ∈ c :: run, PauseCrossed x) →
      d.right = .ret false ∧ d.rightState.counters .updatesServed = t.counters .updatesServed := by
    rintro he ⟨x, hx, hcrossed⟩
    obtain ⟨b, hb, rfl, hserved⟩ := (hends he).2 (by
      by_contra hnone
      exact hclear.mpr (fun y hy hlost => hnone ⟨y, hy, hlost⟩) x hx hcrossed)
    exact ⟨hb, hserved⟩
  refine ⟨(Exchange.wellFounded ..).apply d,
    fun h => ⟨(hgoes (hclear.mp h)).1 d (hd ▸ List.getLast_mem _), (hgoes (hclear.mp h)).2⟩,
    fun he => ⟨⟨fun hgood x hx hcrossed => ?_, fun h => ?_⟩, hgave he⟩⟩
  · obtain ⟨hfailed, -⟩ := hgave he ⟨x, hx, hcrossed⟩
    cases hgood.right.symm.trans hfailed
  · obtain ⟨hsent, ⟨rc, hrc, rfl, hinstalled⟩, ⟨b, hb, rfl, hserved⟩, htoLeft, htoRight⟩ :=
      (hends he).1.mpr (hclear.mp h)
    exact ⟨hsent, htoLeft, htoRight, hrc, hb, hinstalled.final, hinstalled.part,
      hinstalled.table ▸ hread, hserved⟩

/-! ### Two sessions of one click -/

/-- A client that has all of the package, and its whole session but for the digest. -/
def completeClient : ClientSide := ⟨.only (.part (ascii "1.5.0")) [1], false, 0⟩

/-- It wants nothing more of the package; its user clicks Pause and at once Resume. -/
def lateSession : PausedSession :=
  .start 5 .client001 version100.text completeClient ⟨[some 0], 0⟩ .shipped [] idleServer

/-- The server, which has nothing to send, has sent `TRANSFER_DONE` when `PAUSE` arrives, and `RESUME`
right behind it: it ends the session without `BYE`, and counts no update. -/
theorem pause_transparent_iff_late :
    ∃ run d, PausedSession.Run 3 premises150 (lateSession :: run) ∧
      (lateSession :: run).getLast (List.cons_ne_nil _ _) = d ∧ d.Ended ∧
      (∃ x ∈ run, x.right.returned = none ∧ x.toRight.map (·.type) = [.pause, .resume]) ∧
      d.right = .ret false ∧ (∀ x ∈ d.sent, x.2.type ≠ .bye) ∧
      d.rightState.counters .updatesServed = 0 ∧
      ¬ AsWithoutPauses (conversation .shipped premises150.manifest [1] (ascii "client_001")
        version100.text (-1) (some [1])) (ascii "1.5.0") [1] (ascii "client_001") idleServer d := by
  have hsome : ((Exchange.taking (pausingSide 3) (attendingSide premises150)
      (Exchange.inTurn [(.right, 2), (.left, 6), (.right, 6), (.left, 2), (.right, 4), (.left, 3),
        (.right, 11), (.left, 20), (.right, 2), (.left, 226)]) lateSession).map fun run =>
      let d := (lateSession :: run).getLast (List.cons_ne_nil _ _)
      (decide (∃ x ∈ run, x.right.returned = none ∧ x.toRight.map (·.type) = [.pause, .resume]),
        decide (∀ x ∈ d.sent, x.2.type ≠ .bye), d.rightState.counters .updatesServed,
        d.left.returned, d.right.returned)) =
      some (true, true, 0, some .success, some false) := by
    decide +kernel
  obtain ⟨run, hrun, hseen⟩ := Option.map_eq_some_iff.mp hsome
  simp only [Prod.mk.injEq, decide_eq_true_eq] at hseen
  obtain ⟨hrequests, hbye, hserved, hleft, hright⟩ := hseen
  have hfailed := Prog.ret_of_returned hright
  refine ⟨run, _, Exchange.taking_chain hrun, rfl, ⟨⟨_, Prog.ret_of_returned hleft⟩, _, hfailed⟩,
    hrequests, hfailed, hbye, hserved, fun h => ?_⟩
  cases h.right.symm.trans hfailed

/-- A client that has nothing, whose user clicks Pause when it has asked for the package, and Resume
some time later. -/
def heldSession : PausedSession :=
  .start 5 .client001 version100.text newClient ⟨[some 2], 0⟩ .shipped [] idleServer

/-- The server finds the pause before it has sent anything, and holds. -/
theorem pause_transparent_iff_held :
    ∃ run d, PausedSession.Run 3 premises150 (heldSession :: run) ∧
      (heldSession :: run).getLast (List.cons_ne_nil _ _) = d ∧
      d.sent.map (·.2.type) = [.hello, .auth, .authOk, .versionReq, .updateAvailable, .downloadReq,
        .pause, .resume, .data, .transferDone, .result, .bye] ∧
      AsWithoutPauses (conversation .shipped premises150.manifest [1] (ascii "client_001")
        version100.text (-1) none) (ascii "1.5.0") [1] (ascii "client_001") idleServer d := by
  have hsome : ((Exchange.taking (pausingSide 3) (attendingSide premises150)
      (Exchange.inTurn [(.left, 4), (.right, 1), (.left, 2), (.right, 6), (.left, 2), (.right, 5),
        (.left, 29), (.right, 14), (.left, 4), (.right, 6), (.left, 10), (.right, 4), (.left, 216),
        (.right, 1)]) heldSession).map fun run =>
      let d := (heldSession :: run).getLast (List.cons_ne_nil _ _)
      (decide (∀ x ∈ heldSession :: run, ¬ PauseCrossed x), d.sent.map (·.2.type),
        d.left.returned, d.right.returned)) =
      some (true, [.hello, .auth, .authOk, .versionReq, .updateAvailable, .downloadReq, .pause,
        .resume, .data, .transferDone, .result, .bye], some .success, some true) := by
    decide +kernel
  obtain ⟨run, hrun, hseen⟩ := Option.map_eq_some_iff.mp hsome
  simp only [Prod.mk.injEq, decide_eq_true_eq] at hseen
  obtain ⟨hclear, htypes, hleft, hright⟩ := hseen
  have hbrief : ∀ looks, some looks ∈ (⟨[some 2], 0⟩ : Clicks).rounds →
      looks * 100 < ClientConfig.client001.pauseTimeoutSec * 1000 := by
    intro looks hlooks
    rw [Option.some.inj (List.mem_singleton.mp hlooks)]
    decide
  refine ⟨run, _, Exchange.taking_chain hrun, rfl, htypes, ?_⟩
  obtain ⟨-, -, hends⟩ := pause_transparent_iff admitted001 configured001 offered150
    idleServer_ready version100 (show _ = some (-1) by decide) (by decide)
    (show newClient.files.disk (.part (ascii "1.5.0")) = none from rfl) List.nil_prefix
    (newClient_writable _) hbrief (show _ < 5 by decide) 3 [] rfl (Exchange.taking_chain hrun) rfl
  exact (hends ⟨⟨_, Prog.ret_of_returned hleft⟩, _, Prog.ret_of_returned hright⟩).1.mpr hclear

end UpdateFramework.System
