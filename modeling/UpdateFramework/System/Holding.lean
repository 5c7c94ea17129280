import UpdateFramework.System.Clicks
import UpdateFramework.System.Pausing

/-!
# System — a stream that is held

The worker's part of a session whose user pauses.  At the head of each round of the stream it looks
for a request; where it finds a pause it holds until it is asked for the rest, and goes on with what
it would have sent.  Where it waits for the result of the client, a pause makes it give up
(`session_holds`).
-/

namespace UpdateFramework.System

open Collections Libc Process Server

section Stream

variable {pr : Premises} {α : Type} {s : ServerSide} {U : Transcript Frame} {fp : Handle}
  {size chunk delay hold sent : ℕ} {text : Bytes} {Late : Bool → ServerSide → Prop}

theorem server_file {γ : Type} {p : Prog (stdio Bytes) γ} {k : γ → ServerProg α} {a : γ}
    {fs : FileSystem Bytes} {q : ServerProg α} {t : ServerSide} {T U : Transcript Frame}
    (h : FileSystem.eval p s.files = some (a, fs))
    (hk : ServerLeads pr (k a) { s with files := fs } T q t U) :
    ServerLeads pr (Server.file p >>= k) s T q t U := by
  induction p generalizing s with
  | ret b =>
      cases h
      exact hk
  | call o p ih => exact .does trivial rfl (ih (s.files.ok o).1 h hk)
  | spin => cases h

/-- A worker that looks for a request goes on in any case. -/
theorem handlePauseIfRequested_holds (hhold : 1 ≤ hold) (hU : pausing.Open U)
    {R : Bool → ServerSide → Transcript Frame → Attention → Prop} (hR : R true s U .free) :
    Process.Holds (attendingSide pr) pausing R Late (handlePauseIfRequested hold sent) s U .free := by
  unfold handlePauseIfRequested recvControlIfReady
  simp only [Prog.call_bind, Prog.ret_bind]
  refine holds_asks (attendingSide_asks pr s) hU hR ?_
  refine holds_notices rfl fun f hpause => ?_
  have htype := (isRequest_iff.mp hpause).1
  simp only [(isRequest_control (by decide) hpause).arrival, htype]
  refine (holds_does rfl).mpr ?_
  refine holds_awaits (attendingSide_awaits (by omega) pr s) ?_
  refine holds_resumes rfl fun f hresume => ?_
  have htype := (isRequest_iff.mp hresume).1
  simp only [(isRequest_control (by decide) hresume).arrival, htype]
  exact (holds_does rfl).mpr hR

/-- A round of the stream once it has looked for a request. -/
def sendPart (fp : Handle) (size chunkSize packetDelayUs sent : ℕ) : ServerProg (ℕ ⊕ Bool) := do
  let want := min (size - sent) chunkSize
  let (buf, ferror) ← file (fread fp want)
  if buf.length = 0 then .ret (.inr false)
  else
    let sent := sent + buf.length
    let flags := if sent = size then flagLastChunk else 0
    if ¬ (← Server.protoSend ⟨.data, flags, buf⟩) then .ret (.inr false)
    else
      statsAdd .bytesSent buf.length
      if packetDelayUs > 0 ∧ sent < size then usleep packetDelayUs
      if buf.length < want ∧ ferror then .ret (.inr false)
      else .ret (.inl sent)

theorem streamRound_eq (fp : Handle) (size chunkSize packetDelayUs pauseHoldTimeoutSec sent : ℕ) :
    streamRound fp size chunkSize packetDelayUs pauseHoldTimeoutSec sent =
      if ¬ sent < size then .ret (.inr true)
      else handlePauseIfRequested pauseHoldTimeoutSec sent >>= fun ok =>
        if ¬ ok then .ret (.inr false) else sendPart fp size chunkSize packetDelayUs sent := rfl

/-- It sends the next part. -/
theorem sendPart_leads (hpos : 0 < chunk) (hr : s.files.Reading fp text) (hne : text ≠ [])
    (hsize : sent + text.length = size) {T : Transcript Frame} :
    ∃ t : ServerSide, t.files.Reading fp (text.drop chunk) ∧ t.files.disk = s.files.disk ∧
      SameBooks s t ∧
      ServerLeads pr (sendPart fp size chunk delay sent) s
        ((.right, ⟨.data, if text.drop chunk = [] then flagLastChunk else 0, text.take chunk⟩) :: T)
        (.ret (.inl (sent + (text.take chunk).length))) t T := by
  obtain ⟨hnonempty, hpart, hlen, hfirst⟩ := first_part hpos hne
  have hwant : text.take (min (size - sent) chunk) = text.take chunk := by
    rw [← hsize, Nat.add_sub_cancel_left, Nat.min_comm, ← List.take_take, List.take_length]
  have hleft : text.drop (min (size - sent) chunk) = text.drop chunk := by
    rcases Nat.le_total text.length chunk with hle | hle
    · rw [← hsize, Nat.add_sub_cancel_left, Nat.min_eq_left hle, List.drop_length,
        List.drop_eq_nil_of_le hle]
    · rw [← hsize, Nat.add_sub_cancel_left, Nat.min_eq_right hle]
  have hlast : sent + (text.take chunk).length = size ↔ text.drop chunk = [] := by
    rw [← List.length_eq_zero_iff]
    omega
  obtain ⟨fs, hok, hr', hd⟩ := hr.fread (min (size - sent) chunk)
  rw [hwant] at hok
  rw [hleft] at hr'
  refine ⟨⟨fs, s.slots, Function.update s.counters .bytesSent
    (s.counters .bytesSent + (text.take chunk).length)⟩, hr', hd, ⟨rfl, fun c hc => ?_⟩, ?_⟩
  · exact Function.update_of_ne hc ..
  · unfold sendPart
    refine server_file (a := (text.take chunk, false)) (congrArg some hok) ?_
    simp only [if_neg (Nat.ne_of_gt hfirst), hlast, Prog.call_bind, Prog.ret_bind, and_false,
      Bool.false_eq_true, if_false]
    refine server_sends rfl ?_
    rw [if_neg (not_not_intro rfl)]
    refine .does trivial rfl ?_
    split_ifs
    · exact .does trivial rfl (.refl ..)
    · exact .refl ..

/-- A round of the stream. -/
theorem streamRound_holds (hpos : 0 < chunk) (hhold : 1 ≤ hold) (hr : s.files.Reading fp text)
    (hne : text ≠ []) (hsize : sent + text.length = size) (done : Frame) :
    Process.Holds (attendingSide pr) pausing
      (fun r t U h => r = .inl (sent + (text.take chunk).length) ∧ h = .free ∧
        U = remaining chunk done (text.drop chunk) ∧ t.files.Reading fp (text.drop chunk) ∧
        t.files.disk = s.files.disk ∧ SameBooks s t) (fun _ _ => False)
      (streamRound fp size chunk delay hold sent) s (remaining chunk done text) .free := by
  have hless : sent < size := by
    have := List.length_pos_iff.mpr hne
    omega
  rw [streamRound_eq, if_neg (not_not_intro hless)]
  refine holds_bind (handlePauseIfRequested_holds hhold (remaining_open ..) ?_)
  obtain ⟨t, hr', hd, hbooks, hleads⟩ := sendPart_leads hpos hr hne hsize
  rw [if_neg (not_not_intro rfl), remaining_part hpos done hne]
  refine holds_of_leads hleads (.inr ?_) ⟨rfl, rfl, rfl, hr', hd, hbooks⟩
  exact (remaining_length chunk done _)

/-- The loop sends what is left of the file, however often it is held. -/
theorem streamRounds_holds (hpos : 0 < chunk) (hhold : 1 ≤ hold) (hr : s.files.Reading fp text)
    (hsize : sent + text.length = size) (done : Frame) {n : ℕ} (hn : text.length < n) :
    Process.Holds (attendingSide pr) pausing
      (fun r t U h => r = true ∧ h = .free ∧ U = remaining chunk done [] ∧ t.files.Reading fp [] ∧
        t.files.disk = s.files.disk ∧ SameBooks s t) Late
      (Prog.iterate n (streamRound fp size chunk delay hold) sent) s (remaining chunk done text)
      .free := by
  refine holds_iterate _
    (fun n sent t U h => h = .free ∧ ∃ text, U = remaining chunk done text ∧
      t.files.Reading fp text ∧ sent + text.length = size ∧ text.length < n ∧
      t.files.disk = s.files.disk ∧ SameBooks s t)
    ?_ ?_ n ⟨rfl, text, rfl, hr, hsize, hn, rfl, .refl s⟩
  · rintro sent t U h ⟨-, text, -, -, -, hn, -⟩
    exact Nat.not_lt_zero _ hn
  · rintro n sent t U h ⟨rfl, text, rfl, hr, hsize, hn, hd, hbooks⟩
    by_cases hne : text = []
    · subst hne
      obtain rfl : sent = size := hsize
      rw [streamRound_eq, if_pos (Nat.lt_irrefl sent)]
      exact ⟨rfl, rfl, rfl, hr, hd, hbooks⟩
    · obtain ⟨-, -, hlen, hfirst⟩ := first_part hpos hne
      refine (streamRound_holds hpos hhold hr hne hsize done).post ?_ fun _ _ => False.elim
      rintro r u U h ⟨rfl, rfl, rfl, hr', hd', hbooks'⟩
      exact ⟨rfl, text.drop chunk, rfl, hr', by omega, by omega, hd'.trans hd, hbooks.trans hbooks'⟩

/-- `pkgStreamFile` after its loop. -/
def closeStream (fp : Handle) (path : Bytes) (size offset chunkSize packetDelayUs : ℕ) (rc : Bool) :
    ServerProg Bool := do
  free
  let _ ← file (fclose fp)
  if rc then
    logMsg .info (ascii "PACKAGE_STREAM complete path=" ++ path ++ ascii " bytes=" ++
      decimal (size - offset) ++ ascii " offset=" ++ decimal offset ++ ascii " chunk=" ++
      decimal chunkSize ++ ascii " delay_us=" ++ decimal packetDelayUs)
  .ret rc

/-- Up to the loop. -/
theorem pkgStreamFile_opens {path content : Bytes} {offset : ℕ}
    (hfile : s.files.disk path = some content) (ho : offset ≤ content.length)
    (hc : minChunkSize ≤ chunk ∧ chunk ≤ maxChunkSize) (delay hold : ℕ) (pr : Premises)
    (T : Transcript Frame) :
    ∃ fs : FileSystem Bytes, fs.Reading s.files.fresh (content.drop offset) ∧
      fs.disk = s.files.disk ∧
      ServerLeads pr (pkgStreamFile path offset chunk delay hold) s T
        (Prog.iterate (content.length - offset + 1)
            (streamRound s.files.fresh content.length chunk delay hold) offset >>=
          closeStream s.files.fresh path content.length offset chunk delay)
        { s with files := fs } T := by
  obtain ⟨fs₁, fs₂, hopen, hseek, hr, hd⟩ := FileSystem.fopen_fseeko hfile offset
  have hguard : ¬ (offset > content.length ∨ chunk < minChunkSize ∨ chunk > maxChunkSize) := by
    omega
  have hstat : s.files.ok (.stat path) = (some content.length, s.files) := by
    simp only [FileSystem.ok, hfile, Option.map_some]
  refine ⟨fs₂, hr, hd, ?_⟩
  unfold pkgStreamFile pkgFileSize
  refine server_file (a := some content.length) (congrArg some hstat) ?_
  simp only [if_neg hguard]
  refine server_file (s := ⟨s.files, _, _⟩) (a := some s.files.fresh) (congrArg some hopen) ?_
  dsimp only
  refine server_file (s := ⟨fs₁, _, _⟩) (a := true) (congrArg some hseek) ?_
  simp only [Prog.call_bind, Prog.ret_bind]
  rw [if_neg (not_not_intro trivial)]
  refine .does trivial rfl ?_
  rw [if_neg (not_not_intro rfl)]
  exact .refl ..

/-- The file is closed, and the worker says so. -/
theorem closeStream_leads (hr : s.files.Reading fp text) (path : Bytes) (size offset chunk delay : ℕ)
    (pr : Premises) (T : Transcript Frame) :
    ∃ fs : FileSystem Bytes, fs.disk = s.files.disk ∧
      ServerLeads pr (closeStream fp path size offset chunk delay true) s T (.ret true)
        { s with files := fs } T := by
  obtain ⟨fs, hclose, hd⟩ := hr.fclose
  refine ⟨fs, hd, ?_⟩
  unfold closeStream
  simp only [Prog.call_bind, Prog.ret_bind]
  refine .does trivial rfl ?_
  refine server_file (a := true) (congrArg some hclose) ?_
  rw [if_pos trivial]
  exact .does trivial rfl (.refl ..)

/-- The package goes out from the offset on, however often it is held. -/
theorem pkgStreamFile_holds {path content : Bytes} {offset : ℕ}
    (hfile : s.files.disk path = some content) (ho : offset ≤ content.length)
    (hc : minChunkSize ≤ chunk ∧ chunk ≤ maxChunkSize) (hhold : 1 ≤ hold) (delay : ℕ) (done : Frame) :
    Process.Holds (attendingSide pr) pausing
      (fun r t U h => r = true ∧ h = .free ∧ U = remaining chunk done [] ∧
        t.files.disk = s.files.disk ∧ SameBooks s t) Late
      (pkgStreamFile path offset chunk delay hold) s (remaining chunk done (content.drop offset))
      .free := by
  have hpos : 0 < chunk := Nat.lt_of_lt_of_le (by decide) hc.1
  have hsize : offset + (content.drop offset).length = content.length := by
    rw [List.length_drop]
    exact Nat.add_sub_cancel' ho
  obtain ⟨fs, hr, hd, hleads⟩ := pkgStreamFile_opens hfile ho hc delay hold pr
    (remaining chunk done (content.drop offset))
  refine holds_of_leads hleads (.inr (remaining_length ..)) (holds_bind ((streamRounds_holds
    (s := { s with files := fs }) hpos hhold hr hsize done
    (show _ < content.length - offset + 1 by omega)).post ?_ fun _ _ h => h))
  rintro r t U h ⟨rfl, rfl, rfl, hr', hd', hbooks⟩
  obtain ⟨fs', hclosed, hclose⟩ := closeStream_leads hr' path content.length offset chunk delay pr
    (remaining chunk done [])
  refine holds_of_leads hclose (.inr (remaining_length ..)) ?_
  exact ⟨rfl, rfl, rfl, hclosed.trans (hd'.trans hd), hbooks.slots, hbooks.counters⟩

end Stream

/-! ### A session -/

section Session

variable {pr : Premises} {scfg : ServerConfig} {path content : Bytes} {s : ServerSide}

/-- After the stream, the result; or a pause that has crossed the end of the stream. -/
theorem afterStream_holds {t : ServerSide} (hpackage : t.files.disk path = some content)
    (m : Manifest) (clientId : Bytes) (offset chunk : ℕ) :
    Process.Holds (attendingSide pr) pausing
      (Finished fun b u => b = true ∧ Transferred path content (ascii "ok") t.streamed u)
      (fun b u => b = false ∧ u = t.streamed)
      (afterStream m clientId offset true) t (remaining chunk (lastFrame m) []) .free := by
  obtain ⟨u, hu, hconclude⟩ := concludeTransfer_leads (s := t.streamed) m clientId offset (.inl rfl)
    hpackage
  have hverdict : arrival (maxControlPayload + 1) 0 pausing.verdict = .ok pausing.verdict :=
    Control.arrival (f := pausing.verdict) ⟨by decide, by decide⟩
  unfold afterStream
  rw [remaining_nil]
  refine (holds_does rfl).mpr ?_
  rw [if_neg (not_not_intro rfl)]
  refine holds_of_leads (finishTransfer_leads m clientId offset) (.inr (Nat.le_refl _)) ?_
  refine holds_judged rfl ?_ fun f hpause => ?_
  · dsimp only
    rw [hverdict]
    exact holds_of_leads hconclude (.inl (by decide)) ⟨rfl, rfl, rfl, hu⟩
  · have htype := (isRequest_iff.mp hpause).1
    dsimp only
    rw [(isRequest_control (by decide) hpause).arrival]
    change Quits _ _ (concludeTransfer m clientId offset (some (f.type, f.payload))) t.streamed
    rw [htype]
    exact ⟨rfl, rfl⟩

/-- **The server's side of a session with pauses**: it keeps to the conversation, and counts the update
if the client reports that it has it; where a pause has crossed the end of the stream it gives up. -/
theorem session_holds {clientId : Bytes} {cmp : ℤ} {part : Option Bytes}
    (hadmitted : Admitted scfg pr clientId) (hoffered : Offered scfg pr.manifest path content)
    (hready : Ready path content clientId s) (v : VersionText)
    (hcmp : verCompareText v.text pr.manifest.latestVersion = some cmp) (hnewer : cmp < 0)
    (hbeginning : part.getD [] <+: content) (clientInfo : Bytes) :
    Process.Holds (attendingSide pr) pausing
      (Finished fun b t => b = true ∧
        t.counters .updatesServed = s.counters .updatesServed + 1)
      (fun b t => b = false ∧ t.counters .updatesServed = s.counters .updatesServed)
      (handleClientSession scfg clientInfo) s
      (conversation scfg pr.manifest content clientId v.text cmp part) .free := by
  have hoffset := length_kept_le part content.length
  have hpackage : (s.reserved clientId).transferring.files.disk path = some content := hready.package
  have hhold : 1 ≤ scfg.pauseHoldTimeoutSec := scfg.pauseHold_range.1
  have hlength : ∀ rest, pausing.tail.length ≤
      (remaining scfg.chunkSize (lastFrame pr.manifest) rest).length := remaining_length _ _
  rw [conversation_eq hnewer hoffered hbeginning]
  refine holds_of_leads (session_leads hadmitted hready v hcmp clientInfo) (.inr ?_) (holds_bind ?_)
  · exact (hlength _).trans (Nat.le_add_right _ 2)
  · rw [answerVersion, if_neg (not_le.mpr hnewer)]
    refine holds_of_leads (offerUpdate_leads hoffered clientId v.text hoffset) (.inr (hlength _)) ?_
    refine holds_bind ((pkgStreamFile_holds hpackage hoffset scfg.chunkSize_range hhold
      scfg.packetDelayUs (lastFrame pr.manifest)).post ?_ fun _ _ h => h)
    rintro r t U h ⟨rfl, rfl, rfl, hd, hbooks⟩
    have hserved : t.counters .updatesServed = s.counters .updatesServed :=
      hbooks.counters .updatesServed (by decide)
    refine (afterStream_holds (hd ▸ hpackage) _ clientId _ _).post ?_ ?_
    · rintro b u U h ⟨rfl, rfl, rfl, hu⟩
      exact ⟨rfl, rfl, rfl, hu.updatesServed.trans (congrArg (· + 1) hserved)⟩
    · rintro b u ⟨rfl, rfl⟩
      exact ⟨rfl, hserved⟩

end Session

end UpdateFramework.System
