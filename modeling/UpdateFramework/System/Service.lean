import UpdateFramework.Client.TableRows
import UpdateFramework.Common.Sha256Digest
import UpdateFramework.System.Sides
import UpdateFramework.System.Stream

/-!
# System — a session, as the server has it

What `handle_client_session` says to a client it admits, from `HELLO` to `BYE`, where nothing fails:
`UPTODATE` to a client with the latest version, the package from the offset on to one with an older
version (`session_plays`).  Afterwards the table of active clients is as it was, and the counter of the
result is one higher.
-/

namespace UpdateFramework.System

open Collections Libc Process Server

/-! ### Transcripts -/

/-- A text field in a control frame. -/
def fieldFrame (type : MsgType) (text : Bytes) : Frame :=
  textFrame type (snprintf (maxControlPayload + 1) text)

/-- A conversation up to the version of the client. -/
def introduction (clientId current : Bytes) : Transcript Frame :=
  [(.right, textFrame .hello (ascii "srv=updctl;proto=1")),
    (.left, fieldFrame .auth (ascii "id=" ++ clientId)), (.right, emptyFrame .authOk),
    (.left, fieldFrame .versionReq (ascii "cur=" ++ current))]

/-- What is left of it where the version is the latest. -/
def dismissal (m : Manifest) : Transcript Frame :=
  [(.right, fieldFrame .uptodate (ascii "latest=" ++ m.latestVersion)), (.right, emptyFrame .bye)]

/-- What is left of it where there is a newer version: `rest` is what the package has from `offset`
on, and `status` what the client makes of it. -/
def delivery (cfg : ServerConfig) (m : Manifest) (offset : ℕ) (rest status : Bytes) :
    Transcript Frame :=
  (.right, textFrame .updateAvailable (updateMeta cfg m)) ::
    (.left, fieldFrame .downloadReq (ascii "offset=" ++ decimal offset)) ::
    (said .right (dataFrames (cut cfg.chunkSize rest)) ++
      [(.right, fieldFrame .transferDone (ascii "sha256=" ++ m.checksumSha256)),
        (.left, textFrame .result (ascii "status=" ++ status)), (.right, emptyFrame .bye)])

theorem control_fieldFrame {type : MsgType} (htype : type ≠ .data) (text : Bytes) :
    Control (fieldFrame type text) :=
  control_textFrame htype text

/-- A field that fits is sent as it is. -/
theorem fieldFrame_payload (type : MsgType) {key value : Bytes} (h : PlainPair (key, value))
    (hlen : (kvPair (key, value)).length ≤ maxControlPayload) :
    (fieldFrame type (kvPair (key, value))).payload = kvJoin [(key, value)] := by
  have hplain : ∀ pair ∈ [(key, value)], PlainPair pair := fun pair hp =>
    List.mem_singleton.mp hp ▸ h
  have hwhole : snprintf (maxControlPayload + 1) (kvPair (key, value)) = kvJoin [(key, value)] := by
    rw [kvJoin_singleton]
    exact List.take_of_length_le hlen
  rw [fieldFrame, textFrame, hwhole, cstr_eq_self (zero_not_mem_kvJoin hplain)]

/-- A field that fits is read as it was written. -/
theorem firstField_fieldFrame {type : MsgType} {key value : Bytes} (h : PlainPair (key, value))
    (hlen : (kvPair (key, value)).length ≤ maxControlPayload) :
    firstField (fieldFrame type (kvPair (key, value))).payload key = some value := by
  rw [fieldFrame_payload type h hlen, firstField_kvJoin fun pair hp => List.mem_singleton.mp hp ▸ h]
  simp

/-- The version a client names is read as it is. -/
theorem kvGet_versionReq (v : VersionText) :
    kvGet (fieldFrame .versionReq (ascii "cur=" ++ v.text)).payload (ascii "cur") maxVersionStr =
      some v.text := by
  have hkey : 61 ∉ ascii "cur" ∧ 59 ∉ ascii "cur" ∧ 0 ∉ ascii "cur" := by decide
  have hlen : (kvPair (ascii "cur", v.text)).length ≤ maxControlPayload := by
    have hkeylen : (ascii "cur").length = 3 := by decide
    have hv : v.text.length < 32 := v.fits
    rw [length_kvPair, hkeylen, maxControlPayload]
    omega
  have hplain : 59 ∉ v.text ∧ 0 ∉ v.text := by
    obtain ⟨w, hw⟩ := Option.isSome_iff_exists.mp v.valid
    have hdenotes := verParse_iff.mp hw
    exact ⟨hdenotes.not_mem rfl (by decide), hdenotes.not_mem rfl (by decide)⟩
  exact kvGet_iff.mpr ⟨firstField_fieldFrame ⟨hkey, hplain⟩ hlen, v.fits⟩

/-- So is a number. -/
theorem kvGetU64_fieldFrame {type : MsgType} {key : Bytes}
    (hkey : 61 ∉ key ∧ 59 ∉ key ∧ 0 ∉ key) (hshort : key.length ≤ 64) {n : ℕ} (hn : n < 2 ^ 64)
    (fallback : ℕ) :
    kvGetU64 (fieldFrame type (kvPair (key, decimal n))).payload key fallback = n := by
  have hplain := plainPair_decimal hkey n
  have hdigits := length_decimal_u64 hn
  have hlen : (kvPair (key, decimal n)).length ≤ maxControlPayload := by
    rw [length_kvPair, maxControlPayload]
    omega
  rw [fieldFrame_payload type hplain hlen]
  exact kvGetU64_kvJoin (k := key) (fun pair hp => List.mem_singleton.mp hp ▸ hplain) hn fallback
    (by simp)

/-! ### The stream -/

section Rules

variable {pr : Premises} {α : Type}
  {Q : α → ServerSide → Transcript Frame → List (Transcript Frame) → Prop}
  {T : Transcript Frame} {Ts : List (Transcript Frame)}

/-- `t` is `s`, but for the files and the bytes sent. -/
structure SameBooks (s t : ServerSide) : Prop where
  slots : t.slots = s.slots
  counters : ∀ c, c ≠ .bytesSent → t.counters c = s.counters c

theorem SameBooks.refl (s : ServerSide) : SameBooks s s := ⟨rfl, fun _ _ => rfl⟩

theorem SameBooks.trans {s t u : ServerSide} (h : SameBooks s t) (k : SameBooks t u) :
    SameBooks s u :=
  ⟨k.slots.trans h.slots, fun c hc => (k.counters c hc).trans (h.counters c hc)⟩

/-- An operation of the stream that sends nothing; where it looks for a message, none is there, as
it is the server's turn. -/
theorem plays_streamOp {o : ServerOp} {r : ServerOp.Res o} {w w' : StreamWorld}
    (h : streamOk w o = some (r, w')) (ho : ∀ f, o = .protoSend f → sendable f = false) :
    w'.outs = w.outs ∧ ∀ s : ServerSide, s.files = w.fs →
      ∃ t : ServerSide, t.files = w'.fs ∧ SameBooks s t ∧
        ∀ (k : ServerOp.Res o → ServerProg α) (m : Frame) (T : Transcript Frame),
          Plays (serverSide pr) .right Q (k r) t ((.right, m) :: T) Ts →
          Plays (serverSide pr) .right Q (.call o k) s ((.right, m) :: T) Ts := by
  cases o with
  | file o =>
      cases h
      refine ⟨rfl, fun s hs => ?_⟩
      obtain ⟨files, slots, counters⟩ := s
      subst hs
      exact ⟨⟨(w.fs.ok o).2, slots, counters⟩, rfl, ⟨rfl, fun _ _ => rfl⟩, fun k m T hk => hk⟩
  | protoSend f =>
      have hf := ho f rfl
      rw [streamOk, if_neg (by rw [hf]; exact Bool.false_ne_true)] at h
      cases h
      refine ⟨rfl, fun s hs => ⟨s, hs, .refl s, fun k m T hk => ?_⟩⟩
      have hdeed : serverSide pr s (.protoSend f) = .does false s :=
        if_neg (by rw [hf]; exact Bool.false_ne_true)
      exact (plays_does hdeed).mpr hk
  | select ms =>
      cases h
      exact ⟨rfl, fun s hs => ⟨s, hs, .refl s, fun k m T hk => ⟨⟨m, T, rfl⟩, hk⟩⟩⟩
  | statsAdd c n =>
      cases c with
      | bytesSent =>
          cases h
          refine ⟨rfl, fun s hs => ⟨⟨s.files, s.slots, Function.update s.counters .bytesSent
            (s.counters .bytesSent + n)⟩, hs, ⟨rfl, fun c hc => ?_⟩, fun k m T hk => hk⟩⟩
          exact Function.update_of_ne hc ..
      | _ => cases h
  | malloc n | free | usleep us | logMsg level text =>
      cases h
      exact ⟨rfl, fun s hs => ⟨s, hs, .refl s, fun k m T hk => hk⟩⟩
  | _ => cases h

/-- What the stream does on its own, it does as a part of the session. -/
theorem plays_stream {γ : Type} {p : ServerProg γ} {w w' : StreamWorld} {a : γ}
    (h : Prog.eval streamOk p w = some (a, w')) :
    ∃ frames, w'.outs = w.outs ++ frames ∧ ∀ s : ServerSide, s.files = w.fs →
      ∃ t : ServerSide, t.files = w'.fs ∧ SameBooks s t ∧
        ∀ (k : γ → ServerProg α) (m : Frame) (T : Transcript Frame),
          Plays (serverSide pr) .right Q (k a) t ((.right, m) :: T) Ts →
          Plays (serverSide pr) .right Q (p >>= k) s (said .right frames ++ (.right, m) :: T) Ts := by
  induction p generalizing w with
  | ret b =>
      cases h
      exact ⟨[], (List.append_nil _).symm, fun s hs => ⟨s, hs, .refl s, fun k m T hk => hk⟩⟩
  | call o q ih =>
      rw [Prog.eval] at h
      cases hok : streamOk w o with
      | none =>
          rw [hok] at h
          cases h
      | some x =>
          obtain ⟨r, w₁⟩ := x
          rw [hok] at h
          obtain ⟨frames, hframes, hrest⟩ := ih r h
          by_cases hsend : ∃ f, o = .protoSend f ∧ sendable f = true
          · obtain ⟨f, rfl, hf⟩ := hsend
            rw [streamOk, if_pos hf] at hok
            cases hok
            refine ⟨f :: frames, by rw [hframes]; exact List.append_assoc .., fun s hs => ?_⟩
            obtain ⟨t, ht, hbooks, hplays⟩ := hrest s hs
            exact ⟨t, ht, hbooks, fun k m T hk => (plays_sends (if_pos hf)).mpr (hplays k m T hk)⟩
          · have hquiet : ∀ f, o = .protoSend f → sendable f = false := by
              rintro f rfl
              exact Bool.eq_false_iff.mpr fun hf => hsend ⟨f, rfl, hf⟩
            obtain ⟨houts, hcall⟩ := @plays_streamOp pr α Q Ts _ _ _ _ hok hquiet
            refine ⟨frames, by rw [hframes, houts], fun s hs => ?_⟩
            obtain ⟨s₁, hs₁, hbooks₁, hone⟩ := hcall s hs
            obtain ⟨t, ht, hbooks, hplays⟩ := hrest s₁ hs₁
            refine ⟨t, ht, hbooks₁.trans hbooks, fun k m T hk => ?_⟩
            have hgo := hplays k m T hk
            cases frames with
            | nil => exact hone (fun r => q r >>= k) m T hgo
            | cons f frames => exact hone (fun r => q r >>= k) f _ hgo
  | spin => cases h

end Rules

/-! ### The session -/

/-- The published manifest describes the package at this path. -/
structure Offered (cfg : ServerConfig) (m : Manifest) (path content : Bytes) : Prop where
  advertisable : Advertisable m
  latestVersion : verIsValid m.latestVersion = true
  path : pkgResolvePath cfg.packageDir m.packageFile (maxPathLen * 2) = some path
  packageSize : m.packageSize = content.length
  checksum : strcaseeq (hexText (Fips180.sha256 content)) m.checksumSha256 = true
  small : content.length < 2 ^ 63

/-- The peer is a client the server admits. -/
structure Admitted (cfg : ServerConfig) (pr : Premises) (clientId : Bytes) : Prop where
  id : RowId clientId
  plain : 59 ∉ clientId
  certName : pr.certName = clientId
  registered : pr.registered cfg.clientRegistry clientId = true

/-- The client has no session, a place is free for one, and the package is where the manifest says. -/
structure Ready (path content clientId : Bytes) (s : ServerSide) : Prop where
  absent : clientId ∉ s.slots
  room : [] ∈ s.slots
  package : s.files.disk path = some content

/-- A client that is not there gets a free place, and gives it back. -/
theorem reserve_release {slots : List Bytes} {clientId : Bytes} (h : RowId clientId)
    (habsent : clientId ∉ slots) (hroom : [] ∈ slots) :
    (UpdateFramework.reserveActiveClientId slots clientId).1 = .reserved ∧
      UpdateFramework.releaseActiveClientId
        (UpdateFramework.reserveActiveClientId slots clientId).2 clientId = slots := by
  have hwhole : snprintf maxIdLen clientId = clientId :=
    List.take_of_length_le (Nat.le_sub_one_of_lt h.fits)
  obtain ⟨i, hi⟩ : ∃ i, slots.findIdx? (· = []) = some i := by
    refine Option.isSome_iff_exists.mp (List.findIdx?_isSome.trans ?_)
    exact List.any_eq_true.mpr ⟨[], hroom, by simp⟩
  obtain ⟨hlt, hfree, -⟩ := List.findIdx?_eq_some_iff_getElem.mp hi
  have hreserve : UpdateFramework.reserveActiveClientId slots clientId =
      (.reserved, slots.set i clientId) := by
    rw [UpdateFramework.reserveActiveClientId, if_neg h.nonempty, if_neg habsent, hi]
    simp only [hwhole]
  have hfind : (slots.set i clientId).findIdx? (· = clientId) = some i := by
    refine List.findIdx?_eq_some_iff_getElem.mpr ⟨by simpa using hlt, by simp, fun j hj => ?_⟩
    have hj' : j < slots.length := hj.trans hlt
    rw [List.getElem_set_ne (Nat.ne_of_gt hj)]
    simpa using fun he : slots[j] = clientId => habsent (he ▸ List.getElem_mem hj')
  rw [hreserve]
  refine ⟨rfl, ?_⟩
  rw [UpdateFramework.releaseActiveClientId, if_neg h.nonempty, hfind]
  dsimp only
  rw [List.set_set, ← of_decide_eq_true hfree, List.set_getElem_self]

section Session

variable {cfg : ServerConfig} {pr : Premises} {clientId path content : Bytes} {s : ServerSide}

theorem authenticateClient_leads (h : Admitted cfg pr clientId) {T : Transcript Frame} :
    ServerLeads pr (authenticateClient cfg) s
      ((.left, fieldFrame .auth (ascii "id=" ++ clientId)) :: T) (.ret (some clientId)) s T := by
  have hkey : 61 ∉ ascii "id" ∧ 59 ∉ ascii "id" ∧ 0 ∉ ascii "id" := by decide
  have hlen : (kvPair (ascii "id", clientId)).length ≤ maxControlPayload := by
    have hkeylen : (ascii "id").length = 2 := by decide
    have hid : clientId.length < 64 := h.id.fits
    rw [length_kvPair, hkeylen, maxControlPayload]
    omega
  have hfield : kvGet (fieldFrame .auth (ascii "id=" ++ clientId)).payload (ascii "id") maxIdLen =
      some clientId :=
    kvGet_iff.mpr ⟨firstField_fieldFrame ⟨hkey, h.plain, h.id.no_nul⟩ hlen, h.id.fits⟩
  unfold authenticateClient
  simp only [Prog.call_bind, Prog.ret_bind]
  refine .does trivial rfl ?_
  refine server_recvControl (control_fieldFrame (by decide) _) ?_
  simp only [fieldFrame, textFrame] at hfield ⊢
  rw [hfield]
  simp only [h.certName, if_true]
  refine .does trivial rfl ?_
  simp only [h.registered, not_true_eq_false, if_false]
  exact .does trivial rfl (.refl ..)

/-- A session that began in `s` has transferred a package. -/
structure Transferred (path content status : Bytes) (s t : ServerSide) : Prop where
  slots : t.slots = s.slots
  package : t.files.disk path = some content
  updatesServed : t.counters .updatesServed =
    s.counters .updatesServed + if status = ascii "ok" then 1 else 0

/-- What the client may report. -/
def Status (status : Bytes) : Prop := status = ascii "ok" ∨ status = ascii "checksum_fail"

theorem Status.control {status : Bytes} (h : Status status) :
    Control (textFrame .result (ascii "status=" ++ status)) := by
  rcases h with rfl | rfl
  · exact ⟨by decide, by decide⟩
  · exact ⟨by decide, by decide⟩

theorem Status.field {status : Bytes} (h : Status status) :
    kvGet (textFrame .result (ascii "status=" ++ status)).payload (ascii "status") 32 =
      some status := by
  rcases h with rfl | rfl
  · decide
  · decide

/-- `finishTransfer` once the client has been heard. -/
def concludeTransfer (m : Manifest) (clientId : Bytes) (offset : ℕ) :
    Option (MsgType × Bytes) → ServerProg Bool
  | some (.result, payload) => do
    let status := kvGet payload (ascii "status") 32
    if status ≠ some (ascii "ok") then
      statsAdd .errors 1
      let shown := if status.getD [] = [] then ascii "missing" else status.getD []
      logMsg .warn (ascii "TRANSFER_RESULT id=" ++ clientId ++ ascii " status=" ++ shown)
    else
      statsAdd .updatesServed 1
      logMsg .info (ascii "TRANSFER_DONE id=" ++ clientId ++ ascii " bytes=" ++
        decimal ((m.packageSize + 2 ^ 64 - offset) % 2 ^ 64) ++ ascii " status=OK")
    Server.protoSend (emptyFrame .bye)
  | _ => .ret false

theorem finishTransfer_leads (m : Manifest) (clientId : Bytes) (offset : ℕ) {T : Transcript Frame} :
    ServerLeads pr (finishTransfer m clientId offset) s
      ((.right, fieldFrame .transferDone (ascii "sha256=" ++ m.checksumSha256)) :: T)
      (recvControl >>= concludeTransfer m clientId offset) s T := by
  unfold finishTransfer
  simp only [Prog.call_bind, Prog.ret_bind]
  refine server_sends (control_fieldFrame (by decide) _).sendable ?_
  rw [if_neg (not_not_intro rfl)]
  exact .refl ..

theorem concludeTransfer_leads (m : Manifest) (clientId : Bytes) (offset : ℕ) {status : Bytes}
    (hstatus : Status status) (hpackage : s.files.disk path = some content) {T : Transcript Frame} :
    ∃ t, Transferred path content status s t ∧
      ServerLeads pr (concludeTransfer m clientId offset
        (some (.result, (textFrame .result (ascii "status=" ++ status)).payload))) s
        ((.right, emptyFrame .bye) :: T) (.ret true) t T := by
  have hbye : sendable (emptyFrame .bye) = true := rfl
  unfold concludeTransfer
  simp only [hstatus.field, Prog.call_bind, Prog.ret_bind]
  by_cases hok : status = ascii "ok"
  · rw [if_neg (not_not_intro (congrArg some hok))]
    refine ⟨_, ?_, .does trivial rfl (.does trivial rfl (server_sends hbye (.refl ..)))⟩
    refine ⟨rfl, hpackage, ?_⟩
    rw [if_pos hok]
    rfl
  · rw [if_pos fun h => hok (Option.some.inj h)]
    refine ⟨_, ?_, .does trivial rfl (.does trivial rfl (server_sends hbye (.refl ..)))⟩
    refine ⟨rfl, hpackage, ?_⟩
    rw [if_neg hok]
    rfl

/-- `offerUpdate` once the stream has ended. -/
def afterStream (m : Manifest) (clientId : Bytes) (offset : ℕ) (streamed : Bool) :
    ServerProg Bool := do
  statsSub .activeTransfers 1
  if ¬ streamed then
    statsAdd .errors 1
    .ret false
  else finishTransfer m clientId offset

/-- The counters while a package is on its way. -/
def ServerSide.transferring (s : ServerSide) : ServerSide :=
  { s with counters := Function.update s.counters .activeTransfers (s.counters .activeTransfers + 1) }

/-- The counters once it has been streamed. -/
def ServerSide.streamed (s : ServerSide) : ServerSide :=
  { s with counters := Function.update s.counters .activeTransfers (s.counters .activeTransfers - 1) }

/-- Up to the stream. -/
theorem offerUpdate_leads (hoffered : Offered cfg pr.manifest path content) (clientId current : Bytes)
    {offset : ℕ} (hoffset : offset ≤ content.length) {T : Transcript Frame} :
    ServerLeads pr (offerUpdate cfg pr.manifest clientId current) s
      ((.right, textFrame .updateAvailable (updateMeta cfg pr.manifest)) ::
        (.left, fieldFrame .downloadReq (ascii "offset=" ++ decimal offset)) :: T)
      (pkgStreamFile path offset cfg.chunkSize cfg.packetDelayUs cfg.pauseHoldTimeoutSec >>=
        afterStream pr.manifest clientId offset) s.transferring T := by
  have hkey : 61 ∉ ascii "offset" ∧ 59 ∉ ascii "offset" ∧ 0 ∉ ascii "offset" := by decide
  have hsmall : offset < 2 ^ 64 := (hoffset.trans_lt hoffered.small).trans (by decide)
  have hasked : kvGetU64 (fieldFrame .downloadReq (ascii "offset=" ++ decimal offset)).payload
      (ascii "offset") ((pr.manifest.packageSize + 1) % 2 ^ 64) = offset :=
    kvGetU64_fieldFrame hkey (by decide) hsmall _
  have hcontrol : Control (textFrame .updateAvailable (updateMeta cfg pr.manifest)) :=
    control_textFrame (by decide) _
  unfold offerUpdate
  rw [hoffered.path]
  simp only [Prog.call_bind, Prog.ret_bind]
  refine .does trivial rfl ?_
  refine server_sends hcontrol.sendable ?_
  simp only [not_true_eq_false, if_false]
  refine server_recvControl (control_fieldFrame (by decide) _) ?_
  simp only [fieldFrame, textFrame] at hasked ⊢
  rw [hasked, hoffered.packageSize, if_neg (not_lt.mpr hoffset)]
  exact .does trivial rfl (.refl ..)

theorem offerUpdate_plays (hoffered : Offered cfg pr.manifest path content)
    (hpackage : s.files.disk path = some content) (clientId current : Bytes) {offset : ℕ}
    (hoffset : offset ≤ content.length) {status : Bytes}
    (hstatus : Status status) :
    Plays (serverSide pr) .right
      (fun b t U _ => U = [] ∧ b = true ∧ Transferred path content status s t)
      (offerUpdate cfg pr.manifest clientId current) s
      (delivery cfg pr.manifest offset (content.drop offset) status) [] := by
  refine (offerUpdate_leads hoffered clientId current hoffset).plays ?_
  obtain ⟨w, hstream, hsent⟩ := pkgStreamFile_eval (w := ⟨s.files, [], 0⟩) hpackage hoffset
    cfg.chunkSize_range cfg.packetDelayUs cfg.pauseHoldTimeoutSec
  have heval := hstream .exact (Arithmetic.exact_exactTo _)
  rw [pkgStreamFileIn_exact] at heval
  obtain ⟨frames, houts, hplay⟩ := plays_stream heval
  obtain rfl : frames = dataFrames (cut cfg.chunkSize (content.drop offset)) :=
    houts.symm.trans hsent.outs
  obtain ⟨t, ht, hbooks, hgo⟩ := hplay s.transferring rfl
  have hdisk : t.files.disk path = some content := by
    rw [ht, hsent.disk]
    exact hpackage
  refine hgo _ _ _ ((plays_does rfl).mpr ?_)
  rw [if_neg (by decide)]
  refine (finishTransfer_leads _ clientId offset).plays ?_
  obtain ⟨u, hu, hconclude⟩ := concludeTransfer_leads (s := t.streamed) pr.manifest
    clientId offset hstatus hdisk
  refine (server_recvControl hstatus.control hconclude).plays ?_
  refine ⟨rfl, rfl, hu.slots.trans hbooks.slots, hu.package, hu.updatesServed.trans ?_⟩
  congr 1
  exact hbooks.counters .updatesServed (by decide)

/-- What is left of a conversation after the version of the client. -/
def reply (cfg : ServerConfig) (m : Manifest) (cmp : ℤ) (offset : ℕ) (rest status : Bytes) :
    Transcript Frame :=
  if cmp ≥ 0 then dismissal m else delivery cfg m offset rest status

/-- What a session leaves behind. -/
structure Served (path content clientId : Bytes) (cmp : ℤ) (status : Bytes) (s t : ServerSide) :
    Prop where
  ready : Ready path content clientId t
  updatesServed : t.counters .updatesServed =
    s.counters .updatesServed + if cmp < 0 ∧ status = ascii "ok" then 1 else 0

/-- `reservedSession` once the version of the client has been compared. -/
def answerVersion (cfg : ServerConfig) (m : Manifest) (clientId current : Bytes) (cmp : ℤ) :
    ServerProg Bool := do
  if cmp ≥ 0 then
    let reply := snprintf (maxControlPayload + 1) (ascii "latest=" ++ m.latestVersion)
    logMsg .info (ascii "VERSION_CHECK id=" ++ clientId ++ ascii " cur=" ++ current ++
      ascii " latest=" ++ m.latestVersion ++ ascii " decision=UPTODATE")
    statsAdd .uptodateResponses 1
    if ← protoSendText .uptodate reply then Server.protoSend (emptyFrame .bye)
    else .ret false
  else offerUpdate cfg m clientId current

/-- `handleClientSession` after `done:`. -/
def leaveSession (clientId : Bytes) (rc : Bool) : ServerProg Bool := do
  Server.releaseActiveClientId clientId
  .ret rc

/-- A session whose client is among the active ones. -/
def ServerSide.reserved (s : ServerSide) (clientId : Bytes) : ServerSide :=
  { s with slots := (UpdateFramework.reserveActiveClientId s.slots clientId).2 }

/-- A session up to the answer to the version of the client. -/
theorem session_leads (hadmitted : Admitted cfg pr clientId) (hready : Ready path content clientId s)
    (v : VersionText) {cmp : ℤ} (hcmp : verCompareText v.text pr.manifest.latestVersion = some cmp)
    (clientInfo : Bytes) {T : Transcript Frame} :
    ServerLeads pr (handleClientSession cfg clientInfo) s (introduction clientId v.text ++ T)
      (answerVersion cfg pr.manifest clientId v.text cmp >>= leaveSession clientId)
      (s.reserved clientId) T := by
  have hcur := kvGet_versionReq v
  obtain ⟨hreserved, -⟩ := reserve_release hadmitted.id hready.absent hready.room
  unfold handleClientSession introduction
  simp only [Prog.call_bind, Prog.ret_bind, List.cons_append, List.nil_append]
  refine server_sends rfl ?_
  simp only [not_true_eq_false, if_false]
  refine ((authenticateClient_leads hadmitted).bind _).trans ?_
  refine .does trivial rfl ?_
  rw [hreserved]
  dsimp only
  unfold reservedSession
  simp only [Prog.call_bind, Prog.ret_bind]
  refine server_sends rfl ?_
  simp only [not_true_eq_false, if_false, Prog.call_bind, Prog.bind_bind]
  refine .does trivial rfl ?_
  refine server_recvControl (control_fieldFrame (by decide) _) ?_
  simp only [fieldFrame, textFrame] at hcur ⊢
  rw [hcur]
  simp only [v.valid, not_true_eq_false, if_false, Prog.call_bind]
  refine .does trivial rfl ?_
  simp only [hcmp]
  exact .refl ..

theorem session_plays (hadmitted : Admitted cfg pr clientId)
    (hoffered : Offered cfg pr.manifest path content) (hready : Ready path content clientId s)
    (v : VersionText) {cmp : ℤ} (hcmp : verCompareText v.text pr.manifest.latestVersion = some cmp)
    {offset : ℕ} (hoffset : offset ≤ content.length) {status : Bytes}
    (hstatus : Status status) (clientInfo : Bytes) :
    Plays (serverSide pr) .right
      (fun b t U _ => U = [] ∧ b = true ∧ Served path content clientId cmp status s t)
      (handleClientSession cfg clientInfo) s
      (introduction clientId v.text ++
        reply cfg pr.manifest cmp offset (content.drop offset) status) [] := by
  obtain ⟨-, hreleased⟩ := reserve_release hadmitted.id hready.absent hready.room
  refine (session_leads hadmitted hready v hcmp clientInfo).plays ?_
  have hbye : sendable (emptyFrame .bye) = true := rfl
  unfold answerVersion
  rw [reply]
  split_ifs with hge
  · simp only [Prog.call_bind, Prog.ret_bind]
    refine (plays_does rfl).mpr ((plays_does rfl).mpr ?_)
    refine (server_sends (control_fieldFrame (by decide) _).sendable
      (server_sends hbye (.does trivial rfl (.refl ..)))).plays ?_
    refine ⟨rfl, rfl, ⟨hreleased.symm ▸ hready.absent, hreleased.symm ▸ hready.room, hready.package⟩, ?_⟩
    rw [if_neg fun h => absurd h.1 (not_lt.mpr hge)]
    rfl
  · have hpackage : (s.reserved clientId).files.disk path = some content := hready.package
    refine plays_bind.mpr (Plays.post (offerUpdate_plays hoffered hpackage clientId v.text
      hoffset hstatus) ?_)
    rintro b t U V ⟨rfl, rfl, h⟩
    have hslots : UpdateFramework.releaseActiveClientId t.slots clientId = s.slots := by
      rw [h.slots]
      exact hreleased
    refine (plays_does rfl).mpr ?_
    refine ⟨rfl, rfl, ⟨hslots.symm ▸ hready.absent, hslots.symm ▸ hready.room, h.package⟩,
      h.updatesServed.trans ?_⟩
    simp only [not_le.mp hge, true_and]
    rfl

end Session

end UpdateFramework.System
