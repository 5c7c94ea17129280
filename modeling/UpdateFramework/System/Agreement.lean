import UpdateFramework.Client.TableRoundTrip
import UpdateFramework.System.Attempt

/-!
# System — client and server agree

`run_attempt` and `handle_client_session` over two channels that keep messages in order, where
nothing fails: in every order of their steps they never wait for each other in vain and never speak of
an error, and the client ends with the package and the row, or with nothing changed
(`session_agrees`).
-/

namespace UpdateFramework.System

open Collections Libc Process

/-! ### Tables -/

/-- A table the client can write its row into: the reader accepts it, nothing in it is unterminated,
and it is not too long. -/
structure Writable (id : Bytes) (table : Option Bytes) : Prop where
  accepted : (readVersion id table).isSome = true
  terminated : Terminated (table.getD [])
  short : (textLines 254 (table.getD [])).length ≤ 512
  room : HasRow id (table.getD []) ∨ (textLines 254 (table.getD [])).length < 512

/-- The row is written, and read again. -/
theorem Writable.written {cfg : ClientConfig} {table : Option Bytes}
    (h : Writable cfg.clientId table) (hid : RowId cfg.clientId) (v : VersionText) :
    ∃ new, writtenTable cfg v.text table = some new ∧
      readVersion cfg.clientId (some new) = some v.text := by
  obtain ⟨w, hw⟩ := Option.isSome_iff_exists.mp h.accepted
  rw [readVersion_getD] at hw
  obtain ⟨es, hes, -⟩ := Option.map_eq_some_iff.mp hw
  obtain ⟨hacc, hc, hcstr⟩ := accepted_of_acceptLines hes (.inr h.terminated)
  have hnul : 0 ∉ table.getD [] := by
    rw [hc]
    intro hm
    obtain ⟨l, hl, hz⟩ := List.mem_flatten.mp hm
    rw [← hcstr l hl] at hz
    simpa using List.mem_takeWhile_imp hz
  have hlen := length_of_acceptLines hes
  have hall : es.take 512 = es := List.take_of_length_le (hlen ▸ h.short)
  have hread := (written_read_iff hid v hes hnul).mpr (.terminated h.terminated)
  rw [writtenTable_getD]
  suffices hsome : (writtenTable cfg v.text (some (table.getD []))).isSome = true by
    obtain ⟨new, hnew⟩ := Option.isSome_iff_exists.mp hsome
    exact ⟨new, hnew, hread new hnew⟩
  rw [writtenTable_accepted hes, hall, Option.isSome_map, writtenLines]
  by_cases hin : cfg.clientId ∈ tableIds es
  · rw [if_pos hin]
    rfl
  · have hroom : es.length < 512 := by
      rcases h.room with hrow | hlt
      · rw [hc, hacc.hasRow_iff] at hrow
        exact absurd hrow hin
      · exact hlen ▸ hlt
    rw [if_neg hin, if_neg (not_le.mpr hroom)]
    rfl

/-! ### What is said -/

/-- A partial file that is a prefix of the package becomes the package. -/
theorem stored_of_prefix {part : Option Bytes} {content : Bytes} (h : part.getD [] <+: content) :
    stored part content = content := by
  have hkept : kept part content.length = part.getD [] := if_neg (not_lt.mpr h.length_le)
  rw [stored, hkept]
  exact (List.prefix_append_drop h).symm

section Messages

variable {scfg : ServerConfig} {m : Manifest} {content clientId current : Bytes} {cmp : ℤ}
  {part : Option Bytes}

theorem introduction_type {x : Side × Frame} (h : x ∈ introduction clientId current) :
    x.2.type ≠ .error ∧ x.2.type ≠ .data := by
  simp only [introduction, List.mem_cons, List.not_mem_nil, or_false] at h
  rcases h with rfl | rfl | rfl | rfl <;> exact ⟨nofun, nofun⟩

theorem dismissal_type {x : Side × Frame} (h : x ∈ dismissal m) :
    x.2.type ≠ .error ∧ x.2.type ≠ .data := by
  simp only [dismissal, List.mem_cons, List.not_mem_nil, or_false] at h
  rcases h with rfl | rfl <;> exact ⟨nofun, nofun⟩

theorem delivery_type {offset : ℕ} {rest status : Bytes} {x : Side × Frame}
    (h : x ∈ delivery scfg m offset rest status) : x.2.type ≠ .error := by
  simp only [delivery, List.mem_cons, List.mem_append, List.not_mem_nil, or_false] at h
  rcases h with rfl | rfl | h | rfl | rfl | rfl
  · exact nofun
  · exact nofun
  · obtain ⟨f, hf, rfl⟩ := List.mem_map.mp h
    rw [dataFrames_type hf]
    exact nofun
  all_goals exact nofun

/-- Nobody speaks of an error. -/
theorem conversation_no_error {x : Side × Frame}
    (h : x ∈ conversation scfg m content clientId current cmp part) : x.2.type ≠ .error := by
  rcases List.mem_append.mp h with h | h
  · exact (introduction_type h).1
  · rw [reply] at h
    split at h
    · exact (dismissal_type h).1
    · exact delivery_type h

/-- A client with the latest version gets no data. -/
theorem conversation_no_data (hcmp : 0 ≤ cmp) {x : Side × Frame}
    (h : x ∈ conversation scfg m content clientId current cmp part) : x.2.type ≠ .data := by
  rcases List.mem_append.mp h with h | h
  · exact (introduction_type h).2
  · rw [reply, if_pos hcmp] at h
    exact (dismissal_type h).2

end Messages

/-! ### A session -/

/-- The two sides of a session: a client process and a server with a worker for it. -/
abbrev Session (fd : ℕ) (pr : Premises) (scfg : ServerConfig) (clientInfo : Bytes) {α : Type} :
    Duet clientInterface serverInterface Frame α Bool ClientSide ServerSide →
      Duet clientInterface serverInterface Frame α Bool ClientSide ServerSide → Prop :=
  Duet.Run (clientSide fd) (serverSide pr) (Server.handleClientSession scfg clientInfo)

/-- What both sides have once a session is over. -/
structure SessionOver (latest content clientId : Bytes) (cmp : ℤ) (s s' : ClientSide)
    (t t' : ServerSide) : Prop where
  /-- A client with the latest version has changed nothing. -/
  upToDate : 0 ≤ cmp → s'.files.disk = s.files.disk ∧
    t'.counters .updatesServed = t.counters .updatesServed
  updated : cmp < 0 → s'.files.disk (.final latest) = some content ∧
    s'.files.disk (.part latest) = none ∧
    readVersion clientId (s'.files.disk .table) = some latest ∧
    t'.counters .updatesServed = t.counters .updatesServed + 1

/-- **Client and server agree on a session.**  In every order of their steps nobody speaks of an
error and a client with the latest version gets no data, they never wait for each other in vain,
every run comes to an end, and at the end both report success. -/
theorem session_agrees {scfg : ServerConfig} {cfg : ClientConfig} {pr : Premises}
    {path content : Bytes} {s : ClientSide} {t : ServerSide}
    (hadmitted : Admitted scfg pr cfg.clientId) (hcfg : Configured cfg)
    (hoffered : Offered scfg pr.manifest path content) (hready : Ready path content cfg.clientId t)
    (current : VersionText) {cmp : ℤ}
    (hcmp : verCompareText current.text pr.manifest.latestVersion = some cmp)
    (hpart : (s.files.disk (.part pr.manifest.latestVersion)).getD [] <+: content)
    (htable : cmp < 0 → Writable cfg.clientId (s.files.disk .table)) {bound : ℕ}
    (hbound : content.length < bound) (fd : ℕ) (clientInfo : Bytes)
    {c : Duet clientInterface serverInterface Frame Client.AttemptResult Bool ClientSide ServerSide}
    (hr : Session fd pr scfg clientInfo
      (.start (Client.runAttempt bound cfg current.text) s t) c) :
    (∀ x ∈ c.sent, x.2.type ≠ .error ∧ (0 ≤ cmp → x.2.type ≠ .data)) ∧
      ¬ c.Deadlocked (clientSide fd) (serverSide pr) ∧
      Duet.Finite (clientSide fd) (serverSide pr) (Server.handleClientSession scfg clientInfo) c ∧
      (∃ d, Session fd pr scfg clientInfo c d ∧ d.Ended) ∧
      (c.Ended → c.left = .ret .success ∧ c.right = some (.ret true) ∧
        SessionOver pr.manifest.latestVersion content cfg.clientId cmp s c.leftState t
          c.rightState) := by
  obtain ⟨part, hpartIs⟩ : ∃ part, s.files.disk (.part pr.manifest.latestVersion) = part := ⟨_, rfl⟩
  rw [hpartIs] at hpart
  have hstored := stored_of_prefix hpart
  have hok : verdict pr.manifest.checksumSha256 (stored part content) = ascii "ok" := by
    rw [verdict, hstored, if_pos hoffered.checksum]
  have hright := session_plays hadmitted hoffered hready current hcmp
    (length_kept_le part content.length)
    (verdict_status pr.manifest.checksumSha256 (stored part content)) clientInfo
  have hleft : Plays (clientSide fd) .left (fun rc s' T Ts => (rc = .success ∧
        (0 ≤ cmp → s'.files.disk = s.files.disk) ∧
        (cmp < 0 → s'.files.disk (.final pr.manifest.latestVersion) = some content ∧
          s'.files.disk (.part pr.manifest.latestVersion) = none ∧
          readVersion cfg.clientId (s'.files.disk .table) = some pr.manifest.latestVersion)) ∧
        (∀ x ∈ T, x.1 ≠ .left) ∧ Ts = []) (Client.runAttempt bound cfg current.text) s []
      [conversation scfg pr.manifest content cfg.clientId current.text cmp part] := by
    rcases lt_or_ge cmp 0 with hlt | hge
    · obtain ⟨table, hwritten, hread⟩ := (htable hlt).written hcfg.id
        ⟨pr.manifest.latestVersion, hoffered.advertisable.version, hoffered.latestVersion⟩
      refine Plays.post (runAttempt_installs hoffered hcfg hbound hlt hpartIs
        (hstored.symm ▸ hoffered.checksum) hwritten (not_sender_nil _)) ?_
      rintro rc s' U Us ⟨rfl, rfl, rfl, -, h⟩
      rw [hstored] at h
      exact ⟨⟨rfl, fun h => absurd hlt (not_lt.mpr h), fun _ => ⟨h.final, h.part, h.table ▸ hread⟩⟩,
        not_sender_nil _, rfl⟩
    · refine Plays.post (runAttempt_dismissed hge (not_sender_nil _)) ?_
      rintro rc s' U Us ⟨rfl, rfl, rfl, -, h⟩
      exact ⟨⟨rfl, fun _ => h ▸ rfl, fun hlt => absurd hlt (not_lt.mpr hge)⟩,
        not_sender_nil _, rfl⟩
  have hserves : Duet.Serves (serverSide pr) (Server.handleClientSession scfg clientInfo)
      (fun b t' => b = true ∧ t'.counters .updatesServed =
        t.counters .updatesServed + if cmp < 0 then 1 else 0)
      [conversation scfg pr.manifest content cfg.clientId current.text cmp part] t := by
    refine Plays.post hright ?_
    rintro b t' U Us ⟨hU, rfl, h⟩
    refine ⟨hU, fun _ => ⟨rfl, h.updatesServed.trans ?_⟩, trivial⟩
    simp only [hok, and_true]
  have hsaid : ∀ V ∈ [conversation scfg pr.manifest content cfg.clientId current.text cmp part],
      ∀ x ∈ V, x.2.type ≠ .error ∧ (0 ≤ cmp → x.2.type ≠ .data) := by
    intro V hV x hx
    cases List.mem_singleton.mp hV
    exact ⟨conversation_no_error hx, fun hge => conversation_no_data hge hx⟩
  obtain ⟨hsent, hfree, hfinite, ⟨d, hd, -, hended⟩, hend⟩ :=
    Duet.agree hleft hserves hsaid hr (Duet.behind_nil hleft hserves hr)
  refine ⟨hsent, hfree, hfinite, ⟨d, hd, hended⟩, fun he => ?_⟩
  obtain ⟨⟨rc, hrc, ⟨rfl, hsame, hnew⟩⟩, hserver⟩ := hend he
  obtain ⟨b, hb, rfl, hcount⟩ := hserver (List.cons_ne_nil _ _)
  refine ⟨hrc, hb, fun hge => ⟨hsame hge, ?_⟩, fun hlt => ?_⟩
  · rw [hcount, if_neg (not_lt.mpr hge), Nat.add_zero]
  · obtain ⟨hfinal, hgone, htab⟩ := hnew hlt
    exact ⟨hfinal, hgone, htab, by rw [hcount, if_pos hlt]⟩

/-! ### A first session -/

/-- A client process that has no files. -/
def newClient : ClientSide := ⟨⟨fun _ => none, fun _ => none, 0⟩, false, 0⟩

/-- A server with the package of version 1.5.0, and nobody there. -/
def idleServer : ServerSide :=
  ⟨.only (ascii "./packages/app.bin") [1], List.replicate activeClientMax [], fun _ => 0⟩

def premises150 : Premises := ⟨Server.manifest150.toManifest, ascii "client_001", fun _ _ => true⟩

def version100 : VersionText := ⟨ascii "1.0.0", by decide, by decide⟩

theorem offered150 :
    Offered .shipped premises150.manifest (ascii "./packages/app.bin") [1] where
  advertisable := advertisable_of_reloaded reloaded_manifest150 (by decide)
  latestVersion := by decide
  path := by decide
  packageSize := rfl
  checksum := by
    have hhex : premises150.manifest.checksumSha256 = hexText (Fips180.sha256 [1]) :=
      (congrArg bytesToHex (sha256_digest [1])).trans (bytesToHex_hexText _)
    rw [hhex]
    exact beq_self_eq_true _
  small := by decide

theorem admitted001 : Admitted .shipped premises150 ClientConfig.client001.clientId where
  id := client001_rowId
  plain := by decide
  certName := rfl
  registered := rfl

theorem configured001 : Configured .client001 where
  id := client001_rowId
  plain := by decide
  table := by decide
  downloadDir := by decide

theorem idleServer_ready :
    Ready (ascii "./packages/app.bin") [1] ClientConfig.client001.clientId idleServer where
  absent := by decide
  room := by decide
  package := FileSystem.only_disk ..

theorem newClient_writable (id : Bytes) : Writable id (newClient.files.disk .table) := by
  have hnone : textLines 254 ((newClient.files.disk .table).getD []) = [] := by
    rw [textLines]
    exact dif_pos rfl
  exact ⟨rfl, .inl rfl, hnone ▸ by decide, .inr (hnone ▸ by decide)⟩

/-- A client with version 1.0.0 and no files gets the package of version 1.5.0, and its row. -/
theorem session_agrees_first :
    ∃ d : Duet clientInterface serverInterface Frame Client.AttemptResult Bool ClientSide ServerSide,
      Session 3 premises150 .shipped [] (.start (Client.runAttempt 2 .client001 version100.text)
        newClient idleServer) d ∧ d.Ended ∧ d.left = .ret .success ∧ d.right = some (.ret true) ∧
      d.leftState.files.disk (.final (ascii "1.5.0")) = some [1] ∧
      readVersion (ascii "client_001") (d.leftState.files.disk .table) = some (ascii "1.5.0") ∧
      d.rightState.counters .updatesServed = 1 := by
  have hagrees : ∀ {d}, Session 3 premises150 .shipped []
      (.start (Client.runAttempt 2 .client001 version100.text) newClient idleServer) d → _ :=
    fun hr => session_agrees admitted001 configured001 offered150 idleServer_ready version100
      (show _ = some (-1) by decide) (show _ by decide) (fun _ => newClient_writable _) (by decide) 3
      [] hr
  obtain ⟨-, -, -, ⟨d, hd, hended⟩, -⟩ := hagrees .refl
  obtain ⟨hsuccess, hserved, hover⟩ := (hagrees hd).2.2.2.2 hended
  obtain ⟨hfinal, -, hrow, hcount⟩ := hover.updated (by decide)
  exact ⟨d, hd, hended, hsuccess, hserved, hfinal, hrow, hcount⟩

end UpdateFramework.System
