import UpdateFramework.Client.CurrentVersion
import UpdateFramework.System.Agreement

/-!
# System — a bad partial file heals itself

Whatever a client has under the name of the partial file, `CheckForUpdate` succeeds after at most
two attempts (`partial_file_heals`): the first completes it, and where the digest is another throws it
away; the second starts from nothing.
-/

namespace UpdateFramework.System

open Collections Libc Process Client

/-! ### The version of the client -/

theorem lineEntry_of_acceptLines {ls : List (Bytes × Bool)} {seen : List Bytes}
    {es : List (Bytes × TableLine)} (h : acceptLines seen ls = some es) :
    ∀ e ∈ es, lineEntry e.1 = some e.2 := by
  induction ls generalizing seen es with
  | nil =>
      cases h
      exact nofun
  | cons l ls ih =>
      simp only [acceptLines, Option.bind_eq_bind, Option.bind_eq_some_iff] at h
      obtain ⟨⟨t, seen'⟩, ht, es', hes, he⟩ := h
      cases he
      intro e he
      rcases List.mem_cons.mp he with rfl | he
      · exact (acceptLine_some.mp ht).2.1
      · exact ih hes e he

/-- What `getCurrentVersion` reports is a version that fits, and no file has changed. -/
theorem getCurrentVersion_reads {cfg : ClientConfig} {n : ℕ} {fs fs' : FileSystem Path} {w : Bytes}
    (h : FileSystem.eval (getCurrentVersion n cfg) fs = some (some w, fs')) :
    w.length < maxVersionStr ∧ verIsValid w = true ∧ fs'.disk = fs.disk := by
  by_cases hcur : cfg.currentVersion = []
  · rcases getCurrentVersion_eval hcur n fs with ⟨hnone, -⟩ | ⟨fs'', hsome, hd⟩
    · rw [hnone] at h
      cases h
    · rw [hsome] at h
      obtain ⟨hread, rfl⟩ := Prod.mk.inj (Option.some.inj h)
      rw [readVersion_getD] at hread
      obtain ⟨es, hes, -, ⟨l, hrow⟩ | ⟨rfl, -⟩⟩ := readVersion_some hread
      · obtain ⟨-, -, hlen, hvalid⟩ := lineEntry_row (lineEntry_of_acceptLines hes _ hrow)
        exact ⟨hlen, hvalid, hd⟩
      · exact ⟨by decide, by decide, hd⟩
  · rw [getCurrentVersion, if_pos hcur] at h
    obtain ⟨hread, rfl⟩ := Prod.mk.inj (Option.some.inj h)
    split at hread
    · rename_i hvalid
      cases hread
      refine ⟨?_, hvalid, rfl⟩
      rw [snprintf, List.length_take]
      exact Nat.lt_of_le_of_lt (Nat.min_le_left ..) (by decide)
    · cases hread

/-! ### Attempts -/

section Attempts

variable {fd : ℕ} {cfg : ClientConfig} {s : ClientSide} {T : Transcript Frame}
  {Ts : List (Transcript Frame)}
  {R : ℕ ⊕ CheckResult → ClientSide → Transcript Frame → List (Transcript Frame) → Prop}

/-- An attempt nobody interrupts: the loop ends after a success, and goes on after a failure that is
not the last one. -/
theorem attemptRound_plays {attempt : ℕ} (ha : attempt ≤ cfg.retryMax)
    {p : ClientProg AttemptResult}
    (hp : Plays (clientSide fd) .left (fun rc s T Ts => (rc = .success ∧ R (.inr .ok) s T Ts) ∨
        (rc = .retry ∧ attempt < cfg.retryMax ∧ R (.inl (attempt + 1)) s T Ts)) p s T Ts) :
    Plays (clientSide fd) .left R (attemptRound cfg p attempt) s T Ts := by
  unfold attemptRound
  rw [if_neg (not_not_intro ha)]
  simp only [Prog.call_bind, Prog.ret_bind]
  refine (plays_does rfl).mpr ?_
  simp only [Bool.false_eq_true, if_false]
  refine plays_bind.mpr (hp.post ?_)
  rintro rc s T Ts (⟨rfl, hR⟩ | ⟨rfl, hlt, hR⟩)
  · exact hR
  · dsimp only
    rw [if_pos hlt]
    exact (client_sleeps _ (.refl ..)).plays hR

end Attempts

/-! ### Healing -/

/-- `CheckForUpdate` has installed what has the digest. -/
structure Healed (latest sha : Bytes) (s s' : ClientSide) : Prop where
  attempts : s'.connections ≤ s.connections + 2
  final : ∃ file, s'.files.disk (.final latest) = some file ∧
    strcaseeq (hexText (Fips180.sha256 file)) sha = true
  part : s'.files.disk (.part latest) = none

section Healing

variable {scfg : ServerConfig} {cfg : ClientConfig} {pr : Premises} {path content current : Bytes}
  {cmp : ℤ} {s : ClientSide}

/-- The client's part: one conversation, or two of which the second starts from nothing. -/
theorem checkForUpdate_plays (hcfg : Configured cfg)
    (hoffered : Offered scfg pr.manifest path content) (hretry : 2 ≤ cfg.retryMax)
    (hcmp : cmp < 0) {table : Bytes}
    (htable : writtenTable cfg pr.manifest.latestVersion (s.files.disk .table) = some table)
    {bound : ℕ} (hbound : content.length < bound) (hrounds : 2 ≤ bound) {fs : FileSystem Path}
    (hread : FileSystem.eval (getCurrentVersion bound cfg) s.files = some (some current, fs))
    (fd : ℕ) {part : Option Bytes} (hpart : s.files.disk (.part pr.manifest.latestVersion) = part) :
    Plays (clientSide fd) .left (fun r s' T Ts => (r = .ok ∧
        Healed pr.manifest.latestVersion pr.manifest.checksumSha256 s s') ∧
        (∀ x ∈ T, x.1 ≠ .left) ∧ Ts = [])
      (checkForUpdate bound cfg) s []
      (conversation scfg pr.manifest content cfg.clientId current cmp part ::
        if strcaseeq (hexText (Fips180.sha256 (stored part content))) pr.manifest.checksumSha256 then []
        else [conversation scfg pr.manifest content cfg.clientId current cmp none]) := by
  obtain ⟨n, rfl⟩ : ∃ n, bound = n + 2 := ⟨bound - 2, by omega⟩
  obtain ⟨-, -, hd⟩ := getCurrentVersion_reads hread
  unfold checkForUpdate
  refine (client_file hread (.refl ..)).plays ?_
  dsimp only
  have hpart' : fs.disk (.part pr.manifest.latestVersion) = part := hd ▸ hpart
  have htable' : writtenTable cfg pr.manifest.latestVersion (fs.disk .table) = some table :=
    hd ▸ htable
  rw [Prog.iterate]
  refine plays_bind.mpr (attemptRound_plays (by omega) ?_)
  split_ifs with hdigest
  · refine Plays.post (runAttempt_installs (s := ⟨fs, _, _⟩) hoffered hcfg hbound hcmp hpart' hdigest
      htable' (not_sender_nil _)) ?_
    rintro rc s' U Us ⟨rfl, rfl, rfl, hcount, h⟩
    have hcount : s'.connections = s.connections + 1 := hcount
    exact .inl ⟨rfl, ⟨rfl, by omega, ⟨_, h.final, hdigest⟩, h.part⟩, not_sender_nil _, rfl⟩
  · have hempty : stored none content = content := stored_of_prefix List.nil_prefix
    refine Plays.post (runAttempt_discards (s := ⟨fs, _, _⟩) hoffered hcfg hbound hcmp hpart'
      (Bool.eq_false_iff.mpr hdigest) (not_sender_nil _)) ?_
    rintro rc s₁ U Us ⟨rfl, rfl, rfl, hcount, hd₁⟩
    have hcount : s₁.connections = s.connections + 1 := hcount
    refine .inr ⟨rfl, by omega, ?_⟩
    have hnone : s₁.files.disk (.part pr.manifest.latestVersion) = none :=
      hd₁ ▸ Function.update_self ..
    have htable₁ : writtenTable cfg pr.manifest.latestVersion (s₁.files.disk .table) = some table := by
      rw [hd₁, Function.update_of_ne (by simp)]
      exact htable'
    have hunread : ∀ x ∈ [((.right : Side), emptyFrame .bye)], x.1 ≠ .left := by
      intro x hx
      cases List.mem_singleton.mp hx
      exact Side.other_ne .left
    dsimp only [Sum.elim_inl]
    rw [Prog.iterate]
    refine plays_bind.mpr (attemptRound_plays hretry ?_)
    refine Plays.post (runAttempt_installs (s := s₁) hoffered hcfg hbound hcmp hnone
      (hempty.symm ▸ hoffered.checksum) htable₁ hunread) ?_
    rintro rc s' U Us ⟨rfl, rfl, rfl, hcount', h⟩
    rw [hempty] at h
    exact .inl ⟨rfl, ⟨rfl, by omega, ⟨_, h.final, hoffered.checksum⟩, h.part⟩, not_sender_nil _,
      rfl⟩

/-- **A bad partial file heals itself.**  Whatever the partial file holds, every run of the client
and of the server's sessions in which each session has ended before the next connection comes to an
end, with a success after at most two attempts, a package that has the digest, and no partial file. -/
theorem partial_file_heals {t : ServerSide} (hadmitted : Admitted scfg pr cfg.clientId)
    (hcfg : Configured cfg) (hoffered : Offered scfg pr.manifest path content)
    (hready : Ready path content cfg.clientId t) (hretry : 2 ≤ cfg.retryMax)
    (hread : ReadsVersion cfg s.files current)
    (hcmp : verCompareText current pr.manifest.latestVersion = some cmp) (hold : cmp < 0)
    (hwritten : (writtenTable cfg pr.manifest.latestVersion (s.files.disk .table)).isSome = true)
    (fd : ℕ) (clientInfo : Bytes) :
    ∃ N, ∀ bound, N ≤ bound → ∀ c, Session fd pr scfg clientInfo
      (.start (checkForUpdate bound cfg) s t) c → c.behind = [] →
        ¬ c.Deadlocked (clientSide fd) (serverSide pr) ∧
        Duet.Finite (clientSide fd) (serverSide pr) (Server.handleClientSession scfg clientInfo) c ∧
        (∃ d, Session fd pr scfg clientInfo c d ∧ d.behind = [] ∧ d.Ended) ∧
        (c.Ended → c.left = .ret .ok ∧
          Healed pr.manifest.latestVersion pr.manifest.checksumSha256 s c.leftState) := by
  obtain ⟨table, htable⟩ := Option.isSome_iff_exists.mp hwritten
  obtain ⟨N, hN⟩ := hread
  obtain ⟨part, hpart⟩ : ∃ part, s.files.disk (.part pr.manifest.latestVersion) = part := ⟨_, rfl⟩
  refine ⟨max N (content.length + 2), fun bound hbound c hr hb => ?_⟩
  obtain ⟨fs, heval⟩ := hN bound (le_of_max_le_left hbound)
  obtain ⟨hfits, hvalid, -⟩ := getCurrentVersion_reads heval
  have hlong := le_of_max_le_right hbound
  have hleft := checkForUpdate_plays hcfg hoffered hretry hold htable
    (show content.length < bound by omega) (by omega) heval fd hpart
  have hsession : ∀ (part : Option Bytes) {u : ServerSide}, Ready path content cfg.clientId u → _ :=
    fun part u hu => session_plays hadmitted hoffered hu ⟨current, hfits, hvalid⟩ hcmp
      (length_kept_le part content.length)
      (verdict_status pr.manifest.checksumSha256 (stored part content)) clientInfo
  have hserves : Duet.Serves (serverSide pr) (Server.handleClientSession scfg clientInfo)
      (fun _ _ => True) (conversation scfg pr.manifest content cfg.clientId current cmp part ::
        if strcaseeq (hexText (Fips180.sha256 (stored part content))) pr.manifest.checksumSha256 then []
        else [conversation scfg pr.manifest content cfg.clientId current cmp none]) t := by
    refine (hsession part hready).post ?_
    rintro b t₁ U Us ⟨hU, -, h⟩
    refine ⟨hU, fun _ => trivial, ?_⟩
    split_ifs
    · trivial
    · refine (hsession none h.ready).post ?_
      rintro b t₂ U Us ⟨hU, -, -⟩
      exact ⟨hU, fun _ => trivial, trivial⟩
  obtain ⟨-, hfree, hfinite, hgo, hend⟩ :=
    Duet.agree (P := fun _ => True) hleft hserves (fun _ _ _ _ => trivial) hr hb
  refine ⟨hfree, hfinite, hgo, fun he => ?_⟩
  obtain ⟨r, hr, rfl, hhealed⟩ := (hend he).1
  exact ⟨hr, hhealed⟩

end Healing

/-- A client whose partial file of version 1.5.0 is another byte. -/
def spoiltClient : ClientSide := ⟨.only (.part (ascii "1.5.0")) [2], false, 0⟩

/-- It gets the package, after one attempt or two. -/
theorem partial_file_heals_spoilt : ∃ N d,
    Session 3 premises150 .shipped [] (.start (checkForUpdate N .client001) spoiltClient idleServer) d ∧
      d.behind = [] ∧ d.left = .ret .ok ∧ d.leftState.connections ≤ 2 ∧
      d.leftState.files.disk (.part (ascii "1.5.0")) = none := by
  have hnone : spoiltClient.files.disk .table = newClient.files.disk .table := rfl
  obtain ⟨new, hnew, -⟩ := @Writable.written .client001 _ (newClient_writable _) client001_rowId
    ⟨ascii "1.5.0", by decide, by decide⟩
  have hreads : ReadsVersion .client001 spoiltClient.files (ascii "0.0.0") :=
    (readsVersion_iff rfl _ _).mpr rfl
  obtain ⟨N, hN⟩ := partial_file_heals (s := spoiltClient) admitted001 configured001 offered150
    idleServer_ready (by decide) hreads (show _ = some (-1) by decide) (by decide)
    (hnone ▸ Option.isSome_iff_exists.mpr ⟨new, hnew⟩) 3 []
  obtain ⟨-, -, ⟨d, hd, hb, hended⟩, -⟩ := hN N le_rfl _ .refl rfl
  obtain ⟨hok, hhealed⟩ := (hN N le_rfl d hd hb).2.2.2 hended
  exact ⟨N, d, hd, hb, hok, hhealed.attempts, hhealed.part⟩

end UpdateFramework.System
