import UpdateFramework.Client.Internal
import UpdateFramework.Client.Locked
import UpdateFramework.System.Newer

/-!
# System — a client whose version goes up

A client among others that share its version table: what it has recorded when it asks for an update
is what it names, what it is offered is newer, and that is what it records under the lock
(`checkForUpdate_climbs`).
-/

namespace UpdateFramework.System

open Libc Process Client FileSystem

/-! ### Surroundings -/

/-- A client, and whether it holds the lock on the version table. -/
structure Holder where
  client : ClientWorld
  holds : Bool

/-- Whether the lock is held after an operation. -/
def holdsAfter : ClientOp → Bool → Bool
  | .file o, holds => heldAfter o holds
  | _, holds => holds

/-- What a client has heard, or will hear, offers it newer versions only. -/
def HearsNewer (cfg : ServerConfig) (published : Manifest → Prop) (w : ClientWorld) : Prop :=
  OffersNewer cfg published w.wire.outs (w.wire.ins ++ w.wire.inbox)

/-- The surroundings of the client `id`, among others. -/
def holderEnv (cfg : ServerConfig) (published : Manifest → Prop) (id : Bytes) :
    Env clientInterface Holder where
  may x o r y := (clientEnv (lockRules x.holds)).may x.client o r y.client ∧
    y.holds = holdsAfter o x.holds ∧ HearsNewer cfg published y.client
  drift x y := y.holds = x.holds ∧ (∃ fs wire, Around id x.holds x.client.fs fs ∧
      x.client.wire.Arrives wire ∧ y.client = { x.client with fs := fs, wire := wire }) ∧
    (HearsNewer cfg published x.client → HearsNewer cfg published y.client)
  drift_refl x := ⟨rfl, ⟨x.client.fs, x.client.wire, .refl .., .refl _, rfl⟩, fun h => h⟩
  drift_trans := by
    rintro ⟨a, i⟩ ⟨b, j⟩ ⟨c, k⟩ ⟨hj, ⟨fs, wire, hfs, hwire, hb⟩, h⟩
      ⟨hk, ⟨fs', wire', hfs', hwire', hc⟩, h'⟩
    obtain rfl : j = i := hj
    obtain rfl : b = _ := hb
    exact ⟨hk, ⟨fs', wire', hfs.trans hfs', hwire.trans hwire', hc⟩, h' ∘ h⟩

/-- One of these frames offers version `v`. -/
def Proposed (heard : List Frame) (v : Bytes) : Prop :=
  ∃ f ∈ heard, f.type = .updateAvailable ∧ kvGet f.payload (ascii "ver") maxVersionStr = some v

theorem Proposed.mono {heard heard' : List Frame} {v : Bytes} (h : Proposed heard v)
    (hsub : heard ⊆ heard') : Proposed heard' v := by
  obtain ⟨f, hf, hoffer⟩ := h
  exact ⟨f, hsub hf, hoffer⟩

/-- What the client may do: record a version only that it has been offered on its connection. -/
def climbs (ccfg : ClientConfig) (x : Holder) : ClientOp → Prop
  | .file o => decent ccfg (Proposed x.client.wire.ins) (x.client.fs, x.holds) o
  | _ => True

/-! ### Parts that leave the table alone -/

/-- An operation on files that names none the clients share. -/
def outsideFile : FileOp Path → Prop
  | .fopen p _ | .unlink p => p.shared = false
  | .rename a b => a.shared = false ∧ b.shared = false
  | .lock _ | .unlock _ => False
  | _ => True

/-- An operation that has nothing to do with the versions, and opens no connection. -/
def outside : ClientOp → Prop
  | .file o => outsideFile o
  | .protoSend f => f.type ≠ .versionReq
  | .netConnectTcp => False
  | _ => True

section Outside

variable {ccfg : ClientConfig} {α : Type}

theorem outside_of_internal {o : ClientOp} (h : internal o) : outside o := by
  cases o with
  | file o | protoSend f | netConnectTcp => exact h.elim
  | _ => trivial

theorem outside_file {p : Prog (stdio Path) α} (hp : p.Only outsideFile) : (file p).Only outside := by
  induction p with
  | ret a => trivial
  | call o k ih => exact .call hp.1 fun r => ih r (hp.2 r)
  | spin => trivial

theorem printLines_outside {h : Handle} (lines : List Bytes) :
    (printLines h lines).Only outsideFile := by
  induction lines with
  | nil => trivial
  | cons line lines ih => exact .call trivial fun _ => ih

theorem writeResumeMetadata_outside (version : Bytes) (offset totalSize : ℕ) (sha256 : Bytes) :
    (writeResumeMetadata ccfg version offset totalSize sha256).Only outsideFile := by
  unfold writeResumeMetadata
  split
  · trivial
  refine .call rfl fun r => ?_
  cases r with
  | none => trivial
  | some fp =>
      exact (printLines_outside _).bind fun _ =>
        .call trivial fun _ => .call trivial fun _ => .call trivial fun _ => trivial

theorem saveInterruptedDownload_outside (fp : Option Handle) (v : Bytes) (offset total : ℕ)
    (sha : Bytes) (result : AttemptResult) :
    (saveInterruptedDownload ccfg fp v offset total sha result).Only outside := by
  have hrest : Prog.Only outside (do
      file (writeResumeMetadata ccfg v offset total sha)
      if result = .paused then setPaused
      else if result = .reconnect then setResumeRetryActive true
      else .ret ()
      .ret result) := by
    refine (outside_file (writeResumeMetadata_outside v offset total sha)).bind fun _ => ?_
    split
    · exact .call trivial fun _ => trivial
    · split
      · exact .call trivial fun _ => trivial
      · trivial
  cases fp with
  | none => exact hrest
  | some fp =>
      exact .call trivial fun _ => .call trivial fun _ => .call trivial fun _ =>
        .call trivial fun _ => hrest

theorem pauseDownload_outside (d : Download) (received : ℕ) :
    (pauseDownload ccfg d received).Only outside := by
  have hwait : (waitForGuiResumeOnConnection ccfg).Only outside := by
    refine (waitForGuiResumeOnConnection_internal ccfg).mono fun o ho => ?_
    rcases ho with ho | rfl
    · exact outside_of_internal ho
    · exact nofun
  refine .call trivial fun _ => .call trivial fun _ =>
    (outside_file (writeResumeMetadata_outside ..)).bind fun _ => .call nofun fun sent => ?_
  cases sent with
  | false => exact .call trivial fun _ => trivial
  | true =>
      refine hwait.bind fun r => ?_
      cases r with
      | resumed | expired | ended => trivial

theorem handleFrame_outside (d : Download) (received : ℕ) (f : Frame) :
    (handleFrame d received f).Only outside := by
  have hgiveUp : ∀ rc : AttemptResult, Prog.Only outside (do
      free
      let _ ← file (fclose d.fp)
      let _ ← file (unlink (.part d.latest))
      .ret (.inr (some rc)) : ClientProg (ℕ ⊕ Option AttemptResult)) :=
    fun rc => .call trivial fun _ => .call trivial fun _ => .call rfl fun _ => trivial
  have hleave : Prog.Only outside (do
      free
      let _ ← file (fclose d.fp)
      .ret (.inr (some .retry)) : ClientProg (ℕ ⊕ Option AttemptResult)) :=
    .call trivial fun _ => .call trivial fun _ => trivial
  unfold handleFrame
  split
  · split
    · exact hgiveUp .fatal
    · split
      · refine .call trivial fun written => ?_
        show Prog.Only (E := clientInterface) outside (if written ≠ f.payload.length then _ else _)
        split
        · exact hleave
        · trivial
      · show Prog.Only (E := clientInterface) outside (if 0 ≠ f.payload.length then _ else _)
        split
        · exact hleave
        · trivial
  · split
    · split
      · trivial
      · exact hgiveUp .retry
    · exact hgiveUp .retry
  · exact hleave

theorem downloadRound_outside (d : Download) (received : ℕ) :
    (downloadRound ccfg d received).Only outside := by
  refine .call trivial fun pause => ?_
  cases pause with
  | true => exact pauseDownload_outside d received
  | false =>
      refine .call trivial fun stop => ?_
      cases stop with
      | true => exact (saveInterruptedDownload_outside ..).bind fun _ => trivial
      | false =>
          refine .call trivial fun r => ?_
          cases r with
          | ok f => exact handleFrame_outside d received f
          | eof | bad | tooLarge =>
              exact .call trivial fun stop => (saveInterruptedDownload_outside ..).bind fun _ => trivial

theorem sha256FileHex_outside (bound : ℕ) {p : Path} (hp : p.shared = false) :
    (sha256FileHex bound p).Only outsideFile := by
  refine .call hp fun r => ?_
  cases r with
  | none => trivial
  | some fp =>
      refine (Prog.Only.iterate (fun ctx => ?_) _ _).bind fun ctx => .call trivial fun _ => trivial
      refine .call trivial fun r => ?_
      show Prog.Only (E := stdio Path) outsideFile (if r.1.length < 65536 then _ else _)
      split
      · trivial
      · trivial

end Outside

/-! ### Where the client stands -/

/-- Without the lock; it asks for an update to `current`, if that is known, and has read `heard` on its
connection. -/
structure Standing (cfg : ServerConfig) (published : Manifest → Prop) (id : Bytes)
    (current : Option Bytes) (heard : List Frame) (x : Holder) : Prop where
  calm : Calm (x.client.fs, x.holds)
  hears : HearsNewer cfg published x.client
  heard : heard ⊆ x.client.wire.ins
  recorded : ∀ v, current = some v → readVersion id (x.client.fs.disk .table) = some v
  named : ∀ v, current = some v → ∀ f ∈ x.client.wire.outs, f.type = .versionReq →
    ∀ u, kvGet f.payload (ascii "cur") maxVersionStr = some u → u = v

section Standing

variable {cfg : ServerConfig} {published : Manifest → Prop} {ccfg : ClientConfig} {α : Type}
  {current : Option Bytes} {heard : List Frame} {x y : Holder} {Q : α → Holder → Prop}

/-- A run of the client, as long as it does what it may. -/
abbrev Climbs (cfg : ServerConfig) (published : Manifest → Prop) (ccfg : ClientConfig)
    (Q : α → Holder → Prop) (p : ClientProg α) (x : Holder) : Prop :=
  Safe (holderEnv cfg published ccfg.clientId) (climbs ccfg) Q p x

theorem Standing.forget {id : Bytes} (h : Standing cfg published id current heard x) :
    Standing cfg published id none [] x :=
  ⟨h.calm, h.hears, List.nil_subset _, nofun, nofun⟩

/-- What else the client has read. -/
theorem Standing.hear {id : Bytes} {f : Frame} (h : Standing cfg published id current heard x)
    (hf : f ∈ x.client.wire.ins) : Standing cfg published id current [f] x :=
  ⟨h.calm, h.hears, by simpa using hf, h.recorded, h.named⟩

theorem Standing.drift {id : Bytes} (h : Standing cfg published id current heard x)
    (hd : (holderEnv cfg published id).drift x y) : Standing cfg published id current heard y := by
  obtain ⟨a, i⟩ := x
  obtain ⟨b, j⟩ := y
  obtain ⟨hj, ⟨fs, wire, hfs, ⟨more, rfl⟩, hb⟩, hhears⟩ := hd
  obtain rfl : j = i := hj
  obtain rfl : b = _ := hb
  have hshared : (lockedEnv id).drift (a.fs, j) (fs, j) := ⟨rfl, hfs⟩
  have hcalm : Calm (fs, j) := h.calm.drift hshared
  exact ⟨hcalm, hhears h.hears, h.heard, fun v hv => hfs.recorded.trans (h.recorded v hv), h.named⟩

/-- The client says and does nothing that concerns the versions. -/
theorem Standing.step {id : Bytes} (h : Standing cfg published id current heard x)
    (hcalm : Calm (y.client.fs, y.holds)) (hhears : HearsNewer cfg published y.client)
    (hins : x.client.wire.ins ⊆ y.client.wire.ins)
    (htable : y.client.fs.disk .table = x.client.fs.disk .table)
    (houts : ∀ f ∈ y.client.wire.outs, f ∈ x.client.wire.outs ∨ f.type ≠ .versionReq) :
    Standing cfg published id current heard y := by
  refine ⟨hcalm, hhears, fun f hf => hins (h.heard hf), fun v hv => htable ▸ h.recorded v hv,
    fun v hv f hf htype => ?_⟩
  rcases houts f hf with hf | hne
  · exact h.named v hv f hf htype
  · exact absurd htype hne

/-- A call from where the client stands. -/
theorem climbs_call (h : Standing cfg published ccfg.clientId current heard x) {o : ClientOp}
    {k : ClientOp.Res o → ClientProg α}
    (hk : ∀ x, Standing cfg published ccfg.clientId current heard x → climbs ccfg x o ∧
      ∀ r y, (holderEnv cfg published ccfg.clientId).may x o r y →
        Climbs cfg published ccfg Q (k r) y) :
    Climbs cfg published ccfg Q (.call o k) x :=
  fun _ hd => hk _ (h.drift hd)

theorem climbs_ret (h : Standing cfg published ccfg.clientId current heard x) {a : α}
    (hQ : ∀ y, Standing cfg published ccfg.clientId current heard y → Q a y) :
    Climbs cfg published ccfg Q (.ret a) x :=
  fun _ hd => hQ _ (h.drift hd)

/-- What names no shared file works on none. -/
theorem spares_of_outside {fs : FileSystem Path} (hc : Clear fs) {o : FileOp Path}
    (ho : outsideFile o) {p : Path} (hp : p.shared = true) : fs.Spares p o := by
  have hopen : ∀ h s, fs.streams h = some s → s.path ≠ some p :=
    fun h s hs hpath => hc h s p hs hpath hp
  have hname : ∀ q : Path, q.shared = false → q ≠ p := by
    rintro q hq rfl
    rw [hq] at hp
    cases hp
  cases o with
  | fopen q m | unlink q => exact hname q ho
  | rename a b => exact ⟨hname a ho.1, hname b ho.2⟩
  | fseeko h n | fgets h n | fread h n | fwrite h bs | fputs h text | fflush h | fclose h =>
      exact hopen h
  | stat q | fsync h => trivial
  | lock q | unlock fd => exact ho.elim

/-- It leaves the table and the lock alone. -/
theorem outside_decent {fs : FileSystem Path} {holds : Bool} (hx : Calm (fs, holds))
    {o : FileOp Path} (ho : outsideFile o) :
    decent ccfg (Proposed heard) (fs, holds) o ∧ ∀ r fs', fs.may o r fs' →
      Calm (fs', holds) ∧ fs'.disk .table = fs.disk .table := by
  obtain rfl : holds = false := hx.free
  have hafter : heldAfter o false = false ∧ ¬ takesLock o := by
    cases o with
    | lock q | unlock fd => exact ho.elim
    | _ => exact ⟨rfl, nofun⟩
  have hkeep : ∀ r fs', fs.may o r fs' → Clear fs' ∧ ∀ p : Path, p.shared = true →
      fs'.disk p = fs.disk p :=
    fun r fs' hm => hx.clear.spared (fun p hp => spares_of_outside hx.clear ho hp) hm
  refine ⟨⟨fun h => absurd h hafter.2, fun r fs' hm => ?_⟩, fun r fs' hm => ?_⟩
  · obtain ⟨hclear, hdisk⟩ := hkeep r fs' hm.1
    exact ⟨.inl (hdisk .table rfl), fun _ => hdisk, hclear.table, fun _ _ hp => hclear.idle hp⟩
  · obtain ⟨hclear, hdisk⟩ := hkeep r fs' hm
    have htable := hdisk .table rfl
    refine ⟨⟨rfl, ?_, hclear⟩, htable⟩
    show Orderly (fs'.disk .table)
    rw [htable]
    exact hx.orderly

theorem climbs_of_not_file {o : ClientOp} (ho : ∀ o', o ≠ .file o') : climbs ccfg x o := by
  cases o with
  | file o' => exact absurd rfl (ho o')
  | _ => trivial

/-- A call other than on files leaves the files and the lock as they are. -/
theorem same_of_not_file {id : Bytes} {o : ClientOp} (ho : ∀ o', o ≠ .file o') {r : ClientOp.Res o}
    (hm : (holderEnv cfg published id).may x o r y) :
    y.client.fs = x.client.fs ∧ y.holds = x.holds := by
  obtain ⟨hm, hholds, -⟩ := hm
  refine ⟨ClientRules.may_fs hm ho, hholds.trans ?_⟩
  cases o with
  | file o' => exact absurd rfl (ho o')
  | _ => rfl

theorem outside_outs {ru : ClientRules} {w w' : ClientWorld} {o : ClientOp} (ho : outside o)
    {r : ClientOp.Res o} (hm : (clientEnv ru).may w o r w') :
    w.wire.ins ⊆ w'.wire.ins ∧ ∀ f ∈ w'.wire.outs, f ∈ w.wire.outs ∨ f.type ≠ .versionReq := by
  cases o with
  | netConnectTcp => exact ho.elim
  | protoSend f =>
      obtain ⟨_, hs, rfl⟩ := hm
      cases hs with
      | failed _ => exact ⟨fun _ hg => hg, fun _ => .inl⟩
      | sent _ =>
          refine ⟨fun _ hg => hg, fun g hg => ?_⟩
          rcases List.mem_append.mp hg with hg | hg
          · exact .inl hg
          · cases List.mem_singleton.mp hg
            exact .inr ho
  | protoRecv cap dataCap =>
      obtain ⟨_, hr, rfl⟩ := hm
      cases hr with
      | ok f fs hin hfit => exact ⟨List.subset_append_left .., fun _ => .inl⟩
      | tooLarge f fs hin hfit => exact ⟨fun _ hg => hg, fun _ => .inl⟩
      | failed hl r hr => exact ⟨fun _ hg => hg, fun _ => .inl⟩
  | file o =>
      obtain ⟨fs, -, rfl⟩ := hm
      exact ⟨fun _ hg => hg, fun _ => .inl⟩
  | tlsConnectConnection _ | stopRequested | activeFdWasSignalClosed _ | consumePauseRequest
  | consumeResumeRequest | resumeRetryActive | malloc _ =>
      obtain ⟨-, rfl⟩ := hm
      exact ⟨fun _ hg => hg, fun _ => .inl⟩
  | setPaused | setResumeRetryActive _ | connClose _ | sslFree | setActiveFd _ | free | usleep _ =>
      cases hm
      exact ⟨fun _ hg => hg, fun _ => .inl⟩

/-- A call that has nothing to do with the versions. -/
theorem Standing.outside {o : ClientOp} (ho : outside o)
    (h : Standing cfg published ccfg.clientId current heard x) :
    climbs ccfg x o ∧ ∀ r y, (holderEnv cfg published ccfg.clientId).may x o r y →
      Standing cfg published ccfg.clientId current heard y := by
  by_cases hfile : ∃ o', o = .file o'
  · obtain ⟨o', rfl⟩ := hfile
    obtain ⟨hdecent, hkeep⟩ := @outside_decent ccfg x.client.wire.ins _ _ h.calm o' ho
    refine ⟨hdecent, ?_⟩
    rintro r ⟨_, j⟩ ⟨⟨fs, hm, rfl⟩, hj, hhears⟩
    obtain ⟨hcalm, htable⟩ := hkeep r fs hm.1
    have hsame : heldAfter o' x.holds = x.holds := by
      cases o' with
      | lock q | unlock fd => exact ho.elim
      | _ => rfl
    obtain rfl : j = x.holds := hj.trans hsame
    exact h.step hcalm hhears (fun _ hf => hf) htable fun _ => .inl
  · have hno : ∀ o', o ≠ .file o' := fun o' ho' => hfile ⟨o', ho'⟩
    refine ⟨climbs_of_not_file hno, fun r y hm => ?_⟩
    obtain ⟨hfs, hholds⟩ := same_of_not_file hno hm
    obtain ⟨hins, houts⟩ := outside_outs ho hm.1
    refine h.step ?_ hm.2.2 hins (by rw [hfs]) houts
    rw [hfs, hholds]
    exact h.calm

theorem climbs_outside {o : ClientOp} (ho : outside o)
    (h : Standing cfg published ccfg.clientId current heard x) {k : ClientOp.Res o → ClientProg α}
    (hk : ∀ r y, Standing cfg published ccfg.clientId current heard y →
      Climbs cfg published ccfg Q (k r) y) :
    Climbs cfg published ccfg Q (.call o k) x :=
  climbs_call h fun _ h => ⟨(h.outside ho).1, fun r y hm => hk r y ((h.outside ho).2 r y hm)⟩

theorem climbs_only {p : ClientProg α} (hp : p.Only outside)
    (h : Standing cfg published ccfg.clientId current heard x) :
    Climbs cfg published ccfg (fun _ => Standing cfg published ccfg.clientId current heard) p x := by
  induction p generalizing x with
  | ret a => exact climbs_ret h fun _ h => h
  | call o k ih => exact climbs_outside hp.1 h fun r _ h => ih r (hp.2 r) h
  | spin => trivial

/-- `net_connect_tcp` -/
theorem climbs_connect (h : Standing cfg published ccfg.clientId current heard x)
    {k : Option ℕ → ClientProg α}
    (hk : ∀ r y, Standing cfg published ccfg.clientId current [] y →
      Climbs cfg published ccfg Q (k r) y) :
    Climbs cfg published ccfg Q (.call .netConnectTcp k) x := by
  refine climbs_call h fun x h => ⟨trivial, fun r y hm => hk r y ?_⟩
  obtain ⟨hfs, hholds⟩ := same_of_not_file (o := .netConnectTcp) (by nofun) hm
  have hcalm : Calm (y.client.fs, y.holds) := by
    rw [hfs, hholds]
    exact h.calm
  refine ⟨hcalm, hm.2.2, List.nil_subset _, fun v hv => hfs ▸ h.recorded v hv, fun v hv f hf => ?_⟩
  cases r with
  | none => exact h.named v hv f (hm.1.2 ▸ hf)
  | some fd =>
      -- nothing has been said on the new connection
      rw [hm.1] at hf
      cases hf

/-- `recv_control` -/
theorem climbs_recvControl (h : Standing cfg published ccfg.clientId current heard x)
    {k : Option (MsgType × Bytes) → ClientProg α}
    (hnone : ∀ y, Standing cfg published ccfg.clientId current heard y →
      Climbs cfg published ccfg Q (k none) y)
    (hsome : ∀ f y, Standing cfg published ccfg.clientId current heard y → f ∈ y.client.wire.ins →
      Climbs cfg published ccfg Q (k (some (f.type, f.payload))) y) :
    Climbs cfg published ccfg Q (Client.recvControl >>= k) x := by
  unfold Client.recvControl
  simp only [Prog.call_bind]
  refine climbs_call h fun x h => ⟨trivial, fun r y hm => ?_⟩
  have hy := (h.outside (by trivial)).2 r y hm
  obtain ⟨⟨_, hr, hw⟩, -⟩ := hm
  cases r with
  | ok f =>
      refine hsome f y hy ?_
      cases hr with
      | ok _ fs hin hfit =>
          rw [hw]
          exact List.mem_append_right _ (List.mem_singleton_self f)
      | failed hl _ hr => exact absurd rfl (hr f)
  | eof | bad | tooLarge => exact hnone y hy

/-- A part that works on files. -/
theorem climbs_file {R : α → FileSystem Path × Bool → Prop} {p : Prog (stdio Path) α}
    (hhears : HearsNewer cfg published x.client)
    (hp : Safe (lockedEnv ccfg.clientId) (decent ccfg (Proposed x.client.wire.ins)) R p
      (x.client.fs, x.holds)) :
    Climbs cfg published ccfg (fun a y => R a (y.client.fs, y.holds) ∧
      HearsNewer cfg published y.client ∧ y.client.wire.outs = x.client.wire.outs) (file p) x := by
  suffices hkept : Climbs cfg published ccfg (fun a y => R a (y.client.fs, y.holds) ∧
      HearsNewer cfg published y.client ∧ y.client.wire.outs = x.client.wire.outs ∧
        y.client.wire.ins = x.client.wire.ins) (file p) x from
    hkept.post fun _ _ h => ⟨h.1, h.2.1, h.2.2.1⟩
  refine safe_interp (fun x : Holder => (x.client.fs, x.holds)) (fun y =>
    HearsNewer cfg published y.client ∧ y.client.wire.outs = x.client.wire.outs ∧
      y.client.wire.ins = x.client.wire.ins) id ?_ ?_ ⟨hhears, rfl, rfl⟩ hp
  · rintro ⟨a, i⟩ ⟨b, j⟩ ⟨ha, houts⟩ ⟨hj, ⟨fs, wire, hfs, ⟨more, rfl⟩, hb⟩, hh⟩
    obtain rfl : j = i := hj
    obtain rfl : b = _ := hb
    exact ⟨⟨rfl, hfs⟩, hh ha, houts⟩
  · rintro ⟨a, i⟩ o ⟨ha, houts⟩ hG ⟨b, j⟩ ⟨hj, ⟨fs, wire, hfs, ⟨more, rfl⟩, hb⟩, hh⟩
    obtain rfl : j = i := hj
    obtain rfl : b = _ := hb
    have hguard := hG (fs, j) ⟨rfl, hfs⟩
    rw [← houts.2] at hguard
    refine ⟨hguard, ?_⟩
    rintro r ⟨c, k⟩ ⟨⟨fs₂, hm, hc⟩, hk, hhears₂⟩ ⟨d, l⟩ ⟨hl, ⟨fs₃, wire₃, hfs₃, ⟨more₃, rfl⟩, hd⟩, hh₃⟩
    obtain rfl : c = _ := hc
    obtain rfl : l = k := hl
    obtain rfl : d = _ := hd
    exact ⟨⟨(fs, j), (fs₂, l), ⟨rfl, hfs⟩, ⟨hm, hk⟩, rfl, hfs₃⟩, hh₃ hhears₂, houts⟩

end Standing

/-! ### The client -/

/-- What is still known after an attempt: one that has ended the matter may have recorded a version. -/
def knownAfter (current : Bytes) : AttemptResult → Option Bytes
  | .success | .fatal | .paused => none
  | _ => some current

section Client

variable {cfg : ServerConfig} {published : Manifest → Prop} {ccfg : ClientConfig} {m : Manifest}
  {current : Bytes} {heard : List Frame} {x : Holder}

/-- How an attempt ends. -/
abbrev Attempted (cfg : ServerConfig) (published : Manifest → Prop) (ccfg : ClientConfig)
    (current : Bytes) (rc : AttemptResult) : Holder → Prop :=
  Standing cfg published ccfg.clientId (knownAfter current rc) []

theorem attempted_of_standing {rc : AttemptResult}
    (h : Standing cfg published ccfg.clientId (some current) heard x) :
    Attempted cfg published ccfg current rc x := by
  have hknown : Standing cfg published ccfg.clientId (some current) [] x :=
    ⟨h.calm, h.hears, List.nil_subset _, h.recorded, h.named⟩
  cases rc with
  | success | fatal | paused => exact h.forget
  | retry | reconnect | resumeReconnect => exact hknown

theorem attempted_ret {rc : AttemptResult}
    (h : Standing cfg published ccfg.clientId (some current) heard x) :
    Climbs cfg published ccfg (Attempted cfg published ccfg current) (.ret rc) x :=
  climbs_ret h fun _ h => attempted_of_standing h

theorem attempted_only {p : ClientProg AttemptResult} (hp : p.Only outside)
    (h : Standing cfg published ccfg.clientId (some current) heard x) :
    Climbs cfg published ccfg (Attempted cfg published ccfg current) p x :=
  (climbs_only hp h).post fun _ _ h => attempted_of_standing h

/-- A version that is published, newer, and offered in `heard`. -/
structure Offers (published : Manifest → Prop) (heard : List Frame) (current : Bytes)
    (m : Manifest) : Prop where
  published : published m
  proposed : Proposed heard m.latestVersion
  advertisable : Advertisable m
  valid : verIsValid m.latestVersion = true
  newer : NotAbove current m.latestVersion

/-- What follows the rename: the result, the version table and the resume file. -/
theorem recordUpdate_climbs (hid : RowId ccfg.clientId) (hoffers : Offers published heard current m)
    (h : Standing cfg published ccfg.clientId (some current) heard x) :
    Climbs cfg published ccfg (Attempted cfg published ccfg current) (do
      if ¬ (← file (writeVersionFile ccfg m.latestVersion)) then .ret .fatal
      else if ¬ (Path.resume m.latestVersion).fits ccfg then .ret .fatal
      else
        let _ ← file (unlink (.resume m.latestVersion))
        setResumeRetryActive false
        .ret .success : ClientProg AttemptResult) x := by
  have hcalm := h.calm
  have hrecorded := h.recorded current rfl
  have hwritten : Safe (lockedEnv ccfg.clientId) (decent ccfg (Proposed x.client.wire.ins))
      (fun _ y => Calm y) (writeVersionFile ccfg m.latestVersion) (x.client.fs, x.holds) := by
    have hfree : x.holds = false := h.calm.free
    rw [hfree] at hcalm ⊢
    let v : VersionText := ⟨m.latestVersion, hoffers.advertisable.version, hoffers.valid⟩
    exact (writeVersionFile_decent hid (v := v) (hoffers.proposed.mono h.heard) hoffers.newer hcalm
      hrecorded).post fun _ _ h => h.1
  have hleave : ∀ {y : Holder} (rc : AttemptResult), knownAfter current rc = none →
      Standing cfg published ccfg.clientId none [] y →
      Climbs cfg published ccfg (Attempted cfg published ccfg current) (.ret rc) y :=
    fun rc hrc h => climbs_ret h fun _ h => by rwa [Attempted, hrc]
  refine safe_bind.mpr ((climbs_file h.hears hwritten).post fun ok y hy => ?_)
  have hy' : Standing cfg published ccfg.clientId none [] y := ⟨hy.1, hy.2.1, List.nil_subset _, nofun, nofun⟩
  split
  · exact hleave .fatal rfl hy'
  · split
    · exact hleave .fatal rfl hy'
    · refine climbs_outside (o := .file (.unlink (.resume m.latestVersion))) rfl hy' fun _ y h => ?_
      exact climbs_outside (by trivial) h fun _ y h => hleave .success rfl h

theorem installUpdate_climbs (hid : RowId ccfg.clientId) (hoffers : Offers published heard current m)
    (bound : ℕ) {d : Download} (hd : d.latest = m.latestVersion)
    (h : Standing cfg published ccfg.clientId (some current) heard x) :
    Climbs cfg published ccfg (Attempted cfg published ccfg current) (installUpdate bound ccfg d)
      x := by
  have hclose : ∀ {y}, Standing cfg published ccfg.clientId (some current) heard y →
      Climbs cfg published ccfg (Attempted cfg published ccfg current)
        (.call (.file (.fclose d.fp)) fun _ => .ret .retry) y :=
    fun h => climbs_outside (by trivial) h fun _ _ h => attempted_ret h
  unfold installUpdate
  simp only [Prog.call_bind, Prog.ret_bind, file_call, file_ret]
  refine climbs_outside (by trivial) h fun _ x h => ?_
  refine climbs_outside (by trivial) h fun flushed x h => ?_
  cases flushed with
  | false => exact hclose h
  | true =>
      refine climbs_outside (by trivial) h fun synced x h => ?_
      cases synced with
      | false => exact hclose h
      | true =>
          refine climbs_outside (by trivial) h fun _ x h => ?_
          refine safe_bind.mpr ((climbs_only (outside_file (sha256FileHex_outside bound rfl))
            h).post fun actual x h => ?_)
          split
          · refine climbs_outside (o := .protoSend _) (by exact nofun) h fun _ x h => ?_
            refine climbs_outside (by exact rfl) h fun _ x h => attempted_ret h
          · refine climbs_outside (by exact ⟨rfl, rfl⟩) h fun renamed x h => ?_
            cases renamed with
            | false => exact attempted_ret h
            | true =>
                refine climbs_outside (o := .protoSend _) (by exact nofun) h fun _ x h => ?_
                rw [hd]
                exact climbs_recvControl h (fun _ h => recordUpdate_climbs hid hoffers h)
                  fun _ _ h _ => recordUpdate_climbs hid hoffers h

theorem downloadFrom_climbs (hid : RowId ccfg.clientId) (hoffers : Offers published heard current m)
    (bound : ℕ) (sha : Bytes) (size chunk offset : ℕ)
    (h : Standing cfg published ccfg.clientId (some current) heard x) :
    Climbs cfg published ccfg (Attempted cfg published ccfg current)
      (downloadFrom bound ccfg m.latestVersion sha size chunk offset) x := by
  unfold downloadFrom
  simp only [Prog.call_bind, Prog.ret_bind, file_call, file_ret]
  refine climbs_outside (o := .protoSend _) (by exact nofun) h fun sent x h => ?_
  cases sent with
  | false =>
      exact climbs_outside (by trivial) h fun stop x h =>
        attempted_only (saveInterruptedDownload_outside ..) h
  | true =>
      refine climbs_outside (by exact rfl) h fun fp x h => ?_
      cases fp with
      | none => exact attempted_ret h
      | some fp =>
          refine climbs_outside (by trivial) h fun allocated x h => ?_
          cases allocated with
          | false => exact climbs_outside (by trivial) h fun _ x h => attempted_ret h
          | true =>
              refine safe_bind.mpr ((climbs_only (Prog.Only.iterate (downloadRound_outside _) _ _)
                h).post fun rc x h => ?_)
              cases rc with
              | some rc => exact attempted_ret h
              | none => exact installUpdate_climbs hid hoffers bound rfl h

theorem receiveOffer_climbs (hid : RowId ccfg.clientId) (hoffers : Offers published heard current m)
    (bound : ℕ) (sha : Bytes) (size chunk : ℕ)
    (h : Standing cfg published ccfg.clientId (some current) heard x) :
    Climbs cfg published ccfg (Attempted cfg published ccfg current)
      (receiveOffer bound ccfg m.latestVersion sha size chunk) x := by
  unfold receiveOffer
  split
  · exact attempted_ret h
  split
  · exact attempted_ret h
  unfold fileSizeOrZero
  simp only [Prog.call_bind, Prog.ret_bind, file_call, file_ret]
  refine climbs_outside (by trivial) h fun size x h => ?_
  split
  · exact climbs_outside (o := .file (.unlink (.part m.latestVersion))) rfl h fun _ x h =>
      downloadFrom_climbs hid hoffers bound _ _ _ _ h
  · exact downloadFrom_climbs hid hoffers bound _ _ _ _ h

/-- What the client reads in an offer. -/
theorem offer_read {payload : Bytes} (hadv : Advertisable m)
    (hvalid : verIsValid m.latestVersion = true) (hoffer : payload = (offerFrame cfg m).payload) :
    kvGet payload (ascii "ver") maxVersionStr = some m.latestVersion ∧
      ∀ bound ccfg, receiveUpdate bound ccfg payload =
        receiveOffer bound ccfg m.latestVersion m.checksumSha256 m.packageSize cfg.chunkSize := by
  obtain ⟨hframe, -, hread, hreceive⟩ := offerArrives cfg hadv hvalid
  have hpayload : payload = Server.updateMeta cfg m :=
    hoffer.trans ((congrArg Frame.payload hframe).trans (updateMeta_eq cfg hadv).1.symm)
  rw [hpayload]
  exact ⟨hread.version, hreceive⟩

/-- What is published can be advertised. -/
structure Publishable (published : Manifest → Prop) : Prop where
  advertisable : ∀ m, published m → Advertisable m
  valid : ∀ m, published m → verIsValid m.latestVersion = true

theorem requestVersion_climbs (hid : RowId ccfg.clientId) (hpub : Publishable published) (bound : ℕ)
    (fd : ℕ) (ssl : Bool) (h : Standing cfg published ccfg.clientId (some current) [] x) :
    Climbs cfg published ccfg (Attempted cfg published ccfg current)
      (requestVersion bound ccfg current fd ssl) x := by
  have hinternal : ∀ {p : ClientProg AttemptResult}, p.Only internal → p.Only outside :=
    fun hp => hp.mono fun _ => outside_of_internal
  have hgiveUp : (closeWith fd ssl pausedOrRetry).Only outside :=
    hinternal (closeWith_internal fd ssl pausedOrRetry_internal)
  have hclose : (closeAttemptConnection fd ssl).Only outside :=
    (closeAttemptConnection_internal fd ssl).mono fun _ => outside_of_internal
  -- what is recorded is a version
  obtain ⟨v, hv⟩ : ∃ v : VersionText, v.text = current := by
    obtain ⟨u, hu, hvalid, hfits⟩ := h.calm.orderly.read ccfg.clientId
    cases (h.recorded current rfl).symm.trans hu
    exact ⟨⟨current, hfits, hvalid⟩, rfl⟩
  unfold requestVersion
  simp only [Prog.call_bind, Prog.ret_bind]
  refine climbs_call h fun x h => ⟨trivial, fun sent y hm => ?_⟩
  have hy : Standing cfg published ccfg.clientId (some current) [] y := by
    obtain ⟨⟨_, hs, hw⟩, hholds, hhears⟩ := hm
    obtain ⟨c, j⟩ := y
    obtain rfl : c = _ := hw
    obtain rfl : j = x.holds := hholds
    refine ⟨h.calm, hhears, List.nil_subset _, h.recorded, ?_⟩
    rintro _ ⟨⟩ f hf htype u hu
    cases hs with
    | failed _ => exact h.named current rfl f hf htype u hu
    | sent _ =>
        rcases List.mem_append.mp hf with hf | hf
        · exact h.named current rfl f hf htype u hu
        · cases List.mem_singleton.mp hf
          have hread := kvGet_versionReq v
          rw [hv] at hread
          exact Option.some.inj (hu.symm.trans hread)
  cases sent with
  | false => exact attempted_only hgiveUp hy
  | true =>
      refine climbs_recvControl hy (fun x h => attempted_only hgiveUp h) fun f x h hf => ?_
      obtain ⟨type, flags, payload⟩ := f
      cases type with
      | uptodate =>
          have hrest : (do
              closeAttemptConnection fd ssl
              setResumeRetryActive false
              if ← interruptibleSleepMs 10000 then .ret .paused else .ret .success :
                ClientProg AttemptResult).Only outside :=
            hclose.bind fun _ => .call trivial fun _ => hinternal (settledSleep_internal _ _)
          exact climbs_recvControl h (fun _ h => attempted_only hrest h)
            fun _ _ h _ => attempted_only hrest h
      | updateAvailable =>
          obtain ⟨named, m, hnewer⟩ := h.hears _ (List.mem_append_left _ hf) rfl
          obtain ⟨r, hr, hreq, hnamed⟩ := hnewer.named
          obtain rfl : named = current := h.named current rfl r hr hreq named hnamed
          obtain ⟨hversion, hreceive⟩ :=
            offer_read (hpub.advertisable m hnewer.published) (hpub.valid m hnewer.published)
              (congrArg Frame.payload hnewer.offer)
          have hoffers : Offers published [⟨.updateAvailable, flags, payload⟩] named m := by
            obtain ⟨cmp, hcmp, hlt⟩ := hnewer.newer
            exact ⟨hnewer.published, ⟨_, List.mem_singleton_self _, rfl, hversion⟩,
              hpub.advertisable m hnewer.published, hpub.valid m hnewer.published,
              cmp, hcmp, Int.le_of_lt hlt⟩
          simp only [hreceive]
          refine safe_bind.mpr ((receiveOffer_climbs hid hoffers bound _ _ _ (h.hear hf)).post
            fun rc x h => ?_)
          -- an update that is installed ends the matter
          refine safe_bind.mpr ((climbs_only hclose h).post fun _ x h => ?_)
          split
          next hsuccess =>
            have hforget : Standing cfg published ccfg.clientId none [] x := h.forget
            have hsleep := settledSleep_internal 10000 rc
            subst hsuccess
            refine safe_bind.mpr ((climbs_only ((interruptibleSleepMs_internal _).mono
              fun _ => outside_of_internal) hforget).post fun stop x h => ?_)
            split
            · exact climbs_ret h fun _ h => h
            · exact climbs_ret h fun _ h => h
          next => exact climbs_ret h fun _ h => h
      | error =>
          exact attempted_only (hinternal (refusal_internal ..)) h
      | _ => exact attempted_only hgiveUp h

theorem converse_climbs (hid : RowId ccfg.clientId) (hpub : Publishable published) (bound : ℕ)
    (fd : ℕ) (ssl : Bool) (h : Standing cfg published ccfg.clientId (some current) [] x) :
    Climbs cfg published ccfg (Attempted cfg published ccfg current)
      (converse bound ccfg current fd ssl) x := by
  have hinternal : ∀ {p : ClientProg AttemptResult}, p.Only internal → p.Only outside :=
    fun hp => hp.mono fun _ => outside_of_internal
  have hgiveUp : (closeWith fd ssl pausedOrRetry).Only outside :=
    hinternal (closeWith_internal fd ssl pausedOrRetry_internal)
  unfold converse
  refine climbs_recvControl h (fun _ h => attempted_only hgiveUp h) fun f x h _ => ?_
  obtain ⟨type, flags, payload⟩ := f
  cases type with
  | hello =>
      simp only [Prog.call_bind, Prog.ret_bind]
      refine climbs_outside (o := .protoSend _) (by exact nofun) h fun sent x h => ?_
      cases sent with
      | false => exact attempted_only hgiveUp h
      | true =>
          refine climbs_recvControl h (fun _ h => attempted_only hgiveUp h) fun f x h _ => ?_
          obtain ⟨type, flags, payload⟩ := f
          cases type with
          | authOk => exact requestVersion_climbs hid hpub bound fd ssl h
          | error =>
              exact attempted_only (hinternal (refusal_internal ..)) h
          | _ => exact attempted_only hgiveUp h
  | _ => exact attempted_only hgiveUp h

theorem runAttempt_climbs (hid : RowId ccfg.clientId) (hpub : Publishable published) (bound : ℕ)
    (h : Standing cfg published ccfg.clientId (some current) [] x) :
    Climbs cfg published ccfg (Attempted cfg published ccfg current)
      (runAttempt bound ccfg current) x := by
  have hgiveUp : pausedOrRetry.Only outside :=
    pausedOrRetry_internal.mono fun _ => outside_of_internal
  unfold runAttempt
  simp only [Prog.call_bind, Prog.ret_bind]
  refine climbs_connect h fun fd x h => ?_
  cases fd with
  | none => exact attempted_only hgiveUp h
  | some fd =>
      have hclose : ∀ {p : ClientProg AttemptResult}, p.Only internal →
          (closeWith fd false p).Only outside :=
        fun hp => (closeWith_internal fd false hp).mono fun _ => outside_of_internal
      refine climbs_outside (by trivial) h fun _ x h => ?_
      refine climbs_outside (by trivial) h fun stop x h => ?_
      cases stop with
      | true => exact attempted_only (hclose trivial) h
      | false =>
          simp only [Bool.false_eq_true, if_false]
          split
          · refine climbs_outside (by trivial) h fun tls x h => ?_
            cases tls with
            | true => exact converse_climbs hid hpub bound fd true h
            | false => exact attempted_only (hclose pausedOrRetry_internal) h
          · exact converse_climbs hid hpub bound fd false h

/-- How a round of the loop of `CheckForUpdate` ends. -/
def RoundDone (cfg : ServerConfig) (published : Manifest → Prop) (ccfg : ClientConfig)
    (current : Bytes) : ℕ ⊕ CheckResult → Holder → Prop
  | .inl _ => Standing cfg published ccfg.clientId (some current) []
  | .inr _ => Standing cfg published ccfg.clientId none []

theorem attemptRound_climbs (hid : RowId ccfg.clientId) (hpub : Publishable published) (bound : ℕ)
    (attempt : ℕ) (h : Standing cfg published ccfg.clientId (some current) [] x) :
    Climbs cfg published ccfg (RoundDone cfg published ccfg current)
      (attemptRound ccfg (runAttempt bound ccfg current) attempt) x := by
  -- after the attempt nothing concerns the versions
  have hrest : ∀ {y : Holder} {p : ClientProg (ℕ ⊕ CheckResult)}, p.Only internal →
      Standing cfg published ccfg.clientId (some current) [] y →
      Climbs cfg published ccfg (RoundDone cfg published ccfg current) p y := by
    intro y p hp h
    refine (climbs_only (hp.mono fun _ => outside_of_internal) h).post fun r y h => ?_
    cases r with
    | inl _ => exact h
    | inr _ => exact h.forget
  have hover : ∀ {y : Holder} {r : CheckResult}, Standing cfg published ccfg.clientId none [] y →
      Climbs cfg published ccfg (RoundDone cfg published ccfg current) (.ret (.inr r)) y :=
    fun h => climbs_ret h fun _ h => h
  unfold attemptRound
  split
  · exact hover h.forget
  simp only [Prog.call_bind, Prog.ret_bind]
  refine climbs_outside (by trivial) h fun stop x h => ?_
  cases stop with
  | true => exact climbs_outside (by trivial) h fun _ _ h => hover h.forget
  | false =>
      refine safe_bind.mpr ((runAttempt_climbs hid hpub bound h).post fun rc x h => ?_)
      cases rc with
      | success => exact hover h
      | paused => exact hover h
      | fatal => exact hover h
      | resumeReconnect =>
          dsimp only
          split
          · exact climbs_ret h fun _ h => h
          · exact hover h.forget
      | reconnect =>
          dsimp only
          split
          · exact hrest (retrySleep_internal _ _) h
          · exact hover h.forget
      | retry =>
          dsimp only
          split
          · exact hrest (retrySleep_internal _ _) h
          · exact climbs_ret h fun _ h => h

/-- **The version of a client goes up**, under the lock and to one that is published, whatever
fails outside the lock. -/
theorem checkForUpdate_climbs (hid : RowId ccfg.clientId) (hcur : ccfg.currentVersion = [])
    (hpub : Publishable published) (bound : ℕ)
    (h : Standing cfg published ccfg.clientId none [] x) (hwire : x.client.wire.outs = []) :
    Climbs cfg published ccfg (fun _ => Standing cfg published ccfg.clientId none [])
      (checkForUpdate bound ccfg) x := by
  have hcalm := h.calm
  have hread : Safe (lockedEnv ccfg.clientId) (decent ccfg (Proposed x.client.wire.ins))
      (fun r x => Calm x ∧ ∀ v, r = some v → readVersion ccfg.clientId (x.1.disk .table) = some v)
      (getCurrentVersion bound ccfg) (x.client.fs, x.holds) := by
    have hfree : x.holds = false := h.calm.free
    rw [hfree] at hcalm ⊢
    exact getCurrentVersion_decent hcur bound hcalm
  unfold checkForUpdate
  refine safe_bind.mpr ((climbs_file h.hears hread).post ?_)
  rintro r y ⟨⟨hy, hrecorded⟩, hhears, houts⟩
  cases r with
  | none =>
      have hnone : Standing cfg published ccfg.clientId none [] y :=
        ⟨hy, hhears, List.nil_subset _, nofun, nofun⟩
      exact climbs_ret hnone fun _ h => h
  | some current =>
      have hstart : Standing cfg published ccfg.clientId (some current) [] y := by
        refine ⟨hy, hhears, List.nil_subset _, ?_, ?_⟩
        · rintro _ ⟨⟩
          exact hrecorded current rfl
        · rintro _ _ f hf
          rw [houts, hwire] at hf
          cases hf
      refine safe_loop _ trivial (fun _ => Standing cfg published ccfg.clientId (some current) [])
        (fun attempt x h => ?_) bound hstart
      refine (attemptRound_climbs hid hpub bound attempt h).post fun r x h => ?_
      cases r with
      | inl _ => exact h
      | inr _ => exact fun _ hd => h.drift hd

end Client

end UpdateFramework.System
