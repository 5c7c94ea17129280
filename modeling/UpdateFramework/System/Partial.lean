import UpdateFramework.Client.Internal
import UpdateFramework.Client.World
import UpdateFramework.Libc.Appending
import UpdateFramework.System.Attempt
import UpdateFramework.System.Candid

/-!
# System — the partial file of a client

A client downloads in as many attempts as it takes, each cut wherever it is cut.  Where what it hears
is candid (`Heard`), its partial file never holds anything but a beginning of the package: what is on
the disk and what is pending are one, and it asks for what comes after (`checkForUpdate_faithful`).

`reliable`: reading a file does not fail.  Everything else may, and reading too where nothing is said.
-/

namespace UpdateFramework.System

open Libc Process Client FileSystem
open Server (requestedOffset)

/-! ### Surroundings -/

/-- An operation that reads. -/
def inspects : FileOp Path → Prop
  | .stat _ | .fread _ _ => True
  | .fopen _ m => m = .r
  | _ => False

/-- Anything may fail, but reading only if it is not `reliable`. -/
def readerRules (reliable : Prop) : ClientRules :=
  { hostileRules with
    file := fun fs o r fs' => fs.may o r fs' ∧ (reliable → inspects o → (r, fs') = fs.ok o)
    file_may := And.left }

/-- What the client has heard, or will hear. -/
def Heard (cfg : ServerConfig) (m : Manifest) (content : Bytes) (w : ClientWorld) : Prop :=
  Candid cfg m content w.wire.outs (w.wire.ins ++ w.wire.inbox)

/-- The surroundings of a client that hears nothing but the truth. -/
def candidEnv (cfg : ServerConfig) (m : Manifest) (content : Bytes) (reliable : Prop) :
    Env clientInterface ClientWorld :=
  (clientEnv (readerRules reliable)).within (Heard cfg m content)

/-- How the client reports a digest that does not match. -/
abbrev checksumFail : Frame := textFrame .result (ascii "status=checksum_fail")

/-- How it reports an installation. -/
abbrev statusOk : Frame := textFrame .result (ascii "status=ok")

/-- What an operation may do to the partial file of `v`. -/
structure Careful (v content : Bytes) (reliable : Prop) (fs : FileSystem Path)
    (o : FileOp Path) : Prop where
  kept : ∀ r fs', fs.may o r fs' → fs'.Kept content (.part v)
  grows : reliable → (∀ q, o ≠ .rename (.part v) q) → ∀ r fs', fs.may o r fs' →
    (fs.disk (.part v)).getD [] <+: (fs'.disk (.part v)).getD []
  installs : ∀ q, o = .rename (.part v) q → q = .final v ∧ fs.disk (.part v) = some content

/-- What the client may do. -/
def faithful (m : Manifest) (content : Bytes) (reliable : Prop) (w : ClientWorld) : ClientOp → Prop
  | .file o => Careful m.latestVersion content reliable w.fs o
  | .protoSend f =>
    (f.type = .downloadReq → requestedOffset m f.payload ≤ content.length ∧
      (reliable → requestedOffset m f.payload =
        ((w.fs.disk (.part m.latestVersion)).getD []).length)) ∧
    (reliable → f ≠ checksumFail) ∧
    (f = statusOk → w.fs.disk (.final m.latestVersion) = some content)
  | _ => True

theorem sameAt_of_onlyShared {fs fs' : FileSystem Path} (h : OnlyShared fs fs') {p : Path}
    (hp : p.shared = false) : SameAt p fs fs' where
  disk := h.disk p hp
  fresh := Nat.le_of_eq h.fresh.symm
  old _ _ hs _ := h.streams ▸ hs
  stays _ _ _ hs _ := h.streams ▸ hs

section Careful

variable {v content : Bytes} {reliable : Prop} {fs fs' : FileSystem Path} {o : FileOp Path}

theorem careful_of_spares (hk : fs.Kept content (.part v)) (ho : fs.Spares (.part v) o) :
    Careful v content reliable fs o where
  kept _ _ hm := hk.same (may_spared hm ho)
  grows _ _ _ _ hm := (may_spared hm ho).disk ▸ List.prefix_refl _
  installs q hq := by
    subst hq
    exact absurd rfl ho.1

theorem careful_of_untouched (hi : fs.Idle (.part v)) (hd : (fs.disk (.part v)).getD [] <+: content)
    (ho : ¬ fs.Touches o (.part v)) : Careful v content reliable fs o where
  kept _ _ hm := (hi.untouched hm ho).kept ((may_disk hm ho).symm ▸ hd)
  grows _ _ _ _ hm := may_disk hm ho ▸ List.prefix_refl _
  installs q hq := by
    subst hq
    exact absurd (.inl rfl) ho

/-- An operation that takes nothing from the partial file. -/
theorem careful_of_kept (hk : ∀ r fs', fs.may o r fs' → fs'.Kept content (.part v))
    (hopen : o ≠ .fopen (.part v) .w) (hunlink : o ≠ .unlink (.part v))
    (hrename : ∀ q, o ≠ .rename (.part v) q ∧ o ≠ .rename q (.part v)) :
    Careful v content reliable fs o where
  kept := hk
  grows _ _ _ _ hm := may_grows hm hopen hunlink hrename
  installs q hq := absurd hq (hrename q).1

end Careful

/-! ### Between two downloads -/

section Client

variable {cfg : ServerConfig} {m : Manifest} {content : Bytes} {reliable : Prop} {ccfg : ClientConfig}
  {w w' : ClientWorld} {α : Type}

/-- From `w` to `w'`, the partial file and what has been read are the same, and nothing was asked
for. -/
structure Aside (m : Manifest) (w w' : ClientWorld) : Prop where
  files : SameAt (.part m.latestVersion) w.fs w'.fs
  ins : w'.wire.ins = w.wire.ins
  outs : ∃ more, w'.wire.outs = w.wire.outs ++ more ∧ ∀ f ∈ more, f.type ≠ .downloadReq

/-- What goes on beside the download does not change. -/
structure Stays (cfg : ServerConfig) (m : Manifest) (content : Bytes) (J : ClientWorld → Prop) :
    Prop where
  kept : ∀ {w}, J w → Heard cfg m content w ∧ w.fs.Kept content (.part m.latestVersion)
  aside : ∀ {w w'}, J w → Aside m w w' → Heard cfg m content w' → J w'

/-- Nor does what is read. -/
structure Listens (cfg : ServerConfig) (m : Manifest) (content : Bytes) (J : ClientWorld → Prop) :
    Prop extends Stays cfg m content J where
  hears : ∀ {w w'}, J w → w'.fs = w.fs → w'.wire.outs = w.wire.outs → Heard cfg m content w' → J w'

/-- A run of the client, as long as it is faithful. -/
abbrev Faithful (cfg : ServerConfig) (m : Manifest) (content : Bytes) (reliable : Prop)
    (Q : α → ClientWorld → Prop) (p : ClientProg α) (w : ClientWorld) : Prop :=
  Safe (candidEnv cfg m content reliable) (faithful m content reliable) Q p w

theorem aside_of_drift (hd : (candidEnv cfg m content reliable).drift w w') : Aside m w w' := by
  obtain ⟨⟨fs, wire, hfs, ⟨more, rfl⟩, rfl⟩, -⟩ := hd
  exact ⟨sameAt_of_onlyShared hfs rfl, rfl, [], (List.append_nil _).symm, nofun⟩

theorem Stays.drift {J : ClientWorld → Prop} (hJ : Stays cfg m content J) (h : J w)
    (hd : (candidEnv cfg m content reliable).drift w w') : J w' :=
  hJ.aside h (aside_of_drift hd) (hd.2 (hJ.kept h).1)

/-- A call from a state that stays. -/
theorem faithful_call {J : ClientWorld → Prop} (hJ : Stays cfg m content J) (h : J w)
    {o : ClientOp} {k : ClientOp.Res o → ClientProg α} {Q : α → ClientWorld → Prop}
    (hk : ∀ w, J w → faithful m content reliable w o ∧
      ∀ r w', (candidEnv cfg m content reliable).may w o r w' →
        Faithful cfg m content reliable Q (k r) w') :
    Faithful cfg m content reliable Q (.call o k) w :=
  fun _ hd => hk _ (hJ.drift h hd)

theorem faithful_ret {J : ClientWorld → Prop} (hJ : Stays cfg m content J) (h : J w) {a : α}
    {Q : α → ClientWorld → Prop} (hQ : ∀ w, J w → Q a w) :
    Faithful cfg m content reliable Q (.ret a) w :=
  fun _ hd => hQ _ (hJ.drift h hd)

/-- An operation beside the download. -/
def aside : ClientOp → Prop
  | .file _ | .protoRecv _ _ | .netConnectTcp => False
  | .protoSend f => f.type ≠ .downloadReq ∧ f.type ≠ .result
  | _ => True

theorem aside_of_send {f : Frame} (hf : f.type ≠ .downloadReq) {r : Bool}
    (hm : (candidEnv cfg m content reliable).may w (.protoSend f) r w') : Aside m w w' := by
  obtain ⟨⟨_, hs, rfl⟩, -⟩ := hm
  cases hs with
  | sent h =>
      refine ⟨.refl _ _, rfl, [f], rfl, fun g hg => ?_⟩
      rwa [List.mem_singleton.mp hg]
  | failed h => exact ⟨.refl _ _, rfl, [], (List.append_nil _).symm, nofun⟩

theorem aside_of_may {o : ClientOp} (ho : aside o) {r : ClientOp.Res o}
    (hm : (candidEnv cfg m content reliable).may w o r w') : Aside m w w' := by
  have hsame : w'.fs = w.fs → w'.wire = w.wire → Aside m w w' := fun hfs hwire => by
    refine ⟨hfs ▸ .refl _ _, congrArg Wire.ins hwire, [], ?_, nofun⟩
    rw [hwire, List.append_nil]
  cases o with
  | file o | protoRecv cap dataCap | netConnectTcp => exact ho.elim
  | protoSend f => exact aside_of_send ho.1 hm
  | tlsConnectConnection _ | stopRequested | activeFdWasSignalClosed _ | consumePauseRequest
  | consumeResumeRequest | resumeRetryActive | malloc _ =>
      obtain ⟨⟨-, rfl⟩, -⟩ := hm
      exact hsame rfl rfl
  | setPaused | setResumeRetryActive _ | connClose _ | sslFree | setActiveFd _ | free | usleep _ =>
      obtain ⟨rfl, -⟩ := hm
      exact hsame rfl rfl

theorem faithful_of_aside {o : ClientOp} (ho : aside o) : faithful m content reliable w o := by
  cases o with
  | file o => exact ho.elim
  | protoSend f =>
      exact ⟨fun hf => absurd hf ho.1, fun _ hf => ho.2 (congrArg Frame.type hf),
        fun hf => absurd (congrArg Frame.type hf) ho.2⟩
  | _ => trivial

/-- An operation beside the download changes nothing. -/
theorem faithful_aside {J : ClientWorld → Prop} (hJ : Stays cfg m content J) (h : J w)
    {o : ClientOp} (ho : aside o) {k : ClientOp.Res o → ClientProg α} {Q : α → ClientWorld → Prop}
    (hk : ∀ r w', J w' → Faithful cfg m content reliable Q (k r) w') :
    Faithful cfg m content reliable Q (.call o k) w :=
  faithful_call hJ h fun _ h => ⟨faithful_of_aside ho,
    fun r w' hm => hk r w' (hJ.aside h (aside_of_may ho hm) hm.2)⟩

/-- A part beside the download. -/
theorem faithful_of_only {J : ClientWorld → Prop} (hJ : Stays cfg m content J)
    {p : ClientProg α} (hp : p.Only aside) (h : J w) :
    Faithful cfg m content reliable (fun _ => J) p w := by
  induction p generalizing w with
  | ret a => exact faithful_ret hJ h fun _ h => h
  | call o k ih => exact faithful_aside hJ h hp.1 fun r _ h => ih r (hp.2 r) h
  | spin => trivial

/-- `recv_control` -/
theorem faithful_recvControl {J : ClientWorld → Prop} (hJ : Listens cfg m content J) (h : J w)
    {k : Option (MsgType × Bytes) → ClientProg α} {Q : α → ClientWorld → Prop}
    (hnone : ∀ w', J w' → Faithful cfg m content reliable Q (k none) w')
    (hsome : ∀ f w', J w' → f ∈ w'.wire.ins →
      Faithful cfg m content reliable Q (k (some (f.type, f.payload))) w') :
    Faithful cfg m content reliable Q (Client.recvControl >>= k) w := by
  unfold Client.recvControl
  simp only [Prog.call_bind]
  refine faithful_call hJ.toStays h fun w h => ⟨trivial, fun r w' hm => ?_⟩
  obtain ⟨⟨_, hr, rfl⟩, hheard⟩ := hm
  cases hr with
  | ok f fs hin hfit =>
      exact hsome f _ (hJ.hears h rfl rfl hheard) (List.mem_append_right _ (List.mem_singleton_self f))
  | tooLarge f fs hin hfit => exact hnone _ h
  | failed hl r hr =>
      cases r with
      | ok f => exact absurd rfl (hr f)
      | eof | bad | tooLarge => exact hnone _ h

/-- A part that works on files. -/
theorem faithful_file {R : α → FileSystem Path → Prop} {p : Prog (stdio Path) α}
    (hheard : Heard cfg m content w)
    (hp : Safe (fileEnv (readerRules reliable)) (Careful m.latestVersion content reliable) R p w.fs) :
    Faithful cfg m content reliable (fun a w' => R a w'.fs ∧ Heard cfg m content w' ∧
      w'.wire.ins = w.wire.ins ∧ w'.wire.outs = w.wire.outs) (file p) w := by
  refine safe_interp (fun w : ClientWorld => w.fs) (fun w' => Heard cfg m content w' ∧
    w'.wire.ins = w.wire.ins ∧ w'.wire.outs = w.wire.outs) id ?_ ?_ ⟨hheard, rfl, rfl⟩ hp
  · rintro a b ⟨ha, hins, houts⟩ ⟨⟨fs, wire, hfs, ⟨more, rfl⟩, rfl⟩, hb⟩
    exact ⟨hfs, hb ha, hins, houts⟩
  · rintro t o ⟨ht, hins, houts⟩ hG t₁ hd
    obtain ⟨⟨fs, wire, hfs, ⟨more, rfl⟩, rfl⟩, hb⟩ := hd
    refine ⟨hG _ hfs, ?_⟩
    rintro r _ ⟨⟨fs₂, hm, rfl⟩, hheard₂⟩ _ ⟨⟨fs₃, wire₃, hfs₃, ⟨more₃, rfl⟩, rfl⟩, hb₃⟩
    exact ⟨⟨_, fs₂, hfs, hm, hfs₃⟩, hb₃ hheard₂, hins, houts⟩

/-- A part that works on other files. -/
theorem faithful_apart {J : ClientWorld → Prop} (hJ : Stays cfg m content J)
    {p : Prog (stdio Path) α} (hp : Apart (.part m.latestVersion) p []) (h : J w) :
    Faithful cfg m content reliable (fun _ => J) (file p) w := by
  have hsafe : Safe (fileEnv (readerRules reliable)) (Careful m.latestVersion content reliable)
      (fun _ => SameAt (.part m.latestVersion) w.fs) p w.fs := by
    refine (safe_apart And.left (fun hd => sameAt_of_onlyShared hd rfl) trivial hp
      (.refl _ w.fs) nofun).mono (fun fs o hG => ?_) fun _ _ h => h
    exact careful_of_spares ((hJ.kept h).2.same hG.1) hG.2
  refine (faithful_file (hJ.kept h).1 hsafe).post fun a w' ⟨hsame, hheard, hins, houts⟩ => ?_
  exact hJ.aside h ⟨hsame, hins, [], by rw [houts, List.append_nil], nofun⟩ hheard

end Client

end UpdateFramework.System
