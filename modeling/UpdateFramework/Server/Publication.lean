import UpdateFramework.Process.Pool
import UpdateFramework.Server.Authorization
import UpdateFramework.Server.Reload

/-!
# Server — publication is atomic and well-formed

Threads that reload and sessions that take snapshots share the manifest, which each publication
replaces whole.  In every state they reach, the manifest is the one published last, every manifest
published was built and checked by one reload, and every snapshot is a published one; the checks of
a session that repeat those of the reload cannot fail (`published_manifest`).
-/

namespace UpdateFramework.Server

open Libc Process

/-! ### The checks a session repeats -/

/-- What a session relies on in a snapshot. -/
structure Usable (cfg : ServerConfig) (m : Manifest) : Prop where
  latestVersion : verIsValid m.latestVersion = true
  packageFile : (pkgResolvePath cfg.packageDir m.packageFile (maxPathLen * 2)).isSome = true

/-- What is sent where `pkg_resolve_path` fails. -/
def noPackage : Frame := errorFrame (ascii "NO_PACKAGE") (ascii "package path invalid")

/-- What is sent where a version is invalid: the client's, or, after a snapshot, one of those
`ver_compare_text` compares. -/
def badVersion : Frame := errorFrame (ascii "BAD_VERSION") (ascii "invalid semantic version")

/-- After usable snapshots only: no call is one of a failure branch. -/
def repeats (cfg : ServerConfig) (tr : ServerHistory) : ServerOp → Prop
  | .protoSend f => (∀ m, answered .vmGetSnapshot (some m) ∈ tr → Usable cfg m) →
      f ≠ noPackage ∧ (f = badVersion → ∀ m, answered .vmGetSnapshot m ∉ tr)
  | _ => True

/-- Neither a snapshot nor the frame of a failure branch. -/
def quiet : ServerOp → Prop
  | .protoSend f => f ≠ noPackage ∧ f ≠ badVersion
  | .vmGetSnapshot => False
  | _ => True

theorem quiet_of_talks {o : ServerOp} (h : talks o) : quiet o := by
  cases o with
  | protoSend f =>
      have h : f ∈ refusals := h
      simp only [refusals, List.mem_cons, List.not_mem_nil, or_false] at h
      rcases h with rfl | rfl | rfl | rfl <;> exact ⟨by decide, by decide⟩
  | vmGetSnapshot => exact h.elim
  | _ => trivial

theorem quiet_of_serves {o : ServerOp} (h : serves o) : quiet o := by
  cases o with
  | protoSend f =>
      refine ⟨fun hf => ?_, fun hf => ?_⟩ <;>
        · subst hf
          rcases h with h | h | h <;> cases h
  | vmGetSnapshot => exact h.elim
  | _ => trivial

theorem repeats_of_quiet {cfg : ServerConfig} {tr : ServerHistory} {o : ServerOp} (h : quiet o) :
    repeats cfg tr o := by
  cases o with
  | protoSend f => exact fun _ => ⟨h.1, fun hf => absurd hf h.2⟩
  | _ => trivial

/-- Before the snapshot. -/
def Unseen (tr : ServerHistory) : Prop := ∀ m, answered .vmGetSnapshot m ∉ tr

theorem Unseen.append {tr seg : ServerHistory} (h : Unseen tr) (hseg : ∀ x ∈ seg, quiet x.1) :
    Unseen (tr ++ seg) := by
  intro m hm
  rcases List.mem_append.mp hm with hm | hm
  · exact h m hm
  · exact hseg _ hm

theorem Unseen.call {tr : ServerHistory} (h : Unseen tr) {o : ServerOp} (ho : quiet o)
    (r : ServerOp.Res o) : Unseen (tr ++ [answered o r]) :=
  h.append fun _ hx => List.mem_singleton.mp hx ▸ ho

section Checks

variable {cfg : ServerConfig} {α : Type}

theorem quiet_safe {p : ServerProg α} (hp : p.Only quiet) (tr : ServerHistory) :
    Safe (Env.any serverInterface) (repeats cfg) (fun _ _ => True) p tr :=
  (hp.safe tr).mono (fun _ _ => repeats_of_quiet) fun _ _ _ => trivial

theorem unseen_safe {p : ServerProg α} (hp : p.Only quiet) {tr : ServerHistory} (h : Unseen tr) :
    Safe (Env.any serverInterface) (repeats cfg) (fun _ => Unseen) p tr := by
  refine (hp.safe tr).mono (fun _ _ => repeats_of_quiet) ?_
  rintro a _ ⟨seg, rfl, hseg⟩
  exact h.append hseg

/-- Two versions that pass `ver_is_valid` can be compared. -/
theorem verCompareText_isSome {a b : Bytes} (ha : verIsValid a = true) (hb : verIsValid b = true) :
    ∃ cmp, verCompareText a b = some cmp := by
  obtain ⟨va, hva⟩ := Option.isSome_iff_exists.mp ha
  obtain ⟨vb, hvb⟩ := Option.isSome_iff_exists.mp hb
  exact ⟨verCompare va vb, by rw [verCompareText, hva, hvb]; rfl⟩

theorem offerUpdate_repeats (manifest : Manifest) (clientId current : Bytes) {tr : ServerHistory}
    (hm : answered .vmGetSnapshot (some manifest) ∈ tr) :
    Safe (Env.any serverInterface) (repeats cfg) (fun _ _ => True)
      (offerUpdate cfg manifest clientId current) tr := by
  have refuse : ∀ {code message : Bytes}, quiet (.protoSend (errorFrame code message)) →
      (Prog.call (E := serverInterface) (.protoSend (errorFrame code message)) fun _ =>
        .ret false).Only quiet :=
    fun h => .call h fun _ => trivial
  unfold offerUpdate
  cases hpath : pkgResolvePath cfg.packageDir manifest.packageFile (maxPathLen * 2) with
  | none =>
      refine safe_any_call.mpr ⟨trivial, fun _ => safe_any_call.mpr ⟨fun husable => ?_, fun _ => ?_⟩⟩
      · have hsome := (husable manifest (List.mem_append_left _ hm)).packageFile
        rw [hpath] at hsome
        exact absurd hsome Bool.false_ne_true
      · exact safe_any_ret.mpr trivial
  | some path =>
      refine quiet_safe ?_ _
      simp only [Prog.call_bind, Prog.ret_bind]
      refine .call trivial fun _ => .call ⟨nofun, nofun⟩ fun ok => ?_
      split
      · trivial
      refine (recvControl_listens.mono fun _ h => quiet_of_talks (talks_of_listens h)).bind
        fun r => ?_
      split
      · split
        · exact refuse ⟨by decide, by decide⟩
        refine .call trivial fun _ => Prog.Only.bind
          ((pkgStreamFile_serves _ _ _ _ _).mono fun _ => quiet_of_serves) fun streamed => ?_
        refine .call trivial fun _ => ?_
        split
        · exact .call trivial fun _ => trivial
        · exact (finishTransfer_serves _ _ _).mono fun _ => quiet_of_serves
      · exact refuse ⟨by decide, by decide⟩

theorem reservedSession_repeats (clientInfo clientId : Bytes) {tr : ServerHistory}
    (h : Unseen tr) :
    Safe (Env.any serverInterface) (repeats cfg) (fun _ _ => True)
      (reservedSession cfg clientInfo clientId) tr := by
  have refuse : ∀ {code message : Bytes}, quiet (.protoSend (errorFrame code message)) →
      (Prog.call (E := serverInterface) (.protoSend (errorFrame code message)) fun _ =>
        .ret false).Only quiet :=
    fun h => .call h fun _ => trivial
  -- the client's version is refused before the snapshot
  have invalid : ∀ {tr}, Unseen tr → Safe (Env.any serverInterface) (repeats cfg) (fun _ _ => True)
      (.call (.statsAdd .errors 1) fun _ => .call (.protoSend badVersion) fun _ => .ret false) tr := by
    intro tr h
    refine safe_any_call.mpr ⟨trivial, fun _ => safe_any_call.mpr ⟨fun _ => ⟨by decide, fun _ => ?_⟩,
      fun _ => safe_any_ret.mpr trivial⟩⟩
    exact h.call (o := .statsAdd .errors 1) trivial ()
  unfold reservedSession
  simp only [Prog.call_bind, Prog.ret_bind]
  refine safe_any_call.mpr ⟨fun _ => ⟨nofun, nofun⟩, fun ok => ?_⟩
  have h := h.call (o := .protoSend (emptyFrame .authOk)) ⟨nofun, nofun⟩ ok
  split
  · exact safe_any_ret.mpr trivial
  refine safe_any_call.mpr ⟨trivial, fun _ => ?_⟩
  have h := h.call (o := .statsActiveClientUpdate clientInfo
    (snprintf activeClientLabel (clientId ++ ascii " (" ++ clientInfo ++ ascii ")"))) trivial ()
  refine safe_bind.mpr ((unseen_safe
    (recvControl_listens.mono fun _ h => quiet_of_talks (talks_of_listens h)) h).post
    fun r tr h => ?_)
  split
  · split
    · exact invalid h
    rename_i payload current hcur
    by_cases hvalid : verIsValid current = true
    swap
    · rw [if_pos hvalid]
      exact invalid h
    rw [if_neg (not_not.mpr hvalid)]
    refine safe_any_call.mpr ⟨trivial, fun snapshot => ?_⟩
    cases snapshot with
    | none => exact quiet_safe (refuse ⟨by decide, by decide⟩) _
    | some manifest =>
        have hm : answered .vmGetSnapshot (some manifest) ∈
            tr ++ [answered .vmGetSnapshot (some manifest)] := by simp
        dsimp only
        cases hcmp : verCompareText current manifest.latestVersion with
        | none =>
            refine safe_any_call.mpr ⟨fun husable => ?_, fun _ => safe_any_ret.mpr trivial⟩
            obtain ⟨cmp, hsome⟩ :=
              verCompareText_isSome hvalid (husable manifest hm).latestVersion
            rw [hcmp] at hsome
            cases hsome
        | some cmp =>
            dsimp only
            split
            · refine quiet_safe ?_ _
              refine .call trivial fun _ => .call trivial fun _ => .call ⟨nofun, nofun⟩ fun ok => ?_
              split
              · exact .call ⟨nofun, nofun⟩ fun _ => trivial
              · trivial
            · exact offerUpdate_repeats manifest clientId current hm
  · exact quiet_safe (refuse ⟨by decide, by decide⟩) _

/-- After usable snapshots, no session reaches a branch for a check that has been made before. -/
theorem handleClientSession_repeats (cfg : ServerConfig) (clientInfo : Bytes) :
    Safe (Env.any serverInterface) (repeats cfg) (fun _ _ => True)
      (handleClientSession cfg clientInfo) [] := by
  have refuse : ∀ {code message text : Bytes}, quiet (.protoSend (errorFrame code message)) →
      (Prog.call (E := serverInterface) (.logMsg .warn text) fun _ =>
        .call (.protoSend (errorFrame code message)) fun _ => .ret false).Only quiet :=
    fun h => .call trivial fun _ => .call h fun _ => trivial
  unfold handleClientSession
  simp only [Prog.call_bind, Prog.ret_bind]
  refine safe_any_call.mpr ⟨fun _ => ⟨nofun, nofun⟩, fun ok => ?_⟩
  have h : Unseen [answered (.protoSend (textFrame .hello (ascii "srv=updctl;proto=1"))) ok] :=
    fun m hm => nomatch List.mem_singleton.mp hm
  split
  · exact safe_any_ret.mpr trivial
  refine safe_bind.mpr ((unseen_safe
    ((authenticateClient_talks cfg).mono fun _ => quiet_of_talks) h).post fun r tr h => ?_)
  cases r with
  | none => exact safe_any_ret.mpr trivial
  | some clientId =>
      refine safe_any_call.mpr ⟨trivial, fun reservation => ?_⟩
      have h := h.call (o := .reserveActiveClientId clientId) trivial reservation
      cases reservation with
      | duplicate => exact quiet_safe (refuse ⟨by decide, by decide⟩) _
      | full => exact quiet_safe (refuse ⟨by decide, by decide⟩) _
      | reserved =>
          refine safe_bind.mpr ((reservedSession_repeats clientInfo clientId h).post fun rc tr _ => ?_)
          refine quiet_safe ?_ _
          exact .call trivial fun _ => trivial

end Checks

/-! ### Sessions beside reloads -/

/-- The operation `onServer` carries `o` out by, and the answer it makes of the response. -/
def carried : (o : ServerOp) → Σ o' : VmOp, VmOp.Res o' → ServerOp.Res o
  | .vmGetSnapshot => ⟨.snapshot, fun m => some m.toManifest⟩
  | o => ⟨.session o, fun r => r⟩

/-- The operation of a session a call carries out. -/
def sessionCall : Call vmInterface → Option (Call serverInterface)
  | ⟨.snapshot, m⟩ => some ⟨.vmGetSnapshot, some m.toManifest⟩
  | ⟨.session .vmGetSnapshot, _⟩ => none
  | ⟨.session o, r⟩ => some ⟨o, r⟩
  | _ => none

theorem onServer_eq (o : ServerOp) :
    onServer o = .call (carried o).1 fun r => .ret ((carried o).2 r) := by
  cases o with
  | _ => rfl

theorem sessionCall_carried (o : ServerOp) (r : VmOp.Res (carried o).1) :
    sessionCall ⟨(carried o).1, r⟩ = some ⟨o, (carried o).2 r⟩ := by
  cases o with
  | _ => rfl

/-- A session publishes nothing, and after usable snapshots reaches no failure branch. -/
def consults (cfg : ServerConfig) (tr : VmHistory) : VmOp → Prop
  | .session (.protoSend f) => (∀ m, did .snapshot m ∈ tr → Usable cfg m.toManifest) →
      f ≠ noPackage ∧ (f = badVersion → ∀ m, did .snapshot m ∉ tr)
  | .publish _ => False
  | _ => True

theorem snapshot_of_sessionCall {tr : VmHistory} {m : Manifest}
    (h : answered .vmGetSnapshot (some m) ∈ tr.filterMap sessionCall) :
    ∃ m', did .snapshot m' ∈ tr ∧ m'.toManifest = m := by
  obtain ⟨⟨o, r⟩, hx, hcall⟩ := List.mem_filterMap.mp h
  cases o with
  | snapshot =>
      cases hcall
      exact ⟨r, hx, rfl⟩
  | session o =>
      cases o with
      | _ => cases hcall
  | _ => cases hcall

theorem sessionCall_of_snapshot {tr : VmHistory} {m : VersionManifest}
    (h : did .snapshot m ∈ tr) :
    answered .vmGetSnapshot (some m.toManifest) ∈ tr.filterMap sessionCall :=
  List.mem_filterMap.mpr ⟨_, h, rfl⟩

theorem consults_of_repeats {cfg : ServerConfig} {tr : VmHistory} {o : ServerOp}
    (h : repeats cfg (tr.filterMap sessionCall) o) : consults cfg tr (carried o).1 := by
  cases o with
  | protoSend f =>
      intro husable
      obtain ⟨hpath, hversion⟩ := h fun m hm => by
        obtain ⟨m', hm', rfl⟩ := snapshot_of_sessionCall hm
        exact husable m' hm'
      exact ⟨hpath, fun hf m hm => hversion hf _ (sessionCall_of_snapshot hm)⟩
  | _ => trivial

theorem session_consults (cfg : ServerConfig) (clientInfo : Bytes) :
    Safe (Env.any vmInterface) (consults cfg) (fun _ _ => True) (session cfg clientInfo) [] :=
  (safe_interp_any (fun o => (carried o).1) (fun o => (carried o).2) sessionCall onServer_eq
    sessionCall_carried (fun _ _ _ h => consults_of_repeats h)
    (handleClientSession_repeats cfg clientInfo)).post fun _ _ _ => trivial

/-! ### All threads -/

/-- The published manifest, and all that have been published, in order. -/
structure VmWorld where
  manifest : VersionManifest
  published : List VersionManifest

/-- Anything but the manifest may have any outcome, and leaves it alone. -/
def vmEnv : Env vmInterface VmWorld where
  may w o r w' :=
    match o, r with
    | .publish m, _ => w' = ⟨m, w.published ++ [m]⟩
    | .snapshot, m => m = w.manifest ∧ w' = w
    | _, _ => w' = w

abbrev VmPool (ι : Type) := Pool ι vmInterface Bool VmWorld

/-- What a thread runs, one after another: reloads, and sessions. -/
def vmThreads {ι : Type} (cfg : ServerConfig) (vm : VersionManager) (_ : ι) (p : VmProg Bool) :
    Prop :=
  (∃ bound, p = vmReload bound vm) ∨ ∃ clientInfo, p = session cfg clientInfo

theorem vmEnv_cases {w w' : VmWorld} {o : VmOp} {r : VmOp.Res o} (h : vmEnv.may w o r w') :
    (∃ m, o = .publish m ∧ w' = ⟨m, w.published ++ [m]⟩) ∨ (∀ m, o ≠ .publish m) ∧ w' = w := by
  cases o with
  | publish m => exact .inl ⟨m, rfl, h⟩
  | snapshot => exact .inr ⟨nofun, h.2⟩
  | _ => exact .inr ⟨nofun, h⟩

/-! ### What the run has published -/

/-- The reload with these calls has built the manifest from what it had read, checked it, and then
published it. -/
def PublishedBy (packageDir : Bytes) (calls : VmHistory) (m : VersionManifest) : Prop :=
  ∃ tr rest cfg, calls = tr ++ did (.publish m) () :: rest ∧ Built packageDir tr cfg m ∧
    WellFormed packageDir cfg m

theorem PublishedBy.more {packageDir : Bytes} {calls : VmHistory} {m : VersionManifest}
    (h : PublishedBy packageDir calls m) (seg : VmHistory) :
    PublishedBy packageDir (calls ++ seg) m := by
  obtain ⟨tr, rest, cfg, rfl, hbuilt, hwell⟩ := h
  exact ⟨tr, rest ++ seg, cfg, by simp, hbuilt, hwell⟩

/-- After `vm_init`: what it published is there. -/
theorem vmInit_published {bound : ℕ} {vm : VersionManager} {w₀ w : VmWorld} {first : VmHistory}
    (hw₀ : w₀.published = [])
    (h : Run vmEnv.traced (vmReload bound vm, w₀, []) (.ret true, w, first)) :
    w.published.getLast? = some w.manifest ∧
      ∀ m ∈ w.published, PublishedBy vm.packageDir first m := by
  obtain ⟨m, hm⟩ := ((vmReload_publishes bound vm).run (Run.history h)).result.mp rfl
  suffices hall : ∀ c : VmProg Bool × VmWorld × VmHistory,
      Run vmEnv.traced (vmReload bound vm, w₀, []) c →
      (∀ m ∈ c.2.1.published, PublishedBy vm.packageDir c.2.2 m) ∧
        ((∃ m, did (.publish m) () ∈ c.2.2) → c.2.1.published.getLast? = some c.2.1.manifest) by
    obtain ⟨hreloads, hlatest⟩ := hall _ h
    exact ⟨hlatest ⟨m, hm⟩, hreloads⟩
  clear h hm
  intro c hc
  induction hc with
  | refl => exact ⟨fun m hm => absurd (hw₀ ▸ hm) List.not_mem_nil, fun ⟨m, hm⟩ => nomatch hm⟩
  | tail hrun hs ih =>
      cases hs with
      | drift hd =>
          obtain ⟨hw, ht⟩ := hd
          rw [← hw, ht]
          exact ih
      | op hm =>
          obtain ⟨hm, ht⟩ := hm
          rcases vmEnv_cases hm with ⟨m, rfl, hw⟩ | ⟨hne, hw⟩
          · rw [hw, ht]
            refine ⟨fun m' hm' => ?_, fun _ => List.getLast?_concat⟩
            rcases List.mem_append.mp hm' with hm' | hm'
            · exact (ih.1 m' hm').more _
            · obtain ⟨-, cfg, hbuilt, hwell⟩ :=
                ((vmReload_publishes bound vm).run (Run.history hrun)).guard
              rw [List.mem_singleton.mp hm']
              exact ⟨_, [], cfg, rfl, hbuilt, hwell⟩
          · rw [hw, ht]
            refine ⟨fun m hm => (ih.1 m hm).more _, fun ⟨m, hm⟩ => ih.2 ⟨m, ?_⟩⟩
            rcases List.mem_append.mp hm with hm | hm
            · exact hm
            · cases List.mem_singleton.mp hm
              exact absurd rfl (hne m)

section Threads

variable {ι : Type} {cfg : ServerConfig} {vm : VersionManager} {c d : VmPool ι} {i : ι}
  {tr first : VmHistory} {run : List (VmPool ι)}

/-- A thread about to publish is a reload, which has built what it publishes from what it has read. -/
theorem vmThreads_publish (hf : Pool.Follows (vmThreads cfg vm) c) {m : VersionManifest}
    {k : Unit → VmProg Bool} (hi : c.threads i = some (.call (.publish m) k, tr)) :
    ∃ bound entries, History (vmReload bound vm) (.call (.publish m) k) tr ∧
      Built vm.packageDir tr entries m ∧ WellFormed vm.packageDir entries m := by
  obtain ⟨p₀, hp₀ | hp₀, hrun⟩ := hf i _ tr hi
  · obtain ⟨bound, rfl⟩ := hp₀
    obtain ⟨-, entries, hbuilt, hwell⟩ := ((vmReload_publishes bound vm).run hrun).guard
    exact ⟨bound, entries, hrun, hbuilt, hwell⟩
  · obtain ⟨clientInfo, rfl⟩ := hp₀
    exact ((session_consults cfg clientInfo).run hrun).guard.elim

/-- A thread that returns `-1` has published nothing. -/
theorem vmThreads_failed (hf : Pool.Follows (vmThreads cfg vm) c)
    (hi : c.threads i = some (.ret false, tr)) : Unpublished tr := by
  obtain ⟨p₀, hp₀ | hp₀, hrun⟩ := hf i _ tr hi
  · obtain ⟨bound, rfl⟩ := hp₀
    intro m hm
    exact absurd ((((vmReload_publishes bound vm).run hrun).result).mpr ⟨m, hm⟩) Bool.false_ne_true
  · obtain ⟨clientInfo, rfl⟩ := hp₀
    intro m hm
    obtain ⟨before, after, ht⟩ := List.append_of_mem hm
    exact ((session_consults cfg clientInfo).any_calls hrun ht).elim

variable [DecidableEq ι]

/-- In this run a thread has published the manifest: a reload, which had built it from what it had
read itself, and checked it. -/
def PublishedIn (vm : VersionManager) (run : List (VmPool ι)) (m : VersionManifest) : Prop :=
  ∃ before a b after i k tr, run = before ++ a :: b :: after ∧ Pool.Acts vmEnv i a b ∧
    a.threads i = some (.call (.publish m) k, tr) ∧
    ∃ bound entries, History (vmReload bound vm) (.call (.publish m) k) tr ∧
      Built vm.packageDir tr entries m ∧ WellFormed vm.packageDir entries m

/-- The manifest is the one published last; each was built and checked by one reload, the first one
or one of the run; every snapshot is one of them. -/
structure Atomic (vm : VersionManager) (first : VmHistory) (run : List (VmPool ι))
    (c : VmPool ι) : Prop where
  latest : c.shared.published.getLast? = some c.shared.manifest
  reloads : ∀ m ∈ c.shared.published,
    PublishedBy vm.packageDir first m ∨ PublishedIn vm run m
  snapshots : ∀ i p tr m, c.threads i = some (p, tr) → did .snapshot m ∈ tr →
    m ∈ c.shared.published

theorem PublishedIn.more {m : VersionManifest} (h : PublishedIn vm run m) (d : VmPool ι) :
    PublishedIn vm (run ++ [d]) m := by
  obtain ⟨before, a, b, after, i, k, tr, rfl, hrest⟩ := h
  exact ⟨before, a, b, after ++ [d], i, k, tr, by simp, hrest⟩

/-- A thread that has published nothing has not changed the manifest by its last call. -/
theorem unpublished_spares (ha : Pool.Acts vmEnv i c d) {p : VmProg Bool}
    (hi : d.threads i = some (p, tr)) (htr : Unpublished tr) : d.shared = c.shared := by
  obtain ⟨o, k, tr, r, w, hc, hm, rfl⟩ := ha
  rw [Pool.set_self] at hi
  cases hi
  rcases vmEnv_cases hm with ⟨m, rfl, -⟩ | ⟨-, rfl⟩
  · exact absurd (List.mem_append_right _ (List.mem_singleton_self _)) (htr m)
  · rfl

theorem Atomic.more (h : Atomic vm first run c) (d : VmPool ι) :
    ∀ m ∈ c.shared.published, PublishedBy vm.packageDir first m ∨ PublishedIn vm (run ++ [d]) m :=
  fun m hm => (h.reloads m hm).imp_right fun h => h.more d

theorem Atomic.set (h : Atomic vm first run c) {t : Option (VmProg Bool × VmHistory)}
    (ht : ∀ p tr m, t = some (p, tr) → did .snapshot m ∈ tr → m ∈ c.shared.published) :
    Atomic vm first (run ++ [c.set i t c.shared]) (c.set i t c.shared) where
  latest := h.latest
  reloads := h.more _
  snapshots j p tr m hj hm := by
    by_cases hji : j = i
    · subst hji
      rw [Pool.set_self] at hj
      exact ht p tr m hj hm
    · rw [Pool.set_ne c hji] at hj
      exact h.snapshots j p tr m hj hm

/-- A call of one thread. -/
theorem Atomic.act (hlast : ∃ before, run = before ++ [c])
    (hf : Pool.Follows (vmThreads cfg vm) c) (h : Atomic vm first run c)
    (ha : Pool.Acts vmEnv i c d) : Atomic vm first (run ++ [d]) d := by
  have hacts := ha
  obtain ⟨o, k, tr, r, w, hi, hm, rfl⟩ := ha
  have hold : ∀ m, did .snapshot m ∈ tr → m ∈ c.shared.published := fun m hm =>
    h.snapshots i _ tr m hi hm
  rcases vmEnv_cases hm with ⟨m, rfl, rfl⟩ | ⟨-, rfl⟩
  · -- one manifest more
    refine ⟨List.getLast?_concat, fun m' hm' => ?_, fun j p tr' m' hj hm' => ?_⟩
    · rcases List.mem_append.mp hm' with hm' | hm'
      · exact h.more _ m' hm'
      · rw [List.mem_singleton.mp hm']
        obtain ⟨before, rfl⟩ := hlast
        exact .inr ⟨before, c, _, [], i, k, tr, by simp, hacts, hi, vmThreads_publish hf hi⟩
    · refine List.mem_append_left _ ?_
      by_cases hji : j = i
      · subst hji
        rw [Pool.set_self] at hj
        cases hj
        rcases List.mem_append.mp hm' with hm' | hm'
        · exact hold m' hm'
        · cases List.mem_singleton.mp hm'
      · rw [Pool.set_ne c hji] at hj
        exact h.snapshots j p tr' m' hj hm'
  · refine h.set fun p tr' m' ht hm' => ?_
    cases ht
    rcases List.mem_append.mp hm' with hm' | hm'
    · exact hold m' hm'
    · cases List.mem_singleton.mp hm'
      exact hm.1 ▸ List.mem_of_getLast? h.latest

/-- Every step keeps publication atomic. -/
theorem Atomic.step (hlast : ∃ before, run = before ++ [c])
    (hf : Pool.Follows (vmThreads cfg vm) c) (h : Atomic vm first run c)
    (hs : Pool.Step vmEnv (vmThreads cfg vm) c d) : Atomic vm first (run ++ [d]) d := by
  cases hs with
  | act ha => exact h.act hlast hf ha
  | start hp hidle =>
      refine h.set fun p tr m ht hm => ?_
      cases ht
      cases hm
  | finish hi => exact h.set fun p tr m ht hm => nomatch ht
  | drift hd =>
      obtain rfl : c.shared = _ := hd
      exact ⟨h.latest, h.more c, h.snapshots⟩

omit [DecidableEq ι] in
/-- A well-formed manifest is usable in every session. -/
theorem WellFormed.usable {packageDir : Bytes} {entries : Cfg} {m : VersionManifest}
    (h : WellFormed packageDir entries m) (hdir : packageDir = cfg.packageDir) :
    Usable cfg m.toManifest :=
  ⟨h.latestVersion, hdir ▸ h.packageFile⟩

/-- Every manifest published is well-formed. -/
theorem Atomic.wellFormed (h : Atomic vm first run c) {m : VersionManifest}
    (hm : m ∈ c.shared.published) : ∃ entries, WellFormed vm.packageDir entries m := by
  rcases h.reloads m hm with ⟨-, -, entries, -, -, hwell⟩ | hin
  · exact ⟨entries, hwell⟩
  · obtain ⟨_, _, _, _, _, _, _, _, _, _, _, entries, _, _, hwell⟩ := hin
    exact ⟨entries, hwell⟩

/-- No session is about to report a failure of a check a reload has made. -/
theorem Atomic.unreached (hf : Pool.Follows (vmThreads cfg vm) c) (h : Atomic vm first run c)
    (hdir : vm.packageDir = cfg.packageDir) {f : Frame} {k : Bool → VmProg Bool}
    (hi : c.threads i = some (.call (.session (.protoSend f)) k, tr)) :
    f ≠ noPackage ∧ (f = badVersion → ∀ m, did .snapshot m ∉ tr) := by
  obtain ⟨p₀, hp₀ | hp₀, hrun⟩ := hf i _ tr hi
  · obtain ⟨bound, rfl⟩ := hp₀
    exact ((vmReload_publishes bound vm).run hrun).guard.elim
  · obtain ⟨clientInfo, rfl⟩ := hp₀
    refine ((session_consults cfg clientInfo).run hrun).guard fun m hm => ?_
    obtain ⟨entries, hwell⟩ := h.wellFormed (h.snapshots i _ tr m hi hm)
    exact hwell.usable hdir

end Threads

/-- **Publication is atomic and well-formed.**  After a successful `vm_init`, in every state any
interleaving of reloads and sessions reaches: the manifest is the one published last, each manifest
published was built by one reload of the run from what it read itself and passed its checks, and
every snapshot taken is one of them, the latest when it was taken; a reload that fails leaves the
manifest as it is; and no session, its client's version once accepted, reaches the branches in which
`ver_compare_text` or `pkg_resolve_path` fails. -/
theorem published_manifest (cfg : ServerConfig) (hdir : cfg.packageDir.length < maxPathLen)
    (bound : ℕ) (manifestPath : Bytes) {w₀ w : VmWorld} {first : VmHistory}
    (hw₀ : w₀.published = [])
    (hinit : Run vmEnv.traced (vmInit bound manifestPath cfg.packageDir, w₀, [])
      (.ret true, w, first)) {ι : Type} [DecidableEq ι] {run : List (VmPool ι)} {c : VmPool ι}
    (h : Pool.Visits vmEnv (vmThreads cfg (vmPaths manifestPath cfg.packageDir)) (.idle w) run c) :
    Atomic (vmPaths manifestPath cfg.packageDir) first run c ∧
      (∀ m ∈ c.shared.published, ∃ entries, WellFormed cfg.packageDir entries m) ∧
      (∀ i d p tr m, Pool.Acts vmEnv i c d → d.threads i = some (p, tr ++ [did .snapshot m]) →
        c.shared.published.getLast? = some m) ∧
      (∀ i tr, c.threads i = some (.ret false, tr) → Unpublished tr) ∧
      (∀ i d p tr, Pool.Acts vmEnv i c d → d.threads i = some (p, tr) → Unpublished tr →
        d.shared = c.shared) ∧
      ∀ i tr f k, c.threads i = some (.call (.session (.protoSend f)) k, tr) →
        f ≠ noPackage ∧ (f = badVersion → ∀ m, did .snapshot m ∉ tr) := by
  have hpaths : (vmPaths manifestPath cfg.packageDir).packageDir = cfg.packageDir :=
    List.take_of_length_le (Nat.le_sub_one_of_lt hdir)
  obtain ⟨hlatest, hreloads⟩ := vmInit_published hw₀ hinit
  have hstart : Atomic (vmPaths manifestPath cfg.packageDir) first [.idle (ι := ι) w] (.idle w) :=
    ⟨hlatest, fun m hm => .inl (hreloads m hm), nofun⟩
  obtain ⟨hf, hc⟩ := h.invariant (I := Atomic (vmPaths manifestPath cfg.packageDir) first)
    (Pool.follows_idle _ _) hstart fun hrun hf hc hs => hc.step hrun.last hf hs
  refine ⟨hc, fun m hm => ?_, fun i d p tr m ha hi => ?_, fun i tr hi => vmThreads_failed hf hi,
    fun i d p tr ha hi => unpublished_spares ha hi, fun i tr f k hi => hc.unreached hf hpaths hi⟩
  · obtain ⟨entries, hwell⟩ := hc.wellFormed hm
    exact ⟨entries, hpaths ▸ hwell⟩
  · obtain ⟨o, k, tr', r, w', hi', hm, rfl⟩ := ha
    rw [Pool.set_self] at hi
    obtain ⟨-, hx⟩ := List.append_inj' (Prod.mk.inj (Option.some.inj hi)).2 rfl
    cases List.cons.inj hx |>.1
    exact hm.1 ▸ hc.latest

/-- The manifest of a package of one byte. -/
def manifest150 : VersionManifest where
  latestVersion := ascii "1.5.0"
  packageFile := ascii "app.bin"
  checksumSha256 := sha256BufferHex [1]
  packageSize := 1
  minSupported := ascii "0.0.0"
  releaseNotes := []

/-- The reload that publishes it. -/
def reload150 : VmHistory :=
  [did (.reads (.file (.fopen (ascii "./config/manifest.conf") .r))) (some 3),
    did (.reads (.file (.fgets 3 1024))) (some (ascii "LATEST_VERSION=1.5.0\n", false)),
    did (.reads (.file (.fgets 3 1024))) (some (ascii "PACKAGE_FILE=app.bin\n", false)),
    did (.reads (.file (.fgets 3 1024))) none,
    did (.reads (.ferror 3)) false,
    did (.reads (.file (.fclose 3))) true,
    did (.reads (.file (.stat (ascii "./packages/app.bin")))) (some 1),
    did (.reads (.file (.fopen (ascii "./packages/app.bin") .r))) (some 3),
    did (.reads (.file (.fread 3 65536))) ([1], false),
    did (.reads (.file (.fclose 3))) true,
    did (.publish manifest150) (),
    did (.logMsg .info (ascii "MANIFEST_RELOAD ok latest=1.5.0 package=app.bin size=1")) ()]

/-- A session, up to its snapshot. -/
def untilSnapshot : VmHistory :=
  [did (.session (.protoSend (textFrame .hello (ascii "srv=updctl;proto=1")))) true,
    did (.session (.tlsPeerCommonName maxIdLen)) (some (ascii "client_001")),
    did (.session (.protoRecv (maxControlPayload + 1) 0)) (.ok ⟨.auth, 0, ascii "id=client_001"⟩),
    did (.session (.authClientRegistered (ascii "./config/clients.keys") (ascii "client_001"))) true,
    did (.session (.logMsg .info (ascii "AUTH ok id=client_001 method=mTLS"))) (),
    did (.session (.reserveActiveClientId (ascii "client_001"))) .reserved,
    did (.session (.protoSend (emptyFrame .authOk))) true,
    did (.session (.statsActiveClientUpdate (ascii "peer") (ascii "client_001 (peer)"))) (),
    did (.session (.protoRecv (maxControlPayload + 1) 0))
      (.ok ⟨.versionReq, 0, ascii "cur=1.0.0"⟩),
    did .snapshot manifest150]

/-- Another version of the same package, with its checksum configured. -/
def manifest160 : VersionManifest := { manifest150 with latestVersion := ascii "1.6.0" }

/-- The reload that publishes it. -/
def reload160 : VmHistory :=
  [did (.reads (.file (.fopen (ascii "./config/manifest.conf") .r))) (some 4),
    did (.reads (.file (.fgets 4 1024))) (some (ascii "LATEST_VERSION=1.6.0\n", false)),
    did (.reads (.file (.fgets 4 1024))) (some (ascii "PACKAGE_FILE=app.bin\n", false)),
    did (.reads (.file (.fgets 4 1024))) (some (ascii
      "CHECKSUM_SHA256=4BF5122F344554C53BDE2EBB8CD2B7E3D1600AD631C385A5D7CCE23C7785459A\n", false)),
    did (.reads (.file (.fgets 4 1024))) none,
    did (.reads (.ferror 4)) false,
    did (.reads (.file (.fclose 4))) true,
    did (.reads (.file (.stat (ascii "./packages/app.bin")))) (some 1),
    did (.reads (.file (.fopen (ascii "./packages/app.bin") .r))) (some 4),
    did (.reads (.file (.fread 4 65536))) ([1], false),
    did (.reads (.file (.fclose 4))) true,
    did (.publish manifest160) (),
    did (.logMsg .info (ascii "MANIFEST_RELOAD ok latest=1.6.0 package=app.bin size=1")) ()]

/-- The threads after the first reload. -/
def freshPool : VmPool Bool := .idle ⟨manifest150, [manifest150]⟩

/-- A session takes its snapshot of the first manifest, and then a reload publishes another. -/
theorem published_manifest_160 : ∃ (run : List (VmPool Bool)) (c : VmPool Bool),
    Atomic (vmPaths (ascii "./config/manifest.conf") (ascii "./packages")) reload150 run c ∧
      c.shared.published = [manifest150, manifest160] ∧
      ∃ p, c.threads true = some (p, untilSnapshot) := by
  let vm := vmPaths (ascii "./config/manifest.conf") (ascii "./packages")
  have hfirst : (vmInit 3 (ascii "./config/manifest.conf") (ascii "./packages")).replay reload150 =
      some (.ret true) := Prog.replay_ret (by decide +kernel)
  have hreload : (vmReload 4 vm).replay reload160 = some (.ret true) :=
    Prog.replay_ret (by decide +kernel)
  have hsome : ((session .shipped (ascii "peer")).replay untilSnapshot).isSome = true := by
    decide +kernel
  obtain ⟨q, hq⟩ := Option.isSome_iff_exists.mp hsome
  have hinit : vmEnv.Allows ⟨manifest150, []⟩ reload150 ⟨manifest150, [manifest150]⟩ :=
    ⟨_, rfl, _, rfl, _, rfl, _, rfl, _, rfl, _, rfl, _, rfl, _, rfl, _, rfl, _, rfl, _, rfl, _, rfl,
      rfl⟩
  have hsession : vmEnv.Allows freshPool.shared untilSnapshot freshPool.shared :=
    ⟨_, rfl, _, rfl, _, rfl, _, rfl, _, rfl, _, rfl, _, rfl, _, rfl, _, rfl, _, ⟨rfl, rfl⟩, rfl⟩
  have hpublish : vmEnv.Allows freshPool.shared reload160 ⟨manifest160, [manifest150, manifest160]⟩ :=
    ⟨_, rfl, _, rfl, _, rfl, _, rfl, _, rfl, _, rfl, _, rfl, _, rfl, _, rfl, _, rfl, _, rfl, _, rfl,
      _, rfl, rfl⟩
  have hstart : ∀ {c : VmPool Bool} {i p}, vmThreads .shipped vm i p → c.threads i = none →
      Pool.Step vmEnv (vmThreads .shipped vm) c (c.set i (some (p, [])) c.shared) := .start
  obtain ⟨c, hrun, hidle, hshared, hthread⟩ : ∃ c : VmPool Bool,
      Pool.Run vmEnv (vmThreads .shipped vm) freshPool c ∧ c.threads false = none ∧
        c.shared = freshPool.shared ∧ c.threads true = some (q, untilSnapshot) :=
    ⟨_, .head (hstart (i := true) (.inr ⟨ascii "peer", rfl⟩) rfl)
      (Pool.run_replay (vmThreads .shipped vm) (Pool.set_self ..) hq hsession), rfl, rfl, rfl⟩
  -- the reload comes after the snapshot
  rw [← hshared] at hpublish
  obtain ⟨run, hvisits⟩ := Pool.Run.visits (hrun.trans (.head (hstart (i := false) (.inl ⟨4, rfl⟩)
    hidle) (Pool.run_replay (vmThreads .shipped vm) (Pool.set_self ..) hreload hpublish)))
  refine ⟨run, _, (published_manifest .shipped (by decide) 3 (ascii "./config/manifest.conf") rfl
    ((hinit.traced []).run hfirst) hvisits).1, rfl, q, ?_⟩
  rw [Pool.set_ne _ (by decide), Pool.set_ne _ (by decide), hthread]

end UpdateFramework.Server
