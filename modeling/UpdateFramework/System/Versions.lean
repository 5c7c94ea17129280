import UpdateFramework.System.Fleet
import UpdateFramework.System.Turns

/-!
# System — recorded versions

No version that is recorded for a client of a fleet ever goes down, and each change is to what was the
server's latest version when the session on the client's connection took its snapshot
(`recorded_versions_climb`).
-/

namespace UpdateFramework.System

open Libc Process FileSystem

section Versions

variable {ι : Type} [DecidableEq ι] {e : Fleet ι} {fs₀ : ι → FileSystem Path} {s s' : Host ι} {i j : ι}
  {ev : Event} {m : Machine}

/-- Files that clients may be started on: they share the version table, and nothing is open. -/
structure SharedFiles (fs : ι → FileSystem Path) : Prop where
  same : ∀ i j, ∀ p : Path, p.shared = true → (fs i).disk p = (fs j).disk p
  orderly : ∀ i, Orderly ((fs i).disk .table)
  closed : ∀ i k, (fs i).streams k = none

theorem hostSound_start (he : e.WellFormed) (hfs : SharedFiles fs₀) :
    HostSound e fs₀ (.start e fs₀) := by
  have hclear : ∀ i, Clear (fs₀ i) := fun i k t p ht => by
    rw [hfs.closed i k] at ht
    cases ht
  exact ⟨.refl, fun i => linked_start _ _, fun _ => nofun,
    fun i => climbs_start he i (hfs.orderly i) (hclear i), hfs.same, hfs.orderly,
    fun i => (hclear i).table, fun i _ p hp => (hclear i).idle hp⟩

theorem hostSound_of_steps (he : e.WellFormed) (hfs : SharedFiles fs₀)
    (hr : HostSteps e (.start e fs₀) s) : HostSound e fs₀ s := by
  induction hr with
  | refl => exact hostSound_start he hfs
  | tail _ hstep ih =>
      cases hstep with
      | step i hs hlock => exact ih.step he hs hlock
      | reload hreload hsize => exact ih.reload (.reload hreload hsize)

/-- What `getCurrentVersion` reports to each client has not gone down. -/
def Climbed (e : Fleet ι) (s s' : Host ι) : Prop :=
  ∀ i, ∃ v v', ReadsVersion (e.client i) (s.files i) v ∧ ReadsVersion (e.client i) (s'.files i) v' ∧
    NotAbove v v'

/-- Where it changes, it becomes what was the server's latest version when the session on the client's
connection took its snapshot. -/
def Updated (e : Fleet ι) (fs₀ : ι → FileSystem Path) (s s' : Host ι) : Prop :=
  ∀ i v v', ReadsVersion (e.client i) (s.files i) v → ReadsVersion (e.client i) (s'.files i) v' →
    v' = v ∨ ∃ k m, (s.machines i).line = some k ∧ Snapshot e fs₀ s i k m ∧ m.latestVersion = v'

omit [DecidableEq ι] in
theorem Climbed.trans {s'' : Host ι} (he : e.WellFormed) (h : Climbed e s s') (k : Climbed e s' s'') :
    Climbed e s s'' := by
  intro i
  obtain ⟨u, v, hu, hv, huv⟩ := h i
  obtain ⟨v', w, hv', hw, hvw⟩ := k i
  rw [readsVersion_iff (he.unset i)] at hv hv'
  cases hv.symm.trans hv'
  exact ⟨u, w, hu, hw, huv.trans hvw⟩

/-- Nothing changes. -/
theorem HostSound.climbed_same (he : e.WellFormed) (h : HostSound e fs₀ s)
    (hsame : ∀ i, s'.files i = s.files i) : Climbed e s s' := by
  intro i
  obtain ⟨v, hv, hvalid, -⟩ := (h.orderly i).read (e.client i).clientId
  have hreads := (readsVersion_iff (he.unset i) (s.files i) v).mpr hv
  exact ⟨v, v, hreads, hsame i ▸ hreads, .refl hvalid⟩

/-- A version that was proposed to a client was the server's latest at the snapshot. -/
theorem HostSound.proposed (h : HostSound e fs₀ s) {v : Bytes}
    (hv : Proposed (s.machines i).client.wire.ins v) :
    ∃ k m, (s.machines i).line = some k ∧ Snapshot e fs₀ s i k m ∧ m.latestVersion = v := by
  obtain ⟨f, hf, htype, hver⟩ := hv
  rcases (h.linked i).heard with hnil | ⟨k, p, w, hline, hsession, hsaid, -⟩
  · rw [(List.append_eq_nil_iff.mp hnil).1] at hf
    cases hf
  · obtain ⟨-, hoffers⟩ := h.newer i k p w hsession (Snapshot e fs₀ s i k) fun _ hm => hm
    obtain ⟨current, m, hnewer⟩ := hoffers f (hsaid.subset (List.mem_append_left _ hf)) htype
    have hpublished := hnewer.published.published
    obtain ⟨hread, -⟩ := offer_read ((publishable e).advertisable m hpublished)
      ((publishable e).valid m hpublished) (congrArg Frame.payload hnewer.offer)
    exact ⟨k, m, hline, hnewer.published, Option.some.inj (hread.symm.trans hver)⟩

/-- What a step of one client makes of the version recorded for another, or for itself. -/
theorem HostSound.recorded_after (he : e.WellFormed) (h : HostSound e fs₀ s)
    (hs : Step (e.roles i (s.holds i) s.manifest) ev (s.machines i) m) (j : ι) :
    ∃ v v', readVersion (e.client j).clientId ((s.files j).disk .table) = some v ∧
      readVersion (e.client j).clientId (((s.after i ev m).files j).disk .table) = some v' ∧
      NotAbove v v' ∧ (v' = v ∨ Proposed (s.machines j).client.wire.ins v') := by
  obtain ⟨v, hv, hvalid, -⟩ := (h.orderly j).read (e.client j).clientId
  obtain ⟨-, hrecorded⟩ := h.table_after he hs
  by_cases hj : j = i
  · subst hj
    rw [files_after_self]
    rcases (h.moves hs).table with hsame | ⟨-, u, current, c, hallowed, hcurrent, hup, hwritten, hnew⟩
    · rw [hsame]
      exact ⟨v, v, hv, hv, .refl hvalid, .inl rfl⟩
    · obtain ⟨-, hread, -⟩ := (h.orderly j).written (he.ids j) u hwritten
      exact ⟨current, u.text, hcurrent, hnew ▸ hread, hup, .inr hallowed⟩
  · rw [files_after_ne hj, withShared_shared rfl, hrecorded j hj, h.shared i j .table rfl]
    exact ⟨v, v, hv, hv, .refl hvalid, .inl rfl⟩

theorem HostSound.climbed (he : e.WellFormed) (h : HostSound e fs₀ s) (hstep : HostStep e s s') :
    Climbed e s s' := by
  cases hstep with
  | step i hs hlock =>
      intro j
      obtain ⟨v, v', hv, hv', hup, -⟩ := h.recorded_after he hs j
      simp only [readsVersion_iff (he.unset j)]
      exact ⟨v, v', hv, hv', hup⟩
  | reload hreload hsize => exact h.climbed_same he fun _ => rfl

theorem HostSound.updated (he : e.WellFormed) (h : HostSound e fs₀ s) (hstep : HostStep e s s') :
    Updated e fs₀ s s' := by
  intro j v v' hreads hreads'
  rw [readsVersion_iff (he.unset j)] at hreads hreads'
  cases hstep with
  | step i hs hlock =>
      obtain ⟨u, u', hu, hu', -, hsame | hproposed⟩ := h.recorded_after he hs j
      · cases hu.symm.trans hreads
        cases hu'.symm.trans hreads'
        exact .inl hsame
      · cases hu'.symm.trans hreads'
        exact .inr (h.proposed hproposed)
  | reload hreload hsize => exact .inl (Option.some.inj (hreads'.symm.trans hreads))

theorem HostSound.climbed_steps (he : e.WellFormed) (h : HostSound e fs₀ s) (hfs : SharedFiles fs₀)
    (hr : HostSteps e s s') : Climbed e s s' := by
  induction hr with
  | refl => exact h.climbed_same he fun _ => rfl
  | tail hr hstep ih =>
      have hsound := hostSound_of_steps he hfs (h.reached.trans hr)
      exact ih.trans he (hsound.climbed he hstep)

/-- **Recorded versions never go down**, in any interleaving, whatever is reloaded, whatever fails
outside the lock, and whoever dies; a version that is recorded was the server's latest at the snapshot
of the session it came from; and no client waits for a lock it holds itself. -/
theorem recorded_versions_climb (he : e.WellFormed) (hfs : SharedFiles fs₀)
    (hr : HostSteps e (.start e fs₀) s) :
    (∀ s', HostSteps e s s' → Climbed e s s') ∧ (∀ s', HostStep e s s' → Updated e fs₀ s s') ∧
      ∀ i p k, (s.machines i).process = .call (.file (.lock p)) k → s.lock ≠ some i := by
  have hsound := hostSound_of_steps he hfs hr
  refine ⟨fun s' hr' => hsound.climbed_steps he hfs hr', fun s' hstep => hsound.updated he hstep,
    fun i p k hp hheld => ?_⟩
  have hcall := hsound.climbs i
  rw [hp] at hcall
  have hfree : s.holds i = false := hcall.guard.1 trivial
  exact absurd (holds_iff.mpr hheld) (by rw [hfree]; exact Bool.false_ne_true)

end Versions

/-! ### Turns -/

/-- An event that takes the lock. -/
def Event.locks : Event → Bool
  | .calls (.file (.lock _)) => true
  | _ => false

namespace Host

variable {ι : Type} [DecidableEq ι]

/-- Client `i` has a turn, unless it waits for the lock. -/
def turn (e : Fleet ι) (c : Course) (i : ι) (s : Host ι) : Host ι :=
  let t := (s.machines i).turn (e.roles i (s.holds i) s.manifest) c
  if t.1.locks && s.lock.isSome then s.after i .others (s.machines i) else s.after i t.1 t.2

/-- Client `i` has `n` turns. -/
def turns (e : Fleet ι) (c : Course) (i : ι) : ℕ → Host ι → Host ι
  | 0, s => s
  | n + 1, s => turns e c i n (s.turn e c i)

end Host

section Turns

variable {ι : Type} [DecidableEq ι] {e : Fleet ι} {s : Host ι} {i : ι} {m : Manifest}

theorem hostTurn_step {c : Course} (hc : c.Allowed (e.roles i (s.holds i) s.manifest))
    (hl : Linked (s.machines i)) : HostStep e s (s.turn e c i) := by
  rw [Host.turn]
  split
  next => exact .step i (step_idle _) nofun
  next hwaits =>
    refine .step i (turn_step hc hl) fun p hp => ?_
    rw [hp] at hwaits
    simpa [Event.locks] using hwaits

/-- Where nothing fails and the server's latest manifest is `m`. -/
theorem smooth_allowed (hm : s.manifest = some m) (clientId : Bytes) (files : FileSystem Bytes) :
    (Course.smooth clientId m files).Allowed (e.roles i (s.holds i) s.manifest) := by
  have hfile : ∀ fs o, (lockRules (s.holds i)).file fs o (fs.ok o).1 (fs.ok o).2 :=
    fun _ _ => ⟨.inl rfl, fun _ => rfl⟩
  exact Course.smooth_allowed hfile trivial hm trivial clientId

theorem turn_manifest (c : Course) : (s.turn e c i).manifest = s.manifest := by
  rw [Host.turn]
  split
  next => rfl
  next => rfl

theorem hostTurns_steps (he : e.WellFormed) {fs₀ : ι → FileSystem Path} (hfs : SharedFiles fs₀)
    (hr : HostSteps e (.start e fs₀) s) (hm : s.manifest = some m) (clientId : Bytes)
    (files : FileSystem Bytes) (n : ℕ) :
    HostSteps e (.start e fs₀) (s.turns e (.smooth clientId m files) i n) ∧
      (s.turns e (.smooth clientId m files) i n).manifest = some m := by
  induction n generalizing s with
  | zero => exact ⟨hr, hm⟩
  | succ n ih =>
      have hl := (hostSound_of_steps he hfs hr).linked i
      exact ih (hr.tail (hostTurn_step (smooth_allowed hm _ _) hl)) ((turn_manifest _).trans hm)

end Turns

/-- Two clients. -/
def fleetTwo : Fleet Bool where
  client second := { ClientConfig.client001 with
    clientId := if second then ascii "client_002" else ascii "client_001" }
  server := .shipped
  versions := Server.vmPaths (ascii "./config/manifest.conf") (ascii "./packages")
  clientInfo _ := []
  bound := 4

theorem fleetTwo_wellFormed : fleetTwo.WellFormed where
  ids second := by
    have hall : ∀ id ∈ [ascii "client_001", ascii "client_002"], id ≠ [] ∧ id.length < maxIdLen ∧
        Solid id ∧ 61 ∉ id ∧ 0 ∉ id ∧ id.head? ≠ some 35 := by decide +kernel
    have hmem : (fleetTwo.client second).clientId ∈ [ascii "client_001", ascii "client_002"] := by
      cases second with
      | false => exact List.mem_cons_self
      | true => exact List.mem_cons_of_mem _ List.mem_cons_self
    obtain ⟨hne, hfits, hsolid, heq, hnul, hhash⟩ := hall _ hmem
    exact ⟨hne, hfits, hsolid, heq, hnul, hhash⟩
  distinct := by
    have hne : ascii "client_001" ≠ ascii "client_002" := by decide
    rintro (_ | _) (_ | _) h
    · exact absurd rfl h
    · exact hne
    · exact hne.symm
    · exact absurd rfl h
  unset := by
    rintro (_ | _)
    · rfl
    · rfl

theorem tableTwo_shared : SharedFiles fun _ : Bool => tableTwo where
  same _ _ _ _ := rfl
  orderly _ := by
    have hdisk : tableTwo.disk .table = some (ascii "client_001=1.0.0\nclient_002=1.2.0\n") :=
      only_disk _ _
    rw [hdisk]
    exact ⟨by decide +kernel, by decide +kernel, by decide +kernel⟩
  closed _ _ := rfl

/-- A reload that finds version 1.4.0. -/
def reload140 : Server.VmHistory :=
  (Server.reload150.take 10).set 1
    (Server.did (.reads (.file (.fgets 3 1024))) (some (ascii "LATEST_VERSION=1.4.0\n", false)))

def manifest140 : Server.VersionManifest :=
  { Server.manifest150 with latestVersion := ascii "1.4.0" }

/-- The first client among the two, while nothing fails and `r` is the server's latest manifest. -/
def smoothTwo (r : Server.VersionManifest) : Course :=
  .smooth (ascii "client_001") r.toManifest (.only (ascii "./packages/app.bin") [1])

/-- The first client is offered version 1.5.0. -/
def offeredTwo : Host Bool :=
  Host.turns fleetTwo (smoothTwo Server.manifest150) false 40
    { Host.start fleetTwo fun _ => tableTwo with manifest := some Server.manifest150.toManifest }

/-- It is about to record it, but the server has gone back to version 1.4.0. -/
def recordingTwo : Host Bool :=
  Host.turns fleetTwo (smoothTwo manifest140) false 52
    { offeredTwo with manifest := some manifest140.toManifest }

theorem offeredTwo_reached : HostSteps fleetTwo (.start fleetTwo fun _ => tableTwo) offeredTwo := by
  have hreload : ((Server.vmReload 3 fleetTwo.versions).replay
      (Server.reload150.take 10 ++ [Server.did (.publish Server.manifest150) ()])).isSome := by
    decide +kernel
  obtain ⟨k, hk⟩ := Prog.history_call_of_replay (E := Server.vmInterface) hreload
  exact (hostTurns_steps fleetTwo_wellFormed tableTwo_shared (.single (.reload hk (by decide))) rfl _ _
    _).1

theorem recordingTwo_reached :
    HostSteps fleetTwo (.start fleetTwo fun _ => tableTwo) recordingTwo ∧
      recordingTwo.manifest = some manifest140.toManifest := by
  have hreload : ((Server.vmReload 3 fleetTwo.versions).replay
      (reload140 ++ [Server.did (.publish manifest140) ()])).isSome := by
    decide +kernel
  obtain ⟨k, hk⟩ := Prog.history_call_of_replay (E := Server.vmInterface) hreload
  exact hostTurns_steps fleetTwo_wellFormed tableTwo_shared
    (offeredTwo_reached.tail (.reload hk (by decide))) rfl _ _ _

/-- The first client records version 1.5.0, which was the latest when its session looked. -/
theorem recorded_versions_climb_two : ∃ s s', HostSteps fleetTwo (.start fleetTwo fun _ => tableTwo) s ∧
    HostStep fleetTwo s s' ∧ s.manifest = some manifest140.toManifest ∧
    ReadsVersion (fleetTwo.client false) (s.files false) (ascii "1.0.0") ∧
    ReadsVersion (fleetTwo.client false) (s'.files false) (ascii "1.5.0") ∧ Climbed fleetTwo s s' ∧
    ∃ k m, (s.machines false).line = some k ∧
      Snapshot fleetTwo (fun _ => tableTwo) s false k m ∧ m.latestVersion = ascii "1.5.0" := by
  have htable : (recordingTwo.files false).disk .table =
      some (ascii "client_001=1.0.0\nclient_002=1.2.0\n") := by decide +kernel
  have htable' : ((recordingTwo.turn fleetTwo (smoothTwo manifest140) false).files false).disk .table =
      some (ascii "client_001=1.5.0\nclient_002=1.2.0\n") := by decide +kernel
  obtain ⟨hr, hmanifest⟩ := recordingTwo_reached
  have hl := (hostSound_of_steps fleetTwo_wellFormed tableTwo_shared hr).linked false
  have hstep : HostStep fleetTwo recordingTwo (recordingTwo.turn fleetTwo (smoothTwo manifest140) false) :=
    hostTurn_step (smooth_allowed hmanifest _ _) hl
  generalize recordingTwo.turn fleetTwo (smoothTwo manifest140) false = s' at htable' hstep
  generalize recordingTwo = s at htable hr hmanifest hstep
  have hreads : ReadsVersion (fleetTwo.client false) (s.files false) (ascii "1.0.0") := by
    rw [readsVersion_iff rfl, htable]
    decide +kernel
  have hreads' : ReadsVersion (fleetTwo.client false) (s'.files false) (ascii "1.5.0") := by
    rw [readsVersion_iff rfl, htable']
    decide +kernel
  obtain ⟨hclimbs, hupdates, -⟩ := recorded_versions_climb fleetTwo_wellFormed tableTwo_shared hr
  have hchanged := hupdates s' hstep false _ _ hreads hreads'
  exact ⟨s, s', hr, hstep, hmanifest, hreads, hreads', hclimbs s' (.single hstep),
    hchanged.resolve_left (by decide)⟩

end UpdateFramework.System
