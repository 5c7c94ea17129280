import UpdateFramework.Client.TableFaults
import UpdateFramework.Client.TableRoundTrip
import UpdateFramework.System.Climb
import UpdateFramework.System.Offer

/-!
# System — many clients, one version table

Any number of clients, each with sessions at the other ends of its connections, share the version
table of one host.  Their steps interleave as they like, the server reloads its manifest, connections
break, and clients die, even while they hold the lock.  What every client keeps to, and what the
clients have in common, holds after every step (`HostSound.step`).
-/

namespace UpdateFramework.System

open Libc Process FileSystem

/-- The clients of one host, and the server they ask. -/
structure Fleet (ι : Type) where
  client : ι → ClientConfig
  server : ServerConfig
  versions : Server.VersionManager
  clientInfo : ι → Bytes
  /-- The bound on the loops of the clients. -/
  bound : ℕ

namespace Fleet

variable {ι : Type}

/-- A manifest a reload may have published. -/
def Published (e : Fleet ι) (m : Manifest) : Prop :=
  ∃ r, Server.Reloaded e.versions r ∧ r.packageSize < 2 ^ 64 ∧ m = r.toManifest

/-- Client `i`, which holds the lock or not, and sessions that find `manifest` in the server. -/
def roles (e : Fleet ι) (i : ι) (holds : Bool) (manifest : Option Manifest) : Roles where
  process := Client.checkForUpdate e.bound (e.client i)
  session := Server.handleClientSession e.server (e.clientInfo i)
  rules := lockRules holds
  published m := manifest = some m
  found _ := True

/-- Every client has an id of its own. -/
structure WellFormed (e : Fleet ι) : Prop where
  ids : ∀ i, RowId (e.client i).clientId
  distinct : ∀ i j, i ≠ j → (e.client i).clientId ≠ (e.client j).clientId
  unset : ∀ i, (e.client i).currentVersion = []

end Fleet

/-- The machines of the clients, who holds the lock on the version table, and the server's latest
manifest. -/
structure Host (ι : Type) where
  machines : ι → Machine
  lock : Option ι
  manifest : Option Manifest

/-- `fs`, with the files the clients share as they are in `fs'`. -/
def withShared (fs fs' : FileSystem Path) : FileSystem Path :=
  { fs with disk := fun p => if p.shared then fs'.disk p else fs.disk p }

namespace Host

variable {ι : Type} [DecidableEq ι]

/-- The files as client `i` sees them. -/
def files (s : Host ι) (i : ι) : FileSystem Path := (s.machines i).client.fs

def holds (s : Host ι) (i : ι) : Bool := s.lock = some i

/-- Who holds the lock after an event at `i`. -/
def lockAfter (s : Host ι) (i : ι) : Event → Option ι
  | .calls (.file (.lock _)) => some i
  | .calls (.file (.unlock _)) | .dies => if s.lock = some i then none else s.lock
  | _ => s.lock

/-- Client `i` has become `m`; the others see what it has done to the shared files. -/
def after (s : Host ι) (i : ι) (ev : Event) (m : Machine) : Host ι where
  machines j := if j = i then m else (s.machines j).withFiles (withShared (s.files j) m.client.fs)
  lock := s.lockAfter i ev
  manifest := s.manifest

/-- Every client is started on its files, before the server has loaded a manifest. -/
def start (e : Fleet ι) (fs : ι → FileSystem Path) : Host ι :=
  ⟨fun i => .start (e.roles i false none) (fs i), none, none⟩

end Host

inductive HostStep {ι : Type} [DecidableEq ι] (e : Fleet ι) : Host ι → Host ι → Prop where
  /-- A step of one client, or of a session at the other end of its connections.  A client waits for the
  lock while it is held. -/
  | step {s : Host ι} (i : ι) {ev : Event} {m : Machine}
      (hs : Step (e.roles i (s.holds i) s.manifest) ev (s.machines i) m)
      (hlock : ∀ p, ev = .calls (.file (.lock p)) → s.lock = none) : HostStep e s (s.after i ev m)
  /-- A reload comes to the point where it publishes a manifest. -/
  | reload {s : Host ι} {bound : ℕ} {r : Server.VersionManifest} {k : Unit → Server.VmProg Bool}
      {tr : Server.VmHistory}
      (hr : History (Server.vmReload bound e.versions) (.call (.publish r) k) tr)
      (hsize : r.packageSize < 2 ^ 64) : HostStep e s { s with manifest := some r.toManifest }

abbrev HostSteps {ι : Type} [DecidableEq ι] (e : Fleet ι) : Host ι → Host ι → Prop :=
  Relation.ReflTransGen (HostStep e)

section Fleet

variable {ι : Type} [DecidableEq ι] {e : Fleet ι} {fs₀ : ι → FileSystem Path} {s s' : Host ι} {i j : ι}
  {ev : Event} {m : Machine}

omit [DecidableEq ι] in
theorem publishable (e : Fleet ι) : Publishable e.Published where
  advertisable := by
    rintro _ ⟨r, hr, hsize, rfl⟩
    exact advertisable_of_reloaded hr hsize
  valid := by
    rintro _ ⟨r, ⟨bound, k, tr, entries, -, -, hwell⟩, -, rfl⟩
    exact hwell.latestVersion

/-! ### What a step leaves -/

@[simp] theorem after_self : (s.after i ev m).machines i = m := if_pos rfl

theorem after_ne (h : j ≠ i) : (s.after i ev m).machines j =
    (s.machines j).withFiles (withShared (s.files j) m.client.fs) := if_neg h

@[simp] theorem files_after_self : (s.after i ev m).files i = m.client.fs := by
  rw [Host.files, after_self]

theorem files_after_ne (h : j ≠ i) :
    (s.after i ev m).files j = withShared (s.files j) m.client.fs := by
  rw [Host.files, after_ne h]
  rfl

theorem withShared_shared {fs fs' : FileSystem Path} {p : Path} (hp : p.shared = true) :
    (withShared fs fs').disk p = fs'.disk p := if_pos hp

/-- Nothing changes where the shared files are the same. -/
theorem withShared_same {fs fs' : FileSystem Path}
    (h : ∀ p : Path, p.shared = true → fs'.disk p = fs.disk p) : withShared fs fs' = fs := by
  have hdisk : (fun p : Path => if p.shared then fs'.disk p else fs.disk p) = fs.disk := by
    funext p
    by_cases hp : p.shared = true
    · rw [if_pos hp, h p hp]
    · rw [if_neg hp]
  rw [withShared, hdisk]

theorem onlyShared_withShared (fs fs' : FileSystem Path) : OnlyShared fs (withShared fs fs') where
  streams := rfl
  fresh := rfl
  disk p hp := if_neg (by rw [hp]; exact Bool.false_ne_true)

theorem holds_iff : s.holds i = true ↔ s.lock = some i := decide_eq_true_iff

/-- One client's step gives the lock to no other. -/
theorem holds_after_ne (h : j ≠ i) (hlock : ∀ p, ev = .calls (.file (.lock p)) → s.lock = none) :
    (s.after i ev m).holds j = s.holds j := by
  have hne : some i ≠ some j := fun hij => h (Option.some.inj hij).symm
  have hfree : (decide ((if s.lock = some i then none else s.lock) = some j)) = s.holds j := by
    rw [Host.holds]
    by_cases hi : s.lock = some i
    · simp [hi, hne]
    · rw [if_neg hi]
  cases ev with
  | dies => exact hfree
  | others | nothing => rfl
  | calls o =>
      cases o with
      | file o =>
          cases o with
          | lock p =>
              have hnone := hlock p rfl
              simp [Host.after, Host.lockAfter, Host.holds, hnone, hne]
          | unlock fd => exact hfree
          | _ => rfl
      | _ => rfl

/-- Whether the client holds the lock after its step. -/
theorem holds_after_self (ev : Event) (m : Machine) : (s.after i ev m).holds i = match ev with
    | .calls o => holdsAfter o (s.holds i)
    | .dies => false
    | _ => s.holds i := by
  have hfree : (decide ((if s.lock = some i then none else s.lock) = some i)) = false := by
    by_cases hi : s.lock = some i
    · simp [hi]
    · simp [hi]
  cases ev with
  | dies => exact hfree
  | others | nothing => rfl
  | calls o =>
      cases o with
      | file o =>
          cases o with
          | lock p => exact decide_eq_true rfl
          | unlock fd => exact hfree
          | _ => rfl
      | _ => rfl

/-! ### Snapshots -/

/-- On the way to `s` the session on client `i`'s connection `k` took its snapshot, when `m` was the
server's latest manifest. -/
def Snapshot (e : Fleet ι) (fs₀ : ι → FileSystem Path) (s : Host ι) (i : ι) (k : ℕ) (m : Manifest) :
    Prop :=
  ∃ (t t' : Host ι) (q : Option Manifest → ServerProg Bool) (w w' : SessionWorld),
    HostSteps e (.start e fs₀) t ∧ HostStep e t t' ∧ HostSteps e t' s ∧ t.manifest = some m ∧
    (t.machines i).sessions k = some (.call .vmGetSnapshot q, w) ∧
    (t'.machines i).sessions k = some (q (some m), w')

theorem Snapshot.later {k : ℕ} {m : Manifest} (h : Snapshot e fs₀ s i k m)
    (hstep : HostStep e s s') : Snapshot e fs₀ s' i k m := by
  obtain ⟨t, t', q, w, w', hr, htakes, hr', hsnapshot⟩ := h
  exact ⟨t, t', q, w, w', hr, htakes, hr'.tail hstep, hsnapshot⟩

/-- The server's latest manifest was published by a reload. -/
theorem published_of_steps (hr : HostSteps e (.start e fs₀) s)
    {m : Manifest} (hm : s.manifest = some m) : e.Published m := by
  induction hr with
  | refl => cases hm
  | tail _ hstep ih =>
      cases hstep with
      | step i hs hlock => exact ih hm
      | reload hreload hsize =>
          cases hm
          exact ⟨_, Server.reloaded_of_history hreload, hsize, rfl⟩

theorem Snapshot.published {k : ℕ} {m : Manifest}
    (h : Snapshot e fs₀ s i k m) : e.Published m := by
  obtain ⟨t, t', q, w, w', hr, -, -, hm, -⟩ := h
  exact published_of_steps hr hm

/-! ### The invariant -/

/-- A session offers newer versions only, of manifests it has taken. -/
def SessionNewer (e : Fleet ι) (fs₀ : ι → FileSystem Path) (s : Host ι) (i : ι) (k : ℕ)
    (p : ServerProg Bool) (w : SessionWorld) : Prop :=
  ∀ taken : Manifest → Prop, (∀ m, Snapshot e fs₀ s i k m → taken m) →
    Newer e.server taken p w ∧ OffersNewer e.server taken w.wire.ins w.wire.outs

/-- What every client keeps to, and what the clients have in common. -/
structure HostSound (e : Fleet ι) (fs₀ : ι → FileSystem Path) (s : Host ι) : Prop where
  reached : HostSteps e (.start e fs₀) s
  linked : ∀ i, Linked (s.machines i)
  newer : ∀ i k p w, (s.machines i).sessions k = some (p, w) → SessionNewer e fs₀ s i k p w
  climbs : ∀ i, Climbs e.server e.Published (e.client i)
    (fun _ => Standing e.server e.Published (e.client i).clientId none [])
    (s.machines i).process ⟨(s.machines i).client, s.holds i⟩
  shared : ∀ i j, ∀ p : Path, p.shared = true → (s.files i).disk p = (s.files j).disk p
  orderly : ∀ i, Orderly ((s.files i).disk .table)
  idle : ∀ i, (s.files i).Idle .table
  quiet : ∀ i, s.holds i = false → ∀ p : Path, p.shared = true → (s.files i).Idle p

theorem SessionNewer.later {k : ℕ} {p : ServerProg Bool}
    {w : SessionWorld} (h : SessionNewer e fs₀ s i k p w) (hstep : HostStep e s s') :
    SessionNewer e fs₀ s' i k p w :=
  fun taken htaken => h taken fun m hm => htaken m (hm.later hstep)

/-- What the client of a session hears. -/
theorem hears_of_linked {x : Machine} (hl : Linked x)
    (hs : ∀ k p w, x.sessions k = some (p, w) → SessionNewer e fs₀ s i k p w) :
    HearsNewer e.server e.Published x.client := by
  rcases hl.heard with hnil | ⟨k, p, w, -, hsession, hsaid, hread⟩
  · rw [HearsNewer, hnil]
    exact nofun
  · obtain ⟨-, hoffers⟩ := hs k p w hsession e.Published fun m hm => hm.published
    exact hoffers.mono hread.subset hsaid.subset

/-- The sessions of client `i` go on. -/
theorem newer_step (hr : HostSteps e (.start e fs₀) s)
    (hs : Step (e.roles i (s.holds i) s.manifest) ev (s.machines i) m)
    (hstep : HostStep e s (s.after i ev m))
    (h : ∀ k p w, (s.machines i).sessions k = some (p, w) → SessionNewer e fs₀ s i k p w) :
    ∀ k p w, m.sessions k = some (p, w) → SessionNewer e fs₀ (s.after i ev m) i k p w := by
  refine sessions_step (fun k p w hw => hw.later hstep) (fun k files _ taken _ => ?_)
    (fun k o q r w w' hs₀ hs₁ hw hm taken htaken => ?_) (fun k p w f hw taken htaken => ?_) h hs
  · exact ⟨handleClientSession_newer _, nofun⟩
  · obtain ⟨hnewer, hoffers⟩ := hw taken fun m' hm' => htaken m' (hm'.later hstep)
    -- what is taken in this step is the server's latest manifest
    have hmay : (servingEnv taken).may w o r w' := by
      refine servingMay_of_snapshot hm fun m' hcall hlatest => htaken m' ?_
      cases hcall
      have hnow : ((s.after i ev m).machines i).sessions k = some (q (some m'), w') := by
        rwa [after_self]
      exact ⟨s, s.after i ev m, q, w, w', hr, hstep, .refl, hlatest, hs₀, hnow⟩
    exact ⟨(hnewer _ ((servingEnv _).drift_refl _)).2 _ _ hmay,
      offersNewer_of_call hoffers hnewer.guard hmay⟩
  · obtain ⟨hnewer, hoffers⟩ := hw taken htaken
    exact ⟨hnewer.drift ⟨_, ⟨[f], rfl⟩, rfl⟩, hoffers⟩

omit [DecidableEq ι] in
/-- A client that is started. -/
theorem climbs_start (he : e.WellFormed) (i : ι) {fs : FileSystem Path}
    (horderly : Orderly (fs.disk .table)) (hclear : Clear fs) :
    Climbs e.server e.Published (e.client i)
      (fun _ => Standing e.server e.Published (e.client i).clientId none [])
      (Client.checkForUpdate e.bound (e.client i)) ⟨⟨fs, {}, false, false, 0⟩, false⟩ :=
  checkForUpdate_climbs (he.ids i) (he.unset i) (publishable e) e.bound
    ⟨⟨rfl, horderly, hclear⟩, nofun, List.nil_subset _, nofun, nofun⟩ rfl

/-- What a dead client leaves. -/
theorem dies_clear {fs fs' : FileSystem Path} (hd : Dies fs fs') : ∀ k, fs'.streams k = none := by
  induction hd with
  | done fs hs => exact hs
  | close k m hd ih => exact ih

/-- What one step of a client makes of the files. -/
theorem HostSound.moves (h : HostSound e fs₀ s)
    (hs : Step (e.roles i (s.holds i) s.manifest) ev (s.machines i) m) :
    Decent (e.client i) (Proposed (s.machines i).client.wire.ins) (s.holds i)
      ((s.after i ev m).holds i) (s.files i) m.client.fs := by
  have hsame : ∀ {fs : FileSystem Path}, fs = s.files i → (s.after i ev m).holds i = s.holds i →
      Decent (e.client i) (Proposed (s.machines i).client.wire.ins) (s.holds i)
        ((s.after i ev m).holds i) (s.files i) fs := by
    rintro _ rfl hholds
    exact ⟨.inl rfl, fun _ _ _ => rfl, h.idle i, fun hno => h.quiet i (hholds ▸ hno)⟩
  have hafter := holds_after_self (s := s) (i := i) ev m
  cases hs with
  | client hp ho hm =>
      rename_i o k r w
      by_cases hfile : ∃ o', o = .file o'
      · obtain ⟨o', rfl⟩ := hfile
        obtain ⟨fs, hfs, rfl⟩ := hm
        have hcall := h.climbs i
        rw [hp] at hcall
        rw [hafter]
        exact hcall.guard.2 r fs hfs
      · have hno : ∀ o', o ≠ .file o' := fun o' ho' => hfile ⟨o', ho'⟩
        refine hsame (ClientRules.may_fs hm hno) (hafter.trans ?_)
        cases o with
        | file o' => exact absurd rfl (hno o')
        | _ => rfl
  | dies hd =>
      have hgone := dies_clear hd
      have hkeep : ∀ p, (s.files i).Idle p → _ := fun p hp =>
        hd.disk fun k t ht hne hpath => hne (hp k t ht hpath)
      have hidle : ∀ p, FileSystem.Idle _ p := fun p k t ht _ => by
        rw [hgone k] at ht
        cases ht
      exact ⟨.inl (hkeep _ (h.idle i)), fun hno p hp => hkeep p (h.quiet i hno p hp), hidle _,
        fun _ p _ => hidle p⟩
  | others hfs => exact hsame (Eq.symm hfs) hafter
  | refused | connects | accepts | session | toClient | toServer => exact hsame rfl hafter

/-- The version that is recorded for a client, as every client sees it. -/
theorem HostSound.table_after (he : e.WellFormed) (h : HostSound e fs₀ s)
    (hs : Step (e.roles i (s.holds i) s.manifest) ev (s.machines i) m) :
    Orderly (m.client.fs.disk .table) ∧ ∀ j, j ≠ i →
      readVersion (e.client j).clientId (m.client.fs.disk .table) =
        readVersion (e.client j).clientId ((s.files i).disk .table) := by
  rcases (h.moves hs).table with hsame | ⟨-, v, current, c, -, -, -, hwritten, hnew⟩
  · rw [hsame]
    exact ⟨h.orderly i, fun _ _ => rfl⟩
  · obtain ⟨horderly, -, hothers⟩ := (h.orderly i).written (he.ids i) v hwritten
    rw [hnew]
    exact ⟨horderly, fun j hj => hothers _ (he.distinct j i hj)⟩

/-- What the others see of it. -/
theorem HostSound.around (he : e.WellFormed) (h : HostSound e fs₀ s)
    (hs : Step (e.roles i (s.holds i) s.manifest) ev (s.machines i) m) (hj : j ≠ i) :
    Around (e.client j).clientId (s.holds j) (s.files j) (withShared (s.files j) m.client.fs) := by
  obtain ⟨horderly, hrecorded⟩ := h.table_after he hs
  have htable : (withShared (s.files j) m.client.fs).disk .table = m.client.fs.disk .table :=
    withShared_shared rfl
  refine ⟨onlyShared_withShared _ _, fun hholds => ?_, fun _ => htable ▸ horderly, ?_⟩
  · -- only one of them holds the lock
    have hno : s.holds i = false := by
      rw [Host.holds, holds_iff.mp hholds]
      exact decide_eq_false fun hij => hj (Option.some.inj hij)
    refine withShared_same fun p hp => ?_
    rw [(h.moves hs).shared hno p hp]
    exact h.shared i j p hp
  · rw [htable, hrecorded j hj, h.shared i j .table rfl]

/-- A step of one client. -/
theorem HostSound.step (he : e.WellFormed) (h : HostSound e fs₀ s)
    (hs : Step (e.roles i (s.holds i) s.manifest) ev (s.machines i) m)
    (hlock : ∀ p, ev = .calls (.file (.lock p)) → s.lock = none) :
    HostSound e fs₀ (s.after i ev m) := by
  have hstep : HostStep e s (s.after i ev m) := .step i hs hlock
  have hmoves := h.moves hs
  have hl : Linked m := (h.linked i).step hs
  have hnewer := newer_step h.reached hs hstep (h.newer i)
  have hhears := hears_of_linked hl hnewer
  obtain ⟨horderly, -⟩ := h.table_after he hs
  refine ⟨h.reached.tail hstep, fun j => ?_, fun j => ?_, fun j => ?_, ?_, fun j => ?_, fun j => ?_,
    fun j => ?_⟩
  · by_cases hj : j = i
    · subst hj
      rwa [after_self]
    · rw [after_ne hj]
      exact (h.linked j).client_step (h.linked j).client (List.prefix_refl _)
  · by_cases hj : j = i
    · subst hj
      rwa [after_self]
    · rw [after_ne hj]
      exact fun k p w hsession => (h.newer j k p w hsession).later hstep
  · by_cases hj : j = i
    · subst hj
      have hcall := h.climbs j
      have hholds := holds_after_self (s := s) (i := j) ev m
      rw [after_self, hholds]
      cases hs with
      | client hp ho hm =>
          rw [hp] at hcall
          exact (hcall _ ((holderEnv ..).drift_refl _)).2 _ ⟨_, _⟩ ⟨hm, rfl, hhears⟩
      | refused hp hlossy =>
          rw [hp] at hcall
          exact (hcall _ ((holderEnv ..).drift_refl _)).2 none ⟨_, _⟩ ⟨⟨trivial, rfl⟩, rfl, hhears⟩
      | connects fd hp =>
          rw [hp] at hcall
          exact (hcall _ ((holderEnv ..).drift_refl _)).2 (some fd) ⟨_, _⟩ ⟨rfl, rfl, hhears⟩
      | dies hd =>
          refine climbs_start he j horderly fun k t p ht => ?_
          rw [dies_clear hd k] at ht
          cases ht
      | others hfs =>
          obtain rfl := hfs
          exact hcall
      | accepts | session | toServer => exact hcall
      | toClient hf =>
          exact hcall.drift ⟨rfl, ⟨_, _, .refl .., ⟨[_], rfl⟩, rfl⟩, fun _ => hhears⟩
    · rw [after_ne hj, holds_after_ne hj hlock]
      exact (h.climbs j).drift ⟨rfl, ⟨_, _, h.around he hs hj, .refl _, rfl⟩, fun hh => hh⟩
  · have hall : ∀ j p, p.shared = true → ((s.after i ev m).files j).disk p = m.client.fs.disk p := by
      intro j p hp
      by_cases hj : j = i
      · subst hj
        rw [files_after_self]
      · rw [files_after_ne hj, withShared_shared hp]
    exact fun j k p hp => (hall j p hp).trans (hall k p hp).symm
  · by_cases hj : j = i
    · subst hj
      rwa [files_after_self]
    · rw [files_after_ne hj, withShared_shared rfl]
      exact horderly
  · by_cases hj : j = i
    · subst hj
      rw [files_after_self]
      exact hmoves.idle
    · rw [files_after_ne hj]
      exact h.idle j
  · by_cases hj : j = i
    · subst hj
      rw [files_after_self]
      exact hmoves.quiet
    · rw [files_after_ne hj, holds_after_ne hj hlock]
      exact h.quiet j

/-- A reload. -/
theorem HostSound.reload (h : HostSound e fs₀ s) {manifest : Option Manifest}
    (hstep : HostStep e s { s with manifest := manifest }) :
    HostSound e fs₀ { s with manifest := manifest } where
  reached := h.reached.tail hstep
  linked := h.linked
  newer i k p w hsession := (h.newer i k p w hsession).later hstep
  climbs := h.climbs
  shared := h.shared
  orderly := h.orderly
  idle := h.idle
  quiet := h.quiet

end Fleet

end UpdateFramework.System
