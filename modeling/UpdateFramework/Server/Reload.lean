import UpdateFramework.Server.VersionManager

/-!
# Server — what a reload publishes

What `vm_reload` publishes is built from what this one call of it read, and has passed its checks
(`vmReload_publishes`).
-/

namespace UpdateFramework.Server

open Libc Process

abbrev VmHistory := List (Call vmInterface)

/-- The operation `o`, answered by `r`. -/
abbrev did (o : VmOp) (r : VmOp.Res o) : Call vmInterface := ⟨o, r⟩

/-! ### What a reload reads -/

/-- A line `fgets` returned. -/
def lineOf : Call (stdio Bytes) → Option Bytes
  | ⟨.fgets _ _, some (line, _)⟩ => some line
  | _ => none

/-- The bytes `fread` returned. -/
def blockOf : Call (stdio Bytes) → Option Bytes
  | ⟨.fread _ _, (block, _)⟩ => some block
  | _ => none

def fileCall : Call configInterface → Option (Call (stdio Bytes))
  | ⟨.file o, r⟩ => some ⟨o, r⟩
  | _ => none

def readCall : Call vmInterface → Option (Call configInterface)
  | ⟨.reads o, r⟩ => some ⟨o, r⟩
  | _ => none

/-- The lines read by the calls. -/
def linesOf (tr : List (Call (stdio Bytes))) : List Bytes := tr.filterMap lineOf

/-- The bytes read by the calls, apart from lines. -/
def blocksOf (tr : List (Call (stdio Bytes))) : Bytes := (tr.filterMap blockOf).flatten

/-- The calls on files of `cfg_load`. -/
def configFiles (tr : List (Call configInterface)) : List (Call (stdio Bytes)) :=
  tr.filterMap fileCall

/-- The calls on files. -/
def fileCalls (tr : VmHistory) : List (Call (stdio Bytes)) := configFiles (tr.filterMap readCall)

/-- The lines of the manifest file. -/
def linesRead (tr : VmHistory) : List Bytes := linesOf (fileCalls tr)

/-- The bytes of the package. -/
def bytesRead (tr : VmHistory) : Bytes := blocksOf (fileCalls tr)

/-- The manifest is what one reload read: the fields of the file's entries, and the size and the hash
of the package they name. -/
structure Built (packageDir : Bytes) (tr : VmHistory) (cfg : Cfg) (m : VersionManifest) : Prop where
  entries : (linesRead tr).foldlM cfgLine [] = some cfg
  latestVersion : m.latestVersion = cfgCopyStr cfg (ascii "LATEST_VERSION") [] maxVersionStr
  packageFile : m.packageFile = cfgCopyStr cfg (ascii "PACKAGE_FILE") [] maxPathLen
  minSupported : m.minSupported =
    cfgCopyStr cfg (ascii "MIN_SUPPORTED") (ascii "0.0.0") maxVersionStr
  releaseNotes : m.releaseNotes = cfgCopyStr cfg (ascii "RELEASE_NOTES") [] maxValueLen
  packageSize : ∃ path, pkgResolvePath packageDir m.packageFile (maxPathLen * 2) = some path ∧
    did (.reads (.file (.stat path))) (some m.packageSize) ∈ tr
  checksum : m.checksumSha256 = sha256BufferHex (bytesRead tr)

/-- What a published manifest is promised to be. -/
structure WellFormed (packageDir : Bytes) (cfg : Cfg) (m : VersionManifest) : Prop where
  latestVersion : verIsValid m.latestVersion = true
  minSupported : verIsValid m.minSupported = true
  packageFile : (pkgResolvePath packageDir m.packageFile (maxPathLen * 2)).isSome = true
  checksum : m.checksumSha256.length = sha256HexLen ∧
    ∀ d ∈ m.checksumSha256, d ∈ ascii "0123456789abcdef"
  configured : cfgGet cfg (ascii "CHECKSUM_SHA256") [] = [] ∨
    strcaseeq (cfgGet cfg (ascii "CHECKSUM_SHA256") []) m.checksumSha256 = true

theorem linesOf_append (tr seg : List (Call (stdio Bytes))) :
    linesOf (tr ++ seg) = linesOf tr ++ linesOf seg :=
  List.filterMap_append

theorem blocksOf_append (tr seg : List (Call (stdio Bytes))) :
    blocksOf (tr ++ seg) = blocksOf tr ++ blocksOf seg := by
  rw [blocksOf, List.filterMap_append, List.flatten_append]
  rfl

theorem configFiles_append (tr seg : List (Call configInterface)) :
    configFiles (tr ++ seg) = configFiles tr ++ configFiles seg :=
  List.filterMap_append

/-! ### The entries -/

/-- The entries of the lines read so far, with nothing else read. -/
structure EntriesRead (cfg : Cfg) (tr : List (Call (stdio Bytes))) : Prop where
  blocks : blocksOf tr = []
  lines : (linesOf tr).foldlM cfgLine [] = some cfg

theorem EntriesRead.append {cfg cfg' : Cfg} {tr seg : List (Call (stdio Bytes))}
    (h : EntriesRead cfg tr) (hblocks : blocksOf seg = [])
    (hlines : (linesOf seg).foldlM cfgLine cfg = some cfg') : EntriesRead cfg' (tr ++ seg) where
  blocks := by rw [blocksOf_append, h.blocks, hblocks, List.append_nil]
  lines := by rw [linesOf_append, List.foldlM_append, h.lines]; exact hlines

/-- What `cfg_load` gives are the entries of the lines it read. -/
theorem cfgLoad_entries (bound : ℕ) (path : Bytes) :
    Safe (Env.any configInterface) (fun _ _ => True)
      (fun r tr => ∀ cfg, r = some cfg → EntriesRead cfg (configFiles tr))
      (cfgLoad bound path) [] := by
  have quiet : ∀ {cfg : Cfg} {tr : List (Call configInterface)} {x : Call configInterface},
      EntriesRead cfg (configFiles tr) → blocksOf (configFiles [x]) = [] →
      linesOf (configFiles [x]) = [] → EntriesRead cfg (configFiles (tr ++ [x])) := by
    intro cfg tr x h hblocks hlines
    rw [configFiles_append]
    exact h.append hblocks (hlines ▸ rfl)
  unfold cfgLoad
  simp only [Prog.call_bind, Prog.ret_bind]
  refine safe_any_call.mpr ⟨trivial, fun fp => ?_⟩
  cases fp with
  | none => exact safe_any_ret.mpr nofun
  | some fp =>
      refine safe_bind.mpr (Safe.post (Q := fun r tr => ∀ cfg, r = some cfg →
          EntriesRead cfg (configFiles tr))
        (safe_loop _ trivial (fun cfg tr => EntriesRead cfg (configFiles tr))
          (fun cfg tr h => ?_) bound ⟨rfl, rfl⟩) fun r tr h => ?_)
      · -- one line more, or the end
        unfold cfgRound
        simp only [Prog.call_bind, Prog.ret_bind]
        refine safe_any_call.mpr ⟨trivial, fun got => ?_⟩
        cases got with
        | none =>
            refine safe_any_ret.mpr fun _ ht cfg' hcfg => ?_
            cases hcfg
            exact ht ▸ quiet h rfl rfl
        | some got =>
            obtain ⟨line, eof⟩ := got
            dsimp only
            cases hline : cfgLine cfg line with
            | none => exact safe_any_ret.mpr fun _ _ _ hcfg => nomatch hcfg
            | some cfg' =>
                refine safe_any_ret.mpr ?_
                dsimp only [Sum.elim_inl]
                rw [configFiles_append]
                exact h.append rfl (Eq.trans (bind_pure _) hline)
      · cases r with
        | none => exact safe_any_call.mpr ⟨trivial, fun _ => safe_any_ret.mpr nofun⟩
        | some cfg =>
            refine safe_any_call.mpr ⟨trivial, fun failed => ?_⟩
            refine safe_any_call.mpr ⟨trivial, fun closed => safe_any_ret.mpr fun cfg' hcfg => ?_⟩
            cases failed with
            | true => cases hcfg
            | false =>
                cases hcfg
                exact quiet (quiet (h cfg rfl) rfl rfl) rfl rfl

/-! ### The hash -/

/-- The hash of the blocks read so far, with nothing else read. -/
structure BlocksHashed (ctx : Sha256Ctx) (tr : List (Call (stdio Bytes))) : Prop where
  lines : linesOf tr = []
  blocks : ctx = sha256Update sha256Init (blocksOf tr)

theorem BlocksHashed.append {ctx : Sha256Ctx} {tr seg : List (Call (stdio Bytes))} {b : Bytes}
    (h : BlocksHashed ctx tr) (hlines : linesOf seg = []) (hb : blocksOf seg = b) :
    BlocksHashed (sha256Update ctx b) (tr ++ seg) where
  lines := by rw [linesOf_append, h.lines, hlines, List.append_nil]
  blocks := by rw [blocksOf_append, sha256Update_append, ← h.blocks, hb]

/-- What `sha256_file_hex` gives is the hash of the blocks it read. -/
theorem sha256FileHex_hashes (bound : ℕ) (path : Bytes) :
    Safe (Env.any (stdio Bytes)) (fun _ _ => True)
      (fun r tr => ∀ hex, r = some hex → linesOf tr = [] ∧ hex = sha256BufferHex (blocksOf tr))
      (sha256FileHex bound path) [] := by
  unfold sha256FileHex
  simp only [Prog.call_bind, Prog.ret_bind]
  refine safe_any_call.mpr ⟨trivial, fun fp => ?_⟩
  cases fp with
  | none => exact safe_any_ret.mpr nofun
  | some fp =>
      refine safe_bind.mpr (Safe.post (Q := fun r tr => ∀ ctx, r = some ctx → BlocksHashed ctx tr)
        (safe_loop _ trivial (fun ctx tr => BlocksHashed ctx tr) (fun ctx tr h => ?_) bound
          ⟨rfl, rfl⟩) fun r tr h => ?_)
      · -- one block more, perhaps the last
        unfold sha256FileRound
        simp only [Prog.call_bind, Prog.ret_bind]
        refine safe_any_call.mpr ⟨trivial, fun got => ?_⟩
        obtain ⟨buf, ferror⟩ := got
        have hmore : BlocksHashed (sha256Update ctx buf) (tr ++ [⟨.fread fp 65536, (buf, ferror)⟩]) :=
          h.append rfl (List.append_nil buf)
        dsimp only
        split
        · refine safe_any_ret.mpr fun _ ht ctx' hctx => ?_
          cases ferror with
          | true => cases hctx
          | false =>
              cases hctx
              exact ht ▸ hmore
        · exact safe_any_ret.mpr hmore
      · refine safe_any_call.mpr ⟨trivial, fun closed => safe_any_ret.mpr fun hex hhex => ?_⟩
        obtain ⟨ctx, hctx, rfl⟩ := Option.map_eq_some_iff.mp hhex
        have hclosed : BlocksHashed ctx (tr ++ [⟨.fclose fp, closed⟩]) :=
          (h ctx hctx).append (b := []) rfl rfl
        obtain ⟨hlines, hblocks⟩ := hclosed
        exact ⟨hlines, congrArg (fun ctx => bytesToHex (sha256Final ctx)) hblocks⟩

/-! ### One reload -/

/-- Nothing has been published. -/
def Unpublished (tr : VmHistory) : Prop := ∀ m, did (.publish m) () ∉ tr

/-- Before a manifest is published: it is built from what was read, and well-formed; it is the first
one. -/
def publishes (packageDir : Bytes) (tr : VmHistory) : VmOp → Prop
  | .publish m => Unpublished tr ∧ ∃ cfg, Built packageDir tr cfg m ∧ WellFormed packageDir cfg m
  | .snapshot | .session _ => False
  | _ => True

/-- `vm_reload` returns `0` exactly when it has published. -/
def EndsPublished (rc : Bool) (tr : VmHistory) : Prop := rc = true ↔ ∃ m, did (.publish m) () ∈ tr

section Reload

variable {packageDir : Bytes} {α : Type}

theorem fileCalls_append (tr seg : VmHistory) :
    fileCalls (tr ++ seg) = fileCalls tr ++ fileCalls seg := by
  rw [fileCalls, List.filterMap_append, configFiles_append]
  rfl

/-- Reading as a part of a reload. -/
theorem reading_safe {p : Prog configInterface α} {Q : α → List (Call configInterface) → Prop}
    (hp : Safe (Env.any configInterface) (fun _ _ => True) Q p []) (tr : VmHistory) :
    Safe (Env.any vmInterface) (publishes packageDir)
      (fun a tr' => ∃ seg, tr' = tr ++ seg ∧ Unpublished seg ∧ Q a (seg.filterMap readCall))
      (reading p) tr := by
  have hsafe : Safe (Env.any vmInterface) (publishes packageDir)
      (fun a tr' => ∃ seg, tr' = tr ++ seg ∧ (∀ x ∈ seg, ∃ o, x.1 = VmOp.reads o) ∧
        Q a (seg.filterMap readCall)) (reading p) tr :=
    safe_interp_any VmOp.reads (fun _ r => r) readCall (fun _ => rfl) (fun _ _ => rfl)
      (fun _ _ _ _ => trivial) hp
  refine hsafe.post ?_
  rintro a _ ⟨seg, rfl, hseg, hQ⟩
  refine ⟨seg, rfl, fun m hm => ?_, hQ⟩
  obtain ⟨o, ho⟩ := hseg _ hm
  cases ho

/-- The call on a file a reload makes. -/
def readFileCall : Call vmInterface → Option (Call (stdio Bytes))
  | ⟨.reads (.file o), r⟩ => some ⟨o, r⟩
  | _ => none

theorem fileCalls_eq (tr : VmHistory) : fileCalls tr = tr.filterMap readFileCall := by
  rw [fileCalls, configFiles, List.filterMap_filterMap]
  refine List.filterMap_congr fun x _ => ?_
  obtain ⟨o, r⟩ := x
  cases o with
  | reads o =>
      cases o with
      | _ => rfl
  | _ => rfl

theorem readingFile_safe {p : Prog (stdio Bytes) α} {Q : α → List (Call (stdio Bytes)) → Prop}
    (hp : Safe (Env.any (stdio Bytes)) (fun _ _ => True) Q p []) (tr : VmHistory) :
    Safe (Env.any vmInterface) (publishes packageDir)
      (fun a tr' => ∃ seg, tr' = tr ++ seg ∧ Unpublished seg ∧ Q a (fileCalls seg))
      (readingFile p) tr := by
  have hsafe : Safe (Env.any vmInterface) (publishes packageDir)
      (fun a tr' => ∃ seg, tr' = tr ++ seg ∧ (∀ x ∈ seg, ∃ o, x.1 = VmOp.reads (.file o)) ∧
        Q a (seg.filterMap readFileCall)) (readingFile p) tr :=
    safe_interp_any (fun o => VmOp.reads (.file o)) (fun _ r => r) readFileCall (fun _ => rfl)
      (fun _ _ => rfl) (fun _ _ _ _ => trivial) hp
  refine hsafe.post ?_
  rintro a _ ⟨seg, rfl, hseg, hQ⟩
  refine ⟨seg, rfl, fun m hm => ?_, fileCalls_eq seg ▸ hQ⟩
  obtain ⟨o, ho⟩ := hseg _ hm
  cases ho

/-- The call a list of calls on files consists of. -/
theorem mem_of_fileCalls_eq {tr : VmHistory} {o : FileOp Bytes} {r : FileOp.Res o}
    (h : fileCalls tr = [⟨o, r⟩]) : did (.reads (.file o)) r ∈ tr := by
  have hm : (⟨o, r⟩ : Call (stdio Bytes)) ∈ tr.filterMap readFileCall :=
    fileCalls_eq tr ▸ h ▸ .head _
  obtain ⟨x, hx, hread⟩ := List.mem_filterMap.mp hm
  obtain ⟨o', r'⟩ := x
  cases o' with
  | reads o' =>
      cases o' with
      | file o' =>
          cases hread
          exact hx
      | ferror _ => cases hread
  | _ => cases hread

theorem reloadFailed_safe (text : Bytes) {tr : VmHistory} (h : Unpublished tr) :
    Safe (Env.any vmInterface) (publishes packageDir) EndsPublished (reloadFailed text) tr := by
  refine safe_any_call.mpr ⟨trivial, fun _ => safe_any_ret.mpr ⟨nofun, ?_⟩⟩
  rintro ⟨m, hm⟩
  rcases List.mem_append.mp hm with hm | hm
  · exact absurd hm (h m)
  · cases List.mem_singleton.mp hm

theorem agrees_of {configured computed : Bytes}
    (h : ¬ (configured ≠ [] ∧ (¬ hex64Ok configured ∨ ¬ strcaseeq configured computed))) :
    configured = [] ∨ strcaseeq configured computed = true := by
  by_cases hnone : configured = []
  · exact .inl hnone
  · exact .inr (not_not.mp fun hdiffers => h ⟨hnone, .inr hdiffers⟩)

theorem Unpublished.append {tr seg : VmHistory} (h : Unpublished tr) (h' : Unpublished seg) :
    Unpublished (tr ++ seg) := by
  intro m hm
  rcases List.mem_append.mp hm with hm | hm
  · exact h m hm
  · exact h' m hm

end Reload

/-- `vm_reload` publishes what it has read and checked, or nothing. -/
theorem vmReload_publishes (bound : ℕ) (vm : VersionManager) :
    Safe (Env.any vmInterface) (publishes vm.packageDir) EndsPublished (vmReload bound vm) [] := by
  unfold vmReload
  refine safe_bind.mpr ((reading_safe (cfgLoad_entries bound vm.manifestPath) []).post ?_)
  rintro loaded tr₁ ⟨_, rfl, hun₁, hentries⟩
  cases loaded with
  | none => exact reloadFailed_safe _ hun₁
  | some cfg =>
      have hentries : EntriesRead cfg (fileCalls tr₁) := hentries cfg rfl
      dsimp only
      by_cases hfields : ¬ verIsValid (cfgCopyStr cfg (ascii "LATEST_VERSION") [] maxVersionStr) ∨
          ¬ verIsValid (cfgCopyStr cfg (ascii "MIN_SUPPORTED") (ascii "0.0.0") maxVersionStr) ∨
          cfgCopyStr cfg (ascii "PACKAGE_FILE") [] maxPathLen = []
      · rw [if_pos hfields]
        exact reloadFailed_safe _ hun₁
      rw [if_neg hfields]
      obtain ⟨hlatest, hmin, -⟩ := not_or.mp hfields |>.imp_right not_or.mp
      cases hpath : pkgResolvePath vm.packageDir
          (cfgCopyStr cfg (ascii "PACKAGE_FILE") [] maxPathLen) (maxPathLen * 2) with
      | none => exact reloadFailed_safe _ hun₁
      | some packagePath =>
          have hstat : Safe (Env.any (stdio Bytes)) (fun _ _ => True)
              (fun r tr => tr = [⟨.stat packagePath, r⟩]) (stat packagePath) [] :=
            safe_any_call.mpr ⟨trivial, fun r => safe_any_ret.mpr rfl⟩
          refine safe_bind.mpr ((readingFile_safe hstat tr₁).post ?_)
          rintro size _ ⟨tr₂, rfl, hun₂, hsize⟩
          have hun₂ := hun₁.append hun₂
          cases size with
          | none => exact reloadFailed_safe _ hun₂
          | some packageSize =>
              refine safe_bind.mpr
                ((readingFile_safe (sha256FileHex_hashes bound packagePath) _).post ?_)
              rintro hashed _ ⟨tr₃, rfl, hun₃, hhash⟩
              have hun₃ := hun₂.append hun₃
              cases hashed with
              | none => exact reloadFailed_safe _ hun₃
              | some computed =>
                  dsimp only
                  split
                  · exact reloadFailed_safe _ hun₃
                  rename_i hagrees
                  -- the manifest is published
                  obtain ⟨hlines₃, hcomputed⟩ := hhash computed rfl
                  have hlines₂ : linesOf (fileCalls tr₂) = [] := hsize ▸ rfl
                  have hblocks₂ : blocksOf (fileCalls tr₂) = [] := hsize ▸ rfl
                  have hlines : linesRead (tr₁ ++ tr₂ ++ tr₃) = linesOf (fileCalls tr₁) := by
                    rw [linesRead, fileCalls_append, fileCalls_append, linesOf_append,
                      linesOf_append, hlines₂, hlines₃, List.append_nil, List.append_nil]
                  have hblocks : bytesRead (tr₁ ++ tr₂ ++ tr₃) = blocksOf (fileCalls tr₃) := by
                    rw [bytesRead, fileCalls_append, fileCalls_append, blocksOf_append,
                      blocksOf_append, hentries.blocks, hblocks₂, List.nil_append, List.nil_append]
                  have hlength : computed.length = sha256HexLen :=
                    hcomputed ▸ length_sha256BufferHex _
                  have hwhole : snprintf sha256HexBuf computed = computed :=
                    List.take_of_length_le (hlength.le.trans (by decide))
                  refine safe_any_call.mpr ⟨⟨hun₃, cfg, ?_, ?_⟩, fun _ => ?_⟩
                  · exact
                      { entries := hlines ▸ hentries.lines
                        latestVersion := rfl
                        packageFile := rfl
                        minSupported := rfl
                        releaseNotes := rfl
                        packageSize := ⟨packagePath, hpath, List.mem_append_left _
                          (List.mem_append_right _ (mem_of_fileCalls_eq hsize))⟩
                        checksum := hwhole.trans (hblocks ▸ hcomputed) }
                  · exact
                      { latestVersion := not_not.mp hlatest
                        minSupported := not_not.mp hmin
                        packageFile := Option.isSome_iff_exists.mpr ⟨packagePath, hpath⟩
                        checksum := hwhole.symm ▸ ⟨hlength, fun d hd =>
                          mem_bytesToHex (hcomputed ▸ hd)⟩
                        configured := hwhole.symm ▸ agrees_of hagrees }
                  · exact safe_any_call.mpr ⟨trivial, fun _ => safe_any_ret.mpr
                      ⟨fun _ => ⟨_, List.mem_append_left _ (List.mem_append_right _ (.head _))⟩,
                        fun _ => rfl⟩⟩

/-- A reload can have built this manifest from what it read, checked it, and be about to publish
it. -/
def Reloaded (vm : VersionManager) (m : VersionManifest) : Prop :=
  ∃ bound k tr cfg, History (vmReload bound vm) (.call (.publish m) k) tr ∧
    Built vm.packageDir tr cfg m ∧ WellFormed vm.packageDir cfg m

theorem reloaded_of_history {bound : ℕ} {vm : VersionManager} {m : VersionManifest}
    {k : Unit → VmProg Bool} {tr : VmHistory}
    (h : History (vmReload bound vm) (.call (.publish m) k) tr) : Reloaded vm m := by
  obtain ⟨-, cfg, hbuilt, hwell⟩ := ((vmReload_publishes bound vm).run h).guard
  exact ⟨bound, k, tr, cfg, h, hbuilt, hwell⟩

end UpdateFramework.Server
