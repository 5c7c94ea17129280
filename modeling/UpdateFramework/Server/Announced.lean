import UpdateFramework.Common.ConfigValues
import UpdateFramework.Common.VersionOrder
import UpdateFramework.Server.Publication

/-!
# Server — the versions a manifest file states

`vm_reload` copies the versions of the manifest file into 32 bytes before it checks them, and
`cfg_load` takes the pieces of long lines for lines.  What is published is what the lines of the file
state exactly if both versions fit and are seen as they are stated (`announced_iff`); a longer value
is cut, and what is left of it may be a version (`long_version_announced`).
-/

namespace UpdateFramework.Server

open Libc Process

/-- The versions the lines of a manifest file state, whole. -/
def statedLatest (content : Bytes) : Bytes := statedValue content (ascii "LATEST_VERSION") []
def statedMinimum (content : Bytes) : Bytes :=
  statedValue content (ascii "MIN_SUPPORTED") (ascii "0.0.0")

/-- The versions the file states are versions, and are those published. -/
structure Announced (content : Bytes) (m : VersionManifest) : Prop where
  latestValid : verIsValid (statedLatest content) = true
  minimumValid : verIsValid (statedMinimum content) = true
  latest : m.latestVersion = statedLatest content
  minimum : m.minSupported = statedMinimum content

/-- A value fits into `char[MAX_VERSION_STR]`, and the pieces of long lines state no other one. -/
def Legible (content key fallback : Bytes) : Prop :=
  (statedValue content key fallback).length < maxVersionStr ∧
    seenValue content key fallback = statedValue content key fallback

/-- Both versions are legible. -/
def VersionsLegible (content : Bytes) : Prop :=
  Legible content (ascii "LATEST_VERSION") [] ∧
    Legible content (ascii "MIN_SUPPORTED") (ascii "0.0.0")

/-- A version has no blanks in it. -/
theorem inked_of_valid {text : Bytes} (h : verIsValid text = true) :
    ∀ b ∈ text, isspace b = false := by
  obtain ⟨v, hv⟩ := Option.isSome_iff_exists.mp h
  intro b hb
  rw [Bool.eq_false_iff]
  intro hspace
  refine Denotes.not_mem (verParse_iff.mp hv) (Bool.eq_false_iff.mpr fun hdigit => ?_) ?_ hb
  · exact absurd hspace (Bool.eq_false_iff.mp (not_isspace_of_isdigit hdigit))
  · rintro rfl
    cases hspace

/-- A value that was checked after it was copied is the one stated exactly if it is legible. -/
theorem legible_iff {content key fallback : Bytes} (hacc : Acceptable [] (seenLines content))
    (hnul : 0 ∉ key) (hfallback : fallback.length + 1 < maxVersionStr)
    (hvalid : verIsValid (snprintf maxVersionStr (seenValue content key fallback)) = true) :
    snprintf maxVersionStr (seenValue content key fallback) = statedValue content key fallback ↔
      Legible content key fallback := by
  constructor
  · intro h
    have hinked := inked_of_valid (h ▸ hvalid)
    exact (seen_of_cut hacc hnul hfallback hinked h).symm
  · rintro ⟨hfits, hseen⟩
    rw [hseen, snprintf_of_lt hfits]

/-- Of what was read and checked, the versions published are those stated if they are legible. -/
theorem Built.versions_whole {packageDir content : Bytes} {tr : VmHistory} {cfg : Cfg}
    {m : VersionManifest} (hbuilt : Built packageDir tr cfg m) (hwell : WellFormed packageDir cfg m)
    (hfile : linesRead tr = readLines content) : Announced content m ↔ VersionsLegible content := by
  have hread := hbuilt.entries
  rw [hfile] at hread
  obtain ⟨hacc, rfl⟩ := foldlM_readLines_iff.mp hread
  have hkeys : (0 : UInt8) ∉ ascii "LATEST_VERSION" ∧ (0 : UInt8) ∉ ascii "MIN_SUPPORTED" := by
    decide
  have hlatestValid := hwell.latestVersion
  have hminimumValid := hwell.minSupported
  rw [hbuilt.latestVersion] at hlatestValid
  rw [hbuilt.minSupported] at hminimumValid
  have hlatest : snprintf maxVersionStr (seenValue content (ascii "LATEST_VERSION") []) =
      statedLatest content ↔ Legible content (ascii "LATEST_VERSION") [] :=
    legible_iff hacc hkeys.1 (by decide) hlatestValid
  have hminimum : snprintf maxVersionStr (seenValue content (ascii "MIN_SUPPORTED")
      (ascii "0.0.0")) = statedMinimum content ↔
        Legible content (ascii "MIN_SUPPORTED") (ascii "0.0.0") :=
    legible_iff hacc hkeys.2 (by decide) hminimumValid
  constructor
  · intro h
    exact ⟨hlatest.mp (hbuilt.latestVersion.symm.trans h.latest),
      hminimum.mp (hbuilt.minSupported.symm.trans h.minimum)⟩
  · rintro ⟨hl, hm⟩
    have hl : m.latestVersion = statedLatest content := hbuilt.latestVersion.trans (hlatest.mpr hl)
    have hm : m.minSupported = statedMinimum content := hbuilt.minSupported.trans (hminimum.mpr hm)
    exact ⟨hl ▸ hwell.latestVersion, hm ▸ hwell.minSupported, hl, hm⟩

/-- **The announced versions.**  A manifest `vm_reload` publishes, having read a manifest file from
beginning to end, has the versions the lines of the file state, and these are versions, exactly if
both are legible.  A reload that fails publishes nothing, and one that does not fail publishes. -/
theorem announced_iff (bound : ℕ) (vm : VersionManager) :
    (∀ tr m k content, History (vmReload bound vm) (.call (.publish m) k) tr →
        linesRead tr = readLines content → (Announced content m ↔ VersionsLegible content)) ∧
      (∀ tr, History (vmReload bound vm) (.ret false) tr → Unpublished tr) ∧
      ∀ tr, History (vmReload bound vm) (.ret true) tr → ∃ m, did (.publish m) () ∈ tr := by
  refine ⟨fun tr m k content h hfile => ?_, fun tr h m hm => ?_, fun tr h => ?_⟩
  · obtain ⟨-, cfg, hbuilt, hwell⟩ := ((vmReload_publishes bound vm).run h).guard
    exact hbuilt.versions_whole hwell hfile
  · exact absurd (((vmReload_publishes bound vm).run h).result.mpr ⟨m, hm⟩) Bool.false_ne_true
  · exact ((vmReload_publishes bound vm).run h).result.mp rfl

/-- The reload of a manifest file with this line, up to its publication. -/
def reloadWith (line : Bytes) : VmHistory :=
  [did (.reads (.file (.fopen (ascii "./config/manifest.conf") .r))) (some 3),
    did (.reads (.file (.fgets 3 1024))) (some (line, false)),
    did (.reads (.file (.fgets 3 1024))) (some (ascii "PACKAGE_FILE=app.bin\n", false)),
    did (.reads (.file (.fgets 3 1024))) none,
    did (.reads (.ferror 3)) false,
    did (.reads (.file (.fclose 3))) true,
    did (.reads (.file (.stat (ascii "./packages/app.bin")))) (some 1),
    did (.reads (.file (.fopen (ascii "./packages/app.bin") .r))) (some 3),
    did (.reads (.file (.fread 3 65536))) ([1], false),
    did (.reads (.file (.fclose 3))) true]

/-- A manifest file with this line. -/
def fileWith (line : Bytes) : Bytes := line ++ ascii "PACKAGE_FILE=app.bin\n"

theorem announced_iff_150 : Announced (fileWith (ascii "LATEST_VERSION=1.5.0\n")) manifest150 := by
  have hreload : ((vmReload 3 (vmPaths (ascii "./config/manifest.conf")
      (ascii "./packages"))).replay (reloadWith (ascii "LATEST_VERSION=1.5.0\n") ++
        [did (.publish manifest150) ()])).isSome := by decide +kernel
  obtain ⟨k, hk⟩ := Prog.history_call_of_replay (E := vmInterface) hreload
  have hseen : ∀ {key fallback : Bytes}, seenValue (fileWith (ascii "LATEST_VERSION=1.5.0\n")) key
      fallback = statedValue (fileWith (ascii "LATEST_VERSION=1.5.0\n")) key fallback :=
    seenValue_of_short (by decide +kernel) (by decide +kernel)
  exact ((announced_iff 3 _).1 _ _ k _ hk (by decide +kernel)).mpr
    ⟨⟨by decide +kernel, hseen⟩, by decide +kernel, hseen⟩

/-- A version with more after it than fits. -/
def longVersion : Bytes := ascii "1.2.000000000000000000000000003.4"

/-- The manifest with what is left of it. -/
def cutManifest : VersionManifest :=
  { manifest150 with latestVersion := ascii "1.2.000000000000000000000000003" }

/-- A text that is no version is announced as one. -/
theorem long_version_announced :
    verIsValid longVersion = false ∧ cutManifest.latestVersion ≠ longVersion ∧
      ∃ tr k content, History (vmReload 3 (vmPaths (ascii "./config/manifest.conf")
        (ascii "./packages"))) (.call (.publish cutManifest) k) tr ∧
          linesRead tr = readLines content ∧ statedLatest content = longVersion := by
  have hreload : ((vmReload 3 (vmPaths (ascii "./config/manifest.conf")
      (ascii "./packages"))).replay (reloadWith (ascii "LATEST_VERSION=" ++ longVersion ++
        ascii "\n") ++ [did (.publish cutManifest) ()])).isSome := by decide +kernel
  obtain ⟨k, hk⟩ := Prog.history_call_of_replay (E := vmInterface) hreload
  exact ⟨by decide, by decide, _, k, fileWith (ascii "LATEST_VERSION=" ++ longVersion ++ ascii "\n"),
    hk, by decide +kernel, by decide +kernel⟩

end UpdateFramework.Server
