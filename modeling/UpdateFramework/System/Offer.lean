import UpdateFramework.Client.Downloader
import UpdateFramework.Common.Payload
import UpdateFramework.Common.VersionOrder
import UpdateFramework.Server.Publication

/-!
# System — the offer of an update

The payload of `UPDATE_AVAILABLE` is a list of five fields, which fits in a control frame whatever
manifest has been published, and `receive_update` reads from it what the server put in
(`payload_decodes`).
-/

namespace UpdateFramework.System

open Libc Process Server

/-! ### What the server writes -/

/-- The number of chunks an offer advertises. -/
def advertisedChunks (cfg : ServerConfig) (m : Manifest) : ℕ :=
  (m.packageSize + cfg.chunkSize - 1) % 2 ^ 64 / cfg.chunkSize

/-- The fields of an offer. -/
def offerFields (cfg : ServerConfig) (m : Manifest) : List (Bytes × Bytes) :=
  [(ascii "ver", m.latestVersion), (ascii "size", decimal m.packageSize),
    (ascii "chunk", decimal cfg.chunkSize), (ascii "chunks", decimal (advertisedChunks cfg m)),
    (ascii "sha256", m.checksumSha256)]

/-- A manifest whose fields fit in an offer, and do not break it up. -/
structure Advertisable (m : Manifest) : Prop where
  version : m.latestVersion.length < maxVersionStr
  plainVersion : 59 ∉ m.latestVersion ∧ 0 ∉ m.latestVersion
  checksum : m.checksumSha256.length = sha256HexLen
  plainChecksum : 59 ∉ m.checksumSha256 ∧ 0 ∉ m.checksumSha256
  size : m.packageSize < 2 ^ 64

/-- A published manifest can be advertised. -/
theorem advertisable_of_reloaded {vm : VersionManager} {m : VersionManifest} (h : Reloaded vm m)
    (hsize : m.packageSize < 2 ^ 64) : Advertisable m.toManifest := by
  obtain ⟨bound, k, tr, entries, -, hbuilt, hwell⟩ := h
  obtain ⟨v, hv⟩ := Option.isSome_iff_exists.mp hwell.latestVersion
  have hdenotes := verParse_iff.mp hv
  obtain ⟨hlen, hhex⟩ := hwell.checksum
  refine ⟨?_, ⟨Denotes.not_mem hdenotes rfl (by decide), Denotes.not_mem hdenotes rfl (by decide)⟩,
    hlen, ⟨fun hm => ?_, fun hm => ?_⟩, hsize⟩
  · rw [hbuilt.latestVersion, cfgCopyStr, snprintf, List.length_take]
    exact Nat.lt_of_le_of_lt (Nat.min_le_left ..) (by decide)
  · exact absurd (hhex _ hm) (by decide)
  · exact absurd (hhex _ hm) (by decide)

theorem plainPair_decimal {key : Bytes} (hkey : 61 ∉ key ∧ 59 ∉ key ∧ 0 ∉ key) (n : ℕ) :
    PlainPair (key, decimal n) := by
  have hdigits : ∀ b : UInt8, isdigit b = false → b ∉ decimal n := fun b hb hm =>
    absurd ((decimal_numeral n).digits b hm) (by rw [hb]; exact Bool.false_ne_true)
  exact ⟨hkey, hdigits 59 rfl, hdigits 0 rfl⟩

theorem offerFields_plain (cfg : ServerConfig) {m : Manifest} (h : Advertisable m) :
    ∀ pair ∈ offerFields cfg m, PlainPair pair := by
  intro pair hpair
  have hver : 61 ∉ ascii "ver" ∧ 59 ∉ ascii "ver" ∧ 0 ∉ ascii "ver" := by decide
  have hsha : 61 ∉ ascii "sha256" ∧ 59 ∉ ascii "sha256" ∧ 0 ∉ ascii "sha256" := by decide
  simp only [offerFields, List.mem_cons, List.not_mem_nil, or_false] at hpair
  rcases hpair with rfl | rfl | rfl | rfl | rfl
  · exact ⟨hver, h.plainVersion⟩
  · exact plainPair_decimal (by decide) _
  · exact plainPair_decimal (by decide) _
  · exact plainPair_decimal (by decide) _
  · exact ⟨hsha, h.plainChecksum⟩

theorem advertisedChunks_lt (cfg : ServerConfig) (m : Manifest) : advertisedChunks cfg m < 2 ^ 64 :=
  Nat.lt_of_le_of_lt (Nat.div_le_self ..) (Nat.mod_lt _ (by decide))

theorem chunkSize_lt (cfg : ServerConfig) : cfg.chunkSize < 2 ^ 64 :=
  cfg.chunkSize_range.2.trans_lt (by decide)

theorem length_kvPair (key value : Bytes) :
    (kvPair (key, value)).length = key.length + value.length + 1 := by
  rw [kvPair, List.length_append, List.length_cons]
  rfl

/-- No offer is cut. -/
theorem updateMeta_eq (cfg : ServerConfig) {m : Manifest} (h : Advertisable m) :
    updateMeta cfg m = kvJoin (offerFields cfg m) ∧
      (kvJoin (offerFields cfg m)).length ≤ maxControlPayload := by
  have hversion : m.latestVersion.length ≤ 31 := Nat.le_of_lt_succ h.version
  have hchecksum : m.checksumSha256.length = 64 := h.checksum
  have hsize := length_decimal_u64 h.size
  have hchunk := length_decimal_u64 (chunkSize_lt cfg)
  have hchunks := length_decimal_u64 (advertisedChunks_lt cfg m)
  have hlen : (kvJoin (offerFields cfg m)).length ≤ maxControlPayload := by
    have hkeys : (ascii "ver").length = 3 ∧ (ascii "size").length = 4 ∧ (ascii "chunk").length = 5 ∧
        (ascii "chunks").length = 6 ∧ (ascii "sha256").length = 6 := by decide
    have hmax : maxControlPayload = 1024 := rfl
    simp only [offerFields, kvJoin_cons_cons, kvJoin_singleton, List.length_append,
      List.length_cons, length_kvPair, hkeys]
    omega
  refine ⟨?_, hlen⟩
  have hjoin : kvJoin (offerFields cfg m) = ascii "ver=" ++ m.latestVersion ++ ascii ";size=" ++
      decimal m.packageSize ++ ascii ";chunk=" ++ decimal cfg.chunkSize ++ ascii ";chunks=" ++
      decimal (advertisedChunks cfg m) ++ ascii ";sha256=" ++ m.checksumSha256 := by
    simp only [offerFields, kvJoin_cons_cons, kvJoin_singleton, kvPair, List.append_assoc]
    rfl
  rw [hjoin] at hlen ⊢
  exact List.take_of_length_le hlen

/-! ### What the client reads -/

/-- `receive_update`, once it has read the offer. -/
def receiveOffer (bound : ℕ) (cfg : ClientConfig) (latest sha : Bytes) (size chunk : ℕ) :
    ClientProg Client.AttemptResult := do
  if ¬ (Path.final latest).fits cfg then .ret .fatal
  else if ¬ (Path.part latest).fits cfg then .ret .fatal
  else
    let offset ← Client.fileSizeOrZero (.part latest)
    if offset > size then
      let _ ← Client.file (unlink (.part latest))
      Client.downloadFrom bound cfg latest sha size chunk 0
    else Client.downloadFrom bound cfg latest sha size chunk offset

theorem receiveUpdate_eq (bound : ℕ) (cfg : ClientConfig) {info latest sha : Bytes}
    (hver : kvGet info (ascii "ver") maxVersionStr = some latest)
    (hsha : kvGet info (ascii "sha256") sha256HexBuf = some sha)
    (hvalid : verIsValid latest = true) :
    Client.receiveUpdate bound cfg info = receiveOffer bound cfg latest sha
      (kvGetU64 info (ascii "size") 0)
      (Client.clampChunk (kvGetU64 info (ascii "chunk") defaultChunkSize)) := by
  rw [Client.receiveUpdate, hver, hsha]
  simp only [hvalid, not_true_eq_false, if_false]
  rfl

/-- A chunk size the server may use is not clamped. -/
theorem clampChunk_of_range {n : ℕ} (h : minChunkSize ≤ n ∧ n ≤ maxChunkSize) :
    Client.clampChunk n = n := by
  obtain ⟨hmin, hmax⟩ : 4096 ≤ n ∧ n ≤ 1048576 := h
  have hlow : n % 2 ^ 32 = n := Nat.mod_eq_of_lt (by omega)
  have hsmall : n < 2 ^ 31 := by omega
  unfold Client.clampChunk
  rw [hlow]
  simp only [if_pos hsmall]
  rw [if_neg (show ¬ (n : ℤ) < (minChunkSize : ℕ) from fun hlt => ?_), if_neg fun hlt => ?_]
  · exact Int.toNat_natCast n
  · exact absurd (Int.ofNat_lt.mp hlt) (Nat.not_lt.mpr hmax)
  · exact absurd (Int.ofNat_lt.mp hlt) (Nat.not_lt.mpr hmin)

/-- What `kv_get` and `kv_get_u64` find in an offer. -/
structure ReadBack (info latest sha : Bytes) (size chunk : ℕ) : Prop where
  version : kvGet info (ascii "ver") maxVersionStr = some latest
  checksum : kvGet info (ascii "sha256") sha256HexBuf = some sha
  size : kvGetU64 info (ascii "size") 0 = size
  chunk : Client.clampChunk (kvGetU64 info (ascii "chunk") defaultChunkSize) = chunk

theorem readBack_offerFields (cfg : ServerConfig) {m : Manifest} (h : Advertisable m) :
    ReadBack (kvJoin (offerFields cfg m)) m.latestVersion m.checksumSha256 m.packageSize
      cfg.chunkSize := by
  have hplain := offerFields_plain cfg h
  refine ⟨?_, ?_, kvGetU64_kvJoin hplain h.size 0 rfl, ?_⟩
  · refine kvGet_iff.mpr ⟨?_, h.version⟩
    rw [firstField_kvJoin hplain]
    rfl
  · refine kvGet_iff.mpr ⟨?_, by rw [h.checksum]; decide⟩
    rw [firstField_kvJoin hplain]
    rfl
  · rw [kvGetU64_kvJoin hplain (chunkSize_lt cfg) defaultChunkSize rfl]
    exact clampChunk_of_range cfg.chunkSize_range

/-! ### Payloads -/

/-- The offer of a manifest is sent whole, and `receive_update` goes on with what the server put
in. -/
def OfferArrives (cfg : ServerConfig) (m : Manifest) : Prop :=
  textFrame .updateAvailable (updateMeta cfg m) = ⟨.updateAvailable, 0, kvJoin (offerFields cfg m)⟩ ∧
    (updateMeta cfg m).length ≤ maxControlPayload ∧
    ReadBack (updateMeta cfg m) m.latestVersion m.checksumSha256 m.packageSize cfg.chunkSize ∧
    ∀ bound clientCfg, Client.receiveUpdate bound clientCfg (updateMeta cfg m) =
      receiveOffer bound clientCfg m.latestVersion m.checksumSha256 m.packageSize cfg.chunkSize

theorem offerArrives (cfg : ServerConfig) {m : Manifest} (h : Advertisable m)
    (hvalid : verIsValid m.latestVersion = true) : OfferArrives cfg m := by
  obtain ⟨hmeta, hlen⟩ := updateMeta_eq cfg h
  have hread := readBack_offerFields cfg h
  rw [← hmeta] at hlen hread
  refine ⟨?_, hlen, hread, fun bound clientCfg => ?_⟩
  · rw [textFrame, hmeta, cstr_eq_self (zero_not_mem_kvJoin (offerFields_plain cfg h))]
  · rw [receiveUpdate_eq bound clientCfg hread.version hread.checksum hvalid, hread.size, hread.chunk]

/-- **Payloads decode to what was encoded.**  From plain pairs, `kv_get` gives the value of the first
pair with the key where it fits, and nothing otherwise; `kv_get_u64` gives any `uint64_t` that was
printed there.  The offer of a published manifest is never cut, and the client reads from it what the
server put in. -/
theorem payload_decodes {pairs : List (Bytes × Bytes)} (hplain : ∀ pair ∈ pairs, PlainPair pair)
    (key : Bytes) (n : ℕ) :
    (∀ value, kvGet (kvJoin pairs) key n = some value ↔
      (pairs.find? fun pair => pair.1 = key).map Prod.snd = some value ∧ value.length < n) ∧
    (∀ u fallback, u < 2 ^ 64 →
      (pairs.find? fun pair => pair.1 = key).map Prod.snd = some (decimal u) →
        kvGetU64 (kvJoin pairs) key fallback = u) ∧
    ∀ (vm : VersionManager) (m : VersionManifest) (cfg : ServerConfig), Reloaded vm m →
      m.packageSize < 2 ^ 64 → OfferArrives cfg m.toManifest := by
  refine ⟨fun value => ?_, fun u fallback hu hfind => ?_, fun vm m cfg hm hsize => ?_⟩
  · rw [kvGet_iff, firstField_kvJoin hplain]
  · obtain ⟨⟨k, v⟩, hfind, rfl⟩ := Option.map_eq_some_iff.mp hfind
    exact kvGetU64_kvJoin hplain hu fallback hfind
  · have hvalid : verIsValid m.latestVersion = true := by
      obtain ⟨bound, k, tr, entries, -, -, hwell⟩ := hm
      exact hwell.latestVersion
    exact offerArrives cfg (advertisable_of_reloaded hm hsize) hvalid

theorem reloaded_manifest150 :
    Reloaded (vmPaths (ascii "./config/manifest.conf") (ascii "./packages")) manifest150 := by
  have hreload : ((vmReload 3 (vmPaths (ascii "./config/manifest.conf") (ascii "./packages"))).replay
      (reload150.take 10 ++ [did (.publish manifest150) ()])).isSome := by decide +kernel
  obtain ⟨k, hk⟩ := Prog.history_call_of_replay (E := vmInterface) hreload
  exact reloaded_of_history hk

/-- `cur=1.2.0;cur=;x=18446744073709551615`, and the offer of version 1.5.0. -/
theorem payload_decodes_150 :
    kvGet (kvJoin [(ascii "cur", ascii "1.2.0"), (ascii "cur", []), (ascii "x", decimal (2 ^ 64 - 1))])
        (ascii "cur") 6 = some (ascii "1.2.0") ∧
      OfferArrives .shipped manifest150.toManifest := by
  have hplain : ∀ pair ∈ [(ascii "cur", ascii "1.2.0"), (ascii "cur", []),
      (ascii "x", decimal (2 ^ 64 - 1))], PlainPair pair := by
    intro pair hpair
    simp only [List.mem_cons, List.not_mem_nil, or_false] at hpair
    rcases hpair with rfl | rfl | rfl
    · exact ⟨by decide, by decide⟩
    · exact ⟨by decide, by decide⟩
    · exact plainPair_decimal (by decide) _
  have hdecodes := payload_decodes hplain (ascii "cur") 6
  exact ⟨(hdecodes.1 _).mpr ⟨rfl, by decide⟩,
    hdecodes.2.2 _ manifest150 .shipped reloaded_manifest150 (by decide)⟩

end UpdateFramework.System
