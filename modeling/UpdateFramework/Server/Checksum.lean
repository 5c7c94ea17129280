import UpdateFramework.Server.VersionManager

/-!
# Server — hex text and the configured checksum

`bytes_to_hex` and `hex_to_bytes` are inverse to each other up to the case of the digits, and
`hex64_ok` with `strcasecmp` compares digests (`hex_coding`).
-/

namespace UpdateFramework.Server

open Libc

/-! ### Digits -/

/-- A hexadecimal digit, of either case. -/
def isxdigit (c : UInt8) : Bool := isdigit c || (97 ≤ c && c ≤ 102) || (65 ≤ c && c ≤ 70)

/-- What holds of the 256 values holds of every byte. -/
theorem forall_byte {p : UInt8 → Prop} (h : ∀ i < 256, p (UInt8.ofNat i)) (b : UInt8) : p b := by
  have hb := h b.toNat b.toNat_lt
  rwa [UInt8.ofNat_toNat] at hb

theorem ascii_digits : ascii "0123456789abcdef" =
    [48, 49, 50, 51, 52, 53, 54, 55, 56, 57, 97, 98, 99, 100, 101, 102] := rfl

/-- What `hexNibble` makes of a byte. -/
theorem hexNibble_byte (c : UInt8) : (hexNibble c).isSome = isxdigit c ∧
    (hexNibble c).all (fun n => n < 16 && hexDigit n == tolower c) = true ∧
    ((!(ascii "0123456789abcdef").elem (tolower c)) || (hexNibble c).isSome) = true := by
  rw [ascii_digits]
  revert c
  exact forall_byte (by decide +kernel)

theorem hexNibble_isSome (c : UInt8) : (hexNibble c).isSome = isxdigit c := (hexNibble_byte c).1

/-- The value of a digit is a nibble, of which the digit in lowercase is the text. -/
theorem hexNibble_sound {c n : UInt8} (h : hexNibble c = some n) :
    n < 16 ∧ hexDigit n = tolower c := by
  have hall := (hexNibble_byte c).2.1
  rw [h, Option.all_some, Bool.and_eq_true, decide_eq_true_eq, beq_iff_eq] at hall
  exact hall

/-- The text of a nibble, in any case, is a digit. -/
theorem hexNibble_complete (c : UInt8) (h : tolower c ∈ ascii "0123456789abcdef") :
    (hexNibble c).isSome := by
  have hall := (hexNibble_byte c).2.2
  rwa [List.elem_eq_true_of_mem h] at hall

/-- The sixteen digits differ. -/
theorem hexDigit_nibble : ∀ i < 16, hexDigit (UInt8.ofNat i) ∈ ascii "0123456789abcdef" ∧
    ∀ j < 16, hexDigit (UInt8.ofNat i) = hexDigit (UInt8.ofNat j) → i = j := by
  rw [ascii_digits]
  decide +kernel

/-- The text of a nibble determines it. -/
theorem hexDigit_inj {m n : UInt8} (hm : m < 16) (hn : n < 16) (h : hexDigit m = hexDigit n) :
    m = n := by
  refine UInt8.toNat_inj.mp ((hexDigit_nibble m.toNat hm).2 n.toNat hn ?_)
  rwa [UInt8.ofNat_toNat, UInt8.ofNat_toNat]

theorem hexDigit_mem {n : UInt8} (h : n < 16) : hexDigit n ∈ ascii "0123456789abcdef" := by
  have hn := (hexDigit_nibble n.toNat h).1
  rwa [UInt8.ofNat_toNat] at hn

/-- The digit of a nibble is the lowercase one. -/
theorem hexNibble_eq_some (c n : UInt8) :
    hexNibble c = some n ↔ n < 16 ∧ hexDigit n = tolower c := by
  refine ⟨fun h => hexNibble_sound h, ?_⟩
  rintro ⟨hn, hdigit⟩
  have hsome := hexNibble_complete c (hdigit ▸ hexDigit_mem hn)
  obtain ⟨m, hm⟩ := Option.isSome_iff_exists.mp hsome
  obtain ⟨hlt, htext⟩ := hexNibble_sound hm
  rw [hm, hexDigit_inj hlt hn (htext.trans hdigit.symm)]

/-! ### Bytes -/

/-- A byte is made of its halves, which are nibbles. -/
theorem byte_split (b : UInt8) : (((b >>> 4) &&& 0x0f) <<< 4) ||| (b &&& 0x0f) = b ∧
    (b >>> 4) &&& 0x0f < 16 ∧ b &&& 0x0f < 16 := by
  revert b
  exact forall_byte (by decide +kernel)

theorem byte_halves (b : UInt8) : (((b >>> 4) &&& 0x0f) <<< 4) ||| (b &&& 0x0f) = b :=
  (byte_split b).1

theorem high_lt (b : UInt8) : (b >>> 4) &&& 0x0f < 16 := (byte_split b).2.1

theorem low_lt (b : UInt8) : b &&& 0x0f < 16 := (byte_split b).2.2

/-- Halves are those of the byte they make. -/
theorem halves_byte {hi lo : UInt8} (hhi : hi < 16) (hlo : lo < 16) :
    (((hi <<< 4) ||| lo) >>> 4) &&& 0x0f = hi ∧ ((hi <<< 4) ||| lo) &&& 0x0f = lo := by
  have hall : ∀ i < 16, ∀ j < 16,
      (((UInt8.ofNat i <<< 4) ||| UInt8.ofNat j) >>> 4) &&& 0x0f = UInt8.ofNat i ∧
        ((UInt8.ofNat i <<< 4) ||| UInt8.ofNat j) &&& 0x0f = UInt8.ofNat j := by
    decide +kernel
  have h := hall hi.toNat hhi lo.toNat hlo
  rwa [UInt8.ofNat_toNat, UInt8.ofNat_toNat] at h

theorem bytesToHex_cons (x : UInt8) (b : Bytes) : bytesToHex (x :: b) =
    hexDigit ((x >>> 4) &&& 0x0f) :: hexDigit (x &&& 0x0f) :: bytesToHex b := rfl

theorem hexPairs_cons {hi lo : UInt8} {h b : Bytes} : hexPairs (hi :: lo :: h) = some b ↔
    ∃ x y out, hexNibble hi = some x ∧ hexNibble lo = some y ∧ hexPairs h = some out ∧
      b = ((x <<< 4) ||| y) :: out := by
  rw [hexPairs]
  constructor
  · intro hb
    obtain ⟨x, hx, hb⟩ := Option.bind_eq_some_iff.mp hb
    obtain ⟨y, hy, hb⟩ := Option.bind_eq_some_iff.mp hb
    obtain ⟨out, hout, hb⟩ := Option.bind_eq_some_iff.mp hb
    exact ⟨x, y, out, hx, hy, hout, (Option.some.inj hb).symm⟩
  · rintro ⟨x, y, out, hx, hy, hout, rfl⟩
    rw [hx, hy, hout]
    rfl

theorem pair_of_length {n : ℕ} {h : Bytes} (hlen : h.length = (n + 1) * 2) :
    ∃ hi lo h', h = hi :: lo :: h' ∧ h'.length = n * 2 := by
  cases h with
  | nil => cases (Nat.succ_mul n 2).symm.trans hlen.symm
  | cons hi h =>
      cases h with
      | nil => cases (Nat.succ_mul n 2).symm.trans hlen.symm
      | cons lo h =>
          have hsum : h.length + 2 = n * 2 + 2 := hlen.trans (Nat.succ_mul n 2)
          exact ⟨hi, lo, h, rfl, Nat.add_right_cancel hsum⟩

/-- What is read from pairs of digits is what they are the text of. -/
theorem hexPairs_eq_some {n : ℕ} {h b : Bytes} (hlen : h.length = n * 2) :
    hexPairs h = some b ↔ bytesToHex b = h.map tolower := by
  induction n generalizing h b with
  | zero =>
      rw [Nat.zero_mul, List.length_eq_zero_iff] at hlen
      subst hlen
      cases b with
      | nil => exact ⟨fun _ => rfl, fun _ => rfl⟩
      | cons x b =>
          refine ⟨fun hb => ?_, fun hb => ?_⟩
          · cases hb
          · cases hb
  | succ n ih =>
      obtain ⟨hi, lo, h, rfl, hrest⟩ := pair_of_length hlen
      rw [hexPairs_cons, List.map_cons, List.map_cons]
      constructor
      · rintro ⟨x, y, out, hx, hy, hout, rfl⟩
        obtain ⟨hx, hxhi⟩ := (hexNibble_eq_some hi x).mp hx
        obtain ⟨hy, hylo⟩ := (hexNibble_eq_some lo y).mp hy
        rw [bytesToHex_cons, (halves_byte hx hy).1, (halves_byte hx hy).2, hxhi, hylo,
          (ih hrest).mp hout]
      · intro hb
        cases b with
        | nil => cases hb
        | cons z b =>
            rw [bytesToHex_cons, List.cons.injEq, List.cons.injEq] at hb
            obtain ⟨hzhi, hzlo, hout⟩ := hb
            exact ⟨_, _, b, (hexNibble_eq_some hi _).mpr ⟨high_lt z, hzhi⟩,
              (hexNibble_eq_some lo _).mpr ⟨low_lt z, hzlo⟩, (ih hrest).mpr hout,
              congrArg (· :: b) (byte_halves z).symm⟩

theorem hexPairs_isSome {n : ℕ} {h : Bytes} (hlen : h.length = n * 2) :
    (hexPairs h).isSome ↔ ∀ c ∈ h, isxdigit c = true := by
  induction n generalizing h with
  | zero =>
      rw [Nat.zero_mul, List.length_eq_zero_iff] at hlen
      subst hlen
      exact ⟨fun _ c hc => absurd hc List.not_mem_nil, fun _ => rfl⟩
  | succ n ih =>
      obtain ⟨hi, lo, h, rfl, hrest⟩ := pair_of_length hlen
      rw [List.forall_mem_cons, List.forall_mem_cons, ← ih hrest, ← hexNibble_isSome,
        ← hexNibble_isSome]
      constructor
      · intro hsome
        obtain ⟨b, hb⟩ := Option.isSome_iff_exists.mp hsome
        obtain ⟨x, y, out, hx, hy, hout, -⟩ := hexPairs_cons.mp hb
        rw [hx, hy, hout]
        exact ⟨rfl, rfl, rfl⟩
      · rintro ⟨hx, hy, hout⟩
        obtain ⟨x, hx⟩ := Option.isSome_iff_exists.mp hx
        obtain ⟨y, hy⟩ := Option.isSome_iff_exists.mp hy
        obtain ⟨out, hout⟩ := Option.isSome_iff_exists.mp hout
        exact Option.isSome_iff_exists.mpr ⟨_, hexPairs_cons.mpr ⟨x, y, out, hx, hy, hout, rfl⟩⟩

/-! ### Strings -/

/-- The bytes a string decodes to are those whose text it is, in any case. -/
theorem hexToBytes_eq_some {h b : Bytes} {n : ℕ} :
    hexToBytes h n = some b ↔ b.length = n ∧ bytesToHex b = h.map tolower := by
  unfold hexToBytes
  split
  · rename_i hne
    refine iff_of_false (fun h => by cases h) ?_
    rintro ⟨hb, htext⟩
    refine hne ?_
    have hlen := congrArg List.length htext
    rw [length_bytesToHex, List.length_map, hb] at hlen
    exact hlen.symm
  · rename_i hlen
    rw [hexPairs_eq_some (not_not.mp hlen)]
    refine ⟨fun htext => ⟨?_, htext⟩, And.right⟩
    have hcount := congrArg List.length htext
    rw [length_bytesToHex, List.length_map, not_not.mp hlen] at hcount
    exact Nat.eq_of_mul_eq_mul_right Nat.two_pos hcount

theorem hexToBytes_isSome {h : Bytes} {n : ℕ} :
    (hexToBytes h n).isSome ↔ h.length = n * 2 ∧ ∀ c ∈ h, isxdigit c = true := by
  unfold hexToBytes
  split
  · rename_i hne
    exact iff_of_false (fun h => by cases h) fun h => hne h.1
  · rename_i hlen
    rw [hexPairs_isSome (not_not.mp hlen)]
    exact ⟨fun h => ⟨not_not.mp hlen, h⟩, And.right⟩

/-- Hex text is its own lowercase. -/
theorem tolower_bytesToHex (b : Bytes) : (bytesToHex b).map tolower = bytesToHex b := by
  have hall : (ascii "0123456789abcdef").all (fun d => tolower d == d) = true := by
    rw [ascii_digits]
    rfl
  refine (List.map_congr_left fun d hd => ?_).trans (List.map_id _)
  exact beq_iff_eq.mp (List.all_eq_true.mp hall d (mem_bytesToHex hd))

/-- The test of `vm_reload` compares digests. -/
theorem hex64Ok_strcaseeq {c d : Bytes} :
    (hex64Ok c ∧ strcaseeq c (bytesToHex d)) ↔ hexToBytes c 32 = some d := by
  rw [strcaseeq, beq_iff_eq, tolower_bytesToHex]
  constructor
  · rintro ⟨hok, htext⟩
    rw [hex64Ok, Bool.and_eq_true, decide_eq_true_eq] at hok
    have hlen := congrArg List.length htext
    rw [List.length_map, hok.1, length_bytesToHex] at hlen
    have h32 : 32 * 2 = d.length * 2 := hlen
    exact hexToBytes_eq_some.mpr ⟨(Nat.eq_of_mul_eq_mul_right Nat.two_pos h32).symm, htext.symm⟩
  · intro hc
    obtain ⟨-, htext⟩ := hexToBytes_eq_some.mp hc
    have hsome : (hexToBytes c 32).isSome := Option.isSome_iff_exists.mpr ⟨d, hc⟩
    rw [hex64Ok, Bool.and_eq_true, decide_eq_true_eq]
    exact ⟨⟨(hexToBytes_isSome.mp hsome).1, hsome⟩, htext.symm⟩

/-- **Hex text.**  A byte string is read back from its hex text.  A string can be read as `n` bytes
exactly if it is `2n` hexadecimal digits, and is then, in lowercase, the hex text of these bytes.
The test of `vm_reload` holds exactly if the configured checksum is read as the digest. -/
theorem hex_coding :
    (∀ b : Bytes, hexToBytes (bytesToHex b) b.length = some b) ∧
      (∀ (h : Bytes) (n : ℕ),
        (hexToBytes h n).isSome ↔ h.length = 2 * n ∧ ∀ c ∈ h, isxdigit c = true) ∧
      (∀ (h b : Bytes) (n : ℕ),
        hexToBytes h n = some b ↔ b.length = n ∧ bytesToHex b = h.map tolower) ∧
      ∀ c d : Bytes, (hex64Ok c ∧ strcaseeq c (bytesToHex d)) ↔ hexToBytes c 32 = some d := by
  refine ⟨fun b => ?_, fun h n => ?_, fun h b n => hexToBytes_eq_some, fun c d => hex64Ok_strcaseeq⟩
  · exact hexToBytes_eq_some.mpr ⟨rfl, (tolower_bytesToHex b).symm⟩
  · rw [Nat.mul_comm 2 n]
    exact hexToBytes_isSome

end UpdateFramework.Server
