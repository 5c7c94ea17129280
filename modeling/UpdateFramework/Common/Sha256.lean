import UpdateFramework.Common.Constants
import UpdateFramework.Libc.Stdio

/-!
# Common — SHA-256

`sha256.c`: the hash of a buffer and of a file, and hex text.  The bytes of `data` past `data_len`
are never read before they are written, so `data` is the list of its first `data_len` bytes.
-/

namespace UpdateFramework

open Libc Process

/-- `sha256_ctx_t` -/
structure Sha256Ctx where
  state : List UInt32
  bitLen : UInt64
  data : Bytes

/-- `k` -/
def sha256K : List UInt32 :=
  [0x428a2f98, 0x71374491, 0xb5c0fbcf, 0xe9b5dba5, 0x3956c25b, 0x59f111f1, 0x923f82a4, 0xab1c5ed5,
    0xd807aa98, 0x12835b01, 0x243185be, 0x550c7dc3, 0x72be5d74, 0x80deb1fe, 0x9bdc06a7, 0xc19bf174,
    0xe49b69c1, 0xefbe4786, 0x0fc19dc6, 0x240ca1cc, 0x2de92c6f, 0x4a7484aa, 0x5cb0a9dc, 0x76f988da,
    0x983e5152, 0xa831c66d, 0xb00327c8, 0xbf597fc7, 0xc6e00bf3, 0xd5a79147, 0x06ca6351, 0x14292967,
    0x27b70a85, 0x2e1b2138, 0x4d2c6dfc, 0x53380d13, 0x650a7354, 0x766a0abb, 0x81c2c92e, 0x92722c85,
    0xa2bfe8a1, 0xa81a664b, 0xc24b8b70, 0xc76c51a3, 0xd192e819, 0xd6990624, 0xf40e3585, 0x106aa070,
    0x19a4c116, 0x1e376c08, 0x2748774c, 0x34b0bcb5, 0x391c0cb3, 0x4ed8aa4a, 0x5b9cca4f, 0x682e6ff3,
    0x748f82ee, 0x78a5636f, 0x84c87814, 0x8cc70208, 0x90befffa, 0xa4506ceb, 0xbef9a3f7, 0xc67178f2]

def rotr (x n : UInt32) : UInt32 := (x >>> n) ||| (x <<< (32 - n))

/-- The sixteen words of a block. -/
def blockWords (block : Bytes) : List UInt32 :=
  (List.range 16).map fun i =>
    ((block.getD (i * 4) 0).toUInt32 <<< 24) ||| ((block.getD (i * 4 + 1) 0).toUInt32 <<< 16) |||
      ((block.getD (i * 4 + 2) 0).toUInt32 <<< 8) ||| (block.getD (i * 4 + 3) 0).toUInt32

/-- `m[i]`, from the words before it. -/
def nextWord (m : List UInt32) (i : ℕ) : UInt32 :=
  let a := m.getD (i - 15) 0
  let b := m.getD (i - 2) 0
  let s0 := rotr a 7 ^^^ rotr a 18 ^^^ (a >>> 3)
  let s1 := rotr b 17 ^^^ rotr b 19 ^^^ (b >>> 10)
  m.getD (i - 16) 0 + s0 + m.getD (i - 7) 0 + s1

/-- `m` -/
def messageSchedule (block : Bytes) : List UInt32 :=
  (List.range' 16 48).foldl (fun m i => m ++ [nextWord m i]) (blockWords block)

/-- A round on the working variables `a` to `h`. -/
def sha256Round (m : List UInt32) (v : List UInt32) (i : ℕ) : List UInt32 :=
  let a := v.getD 0 0
  let b := v.getD 1 0
  let c := v.getD 2 0
  let d := v.getD 3 0
  let e := v.getD 4 0
  let f := v.getD 5 0
  let g := v.getD 6 0
  let h := v.getD 7 0
  let s1 := rotr e 6 ^^^ rotr e 11 ^^^ rotr e 25
  let ch := (e &&& f) ^^^ (~~~e &&& g)
  let temp1 := h + s1 + ch + sha256K.getD i 0 + m.getD i 0
  let s0 := rotr a 2 ^^^ rotr a 13 ^^^ rotr a 22
  let maj := (a &&& b) ^^^ (a &&& c) ^^^ (b &&& c)
  let temp2 := s0 + maj
  [temp1 + temp2, a, b, c, d + temp1, e, f, g]

/-- `sha256_transform`: the state after a block. -/
def sha256Transform (state : List UInt32) (block : Bytes) : List UInt32 :=
  List.zipWith (· + ·) state
    ((List.range 64).foldl (sha256Round (messageSchedule block)) state)

def sha256Init : Sha256Ctx where
  state := [0x6a09e667, 0xbb67ae85, 0x3c6ef372, 0xa54ff53a, 0x510e527f, 0x9b05688c, 0x1f83d9ab,
    0x5be0cd19]
  bitLen := 0
  data := []

/-- A round of the loop of `sha256_update`. -/
def sha256Byte (ctx : Sha256Ctx) (b : UInt8) : Sha256Ctx :=
  let data := ctx.data ++ [b]
  if data.length = 64 then ⟨sha256Transform ctx.state data, ctx.bitLen + 512, []⟩
  else { ctx with data := data }

def sha256Update (ctx : Sha256Ctx) (data : Bytes) : Sha256Ctx := data.foldl sha256Byte ctx

/-- The eight bytes of a length. -/
def putU64Be (v : UInt64) : Bytes :=
  [(v >>> 56).toUInt8, (v >>> 48).toUInt8, (v >>> 40).toUInt8, (v >>> 32).toUInt8,
    (v >>> 24).toUInt8, (v >>> 16).toUInt8, (v >>> 8).toUInt8, v.toUInt8]

/-- `sha256_final`: the digest. -/
def sha256Final (ctx : Sha256Ctx) : Bytes :=
  let data := ctx.data ++ [0x80]
  let (state, head) :=
    if data.length > 56 then
      (sha256Transform ctx.state (data ++ List.replicate (64 - data.length) 0),
        List.replicate 56 0)
    else (ctx.state, data ++ List.replicate (56 - data.length) 0)
  let bitLen := ctx.bitLen + UInt64.ofNat (ctx.data.length * 8)
  (sha256Transform state (head ++ putU64Be bitLen)).flatMap fun w : UInt32 =>
    [(w >>> 24).toUInt8, (w >>> 16).toUInt8, (w >>> 8).toUInt8, w.toUInt8]

/-- `alphabet` -/
def hexDigit (n : UInt8) : UInt8 := (ascii "0123456789abcdef").getD n.toNat 0

def bytesToHex (bytes : Bytes) : Bytes :=
  bytes.flatMap fun b : UInt8 => [hexDigit ((b >>> 4) &&& 0x0f), hexDigit (b &&& 0x0f)]

/-- `hex_nibble`; `none` where it returns `-1`. -/
def hexNibble (c : UInt8) : Option UInt8 :=
  if 48 ≤ c ∧ c ≤ 57 then some (c - 48)
  else if 97 ≤ c ∧ c ≤ 102 then some (c - 97 + 10)
  else if 65 ≤ c ∧ c ≤ 70 then some (c - 65 + 10)
  else none

/-- The loop of `hex_to_bytes`. -/
def hexPairs : Bytes → Option Bytes
  | hi :: lo :: hex => do
    let hi ← hexNibble hi
    let lo ← hexNibble lo
    let out ← hexPairs hex
    some (((hi <<< 4) ||| lo) :: out)
  | _ => some []

/-- `hex_to_bytes`, into `outLen` bytes. -/
def hexToBytes (hex : Bytes) (outLen : ℕ) : Option Bytes :=
  if hex.length ≠ outLen * 2 then none else hexPairs hex

def sha256Buffer (data : Bytes) : Bytes := sha256Final (sha256Update sha256Init data)

def sha256BufferHex (data : Bytes) : Bytes := bytesToHex (sha256Buffer data)

theorem sha256Update_append (ctx : Sha256Ctx) (a b : Bytes) :
    sha256Update ctx (a ++ b) = sha256Update (sha256Update ctx a) b :=
  List.foldl_append

/-! ### Lengths, and the alphabet -/

theorem length_foldl_sha256Round (m : List UInt32) (is : List ℕ) {v : List UInt32}
    (h : v.length = 8) : (is.foldl (sha256Round m) v).length = 8 := by
  induction is generalizing v with
  | nil => exact h
  | cons i is ih => exact ih rfl

theorem length_sha256Transform {state : List UInt32} (h : state.length = 8) (block : Bytes) :
    (sha256Transform state block).length = 8 := by
  rw [sha256Transform, List.length_zipWith, length_foldl_sha256Round _ _ h, h, Nat.min_self]

theorem length_state_sha256Update (data : Bytes) {ctx : Sha256Ctx} (h : ctx.state.length = 8) :
    (sha256Update ctx data).state.length = 8 := by
  induction data generalizing ctx with
  | nil => exact h
  | cons b data ih =>
      refine ih ?_
      unfold sha256Byte
      dsimp only
      split
      · exact length_sha256Transform h _
      · exact h

theorem length_sha256Final {ctx : Sha256Ctx} (h : ctx.state.length = 8) :
    (sha256Final ctx).length = 32 := by
  have hwords : ∀ ws : List UInt32, (ws.flatMap fun w : UInt32 =>
      [(w >>> 24).toUInt8, (w >>> 16).toUInt8, (w >>> 8).toUInt8, w.toUInt8]).length =
        ws.length * 4 := by
    intro ws
    rw [List.length_flatMap]
    simp
  unfold sha256Final
  dsimp only
  split
  · rw [hwords, length_sha256Transform (length_sha256Transform h _)]
  · rw [hwords, length_sha256Transform h]

theorem length_bytesToHex (bytes : Bytes) : (bytesToHex bytes).length = bytes.length * 2 := by
  rw [bytesToHex, List.length_flatMap]
  simp

theorem hexDigit_mem (b : UInt8) : hexDigit (b &&& 0x0f) ∈ ascii "0123456789abcdef" := by
  have hlt : (b &&& 0x0f).toNat < (ascii "0123456789abcdef").length := by
    rw [UInt8.toNat_and]
    exact Nat.lt_of_le_of_lt Nat.and_le_right (by decide)
  rw [hexDigit, List.getD_eq_getElem?_getD, List.getElem?_eq_getElem hlt, Option.getD_some]
  exact List.getElem_mem hlt

/-- Hex text is lowercase. -/
theorem mem_bytesToHex {bytes : Bytes} {d : UInt8} (h : d ∈ bytesToHex bytes) :
    d ∈ ascii "0123456789abcdef" := by
  obtain ⟨b, -, hd⟩ := List.mem_flatMap.mp h
  rcases List.mem_cons.mp hd with rfl | hd
  · exact hexDigit_mem _
  · exact List.mem_singleton.mp hd ▸ hexDigit_mem b

theorem length_sha256BufferHex (data : Bytes) : (sha256BufferHex data).length = sha256HexLen := by
  rw [sha256BufferHex, length_bytesToHex, sha256Buffer,
    length_sha256Final (length_state_sha256Update data rfl)]
  rfl

section File

variable {P : Type}

/-- A round of the loop of `sha256_file_hex`; `none` where `ok` is `0`. -/
def sha256FileRound (fp : Handle) (ctx : Sha256Ctx) : Prog (stdio P) (Sha256Ctx ⊕ Option Sha256Ctx) := do
  let (buf, ferror) ← fread fp 65536
  let ctx := sha256Update ctx buf
  if buf.length < 65536 then .ret (.inr (if ferror then none else some ctx))
  else .ret (.inl ctx)

/-- `sha256_file_hex`: the hex text, unless it returns `-1`.  `bound` limits the number of blocks. -/
def sha256FileHex (bound : ℕ) (path : P) : Prog (stdio P) (Option Bytes) := do
  match ← fopen path .r with
  | none => .ret none
  | some fp =>
    let ctx ← Prog.iterate bound (sha256FileRound fp) sha256Init
    let _ ← fclose fp
    .ret (ctx.map fun ctx => bytesToHex (sha256Final ctx))

end File

end UpdateFramework
