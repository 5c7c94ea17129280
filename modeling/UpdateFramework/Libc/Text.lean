import Mathlib.Data.List.Basic
import Mathlib.Data.Nat.Digits.Defs

/-!
# Libc — text

Byte strings and the string functions of the C library.  A C string is the bytes of a buffer up
to its first NUL (`cstr`).  `strcspn(s, "\r\n")` is `cutLine`; `isspace` and `isdigit` are those
of the C locale.  `strtoull` returns the value and what is left of the text: no digits, no
progress; overflow saturates; a sign and leading blanks are accepted.
-/

namespace Libc

/-- A string of bytes. -/
abbrev Bytes := List UInt8

instance : LawfulBEq Bytes := inferInstance

/-- The bytes of an ASCII literal. -/
def ascii (s : String) : Bytes := s.toList.map fun c => UInt8.ofNat c.toNat

/-- The C string a buffer holds: its bytes up to the first NUL. -/
def cstr (b : Bytes) : Bytes := b.takeWhile (· ≠ 0)

def isspace (b : UInt8) : Bool := b == 32 || (9 ≤ b && b ≤ 13)

def isdigit (b : UInt8) : Bool := 48 ≤ b && b ≤ 57

def tolower (b : UInt8) : UInt8 := if 65 ≤ b && b ≤ 90 then b + 32 else b

/-- `strcasecmp(a, b) == 0`. -/
def strcaseeq (a b : Bytes) : Bool := a.map tolower == b.map tolower

/-- `snprintf` into a buffer of `cap` bytes: what fits before the NUL. -/
def snprintf (cap : ℕ) (text : Bytes) : Bytes := text.take (cap - 1)

/-- `s[strcspn(s, "\r\n")] = '\0'`. -/
def cutLine (s : Bytes) : Bytes := s.takeWhile fun b => b ≠ 13 && b ≠ 10

/-- Leading and trailing blanks removed. -/
def strip (s : Bytes) : Bytes := (s.dropWhile isspace).reverse.dropWhile isspace |>.reverse

/-- The value of a string of decimal digits. -/
def digitsValue (ds : Bytes) : ℕ := ds.foldl (fun n d => n * 10 + (d.toNat - 48)) 0

/-- The decimal digits of `n`, as `%llu` prints them. -/
def decimal (n : ℕ) : Bytes :=
  if n = 0 then [48] else (Nat.digits 10 n).reverse.map fun d => UInt8.ofNat (d + 48)

/-- `strtoull(s, &end, 10)`: the value, and the text at `end`. -/
def strtoull (s : Bytes) : ℕ × Bytes :=
  let t := s.dropWhile isspace
  let negative := t.head? = some 45
  let u := if t.head? = some 45 ∨ t.head? = some 43 then t.tail else t
  let ds := u.takeWhile isdigit
  if ds = [] then (0, s)
  else
    let n := digitsValue ds
    if 2 ^ 64 ≤ n then (2 ^ 64 - 1, u.dropWhile isdigit)
    else (if negative then (2 ^ 64 - n) % 2 ^ 64 else n, u.dropWhile isdigit)

/-! ### Lines, as `fgets` reads them -/

/-- At most `n` bytes, up to and with the first newline: the bytes, what is left, and whether the
end of the input was met. -/
def readLine : ℕ → Bytes → Bytes × Bytes × Bool
  | 0, s => ([], s, false)
  | _ + 1, [] => ([], [], true)
  | n + 1, b :: s =>
    if b = 10 then ([b], s, false)
    else (b :: (readLine n s).1, (readLine n s).2.1, (readLine n s).2.2)

/-- `fgets` into a buffer of `size` bytes: nothing at the end of the input, otherwise the bytes
read, what is left, and `feof` afterwards. -/
def fgets (size : ℕ) (s : Bytes) : Option (Bytes × Bytes × Bool) :=
  if s = [] then none else some (readLine (size - 1) s)

end Libc
