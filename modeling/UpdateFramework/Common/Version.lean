import UpdateFramework.Libc.Text

/-!
# Common — version numbers

`version.c`: `D+.D+.D+`, each number at most 999999, compared lexicographically.
-/

namespace UpdateFramework

open Libc

structure Semver where
  major : ℕ
  minor : ℕ
  patch : ℕ
  deriving DecidableEq

/-- `LONG_MAX`, what `strtol` returns on overflow. -/
def longMax : ℕ := 2 ^ 63 - 1

/-- A number and the text after it. -/
def parsePart (p : Bytes) : Option (ℕ × Bytes) :=
  let ds := p.takeWhile isdigit
  if ds = [] then none
  else
    let value := min (digitsValue ds) longMax
    if value > 999999 then none else some (value, p.dropWhile isdigit)

/-- `*p++ != '.'` -/
def skipDot : Bytes → Option Bytes
  | 46 :: p => some p
  | _ => none

def verParse (text : Bytes) : Option Semver := do
  let (major, p) ← parsePart text
  let p ← skipDot p
  let (minor, p) ← parsePart p
  let p ← skipDot p
  let (patch, p) ← parsePart p
  if p = [] then some ⟨major, minor, patch⟩ else none

def verCompare (a b : Semver) : ℤ :=
  if a.major ≠ b.major then if a.major > b.major then 1 else -1
  else if a.minor ≠ b.minor then if a.minor > b.minor then 1 else -1
  else if a.patch ≠ b.patch then if a.patch > b.patch then 1 else -1
  else 0

def verCompareText (a b : Bytes) : Option ℤ := do
  let va ← verParse a
  let vb ← verParse b
  some (verCompare va vb)

def verIsValid (text : Bytes) : Bool := (verParse text).isSome

example : verCompareText (ascii "1.10.0") (ascii "1.9.7") = some 1 := by decide

end UpdateFramework
