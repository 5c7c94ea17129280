import Mathlib.Data.Nat.Notation

/-!
# Common — limits

The constants of `common.h` and `stats.h` the modelled functions use.
-/

namespace UpdateFramework

def maxKeyLen : ℕ := 64
def maxValueLen : ℕ := 256
def maxPathLen : ℕ := 256
def maxIdLen : ℕ := 64
def maxVersionStr : ℕ := 32
def sha256HexLen : ℕ := 64
def sha256HexBuf : ℕ := sha256HexLen + 1

def frameHeaderSize : ℕ := 12
def protoVersion : UInt8 := 1

def defaultChunkSize : ℕ := 65536
def minChunkSize : ℕ := 4096
def maxChunkSize : ℕ := 1048576
def maxControlPayload : ℕ := 1024

def logLineMax : ℕ := 512
def logQueueCap : ℕ := 4096
def guiLogRing : ℕ := 64
def configMaxEntries : ℕ := 256

def clientInfoLen : ℕ := 128
def activeClientMax : ℕ := 128
def activeClientLabel : ℕ := 160

end UpdateFramework
