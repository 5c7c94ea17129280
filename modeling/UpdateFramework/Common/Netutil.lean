import Mathlib.Data.Nat.Notation

/-!
# Common — whole reads and writes

`conn_read_all` and `conn_write_all` of `netutil.c`.  A schedule lists how the successive calls
of the transport end: some bytes move, or the call stalls.  A call asks for at most `chunk`
bytes; what a `move` has beyond that stays for the next call.  Where the schedule ends, the call
is still waiting.

Reading and writing run the same loop.  They differ in what moves: a byte of the peer's, or room
for one of ours.
-/

namespace UpdateFramework

/-- A call of the transport that moves nothing. -/
inductive Stall where
  /-- `EINTR` -/
  | interrupted
  /-- `SO_RCVTIMEO` or `SO_SNDTIMEO` expired: `EAGAIN`. -/
  | timeout
  | eof
  | error
  deriving DecidableEq

inductive Event (δ : Type) where
  | move (first : δ) (more : List δ)
  | stall (s : Stall)
  deriving DecidableEq

/-- What `SSL_get_error` reports. -/
inductive SslError where
  | wantRead | wantWrite | zeroReturn | syscall | ssl
  deriving DecidableEq

def SslError.wants (e : SslError) : Bool := e = .wantRead || e = .wantWrite

/-- OpenSSL on a blocking socket, as documented: what `SSL_get_error` reports after a call of
`SSL_read` or `SSL_write` that moved nothing, by what stopped the transport below it.  A call
that was interrupted or timed out can be repeated; the end of the stream and an error cannot. -/
structure OpenSsl where
  getError : Stall → SslError
  interrupted : (getError .interrupted).wants = true
  timeout : (getError .timeout).wants = true
  eof : (getError .eof).wants = false
  error : (getError .error).wants = false

/-- The socket BIO's own answers. -/
def OpenSsl.sockets : OpenSsl where
  getError
    | .interrupted | .timeout => .wantRead
    | .eof => .zeroReturn
    | .error => .syscall
  interrupted := rfl
  timeout := rfl
  eof := rfl
  error := rfl

/-- `conn_t`: `ssl` is `NULL` on a plain connection. -/
structure Conn where
  ssl : Option OpenSsl

/-- Whether the loop takes the same call again (`continue`) after a stall. -/
def Conn.retries (c : Conn) (s : Stall) : Bool :=
  match c.ssl with
  | some ssl => (ssl.getError s).wants
  | none => s = .interrupted

inductive Status where
  /-- `return 0` -/
  | done
  /-- `return -1` -/
  | failed
  | waiting
  deriving DecidableEq

/-- How a call of the loop ended, what moved, and the schedule that is left. -/
structure Transfer (δ : Type) where
  status : Status
  moved : List δ
  rest : List (Event δ)

variable {δ : Type}

/-- What is left of a `move`, before the rest of the schedule. -/
def leftover : List δ → List (Event δ) → List (Event δ)
  | [], es => es
  | d :: ds, es => .move d ds :: es

/-- The number of bytes and calls in a schedule. -/
def weight : List (Event δ) → ℕ
  | [] => 0
  | .move _ ds :: es => ds.length + 2 + weight es
  | .stall _ :: es => 1 + weight es

theorem weight_leftover (ds : List δ) (es : List (Event δ)) :
    weight (leftover ds es) ≤ ds.length + 1 + weight es := by
  cases ds <;> simp [leftover, weight]

/-- The loop of `conn_read_all` and `conn_write_all`: until `len` bytes have moved. -/
def transferAll (c : Conn) (len : ℕ) (es : List (Event δ)) : Transfer δ :=
  if len = 0 then ⟨.done, [], es⟩
  else
    let chunk := if len > 0x3fffffff then 0x3fffffff else len
    match es with
    | [] => ⟨.waiting, [], []⟩
    | .stall s :: es => if c.retries s then transferAll c len es else ⟨.failed, [], es⟩
    | .move d ds :: es =>
      let n := min chunk (ds.length + 1)
      let t := transferAll c (len - n) (leftover ((d :: ds).drop n) es)
      { t with moved := (d :: ds).take n ++ t.moved }
  termination_by weight es
  decreasing_by
  · simp [weight]
  · refine Nat.lt_of_le_of_lt (weight_leftover _ _) ?_
    simp only [weight, List.length_drop, List.length_cons]
    split <;> omega

/-- `conn_read_all(c, buf, len)`: what moves is what ends up in `buf`. -/
def connReadAll (c : Conn) (len : ℕ) (es : List (Event UInt8)) : Transfer UInt8 :=
  transferAll c len es

/-- `conn_write_all(c, buf, len)`: the bytes the transport took are those of `buf`, in order. -/
def connWriteAll (c : Conn) (buf : List UInt8) (es : List (Event Unit)) :
    Status × List UInt8 × List (Event Unit) :=
  let t := transferAll c buf.length es
  (t.status, buf.take t.moved.length, t.rest)

end UpdateFramework
