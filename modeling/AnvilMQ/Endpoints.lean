import AnvilMQ.Schema

/-!
# The read endpoint of a job

`GET /v1/jobs/:id` (`job_detail` of `src/telemetry.rs`), served off the read-only connection of
`src/reader.rs`.  The connection runs two statements, one on `jobs` and one on `job_history`, and
each of them sees some committed state of the database; nothing says that it is the same one.

## Design notes

`serde_json` is not modelled: `Serde` says which bytes are valid UTF-8 JSON, and what value they
hold.
-/

namespace AnvilMQ

open Rust Relational

/-! ## The reader -/

/-- `ReaderError`. -/
inductive ReaderError
  | busy
  | timeout
  | unavailable
  | db
deriving DecidableEq

/-- The statuses of the read endpoints. -/
inductive StatusCode
  | badRequest
  | notFound
  | serviceUnavailable
  | internalServerError
deriving DecidableEq

/-- The status of a failed read. -/
def ReaderError.status : ReaderError → StatusCode
  | busy | timeout | unavailable => .serviceUnavailable
  | db => .internalServerError

/-! ## Base64 -/

/-- `ALPHABET`. -/
def base64Alphabet : Vector Char 64 :=
  #v['A', 'B', 'C', 'D', 'E', 'F', 'G', 'H', 'I', 'J', 'K', 'L', 'M', 'N', 'O', 'P',
    'Q', 'R', 'S', 'T', 'U', 'V', 'W', 'X', 'Y', 'Z', 'a', 'b', 'c', 'd', 'e', 'f',
    'g', 'h', 'i', 'j', 'k', 'l', 'm', 'n', 'o', 'p', 'q', 'r', 's', 't', 'u', 'v',
    'w', 'x', 'y', 'z', '0', '1', '2', '3', '4', '5', '6', '7', '8', '9', '+', '/']

theorem toNat_and_63_lt (n : UInt32) : (n &&& 63).toNat < 64 := by
  rw [UInt32.toNat_and]
  exact Nat.and_lt_two_pow _ (by decide : (63 : UInt32).toNat < 2 ^ 6)

/-- `ALPHABET[(n & 63) as usize] as char`. -/
def base64Symbol (n : UInt32) : Char := base64Alphabet.get ⟨(n &&& 63).toNat, toNat_and_63_lt n⟩

/-- `input.chunks(3)`. -/
def chunks3 : Bytes → List Bytes
  | [] => []
  | [b0] => [[b0]]
  | [b0, b1] => [[b0, b1]]
  | b0 :: b1 :: b2 :: rest => [b0, b1, b2] :: chunks3 rest

/-- The four characters of a chunk. -/
def base64Chunk (chunk : Bytes) : List Char :=
  let b0 := (chunk.getD 0 0).toUInt32
  let b1 := (chunk.getD 1 0).toUInt32
  let b2 := (chunk.getD 2 0).toUInt32
  let n := (b0 <<< 16) ||| (b1 <<< 8) ||| b2
  [base64Symbol (n >>> 18), base64Symbol (n >>> 12),
    if 1 < chunk.length then base64Symbol (n >>> 6) else '=',
    if 2 < chunk.length then base64Symbol n else '=']

/-- `base64_encode`. -/
def base64Encode (input : Bytes) : String := String.ofList ((chunks3 input).flatMap base64Chunk)

/-! ## The record of a job -/

/-- The states of a job, live or finished. -/
inductive JobState
  | live (state : LiveState)
  | terminal (state : TerminalState)
deriving DecidableEq

/-- The table a record was read from. -/
inductive Source
  | live
  | history
deriving DecidableEq

/-- The columns of a job that the record and the answer share. -/
structure JobColumns where
  id : JobId
  name : String
  state : JobState
  source : Source
  priority : ℤ
  attempts : ℕ
  maxAttempts : ℕ
  createdAt : ℤ
  finishedAt : Option ℤ
  parentId : Option JobId
  traceId : String
  executionDepth : ℤ
  rateLimitFacet : Option String
  lastError : Option String
  workerId : Option String
  leaseExpiresAtMs : Option ℤ
  availableAt : Option ℤ
deriving DecidableEq

/-- `RawJob`. -/
structure RawJob extends JobColumns where
  payload : Bytes
  result : Option Bytes
deriving DecidableEq

/-- `serde_json`, as far as the endpoint uses it. -/
structure Serde where
  Value : Type
  /-- `from_utf8` and then `from_str`. -/
  parse : Bytes → Option Value
  /-- `Value::String`. -/
  string : String → Value

/-- How a blob is embedded in the answer. -/
inductive Encoding
  | json
  | base64
deriving DecidableEq

/-- `encode_blob`. -/
def encodeBlob (serde : Serde) (bytes : Bytes) : serde.Value × Encoding :=
  match serde.parse bytes with
  | some value => (value, .json)
  | none => (serde.string (base64Encode bytes), .base64)

/-- `JobDetail`: the record with its blobs encoded. -/
structure JobDetail (serde : Serde) extends JobColumns where
  payload : serde.Value
  payloadEncoding : Encoding
  result : Option serde.Value
  resultEncoding : Option Encoding

/-- The answer made of a record. -/
def RawJob.detail (serde : Serde) (raw : RawJob) : JobDetail serde where
  toJobColumns := raw.toJobColumns
  payload := (encodeBlob serde raw.payload).1
  payloadEncoding := (encodeBlob serde raw.payload).2
  result := raw.result.map fun bytes => (encodeBlob serde bytes).1
  resultEncoding := raw.result.map fun bytes => (encodeBlob serde bytes).2

end AnvilMQ
