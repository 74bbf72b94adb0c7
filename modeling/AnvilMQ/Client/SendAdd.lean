import AnvilMQ.Protocol

/-!
# One enqueue call of the client

`sendAdd` of the TypeScript client (`client/src/index.ts`): the checks it makes on its
options, the request it freezes before the first attempt, and the retry loop around
`AddJob`.  `Queue.add`, `Job.enqueueChild` and the outbox all go through it.

An asynchronous function is modelled by what it is suspended on.  A call waits for the
answer of its current attempt or sleeps before the next one, and everything that decides
how it goes on (the answer, the clock) is given from outside.

## Design notes

A JavaScript number is an `F64`.  `JSON.stringify` is not modelled: a call takes what it
returned, which may be `undefined` or an exception.  The mint of a key is likewise given
from outside.
-/

namespace AnvilMQ.Client

open Rust

/-! ## Errors -/

/-- The gRPC status codes. -/
inductive GrpcStatus
  | cancelled
  | unknown
  | invalidArgument
  | deadlineExceeded
  | notFound
  | alreadyExists
  | permissionDenied
  | resourceExhausted
  | failedPrecondition
  | aborted
  | outOfRange
  | unimplemented
  | internal
  | unavailable
  | dataLoss
  | unauthenticated
deriving DecidableEq

/-- A thrown value: `null` or `undefined`, which have no properties, or a value whose
`code` is a gRPC status or something else. -/
inductive Thrown
  | nullish
  | error (code : Option GrpcStatus) (message : String)
deriving DecidableEq

/-- The codes worth another attempt: `UNAVAILABLE` and `DEADLINE_EXCEEDED`. -/
def GrpcStatus.retryable : GrpcStatus → Bool
  | unavailable | deadlineExceeded => true
  | _ => false

/-- Whether `error.code` is a code worth another attempt. -/
def Thrown.transient : Thrown → Bool
  | error (some code) _ => code.retryable
  | _ => false

/-- The code of a status of the broker. -/
def grpcStatus : Code → GrpcStatus
  | .invalidArgument => .invalidArgument
  | .notFound => .notFound
  | .alreadyExists => .alreadyExists
  | .permissionDenied => .permissionDenied
  | .resourceExhausted => .resourceExhausted
  | .failedPrecondition => .failedPrecondition
  | .internal => .internal

/-- The error a refused request is rejected with. -/
def Thrown.ofStatus (status : Status) : Thrown :=
  .error (some (grpcStatus status.code)) status.message

/-- `new Error(message)`. -/
def Thrown.ofMessage (message : String) : Thrown := .error none message

/-! ## Numbers and strings -/

/-- `Number.isFinite`. -/
def isFinite : F64 → Bool
  | .finite _ => true
  | _ => false

/-- `Number.isInteger`. -/
def isInteger : F64 → Bool
  | .finite value => decide (value.den = 1)
  | _ => false

/-- `Number.isSafeInteger`. -/
def isSafeInteger (n : F64) : Bool :=
  match n with
  | .finite value =>
    isInteger n && decide (-9007199254740991 ≤ value) && decide (value ≤ 9007199254740991)
  | _ => false

/-- `n < bound`, which is false on `NaN`. -/
def lessThan (n : F64) (bound : ℚ) : Bool :=
  match n with
  | .nan => false
  | .infinite negative => negative
  | .finite value => decide (value < bound)

/-- `n > bound`, which is false on `NaN`. -/
def greaterThan (n : F64) (bound : ℚ) : Bool :=
  match n with
  | .nan => false
  | .infinite negative => !negative
  | .finite value => decide (bound < value)

/-- The integer nearest to zero, as a 64-bit or 32-bit signed field is written. -/
def truncate : F64 → ℤ
  | .finite value => value.num.tdiv value.den
  | _ => 0

/-- `n >>> 0`, as an unsigned 32-bit field is written. -/
def toUint32 (n : F64) : ℕ := (truncate n % 4294967296).toNat

/-- The characters `trim` removes.  Unlike Rust it keeps U+0085 and removes U+FEFF. -/
def isTrimmed (c : Char) : Bool :=
  let n := c.toNat
  (9 ≤ n && n ≤ 13) || n == 32 || n == 0xA0 || n == 0x1680 || (0x2000 ≤ n && n ≤ 0x200A) ||
    n == 0x2028 || n == 0x2029 || n == 0x202F || n == 0x205F || n == 0x3000 || n == 0xFEFF

/-- `!text.trim()`. -/
def trimsToNothing (text : String) : Bool := text.toList.all isTrimmed

/-! ## Options -/

/-- `Partial<JobMetadata>`. -/
structure PartialMetadata where
  parentId : Option String := none
  traceId : Option String := none
  executionDepth : Option F64 := none
deriving DecidableEq

/-- `AddOptions`. -/
structure AddOptions where
  priority : Option F64 := none
  delayMs : Option F64 := none
  maxAttempts : Option F64 := none
  retryBackoffMs : Option F64 := none
  retryBackoffMaxMs : Option F64 := none
  metadata : Option PartialMetadata := none
  rateLimitFacet : Option String := none
  idempotencyKey : Option String := none
  enqueueRetryMaxMs : Option F64 := none
  enqueueRetryBaseMs : Option F64 := none
  noIdempotencyKey : Bool := false
deriving DecidableEq

/-- The check of a key given by the caller. -/
def checkKey (key : Option String) : Except Thrown Unit :=
  if key.any fun k => trimsToNothing k || decide (256 < byteLen k) then
    .error (.ofMessage "idempotencyKey must be nonblank and at most 256 UTF-8 bytes")
  else .ok ()

/-- The check of a duration or a count. -/
def checkSafeInteger (field : String) (value : Option F64) : Except Thrown Unit :=
  if value.any fun n => !isSafeInteger n || lessThan n 0 then
    .error (.ofMessage s!"{field} must be a nonnegative safe integer")
  else .ok ()

/-- The check of a retry setting. -/
def checkFinite (field : String) (value : Option F64) : Except Thrown Unit :=
  if value.any fun n => !isFinite n || lessThan n 0 then
    .error (.ofMessage s!"{field} must be a nonnegative finite number")
  else .ok ()

/-- The checks of `sendAdd` on its options, in order. -/
def checkOptions (options : AddOptions) : Except Thrown Unit := do
  checkKey options.idempotencyKey
  checkSafeInteger "delayMs" options.delayMs
  checkSafeInteger "retryBackoffMs" options.retryBackoffMs
  checkSafeInteger "retryBackoffMaxMs" options.retryBackoffMaxMs
  checkSafeInteger "maxAttempts" options.maxAttempts
  checkFinite "enqueueRetryMaxMs" options.enqueueRetryMaxMs
  checkFinite "enqueueRetryBaseMs" options.enqueueRetryBaseMs
  if options.maxAttempts.any fun n => greaterThan n 4294967295 then
    .error (.ofMessage "maxAttempts exceeds uint32")
  else if options.priority.any fun n =>
      !isInteger n || lessThan n (-2147483648) || greaterThan n 2147483647 then
    .error (.ofMessage "priority exceeds int32")
  else .ok ()

/-! ## The frozen request -/

/-- What `JSON.stringify` made of the data: a text, `undefined`, or an exception. -/
abbrev Json := Except Thrown (Option String)

/-- The metadata as it is written to the wire. -/
def PartialMetadata.onWire (metadata : PartialMetadata) : JobMetadata where
  parentId := metadata.parentId.getD ""
  traceId := metadata.traceId.getD ""
  executionDepth := (metadata.executionDepth.map toUint32).getD 0

/-- The request with the options that travel. -/
def freeze (name payload : String) (options : AddOptions) (effectiveKey : Option String) :
    AddJobRequest where
  name := name
  payload := payload.toUTF8.data.toList
  priority := (options.priority.map truncate).getD 0
  metadata := options.metadata.map PartialMetadata.onWire
  maxAttempts := (options.maxAttempts.map toUint32).getD 0
  delayMs := (options.delayMs.map truncate).getD 0
  rateLimitFacet := options.rateLimitFacet.getD ""
  retryBackoffMs := (options.retryBackoffMs.map truncate).getD 0
  retryBackoffMaxMs := (options.retryBackoffMaxMs.map truncate).getD 0
  idempotencyKey := effectiveKey.getD ""

/-- A call that has passed its checks: the frozen request, the key it was given and the
retry window. -/
structure Prepared where
  request : AddJobRequest
  effectiveKey : Option String
  maxMs : F64
deriving DecidableEq

/-- `sendAdd` up to its first attempt; `minted` is the key `mintKey` would return. -/
def prepareAdd (name : String) (json : Json) (options : AddOptions) (minted : String) :
    Except Thrown Prepared := do
  checkOptions options
  match ← json with
  | none => .error (.ofMessage "payload must be JSON serializable")
  | some payload =>
    let effectiveKey :=
      if options.noIdempotencyKey then none else some (options.idempotencyKey.getD minted)
    .ok
      { request := freeze name payload options effectiveKey
        effectiveKey := effectiveKey
        maxMs := options.enqueueRetryMaxMs.getD (.finite 15000) }

/-- **What a call freezes.** -/
theorem prepareAdd_ok {name : String} {json : Json} {options : AddOptions} {minted : String}
    {call : Prepared} (ok : prepareAdd name json options minted = .ok call) :
    checkOptions options = .ok () ∧
      ∃ payload, call.request = freeze name payload options call.effectiveKey ∧
        call.effectiveKey =
          if options.noIdempotencyKey then none else some (options.idempotencyKey.getD minted) := by
  simp only [prepareAdd, bind_eq_ok] at ok
  obtain ⟨⟨⟩, checked, json, -, ok⟩ := ok
  cases json with
  | none => cases ok
  | some payload =>
    cases ok
    exact ⟨checked, payload, rfl, rfl⟩

/-- A key given by the caller is not empty. -/
theorem ne_empty_of_checkOptions {options : AddOptions} {key : String}
    (checked : checkOptions options = .ok ()) (given : options.idempotencyKey = some key) :
    key ≠ "" := by
  rintro rfl
  simp only [checkOptions, bind_eq_ok] at checked
  obtain ⟨⟨⟩, accepted, -⟩ := checked
  rw [given] at accepted
  cases accepted

/-! ## The retry loop -/

/-- What a call is suspended on, or how it ended. -/
inductive CallState
  | waiting (attempt : ℕ)
  | sleeping (attempt : ℕ)
  | resolved (response : AddJobResponse)
  | rejected (thrown : Thrown)
deriving DecidableEq

/-- `Date.now() - started >= maxMs`. -/
def windowElapsed (started now : ℤ) (maxMs : F64) : Bool :=
  match maxMs with
  | .nan => false
  | .infinite negative => negative
  | .finite value => decide (value ≤ ((now - started : ℤ) : ℚ))

/-- An attempt settles: return its answer, give up, or sleep before the next one. -/
def Prepared.settle (call : Prepared) (started now : ℤ) (attempt : ℕ) :
    Except Thrown AddJobResponse → CallState
  | .ok response => .resolved response
  | .error thrown =>
    if call.effectiveKey.isNone || !thrown.transient || windowElapsed started now call.maxMs then
      .rejected thrown
    else .sleeping attempt

/-- A call resolves with the answer of an attempt and nothing else. -/
theorem Prepared.settle_resolved {call : Prepared} {started now : ℤ} {attempt : ℕ}
    {outcome : Except Thrown AddJobResponse} {response : AddJobResponse}
    (resolved : call.settle started now attempt outcome = .resolved response) :
    outcome = .ok response := by
  cases outcome with
  | ok other =>
    cases resolved
    rfl
  | error thrown =>
    simp only [settle] at resolved
    split at resolved
    · cases resolved
    · cases resolved

end AnvilMQ.Client
