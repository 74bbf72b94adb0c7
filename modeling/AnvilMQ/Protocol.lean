import AnvilMQ.Rust

/-!
# The wire protocol

The messages of `proto/queue.proto` that the modelled requests read and return,
and the gRPC statuses they fail with.  Field defaults are the protobuf defaults.
Strings of the broker that range over a fixed set (job states, status codes,
rejection kinds) are inductive types.
-/

namespace AnvilMQ

open Rust

/-- A job id: the text of a UUID. -/
abbrev JobId := String

/-! ## Statuses -/

/-- The gRPC codes the broker answers with. -/
inductive Code
  | invalidArgument
  | notFound
  | alreadyExists
  | permissionDenied
  | resourceExhausted
  | failedPrecondition
  | internal
deriving DecidableEq

/-- A refused request. -/
structure Status where
  code : Code
  message : String
deriving DecidableEq

namespace Status

def invalidArgument (message : String) : Status := ⟨.invalidArgument, message⟩
def notFound (message : String) : Status := ⟨.notFound, message⟩
def alreadyExists (message : String) : Status := ⟨.alreadyExists, message⟩
def permissionDenied (message : String) : Status := ⟨.permissionDenied, message⟩
def resourceExhausted (message : String) : Status := ⟨.resourceExhausted, message⟩
def failedPrecondition (message : String) : Status := ⟨.failedPrecondition, message⟩
def internal (message : String) : Status := ⟨.internal, message⟩

end Status

/-! ## Job states -/

/-- The states of a row of `jobs`. -/
inductive LiveState
  | waiting
  | delayed
  | active
  | waitingChildren
deriving DecidableEq

/-- The states of a row of `job_history`. -/
inductive TerminalState
  | completed
  | failed
deriving DecidableEq

/-! ## Enqueue -/

/-- `JobMetadata`. -/
structure JobMetadata where
  parentId : String := ""
  traceId : String := ""
  executionDepth : ℕ := 0
deriving DecidableEq

/-- `AddJobRequest`. -/
structure AddJobRequest where
  name : String := ""
  payload : Bytes := []
  priority : ℤ := 0
  metadata : Option JobMetadata := none
  maxAttempts : ℕ := 0
  delayMs : ℤ := 0
  rateLimitFacet : String := ""
  retryBackoffMs : ℤ := 0
  retryBackoffMaxMs : ℤ := 0
  idempotencyKey : String := ""
  retryJitter : F64 := F64.zero
  releaseOnFinish : Bool := false
deriving DecidableEq

/-- `AddJobResponse`. -/
structure AddJobResponse where
  id : JobId
  state : LiveState
  replayed : Bool
deriving DecidableEq

/-! ## Flows -/

/-- The fields of a `FlowJob` besides its children. -/
structure FlowOptions where
  name : String := ""
  payload : Bytes := []
  priority : ℤ := 0
  maxAttempts : ℕ := 0
  delayMs : ℤ := 0
  rateLimitFacet : String := ""
  retryBackoffMs : ℤ := 0
  retryBackoffMaxMs : ℤ := 0
  retryJitter : F64 := F64.zero
  idempotencyKey : String := ""
  failParentOnFailure : Bool := false
deriving DecidableEq

/-- `FlowJob`: one node of a parent/child dependency tree. -/
inductive FlowJob
  | node (options : FlowOptions) (children : List FlowJob)

namespace FlowJob

/-- The node's own fields. -/
def options : FlowJob → FlowOptions
  | node options _ => options

/-- The node's direct children. -/
def children : FlowJob → List FlowJob
  | node _ children => children

mutual

/-- The fields of every node of the tree, in preorder. -/
def allOptions : FlowJob → List FlowOptions
  | node options children => options :: allOptionsList children

/-- The fields of every node of a forest, in preorder. -/
def allOptionsList : List FlowJob → List FlowOptions
  | [] => []
  | tree :: rest => allOptions tree ++ allOptionsList rest

end

end FlowJob

/-- `FlowNode`. -/
structure FlowNode where
  id : JobId
  parentId : String
  name : String
  depth : ℕ
  state : LiveState
deriving DecidableEq

/-- `AddFlowResponse`. -/
structure AddFlowResponse where
  rootId : JobId
  nodes : List FlowNode
deriving DecidableEq

/-- `AddFlowMergeResponse`. -/
structure AddFlowMergeResponse where
  parentId : JobId
  attached : List FlowNode
deriving DecidableEq

/-! ## Lifecycle -/

/-- `GetNextJobRequest`. -/
structure GetNextJobRequest where
  workerId : String
  queueNames : List String := []
deriving DecidableEq

/-- A `GetNextJobResponse` with `found = true`. -/
structure ClaimedJob where
  id : JobId
  name : String
  payload : Bytes
  metadata : JobMetadata
  attempts : ℕ
  leaseExpiresAtMs : ℤ
deriving DecidableEq

/-- `HeartbeatRequest`. -/
structure HeartbeatRequest where
  id : JobId
  workerId : String
  attempt : ℕ
deriving DecidableEq

/-- `CompleteJobRequest`. -/
structure CompleteJobRequest where
  id : JobId
  workerId : String
  attempt : ℕ := 0
  result : Bytes := []
deriving DecidableEq

/-- `FailJobRequest`. -/
structure FailJobRequest where
  id : JobId
  workerId : String
  attempt : ℕ := 0
  errorMessage : String := ""
  nonRetryable : Bool := false
deriving DecidableEq

/-! ## Limits and schedulers -/

/-- `UpsertRateLimitRuleRequest` and `UpsertIngressLimitRuleRequest`. -/
structure UpsertLimitRuleRequest where
  facetPattern : String
  maxJobs : ℕ
  windowDurationMs : ℤ
deriving DecidableEq

/-- `JobTemplate` of an `UpsertJobSchedulerRequest`. -/
structure JobTemplate where
  name : String := ""
  payload : Bytes := []
  priority : Option ℤ := none
  maxAttempts : Option ℕ := none
  retryBackoffMs : Option ℤ := none
  retryBackoffMaxMs : Option ℤ := none
  retryJitter : Option F64 := none
  rateLimitFacet : Option String := none
deriving DecidableEq

/-- `RepeatSpec` of an `UpsertJobSchedulerRequest`. -/
structure RepeatSpec where
  cron : String := ""
  timezone : String := ""
deriving DecidableEq

/-- `UpsertJobSchedulerRequest`. -/
structure UpsertJobSchedulerRequest where
  id : String := ""
  template : Option JobTemplate := none
  repeatSpec : Option RepeatSpec := none
deriving DecidableEq

end AnvilMQ
