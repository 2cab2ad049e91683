import AgentDx.Lib.RingWindow

/-!
# The shared submission and completion ring

A client and a worker of the node share two queues of fixed length.  The client
writes a submission into its slot and then advances the head of the submission
queue; the worker answers submissions in batches: it writes the completions,
advances the tail of the completion queue and then gives the submission slots
back.  Every counter is written by one side only.

The model takes one step for each access to shared memory, so that the two
client roles, the worker and the caller of `destroy_ring` interleave freely.
-/

namespace AgentDx.Ring

open Word RingWindow Function

/-! ## The ring -/

def minEntries : ℕ := 2
def maxEntries : ℕ := 65536

/-- The largest batching target, and the most a worker answers in one cycle. -/
def maxIoDepth : ℕ := 256

inductive RingError where
  | invalidArgument (field reason : String)
  | submissionFull
  | completionFull
  deriving DecidableEq

/-- Slot numbers are taken by masking, so the length is a power of two. -/
structure RingLayout where
  entries : ℕ
  atLeast : minEntries ≤ entries
  atMost : entries ≤ maxEntries
  powerOfTwo : ∃ exponent, entries = 2 ^ exponent

def RingLayout.new (entries : ℕ) : Except RingError RingLayout :=
  if hmin : entries < minEntries then
    .error (.invalidArgument "entries" "must be at least 2")
  else if hmax : maxEntries < entries then
    .error (.invalidArgument "entries" "must not exceed 65536")
  else if hpower : entries = 2 ^ entries.log2 then
    .ok ⟨entries, Nat.not_lt.mp hmin, Nat.not_lt.mp hmax, _, hpower⟩
  else
    .error (.invalidArgument "entries" "must be a power of two")

structure Submission where
  op : ℕ
  flags : ℕ
  regId : ℕ
  len : ℕ
  offset : ℕ
  iovOffset : ℕ
  userdata : ℕ
  deriving DecidableEq

structure Completion where
  userdata : ℕ
  result : ℤ
  writeSeq : ℕ
  status : ℕ
  op : ℕ
  deriving DecidableEq

def opRead : ℕ := 1

/-- The shared memory.  The head of the submission queue and the head of the
completion queue belong to the client, the two tails to the worker. -/
structure SharedRing where
  layout : RingLayout
  sqHead : ℕ
  sqTail : ℕ
  cqHead : ℕ
  cqTail : ℕ
  sq : ℕ → Submission
  cq : ℕ → Completion

/-- A conversion to 32 bits. -/
def low32 (value : ℕ) : ℕ := value % 2 ^ 32

section Access

variable (ring : SharedRing)

/-- Masking by `entries - 1`. -/
def SharedRing.slot (counter : ℕ) : ℕ := counter % ring.layout.entries

/-- Submissions without a completion. -/
def SharedRing.available : ℕ := low32 (wrappingSub ring.sqHead ring.sqTail)

/-- Completions that can still be written. -/
def SharedRing.completionSpace : ℕ :=
  ring.layout.entries - low32 (wrappingSub ring.cqTail ring.cqHead)

/-- A submission by its distance from the tail. -/
def SharedRing.peekAt (offset : ℕ) : Option Submission :=
  if wrappingSub ring.sqHead ring.sqTail ≤ offset then
    none
  else
    some (ring.sq (ring.slot (wrappingAdd ring.sqTail offset)))

/-- The completions the client has not taken yet. -/
def SharedRing.unread : List Completion :=
  RingWindow.unread ring.layout.entries ring.cq ring.cqHead (wrappingSub ring.cqTail ring.cqHead)

end Access

/-! ## Answers -/

/-- The answer to a submission: the bytes moved, or an error code.  Lookup of
the registration, the range check and the backend all end in one of these. -/
def execute (submission : Submission) (outcome : Except ℕ ℕ) : Completion where
  userdata := submission.userdata
  result := match outcome with
    | .ok bytes => bytes
    | .error _ => -1
  writeSeq := 0
  status := match outcome with
    | .ok _ => 0
    | .error code => code
  op := submission.op

/-- `NODE_VFS_UNAVAILABLE`, whose number is given by the error table. -/
structure Codes where
  unavailable : ℕ

/-- The answer to what is still queued when the worker ends. -/
def failed (codes : Codes) (submission : Submission) : Completion where
  userdata := submission.userdata
  result := -1
  writeSeq := 0
  status := codes.unavailable
  op := submission.op

def rangesOverlap (left right : Submission) : Bool :=
  decide (left.iovOffset < saturatingAdd right.iovOffset right.len) &&
    decide (right.iovOffset < saturatingAdd left.iovOffset left.len)

def batchTarget (ioDepth : ℤ) : ℕ :=
  if ioDepth = 0 then 1 else min ioDepth.natAbs maxIoDepth

/-! ## The parties -/

/-- Between checking for room, writing the slot and advancing the head. -/
inductive Producer where
  | idle
  | offering (submission : Submission)
  | publishing (submission : Submission)

/-- Between finding a completion, reading its slot and advancing the head. -/
inductive Consumer where
  | idle
  | reading
  | holding (completion : Completion)

/-- The loop of the worker.  `gathering` has answered `answered` and peeked at
`group`; the flag of a batch tells the last one, written on the way out. -/
inductive Worker where
  | polling
  | counting
  | sized (ready : ℕ)
  | gathering (usable : ℕ) (answered : List Completion)
      (group : List Submission)
  | draining
  | failing (pending : ℕ) (answered : List Completion)
  | sealing (batch : List Completion) (last : Bool)
  | spacing (batch : List Completion) (last : Bool)
  | filling (written rest : List Completion) (last : Bool)
  | releasing (count : ℕ) (last : Bool)
  | finished

/-- The caller of `destroy_ring`. -/
inductive Caller where
  | absent
  | waiting
  | returned
  deriving DecidableEq

structure System where
  ring : SharedRing
  ioDepth : ℤ
  producer : Producer
  consumer : Consumer
  worker : Worker
  /-- Whether a partial batch has a deadline. -/
  deadline : Bool
  stop : Bool
  caller : Caller

/-- The rest of the worker after a batch was refused or completed. -/
def afterRefusal (last : Bool) : Worker := if last then .finished else .draining
def afterBatch (last : Bool) : Worker := if last then .finished else .polling

/-- `complete_batch` is only called on a batch. -/
def afterGathering (batch : List Completion) : Worker :=
  if batch.isEmpty then .polling else .sealing batch false

def afterFailing (batch : List Completion) : Worker :=
  if batch.isEmpty then .finished else .sealing batch true

/-- What the worker may answer in this cycle. -/
def usable (ready space : ℕ) : ℕ := min (min ready space) maxIoDepth

/-- A batch is started when it is full enough, or when its deadline passed. -/
def starts (ioDepth : ℤ) (usable : ℕ) (expired : Bool) : Bool :=
  if ioDepth = 0 then
    decide (0 < usable)
  else
    decide (0 < usable) && (decide (batchTarget ioDepth ≤ usable) || expired)

/-- A partial batch gets a deadline if waiting is bounded. -/
def deadlineAfter (ioDepth : ℤ) (usable : ℕ) (deadline : Bool) : Bool :=
  deadline || (decide (ioDepth < 0) && decide (0 < usable) && decide (usable < batchTarget ioDepth))

inductive Event where
  | pushed (submission : Submission)
  | popped (completion : Completion)
  /-- The worker has compared a batch with the completion space. -/
  | compared
  /-- A completion slot is written. -/
  | wrote (slot : ℕ)
  | destroyCalled
  | destroyReturned
  deriving DecidableEq

/-! ## Steps -/

inductive Step (codes : Codes) : System → Option Event → System → Prop where
  -- the submitting side of the client
  | offer {system : System} (submission) (hidle : system.producer = .idle)
      (hroom : wrappingSub system.ring.sqHead system.ring.sqTail < system.ring.layout.entries) :
      Step codes system none
        { system with producer := .offering submission }
  | store {system : System} {submission} (hoffering : system.producer = .offering submission) :
      Step codes system none { system with
        ring.sq := update system.ring.sq (system.ring.slot system.ring.sqHead) submission
        producer := .publishing submission }
  | publish {system : System} {submission}
    (hpublishing : system.producer = .publishing submission) :
      Step codes system (some (.pushed submission)) { system with
        ring.sqHead := wrappingAdd system.ring.sqHead 1
        producer := .idle }
  -- the receiving side of the client
  | find {system : System} (hidle : system.consumer = .idle)
      (hsome : system.ring.cqHead ≠ system.ring.cqTail) :
      Step codes system none { system with consumer := .reading }
  | fetch {system : System} (hreading : system.consumer = .reading) :
      Step codes system none { system with
        consumer := .holding (system.ring.cq (system.ring.slot system.ring.cqHead)) }
  | take {system : System} {completion} (hholding : system.consumer = .holding completion) :
      Step codes system (some (.popped completion)) { system with
        ring.cqHead := wrappingAdd system.ring.cqHead 1
        consumer := .idle }
  -- the loop of the worker
  | proceed {system : System} (hpolling : system.worker = .polling)
      (hstop : system.stop = false) : Step codes system none { system with worker := .counting }
  | leave {system : System} (hpolling : system.worker = .polling)
      (hstop : system.stop = true) : Step codes system none { system with worker := .draining }
  | count {system : System} (hcounting : system.worker = .counting) : Step codes system none
        { system with worker := .sized system.ring.available }
  | gather {system : System} {ready expired} (hsized : system.worker = .sized ready)
      (hexpired : expired = true → deadlineAfter system.ioDepth
        (usable ready system.ring.completionSpace) system.deadline = true)
      (hstarts : starts system.ioDepth (usable ready system.ring.completionSpace) expired = true) :
      Step codes system none { system with
        worker := .gathering (usable ready system.ring.completionSpace) [] []
        deadline := deadlineAfter system.ioDepth
          (usable ready system.ring.completionSpace) system.deadline }
  | wait {system : System} {ready expired} (hsized : system.worker = .sized ready)
      (hstarts : starts system.ioDepth (usable ready system.ring.completionSpace) expired = false) :
      Step codes system none { system with
        worker := .polling
        deadline := deadlineAfter system.ioDepth
          (usable ready system.ring.completionSpace) system.deadline }
  | peek {system : System} {count answered submission}
      (hgathering : system.worker = .gathering count answered []) (hmore : answered.length < count)
      (hpeek : system.ring.peekAt answered.length = some submission) : Step codes system none
        { system with worker := .gathering count answered [submission] }
  -- slow reads into disjoint ranges join the group of the first one
  | join {system : System} {count answered group candidate}
      (hgathering : system.worker = .gathering count answered group) (hgroup : group ≠ [])
      (hmore : answered.length + group.length < count)
      (hpeek : system.ring.peekAt (answered.length + group.length) = some candidate)
      (hreads : ∀ member ∈ candidate :: group, member.op = opRead)
      (hdisjoint : ∀ member ∈ group, rangesOverlap member candidate = false) :
      Step codes system none { system with
        worker := .gathering count answered (group ++ [candidate]) }
  | run {system : System} {count answered group} {outcomes : List (Except ℕ ℕ)}
      (hgathering : system.worker = .gathering count answered group)
      (houtcomes : outcomes.length = group.length) : Step codes system none { system with
        worker := .gathering count (answered ++ List.zipWith execute group outcomes) [] }
  | close {system : System} {count answered}
      (hgathering : system.worker = .gathering count answered [])
      (hend : answered.length = count ∨ system.ring.peekAt answered.length = none) :
      Step codes system none { system with
        worker := afterGathering answered
        deadline := false }
  -- the last pass
  | drain {system : System} (hdraining : system.worker = .draining)
      (hpending : min system.ring.available system.ring.layout.entries ≠ 0) :
      Step codes system none { system with
        worker := .failing (min system.ring.available system.ring.layout.entries) [] }
  | drained {system : System} (hdraining : system.worker = .draining)
      (hpending : min system.ring.available system.ring.layout.entries = 0) :
      Step codes system none { system with worker := .finished }
  | fail {system : System} {pending answered submission}
      (hfailing : system.worker = .failing pending answered) (hmore : answered.length < pending)
      (hpeek : system.ring.peekAt answered.length = some submission) :
      Step codes system none { system with
        worker := .failing pending (answered ++ [failed codes submission]) }
  | failedAll {system : System} {pending answered}
      (hfailing : system.worker = .failing pending answered)
      (hend : answered.length = pending ∨ system.ring.peekAt answered.length = none) :
      Step codes system none { system with worker := afterFailing answered }
  -- complete_batch
  | accept {system : System} {batch last} (hsealing : system.worker = .sealing batch last)
      (hpending : batch.length ≤ system.ring.available) :
      Step codes system none { system with worker := .spacing batch last }
  | excess {system : System} {batch last} (hsealing : system.worker = .sealing batch last)
      (hpending : system.ring.available < batch.length) :
      Step codes system none { system with worker := afterRefusal last }
  | fits {system : System} {batch last} (hspacing : system.worker = .spacing batch last)
      (hspace : batch.length ≤ system.ring.completionSpace) : Step codes system (some .compared)
        { system with worker := .filling [] batch last }
  | full {system : System} {batch last} (hspacing : system.worker = .spacing batch last)
      (hspace : system.ring.completionSpace < batch.length) : Step codes system (some .compared)
        { system with worker := afterRefusal last }
  | fill {system : System} {written rest completion last}
      (hfilling : system.worker = .filling written (completion :: rest) last) : Step codes system
        (some (.wrote (system.ring.slot
          (wrappingAdd system.ring.cqTail written.length)))) { system with
        ring.cq := update system.ring.cq (system.ring.slot
          (wrappingAdd system.ring.cqTail written.length)) completion
        worker := .filling (written ++ [completion]) rest last }
  | expose {system : System} {written last} (hfilling : system.worker = .filling written [] last) :
      Step codes system none { system with
        ring.cqTail := wrappingAdd system.ring.cqTail written.length
        worker := .releasing written.length last }
  | release {system : System} {count last} (hreleasing : system.worker = .releasing count last) :
      Step codes system none { system with
        ring.sqTail := wrappingAdd system.ring.sqTail count
        worker := afterBatch last }
  -- destroy_ring
  | call {system : System} (habsent : system.caller = .absent) :
      Step codes system (some .destroyCalled) { system with
        stop := true
        caller := .waiting }
  | finish {system : System} (hwaiting : system.caller = .waiting)
      (hfinished : system.worker = .finished) : Step codes system (some .destroyReturned)
        { system with caller := .returned }

/-- A new ring and its worker. -/
def System.initial (layout : RingLayout) (ioDepth : ℤ)
    (sq : ℕ → Submission) (cq : ℕ → Completion) : System where
  ring := ⟨layout, 0, 0, 0, 0, sq, cq⟩
  ioDepth := ioDepth
  producer := .idle
  consumer := .idle
  worker := .polling
  deadline := false
  stop := false
  caller := .absent

/-! ## What a run pushed and popped -/

def Event.pushed? : Event → Option Submission
  | .pushed submission => some submission
  | _ => none

def Event.popped? : Event → Option Completion
  | .popped completion => some completion
  | _ => none

def pushes (labels : List (Option Event)) : List Submission :=
  labels.reduceOption.filterMap Event.pushed?

def pops (labels : List (Option Event)) : List Completion :=
  labels.reduceOption.filterMap Event.popped?

end AgentDx.Ring
