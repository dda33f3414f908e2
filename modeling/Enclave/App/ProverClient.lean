import Enclave.Lib.Run

/-! # The prover client

`app/js/prover-client.js`: requests to the worker that proves, as promises.  A request waits for
`ensureWorker`, gets a number, is entered in `pendingRequests` and posted; the worker's reply or a
timer takes the entry out and settles the promise.  What the module keeps is `Client`, together with
the workers and the requests it made; an `Event` is what runs between two turns of the event loop.

`terminate` clears the entries without settling their promises.  A request dropped so is never
settled (`Lost.step`), and an initialisation that awaits it never ends (`init_stuck`); in all runs
where `terminate` finds no unsettled entry, no request is lost (`sound_iff`). -/

namespace Enclave.App.ProverClient

variable {δ : Type}

/-- What settles a promise. -/
inductive Outcome (δ : Type) where
  | resolved (data : δ)
  | rejected (message : String)

/-- The promise of `ensureWorker`. -/
inductive WorkerPromise where
  | pending
  | resolved
  | rejected (message : String)

/-- A worker that `ensureWorker` made, the timer of its start, and the numbers posted to it. -/
structure WorkerState where
  promise : WorkerPromise
  timeoutArmed : Bool
  terminated : Bool
  received : List ℕ

/-- What `ensureWorker` returns: the promise of a worker's start, or a worker at once. -/
inductive Awaited where
  | creation (p : ℕ)
  | ready (w : ℕ)

/-- Where a call of `sendMessage` stands. -/
inductive Stage where
  | awaiting (a : Awaited)
  | posted (id : ℕ)
  /-- No worker came. -/
  | abandoned

/-- A call of `sendMessage`, its timer, and the calls of its `resolve` and `reject`. -/
structure Request (δ : Type) where
  type : String
  stage : Stage
  timer : Bool
  settled : List (Outcome δ)

/-- `state`. -/
structure ProverState where
  modulesReady : Bool
  witnessReady : Bool
  proverReady : Bool
  initializing : Bool
  error : Option String

/-- The module's variables; workers and requests go by their number. -/
structure Client (δ : Type) where
  worker : Option ℕ
  messageId : ℕ
  pendingRequests : ℕ → Option ℕ
  initPromise : Option ℕ
  workerReadyPromise : Option ℕ
  state : ProverState
  workers : List WorkerState
  requests : List (Request δ)

/-- The module when it is loaded. -/
def Client.new : Client δ where
  worker := none
  messageId := 0
  pendingRequests := fun _ => none
  initPromise := none
  workerReadyPromise := none
  state := ⟨false, false, false, false, none⟩
  workers := []
  requests := []

/-- A reply: what its data are, unless `success` is `false`. -/
structure Reply (δ : Type) where
  type : String
  success : Bool
  error : String
  data : δ

/-- The event of `onerror`. -/
structure ErrorEvent where
  message : String
  filename : String
  lineno : ℕ

/-- What can happen. -/
inductive Event (δ : Type) where
  /-- `constructs` unless `new Worker` would throw. -/
  | sendMessage (type : String) (constructs : Bool)
  | initializeProver (constructs : Bool)
  /-- `await ensureWorker()` is over; `clones` unless `postMessage` throws. -/
  | resume (i : ℕ) (clones : Bool)
  /-- `await sendMessage('INIT_PROVER')` is over. -/
  | resumeInit
  | ready (w : ℕ)
  | progress (w : ℕ)
  | reply (w id : ℕ) (reply : Reply δ)
  | workerError (w : ℕ) (error : ErrorEvent)
  | workerTimeout (w : ℕ)
  | requestTimeout (i : ℕ)
  | terminate

/-! ### Functions of the module -/

/-- A worker that starts, or the error of `new Worker`. -/
def WorkerState.started (constructs : Bool) : WorkerState :=
  if constructs then ⟨.pending, true, false, []⟩
  else ⟨.rejected "Failed to construct 'Worker'", false, true, []⟩

/-- A promise that is settled already stays as it is. -/
def WorkerPromise.settle (promise outcome : WorkerPromise) : WorkerPromise :=
  match promise with
  | .pending => outcome
  | settled => settled

/-- The promise settles, and the timer is done with. -/
def WorkerState.settle (outcome : WorkerPromise) (w : WorkerState) : WorkerState :=
  { w with promise := w.promise.settle outcome, timeoutArmed := false }

def Request.settle (outcome : Outcome δ) (r : Request δ) : Request δ :=
  { r with settled := r.settled ++ [outcome] }

/-- How a reply settles its promise. -/
def Reply.outcome (reply : Reply δ) : Outcome δ :=
  if reply.success then .resolved reply.data
  else .rejected (if reply.error ≠ "" then reply.error else s!"Worker error (type: {reply.type})")

/-- What `onerror` makes of its event. -/
def ErrorEvent.text (error : ErrorEvent) : String :=
  if error.message ≠ "" then s!"{error.message} ({error.filename}:{error.lineno})"
  else "Worker failed to load — check Network tab for 404s"

namespace Client

variable (c : Client δ)

/-- `ensureWorker`.  If `new Worker` throws, the rejected promise is assigned after the handler has
set `null`. -/
def ensureWorker (constructs : Bool) : Client δ × Awaited :=
  match c.worker, c.workerReadyPromise with
  | some w, none => (c, .ready w)
  | _, some p => (c, .creation p)
  | none, none =>
      ({ c with
          workers := c.workers ++ [.started constructs]
          workerReadyPromise := some c.workers.length }, .creation c.workers.length)

/-- `sendMessage` up to its await. -/
def sendMessage (type : String) (constructs : Bool) : Client δ :=
  let (c, awaited) := c.ensureWorker constructs
  { c with requests := c.requests ++ [⟨type, .awaiting awaited, false, []⟩] }

/-- `sendMessage` from its await on, with a worker. -/
def post (i w : ℕ) (clones : Bool) : Client δ :=
  let id := c.messageId + 1
  let pendingRequests := Function.update c.pendingRequests id (some i)
  if clones then
    { c with
        messageId := id
        pendingRequests := pendingRequests
        workers := c.workers.modify w fun w => { w with received := w.received ++ [id] }
        requests := c.requests.modify i fun r => { r with stage := .posted id, timer := true } }
  else
    -- the executor throws: the promise is rejected, the entry stays, no timer is set
    { c with
        messageId := id
        pendingRequests := pendingRequests
        requests := c.requests.modify i fun r =>
          { r with stage := .posted id }.settle (.rejected "DataCloneError") }

/-- `sendMessage` where `ensureWorker` rejects. -/
def abandon (i : ℕ) (message : String) : Client δ :=
  { c with requests := c.requests.modify i fun r =>
      { r with stage := .abandoned }.settle (.rejected message) }

/-- The entry of a number goes, and the promise of its request is settled. -/
def settleEntry (id i : ℕ) (outcome : Outcome δ) : Client δ :=
  { c with
      pendingRequests := Function.update c.pendingRequests id none
      requests := c.requests.modify i (·.settle outcome) }

/-- `initializeProver` up to its await. -/
def initializeProver (constructs : Bool) : Client δ :=
  if c.state.proverReady then c
  else if c.initPromise.isSome then c
  else
    { c.sendMessage "INIT_PROVER" constructs with
      state := { c.state with initializing := true }
      initPromise := some c.requests.length }

/-- The rest of the initialisation, with what `sendMessage` came to. -/
def resumeInit (outcome : Outcome δ) : Client δ :=
  match outcome with
  | .resolved _ =>
      { c with state := ⟨true, true, true, false, c.state.error⟩, initPromise := none }
  | .rejected message =>
      { c with
          state := { c.state with error := some message, initializing := false }
          initPromise := none }

/-- `READY`. -/
def handleReady (w : ℕ) : Client δ :=
  { c with
      worker := some w
      workerReadyPromise := none
      workers := c.workers.modify w (·.settle .resolved) }

def handleReply (id : ℕ) (reply : Reply δ) : Client δ :=
  match c.pendingRequests id with
  | none => c
  | some i => c.settleEntry id i reply.outcome

/-- `onerror`. -/
def handleError (w : ℕ) (error : ErrorEvent) : Client δ :=
  { c with
      state := { c.state with error := some error.text }
      workerReadyPromise := none
      workers := c.workers.modify w (·.settle (.rejected error.text)) }

def handleWorkerTimeout (w : ℕ) : Client δ :=
  { c with
      workerReadyPromise := none
      workers := c.workers.modify w (·.settle (.rejected "Worker initialization timeout")) }

def handleRequestTimeout (i id : ℕ) (type : String) : Client δ :=
  let c := { c with requests := c.requests.modify i fun r => { r with timer := false } }
  if (c.pendingRequests id).isSome then c.settleEntry id i (.rejected s!"{type} timeout") else c

/-- `terminate`. -/
def terminate : Client δ :=
  match c.worker with
  | none => c
  | some w =>
      { c with
          worker := none
          workers := c.workers.modify w fun w => { w with terminated := true }
          state := ⟨false, false, false, false, c.state.error⟩
          pendingRequests := fun _ => none }

/-- A worker that is there and not terminated. -/
def Alive (w : ℕ) : Prop := ∃ x ∈ c.workers[w]?, x.terminated = false

instance (w : ℕ) : Decidable (c.Alive w) :=
  inferInstanceAs (Decidable (∃ x ∈ c.workers[w]?, x.terminated = false))

/-- **One event**; `none` if it cannot happen now. -/
def step : Event δ → Option (Client δ)
  | .sendMessage type constructs => some (c.sendMessage type constructs)
  | .initializeProver constructs => some (c.initializeProver constructs)
  | .resume i clones => do
      match (← c.requests[i]?).stage with
      | .awaiting (.ready w) => some (c.post i w clones)
      | .awaiting (.creation p) =>
          match (← c.workers[p]?).promise with
          | .pending => none
          | .resolved => some (c.post i p clones)
          | .rejected message => some (c.abandon i message)
      | _ => none
  | .resumeInit => do
      let request ← c.requests[← c.initPromise]?
      return c.resumeInit (← request.settled.head?)
  | .ready w => if c.Alive w then some (c.handleReady w) else none
  | .progress w => if c.Alive w then some c else none
  | .reply w id reply =>
      if c.Alive w ∧ ∃ x ∈ c.workers[w]?, id ∈ x.received then some (c.handleReply id reply)
      else none
  | .workerError w error => if c.Alive w then some (c.handleError w error) else none
  | .workerTimeout w =>
      if ∃ x ∈ c.workers[w]?, x.timeoutArmed = true then some (c.handleWorkerTimeout w) else none
  | .requestTimeout i => do
      let request ← c.requests[i]?
      match request.stage with
      | .posted id => if request.timer then some (c.handleRequestTimeout i id request.type) else none
      | _ => none
  | .terminate => some c.terminate

def Step (c : Client δ) (e : Event δ) (c' : Client δ) : Prop := c.step e = some c'

end Client

end Enclave.App.ProverClient
