import FileSwarm.Transfer.Work

/-!
# Sessions: a transfer with its listener and its workers

Operations on a transfer are done one at a time. What an operation left in the outbox is handed out
after it: first its notices are delivered, one by one, then its jobs are submitted. The listener may
answer a notice with an operation of its own, whose outbox is handed out at once, or may raise a
fault; a fault ends the operation it came from, and what was still to be handed out is lost. A fault
in a job breaks the transfer.

* `Topic`, `Reaction`, `Hook` : what the listener does, each hook once;
* `Pool` : jobs run where they are submitted, or wait until they are run by hand;
* `Live` : steps of a session, which outlives a fault;
* `deliver`, `runJob`, `dispatch` : handing out; `again` stands for handing out what a reaction or a
  job's result left;
* `perform` : an operation with everything that follows from it.
-/

namespace FileSwarm

/-- What a hook waits for. -/
inductive Topic where
  | phase (entered : Phase)
  | progress (stage : Phase)
  | completed
  | broken
deriving DecidableEq, Repr, Inhabited

def Notice.topic : Notice → Topic
  | phaseChanged _ new => .phase new
  | progress stage _ => .progress stage
  | completed => .completed
  | broken _ => .broken

/-- What a hook does. -/
inductive Reaction where
  | abort
  | abortAndCleanUp
  | breakByCaller
  | sendRequests
  | removePeer (id : String)
  | delete (path : String)
  | write (path : String) (bytes : ByteArray)
  | raise (message : String)

structure Hook where
  topic : Topic
  reaction : Reaction

/-- Where jobs run. -/
inductive Pool where
  | inline
  | manual
deriving DecidableEq, Repr, Inhabited

structure Session where
  transfer : Transfer
  pool : Pool
  hooks : List Hook
  /-- All notices delivered. -/
  heard : Array Notice
  /-- Jobs that wait to be run by hand. -/
  waiting : List Job
  /-- A fault raised while work was under way, which is not over yet. -/
  raised : Option Fault

/-- Steps of a session. -/
abbrev Live (α : Type) := ExceptT Fault (StateM Session) α

namespace Session

def ofTransfer (t : Transfer) (pool : Pool) (hooks : List Hook) : Session :=
  ⟨t, pool, hooks, #[], [], none⟩

/-- Change the transfer. -/
def update (f : Transfer → Transfer) : Live Unit :=
  modify fun s => { s with transfer := f s.transfer }

/-- Change the disk; a change the disk refuses does not happen. -/
def updateDisk (f : Disk → Disk) : Live Unit := update fun t => { t with disk := f t.disk }

/-- An operation, and handing out what it left. -/
def operate (again : Live Unit) (f : Transfer → Transfer) : Live Unit := do
  update f
  again

/-- What a hook does. -/
def react (again : Live Unit) : Reaction → Live Unit
  | .abort => operate again (·.abort)
  | .abortAndCleanUp => operate again (·.abortAndCleanUp)
  | .breakByCaller => operate again (·.breakByCaller)
  | .sendRequests => operate again (·.sendRequests)
  | .removePeer id => operate again fun t => (t.removePeer id).1
  | .delete path => updateDisk (·.removeTree path)
  | .write path bytes => updateDisk fun d => (d.write path bytes).toOption.getD d
  | .raise message => throw (.raised message)

/-- The listener hears a notice, and the first hook that waits for it is used. -/
def deliver (again : Live Unit) (n : Notice) : Live Unit := do
  modify fun s => { s with heard := s.heard.push n }
  match (← get).hooks.find? (·.topic = n.topic) with
  | none => return
  | some hook =>
    modify fun s => { s with hooks := s.hooks.eraseP (·.topic = n.topic) }
    react again hook.reaction

/-- The session's disk, beside the last percentage shown. A percentage that repeats is not shown
again; the work is to stop when its epoch is over or the listener raised a fault. -/
def bench (again : Live Unit) (epoch : Nat) (stage : Phase) : Bench (Session × Option Nat) where
  disk s := s.1.transfer.disk
  putDisk d s := ({ s.1 with transfer := { s.1.transfer with disk := d } }, s.2)
  listen percent s :=
    if s.2 = some percent then (s.1.transfer.epoch == epoch, s)
    else
      match (deliver again (.progress stage percent)).run.run s.1 with
      | (.ok _, next) => (next.transfer.epoch == epoch, (next, some percent))
      | (.error f, next) => (false, ({ next with raised := some f }, some percent))

/-- Work of a job, which a fault of the listener ends. -/
def work (again : Live Unit) (epoch : Nat) (stage : Phase)
    (w : Bench (Session × Option Nat) → Work (Session × Option Nat) α) : Live (Except Failure α) := do
  let (result, s, _) := (w (bench again epoch stage)).run.run (← get, none)
  set { s with raised := none }
  match s.raised with
  | some f => throw f
  | none => return result

/-- A job from its first step to its last. -/
def runJob (again : Live Unit) : Job → Live Unit
  | .matchAndCopy epoch s candidate temp => do
    let found ← work again epoch .matching (·.findMatches candidate s)
    let current := (← get).transfer.isCurrent epoch
    operate again (·.acceptMatches epoch found)
    match found with
    | .error _ => return
    | .ok found =>
      if current then
        let path := (← get).transfer.target.temp
        let result ← work again epoch .copying (·.copyMatches candidate path temp s found)
        operate again (·.acceptCopy epoch result)
  | .verify epoch digest => do
    let path := (← get).transfer.target.temp
    let result ← work again epoch .verifying (·.verifyFile path digest)
    operate again (·.acceptVerdict epoch result)

/-- Run a job; a fault in it breaks the transfer. -/
def runGuarded (again : Live Unit) (job : Job) : Live Unit :=
  tryCatch (runJob again job) fun f => operate again (·.acceptCrash job.epoch f.text)

def submit (again : Live Unit) (job : Job) : Live Unit := do
  match (← get).pool with
  | .inline => runGuarded again job
  | .manual => modify fun s => { s with waiting := s.waiting ++ [job] }

/-- Hand out what is in the outbox, and what follows from that, `depth` levels deep. -/
def dispatch : (depth : Nat) → Live Unit
  | 0 => return
  | depth + 1 => do
    let (t, out) := (← get).transfer.takeOutbox
    modify fun s => { s with transfer := t }
    out.notices.forM (deliver (dispatch depth))
    out.jobs.forM (submit (dispatch depth))

/-- How deep handing out can go: every hook is used once, and a job's result starts at most the job
that verifies, whose result starts none. -/
def depth (s : Session) : Nat := s.hooks.length + 8

/-- Hand out what is in the outbox, and all that follows from it. -/
def settle : Live Unit := do dispatch (← get).depth

/-- An operation that gives an answer. -/
def perform (f : Transfer → Transfer × α) : Live α := do
  let (t, a) := f (← get).transfer
  modify fun s => { s with transfer := t }
  settle
  return a

/-- An operation that may fault; then nothing follows from it. -/
def performChecked (f : Transfer → Except Fault Transfer) : Live Unit := do
  match f (← get).transfer with
  | .ok t =>
    modify fun s => { s with transfer := t }
    settle
  | .error fault => throw fault

/-- Run up to `limit` waiting jobs, those included that come to wait meanwhile; how many were run. -/
def runWaiting : (limit : Nat) → Live Nat
  | 0 => return 0
  | limit + 1 => do
    match (← get).waiting with
    | [] => return 0
    | job :: rest =>
      modify fun s => { s with waiting := rest }
      runGuarded settle job
      return (← runWaiting limit) + 1

end Session

end FileSwarm
