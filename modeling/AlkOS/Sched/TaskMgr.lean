import AlkOS.Sched.Tasks

/-!
# The task manager

The calls of `TaskMgr` that end, kill, detach and join tasks, and the work of the
rippers. A call runs with interrupts off until it returns, blocks or hands over the
core. The rest is kept as frames of its thread. A call returns nothing as long as it is
not over.
-/

namespace AlkOS.Sched

open Kernel Containers Function

/-- The result of a call that is over. -/
abbrev Outcome := Option (Except Error ℤ)

def incr (n : ℕ) : ℕ := (n + 1) % 2 ^ 64

def decr (n : ℕ) : ℕ := (n + (2 ^ 64 - 1)) % 2 ^ 64

def currentThread : Kernel Tasks Thread := do threadAt (← get).current

/-- The threads from one on. -/
def follow (threads : PooledHashMap Thread kMaxThreads) : ℕ → Option ℕ → List ℕ
  | fuel + 1, some thread =>
    thread :: follow threads fuel ((threads.heap thread).bind Thread.next)
  | _, _ => []

/-- A change of a thread, if there is one. -/
def updateOptional (thread : Option ℕ) (change : Thread → Thread) : Kernel Tasks Unit :=
  match thread with
  | some thread => updateThread thread change
  | none => pure ()

/-- The thread leaves the list; the one before it is followed by the one after it. -/
def unlink (process thread : ℕ) (head : Option ℕ) (t : Thread) : Kernel Tasks Unit :=
  if head = some thread then do
    updateProcess process fun p => { p with threads := t.next }
    updateOptional t.next fun after => { after with prev := none }
  else
    match t.prev with
    | none => throw (.undefined "item->prev->next")
    | some before => do
        updateThread before fun b => { b with next := t.next }
        updateOptional t.next fun after => { after with prev := some before }

variable (build : Build)

def remove (process thread : ℕ) : Kernel Tasks Unit := do
  let p ← processAt process
  assertTrue build (p.threads ≠ none) "!IsEmpty()"
  assertTrue build (thread ∈ follow (← get).threads kMaxThreads p.threads) "Contains(item)"
  let t ← threadAt thread
  unlink process thread p.threads t
  updateThread thread fun t => { t with next := none, prev := none }

def pushFront (process thread : ℕ) : Kernel Tasks Unit := do
  let p ← processAt process
  updateThread thread fun t => { t with next := p.threads, prev := none }
  updateOptional p.threads fun head => { head with prev := some thread }
  updateProcess process fun p => { p with threads := some thread }

variable (process : ℕ)

def popFront : Kernel Tasks (Option ℕ) := do
  match (← processAt process).threads with
  | none => return none
  | some thread =>
    let t ← threadAt thread
    updateProcess process fun p => { p with threads := t.next }
    updateOptional t.next fun after => { after with prev := none }
    updateThread thread fun t => { t with next := none, prev := none }
    return some thread

variable (thread : ℕ)

def addReadyThread : Kernel Tasks Unit := do
  let t ← threadAt thread
  assertTrue build (t.state = .ready) "thread->state == kReady"
  modify fun s => { s with ready := s.ready ++ [thread] }

/-- The core goes from the running thread, which gets a state, to another one. -/
def changeThread (state : ThreadState) (next : ℕ) : Kernel Tasks Unit := do
  updateThread next fun t => { t with state := .running }
  let current := (← get).current
  let tcb ← threadAt current
  assertTrue build (tcb.state = .running) "GetCoreLocalTcb()->state == kRunning"
  updateThread current fun t => { t with state := state }
  if state = .ready then addReadyThread build current
  modify fun s => { s with current := next }

/-- `ScheduleAndUpdateThreads` with a thread that the policies pick, and the switch. -/
def schedule (state : ThreadState) (next : ℕ) : Kernel Tasks Unit := do
  rAssertTrue (next ∈ (← get).ready) "IDLE NOT IMPLEMENTED!"
  modify fun s => { s with ready := s.ready.erase next }
  let t ← threadAt next
  assertTrue build (t.state = .ready) "next_thread->state == kReady"
  changeThread build state next

/-- `ReleaseAll` for threads taken from a wait queue. -/
def releaseAll (waiting : List ℕ) : Kernel Tasks Unit :=
  waiting.forM fun thread => do
    updateThread thread fun t => { t with state := .ready }
    addReadyThread build thread

/-- `WaitQueue::Remove`: the thread leaves the queue it is in. -/
def leaveWaitQueue (s : Tasks) : Tasks :=
  { s with
    threads := { s.threads with
      heap := fun a => (s.threads.heap a).map fun t =>
        { t with waiting := t.waiting.erase thread } }
    processes := { s.processes with
      heap := fun p => (s.processes.heap p).map fun q =>
        { q with waiting := q.waiting.erase thread } } }

def removeThread : Kernel Tasks Unit := do
  let t ← threadAt thread
  assertTrue build (t.state = .sleeping ∨ t.state = .ready ∨ t.state = .blockedOnWaitQueue)
    "thread->state"
  match t.state with
  | .sleeping =>
    guardAccess build (thread ∈ (← get).sleeping) "sleep_queue_.Contains(thread)"
    modify fun s => { s with sleeping := s.sleeping.erase thread }
  | .ready =>
    guardAccess build (thread ∈ (← get).ready) "RemoveFromPolicy_"
    modify fun s => { s with ready := s.ready.erase thread }
  | .blockedOnWaitQueue => modify (leaveWaitQueue thread)
  | _ => pure ()

def pushFrame (frame : Frame) : Kernel Tasks Unit :=
  modify fun s =>
    { s with frames := update s.frames s.current (frame :: s.frames s.current) }

def popFrame : Kernel Tasks Unit :=
  modify fun s => { s with frames := update s.frames s.current (s.frames s.current).tail }

/-- The running thread has nothing left to do. -/
def dropFrames : Kernel Tasks Unit :=
  modify fun s => { s with frames := update s.frames s.current [] }

def pushThread (thread process : ℕ) : Kernel Tasks Unit := do
  let t ← threadAt thread
  guardAccess build ((← get).threadsToClean.length < kMaxThreads) "Stack overflow!"
  modify fun s => { s with threadsToClean := t.tid.id :: s.threadsToClean }
  updateProcess process fun p =>
    { p with threadsToClean := incr p.threadsToClean, liveThreads := decr p.liveThreads }

def pushProcess : Kernel Tasks Unit := do
  let p ← processAt process
  guardAccess build ((← get).processesToClean.length < Fs.kMaxProcesses) "Stack overflow!"
  modify fun s => { s with processesToClean := p.pid.id :: s.processesToClean }

/-- The process of a thread, which an assertion says is there. -/
def ownerOf (thread : Thread) : Kernel Tasks ℕ := do
  expectValue build "process" (← getProcess build thread.owner.id).toOption

def threadExit (retval : ℤ) (next : ℕ) : Kernel Tasks Outcome := do
  let current := (← get).current
  let tcb ← threadAt current
  assertTrue build (tcb.state = .running) "tcb->state == kRunning"
  updateThread current fun t => { t with retval := retval }
  let process ← ownerOf build tcb
  remove build process current
  let waiting := (← threadAt current).waiting
  updateThread current fun t => { t with waiting := [] }
  releaseAll build waiting
  dropFrames
  let p ← processAt process
  if tcb.detached = true ∨ p.liveThreads = 1 then
    assertTrue build (p.liveThreads ≠ 0) "process->live_threads"
    pushThread build current process
    if tcb.detached = true ∧ (← processAt process).liveThreads = 0 then
      updateProcess process fun p => { p with state := .terminated }
      pushProcess build process
    schedule build .terminated next
  else schedule build .waitingForJoin next
  return none

def detachThread (tid : Tid) : Kernel Tasks Outcome := do
  match ← getThread build tid.id with
  | .error error => return some (.error error)
  | .ok thread =>
    let t ← threadAt thread
    if t.state = .waitingForJoin then
      updateThread thread fun t => { t with state := .terminated }
      let process ← ownerOf build t
      pushThread build thread process
    else updateThread thread fun t => { t with detached := true }
    return some (.ok 0)

/-- The part of `JoinThread` after the wait. -/
def finishJoinThread : Kernel Tasks Outcome := do
  let t ← threadAt thread
  if t.state = .waitingForJoin then
    updateThread thread fun t => { t with state := .terminated }
    let process ← ownerOf build t
    pushThread build thread process
    return some (.ok t.retval)
  else
    assertTrue build (t.state = .terminated) "thread->state == kTerminated"
    return some (.error .alreadyJoined)

def joinThread (tid : Tid) (next : ℕ) : Kernel Tasks Outcome := do
  let tcb ← currentThread
  assertTrue build (tcb.state = .running) "tcb->state == kRunning"
  if tcb.tid = tid then return some (.error .selfJoin)
  else
    match ← getThread build tid.id with
    | .error error => return some (.error error)
    | .ok thread =>
      let t ← threadAt thread
      if t.state ≠ .waitingForJoin ∧ t.state ≠ .terminated then
        let current := (← get).current
        updateThread thread fun t => { t with waiting := t.waiting ++ [current] }
        pushFrame (.joinThread thread)
        schedule build .blockedOnWaitQueue next
        return none
      else finishJoinThread build thread

/-- `CommitMurder(Tid)` returns to the caller or to a loop that asserts its success. -/
def murdered (result : Except Error ℤ) : Kernel Tasks Outcome := do
  let s ← get
  if s.frames s.current = [] then return some result
  else
    assertTrue build (result.toOption ≠ none) "result"
    return none

/-- `CommitMurder(Tid)` up to the release of the joining threads. -/
def commitMurder (tid : Tid) (next : ℕ) : Kernel Tasks Outcome := do
  let tcb ← currentThread
  if tid = tcb.tid then threadExit build 0 next
  else
    match ← getThread build tid.id with
    | .error error => murdered build (.error error)
    | .ok thread =>
      let t ← threadAt thread
      if t.state = .terminated then murdered build (.ok 0)
      else
        match ← getProcess build t.owner.id with
        | .error error => murdered build (.error error)
        | .ok process =>
          remove build process thread
          if t.state ≠ .waitingForJoin then removeThread build thread
          pushFrame (.releaseJoiners thread process)
          return none

/-- The loop that releases the joining threads, and the end of `CommitMurder(Tid)`. -/
def releaseJoiners (thread process : ℕ) : Kernel Tasks Outcome := do
  let t ← threadAt thread
  match t.waiting with
  | joiner :: rest =>
    updateThread thread fun t => { t with waiting := rest }
    changeThread build .ready joiner
    return none
  | [] =>
    popFrame
    if t.state ≠ .terminated then
      updateThread thread fun t => { t with state := .terminated }
      pushThread build thread process
    murdered build (.ok 0)

/-- The beginning of `ExitProcess` and `CommitSuicide`. -/
def exitProcess (frame : ℕ → Frame) : Kernel Tasks Outcome := do
  let process ← ownerOf build (← currentThread)
  pushFrame (frame process)
  return none

/-- `CommitMurder(Pid)` up to the loop that kills the threads. -/
def commitMurderProcess (pid : Pid) : Kernel Tasks Outcome := do
  let tcb ← currentThread
  if tcb.owner = pid then exitProcess build (.exitProcess · (-2))
  else
    match ← getProcess build pid.id with
    | .error error => return some (.error error)
    | .ok process =>
      let own ← processAt (← ownerOf build tcb)
      let p ← processAt process
      if own.kernelSpaceOnly = false ∧ p.kernelSpaceOnly = true then
        return some (.error .noPermission)
      else
        pushFrame (.killThreads process)
        return none

/-- The loop of `CommitMurder(Pid)` that kills the threads. -/
def killThreads (process next : ℕ) : Kernel Tasks Outcome := do
  match (← processAt process).threads with
  | some thread =>
    let t ← threadAt thread
    commitMurder build t.tid next
  | none =>
    popFrame
    pushFrame (.releaseMurdered process)
    return none

/-- The loop that releases the joining threads, and the end of `CommitMurder(Pid)`. -/
def releaseMurdered : Kernel Tasks Outcome := do
  let p ← processAt process
  match p.waiting with
  | joiner :: rest =>
    updateProcess process fun p => { p with waiting := rest }
    changeThread build .ready joiner
    return none
  | [] =>
    popFrame
    if p.state ≠ .terminated then
      updateProcess process fun p => { p with state := .terminated, status := -2 }
      pushProcess build process
    return some (.ok 0)

/-- `ExitProcess` and `CommitSuicide` kill the other threads, and what follows. -/
def killOthers (process next : ℕ) (rest : Kernel Tasks Outcome) :
    Kernel Tasks Outcome := do
  match ← popFront process with
  | some thread =>
    if thread = (← get).current then return none
    else
      let t ← threadAt thread
      commitMurder build t.tid next
  | none => rest

/-- The end of `ExitProcess`. -/
def finishExitProcess (status : ℤ) (next : ℕ) :
    Kernel Tasks Outcome := do
  pushFront process (← get).current
  updateProcess process fun p => { p with state := .waitingForJoin, status := status }
  let waiting := (← processAt process).waiting
  updateProcess process fun p => { p with waiting := [] }
  releaseAll build waiting
  threadExit build 0 next

/-- `CommitSuicide` after the other threads were killed. -/
def finishCommitSuicide : Kernel Tasks Outcome := do
  pushFront process (← get).current
  updateProcess process fun p => { p with state := .waitingForJoin, status := -1 }
  popFrame
  pushFrame (.releaseSuicide process)
  return none

/-- The loop that releases the joining threads, and the end of `CommitSuicide`. -/
def releaseSuicide (process next : ℕ) : Kernel Tasks Outcome := do
  let p ← processAt process
  match p.waiting with
  | joiner :: rest =>
    updateProcess process fun p => { p with waiting := rest }
    changeThread build .ready joiner
    return none
  | [] =>
    if p.state ≠ .terminated then
      updateProcess process fun p => { p with state := .terminated, status := -1 }
      pushProcess build process
    threadExit build 0 next

/-- The part of `JoinProcess` after the wait. -/
def finishJoinProcess : Kernel Tasks Outcome := do
  let p ← processAt process
  if p.state = .waitingForJoin then
    updateProcess process fun p => { p with state := .terminated }
    pushProcess build process
    return some (.ok p.status)
  else
    assertTrue build (p.state = .terminated) "process->state == kTerminated"
    return some (.error .alreadyJoined)

def joinProcess (pid : Pid) (next : ℕ) : Kernel Tasks Outcome := do
  let tcb ← currentThread
  if tcb.owner = pid then return some (.error .selfJoin)
  else
    match ← getProcess build pid.id with
    | .error error => return some (.error error)
    | .ok process =>
      let p ← processAt process
      if p.state ≠ .waitingForJoin ∧ p.state ≠ .terminated then
        let current := (← get).current
        updateProcess process fun p => { p with waiting := p.waiting ++ [current] }
        pushFrame (.joinProcess process)
        schedule build .blockedOnWaitQueue next
        return none
      else finishJoinProcess build process

/-- `ThreadRipperClean_`, for the thread on top of the stack. -/
def ripThread : Kernel Tasks Outcome := do
  match (← get).threadsToClean with
  | [] => return some (.ok 0)
  | id :: rest =>
    modify fun s => { s with threadsToClean := rest }
    let thread ← expectValue build "thread" (← getThread build id).toOption
    let t ← threadAt thread
    let process ← ownerOf build t
    let result ← freeThread build t.tid
    assertTrue build (result.toOption ≠ none) "result"
    let p ← processAt process
    assertTrue build (p.threadsToClean ≠ 0) "process->threads_to_clean"
    updateProcess process fun p => { p with threadsToClean := decr p.threadsToClean }
    return some (.ok 0)

/-- `ProcessRipperClean_` up to its loop, for the process on top of the stack. -/
def ripProcess : Kernel Tasks Outcome := do
  match (← get).processesToClean with
  | [] => return some (.ok 0)
  | id :: rest =>
    modify fun s => { s with processesToClean := rest }
    let process ← expectValue build "process" (← getProcess build id).toOption
    pushFrame (.cleanProcess process)
    return none

/-- The loop in which the process ripper waits, and the end of
`ProcessRipperClean_`. -/
def cleanProcess (process next : ℕ) : Kernel Tasks Outcome := do
  let p ← processAt process
  if p.threadsToClean ≠ 0 ∨ p.liveThreads ≠ 0 then
    if (← get).ready = [] then return none
    else
      schedule build .ready next
      return none
  else
    let result ← freeProcess build p.pid
    assertTrue build (result.toOption ≠ none) "proc_result"
    popFrame
    return some (.ok 0)

/-- What a thread does when it runs again in the kernel. -/
def resume (next : ℕ) : Frame → Kernel Tasks Outcome
  | .joinThread thread => do
      popFrame
      finishJoinThread build thread
  | .joinProcess process => do
      popFrame
      finishJoinProcess build process
  | .releaseJoiners thread process => releaseJoiners build thread process
  | .killThreads process => killThreads build process next
  | .releaseMurdered process => releaseMurdered build process
  | .exitProcess process status =>
    killOthers build process next (finishExitProcess build process status next)
  | .commitSuicide process => killOthers build process next (finishCommitSuicide process)
  | .releaseSuicide process => releaseSuicide build process next
  | .cleanProcess process => cleanProcess build process next

/-- The calls that a running thread can make. -/
inductive Call where
  | threadExit (retval : ℤ)
  | detachThread (tid : Tid)
  | joinThread (tid : Tid)
  | joinProcess (pid : Pid)
  | exitProcess (status : ℤ)
  | commitSuicide
  | commitMurder (tid : Tid)
  | commitMurderProcess (pid : Pid)
  | ripThread
  | ripProcess
deriving DecidableEq, Repr

def Call.run (next : ℕ) : Call → Kernel Tasks Outcome
  | threadExit retval => Sched.threadExit build retval next
  | detachThread tid => Sched.detachThread build tid
  | joinThread tid => Sched.joinThread build tid next
  | joinProcess pid => Sched.joinProcess build pid next
  | exitProcess status => Sched.exitProcess build (.exitProcess · status)
  | commitSuicide => Sched.exitProcess build .commitSuicide
  | commitMurder tid => Sched.commitMurder build tid next
  | commitMurderProcess pid => Sched.commitMurderProcess build pid
  | ripThread => Sched.ripThread build
  | ripProcess => Sched.ripProcess build

end AlkOS.Sched
