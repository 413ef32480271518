import AlkOS.Fs.FileDescriptor

/-!
# Threads and processes

`Threads` and `Processes`: pools of thread and process objects, their identifiers, and
the memory that belongs to them. The wait queue of an object is kept with it. Which
ready thread runs next is left open.
-/

namespace AlkOS.Sched

open Kernel Containers Fs

def kMaxThreads : ℕ := kMaxProcesses * 2

inductive Error where
  | outOfMemory
  | exceededMaxAllowedInstances
  | processNotFound
  | threadNotFound
  | processNameTooLong
  | execPathNotFound
  | selfJoin
  | alreadyJoined
  | noPermission
deriving DecidableEq, Repr

structure Tid where
  id : ℕ
  count : ℕ
deriving DecidableEq, Repr, Inhabited

structure Pid where
  id : ℕ
  count : ℕ
deriving DecidableEq, Repr, Inhabited

inductive ThreadState where
  | ready
  | running
  | sleeping
  | blockedOnWaitQueue
  | waitingForJoin
  | terminated
deriving DecidableEq, Repr, Inhabited

inductive ProcessState where
  | ready
  | waitingForJoin
  | terminated
deriving DecidableEq, Repr, Inhabited

/-- `Thread`: `waiting` is its wait queue, `next` and `prev` link the threads of its process. -/
structure Thread where
  tid : Tid
  owner : Pid
  detached : Bool
  state : ThreadState
  retval : ℤ
  waitQueue : Option ℕ
  waiting : List ℕ
  kernelStack : Option ℕ
  next : Option ℕ
  prev : Option ℕ
deriving Inhabited

inductive AddressSpace where
  | null
  | kernel
  | user (block : ℕ)
deriving DecidableEq, Repr, Inhabited

/-- `Process`: `threads` is the head of the list of its threads. -/
structure Process where
  pid : Pid
  kernelSpaceOnly : Bool
  threads : Option ℕ
  liveThreads : ℕ
  threadsToClean : ℕ
  state : ProcessState
  waitQueue : Option ℕ
  waiting : List ℕ
  status : ℤ
  addressSpace : AddressSpace
  fdTable : Option ℕ
deriving Inhabited

/-- The kernel heap: which attempts succeed, the attempts so far, and the blocks in use. -/
structure Heap where
  succeeds : ℕ → Bool
  attempts : ℕ
  live : ℕ → Bool

/-- What a thread still has to do: the rest of `JoinThread` and `JoinProcess`; the loop of
`ReleaseAndProcessAllBeforeProceeding` in the three calls that use it; the loops that kill threads;
and the wait of the process ripper. -/
inductive Frame where
  | joinThread (thread : ℕ)
  | joinProcess (process : ℕ)
  | releaseJoiners (thread process : ℕ)
  | killThreads (process : ℕ)
  | releaseMurdered (process : ℕ)
  | exitProcess (process : ℕ) (status : ℤ)
  | commitSuicide (process : ℕ)
  | releaseSuicide (process : ℕ)
  | cleanProcess (process : ℕ)
deriving DecidableEq, Repr

/-- The state of the scheduling module on a single core. -/
structure Tasks where
  threads : PooledHashMap Thread kMaxThreads
  processes : PooledHashMap Process kMaxProcesses
  threadCounter : ℕ
  processCounter : ℕ
  threadsToClean : List ℕ
  processesToClean : List ℕ
  ready : List ℕ
  sleeping : List ℕ
  current : ℕ
  frames : ℕ → List Frame
  heap : Heap
  files : FdManager

variable {α : Type}

def onThreads (run : Kernel (PooledHashMap Thread kMaxThreads) α) : Kernel Tasks α :=
  zoom (·.threads) (fun s threads => { s with threads := threads }) run

def onProcesses (run : Kernel (PooledHashMap Process kMaxProcesses) α) : Kernel Tasks α :=
  zoom (·.processes) (fun s processes => { s with processes := processes }) run

def onFiles (run : Kernel FdManager α) : Kernel Tasks α :=
  zoom (·.files) (fun s files => { s with files := files }) run

def threadAt (thread : ℕ) : Kernel Tasks Thread := onThreads (PooledHashMap.deref thread)

def processAt (process : ℕ) : Kernel Tasks Process := onProcesses (PooledHashMap.deref process)

def updateThread (thread : ℕ) (change : Thread → Thread) : Kernel Tasks Unit :=
  onThreads (PooledHashMap.update thread change)

def updateProcess (process : ℕ) (change : Process → Process) : Kernel Tasks Unit :=
  onProcesses (PooledHashMap.update process change)

/-- The value of an `expected` that an assertion says is there. -/
def expectValue {σ : Type} (build : Build) (message : String) : Option α → Kernel σ α
  | some value => return value
  | none => match build with
      | .debug => throw (.assertion message)
      | .release => throw (.undefined message)

/-- Whether a request for memory succeeds. -/
def attempt : Kernel Tasks Bool := do
  let heap := (← get).heap
  modify fun s => { s with heap := { heap with attempts := heap.attempts + 1 } }
  return heap.succeeds heap.attempts

/-- `KNew` and `KMalloc`. -/
def kMalloc : Kernel Tasks (Option ℕ) := do
  let block := (← get).heap.attempts
  if ← attempt then
    modify fun s => { s with heap := { s.heap with
      live := Function.update s.heap.live block true } }
    return some block
  else return none

/-- `KDelete` and `KFree`. -/
def kFree (block : ℕ) : Kernel Tasks Unit := do
  if (← get).heap.live block then
    modify fun s =>
      { s with heap := { s.heap with live := Function.update s.heap.live block false } }
  else throw (.undefined "freed twice")

/-- The memory for an object, which `Allocate` asserts to get when a slot is left. -/
def objectMemory (pool : List ℕ) : Kernel Tasks Unit := do
  if pool = [] then return
  else rAssertTrue (← attempt) "mem"

def destroyUserAddrSpace : AddressSpace → Kernel Tasks Unit
  | .null => throw (.undefined "as->PageTableRoot()")
  | .kernel => throw (.undefined "KDelete(&kernel_as_)")
  | .user block => kFree block

/-- The index that `Allocate` returns when no slot is left. -/
def kNoIndex : ℕ := 2 ^ 64 - 1

variable (build : Build)

def getThread (id : ℕ) : Kernel Tasks (Except Error ℕ) := do
  match ← onThreads (PooledHashMap.get build id) with
  | none => return .error .threadNotFound
  | some thread => return .ok thread

def assignNewTid (idx : ℕ) : Kernel Tasks Tid := do
  let counter := (← get).threadCounter
  modify fun s => { s with threadCounter := (counter + 1) % 2 ^ 64 }
  return ⟨idx, counter % 2 ^ 48⟩

/-- `PrepareThread`. The guard frees the index that `Allocate` returned on every
failure. -/
def prepareThread : Kernel Tasks (Except Error ℕ) := do
  objectMemory (← get).threads.pool
  match ← onThreads PooledHashMap.allocate with
  | none =>
    onThreads (PooledHashMap.free build kNoIndex)
    return .error .exceededMaxAllowedInstances
  | some idx =>
    let thread ← expectValue build "Get(idx)" (← onThreads (PooledHashMap.get build idx))
    assertTrue build (idx ≤ 65535) "idx <= numeric_limits<u16>::max()"
    let tid ← assignNewTid idx
    updateThread thread fun t => { t with tid := tid }
    match ← kMalloc with
    | none =>
      onThreads (PooledHashMap.free build idx)
      return .error .outOfMemory
    | some waitQueue =>
      updateThread thread fun t => { t with waitQueue := some waitQueue }
      return .ok thread

/-- `Threads::Free`. -/
def freeThread (tid : Tid) : Kernel Tasks (Except Error Unit) := do
  match ← onThreads (PooledHashMap.get build tid.id) with
  | none => return .error .threadNotFound
  | some thread =>
    let t ← threadAt thread
    let waitQueue ← expectValue build "thread->wait_queue" t.waitQueue
    guardAccess build (t.waiting = []) "thread->wait_queue->IsEmpty()"
    kFree waitQueue
    onThreads (PooledHashMap.free build tid.id)
    return .ok ()

def getProcess (id : ℕ) : Kernel Tasks (Except Error ℕ) := do
  match ← onProcesses (PooledHashMap.get build id) with
  | none => return .error .processNotFound
  | some process => return .ok process

def assignNewPid (idx : ℕ) : Kernel Tasks Pid := do
  let counter := (← get).processCounter
  modify fun s => { s with processCounter := (counter + 1) % 2 ^ 64 }
  return ⟨idx, counter % 2 ^ 48⟩

/-- The descriptor table of `PrepareProcess`. The guards free everything on a failure. -/
def prepareFdTable (idx process waitQueue : ℕ) :
    Kernel Tasks (Except Error ℕ) := do
  match ← kMalloc with
  | none =>
    kFree waitQueue
    onProcesses (PooledHashMap.free build idx)
    return .error .outOfMemory
  | some fdTable =>
    updateProcess process fun p => { p with fdTable := some fdTable }
    if ← onFiles (FdManager.prepareTable build idx) then return .ok process
    else
      kFree fdTable
      kFree waitQueue
      onProcesses (PooledHashMap.free build idx)
      return .error .outOfMemory

def prepareProcess : Kernel Tasks (Except Error ℕ) := do
  objectMemory (← get).processes.pool
  match ← onProcesses PooledHashMap.allocate with
  | none =>
    onProcesses (PooledHashMap.free build kNoIndex)
    return .error .exceededMaxAllowedInstances
  | some idx =>
    let process ← expectValue build "Get(idx)" (← onProcesses (PooledHashMap.get build idx))
    assertTrue build (idx ≤ 65535) "idx <= numeric_limits<u16>::max()"
    let pid ← assignNewPid idx
    updateProcess process fun p => { p with pid := pid }
    match ← kMalloc with
    | none =>
      onProcesses (PooledHashMap.free build idx)
      return .error .outOfMemory
    | some waitQueue =>
      updateProcess process fun p => { p with waitQueue := some waitQueue }
      prepareFdTable build idx process waitQueue

def cleanupProcess (process : ℕ) : Kernel Tasks Unit := do
  let p ← processAt process
  let fdTable ← expectValue build "fd_table" p.fdTable
  onFiles (FdManager.destroyTable build p.pid.id)
  kFree fdTable
  let waitQueue ← expectValue build "process->wait_queue" p.waitQueue
  guardAccess build (p.waiting = []) "process->wait_queue->IsEmpty()"
  kFree waitQueue
  destroyUserAddrSpace p.addressSpace

/-- `Processes::Free`. -/
def freeProcess (pid : Pid) : Kernel Tasks (Except Error Unit) := do
  match ← onProcesses (PooledHashMap.get build pid.id) with
  | none => return .error .processNotFound
  | some process =>
    cleanupProcess build process
    onProcesses (PooledHashMap.free build pid.id)
    return .ok ()

end AlkOS.Sched
