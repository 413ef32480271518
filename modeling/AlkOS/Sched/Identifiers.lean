import AlkOS.Sched.TaskRuns

/-!
# Identifiers

A `Tid` and a `Pid` hold the number of a slot and a generation count, but a lookup
only reads the number. An identifier reaches the task it was issued to, and no
other, exactly as long as its slot was not given to a further task that exists.
-/

namespace AlkOS.Sched

open Kernel Containers Function

variable {build : Build} {s s' : Tasks} {T : Type} {kSize : ℕ}
  {table table' : PooledHashMap T kSize}
  {K : Type} {idOf : T → K} {slotOf : K → ℕ} {issued : List (K × ℕ)} {key : K} {a b : ℕ}

/-- The slots and the identifiers of the objects in them are the same. -/
structure SameSlots (table table' : PooledHashMap T kSize) (idOf : T → K) : Prop where
  map : table'.map = table.map
  pool : table'.pool = table.pool
  next : table'.next = table.next
  heap : ∀ a, (table'.heap a).map idOf = (table.heap a).map idOf

namespace SameSlots

theorem refl (table : PooledHashMap T kSize) (idOf : T → K) : SameSlots table table idOf :=
  ⟨rfl, rfl, rfl, fun _ => rfl⟩

theorem trans {table'' : PooledHashMap T kSize} (first : SameSlots table table' idOf)
    (second : SameSlots table' table'' idOf) : SameSlots table table'' idOf :=
  ⟨second.map.trans first.map, second.pool.trans first.pool, second.next.trans first.next,
    fun a => (second.heap a).trans (first.heap a)⟩

theorem put {value value' : T} (here : table.heap a = some value)
    (same : idOf value' = idOf value) : SameSlots table (table.put a value') idOf := by
  refine ⟨rfl, rfl, rfl, fun b => ?_⟩
  rw [PooledHashMap.heap_put]
  by_cases equal : b = a
  · rw [equal, update_self, here, Option.map_some, Option.map_some, same]
  · rw [update_of_ne equal]

end SameSlots

/-- Every object has the identifier it was issued, in the slot that this names. -/
structure Tracked (table : PooledHashMap T kSize) (idOf : T → K) (slotOf : K → ℕ)
    (issued : List (K × ℕ)) : Prop where
  sound : table.Sound
  slot : ∀ a value, table.heap a = some value → table.map (slotOf (idOf value)) = some a
  known : ∀ a value, table.heap a = some value → (idOf value, a) ∈ issued
  origin : ∀ key a, (key, a) ∈ issued → slotOf key < kSize ∧ a < table.next ∧
    ∀ value, table.heap a = some value → idOf value = key

namespace Tracked

theorem initial : Tracked (PooledHashMap.initial T kSize) idOf slotOf [] :=
  ⟨PooledHashMap.sound_initial T kSize, nofun, nofun, nofun⟩

variable (tracked : Tracked table idOf slotOf issued)
include tracked

/-- Changes that keep the slots and the identifiers. -/
theorem congr (same : SameSlots table table' idOf) : Tracked table' idOf slotOf issued := by
  obtain ⟨map, pool, next, heap⟩ := same
  have back : ∀ a value, table'.heap a = some value →
      ∃ old, table.heap a = some old ∧ idOf old = idOf value := by
    intro a value found
    have same := heap a
    rw [found] at same
    exact Option.map_eq_some_iff.mp same.symm
  have some_iff : ∀ a, table'.heap a ≠ none ↔ table.heap a ≠ none := by
    intro a
    have same := congrArg Option.isSome (heap a)
    rw [Option.isSome_map, Option.isSome_map] at same
    rw [← Option.isSome_iff_ne_none, ← Option.isSome_iff_ne_none, same]
  refine ⟨⟨?_, ?_, ?_, ?_, ?_, ?_⟩, ?_, ?_, ?_⟩
  · rw [pool]
    exact tracked.sound.nodup
  · rw [pool, map]
    exact tracked.sound.mem_pool
  · intro i a held
    rw [map] at held
    rw [some_iff]
    exact tracked.sound.inside i a held
  · intro a found
    rw [map]
    exact tracked.sound.slot a ((some_iff a).mp found)
  · rw [map]
    exact tracked.sound.unique
  · intro a found
    rw [next]
    exact tracked.sound.fresh a ((some_iff a).mp found)
  · intro a value found
    obtain ⟨old, here, same⟩ := back a value found
    rw [map, ← same]
    exact tracked.slot a old here
  · intro a value found
    obtain ⟨old, here, same⟩ := back a value found
    rw [← same]
    exact tracked.known a old here
  · intro key a member
    obtain ⟨inside, old, same⟩ := tracked.origin key a member
    refine ⟨inside, by rwa [next], fun value found => ?_⟩
    obtain ⟨value', here, equal⟩ := back a value found
    rw [← equal]
    exact same value' here

/-- An object in a new slot. -/
theorem add [Inhabited T] {idx : ℕ} {rest : List ℕ} {value : T} (top : table.pool = idx :: rest)
    (own : slotOf (idOf value) = idx) :
    Tracked (table.add idx rest value) idOf slotOf ((idOf value, table.next) :: issued) := by
  have indexed : table.Indexed (slotOf ∘ idOf) fun _ => True :=
    ⟨tracked.sound, tracked.slot, fun _ _ _ => trivial⟩
  have added := indexed.add top own trivial
  have old : ∀ key a, (key, a) ∈ issued → a ≠ table.next := fun key a member same => by
    have below := (tracked.origin key a member).2.1
    omega
  refine ⟨added.sound, added.slot, ?_, ?_⟩
  · intro b other found
    rw [PooledHashMap.heap_add] at found
    by_cases here : b = table.next
    · subst here
      rw [update_self, Option.some.injEq] at found
      rw [found]
      exact List.mem_cons_self
    · rw [update_of_ne here] at found
      exact List.mem_cons_of_mem _ (tracked.known b other found)
  · intro key b member
    rw [PooledHashMap.heap_add]
    rcases List.mem_cons.mp member with here | earlier
    · obtain ⟨rfl, rfl⟩ := Prod.mk.inj here
      have inside := (tracked.sound.mem_pool idx).mp (by rw [top]; exact List.mem_cons_self)
      refine ⟨own ▸ inside.1, Nat.lt_succ_self _, fun other found => ?_⟩
      rw [update_self, Option.some.injEq] at found
      rw [found]
    · obtain ⟨inside, below, same⟩ := tracked.origin key b earlier
      refine ⟨inside, Nat.lt_succ_of_lt below, fun other found => ?_⟩
      rw [update_of_ne (old key b earlier)] at found
      exact same other found

/-- An object that is freed. -/
theorem released {value : T} (here : table.heap a = some value) :
    Tracked (table.released (slotOf (idOf value)) a) idOf slotOf issued := by
  have indexed : table.Indexed (slotOf ∘ idOf) fun _ => True :=
    ⟨tracked.sound, tracked.slot, fun _ _ _ => trivial⟩
  have freed := indexed.released here
  have origin : ∀ b other, (table.released (slotOf (idOf value)) a).heap b = some other →
      table.heap b = some other := by
    intro b other found
    change update table.heap a none b = some other at found
    have apart : b ≠ a := fun same => by
      rw [same, update_self] at found
      exact nomatch found
    rwa [update_of_ne apart] at found
  refine ⟨freed.sound, freed.slot,
    fun b other found => tracked.known b other (origin b other found),
    fun key b member => ?_⟩
  obtain ⟨inside, below, same⟩ := tracked.origin key b member
  exact ⟨inside, below, fun other found => same other (origin b other found)⟩

/-- The object in a slot is freed. -/
theorem released_slot {idx : ℕ} (held : table.map idx = some a) :
    Tracked (table.released idx a) idOf slotOf issued := by
  obtain ⟨value, here⟩ := Option.ne_none_iff_exists'.mp (tracked.sound.inside _ _ held).2
  rw [tracked.sound.unique _ _ a held (tracked.slot a value here)]
  exact tracked.released here

/-- An object with an identifier for a new slot. -/
theorem create [Inhabited T] {idx : ℕ} {rest : List ℕ} {value : T} (top : table.pool = idx :: rest)
    (own : idOf value = key) (slot : slotOf key = idx) :
    Tracked (table.add idx rest value) idOf slotOf ((key, table.next) :: issued) ∧
      Tracked ((table.add idx rest value).released idx table.next) idOf slotOf
        ((key, table.next) :: issued) := by
  subst own
  have added := tracked.add top slot
  exact ⟨added, added.released_slot (update_self _ _ _)⟩

/-- The object in a slot has an identifier for it. -/
theorem exists_of_map (held : table.map (slotOf key) = some b) :
    ∃ value, table.heap b = some value ∧ slotOf (idOf value) = slotOf key := by
  obtain ⟨value, found⟩ := Option.ne_none_iff_exists'.mp (tracked.sound.inside _ _ held).2
  exact ⟨value, found, tracked.sound.unique _ _ b (tracked.slot b value found) held⟩

/-- The slot of an identifier holds its own object or nothing unless another object got it. -/
theorem map_iff (member : (key, a) ∈ issued) :
    table.map (slotOf key) = (table.heap a).map (fun _ => a) ↔
      ∀ key' b, (key', b) ∈ issued → slotOf key' = slotOf key → table.heap b ≠ none → b = a := by
  constructor
  · intro own key' b issuedToo same exist
    obtain ⟨value, found⟩ := Option.ne_none_iff_exists'.mp exist
    have slot := tracked.slot b value found
    rw [(tracked.origin key' b issuedToo).2.2 value found, same, own] at slot
    obtain ⟨_, _, rfl⟩ := Option.map_eq_some_iff.mp slot
    rfl
  · intro alone
    cases here : table.heap a with
    | some value =>
      have slot := tracked.slot a value here
      rw [(tracked.origin key a member).2.2 value here] at slot
      exact slot
    | none =>
      cases held : table.map (slotOf key) with
      | none => rfl
      | some b =>
        obtain ⟨value, found, same⟩ := tracked.exists_of_map held
        have equal := alone _ b (tracked.known b value found) same
          (found ▸ Option.some_ne_none value)
        rw [equal, here] at found
        exact nomatch found

end Tracked

/-- Both pools have the same slots with the same identifiers. -/
def SameIds (s s' : Tasks) : Prop :=
  SameSlots s.threads s'.threads Thread.tid ∧ SameSlots s.processes s'.processes Process.pid

/-- A computation that creates and frees nothing. -/
def KeepsIds {α : Type} (run : Kernel Tasks α) : Prop :=
  ∀ s value s', EStateM.run run s = .ok value s' → SameIds s s'

theorem KeepsIds.of_preserves {α : Type} {run : Kernel Tasks α}
    (kept : ∀ before, Preserves (SameIds before) run) : KeepsIds run :=
  fun s value s' returned =>
    kept s s value s' ⟨SameSlots.refl _ _, SameSlots.refl _ _⟩ returned

namespace SameIds

variable {α : Type} {message : String} {before : Tasks} {a process thread next : ℕ}

/-- A computation that keeps what was the same before. -/
abbrev Keeps (before : Tasks) (run : Kernel Tasks α) : Prop := Preserves (SameIds before) run

/-- A change outside of both pools. -/
@[grind ←]
theorem modifyState {change : Tasks → Tasks}
    (threads : (fun s => (change s).threads) = Tasks.threads)
    (processes : (fun s => (change s).processes) = Tasks.processes) :
    Keeps before (modify change) := by
  refine .modify fun s same => ?_
  unfold SameIds
  rw [show (change s).threads = s.threads from congrFun threads s,
    show (change s).processes = s.processes from congrFun processes s]
  exact same

@[grind ←]
theorem expectValue {held : Option α} : Keeps before (expectValue build message held) :=
  .of_eq fun _ _ _ returned => (run_expectValue_eq_ok returned).2

@[grind ←]
theorem threadAt : Keeps before (threadAt a) :=
  .of_eq fun _ _ _ returned => (run_threadAt_eq_ok returned).2

@[grind ←]
theorem processAt : Keeps before (processAt a) :=
  .of_eq fun _ _ _ returned => (run_processAt_eq_ok returned).2

@[grind ←]
theorem getThread : Keeps before (getThread build a) :=
  .of_eq fun _ _ _ returned => (run_getThread_eq_ok returned).2.2

@[grind ←]
theorem getProcess : Keeps before (getProcess build a) :=
  .of_eq fun _ _ _ returned => (run_getProcess_eq_ok returned).2.2

@[grind ←]
theorem updateThread {change : Thread → Thread} (own : (fun t => (change t).tid) = Thread.tid) :
    Keeps before (updateThread a change) := by
  intro s value s' same returned
  obtain ⟨t, here, rfl⟩ := run_updateThread_eq_ok returned
  exact ⟨same.1.trans (SameSlots.put here (congrFun own t)), same.2⟩

@[grind ←]
theorem updateProcess {change : Process → Process} (own : (fun p => (change p).pid) = Process.pid) :
    Keeps before (updateProcess a change) := by
  intro s value s' same returned
  obtain ⟨p, here, rfl⟩ := run_updateProcess_eq_ok returned
  exact ⟨same.1, same.2.trans (SameSlots.put here (congrFun own p))⟩

@[grind ←]
theorem currentThread : Keeps before currentThread := by
  unfold Sched.currentThread
  grind

@[grind ←]
theorem ownerOf {t : Thread} : Keeps before (ownerOf build t) := by
  unfold Sched.ownerOf
  grind

@[grind ←]
theorem pushFrame {frame : Frame} : Keeps before (pushFrame frame) := by
  unfold Sched.pushFrame
  grind

@[grind ←]
theorem popFrame : Keeps before popFrame := by
  unfold Sched.popFrame
  grind

@[grind ←]
theorem addReadyThread : Keeps before (addReadyThread build thread) := by
  unfold Sched.addReadyThread
  grind

@[grind ←]
theorem changeThread {state : ThreadState} : Keeps before (changeThread build state next) := by
  unfold Sched.changeThread
  grind

@[grind ←]
theorem schedule {state : ThreadState} : Keeps before (schedule build state next) := by
  unfold Sched.schedule
  grind

@[grind ←]
theorem releaseAll {waiting : List ℕ} : Keeps before (releaseAll build waiting) := by
  refine .forM fun thread => ?_
  grind

@[grind ←]
theorem leaveWaitQueue : Keeps before (modify (leaveWaitQueue thread)) := by
  refine .modify fun s same => ?_
  exact ⟨same.1.trans ⟨rfl, rfl, rfl, fun a => Option.map_map _ _ _⟩,
    same.2.trans ⟨rfl, rfl, rfl, fun a => Option.map_map _ _ _⟩⟩

@[grind ←]
theorem removeThread : Keeps before (removeThread build thread) := by
  unfold Sched.removeThread
  grind

@[grind ←]
theorem updateOptional {change : Thread → Thread} {thread : Option ℕ}
    (own : (fun t => (change t).tid) = Thread.tid) :
    Keeps before (updateOptional thread change) := by
  unfold Sched.updateOptional
  grind

@[grind ←]
theorem unlink {head : Option ℕ} {t : Thread} : Keeps before (unlink process thread head t) := by
  unfold Sched.unlink
  grind

@[grind ←]
theorem remove : Keeps before (remove build process thread) := by
  unfold Sched.remove
  grind

@[grind ←]
theorem pushFront : Keeps before (pushFront process thread) := by
  unfold Sched.pushFront
  grind

@[grind ←]
theorem popFront : Keeps before (popFront process) := by
  unfold Sched.popFront
  grind

@[grind ←]
theorem pushThread : Keeps before (pushThread build thread process) := by
  unfold Sched.pushThread
  grind

@[grind ←]
theorem pushProcess : Keeps before (pushProcess build process) := by
  unfold Sched.pushProcess
  grind

@[grind ←]
theorem threadExit {retval : ℤ} : Keeps before (threadExit build retval next) := by
  refine Preserves.get.bind fun _ => threadAt.bind fun _ => Preserves.assertTrue.bind fun _ =>
    (updateThread (by rfl)).bind fun _ => ownerOf.bind fun _ => remove.bind fun _ => ?_
  refine threadAt.bind fun _ => (updateThread (by rfl)).bind fun _ => releaseAll.bind fun _ => ?_
  refine (modifyState (by rfl) (by rfl)).bind fun _ => processAt.bind fun _ => ?_
  apply Preserves.ite <;> grind

@[grind ←]
theorem detachThread {tid : Tid} : Keeps before (detachThread build tid) := by
  unfold Sched.detachThread
  grind

@[grind ←]
theorem finishJoinThread : Keeps before (finishJoinThread build thread) := by
  unfold Sched.finishJoinThread
  grind

@[grind ←]
theorem joinThread {tid : Tid} : Keeps before (joinThread build tid next) := by
  refine currentThread.bind fun _ => Preserves.assertTrue.bind fun _ => .ite (.pure _) ?_
  refine getThread.bind fun found => ?_
  cases found <;> grind

@[grind ←]
theorem murdered {result : Except Error ℤ} : Keeps before (murdered build result) := by
  unfold Sched.murdered
  grind

@[grind ←]
theorem commitMurder {tid : Tid} : Keeps before (commitMurder build tid next) := by
  refine currentThread.bind fun _ => .ite threadExit (getThread.bind fun found => ?_)
  cases found <;> grind

@[grind ←]
theorem releaseJoiners : Keeps before (releaseJoiners build thread process) := by
  unfold Sched.releaseJoiners
  grind

@[grind ←]
theorem exitProcess {frame : ℕ → Frame} : Keeps before (exitProcess build frame) := by
  unfold Sched.exitProcess
  grind

@[grind ←]
theorem commitMurderProcess {pid : Pid} : Keeps before (commitMurderProcess build pid) := by
  refine currentThread.bind fun _ => .ite exitProcess (getProcess.bind fun _ => ?_)
  grind

@[grind ←]
theorem killThreads : Keeps before (killThreads build process next) := by
  unfold Sched.killThreads
  grind

@[grind ←]
theorem releaseMurdered : Keeps before (releaseMurdered build process) := by
  unfold Sched.releaseMurdered
  grind

@[grind ←]
theorem killOthers {rest : Kernel Tasks Outcome} (others : Keeps before rest) :
    Keeps before (killOthers build process next rest) := by
  unfold Sched.killOthers
  grind

@[grind ←]
theorem finishExitProcess {status : ℤ} :
    Keeps before (finishExitProcess build process status next) := by
  unfold Sched.finishExitProcess
  grind

@[grind ←]
theorem finishCommitSuicide : Keeps before (finishCommitSuicide process) := by
  unfold Sched.finishCommitSuicide
  grind

@[grind ←]
theorem releaseSuicide : Keeps before (releaseSuicide build process next) := by
  unfold Sched.releaseSuicide
  grind

@[grind ←]
theorem finishJoinProcess : Keeps before (finishJoinProcess build process) := by
  unfold Sched.finishJoinProcess
  grind

@[grind ←]
theorem joinProcess {pid : Pid} : Keeps before (joinProcess build pid next) := by
  refine currentThread.bind fun _ => .ite (.pure _) (getProcess.bind fun _ => ?_)
  grind

@[grind ←]
theorem ripProcess : Keeps before (ripProcess build) := by
  unfold Sched.ripProcess
  grind

end SameIds

/-- No call but the work of the thread ripper creates or frees anything. -/
theorem keepsIds_call {call : Call} {next : ℕ} (other : call ≠ .ripThread) :
    KeepsIds (call.run build next) := by
  refine .of_preserves fun before => ?_
  unfold Call.run
  grind

/-- Nor does what a thread does when it runs again, but for the process ripper. -/
theorem keepsIds_resume {frame : Frame} {next : ℕ}
    (other : ∀ process, frame ≠ .cleanProcess process) : KeepsIds (resume build next frame) := by
  refine .of_preserves fun before => ?_
  unfold resume
  grind

/-- The identifiers issued so far, with the objects they were issued to. -/
structure Issued where
  tids : List (Tid × ℕ)
  pids : List (Pid × ℕ)

/-- States reached by creations and frees, with any other computations in between. -/
inductive History (build : Build) : Tasks → Issued → Prop where
  | initial {s : Tasks} (threads : s.threads = .initial _ _)
      (processes : s.processes = .initial _ _) : History build s ⟨[], []⟩
  | prepareThread {s s' : Tasks} {issued : Issued} {idx : ℕ} {result : Except Error ℕ}
      (before : History build s issued) (top : s.threads.pool.head? = some idx)
      (returned : (prepareThread build).run s = .ok result s') :
      History build s' ⟨(⟨idx, s.threadCounter % 2 ^ 48⟩, s.threads.next) :: issued.tids,
        issued.pids⟩
  | prepareProcess {s s' : Tasks} {issued : Issued} {idx : ℕ} {result : Except Error ℕ}
      (before : History build s issued) (top : s.processes.pool.head? = some idx)
      (returned : (prepareProcess build).run s = .ok result s') :
      History build s' ⟨issued.tids,
        (⟨idx, s.processCounter % 2 ^ 48⟩, s.processes.next) :: issued.pids⟩
  | freeThread {s s' : Tasks} {issued : Issued} {tid : Tid} {result : Except Error Unit}
      (before : History build s issued)
      (returned : (freeThread build tid).run s = .ok result s') : History build s' issued
  | freeProcess {s s' : Tasks} {issued : Issued} {pid : Pid} {result : Except Error Unit}
      (before : History build s issued)
      (returned : (freeProcess build pid).run s = .ok result s') : History build s' issued
  | other {s s' : Tasks} {issued : Issued} {α : Type} {run : Kernel Tasks α} {value : α}
      (before : History build s issued) (keeps : KeepsIds run)
      (returned : EStateM.run run s = .ok value s') : History build s' issued

/-- Both pools carry the identifiers that were issued. -/
def TracksBoth (s : Tasks) (issued : Issued) : Prop :=
  Tracked s.threads Thread.tid Tid.id issued.tids ∧
    Tracked s.processes Process.pid Pid.id issued.pids

/-- Both maps are tracked along every history. -/
theorem History.tracked {issued : Issued} (history : History build s issued) :
    TracksBoth s issued := by
  induction history with
  | initial threads processes =>
    unfold TracksBoth
    rw [threads, processes]
    exact ⟨Tracked.initial, Tracked.initial⟩
  | prepareThread before top returned ih =>
    obtain ⟨idx, rest, heap, files, t, top', own, done⟩ :=
      run_prepareThread_eq_ok ih.1.sound returned
    rw [top', List.head?_cons, Option.some.injEq] at top
    subst top
    have created := ih.1.create top' own rfl
    rcases done with ⟨_, rfl⟩ | ⟨_, rfl⟩
    · exact ⟨created.2, ih.2⟩
    · exact ⟨created.1, ih.2⟩
  | prepareProcess before top returned ih =>
    obtain ⟨idx, rest, heap, files, p, top', own, done⟩ :=
      run_prepareProcess_eq_ok ih.2.sound returned
    rw [top', List.head?_cons, Option.some.injEq] at top
    subst top
    have created := ih.2.create top' own rfl
    rcases done with ⟨_, rfl⟩ | ⟨_, rfl⟩
    · exact ⟨ih.1, created.2⟩
    · exact ⟨ih.1, created.1⟩
  | freeThread before returned ih =>
    rcases run_freeThread_eq_ok ih.1.sound returned with
      ⟨_, _, rfl⟩ | ⟨a, t, heap, files, held, _, _, _, rfl⟩
    · exact ih
    · exact ⟨ih.1.released_slot held, ih.2⟩
  | freeProcess before returned ih =>
    rcases run_freeProcess_eq_ok ih.2.sound returned with
      ⟨_, _, rfl⟩ | ⟨a, heap, files, held, _, rfl⟩
    · exact ih
    · exact ⟨ih.1, ih.2.released_slot held⟩
  | other before keeps returned ih =>
    have same := keeps _ _ _ returned
    exact ⟨ih.1.congr same.1, ih.2.congr same.2⟩

/-- The running thread and its process exist. -/
def Runs (s : Tasks) : Prop :=
  ∃ tcb, s.threads.heap s.current = some tcb ∧ tcb.state = .running ∧
    ∃ process p, s.processes.heap process = some p ∧ p.pid = tcb.owner

/-- A call reports an error and leaves everything as it was. -/
def Refuses (run : Kernel Tasks Outcome) (s : Tasks) : Prop :=
  ∃ error, EStateM.run run s = .ok (some (.error error)) s

/-- The identifier of a thread finds that thread as long as it exists, and is refused after that. -/
def FindsThread (build : Build) (s : Tasks) (tid : Tid) (a : ℕ) : Prop :=
  (getThread build tid.id).run s =
      .ok ((s.threads.heap a).elim (.error .threadNotFound) fun _ => .ok a) s ∧
    (s.threads.heap a = none → Runs s → ∀ next,
      Refuses (joinThread build tid next) s ∧ Refuses (detachThread build tid) s ∧
        (s.frames s.current = [] → Refuses (commitMurder build tid next) s))

/-- The same for the identifier of a process. -/
def FindsProcess (build : Build) (s : Tasks) (pid : Pid) (a : ℕ) : Prop :=
  (getProcess build pid.id).run s =
      .ok ((s.processes.heap a).elim (.error .processNotFound) fun _ => .ok a) s ∧
    (s.processes.heap a = none → Runs s → ∀ next,
      Refuses (joinProcess build pid next) s ∧ Refuses (commitMurderProcess build pid) s)

/-- No further thread that exists was given the slot of an identifier. -/
def AloneThread (s : Tasks) (issued : Issued) (tid : Tid) (a : ℕ) : Prop :=
  ∀ tid' b, (tid', b) ∈ issued.tids → tid'.id = tid.id → s.threads.heap b ≠ none → b = a

/-- No further process that exists was given the slot of an identifier. -/
def AloneProcess (s : Tasks) (issued : Issued) (pid : Pid) (a : ℕ) : Prop :=
  ∀ pid' b, (pid', b) ∈ issued.pids → pid'.id = pid.id → s.processes.heap b ≠ none → b = a

theorem getThread_iff {issued : Issued} {tid : Tid} (tracks : TracksBoth s issued)
    (member : (tid, a) ∈ issued.tids) :
    (getThread build tid.id).run s =
        .ok ((s.threads.heap a).elim (.error .threadNotFound) fun _ => .ok a) s ↔
      AloneThread s issued tid a := by
  rw [run_getThread (tracks.1.origin tid a member).1]
  refine Iff.trans ?_ (tracks.1.map_iff member)
  unfold Tasks.threadOf
  cases s.threads.map tid.id <;> cases s.threads.heap a <;> simp

theorem getProcess_iff {issued : Issued} {pid : Pid} (tracks : TracksBoth s issued)
    (member : (pid, a) ∈ issued.pids) :
    (getProcess build pid.id).run s =
        .ok ((s.processes.heap a).elim (.error .processNotFound) fun _ => .ok a) s ↔
      AloneProcess s issued pid a := by
  rw [run_getProcess (tracks.2.origin pid a member).1]
  refine Iff.trans ?_ (tracks.2.map_iff member)
  unfold Tasks.processOf
  cases s.processes.map pid.id <;> cases s.processes.heap a <;> simp

theorem run_currentThread {tcb : Thread} (here : s.threads.heap s.current = some tcb) :
    EStateM.run currentThread s = .ok tcb s := by
  have read : (threadAt s.current).run s = .ok tcb s :=
    run_zoom_of_ok (PooledHashMap.run_deref here)
  exact (run_get_bind).trans read

/-- An identifier whose slot is empty is not that of the running thread. -/
theorem Runs.tid_ne {issued : Issued} {tid : Tid} {tcb : Thread} (tracks : TracksBoth s issued)
    (empty : s.threads.map tid.id = none) (here : s.threads.heap s.current = some tcb) :
    tcb.tid ≠ tid := by
  intro same
  have slot := tracks.1.slot _ tcb here
  rw [same, empty] at slot
  exact nomatch slot

/-- Calls with the identifier of a thread whose slot is empty. -/
theorem refuses_thread {issued : Issued} {tid : Tid} (tracks : TracksBoth s issued)
    (member : (tid, a) ∈ issued.tids) (empty : s.threads.map tid.id = none) (runs : Runs s)
    (next : ℕ) :
    Refuses (joinThread build tid next) s ∧ Refuses (detachThread build tid) s ∧
      (s.frames s.current = [] → Refuses (commitMurder build tid next) s) := by
  obtain ⟨tcb, here, running, _⟩ := runs
  have other := Runs.tid_ne tracks empty here
  have found : (getThread build tid.id).run s = .ok (.error .threadNotFound) s := by
    rw [run_getThread (tracks.1.origin tid a member).1, Tasks.threadOf, empty]
    rfl
  refine ⟨⟨.threadNotFound, ?_⟩, ⟨.threadNotFound, run_bind found⟩, fun outer =>
    ⟨.threadNotFound, ?_⟩⟩
  · unfold joinThread
    rw [run_bind (run_currentThread here), run_bind (run_assertTrue running),
      if_neg other, run_bind found]
    rfl
  · unfold commitMurder
    rw [run_bind (run_currentThread here), if_neg (Ne.symm other), run_bind found]
    unfold murdered
    rw [run_get_bind, if_pos outer]
    rfl

/-- Calls with the identifier of a process whose slot is empty. -/
theorem refuses_process {issued : Issued} {pid : Pid} (tracks : TracksBoth s issued)
    (member : (pid, a) ∈ issued.pids) (empty : s.processes.map pid.id = none) (runs : Runs s)
    (next : ℕ) :
    Refuses (joinProcess build pid next) s ∧ Refuses (commitMurderProcess build pid) s := by
  obtain ⟨tcb, here, _, process, p, known, own⟩ := runs
  have other : tcb.owner ≠ pid := fun same => by
    have slot := tracks.2.slot _ p known
    rw [own, same, empty] at slot
    exact nomatch slot
  have found : (getProcess build pid.id).run s = .ok (.error .processNotFound) s := by
    rw [run_getProcess (tracks.2.origin pid a member).1, Tasks.processOf, empty]
    rfl
  refine ⟨⟨.processNotFound, ?_⟩, ⟨.processNotFound, ?_⟩⟩
  · unfold joinProcess
    rw [run_bind (run_currentThread here), if_neg other, run_bind found]
    rfl
  · unfold commitMurderProcess
    rw [run_bind (run_currentThread here), if_neg other, run_bind found]
    rfl

/-- An identifier finds its own task exactly if no further task that exists got its slot. -/
theorem finds_iff_alone {issued : Issued} (history : History build s issued) :
    (∀ tid a, (tid, a) ∈ issued.tids →
      (FindsThread build s tid a ↔ AloneThread s issued tid a)) ∧
    ∀ pid a, (pid, a) ∈ issued.pids →
      (FindsProcess build s pid a ↔ AloneProcess s issued pid a) := by
  have tracks := history.tracked
  refine ⟨fun tid a member => ⟨fun finds => (getThread_iff tracks member).mp finds.1, ?_⟩,
    fun pid a member => ⟨fun finds => (getProcess_iff tracks member).mp finds.1, ?_⟩⟩
  · intro alone
    refine ⟨(getThread_iff tracks member).mpr alone, fun freed runs next => ?_⟩
    have slot := (tracks.1.map_iff member).mpr alone
    rw [freed] at slot
    exact refuses_thread tracks member slot runs next
  · intro alone
    refine ⟨(getProcess_iff tracks member).mpr alone, fun freed runs next => ?_⟩
    have slot := (tracks.2.map_iff member).mpr alone
    rw [freed] at slot
    exact refuses_process tracks member slot runs next

/-- The state that a computation leaves. -/
def leaves {α : Type} (run : Kernel Tasks α) (s : Tasks) : Tasks :=
  match EStateM.run run s with
  | .ok _ s' => s'
  | .error _ s' => s'

theorem run_eq_leaves {α : Type} {run : Kernel Tasks α} {value : α}
    (returned : outcome (EStateM.run run s) = some value) :
    EStateM.run run s = .ok value (leaves run s) := by
  obtain ⟨s', same⟩ := eq_ok_of_outcome returned
  unfold leaves
  rw [same]

/-- No task exists, and there is memory for every request. -/
def noTasks : Tasks where
  threads := .initial _ _
  processes := .initial _ _
  threadCounter := 0
  processCounter := 0
  threadsToClean := []
  processesToClean := []
  ready := []
  sleeping := []
  current := 0
  frames := fun _ => []
  heap := ⟨fun _ => true, 0, fun _ => false⟩
  files := .initial fun _ => none

/-- A thread was created. -/
def oneThread : Tasks := leaves (prepareThread .debug) noTasks

/-- A thread was created and freed, and another one was created. -/
def nextThread : Tasks :=
  leaves (prepareThread .debug) (leaves (freeThread .debug ⟨0, 0⟩) oneThread)

theorem history_oneThread : History .debug oneThread ⟨[(⟨0, 0⟩, 0)], []⟩ := by
  have returned : outcome ((prepareThread .debug).run noTasks) = some (.ok 0) := by
    decide +kernel
  exact .prepareThread (.initial rfl rfl) (by decide +kernel) (run_eq_leaves returned)

/-- The history after one more thread, with the identifier that it gets. -/
theorem History.prepared {issued : Issued} {tid : Tid} (history : History .debug s issued)
    (top : s.threads.pool.head? = some tid.id) (count : s.threadCounter % 2 ^ 48 = tid.count)
    (object : s.threads.next = a)
    (returned : (outcome ((Sched.prepareThread .debug).run s)).isSome = true) :
    History .debug (leaves (Sched.prepareThread .debug) s)
      ⟨(tid, a) :: issued.tids, issued.pids⟩ := by
  obtain ⟨result, returned⟩ := Option.isSome_iff_exists.mp returned
  have created := history.prepareThread top (run_eq_leaves returned)
  rw [count, object] at created
  exact created

theorem history_nextThread : History .debug nextThread ⟨[(⟨0, 1⟩, 1), (⟨0, 0⟩, 0)], []⟩ := by
  have freed : outcome ((freeThread .debug ⟨0, 0⟩).run oneThread) = some (.ok ()) := by
    decide +kernel
  exact .prepared (.freeThread history_oneThread (run_eq_leaves freed)) (by decide +kernel)
    (by decide +kernel) (by decide +kernel) (by decide +kernel)

/-- Two threads were created and the first was freed. -/
def secondThread : Tasks :=
  leaves (freeThread .debug ⟨0, 0⟩) (leaves (prepareThread .debug) oneThread)

/-- The identifier of a freed thread finds nothing while its slot is free. -/
theorem finds_iff_alone_secondThread :
    History .debug secondThread ⟨[(⟨1, 1⟩, 1), (⟨0, 0⟩, 0)], []⟩ ∧
      (secondThread.threads.heap 0).isNone = true ∧ FindsThread .debug secondThread ⟨0, 0⟩ 0 ∧
      FindsThread .debug secondThread ⟨1, 1⟩ 1 := by
  have freed : outcome ((freeThread .debug ⟨0, 0⟩).run (leaves (prepareThread .debug) oneThread)) =
      some (.ok ()) := by decide +kernel
  have both : History .debug (leaves (prepareThread .debug) oneThread)
      ⟨[(⟨1, 1⟩, 1), (⟨0, 0⟩, 0)], []⟩ :=
    .prepared history_oneThread (by decide +kernel) (by decide +kernel) (by decide +kernel)
      (by decide +kernel)
  have history : History .debug secondThread _ := .freeThread both (run_eq_leaves freed)
  have alone : ∀ tid a, (tid, a) ∈ [((⟨1, 1⟩ : Tid), 1), (⟨0, 0⟩, 0)] →
      AloneThread secondThread ⟨[(⟨1, 1⟩, 1), (⟨0, 0⟩, 0)], []⟩ tid a := by
    intro tid a here other b there same _
    simp only [List.mem_cons, Prod.mk.injEq, List.not_mem_nil, or_false] at here there
    rcases here with ⟨rfl, rfl⟩ | ⟨rfl, rfl⟩ <;> rcases there with ⟨rfl, rfl⟩ | ⟨rfl, rfl⟩ <;>
      simp_all
  have finds := fun tid a here => ((finds_iff_alone history).1 tid a here).mpr (alone tid a here)
  exact ⟨history, by decide +kernel, finds _ _ (by decide), finds _ _ (by decide)⟩

/-- The identifier of a freed thread finds the thread that was created after it. -/
theorem not_finds_nextThread :
    History .debug nextThread ⟨[(⟨0, 1⟩, 1), (⟨0, 0⟩, 0)], []⟩ ∧
      (nextThread.threads.heap 0).isNone = true ∧
      outcome ((getThread .debug 0).run nextThread) = some (.ok 1) ∧
      ¬ FindsThread .debug nextThread ⟨0, 0⟩ 0 := by
  have freed : (nextThread.threads.heap 0).isNone = true := by decide +kernel
  have other : outcome ((getThread .debug 0).run nextThread) = some (.ok 1) := by
    decide +kernel
  refine ⟨history_nextThread, freed, other, fun finds => ?_⟩
  have found := finds.1
  rw [Option.isNone_iff_eq_none.mp freed] at found
  rw [found] at other
  exact nomatch other

/-- A task is created, a thread calls or goes on with a call, or nothing is created or freed. -/
inductive Step (build : Build) (s s' : Tasks) : Prop where
  | prepareThread {result : Except Error ℕ}
      (returned : (Sched.prepareThread build).run s = .ok result s')
  | prepareProcess {result : Except Error ℕ}
      (returned : (Sched.prepareProcess build).run s = .ok result s')
  | call {call : Call} {next : ℕ} {result : Outcome} (outside : s.frames s.current = [])
      (returned : (call.run build next).run s = .ok result s')
  | resume {frame : Frame} {rest : List Frame} {next : ℕ} {result : Outcome}
      (inside : s.frames s.current = frame :: rest)
      (returned : (Sched.resume build next frame).run s = .ok result s')
  | other {α : Type} {run : Kernel Tasks α} {value : α} (keeps : KeepsIds run)
      (returned : EStateM.run run s = .ok value s')

def Reached (build : Build) (s : Tasks) : Prop := ∃ issued, History build s issued

namespace Reached

theorem of_sameIds {α : Type} {run : Kernel Tasks α}
    (kept : ∀ before, Preserves (SameIds before) run) : Preserves (Reached build) run :=
  fun _ _ _ ⟨issued, before⟩ returned => ⟨issued, before.other (.of_preserves kept) returned⟩

/-- The ripper keeps what is reached. -/
theorem ripThread : Preserves (Reached build) (ripThread build) := by
  refine Preserves.get.bind fun s => ?_
  cases s.threadsToClean with
  | nil => exact .pure _
  | cons id rest =>
    refine (of_sameIds fun _ => SameIds.modifyState (by rfl) (by rfl)).bind fun _ =>
      (of_sameIds fun _ => SameIds.getThread).bind fun _ =>
      (of_sameIds fun _ => SameIds.expectValue).bind fun _ =>
      (of_sameIds fun _ => SameIds.threadAt).bind fun t =>
      (of_sameIds fun _ => SameIds.ownerOf).bind fun _ => ?_
    have freed : Preserves (Reached build) (freeThread build t.tid) :=
      fun _ _ _ ⟨issued, before⟩ returned => ⟨issued, before.freeThread returned⟩
    exact freed.bind fun _ => of_sameIds fun _ => by grind

theorem cleanProcess {process next : ℕ} :
    Preserves (Reached build) (cleanProcess build process next) := by
  refine (of_sameIds fun _ => SameIds.processAt).bind fun p => .ite ?_ ?_
  · exact of_sameIds fun _ => by grind
  · have freed : Preserves (Reached build) (freeProcess build p.pid) :=
      fun _ _ _ ⟨issued, before⟩ returned => ⟨issued, before.freeProcess returned⟩
    exact freed.bind fun _ => of_sameIds fun _ => by grind

/-- A step keeps what is reached. -/
theorem step (reached : Reached build s) (step : Step build s s') : Reached build s' := by
  obtain ⟨issued, before⟩ := reached
  cases step with
  | prepareThread returned =>
    obtain ⟨idx, _, _, _, _, top, _⟩ := run_prepareThread_eq_ok before.tracked.1.sound returned
    exact ⟨_, before.prepareThread (by rw [top, List.head?_cons]) returned⟩
  | prepareProcess returned =>
    obtain ⟨idx, _, _, _, _, top, _⟩ := run_prepareProcess_eq_ok before.tracked.2.sound returned
    exact ⟨_, before.prepareProcess (by rw [top, List.head?_cons]) returned⟩
  | @call call _ _ _ returned =>
    -- No other call frees a task; the process ripper does once it has waited.
    rcases eq_or_ne call .ripThread with rfl | other
    · exact ripThread _ _ _ ⟨issued, before⟩ returned
    · exact ⟨issued, before.other (keepsIds_call other) returned⟩
  | @resume frame _ _ _ _ returned =>
    by_cases ripper : ∃ process, frame = .cleanProcess process
    · obtain ⟨process, rfl⟩ := ripper
      exact cleanProcess _ _ _ ⟨issued, before⟩ returned
    · exact ⟨issued, before.other (keepsIds_resume (not_exists.mp ripper)) returned⟩
  | other keeps returned => exact ⟨issued, before.other keeps returned⟩

end Reached

/-- Whatever threads and rippers do, a task that exists is found by its identifier. -/
theorem finds_own (threads : s.threads = .initial _ _) (processes : s.processes = .initial _ _)
    (steps : Relation.ReflTransGen (Step build) s s') :
    (∀ a t, s'.threads.heap a = some t → (getThread build t.tid.id).run s' = .ok (.ok a) s') ∧
      ∀ a p, s'.processes.heap a = some p →
        (getProcess build p.pid.id).run s' = .ok (.ok a) s' := by
  have reached : Reached build s' := by
    induction steps with
    | refl => exact ⟨_, .initial threads processes⟩
    | tail _ step ih => exact ih.step step
  obtain ⟨issued, history⟩ := reached
  obtain ⟨tids, pids⟩ := history.tracked
  refine ⟨fun a t here => ?_, fun a p here => ?_⟩
  · rw [run_getThread (tids.origin _ a (tids.known a t here)).1, Tasks.threadOf,
      tids.slot a t here]
    rfl
  · rw [run_getProcess (pids.origin _ a (pids.known a p here)).1, Tasks.processOf,
      pids.slot a p here]
    rfl

/-- The ripper frees one of two threads and a third gets its slot: both are found. -/
theorem finds_own_reusedSlot : ∃ s', Relation.ReflTransGen (Step .debug) noTasks s' ∧
    s'.threads.heap 0 = none ∧ (getThread .debug 1).run s' = .ok (.ok 1) s' ∧
      (getThread .debug 0).run s' = .ok (.ok 2) s' := by
  have evaluated : outcome (EStateM.run (do
      let _ ← prepareProcess .debug
      let _ ← prepareThread .debug
      let _ ← prepareThread .debug
      pushThread .debug 0 0
      let cleaning ← get
      let _ ← ripThread .debug
      let _ ← prepareThread .debug
      let s ← get
      return (cleaning.frames cleaning.current, (s.threads.heap 0).isNone,
        (s.threads.heap 1).map (·.tid.id), (s.threads.heap 2).map (·.tid.id))) noTasks) =
      some ([], true, some 1, some 0) := by decide +kernel
  obtain ⟨_, ran⟩ := eq_ok_of_outcome evaluated
  obtain ⟨_, s₁, ran₁, ran⟩ := run_bind_eq_ok ran
  obtain ⟨_, s₂, ran₂, ran⟩ := run_bind_eq_ok ran
  obtain ⟨_, s₃, ran₃, ran⟩ := run_bind_eq_ok ran
  obtain ⟨_, s₄, ran₄, ran⟩ := run_bind_eq_ok ran
  rw [run_get_bind] at ran
  obtain ⟨_, s₅, ran₅, ran⟩ := run_bind_eq_ok ran
  obtain ⟨_, s', ran₆, ran⟩ := run_bind_eq_ok ran
  rw [run_get_bind] at ran
  have values := (EStateM.Result.ok.inj ran).1
  rw [Prod.mk.injEq, Prod.mk.injEq, Prod.mk.injEq, Option.map_eq_some_iff,
    Option.map_eq_some_iff] at values
  obtain ⟨outside, gone, ⟨first, here, slot⟩, second, there, slot'⟩ := values
  have cleaned : Step .debug s₃ s₄ := .other (.of_preserves fun _ => by grind) ran₄
  have ripped : Step .debug s₄ s₅ := @Step.call _ _ _ .ripThread 0 _ outside ran₅
  have steps : Relation.ReflTransGen (Step .debug) noTasks s' :=
    .tail (.tail (.tail (.tail (.tail (.single (.prepareProcess ran₁)) (.prepareThread ran₂))
      (.prepareThread ran₃)) cleaned) ripped) (.prepareThread ran₆)
  have found := (finds_own rfl rfl steps).1
  have found₁ := found 1 first here
  have found₂ := found 2 second there
  rw [slot] at found₁
  rw [slot'] at found₂
  exact ⟨s', steps, Option.isNone_iff_eq_none.mp gone, found₁, found₂⟩

end AlkOS.Sched
