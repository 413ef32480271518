import AlkOS.Sched.TaskMgr

/-!
# Accesses that returned

What is known of the state when an access to an object, an assertion or a request
for memory has returned.
-/

namespace AlkOS

open Function

namespace Kernel

variable {σ : Type} {condition : Prop} [Decidable condition] {message : String} {build : Build}
  {s s' : σ} {done : Unit} {inv : σ → Prop} {held : Option ℕ} {change : Thread → Thread}
  {found : Except Error ℕ} {first : Kernel Tasks α} {result : Except Error ℕ}

theorem run_assertTrue_eq_ok (returned : (assertTrue build condition message).run s = .ok done s') :
    s' = s := by
  have kept : Preserves (· = s) (assertTrue build condition message) := Preserves.assertTrue
  exact kept s done s' rfl returned

theorem run_rAssertTrue_eq_ok (returned : (rAssertTrue condition message).run s = .ok done s') :
    condition ∧ s' = s := by
  by_cases holds : condition
  · rw [run_rAssertTrue holds] at returned
    cases returned
    exact ⟨holds, rfl⟩
  · rw [run_rAssertTrue_of_not holds] at returned
    exact nomatch returned

@[grind ←]
theorem Preserves.rAssertTrue : Preserves inv (rAssertTrue condition message) :=
  .of_eq fun _ _ _ returned => (run_rAssertTrue_eq_ok returned).2

@[grind ←]
theorem Preserves.throw {α : Type} (panic : Panic) :
    Preserves inv (MonadExcept.throw panic : Kernel σ α) :=
  fun _ _ _ _ returned => nomatch returned

theorem run_guardAccess_eq_ok
    (returned : (guardAccess build condition message).run s = .ok done s') :
    condition ∧ s' = s := by
  have holds : condition := of_run_guardAccess returned
  rw [run_guardAccess holds] at returned
  cases returned
  exact ⟨holds, rfl⟩

end Kernel

namespace Containers.PooledHashMap

open Kernel

variable {T : Type} {kSize : ℕ} {table table' : PooledHashMap T kSize} {build : Build} {idx a : ℕ}

theorem run_get_eq_ok (returned : (get build idx).run table = .ok held table') :
    idx < kSize ∧ held = table.map idx ∧ table' = table := by
  obtain ⟨_, middle, guarded, looked⟩ := run_bind_eq_ok returned
  obtain ⟨inside, rfl⟩ := run_guardAccess_eq_ok guarded
  cases looked
  exact ⟨inside, rfl, rfl⟩

/-- `Allocate` takes the top of the stack, if any. -/
theorem run_allocate_eq_ok [Inhabited T] {taken : Option ℕ}
    (returned : EStateM.run allocate table = .ok taken table') :
    (table.pool = [] ∧ taken = none ∧ table' = table) ∨
      ∃ idx rest, table.pool = idx :: rest ∧ taken = some idx ∧ table' = table.taken idx rest := by
  cases free : table.pool with
  | nil =>
    rw [run_allocate_nil free] at returned
    cases returned
    exact .inl ⟨rfl, rfl, rfl⟩
  | cons idx rest =>
    rw [run_allocate free] at returned
    cases returned
    exact .inr ⟨idx, rest, rfl, rfl, rfl⟩

theorem put_put (table : PooledHashMap T kSize) (a : ℕ) (value value' : T) :
    (table.put a value).put a value' = table.put a value' := by
  unfold put
  rw [update_idem]

theorem put_self {value : T} (known : table.heap a = some value) : table.put a value = table := by
  unfold put
  rw [← known, update_eq_self]

theorem run_free_of_le (outside : kSize ≤ idx)
    (returned : (free build idx).run table = .ok done table') : False := by
  obtain ⟨_, _, guarded, _⟩ := run_bind_eq_ok returned
  have inside := (run_guardAccess_eq_ok guarded).1
  omega

end Containers.PooledHashMap

namespace Sched

open Kernel Containers

variable {α : Type} {build : Build} {s s' : Tasks} {a id : ℕ}

theorem run_threadAt_eq_ok {t : Thread} (returned : (threadAt a).run s = .ok t s') :
    s.threads.heap a = some t ∧ s' = s := by
  obtain ⟨inner, read, rfl⟩ := run_zoom_eq_ok returned
  obtain ⟨known, rfl⟩ := PooledHashMap.run_deref_eq_ok read
  exact ⟨known, rfl⟩

theorem run_processAt_eq_ok {p : Process} (returned : (processAt a).run s = .ok p s') :
    s.processes.heap a = some p ∧ s' = s := by
  obtain ⟨inner, read, rfl⟩ := run_zoom_eq_ok returned
  obtain ⟨known, rfl⟩ := PooledHashMap.run_deref_eq_ok read
  exact ⟨known, rfl⟩

/-- Overwrite a thread. -/
def Tasks.putThread (s : Tasks) (a : ℕ) (t : Thread) : Tasks :=
  { s with threads := s.threads.put a t }

/-- Overwrite a process. -/
def Tasks.putProcess (s : Tasks) (a : ℕ) (p : Process) : Tasks :=
  { s with processes := s.processes.put a p }

theorem run_updateThread_eq_ok (returned : (updateThread a change).run s = .ok done s') :
    ∃ t, s.threads.heap a = some t ∧ s' = s.putThread a (change t) := by
  obtain ⟨inner, written, rfl⟩ := run_zoom_eq_ok returned
  obtain ⟨t, known, rfl⟩ := PooledHashMap.run_update_eq_ok written
  exact ⟨t, known, rfl⟩

theorem run_updateProcess_eq_ok {change : Process → Process}
    (returned : (updateProcess a change).run s = .ok done s') :
    ∃ p, s.processes.heap a = some p ∧ s' = s.putProcess a (change p) := by
  obtain ⟨inner, written, rfl⟩ := run_zoom_eq_ok returned
  obtain ⟨p, known, rfl⟩ := PooledHashMap.run_update_eq_ok written
  exact ⟨p, known, rfl⟩

theorem run_expectValue_eq_ok {σ : Type} {s s' : σ} {message : String} {held : Option α} {value : α}
    (returned : (expectValue build message held).run s = .ok value s') :
    held = some value ∧ s' = s := by
  cases held with
  | some known =>
    cases returned
    exact ⟨rfl, rfl⟩
  | none =>
    cases build with
    | debug => exact nomatch returned
    | release => exact nomatch returned

theorem run_threadSlot_eq_ok
    (returned : (onThreads (PooledHashMap.get build id)).run s = .ok held s') :
    (id < kMaxThreads ∧ held = s.threads.map id) ∧ s' = s := by
  obtain ⟨inner, looked, rfl⟩ := run_zoom_eq_ok returned
  obtain ⟨inside, same, rfl⟩ := PooledHashMap.run_get_eq_ok looked
  exact ⟨⟨inside, same⟩, rfl⟩

theorem run_processSlot_eq_ok
    (returned : (onProcesses (PooledHashMap.get build id)).run s = .ok held s') :
    (id < Fs.kMaxProcesses ∧ held = s.processes.map id) ∧ s' = s := by
  obtain ⟨inner, looked, rfl⟩ := run_zoom_eq_ok returned
  obtain ⟨inside, same, rfl⟩ := PooledHashMap.run_get_eq_ok looked
  exact ⟨⟨inside, same⟩, rfl⟩

/-- What `GetThread` answers. -/
def Tasks.threadOf (s : Tasks) (id : ℕ) : Except Error ℕ :=
  (s.threads.map id).elim (.error .threadNotFound) .ok

/-- What `GetProcess` answers. -/
def Tasks.processOf (s : Tasks) (id : ℕ) : Except Error ℕ :=
  (s.processes.map id).elim (.error .processNotFound) .ok

theorem run_getThread (inside : id < kMaxThreads) :
    (getThread build id).run s = .ok (s.threadOf id) s := by
  have looked : (onThreads (PooledHashMap.get build id)).run s =
      .ok (s.threads.map id) s := run_zoom_of_ok (PooledHashMap.run_get inside)
  refine (run_bind looked).trans ?_
  unfold Tasks.threadOf
  cases s.threads.map id <;> rfl

theorem run_getProcess (inside : id < Fs.kMaxProcesses) :
    (getProcess build id).run s = .ok (s.processOf id) s := by
  have looked : (onProcesses (PooledHashMap.get build id)).run s =
      .ok (s.processes.map id) s := run_zoom_of_ok (PooledHashMap.run_get inside)
  refine (run_bind looked).trans ?_
  unfold Tasks.processOf
  cases s.processes.map id <;> rfl

theorem run_getThread_eq_ok (returned : (getThread build id).run s = .ok found s') :
    id < kMaxThreads ∧ found = s.threadOf id ∧ s' = s := by
  obtain ⟨_, _, looked, _⟩ := run_bind_eq_ok returned
  have inside := (run_threadSlot_eq_ok looked).1.1
  rw [run_getThread inside] at returned
  cases returned
  exact ⟨inside, rfl, rfl⟩

theorem run_getProcess_eq_ok (returned : (getProcess build id).run s = .ok found s') :
    id < Fs.kMaxProcesses ∧ found = s.processOf id ∧ s' = s := by
  obtain ⟨_, _, looked, _⟩ := run_bind_eq_ok returned
  have inside := (run_processSlot_eq_ok looked).1.1
  rw [run_getProcess inside] at returned
  cases returned
  exact ⟨inside, rfl, rfl⟩

/-- The state but for the memory. -/
def Tasks.withMemory (s : Tasks) (heap : Heap) (files : Fs.FdManager) : Tasks :=
  { s with heap := heap, files := files }

/-- A computation that changes nothing but the memory. -/
def KeepsTasks (run : Kernel Tasks α) : Prop :=
  ∀ s value s', EStateM.run run s = .ok value s' → ∃ heap files, s' = s.withMemory heap files

namespace KeepsTasks

theorem bind {β : Type} {rest : α → Kernel Tasks β} (left : KeepsTasks first)
    (right : ∀ value, KeepsTasks (rest value)) :
    KeepsTasks (first >>= rest) := by
  intro s value s' returned
  obtain ⟨middle, state, ran, continued⟩ := run_bind_eq_ok returned
  obtain ⟨heap, files, rfl⟩ := left s middle state ran
  obtain ⟨heap', files', rfl⟩ := right middle _ value s' continued
  exact ⟨heap', files', rfl⟩

theorem of_eq {run : Kernel Tasks α}
    (same : ∀ s value s', EStateM.run run s = .ok value s' → s' = s) : KeepsTasks run :=
  fun s value s' returned => ⟨s.heap, s.files, same s value s' returned⟩

theorem pure (value : α) : KeepsTasks (pure value) :=
  of_eq fun _ _ _ returned => by cases returned; rfl

theorem get : KeepsTasks (get : Kernel Tasks Tasks) :=
  of_eq fun _ _ _ returned => by cases returned; rfl

theorem attempt : KeepsTasks attempt := by
  intro s value s' returned
  cases returned
  exact ⟨_, _, rfl⟩

theorem objectMemory (pool : List ℕ) : KeepsTasks (objectMemory pool) := by
  unfold Sched.objectMemory
  by_cases full : pool = []
  · rw [if_pos full]
    exact pure ()
  · rw [if_neg full]
    exact bind attempt fun success =>
      of_eq fun _ _ _ returned => (run_rAssertTrue_eq_ok returned).2

theorem kMalloc : KeepsTasks kMalloc := by
  refine bind get fun state => bind attempt fun success => ?_
  cases success with
  | true =>
    intro s value s' returned
    cases returned
    exact ⟨_, _, rfl⟩
  | false => exact pure none

theorem kFree (block : ℕ) : KeepsTasks (kFree block) := by
  intro s value s' returned
  obtain ⟨_, middle, looked, freed⟩ := run_bind_eq_ok returned
  cases looked
  cases known : s.heap.live block with
  | true =>
    rw [known] at freed
    cases freed
    exact ⟨_, _, rfl⟩
  | false =>
    rw [known] at freed
    exact nomatch freed

theorem onFiles (run : Kernel Fs.FdManager α) : KeepsTasks (onFiles run) := by
  intro s value s' returned
  obtain ⟨inner, _, rfl⟩ := run_zoom_eq_ok returned
  exact ⟨s.heap, inner, rfl⟩

theorem destroyUserAddrSpace (space : AddressSpace) : KeepsTasks (destroyUserAddrSpace space) := by
  cases space with
  | null => exact fun _ _ _ returned => nomatch returned
  | kernel => exact fun _ _ _ returned => nomatch returned
  | user block => exact kFree block

theorem expectValue {message : String} {held : Option α} :
    KeepsTasks (expectValue build message held) :=
  of_eq fun _ _ _ returned => (run_expectValue_eq_ok returned).2

theorem guardAccess {condition : Prop} [Decidable condition] {message : String} :
    KeepsTasks (guardAccess build condition message) :=
  of_eq fun _ _ _ returned => (run_guardAccess_eq_ok returned).2

theorem processAt (a : ℕ) : KeepsTasks (processAt a) :=
  of_eq fun _ _ _ returned => (run_processAt_eq_ok returned).2

theorem cleanupProcess (a : ℕ) : KeepsTasks (cleanupProcess build a) :=
  bind (processAt a) fun _ => bind expectValue fun _ => bind (onFiles _) fun _ =>
    bind (kFree _) fun _ => bind expectValue fun _ => bind guardAccess fun _ =>
      bind (kFree _) fun _ => destroyUserAddrSpace _

end KeepsTasks

section Rest

variable {β : Type} {rest : α → Kernel Tasks β} {next : Unit → Kernel Tasks β} {value : β}
  {message : String} {condition : Prop} [Decidable condition]

theorem of_get {rest : Tasks → Kernel Tasks β}
    (returned : (get >>= rest).run s = .ok value s') :
    (rest s).run s = .ok value s' := returned

/-- A computation that only looks at the state. -/
theorem of_looks {P : α → Prop} (looks : ∀ {got s'}, first.run s = .ok got s' → P got ∧ s' = s)
    (returned : (first >>= rest).run s = .ok value s') :
    ∃ got, P got ∧ (rest got).run s = .ok value s' := by
  obtain ⟨got, _, ran, others⟩ := run_bind_eq_ok returned
  obtain ⟨known, same⟩ := looks ran
  rw [same] at others
  exact ⟨got, known, others⟩

theorem of_assertTrue
    (returned : (assertTrue build condition message >>= next).run s = .ok value s') :
    (next ()).run s = .ok value s' := by
  obtain ⟨_, _, ran, others⟩ := run_bind_eq_ok returned
  rwa [run_assertTrue_eq_ok ran] at others

theorem of_updateThread (returned : (updateThread a change >>= next).run s = .ok value s') :
    ∃ t, s.threads.heap a = some t ∧
      (next ()).run (s.putThread a (change t)) = .ok value s' := by
  obtain ⟨_, _, ran, others⟩ := run_bind_eq_ok returned
  obtain ⟨t, known, same⟩ := run_updateThread_eq_ok ran
  rw [same] at others
  exact ⟨t, known, others⟩

theorem of_updateProcess {change : Process → Process}
    (returned : (updateProcess a change >>= next).run s = .ok value s') :
    ∃ p, s.processes.heap a = some p ∧
      (next ()).run (s.putProcess a (change p)) = .ok value s' := by
  obtain ⟨_, _, ran, others⟩ := run_bind_eq_ok returned
  obtain ⟨p, known, same⟩ := run_updateProcess_eq_ok ran
  rw [same] at others
  exact ⟨p, known, others⟩

/-- A thread gets the next identifier. -/
theorem of_assignNewTid {rest : Tid → Kernel Tasks β}
    (returned : (assignNewTid id >>= rest).run s = .ok value s') :
    (rest ⟨id, s.threadCounter % 2 ^ 48⟩).run
      { s with threadCounter := (s.threadCounter + 1) % 2 ^ 64 } = .ok value s' := returned

/-- A process gets the next identifier. -/
theorem of_assignNewPid {rest : Pid → Kernel Tasks β}
    (returned : (assignNewPid id >>= rest).run s = .ok value s') :
    (rest ⟨id, s.processCounter % 2 ^ 48⟩).run
      { s with processCounter := (s.processCounter + 1) % 2 ^ 64 } = .ok value s' := returned

/-- A computation that begins with a run on a component. -/
theorem of_zoom {τ γ : Type} {view : Tasks → τ} {put : Tasks → τ → Tasks} {run : Kernel τ γ}
    {got : γ} {inner : τ} {rest : γ → Kernel Tasks β}
    (returned : (zoom view put run >>= rest).run s = .ok value s')
    (ran : EStateM.run run (view s) = .ok got inner) :
    (rest got).run (put s inner) = .ok value s' := by
  rwa [run_bind (run_zoom_of_ok ran)] at returned

theorem KeepsTasks.of_bind (keeps : KeepsTasks first)
    (returned : (first >>= rest).run s = .ok value s') :
    ∃ got heap files, (rest got).run (s.withMemory heap files) = .ok value s' := by
  obtain ⟨got, _, ran, others⟩ := run_bind_eq_ok returned
  obtain ⟨heap, files, same⟩ := keeps s got _ ran
  rw [same] at others
  exact ⟨got, heap, files, others⟩

end Rest

/-- `Threads::Free`. -/
theorem run_freeThread_eq_ok {tid : Tid} {result : Except Error Unit}
    (sound : s.threads.Sound)
    (returned : (freeThread build tid).run s = .ok result s') :
    (s.threads.map tid.id = none ∧ result = .error .threadNotFound ∧ s' = s) ∨
      ∃ a t heap files, s.threads.map tid.id = some a ∧ s.threads.heap a = some t ∧
        t.waiting = [] ∧ result = .ok () ∧
        s' = { s.withMemory heap files with threads := s.threads.released tid.id a } := by
  obtain ⟨_, ⟨_, rfl⟩, others⟩ := of_looks run_threadSlot_eq_ok returned
  cases found : s.threads.map tid.id with
  | none =>
    rw [found] at others
    cases others
    exact .inl ⟨rfl, rfl, rfl⟩
  | some a =>
    rw [found] at others
    obtain ⟨t, known, others⟩ := of_looks run_threadAt_eq_ok others
    obtain ⟨queue, _, others⟩ := of_looks run_expectValue_eq_ok others
    obtain ⟨_, empty, others⟩ := of_looks run_guardAccess_eq_ok others
    obtain ⟨_, heap, files, others⟩ := (KeepsTasks.kFree queue).of_bind others
    cases of_zoom others (sound.run_free found)
    exact .inr ⟨a, t, heap, files, rfl, known, empty, rfl, rfl⟩

/-- `Processes::Free`. -/
theorem run_freeProcess_eq_ok {pid : Pid} {result : Except Error Unit}
    (sound : s.processes.Sound)
    (returned : (freeProcess build pid).run s = .ok result s') :
    (s.processes.map pid.id = none ∧ result = .error .processNotFound ∧ s' = s) ∨
      ∃ a heap files, s.processes.map pid.id = some a ∧ result = .ok () ∧
        s' = { s.withMemory heap files with processes := s.processes.released pid.id a } := by
  obtain ⟨_, ⟨_, rfl⟩, others⟩ := of_looks run_processSlot_eq_ok returned
  cases found : s.processes.map pid.id with
  | none =>
    rw [found] at others
    cases others
    exact .inl ⟨rfl, rfl, rfl⟩
  | some a =>
    rw [found] at others
    obtain ⟨_, heap, files, others⟩ := (KeepsTasks.cleanupProcess a).of_bind others
    cases of_zoom others (sound.run_free found)
    exact .inr ⟨a, heap, files, rfl, rfl, rfl⟩

/-- The thread that `PrepareThread` made, or made and freed again. -/
theorem run_prepareThread_eq_ok (sound : s.threads.Sound)
    (returned : (prepareThread build).run s = .ok result s') :
    ∃ idx rest heap files t, s.threads.pool = idx :: rest ∧
      t.tid = ⟨idx, s.threadCounter % 2 ^ 48⟩ ∧
      ((result = .error .outOfMemory ∧
        s' = { s.withMemory heap files with
          threads := (s.threads.add idx rest t).released idx s.threads.next
          threadCounter := (s.threadCounter + 1) % 2 ^ 64 }) ∨
      (result = .ok s.threads.next ∧
        s' = { s.withMemory heap files with
          threads := s.threads.add idx rest t
          threadCounter := (s.threadCounter + 1) % 2 ^ 64 })) := by
  obtain ⟨_, heap, files, returned⟩ := (KeepsTasks.objectMemory _).of_bind (of_get returned)
  obtain ⟨got, middle, allocated, returned⟩ := run_bind_eq_ok returned
  obtain ⟨table, taken, rfl⟩ := run_zoom_eq_ok allocated
  rcases PooledHashMap.run_allocate_eq_ok taken with ⟨_, rfl, rfl⟩ | ⟨idx, rest, top, rfl, rfl⟩
  · obtain ⟨_, _, freed, _⟩ := run_bind_eq_ok returned
    obtain ⟨_, freed, _⟩ := run_zoom_eq_ok freed
    exact absurd freed fun freed => PooledHashMap.run_free_of_le (by decide) freed
  · obtain ⟨_, ⟨_, rfl⟩, returned⟩ := of_looks run_threadSlot_eq_ok returned
    obtain ⟨thread, found, returned⟩ := of_looks run_expectValue_eq_ok returned
    have slot : (s.threads.taken idx rest).map idx = some s.threads.next :=
      update_self _ _ _
    have same : thread = s.threads.next := Option.some.inj (found.symm.trans slot)
    subst same
    have returned := of_assignNewTid (of_assertTrue returned)
    obtain ⟨t, _, returned⟩ := of_updateThread returned
    obtain ⟨got, heap, files, returned⟩ := KeepsTasks.kMalloc.of_bind returned
    cases got with
    | none =>
      have sound' : (s.threads.add idx rest
          { t with tid := ⟨idx, s.threadCounter % 2 ^ 48⟩ }).Sound :=
        (sound.taken top).put (by simp [PooledHashMap.taken])
      cases of_zoom returned (sound'.run_free slot)
      exact ⟨idx, rest, heap, files, _, top, rfl, .inl ⟨rfl, rfl⟩⟩
    | some waitQueue =>
      obtain ⟨t', known, returned⟩ := of_updateThread returned
      have same : t' = { t with tid := ⟨idx, s.threadCounter % 2 ^ 48⟩ } :=
        Option.some.inj (known.symm.trans (update_self _ _ _))
      subst same
      cases returned
      refine ⟨idx, rest, heap, files,
        { t with tid := ⟨idx, s.threadCounter % 2 ^ 48⟩, waitQueue := some waitQueue }, top, rfl,
        .inr ⟨rfl, ?_⟩⟩
      unfold Tasks.putThread Tasks.withMemory PooledHashMap.add
      rw [PooledHashMap.put_put]

/-- The descriptor table of a new process, which is freed again if there is none. -/
theorem run_prepareFdTable_eq_ok {idx waitQueue : ℕ} {p : Process} (sound : s.processes.Sound)
    (slot : s.processes.map idx = some a) (here : s.processes.heap a = some p)
    (returned : (prepareFdTable build idx a waitQueue).run s = .ok result s') :
    ∃ heap files p', p'.pid = p.pid ∧
      ((result = .error .outOfMemory ∧
        s' = { s.withMemory heap files with
          processes := (s.processes.put a p').released idx a }) ∨
      (result = .ok a ∧
        s' = { s.withMemory heap files with processes := s.processes.put a p' })) := by
  have sound' : ∀ p, (s.processes.put a p).Sound := fun p =>
    sound.put (here ▸ Option.some_ne_none _)
  obtain ⟨got, heap, files, returned⟩ := KeepsTasks.kMalloc.of_bind returned
  cases got with
  | none =>
    obtain ⟨_, heap, files, returned⟩ := (KeepsTasks.kFree _).of_bind returned
    cases of_zoom returned (sound.run_free slot)
    refine ⟨heap, files, p, rfl, .inl ⟨rfl, ?_⟩⟩
    rw [PooledHashMap.put_self here]
    rfl
  | some fdTable =>
    obtain ⟨p', known, returned⟩ := of_updateProcess returned
    have same : p' = p := Option.some.inj (known.symm.trans here)
    subst same
    obtain ⟨opened, heap, files, returned⟩ := (KeepsTasks.onFiles _).of_bind returned
    cases opened with
    | true =>
      cases returned
      exact ⟨heap, files, { p' with fdTable := some fdTable }, rfl, .inr ⟨rfl, rfl⟩⟩
    | false =>
      obtain ⟨_, heap, files, returned⟩ := (KeepsTasks.kFree _).of_bind returned
      obtain ⟨_, heap, files, returned⟩ := (KeepsTasks.kFree _).of_bind returned
      cases of_zoom returned ((sound' _).run_free slot)
      exact ⟨heap, files, { p' with fdTable := some fdTable }, rfl, .inl ⟨rfl, rfl⟩⟩

/-- The process that `PrepareProcess` made, or made and freed again. -/
theorem run_prepareProcess_eq_ok (sound : s.processes.Sound)
    (returned : (prepareProcess build).run s = .ok result s') :
    ∃ idx rest heap files p, s.processes.pool = idx :: rest ∧
      p.pid = ⟨idx, s.processCounter % 2 ^ 48⟩ ∧
      ((result = .error .outOfMemory ∧
        s' = { s.withMemory heap files with
          processes := (s.processes.add idx rest p).released idx s.processes.next
          processCounter := (s.processCounter + 1) % 2 ^ 64 }) ∨
      (result = .ok s.processes.next ∧
        s' = { s.withMemory heap files with
          processes := s.processes.add idx rest p
          processCounter := (s.processCounter + 1) % 2 ^ 64 })) := by
  obtain ⟨_, heap, files, returned⟩ := (KeepsTasks.objectMemory _).of_bind (of_get returned)
  obtain ⟨got, middle, allocated, returned⟩ := run_bind_eq_ok returned
  obtain ⟨table, taken, rfl⟩ := run_zoom_eq_ok allocated
  rcases PooledHashMap.run_allocate_eq_ok taken with ⟨_, rfl, rfl⟩ | ⟨idx, rest, top, rfl, rfl⟩
  · obtain ⟨_, _, freed, _⟩ := run_bind_eq_ok returned
    obtain ⟨_, freed, _⟩ := run_zoom_eq_ok freed
    exact absurd freed fun freed => PooledHashMap.run_free_of_le (by decide) freed
  · obtain ⟨_, ⟨_, rfl⟩, returned⟩ := of_looks run_processSlot_eq_ok returned
    obtain ⟨process, found, returned⟩ := of_looks run_expectValue_eq_ok returned
    have slot : (s.processes.taken idx rest).map idx = some s.processes.next :=
      update_self _ _ _
    have same : process = s.processes.next := Option.some.inj (found.symm.trans slot)
    subst same
    have returned := of_assignNewPid (of_assertTrue returned)
    obtain ⟨p, _, returned⟩ := of_updateProcess returned
    have sound' : ∀ p, (s.processes.add idx rest p).Sound := fun p =>
      (sound.taken top).put (by simp [PooledHashMap.taken])
    obtain ⟨got, heap, files, returned⟩ := KeepsTasks.kMalloc.of_bind returned
    cases got with
    | none =>
      cases of_zoom returned ((sound' _).run_free slot)
      exact ⟨idx, rest, heap, files, _, top, rfl, .inl ⟨rfl, rfl⟩⟩
    | some waitQueue =>
      obtain ⟨p', known, returned⟩ := of_updateProcess returned
      have same : p' = { p with pid := ⟨idx, s.processCounter % 2 ^ 48⟩ } :=
        Option.some.inj (known.symm.trans (update_self _ _ _))
      subst same
      have held : (s.processes.add idx rest
          { p with pid := ⟨idx, s.processCounter % 2 ^ 48⟩ }).heap s.processes.next ≠ none := by
        rw [PooledHashMap.heap_add, update_self]
        exact Option.some_ne_none _
      obtain ⟨heap, files, q, own, cases⟩ :=
        run_prepareFdTable_eq_ok ((sound' _).put held) slot (update_self _ _ _) returned
      refine ⟨idx, rest, heap, files, q, top, own, ?_⟩
      unfold PooledHashMap.add
      rcases cases with ⟨failed, rfl⟩ | ⟨made, rfl⟩
      · refine .inl ⟨failed, ?_⟩
        simp only [Tasks.putProcess, Tasks.withMemory, PooledHashMap.put_put]
      · refine .inr ⟨made, ?_⟩
        simp only [Tasks.putProcess, Tasks.withMemory, PooledHashMap.put_put]

end Sched

end AlkOS
