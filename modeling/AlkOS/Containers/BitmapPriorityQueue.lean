import AlkOS.Containers.BitArray

/-!
# Bitmap priority queues

`data_structures::BitmapPriorityQueue` keeps one list for each priority and a
bitmap that is meant to say which lists have items. `Insert` adds to a list and
never sets a bit, so the bitmap stays clear and no item is ever found.
-/

namespace AlkOS.Containers

open Kernel

/-- `BitmapPriorityQueue<T, kSize>`; the front of a list is its first item. -/
structure BitmapPriorityQueue (T : Type) (kSize : ℕ) where
  bits : BitArray kSize
  queues : ℕ → List T

namespace BitmapPriorityQueue

variable {T : Type} {kSize : ℕ}

/-- The queue as constructed. -/
def initial (T : Type) (kSize : ℕ) : BitmapPriorityQueue T kSize :=
  ⟨BitArray.empty kSize, fun _ => []⟩

/-- Replace a list. -/
def setQueue (queue : BitmapPriorityQueue T kSize) (i : ℕ) (items : List T) :
    BitmapPriorityQueue T kSize :=
  { queue with queues := Function.update queue.queues i items }

/-- Take the first item of a list; its bit is cleared with the last item. -/
def popAt (build : Build) (idx : ℕ) : Kernel (BitmapPriorityQueue T kSize) (Option T) := do
  if kSize ≤ idx then throw (.undefined "queues_[idx]")
  let queue ← get
  set (queue.setQueue idx (queue.queues idx).tail)
  if (queue.queues idx).tail.isEmpty then
    zoom (·.bits) (fun queue bits => { queue with bits := bits }) (BitArray.setFalse build idx)
  return (queue.queues idx).head?

def deleteMin (build : Build) : Kernel (BitmapPriorityQueue T kSize) (Option T) := do
  match (← get).bits.findFirst true with
  | none => return none
  | some idx => popAt build idx

def deleteMax (build : Build) : Kernel (BitmapPriorityQueue T kSize) (Option T) := do
  let idx ← reading fun queue => queue.bits.findLast true
  popAt build idx

def insert (build : Build) (item : T) (priority : ℕ) :
    Kernel (BitmapPriorityQueue T kSize) Unit := do
  guardAccess build (priority < kSize) "priority < kSize"
  modify fun queue => queue.setQueue priority (queue.queues priority ++ [item])

def remove [DecidableEq T] (build : Build) (item : T) (priority : ℕ) :
    Kernel (BitmapPriorityQueue T kSize) Unit := do
  guardAccess build (priority < kSize) "priority < kSize"
  let queue ← get
  guardAccess build (item ∈ queue.queues priority) "Contains(item)"
  set (queue.setQueue priority ((queue.queues priority).erase item))

def isEmpty (queue : BitmapPriorityQueue T kSize) : Bool := queue.bits.isAllFalse

/-- The queued items with their priorities, in order of insertion. -/
abbrev Queued (T : Type) := List (ℕ × T)

/-- The earliest of the items with the smallest priority. -/
def Queued.least (queued : Queued T) : Option (ℕ × T) :=
  queued.find? fun entry => queued.all fun other => entry.1 ≤ other.1

/-- The earliest of the items with the greatest priority. -/
def Queued.greatest (queued : Queued T) : Option (ℕ × T) :=
  queued.find? fun entry => queued.all fun other => other.1 ≤ entry.1

/-- A call. -/
inductive Request (T : Type) where
  | insert (item : T) (priority : ℕ)
  | remove (item : T) (priority : ℕ)
  | deleteMin
  | deleteMax
deriving DecidableEq, Repr

namespace Request

variable [DecidableEq T]

/-- What the code does for a call. -/
def perform (build : Build) : Request T → Kernel (BitmapPriorityQueue T kSize) (Option T)
  | insert item priority => do BitmapPriorityQueue.insert build item priority; return none
  | remove item priority => do BitmapPriorityQueue.remove build item priority; return none
  | deleteMin => BitmapPriorityQueue.deleteMin build
  | deleteMax => BitmapPriorityQueue.deleteMax build

/-- What a stable priority queue answers. -/
def answer (queued : Queued T) : Request T → Option T
  | insert _ _ => none
  | remove _ _ => none
  | deleteMin => queued.least.map Prod.snd
  | deleteMax => queued.greatest.map Prod.snd

/-- What a stable priority queue holds afterwards. -/
def after (queued : Queued T) : Request T → Queued T
  | insert item priority => queued ++ [(priority, item)]
  | remove item priority => queued.erase (priority, item)
  | deleteMin => queued.least.elim queued queued.erase
  | deleteMax => queued.greatest.elim queued queued.erase

/-- A new item is inserted with a priority in range, a queued one is removed. -/
def Permitted (kSize : ℕ) (queued : Queued T) : Request T → Prop
  | insert item priority => priority < kSize ∧ ∀ entry ∈ queued, entry.2 ≠ item
  | remove item priority => (priority, item) ∈ queued
  | deleteMin => True
  | deleteMax => True

instance (queued : Queued T) (request : Request T) :
    Decidable (request.Permitted kSize queued) := by
  cases request with
  | insert item priority => exact inferInstanceAs (Decidable (_ ∧ _))
  | remove item priority => exact inferInstanceAs (Decidable (_ ∈ _))
  | deleteMin => exact inferInstanceAs (Decidable True)
  | deleteMax => exact inferInstanceAs (Decidable True)

/-- The calls for which the bitmap is not needed. -/
def Harmless (request : Request T) : Prop :=
  (∀ item priority, request ≠ insert item priority) ∧ request ≠ deleteMax

end Request

variable [DecidableEq T]

/-- Every call of a sequence is permitted when it is made. -/
def AllPermitted (kSize : ℕ) : Queued T → List (Request T) → Prop
  | _, [] => True
  | queued, request :: requests =>
    request.Permitted kSize queued ∧ AllPermitted kSize (request.after queued) requests

/-- What `DeleteMin` returns after so many other calls of it. -/
def picked (build : Build) : ℕ → BitmapPriorityQueue T kSize → Option T
  | 0, queue => (outcome ((deleteMin build).run queue)).join
  | count + 1, queue =>
    match (deleteMin build).run queue with
    | .ok _ queue' => picked build count queue'
    | .error _ _ => none

/-- The code's queue agrees with a stable priority queue. -/
structure InStep (build : Build) (queue : BitmapPriorityQueue T kSize) (queued : Queued T) :
    Prop where
  bit : ∀ i < kSize, queue.bits.bit i = true ↔ queue.queues i ≠ []
  empty : queue.isEmpty = true ↔ queued = []
  served : ∀ entry ∈ queued, ∃ count, picked build count queue = some entry.2

/-- The code's queue and a stable priority queue agree all along a sequence of calls. -/
def Conforms (build : Build) :
    BitmapPriorityQueue T kSize → Queued T → List (Request T) → Prop
  | queue, queued, [] => InStep build queue queued
  | queue, queued, request :: requests => InStep build queue queued ∧
      ∃ queue', (request.perform build).run queue = .ok (request.answer queued) queue' ∧
        Conforms build queue' (request.after queued) requests

variable {build : Build} {queue : BitmapPriorityQueue T kSize} {queued : Queued T}
  {requests : List (Request T)}

theorem Conforms.inStep (conforms : Conforms build queue queued requests) :
    InStep build queue queued := by
  cases requests with
  | nil => exact conforms
  | cons request requests => exact conforms.1

omit [DecidableEq T] in
theorem inStep_initial : InStep build (initial T kSize) [] where
  bit i inside := by simp [initial]
  empty := by simp [initial, isEmpty]
  served entry member := nomatch member

omit [DecidableEq T] in
theorem run_deleteMin_initial :
    (deleteMin build).run (initial T kSize) = .ok none (initial T kSize) := by
  unfold deleteMin
  rw [run_get_bind]
  simp only [initial, BitArray.findFirst_empty]
  rfl

omit [DecidableEq T] in
theorem run_deleteMax_initial :
    (deleteMax build).run (initial T kSize) =
      .error (.undefined "storage_[-1]") (initial T kSize) := by
  apply run_bind_of_error
  simp only [reading, EStateM.run, initial, BitArray.findLast_empty]

omit [DecidableEq T] in
theorem run_insert {item : T} {priority : ℕ} (inside : priority < kSize) :
    (insert build item priority).run queue =
      .ok () (queue.setQueue priority (queue.queues priority ++ [item])) := by
  unfold insert
  rw [run_bind (run_guardAccess inside)]
  rfl

omit [DecidableEq T] in
/-- An inserted item leaves the bitmap clear. -/
theorem not_inStep_of_inserted {item : T} {priority : ℕ} (inside : priority < kSize) :
    ¬ InStep build ((initial T kSize).setQueue priority [item]) queued := by
  intro agrees
  have found := (agrees.bit priority inside).mpr (by simp [setQueue])
  simp [initial, setQueue] at found

/-- The queue is a stable priority queue exactly for calls that neither insert nor ask for the
greatest priority. -/
theorem conforms_iff (permitted : AllPermitted kSize [] requests) :
    Conforms build (initial T kSize) [] requests ↔ ∀ request ∈ requests, request.Harmless := by
  induction requests with
  | nil => exact iff_of_true inStep_initial nofun
  | cons request requests ih =>
    rw [List.forall_mem_cons]
    cases request with
    | insert item priority =>
      refine iff_of_false ?_ fun harmless => harmless.1.1 item priority rfl
      intro ⟨_, queue', returned, conforms⟩
      unfold Request.perform at returned
      rw [run_bind (run_insert permitted.1.1)] at returned
      cases returned
      exact not_inStep_of_inserted permitted.1.1 conforms.inStep
    | remove item priority => exact nomatch permitted.1
    | deleteMin =>
      have rest := ih permitted.2
      constructor
      · intro ⟨_, queue', returned, conforms⟩
        have same := returned.symm.trans run_deleteMin_initial
        cases same
        exact ⟨⟨nofun, nofun⟩, rest.mp conforms⟩
      · intro ⟨_, harmless⟩
        exact ⟨inStep_initial, _, run_deleteMin_initial, rest.mpr harmless⟩
    | deleteMax =>
      refine iff_of_false ?_ fun harmless => harmless.1.2 rfl
      intro ⟨_, queue', returned, _⟩
      cases returned.symm.trans run_deleteMax_initial

/-- A sequence for which the queue does what it should. -/
theorem conforms_of_deletions :
    AllPermitted 64 [] [Request.deleteMin (T := ℕ), .deleteMin] ∧
      Conforms .debug (initial ℕ 64) [] [.deleteMin, .deleteMin] :=
  have permitted : AllPermitted 64 [] [Request.deleteMin (T := ℕ), .deleteMin] :=
    ⟨trivial, trivial, trivial⟩
  ⟨permitted, (conforms_iff permitted).mpr (by simp [Request.Harmless])⟩

/-- A thread is inserted with priority 3, and the queue says it is empty. -/
theorem not_conforms_of_insertion :
    AllPermitted 64 [] [Request.insert 7 3, .deleteMin] ∧
      outcome (EStateM.run (do
        insert .debug 7 3
        deleteMin .debug) (initial ℕ 64)) = some none ∧
      ¬ Conforms .debug (initial ℕ 64) [] [.insert 7 3, .deleteMin] := by
  refine ⟨⟨by decide, trivial, trivial⟩, by decide +kernel, ?_⟩
  intro ⟨_, queue', returned, conforms⟩
  cases returned
  exact not_inStep_of_inserted (by decide) conforms.inStep

end BitmapPriorityQueue

end AlkOS.Containers
