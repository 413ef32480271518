import AlkOS.Kernel.Basic

/-!
# Pooled maps

`data_structures::PooledHashMap`: objects reached through a fixed number of slots, with
a stack of free slots. Objects are named by the order of their creation, so that an
access to a freed object is seen as such.
-/

namespace AlkOS.Containers

open Kernel

/-- `PooledHashMap<T, kSize>`: the slots, the stack of free slots, the objects, and the next name.
-/
structure PooledHashMap (T : Type) (kSize : ℕ) where
  map : ℕ → Option ℕ
  pool : List ℕ
  heap : ℕ → Option T
  next : ℕ

namespace PooledHashMap

variable {T : Type} {kSize : ℕ} {table : PooledHashMap T kSize} {build : Build}
  {idx i j a b : ℕ} {value : T} {rest : List ℕ} {table' : PooledHashMap T kSize}

/-- The map as constructed: slots come off the stack in ascending order. -/
def initial (T : Type) (kSize : ℕ) : PooledHashMap T kSize :=
  ⟨fun _ => none, List.range kSize, fun _ => none, 0⟩

def get (build : Build) (idx : ℕ) : Kernel (PooledHashMap T kSize) (Option ℕ) := do
  guardAccess build (idx < kSize) "idx < kSize"
  return (← MonadState.get).map idx

/-- `Allocate` when the heap has memory for the object; nothing stands for the
greatest `size_t`. -/
def allocate [Inhabited T] : Kernel (PooledHashMap T kSize) (Option ℕ) := do
  let table ← MonadState.get
  match table.pool with
  | [] => return none
  | idx :: rest =>
    set { map := Function.update table.map idx (some table.next)
          pool := rest
          heap := Function.update table.heap table.next (some default)
          next := table.next + 1 : PooledHashMap T kSize }
    return some idx

def free (build : Build) (idx : ℕ) : Kernel (PooledHashMap T kSize) Unit := do
  guardAccess build (idx < kSize) "idx < kSize"
  let table ← MonadState.get
  assertTrue build (table.map idx ≠ none) "Get(idx)"
  guardAccess build (table.pool.length < kSize) "Stack overflow!"
  set { table with
    map := Function.update table.map idx none
    pool := idx :: table.pool
    heap := (table.map idx).elim table.heap fun a =>
      Function.update table.heap a none : PooledHashMap T kSize }

/-- Read an object. -/
def deref (a : ℕ) : Kernel (PooledHashMap T kSize) T := do
  match (← MonadState.get).heap a with
  | some value => return value
  | none => throw (.undefined "access to a freed object")

/-- Overwrite an object. -/
def put (table : PooledHashMap T kSize) (a : ℕ) (value : T) : PooledHashMap T kSize :=
  { table with heap := Function.update table.heap a (some value) }

/-- Change an object. -/
def update (a : ℕ) (change : T → T) : Kernel (PooledHashMap T kSize) Unit := do
  let value ← deref a
  modify fun table => table.put a (change value)

/-- The slots on the stack are the free ones, and each object is in one slot. -/
structure Sound (table : PooledHashMap T kSize) : Prop where
  nodup : table.pool.Nodup
  mem_pool : ∀ i, i ∈ table.pool ↔ i < kSize ∧ table.map i = none
  inside : ∀ i a, table.map i = some a → i < kSize ∧ table.heap a ≠ none
  slot : ∀ a, table.heap a ≠ none → ∃ i, table.map i = some a
  unique : ∀ i j a, table.map i = some a → table.map j = some a → i = j
  fresh : ∀ a, table.heap a ≠ none → a < table.next

theorem sound_initial (T : Type) (kSize : ℕ) : (initial T kSize).Sound where
  nodup := List.nodup_range
  mem_pool i := by simp [initial]
  inside i a held := nomatch held
  slot a held := absurd rfl held
  unique i j a held := nomatch held
  fresh a held := absurd rfl held

/-- The map after a slot was taken. -/
def taken [Inhabited T] (table : PooledHashMap T kSize) (idx : ℕ) (rest : List ℕ) :
    PooledHashMap T kSize where
  map := Function.update table.map idx (some table.next)
  pool := rest
  heap := Function.update table.heap table.next (some default)
  next := table.next + 1

/-- The map after the object of a slot was freed. -/
def released (table : PooledHashMap T kSize) (idx a : ℕ) : PooledHashMap T kSize :=
  { table with
    map := Function.update table.map idx none
    pool := idx :: table.pool
    heap := Function.update table.heap a none }

theorem map_taken [Inhabited T] : (table.taken idx rest).map idx = some table.next :=
  Function.update_self ..

theorem heap_taken [Inhabited T] : (table.taken idx rest).heap table.next = some default :=
  Function.update_self ..

theorem heap_put_self : (table.put a value).heap a = some value := Function.update_self ..

theorem run_get (inside : idx < kSize) : (get build idx).run table = .ok (table.map idx) table := by
  unfold get
  rw [run_bind (run_guardAccess inside)]
  rfl

theorem run_allocate_nil [Inhabited T] (full : table.pool = []) :
    EStateM.run allocate table = .ok none table := by
  unfold allocate
  rw [run_get_bind]
  simp only [full]
  rfl

theorem run_allocate [Inhabited T] (top : table.pool = idx :: rest) :
    EStateM.run allocate table = .ok (some idx) (table.taken idx rest) := by
  unfold allocate
  rw [run_get_bind]
  simp only [top]
  rfl

theorem run_deref (held : table.heap a = some value) : (deref a).run table = .ok value table := by
  unfold deref
  rw [run_get_bind]
  simp only [held]
  rfl

theorem run_deref_of_none (freed : table.heap a = none) :
    (deref a).run table = .error (.undefined "access to a freed object") table := by
  unfold deref
  rw [run_get_bind]
  simp only [freed]
  rfl

theorem run_update (change : T → T) (held : table.heap a = some value) :
    (update a change).run table = .ok () (table.put a (change value)) := by
  unfold update
  rw [run_bind (run_deref held)]
  rfl

theorem run_deref_eq_ok (returned : (deref a).run table = .ok value table') :
    table.heap a = some value ∧ table' = table := by
  cases known : table.heap a with
  | none =>
    rw [run_deref_of_none known] at returned
    exact nomatch returned
  | some other =>
    rw [run_deref known] at returned
    cases returned
    exact ⟨rfl, rfl⟩

theorem run_update_eq_ok {change : T → T} {done : Unit}
    (returned : (update a change).run table = .ok done table') :
    ∃ value, table.heap a = some value ∧ table' = table.put a (change value) := by
  obtain ⟨value, middle, read, written⟩ := run_bind_eq_ok returned
  obtain ⟨known, rfl⟩ := run_deref_eq_ok read
  cases written
  exact ⟨value, known, rfl⟩

namespace Sound

variable (sound : table.Sound)
include sound

section

variable (held : table.map idx = some a)
include held

theorem nodup_cons : (idx :: table.pool).Nodup := by
  refine List.nodup_cons.mpr ⟨fun member => ?_, sound.nodup⟩
  exact nomatch ((sound.mem_pool idx).mp member).2.symm.trans held

/-- A used slot leaves room on the stack. -/
theorem length_pool_lt : table.pool.length < kSize := by
  have within : (idx :: table.pool) ⊆ List.range kSize := by
    intro i member
    rw [List.mem_range]
    rcases List.mem_cons.mp member with rfl | member
    · exact (sound.inside i a held).1
    · exact ((sound.mem_pool i).mp member).1
  have bound := (sound.nodup_cons held).length_le_of_subset within
  rw [List.length_range, List.length_cons] at bound
  omega

theorem run_free :
    (free build idx).run table = .ok () (table.released idx a) := by
  unfold free
  rw [run_bind (run_guardAccess (sound.inside idx a held).1),
    run_get_bind,
    run_bind (run_assertTrue (held ▸ Option.some_ne_none a)),
    run_bind (run_guardAccess (sound.length_pool_lt held)), held]
  rfl

end

theorem put (held : table.heap a ≠ none) : (table.put a value).Sound where
  nodup := sound.nodup
  mem_pool := sound.mem_pool
  inside i b found := by
    refine ⟨(sound.inside i b found).1, fun missing => ?_⟩
    rcases of_update missing with ⟨_, absurd⟩ | ⟨_, missing⟩
    · cases absurd
    · exact (sound.inside i b found).2 missing
  slot b found := by
    by_cases same : b = a
    · exact sound.slot b (same ▸ held)
    · exact sound.slot b (by simpa [PooledHashMap.put, same] using found)
  unique := sound.unique
  fresh b found := by
    by_cases same : b = a
    · exact sound.fresh b (same ▸ held)
    · exact sound.fresh b (by simpa [PooledHashMap.put, same] using found)

theorem of_top (top : table.pool = idx :: rest) : idx < kSize ∧ table.map idx = none :=
  (sound.mem_pool idx).mp (top ▸ List.mem_cons_self)

theorem heap_next : table.heap table.next = none := by
  by_contra held
  exact absurd (sound.fresh _ held) (by omega)

/-- An object gets the slot on top of the stack. -/
theorem taken [Inhabited T] (top : table.pool = idx :: rest) : (table.taken idx rest).Sound := by
  have nodup := sound.nodup
  rw [top, List.nodup_cons] at nodup
  have inside := sound.of_top top
  have old : ∀ i a, table.map i = some a → i ≠ idx ∧ a ≠ table.next := by
    intro i a held
    refine ⟨fun same => ?_, fun same => ?_⟩
    · rw [same, inside.2] at held
      exact nomatch held
    · exact (sound.inside i a held).2 (same ▸ sound.heap_next)
  constructor
  · exact nodup.2
  · intro i
    by_cases same : i = idx
    · subst same
      simp [PooledHashMap.taken, nodup.1]
    · have known := sound.mem_pool i
      rw [top] at known
      simpa [PooledHashMap.taken, same] using known
  · intro i a held
    rcases of_update held with ⟨rfl, ⟨⟩⟩ | ⟨_, held⟩
    · simpa [PooledHashMap.taken] using inside.1
    · refine ⟨(sound.inside i a held).1, ?_⟩
      simpa [PooledHashMap.taken, (old i a held).2] using (sound.inside i a held).2
  · intro a held
    by_cases same : a = table.next
    · exact ⟨idx, by simp [PooledHashMap.taken, same]⟩
    · obtain ⟨i, found⟩ := sound.slot a (by simpa [PooledHashMap.taken, same] using held)
      exact ⟨i, by simpa [PooledHashMap.taken, (old i a found).1] using found⟩
  · intro i j a first second
    rcases of_update first with ⟨rfl, ⟨⟩⟩ | ⟨_, here⟩
    · rcases of_update second with ⟨rfl, _⟩ | ⟨_, there⟩
      · rfl
      · exact absurd rfl (old j _ there).2
    · rcases of_update second with ⟨rfl, ⟨⟩⟩ | ⟨_, there⟩
      · exact absurd rfl (old i _ here).2
      · exact sound.unique i j a here there
  · intro a held
    change a < table.next + 1
    by_cases same : a = table.next
    · omega
    · have := sound.fresh a (by simpa [PooledHashMap.taken, same] using held)
      omega

theorem released (held : table.map idx = some a) : (table.released idx a).Sound := by
  have inside := sound.inside idx a held
  have other : ∀ i b, table.map i = some b → i ≠ idx → b ≠ a := fun i b found apart same =>
    apart (sound.unique i idx a (same ▸ found) held)
  constructor
  · exact sound.nodup_cons held
  · intro i
    change i ∈ idx :: table.pool ↔ _
    rw [List.mem_cons, sound.mem_pool]
    by_cases same : i = idx
    · subst same
      simp [PooledHashMap.released, inside.1]
    · simp [PooledHashMap.released, same]
  · intro i b found
    rcases of_update found with ⟨_, ⟨⟩⟩ | ⟨same, found⟩
    refine ⟨(sound.inside i b found).1, ?_⟩
    simpa [PooledHashMap.released, other i b found same] using (sound.inside i b found).2
  · intro b found
    have apart : b ≠ a := fun same => by simp [PooledHashMap.released, same] at found
    obtain ⟨i, here⟩ := sound.slot b (by simpa [PooledHashMap.released, apart] using found)
    refine ⟨i, ?_⟩
    have moved : i ≠ idx := fun same => by
      rw [same, held, Option.some.injEq] at here
      exact apart here.symm
    simpa [PooledHashMap.released, moved] using here
  · intro i j b first second
    rcases of_update first with ⟨_, ⟨⟩⟩ | ⟨_, first⟩
    rcases of_update second with ⟨_, ⟨⟩⟩ | ⟨_, second⟩
    exact sound.unique i j b first second
  · intro b found
    have apart : b ≠ a := fun same => by simp [PooledHashMap.released, same] at found
    exact sound.fresh b (by simpa [PooledHashMap.released, apart] using found)

end Sound

/-- The map is sound, and every object has its slot's number and a further
property. -/
structure Indexed (table : PooledHashMap T kSize) (idxOf : T → ℕ) (good : T → Prop) : Prop where
  sound : table.Sound
  slot : ∀ a value, table.heap a = some value → table.map (idxOf value) = some a
  good : ∀ a value, table.heap a = some value → good value

/-- Take a slot for an object. -/
def add [Inhabited T] (table : PooledHashMap T kSize) (idx : ℕ) (rest : List ℕ) (value : T) :
    PooledHashMap T kSize :=
  (table.taken idx rest).put table.next value

theorem heap_put (table : PooledHashMap T kSize) (a : ℕ) (value : T) :
    (table.put a value).heap = Function.update table.heap a (some value) := rfl

theorem heap_add [Inhabited T] (table : PooledHashMap T kSize) (idx : ℕ) (rest : List ℕ)
    (value : T) :
    (table.add idx rest value).heap = Function.update table.heap table.next (some value) :=
  Function.update_idem _ _ _

namespace Indexed

variable {idxOf : T → ℕ} {good : T → Prop} {value' : T}

theorem initial : (PooledHashMap.initial T kSize).Indexed idxOf good :=
  ⟨sound_initial T kSize, nofun, nofun⟩

variable (indexed : table.Indexed idxOf good)
include indexed

/-- The slot of an object is the only one with its number. -/
theorem idxOf_ne (here : table.heap a = some value) (there : table.heap b = some value')
    (apart : a ≠ b) : idxOf value ≠ idxOf value' := by
  intro same
  have clash := indexed.slot a value here
  rw [same, indexed.slot b value' there, Option.some.injEq] at clash
  exact apart clash.symm

section

variable (known : table.heap a = some value)
include known

theorem put (same : idxOf value' = idxOf value) (fine : good value') :
    (table.put a value').Indexed idxOf good := by
  have held : table.heap a ≠ none := known ▸ Option.some_ne_none value
  refine ⟨indexed.sound.put held, ?_, ?_⟩
  · intro b other found
    rcases of_update found with ⟨rfl, ⟨⟩⟩ | ⟨_, found⟩
    · exact same ▸ indexed.slot b value known
    · exact indexed.slot b other found
  · intro b other found
    rcases of_update found with ⟨_, ⟨⟩⟩ | ⟨_, found⟩
    · exact fine
    · exact indexed.good b other found

theorem released :
    (table.released (idxOf value) a).Indexed idxOf good := by
  refine ⟨indexed.sound.released (indexed.slot a value known), ?_, ?_⟩
  · intro b other found
    rcases of_update found with ⟨_, ⟨⟩⟩ | ⟨apart, found⟩
    have moved := indexed.idxOf_ne found known apart
    exact (Function.update_of_ne moved none table.map).trans (indexed.slot b other found)
  · intro b other found
    rcases of_update found with ⟨_, ⟨⟩⟩ | ⟨_, found⟩
    exact indexed.good b other found

/-- A change of an object before it is freed is lost. -/
theorem run_free_put :
    (free build (idxOf value)).run (table.put a value') =
      .ok () (table.released (idxOf value) a) := by
  have sound : (table.put a value').Sound := indexed.sound.put (by simp [known])
  rw [sound.run_free (indexed.slot a value known)]
  simp [PooledHashMap.released, PooledHashMap.put]

end

theorem dropped {last : Prop} [Decidable last] (known : table.heap a = some value)
    (same : idxOf value' = idxOf value) (fine : ¬ last → good value') :
    Indexed (if last then table.released (idxOf value) a else table.put a value') idxOf good := by
  split_ifs with more
  · exact indexed.released known
  · exact indexed.put known same (fine more)

/-- A new object gets its slot's number. -/
theorem add [Inhabited T] (top : table.pool = idx :: rest) (own : idxOf value = idx)
    (fine : good value) :
    (table.add idx rest value).Indexed idxOf good := by
  have free := (indexed.sound.of_top top).2
  refine ⟨(indexed.sound.taken top).put (by simp [PooledHashMap.taken]), ?_, ?_⟩
  · intro b other found
    rw [heap_add] at found
    change Function.update table.map idx (some table.next) (idxOf other) = some b
    rcases of_update found with ⟨rfl, ⟨⟩⟩ | ⟨_, found⟩
    · rw [own, Function.update_self]
    · have slot := indexed.slot b other found
      have moved : idxOf other ≠ idx := fun clash => by
        rw [clash, free] at slot
        exact nomatch slot
      rw [Function.update_of_ne moved]
      exact slot
  · intro b other found
    rw [heap_add] at found
    rcases of_update found with ⟨_, ⟨⟩⟩ | ⟨_, found⟩
    · exact fine
    · exact indexed.good b other found

end Indexed

end PooledHashMap

end AlkOS.Containers
