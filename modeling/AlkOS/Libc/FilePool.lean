import Mathlib

/-!
# The pool of streams

`fopen` takes a node off the free list before it opens the file, and does not give it
back when the file cannot be opened.
-/

namespace AlkOS.Libc.Stdio

open Function

def filePoolSize : ℕ := 32

/-- `ParseMode`: whether the stream is writable. A null pointer is no string. -/
def parseMode : Option (List Char) → Option Bool
  | some ('r' :: rest) => some (rest.head? == some '+')
  | some ('w' :: _) => some true
  | some ('a' :: _) => some true
  | _ => none

/-- What `fopen` and `fclose` use of a `FILE`. -/
structure File where
  write : Bool := false
  error : Bool := false
  closed : Bool := false

/-- The nodes of the pool, by their indices. -/
structure FilePool where
  initialized : Bool := false
  freeList : Option ℕ := none
  next : ℕ → Option ℕ := fun _ => none
  file : ℕ → File := fun _ => {}

namespace FilePool

def initFileAllocator (s : FilePool) : FilePool :=
  if s.initialized then s
  else
    { s with
      initialized := true
      freeList := some 0
      next := fun i => if i + 1 < filePoolSize then some (i + 1) else none }

def allocFile (s : FilePool) : Option ℕ × FilePool :=
  let s := s.initFileAllocator
  match s.freeList with
  | none => (none, s)
  | some node => (some node, { s with freeList := s.next node, file := update s.file node {} })

def freeFile (s : FilePool) (file : ℕ) : FilePool :=
  if filePoolSize ≤ file then s
  else { s with next := update s.next file s.freeList, freeList := some file }

/-- `fopen`, where `OpenFd` returns `fd`. -/
def fopen (s : FilePool) (mode : Option (List Char)) (fd : ℤ) : Option ℕ × FilePool :=
  match parseMode mode with
  | none => (none, s)
  | some write =>
    match s.allocFile with
    | (none, s) => (none, s)
    | (some file, s) =>
      if fd < 0 then (none, s)
      else (some file, { s with file := update s.file file { write := write } })

/-- `fclose` of a stream of the pool, where `FlushBuffer` and `CloseFd` return these. -/
def fclose (s : FilePool) (stream : ℕ) (flushed result : ℤ) : ℤ × FilePool :=
  if (s.file stream).closed then (-1, s)
  else
    let error := (s.file stream).error || (s.file stream).write && flushed != 0 || result < 0
    let file := { s.file stream with error := error, closed := true }
    (if error then -1 else 0, freeFile { s with file := update s.file stream file } stream)

/-- The nodes of a list that ends with a null pointer. -/
def Chained (next : ℕ → Option ℕ) : Option ℕ → List ℕ → Prop
  | head, [] => head = none
  | head, node :: rest => head = some node ∧ Chained next (next node) rest

/-- The free nodes and the open streams are the nodes of the pool, each once. -/
def Sound (s : FilePool) (opened : List ℕ) : Prop :=
  (∀ stream ∈ opened, (s.file stream).closed = false) ∧
  if s.initialized then
    ∃ free, Chained s.next s.freeList free ∧ (free ++ opened).Perm (List.range filePoolSize)
  else opened = []

/-- No file fails to open when there is a node for it. -/
def Proper (s : FilePool) (mode : Option (List Char)) (fd : ℤ) : Prop :=
  parseMode mode ≠ none → s.allocFile.1 ≠ none → 0 ≤ fd

/-- A call changes the pool and the streams that are open. -/
inductive Step : FilePool × List ℕ → FilePool × List ℕ → Prop where
  | fopen {s : FilePool} {opened : List ℕ} (mode : Option (List Char)) (fd : ℤ) :
      s.Proper mode fd →
      Step (s, opened) ((s.fopen mode fd).2, (s.fopen mode fd).1.toList ++ opened)
  | fclose {s : FilePool} {opened : List ℕ} {stream : ℕ} (flushed result : ℤ) :
      stream ∈ opened →
      Step (s, opened) ((s.fclose stream flushed result).2, opened.erase stream)

variable {s s' : FilePool} {opened : List ℕ} {next next' : ℕ → Option ℕ} {head : Option ℕ}
  {nodes : List ℕ} {mode : Option (List Char)} {fd : ℤ} {stream : ℕ}

theorem Chained.congr (chained : Chained next head nodes)
    (same : ∀ node ∈ nodes, next' node = next node) : Chained next' head nodes := by
  induction nodes generalizing head with
  | nil => exact chained
  | cons node rest ih =>
    obtain ⟨first, tail⟩ := chained
    refine ⟨first, ?_⟩
    rw [same node List.mem_cons_self]
    exact ih tail fun other member => same other (List.mem_cons_of_mem node member)

theorem Chained.cases_of_mem (chained : Chained next head nodes) (member : stream ∈ nodes) :
    head = some stream ∨ ∃ node, next node = some stream := by
  induction nodes generalizing head with
  | nil => exact nomatch member
  | cons node rest ih =>
    rcases List.mem_cons.mp member with rfl | member
    · exact .inl chained.1
    · exact .inr ((ih chained.2 member).elim (fun first => ⟨node, first⟩) id)

theorem Sound.initFileAllocator (sound : s.Sound opened) :
    s.initFileAllocator.initialized = true ∧ s.initFileAllocator.Sound opened := by
  unfold FilePool.initFileAllocator
  split_ifs with ready
  · exact ⟨ready, sound⟩
  · obtain ⟨closed, rest⟩ := sound
    rw [if_neg ready] at rest
    subst rest
    exact ⟨rfl, nofun, List.range filePoolSize, by simp [Chained, filePoolSize, List.range_succ],
      .of_eq (List.append_nil _)⟩

theorem closed_update {files : ℕ → File} {file : File} (fresh : file.closed = false)
    (rest : ∀ x ∈ opened, (files x).closed = false) :
    ∀ x ∈ stream :: opened, (update files stream file x).closed = false := by
  intro x member
  by_cases same : x = stream
  · rw [same, update_self]
    exact fresh
  · rw [update_of_ne same]
    exact rest x ((List.mem_cons.mp member).resolve_left same)

/-- A free node becomes a stream, or there is none and nothing changes. -/
theorem Sound.allocFile (sound : s.Sound opened) :
    s.allocFile = (none, s) ∨ ∃ node s', s.allocFile = (some node, s') ∧ node ∉ opened ∧
      s'.Sound (node :: opened) := by
  obtain ⟨ready, closed, fine⟩ := sound.initFileAllocator
  rw [if_pos ready] at fine
  obtain ⟨free, chained, nodes⟩ := fine
  unfold FilePool.allocFile
  cases free with
  | nil =>
    have same : s.initFileAllocator = s := by
      unfold FilePool.initFileAllocator at chained ⊢
      split_ifs at chained ⊢
      · rfl
      · exact nomatch chained
    rw [same] at chained ⊢
    simp only [show s.freeList = none from chained]
    exact .inl trivial
  | cons node rest =>
    obtain ⟨first, tail⟩ := chained
    have apart : node ∉ opened := fun member =>
      (List.nodup_cons.mp (nodes.nodup_iff.mpr List.nodup_range)).1
        (List.mem_append_right rest member)
    simp only [first]
    refine .inr ⟨node, _, rfl, apart, closed_update rfl closed, ?_⟩
    rw [if_pos ready]
    exact ⟨rest, tail, List.perm_middle.trans nodes⟩

/-- `fopen` makes a free node a stream, or changes nothing. -/
theorem Sound.fopen (sound : s.Sound opened) (proper : s.Proper mode fd) :
    s.fopen mode fd = (none, s) ∨ ∃ stream s', s.fopen mode fd = (some stream, s') ∧
      stream ∉ opened ∧ s'.Sound (stream :: opened) := by
  unfold FilePool.fopen
  unfold Proper at proper
  cases parsed : parseMode mode with
  | none => exact .inl rfl
  | some write =>
    rcases sound.allocFile with none | ⟨node, s', taken, apart, sound'⟩
    · rw [none]
      exact .inl rfl
    · rw [taken] at proper ⊢
      have fits := proper (parsed ▸ Option.some_ne_none write) (Option.some_ne_none node)
      exact .inr ⟨node, _, if_neg (Int.not_lt.mpr fits), apart, fun other member =>
        closed_update rfl sound'.1 other (List.mem_cons_of_mem node member), sound'.2⟩

/-- `fclose` gives the node of its stream back. -/
theorem Sound.fclose (sound : s.Sound opened) (member : stream ∈ opened) (flushed result : ℤ) :
    (s.fclose stream flushed result).2.Sound (opened.erase stream) := by
  obtain ⟨closed, fine⟩ := sound
  unfold FilePool.fclose
  split_ifs at fine with ready
  · obtain ⟨free, chained, nodes⟩ := fine
    have distinct := nodes.nodup_iff.mpr List.nodup_range
    have inside := nodes.mem_iff.mp (List.mem_append_right free member)
    rw [List.mem_range, ← Nat.not_le] at inside
    simp only [closed stream member, Bool.false_eq_true, ↓reduceIte, freeFile, inside]
    refine ⟨fun other rest => ?_, ?_⟩
    · obtain ⟨different, old⟩ := (List.nodup_append.mp distinct).2.1.mem_erase_iff.mp rest
      change (update s.file stream _ other).closed = false
      rw [update_of_ne different]
      exact closed other old
    · rw [if_pos ready]
      refine ⟨stream :: free, ⟨rfl, ?_⟩, ?_⟩
      · change Chained (update s.next stream s.freeList) (update s.next stream s.freeList stream) _
        rw [update_self]
        refine chained.congr fun node listed => update_of_ne ?_ _ _
        exact (List.nodup_append.mp distinct).2.2 node listed stream member
      · exact (List.perm_middle.symm.trans
          ((List.perm_cons_erase member).symm.append_left free)).trans nodes
  · rw [fine] at member
    exact nomatch member

theorem Step.sound {x y : FilePool × List ℕ} (step : Step x y) (sound : x.1.Sound x.2) :
    y.1.Sound y.2 := by
  cases step with
  | fopen mode fd proper =>
    rcases sound.fopen proper with none | ⟨_, _, taken, _, sound'⟩
    · rw [none]
      exact sound
    · rw [taken]
      exact sound'
  | fclose flushed result member => exact sound.fclose member flushed result

/-- While every file opens, no node is lost or given out twice, and a failed `fopen` changes
nothing. -/
theorem sound_of_run {x : FilePool × List ℕ} (run : Relation.ReflTransGen Step ({}, []) x) :
    x.1.Sound x.2 ∧ ∀ mode fd, x.1.Proper mode fd →
      (∀ stream ∈ (x.1.fopen mode fd).1, stream ∉ x.2) ∧
        ((x.1.fopen mode fd).1 = none → (x.1.fopen mode fd).2 = x.1) := by
  have sound : x.1.Sound x.2 := by
    induction run with
    | refl => exact ⟨nofun, rfl⟩
    | tail _ step ih => exact step.sound ih
  refine ⟨sound, fun mode fd proper => ?_⟩
  rcases sound.fopen proper with none | ⟨node, _, taken, apart, _⟩
  · rw [none]
    exact ⟨nofun, fun _ => rfl⟩
  · rw [taken]
    exact ⟨fun _ same => Option.some.inj same ▸ apart, nofun⟩

/-- Two files are opened and the first is closed: the next file gets its node. -/
theorem sound_of_run_reused :
    let opened := (fopen (fopen {} (some ['r']) 3).2 (some ['w']) 4).2
    let closed := (opened.fclose 0 0 0).2
    (closed.fopen (some ['r']) 3).1 = some 0 ∧ (closed.fopen (some ['r']) 3).2.Sound [0, 1] := by
  intro opened closed
  have first : Relation.ReflTransGen Step ({}, []) (opened, [1, 0]) :=
    .tail (.single (.fopen (some ['r']) 3 fun _ _ => by decide))
      (.fopen (some ['w']) 4 fun _ _ => by decide)
  have second : Relation.ReflTransGen Step ({}, []) (closed, [1]) :=
    .tail first (.fclose 0 0 (List.mem_cons_of_mem 1 List.mem_cons_self))
  exact ⟨rfl, (sound_of_run (.tail second (.fopen (some ['r']) 3 fun _ _ => by decide))).1⟩

/-- A file that cannot be opened takes a node with it. -/
theorem not_sound_of_missing_file :
    (fopen {} (some ['r']) (-1)).1 = none ∧ ¬ (fopen {} (some ['r']) (-1)).2.Sound [] := by
  refine ⟨rfl, fun sound => ?_⟩
  obtain ⟨_, free, chained, nodes⟩ := sound
  have listed : 0 ∈ free ++ [] := nodes.mem_iff.mpr (List.mem_range.mpr (by decide))
  rw [List.append_nil] at listed
  rcases chained.cases_of_mem listed with first | ⟨node, first⟩
  · exact nomatch first
  · change (if node + 1 < filePoolSize then some (node + 1) else none) = some 0 at first
    split_ifs at first
    exact nomatch first

end FilePool

end AlkOS.Libc.Stdio
