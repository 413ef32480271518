import AlkOS.Foundation.Reachability
import AlkOS.Fs.Fat.TableChanges

/-!
# The directory tree

The directories of a volume are those reachable from the root directory. On a
well-formed volume every directory has a table, every file has clusters for its
size, and no block belongs to two objects; the directories then form a tree.
-/

namespace AlkOS.Fat.Volume

open Kernel Relation

variable {v : Volume} {disk : Bytes} {c c' p j k x : ℕ} {entry other : DirectoryEntry}
  {holder holder' : Option (ℕ × ℕ)}

/-- An entry for a file or a directory, other than `.` and `..`. -/
def IsObject (entry : DirectoryEntry) : Prop :=
  (entry.isFile = true ∨ entry.isDirectory = true) ∧
    entry.filename ≠ kDot ∧ entry.filename ≠ kDotDot

instance (entry : DirectoryEntry) : Decidable (IsObject entry) :=
  inferInstanceAs (Decidable (_ ∧ _))

/-- A directory has an entry for another one. -/
def Child (v : Volume) (disk : Bytes) (c c' : ℕ) : Prop :=
  ∃ j entry, v.listing disk c j = some entry ∧ IsObject entry ∧ entry.isDirectory = true ∧
    v.firstCluster entry = c'

/-- The directories are those reachable from the root directory. -/
def Directory (v : Volume) (disk : Bytes) (c : ℕ) : Prop :=
  ReflTransGen (v.Child disk) v.rootCluster c

/-- A directory has an object in a slot. -/
structure Listed (v : Volume) (disk : Bytes) (c j : ℕ) (entry : DirectoryEntry) : Prop where
  directory : v.Directory disk c
  here : v.listing disk c j = some entry
  object : IsObject entry

/-- The blocks of an object; an empty file may have none. -/
def objectBlocks (v : Volume) (disk : Bytes) (entry : DirectoryEntry) : List ℕ :=
  if entry.isFile = true ∧ v.firstCluster entry = 0 then []
  else v.extent disk (v.firstCluster entry)

/-- The blocks of the root directory, and those of the object in a slot. -/
inductive Holds (v : Volume) (disk : Bytes) : Option (ℕ × ℕ) → ℕ → Prop where
  | root {x : ℕ} : x ∈ v.extent disk v.rootCluster → Holds v disk none x
  | object {c j x : ℕ} {entry : DirectoryEntry} : v.Listed disk c j entry →
      x ∈ v.objectBlocks disk entry → Holds v disk (some (c, j)) x

/-- A file has a chain long enough for its size, or is empty and has none. -/
def FileSound (v : Volume) (disk : Bytes) (entry : DirectoryEntry) : Prop :=
  (v.firstCluster entry = 0 ∨
    v.Chain disk (v.firstCluster entry) (v.objectBlocks disk entry)) ∧
    entry.fileSize.toNat ≤ (v.objectBlocks disk entry).length * v.clusterSize

/-- A well-formed volume. -/
structure WellFormed (v : Volume) (disk : Bytes) : Prop where
  table : ∀ c, v.Directory disk c → v.IsTable disk c
  file : ∀ c j entry, v.Listed disk c j entry → entry.isFile = true → v.FileSound disk entry
  apart : ∀ holder holder' x, v.Holds disk holder x → v.Holds disk holder' x → holder = holder'

/-- Every cluster in use belongs to an object, those of a given set apart. -/
def Accounted (v : Volume) (disk : Bytes) (spare : Set ℕ) : Prop :=
  ∀ x, v.InRange x → v.entry disk x ≠ 0 → x ∈ spare ∨ ∃ holder, v.Holds disk holder x

theorem isDirectory_eq_false (file : entry.isFile = true) : entry.isDirectory = false := by
  unfold DirectoryEntry.isFile DirectoryEntry.isDirectory at *
  rw [beq_iff_eq] at file
  rw [file]
  decide

theorem not_isDirectory (file : entry.isFile = true) : ¬ entry.isDirectory = true := by
  rw [isDirectory_eq_false file]
  decide

theorem objectBlocks_of_directory (kind : entry.isDirectory = true) :
    v.objectBlocks disk entry = v.extent disk (v.firstCluster entry) := by
  refine if_neg fun file => ?_
  exact not_isDirectory file.1 kind

theorem Directory.root (v : Volume) (disk : Bytes) : v.Directory disk v.rootCluster := .refl

theorem Listed.child (listed : v.Listed disk c j entry) (kind : entry.isDirectory = true) :
    v.Child disk c (v.firstCluster entry) :=
  ⟨j, entry, listed.here, listed.object, kind, rfl⟩

theorem Listed.directory_of (listed : v.Listed disk c j entry)
    (kind : entry.isDirectory = true) : v.Directory disk (v.firstCluster entry) :=
  listed.directory.tail (listed.child kind)

theorem Listed.unique (first : v.Listed disk c j entry) (second : v.Listed disk c j other) :
    entry = other :=
  Option.some.inj (first.here.symm.trans second.here)

/-- The holder of the table of a directory. -/
inductive Hosts (v : Volume) (disk : Bytes) : Option (ℕ × ℕ) → ℕ → Prop where
  | root : Hosts v disk none v.rootCluster
  | object {c j : ℕ} {entry : DirectoryEntry} : v.Listed disk c j entry →
      entry.isDirectory = true → Hosts v disk (some (c, j)) (v.firstCluster entry)

theorem Hosts.unique (first : v.Hosts disk holder c) (second : v.Hosts disk holder c') :
    c = c' := by
  cases first with
  | root =>
    cases second
    rfl
  | object listed _ =>
    cases second with
    | object again _ => rw [listed.unique again]

theorem Hosts.holds (hosts : v.Hosts disk holder c) (member : x ∈ v.extent disk c) :
    v.Holds disk holder x := by
  cases hosts with
  | root => exact .root member
  | object listed kind => exact .object listed (by rwa [objectBlocks_of_directory kind])

/-- A file is no directory's entry. -/
theorem Hosts.ne_of_file (hosts : v.Hosts disk holder p) (listed : v.Listed disk c j entry)
    (file : entry.isFile = true) : holder ≠ some (c, j) := by
  rintro rfl
  cases hosts with
  | object again kind =>
    rw [← listed.unique again] at kind
    exact not_isDirectory file kind

theorem Directory.exists_hosts (directory : v.Directory disk c) :
    ∃ holder, v.Hosts disk holder c := by
  rcases ReflTransGen.cases_tail directory with rfl | ⟨p, before, j, entry, here, object, kind, rfl⟩
  · exact ⟨none, .root⟩
  · exact ⟨some (p, j), .object ⟨before, here, object⟩ kind⟩

namespace WellFormed

variable (formed : v.WellFormed disk)
include formed

/-- Different directories have no block in common. -/
theorem directory_eq (first : v.Directory disk c) (second : v.Directory disk c')
    (here : x ∈ v.extent disk c) (there : x ∈ v.extent disk c') :
    c = c' := by
  obtain ⟨holder, hosts⟩ := first.exists_hosts
  obtain ⟨holder', hosts'⟩ := second.exists_hosts
  have same := formed.apart holder holder' x (hosts.holds here) (hosts'.holds there)
  subst same
  exact hosts.unique hosts'

/-- A file has no block in common with a directory. -/
theorem not_mem_extent (listed : v.Listed disk c j entry) (file : entry.isFile = true)
    (directory : v.Directory disk p) (here : x ∈ v.objectBlocks disk entry) :
    x ∉ v.extent disk p := by
  intro there
  obtain ⟨holder, hosts⟩ := directory.exists_hosts
  exact hosts.ne_of_file listed file (formed.apart _ _ x (hosts.holds there) (.object listed here))

/-- The blocks of a file are clusters. -/
theorem inRange (listed : v.Listed disk c j entry) (file : entry.isFile = true)
    (member : x ∈ v.objectBlocks disk entry) : v.InRange x := by
  rcases (formed.file c j entry listed file).1 with none | chain
  · rw [objectBlocks, if_pos ⟨file, none⟩] at member
    exact nomatch member
  · exact chain.inRange x member

/-- Clusters of objects are not free. -/
theorem entry_ne_zero (holds : v.Holds disk holder x) (known : v.InRange x) :
    v.entry disk x ≠ 0 := by
  have table : ∀ c, v.Directory disk c → x ∈ v.extent disk c → v.entry disk x ≠ 0 := by
    intro c directory member
    by_cases root : v.IsRootBlock c
    · rw [extent_of_root root, List.mem_singleton] at member
      exact absurd (member ▸ root) known.not_isRootBlock
    · exact ((formed.table c directory).chain root).entry_ne_zero member
  cases holds with
  | root member => exact table _ (Directory.root v disk) member
  | @object c j _ entry listed member =>
    rcases listed.object.1 with file | kind
    · rcases (formed.file c j entry listed file).1 with none | chain
      · rw [objectBlocks, if_pos ⟨file, none⟩] at member
        exact nomatch member
      · exact chain.entry_ne_zero member
    · rw [objectBlocks_of_directory kind] at member
      exact table _ (listed.directory_of kind) member

theorem not_holds_of_free (known : v.InRange x) (free : v.entry disk x = 0) :
    ¬ v.Holds disk holder x := fun holds =>
  formed.entry_ne_zero holds known free

/-- The slot of a directory in its parent is unique. -/
theorem parent_unique {entry' : DirectoryEntry} (first : v.Listed disk c j entry)
    (second : v.Listed disk c' k entry') (kind : entry.isDirectory = true)
    (kind' : entry'.isDirectory = true) (same : v.firstCluster entry = v.firstCluster entry') :
    c = c' ∧ j = k := by
  have start := (formed.table _ (first.directory_of kind)).start_mem
  have here : v.Holds disk (some (c, j)) (v.firstCluster entry) :=
    .object first (by rw [objectBlocks_of_directory kind]; exact start)
  have there : v.Holds disk (some (c', k)) (v.firstCluster entry) :=
    .object second (by rw [objectBlocks_of_directory kind', ← same]; exact start)
  have equal := formed.apart _ _ _ here there
  rw [Option.some.injEq, Prod.mk.injEq] at equal
  exact equal

/-- No entry leads back to the root directory. -/
theorem ne_root (listed : v.Listed disk c j entry) (kind : entry.isDirectory = true) :
    v.firstCluster entry ≠ v.rootCluster := by
  intro same
  have start := (formed.table _ (Directory.root v disk)).start_mem
  have here : v.Holds disk (some (c, j)) v.rootCluster :=
    .object listed (by rw [objectBlocks_of_directory kind, same]; exact start)
  exact nomatch formed.apart _ _ _ (.root start) here

/-- No directory is its own ancestor. -/
theorem acyclic (directory : v.Directory disk c) : ¬ TransGen (v.Child disk) c c := by
  refine Reachability.acyclic ?_ ?_ directory
  · intro a b c first second edge edge'
    obtain ⟨j, entry, here, object, kind, same⟩ := edge
    obtain ⟨k, entry', here', object', kind', same'⟩ := edge'
    exact (formed.parent_unique ⟨first, here, object⟩ ⟨second, here', object'⟩ kind kind'
      (same.trans same'.symm)).1
  · intro a first edge
    obtain ⟨j, entry, here, object, kind, same⟩ := edge
    exact formed.ne_root ⟨first, here, object⟩ kind same

end WellFormed

end AlkOS.Fat.Volume
