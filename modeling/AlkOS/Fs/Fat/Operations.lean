import AlkOS.Fs.Fat.ByteArrays
import AlkOS.Fs.Fat.Evolution

/-!
# Changes of a volume

The six operations of the driver that change a volume. An orderly operation passes
through directories only and avoids the cases in which the driver damages the tree.
Orderly operations keep the volume well formed, and lose no cluster if they succeed.
-/

namespace AlkOS.Fat.Volume

open Kernel Vfs Relation

variable {v : Volume} {disk disk' : Bytes} {c j p q offset : ℕ} {entry : DirectoryEntry}
  {name : ShortName} {component : List UInt8} {front rest : List (List UInt8)} {buffer : List UInt8}
  {α β : Type} {path : Path}

/-- An operation that changes a volume. -/
inductive Change where
  | createFile (path : Path.Parsed)
  | createDirectory (path : Path.Parsed)
  | writeFile (path : Path.Parsed) (buffer : List UInt8) (offset : ℕ)
  | deleteFile (path : Path.Parsed)
  | removeDirectory (path : Path.Parsed)
  | move (oldPath newPath : Path.Parsed)

/-- Performing an operation; the value is the number of bytes written. -/
def Change.perform (v : Volume) : Change → Kernel Bytes (Except VfsError ℕ)
  | .createFile path => do return (← v.createFile path.1).map fun _ => 0
  | .createDirectory path => do return (← v.createDirectory path.1).map fun _ => 0
  | .writeFile path buffer offset => v.writeFile path.1 buffer offset
  | .deleteFile path => do return (← v.deleteFile path.1).map fun _ => 0
  | .removeDirectory path => do return (← v.removeDirectory path.1).map fun _ => 0
  | .move oldPath newPath => do return (← v.move oldPath.1 newPath.1).map fun _ => 0

/-- Whether an operation succeeds. -/
def Change.succeeds (v : Volume) (disk : Bytes) (change : Change) : Bool :=
  match (change.perform v).run disk with
  | .ok (.ok _) _ => true
  | _ => false

/-- The disk after an operation. -/
def Change.after (v : Volume) (disk : Bytes) (change : Change) : Bytes :=
  match (change.perform v).run disk with
  | .ok _ disk' => disk'
  | .error _ disk' => disk'

theorem Change.run_of_succeeds {change : Change} (success : change.succeeds v disk = true) :
    ∃ count, (change.perform v).run disk = .ok (.ok count) (change.after v disk) := by
  unfold succeeds at success
  unfold after
  cases run : (change.perform v).run disk with
  | error panic disk' => rw [run] at success; exact nomatch success
  | ok result disk' =>
    cases result with
    | error error => rw [run] at success; exact nomatch success
    | ok count => exact ⟨count, rfl⟩

theorem not_isSkipped (formatted : formatFilename component = some name) :
    isSkipped component = false := by
  rw [Bool.eq_false_iff]
  intro skipped
  rcases Bool.or_eq_true_iff.mp skipped with one | two
  · rw [beq_iff_eq.mp one] at formatted
    exact nomatch formatted
  · rw [beq_iff_eq.mp two] at formatted
    exact nomatch formatted

/-- The last component of a path whose file name is valid is not skipped. -/
theorem names_concat (formatted : formatFilename path.getFilename = some name)
    (nonempty : path.components ≠ []) :
    names path.components = names path.components.dropLast ++ [path.getFilename] := by
  have filename : path.getFilename = path.components.getLast nonempty := by
    rw [Path.getFilename, List.getLast?_eq_some_getLast nonempty, Option.getD_some]
  rw [filename] at formatted ⊢
  have taken := not_isSkipped formatted
  unfold names
  nth_rewrite 1 [← List.dropLast_append_getLast nonempty]
  rw [List.filter_append, List.filter_cons_of_pos (by rw [taken]; rfl), List.filter_nil]

/-- A path names an entry. -/
def Resolves (v : Volume) (disk : Bytes) (components : List (List UInt8)) : Prop :=
  ∃ p j entry, v.Denotes disk v.rootCluster components p j entry

section

variable (sound : v.Sound) (readable : v.RootReadable) (formed : v.WellFormed disk)
include sound readable formed

/-- Walking along straight names finds what they denote, or nothing. -/
theorem Sound.walkFromRoot_resolves (nonempty : names components ≠ [])
    (straight : v.Straight disk v.rootCluster (names components)) :
    (∃ p j entry, v.Denotes disk v.rootCluster (names components) p j entry ∧
        v.walkFromRoot disk components = .ok (some ⟨entry, p, j * kEntrySize⟩)) ∨
      ¬ v.Resolves disk (names components) ∧ v.walkFromRoot disk components = .ok none := by
  by_cases resolves : v.Resolves disk (names components)
  · obtain ⟨p, j, entry, denotes⟩ := resolves
    exact .inl ⟨p, j, entry, denotes, sound.walkFromRoot_of_denotes readable formed denotes⟩
  · refine .inr ⟨resolves, ?_⟩
    rcases straight.cases with ⟨q, leads⟩ | ⟨p, j, entry, denotes, -⟩ |
      ⟨front, component, rest, p, split, leads, missing⟩
    · rw [← List.dropLast_append_getLast nonempty] at leads
      obtain ⟨p, j, entry, denotes, -⟩ := Leads.concat_iff.mp leads
      rw [List.dropLast_append_getLast nonempty] at denotes
      exact absurd ⟨p, j, entry, denotes⟩ resolves
    · exact absurd ⟨p, j, entry, denotes⟩ resolves
    · exact sound.walkFromRoot_of_missing readable formed split leads missing

/-- What `LookupPath_` returns for a straight path. -/
theorem Sound.lookupPath_straight (valid : path.Valid)
    (straight : v.Straight disk v.rootCluster (names path.components)) :
    (∃ p j entry, v.Denotes disk v.rootCluster (names path.components) p j entry ∧
        v.lookupPath disk path = .ok (some ⟨entry, p, j * kEntrySize⟩)) ∨
      v.lookupPath disk path = .ok none ∨
      names path.components = [] ∧
        v.lookupPath disk path = .ok (some ⟨v.makeRootDirectoryEntry, v.rootCluster, 0⟩) := by
  by_cases nothing : path.components = []
  · exact .inr (.inl (lookupPath_of_empty valid nothing))
  · rw [lookupPath_eq valid nothing]
    by_cases skipped : names path.components = []
    · exact .inr (.inr ⟨skipped, lookupComponents_of_skipped skipped⟩)
    · rcases sound.walkFromRoot_resolves readable formed skipped straight with found | missing
      · exact .inl found
      · exact .inr (.inl missing.2)

/-- `GetParentCluster_` finds where the parent of a straight path leads. -/
theorem Sound.getParentCluster_straight (valid : path.Valid) (nonempty : path.components ≠ [])
    (formatted : formatFilename path.getFilename = some name)
    (straight : v.Straight disk v.rootCluster (names path.components)) :
    (∃ q, v.Leads disk v.rootCluster (names path.components.dropLast) q ∧
        v.getParentCluster disk path = .ok (.ok q)) ∨
      v.getParentCluster disk path = .ok (.error .directoryNotFound) := by
  rw [names_concat formatted nonempty] at straight
  rw [sound.getParentCluster_eq valid nonempty]
  rcases sound.walkFromRoot_cases readable formed straight.of_append with
    ⟨q, leads, result, walk, first, -⟩ | ⟨p, j, entry, denotes, kind, -⟩ | ⟨-, walk⟩
  · refine .inl ⟨q, leads, ?_⟩
    rw [walk, ← first]
    rfl
  · have contra := straight _ _ rfl (by simp) p j entry denotes
    rw [kind] at contra
    exact absurd contra (by decide)
  · right
    rw [walk]
    rfl

end

theorem run_scan {empty : Bool} (scanned : v.isDirectoryEmpty disk entry = .ok empty) :
    (reading fun disk => v.isDirectoryEmpty disk entry).run disk = .ok empty disk := by
  apply run_reading_of_ok
  exact scanned

theorem run_parent {found : Except VfsError ℕ} (parent : v.getParentCluster disk path = .ok found) :
    (reading fun disk => v.getParentCluster disk path).run disk = .ok found disk := by
  apply run_reading_of_ok
  exact parent

/-- A computation returns with a well-formed volume; if it succeeds, no cluster is lost. -/
def KeepsTree (v : Volume) (disk : Bytes) (operation : Kernel Bytes (Except VfsError α)) : Prop :=
  ∃ result disk', EStateM.run operation disk = .ok result disk' ∧ v.WellFormed disk' ∧
    ∀ value, result = .ok value → v.Accounted disk ∅ → v.Accounted disk' ∅

namespace KeepsTree

variable {operation : Kernel Bytes (Except VfsError α)}

theorem of_error {error : VfsError} (formed : v.WellFormed disk)
    (run : EStateM.run operation disk = .ok (.error error) disk) : v.KeepsTree disk operation :=
  ⟨_, disk, run, formed, fun _ absurd => nomatch absurd⟩

theorem of_evolves {value : α} (evolves : v.Evolves disk disk')
    (run : EStateM.run operation disk = .ok (.ok value) disk') : v.KeepsTree disk operation :=
  ⟨_, disk', run, evolves.formed, fun _ _ => evolves.accounted⟩

theorem congr {other : Kernel Bytes (Except VfsError α)}
    (same : EStateM.run other disk = EStateM.run operation disk)
    (keeps : v.KeepsTree disk operation) : v.KeepsTree disk other := by
  unfold KeepsTree
  rw [same]
  exact keeps

theorem map (keeps : v.KeepsTree disk operation) (f : α → β) :
    v.KeepsTree disk (do return (← operation).map f) := by
  obtain ⟨result, disk', run, formed, full⟩ := keeps
  refine ⟨result.map f, disk', ?_, formed, fun value succeeded => ?_⟩
  · rw [run_bind run]
    rfl
  · cases result with
    | error error => exact nomatch succeeded
    | ok value => exact full value rfl

end KeepsTree

/-- A straight path whose parent directory can be given a new entry. -/
def Opens (v : Volume) (disk : Bytes) (path : Path) : Prop :=
  v.Straight disk v.rootCluster (names path.components) ∧
    ∀ q, v.Leads disk v.rootCluster (names path.components.dropLast) q → v.Closed disk q

/-- The common part of `CreateFile` and `CreateDirectory`: checks, then an action. -/
def creating (v : Volume) (path : Path)
    (enter : ℕ → ShortName → Kernel Bytes (Except VfsError Unit)) :
    Kernel Bytes (Except VfsError Unit) := do
  if path.isEmpty || path.components.isEmpty then return .error .invalidPath
  else match formatFilename path.getFilename with
    | none => return .error .invalidName
    | some name =>
      if (← reading fun disk => v.lookupPath disk path).isSome then return .error .alreadyExists
      else match ← reading fun disk => v.getParentCluster disk path with
        | .error error => return .error error
        | .ok parent => enter parent name

/-- A path whose last component is not written as a deleted entry. -/
def Visible (path : Path) : Prop := path.getFilename.head? ≠ some 0x05

instance (path : Path) : Decidable (Visible path) := inferInstanceAs (Decidable (_ ≠ _))

theorem Visible.ne_deleted (visible : Visible path)
    (formatted : formatFilename path.getFilename = some name) : name 0 ≠ kDeletedEntry :=
  fun deleted => visible (formatFilename_deleted formatted deleted)

theorem isFile_root (v : Volume) : v.makeRootDirectoryEntry.isFile = false := by
  change (Attributes.directory &&& (Attributes.directory ||| Attributes.volumeLabel) == 0) = false
  decide

/-- Entries that `IsDirectoryEmpty_` does not count are not objects. -/
theorem not_isObject_of_passed (passed : (entry.isFree || entry.isLongNameSubComponent ||
    entry.isVolumeLabel || entry.filename == kDot || entry.filename == kDotDot) = true)
    (live : entry.isFree = false) : ¬ IsObject entry := by
  have label : ∀ n : Fin 256, (UInt8.ofNat n.val &&& 0x3F == Attributes.longName) = true →
      (UInt8.ofNat n.val &&& (Attributes.directory ||| Attributes.volumeLabel) ==
        Attributes.volumeLabel) = true := by
    decide +kernel
  have here := label ⟨entry.attributes.toNat, entry.attributes.toNat_lt⟩
  rw [UInt8.ofNat_toNat] at here
  have neither : entry.isVolumeLabel = true →
      ¬ (entry.isFile = true ∨ entry.isDirectory = true) := by
    unfold DirectoryEntry.isFile DirectoryEntry.isDirectory
    intro is
    rw [beq_iff_eq.mp is]
    decide
  intro object
  simp only [Bool.or_eq_true, live, beq_iff_eq, Bool.false_eq_true, false_or] at passed
  rcases passed with ((long | volume) | dot) | dotDot
  · exact neither (here (Bool.and_eq_true_iff.mp long).1) object.1
  · exact neither volume object.1
  · exact object.2.1 dot
  · exact object.2.2 dotDot

/-- A directory that `IsDirectoryEmpty_` finds empty has no objects. -/
theorem Sound.isDirectoryEmpty_eq (sound : v.Sound) (readable : v.RootReadable)
    (table : v.IsTable disk (v.firstCluster entry)) :
    ∃ empty, v.isDirectoryEmpty disk entry = .ok empty ∧ (empty = true → ∀ i other,
      v.listing disk (v.firstCluster entry) i = some other → ¬ IsObject other) := by
  unfold isDirectoryEmpty
  rw [sound.scanDirectoryTable_eq readable table]
  refine ⟨_, rfl, fun empty i other here => ?_⟩
  rw [List.all_eq_true] at empty
  refine not_isObject_of_passed (empty other (List.mem_filterMap.mpr ⟨i, ?_, here⟩))
    (live_eq_some here).2.1
  exact List.mem_range.mpr (lt_length_of_live here)

/-- The moved entry is not a directory around its new place. -/
def Outside (v : Volume) (disk : Bytes) (oldPath newPath : Path) : Prop :=
  ∀ p j entry q, v.Denotes disk v.rootCluster (names oldPath.components) p j entry →
    v.Leads disk v.rootCluster (names newPath.components.dropLast) q →
    entry.isDirectory = true → ¬ ReflTransGen (v.Child disk) (v.firstCluster entry) q

theorem Denotes.plain {path : List (List UInt8)} (denotes : v.Denotes disk c path p j entry) :
    entry.filename ≠ kDot ∧ entry.filename ≠ kDotDot := by
  obtain ⟨_, _, _, _, _, formatted, finds⟩ := denotes
  obtain ⟨dot, dotDot, -⟩ := formatFilename_ne_dot formatted
  rw [finds.2.1.2]
  exact ⟨dot, dotDot⟩

section

variable (sound : v.Sound) (fits : v.Fits) (formed : v.WellFormed disk)
include sound fits formed

/-- A lookup of a straight path finds what it denotes, nothing, or the root. -/
theorem Sound.keepsTree_lookup {path : Path.Parsed}
    {next : Option PathLookupResult → Kernel Bytes (Except VfsError α)}
    (straight : v.Straight disk v.rootCluster (names path.1.components))
    (found : ∀ p j entry, v.Denotes disk v.rootCluster (names path.1.components) p j entry →
      v.KeepsTree disk (next (some ⟨entry, p, j * kEntrySize⟩)))
    (missing : v.KeepsTree disk (next none))
    (root : names path.1.components = [] →
      v.KeepsTree disk (next (some ⟨v.makeRootDirectoryEntry, v.rootCluster, 0⟩))) :
    v.KeepsTree disk ((reading fun disk => v.lookupPath disk path.1) >>= next) := by
  rcases sound.lookupPath_straight fits.rootFits.readable formed path.2 straight with
    ⟨p, j, entry, denotes, lookup⟩ | lookup | ⟨skipped, lookup⟩
  · exact .congr (run_bind (run_lookup lookup)) (found p j entry denotes)
  · exact .congr (run_bind (run_lookup lookup)) missing
  · exact .congr (run_bind (run_lookup lookup)) (root skipped)

/-- The parent of a new name is missing, or the operation goes on there. -/
theorem Sound.keepsTree_parent {path : Path.Parsed}
    {next : Except VfsError ℕ → Kernel Bytes (Except VfsError α)} (opens : v.Opens disk path.1)
    (nonempty : path.1.components ≠ []) (formatted : formatFilename path.1.getFilename = some name)
    (missing : v.KeepsTree disk (next (.error .directoryNotFound)))
    (found : ∀ q, v.Leads disk v.rootCluster (names path.1.components.dropLast) q →
      v.KeepsTree disk (next (.ok q))) :
    v.KeepsTree disk ((reading fun disk => v.getParentCluster disk path.1) >>= next) := by
  rcases sound.getParentCluster_straight fits.rootFits.readable formed path.2 nonempty formatted
    opens.1 with ⟨q, leads, parent⟩ | parent
  · exact .congr (run_bind (run_parent parent)) (found q leads)
  · exact .congr (run_bind (run_parent parent)) missing

/-- Creation keeps the tree if its action in the parent directory does. -/
theorem Sound.keepsTree_creating (path : Path.Parsed) (opens : v.Opens disk path.1)
    {enter : ℕ → ShortName → Kernel Bytes (Except VfsError Unit)}
    (keeps : ∀ name q, formatFilename path.1.getFilename = some name → v.Directory disk q →
      v.Closed disk q → v.KeepsTree disk (enter q name)) :
    v.KeepsTree disk (v.creating path.1 enter) := by
  unfold creating
  split_ifs with empty
  · exact .of_error formed rfl
  · have nonempty : path.1.components ≠ [] := by
      intro nothing
      rw [nothing] at empty
      exact empty (Bool.or_true _)
    cases formatted : formatFilename path.1.getFilename with
    | none => exact .of_error formed rfl
    | some name =>
      refine sound.keepsTree_lookup fits formed opens.1 (fun _ _ _ _ => .of_error formed rfl) ?_
        (fun _ => .of_error formed rfl)
      refine sound.keepsTree_parent fits formed opens nonempty formatted (.of_error formed rfl)
        fun q leads => ?_
      exact keeps name q formatted (leads.directory (Directory.root v disk)) (opens.2 q leads)

/-- `CreateFile` keeps the tree. -/
theorem Sound.keepsTree_createFile (path : Path.Parsed) (opens : v.Opens disk path.1) :
    v.KeepsTree disk (v.createFile path.1) := by
  refine sound.keepsTree_creating fits formed path opens fun name q formatted parent closed => ?_
  rcases sound.run_createEntry_file fits formed parent closed (formatFilename_ne_dot formatted)
    with failed | ⟨disk', created, evolves⟩
  · exact .of_error formed failed
  · exact .of_evolves evolves created

/-- `CreateDirectory` keeps the tree. -/
theorem Sound.keepsTree_createDirectory (path : Path.Parsed) (opens : v.Opens disk path.1)
    (visible : Visible path.1) : v.KeepsTree disk (v.createDirectory path.1) := by
  refine sound.keepsTree_creating fits formed path opens fun name q formatted parent closed => ?_
  obtain ⟨result, disk', created, formed', evolves⟩ := sound.run_createDirectoryWithCluster
    formed parent fits closed (formatFilename_ne_dot formatted) (visible.ne_deleted formatted)
  exact ⟨result, disk', created, formed', fun value succeeded => (evolves succeeded).accounted⟩

section

variable (path : Path.Parsed) (straight : v.Straight disk v.rootCluster (names path.1.components))
include straight

/-- `WriteFile` keeps the tree. -/
theorem Sound.keepsTree_writeFile (buffer : List UInt8) (offset : ℕ) :
    v.KeepsTree disk (v.writeFile path.1 buffer offset) := by
  unfold writeFile
  split_ifs with empty
  · exact .of_error formed rfl
  · refine sound.keepsTree_lookup fits formed straight (fun p j entry denotes => ?_)
      (.of_error formed rfl) fun _ => ?_
    · cases file : entry.isFile with
      | false => exact .of_error formed (by simp only [file]; rfl)
      | true =>
        simp only [file]
        have listed := denotes.listed (Directory.root v disk) (.inl file)
        obtain ⟨result, disk', entry', run, changed, -⟩ :=
          sound.run_writeFileData fits formed listed file empty
        exact ⟨result, disk', run, changed.formed, fun _ _ => changed.evolves.accounted⟩
    · simp only [isFile_root]
      exact .of_error formed rfl

/-- `DeleteFile` keeps the tree. -/
theorem Sound.keepsTree_deleteFile : v.KeepsTree disk (v.deleteFile path.1) := by
  refine sound.keepsTree_lookup fits formed straight (fun p j entry denotes => ?_)
    (.of_error formed rfl) fun _ => ?_
  · cases file : entry.isFile with
    | false => exact .of_error formed (by simp only [file]; rfl)
    | true =>
      simp only [file]
      obtain ⟨disk', run, deleted, full⟩ := sound.run_deleteEntry formed
        (denotes.listed (Directory.root v disk) (.inl file)) fits.rootFits (.inl file)
      exact ⟨_, disk', run, deleted.formed, fun _ _ => full⟩
  · simp only [isFile_root]
    exact .of_error formed rfl

/-- `RemoveDirectory` keeps the tree. -/
theorem Sound.keepsTree_removeDirectory (named : names path.1.components ≠ []) :
    v.KeepsTree disk (v.removeDirectory path.1) := by
  refine sound.keepsTree_lookup fits formed straight (fun p j entry denotes => ?_)
    (.of_error formed rfl) fun skipped => absurd skipped named
  cases kind : entry.isDirectory with
  | false => exact .of_error formed (by simp only [kind]; rfl)
  | true =>
    simp only [kind]
    have listed := denotes.listed (Directory.root v disk) (.inr kind)
    obtain ⟨empty, scanned, nothing⟩ := sound.isDirectoryEmpty_eq fits.rootFits.readable
      (formed.table _ (listed.directory_of kind))
    refine .congr (run_bind (run_scan scanned)) ?_
    cases empty with
    | false => exact .of_error formed rfl
    | true =>
      obtain ⟨disk', run, deleted, full⟩ := sound.run_deleteEntry formed listed fits.rootFits
        (.inr ⟨kind, nothing rfl⟩)
      exact ⟨_, disk', run, deleted.formed, fun _ _ => full⟩

end

/-- `Move` keeps the tree. -/
theorem Sound.keepsTree_move (oldPath newPath : Path.Parsed)
    (straight : v.Straight disk v.rootCluster (names oldPath.1.components))
    (named : names oldPath.1.components ≠ []) (opens : v.Opens disk newPath.1)
    (visible : Visible newPath.1) (outside : v.Outside disk oldPath.1 newPath.1) :
    v.KeepsTree disk (v.move oldPath.1 newPath.1) := by
  have root := Directory.root v disk
  refine sound.keepsTree_lookup fits formed straight (fun p j entry denotes => ?_)
    (.of_error formed rfl) fun skipped => absurd skipped named
  refine sound.keepsTree_lookup fits formed opens.1 (fun _ _ _ _ => .of_error formed rfl) ?_
    (fun _ => .of_error formed rfl)
  cases formatted : formatFilename newPath.1.getFilename with
  | none => exact .of_error formed rfl
  | some name =>
    have nonempty : newPath.1.components ≠ [] := by
      intro nothing
      rw [Path.getFilename, nothing] at formatted
      exact nomatch formatted
    refine sound.keepsTree_parent fits formed opens nonempty formatted (.of_error formed rfl)
      fun q leads => ?_
    rcases sound.run_moveEntry fits formed (denotes.directory root) denotes.here denotes.plain
      (leads.directory root) (opens.2 q leads) (formatFilename_ne_dot formatted)
      (visible.ne_deleted formatted) fun _ _ => outside p j entry q denotes leads with
      failed | ⟨disk', k, entry', moved, effect, -⟩
    · exact .of_error formed failed
    · exact .of_evolves effect.evolves moved

/-- An operation that avoids the cases in which the driver damages the tree. -/
def Orderly (v : Volume) (disk : Bytes) : Change → Prop
  | .createFile path => v.Opens disk path.1
  | .createDirectory path => v.Opens disk path.1 ∧ Visible path.1
  | .writeFile path _ _ => v.Straight disk v.rootCluster (names path.1.components)
  | .deleteFile path => v.Straight disk v.rootCluster (names path.1.components)
  | .removeDirectory path =>
    v.Straight disk v.rootCluster (names path.1.components) ∧ names path.1.components ≠ []
  | .move oldPath newPath =>
    v.Straight disk v.rootCluster (names oldPath.1.components) ∧
      names oldPath.1.components ≠ [] ∧ v.Opens disk newPath.1 ∧ Visible newPath.1 ∧
      v.Outside disk oldPath.1 newPath.1

/-- Every orderly operation returns and keeps the tree. -/
theorem Sound.keepsTree_of_orderly (change : Change) (orderly : v.Orderly disk change) :
    v.KeepsTree disk (change.perform v) := by
  cases change with
  | createFile path => exact (sound.keepsTree_createFile fits formed path orderly).map _
  | createDirectory path =>
    exact (sound.keepsTree_createDirectory fits formed path orderly.1 orderly.2).map _
  | writeFile path buffer offset =>
    exact sound.keepsTree_writeFile fits formed path orderly buffer offset
  | deleteFile path => exact (sound.keepsTree_deleteFile fits formed path orderly).map _
  | removeDirectory path =>
    exact (sound.keepsTree_removeDirectory fits formed path orderly.1 orderly.2).map _
  | move oldPath newPath =>
    obtain ⟨straight, named, opens, visible, outside⟩ := orderly
    exact (sound.keepsTree_move fits formed oldPath newPath straight named opens visible
      outside).map _

end

/-- A successful operation that meets a condition on the volume before it. -/
def Performs (v : Volume) (condition : Bytes → Change → Prop) (disk disk' : Bytes) : Prop :=
  ∃ change count, condition disk change ∧
    (change.perform v).run disk = .ok (.ok count) disk'

/-- No directory is its own ancestor, and every cluster in use belongs to one object. -/
structure IsTree (v : Volume) (disk : Bytes) : Prop where
  formed : v.WellFormed disk
  accounted : v.Accounted disk ∅
  acyclic : ∀ c, v.Directory disk c → ¬ TransGen (v.Child disk) c c

theorem WellFormed.isTree (formed : v.WellFormed disk) (accounted : v.Accounted disk ∅) :
    v.IsTree disk :=
  ⟨formed, accounted, fun _ => formed.acyclic⟩

theorem Sound.isTree_of_performs (sound : v.Sound) (fits : v.Fits) (tree : v.IsTree disk)
    (performs : v.Performs v.Orderly disk disk') : v.IsTree disk' := by
  obtain ⟨change, count, orderly, run⟩ := performs
  obtain ⟨result, disk'', run', formed, full⟩ :=
    sound.keepsTree_of_orderly fits tree.formed change orderly
  cases run'.symm.trans run
  exact formed.isTree (full count rfl tree.accounted)

/-- The directories stay a tree along every run of orderly operations. -/
theorem Sound.isTree_of_run (sound : v.Sound) (fits : v.Fits) (tree : v.IsTree disk)
    (run : ReflTransGen (v.Performs v.Orderly) disk disk') : v.IsTree disk' := by
  induction run with
  | refl => exact tree
  | tail _ step ih => exact sound.isTree_of_performs fits ih step

/-- Nothing is listed on a disk of zeros with a fixed root directory. -/
theorem listing_blank (fixed : v.variant.kHasFixedRootDir = true) (i : ℕ) :
    v.listing (fun _ => 0) v.rootCluster i = none := by
  have root : v.IsRootBlock v.rootCluster := ⟨fixed, if_pos fixed⟩
  have blank : v.slots (fun _ => 0) v.rootCluster =
      List.replicate (v.rootSize / kEntrySize) DirectoryEntry.zero := by
    rw [slots_of_root root, ← slotsOf_zero]
    rfl
  rw [listing, blank]
  cases v.rootSize / kEntrySize with
  | zero => rfl
  | succ n => exact live_cons_of_end (by decide)

theorem isTree_blank (fixed : v.variant.kHasFixedRootDir = true) : v.IsTree fun _ => 0 := by
  refine WellFormed.isTree (wellFormed_of_empty_files (.inl ⟨fixed, if_pos fixed⟩) ?_) ?_
  · intro i other here
    rw [listing_blank fixed] at here
    exact nomatch here
  · exact fun x _ taken => absurd (entry_zero v x) taken

theorem straight_singleton (component : List UInt8) : v.Straight disk c [component] := by
  intro front rest split more p j entry denotes
  cases front with
  | nil => exact absurd rfl denotes.ne_nil
  | cons first front =>
    rw [List.cons_append, List.cons.injEq] at split
    exact absurd (List.append_eq_nil_iff.mp split.2.symm).2 more

theorem closed_of_root (root : v.IsRootBlock p) : v.Closed disk p := by
  intro before b next after split
  rw [extent_of_root root] at split
  have length := congrArg List.length split
  simp only [List.length_append, List.length_cons, List.length_nil] at length
  omega

/-- A directory is created on a blank volume. -/
theorem isTree_of_run_small :
    (Change.createDirectory pathA).succeeds (small 1 1 8) (fun _ => 0) = true ∧
      (small 1 1 8).IsTree ((Change.createDirectory pathA).after (small 1 1 8) fun _ => 0) := by
  have sound : (small 1 1 8).Sound := sound_small (by decide) (by decide) (by decide)
  have success : (Change.createDirectory pathA).succeeds (small 1 1 8) (fun _ => 0) = true := by
    decide +kernel
  obtain ⟨count, run⟩ := Change.run_of_succeeds success
  have opens : (small 1 1 8).Opens (fun _ => 0) pathA.1 := by
    refine ⟨by rw [names]; exact straight_singleton _, fun q leads => ?_⟩
    cases leads
    exact closed_of_root ⟨rfl, rfl⟩
  refine ⟨success, Sound.isTree_of_run sound ⟨by decide, fun _ => by decide⟩ (isTree_blank rfl)
    (.single ⟨.createDirectory pathA, count, ⟨opens, by decide⟩, run⟩)⟩

/-- The path `/.`. -/
def pathDot : Path.Parsed := ⟨Path.parse [Vfs.kPathSeparator, 46], Path.valid_parse _⟩

/-- Moving `/.` makes the root directory its own child. -/
theorem not_isTree_of_moved_root :
    (small 1 1 8).IsTree (fun _ => 0) ∧
      (Change.move pathDot pathA).succeeds (small 1 1 8) (fun _ => 0) = true ∧
      ¬ (small 1 1 8).IsTree ((Change.move pathDot pathA).after (small 1 1 8) fun _ => 0) := by
  refine ⟨isTree_blank rfl, by decide +kernel, fun tree => ?_⟩
  refine tree.acyclic _ (Directory.root _ _) (.single ?_)
  have moved : ((small 1 1 8).listing ((Change.move pathDot pathA).after (small 1 1 8) fun _ => 0)
      (small 1 1 8).rootCluster 0).any (fun entry => decide (IsObject entry) && entry.isDirectory &&
        (small 1 1 8).firstCluster entry == (small 1 1 8).rootCluster) = true := by
    decide +kernel
  obtain ⟨entry, here, holds⟩ := (Option.any_eq_true _ _).mp moved
  simp only [Bool.and_eq_true, decide_eq_true_eq, beq_iff_eq] at holds
  exact ⟨0, entry, here, holds.1.1, holds.1.2, holds.2⟩

end AlkOS.Fat.Volume
