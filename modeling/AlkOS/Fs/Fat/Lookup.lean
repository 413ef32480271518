import AlkOS.Fs.Fat.TreeChanges

/-!
# Looking up paths

What a path denotes when only directories are descended into, and that
`LookupPath_` finds it on a well-formed volume. The components `.` and `..` are
skipped by the driver and count for nothing here.
-/

namespace AlkOS.Fat

open Kernel Vfs Relation

/-- The components of a path that are looked up. -/
def names (components : List (List UInt8)) : List (List UInt8) :=
  components.filter fun component => !Volume.isSkipped component

namespace Volume

variable {v : Volume} {disk : Bytes} {c c' p q j k parent offset : ℕ}
  {entry current : DirectoryEntry} {component last : List UInt8}
  {front rest path components : List (List UInt8)} {name : ShortName}

/-- The directory reached from a directory along some names. -/
inductive Leads (v : Volume) (disk : Bytes) : ℕ → List (List UInt8) → ℕ → Prop where
  | nil {c : ℕ} : Leads v disk c [] c
  | cons {c c' j : ℕ} {component : List UInt8} {rest : List (List UInt8)} {name : ShortName}
      {entry : DirectoryEntry} : formatFilename component = some name →
      Finds (v.listing disk c) name j entry → entry.isDirectory = true →
      Leads v disk (v.firstCluster entry) rest c' → Leads v disk c (component :: rest) c'

/-- The entry found under the last name, in the directory the others lead to. -/
def Denotes (v : Volume) (disk : Bytes) (c : ℕ) (path : List (List UInt8)) (p j : ℕ)
    (entry : DirectoryEntry) : Prop :=
  ∃ front last name, path = front ++ [last] ∧ v.Leads disk c front p ∧
    formatFilename last = some name ∧ Finds (v.listing disk p) name j entry

/-- A name is not in a directory. -/
def Missing (v : Volume) (disk : Bytes) (c : ℕ) (component : List UInt8) : Prop :=
  ∀ name, formatFilename component = some name → ∀ j entry,
    ¬ Finds (v.listing disk c) name j entry

theorem isObject_of_finds {listing : ℕ → Option DirectoryEntry}
    (formatted : formatFilename component = some name) (finds : Finds listing name j entry)
    (kind : entry.isFile = true ∨ entry.isDirectory = true) : IsObject entry := by
  obtain ⟨dot, dotDot, -⟩ := formatFilename_ne_dot formatted
  rw [← finds.2.1.2] at dot dotDot
  exact ⟨kind, dot, dotDot⟩

theorem Finds.child (formatted : formatFilename component = some name)
    (finds : Finds (v.listing disk c) name j entry) (kind : entry.isDirectory = true) :
    v.Child disk c (v.firstCluster entry) :=
  ⟨j, entry, finds.1, isObject_of_finds formatted finds (.inr kind), kind, rfl⟩

namespace Leads

theorem trans (first : v.Leads disk c front c') (second : v.Leads disk c' rest q) :
    v.Leads disk c (front ++ rest) q := by
  induction first with
  | nil => exact second
  | cons formatted finds kind _ ih => exact .cons formatted finds kind (ih second)

theorem reaches (leads : v.Leads disk c path p) : ReflTransGen (v.Child disk) c p := by
  induction leads with
  | nil => exact .refl
  | cons formatted finds kind _ ih =>
    exact .head (Finds.child formatted finds kind) ih

theorem directory (leads : v.Leads disk c path p) (known : v.Directory disk c) :
    v.Directory disk p :=
  ReflTransGen.trans known leads.reaches

/-- The directory under the last name. -/
theorem concat_iff : v.Leads disk c (front ++ [last]) q ↔
    ∃ p j entry, v.Denotes disk c (front ++ [last]) p j entry ∧ entry.isDirectory = true ∧
      v.firstCluster entry = q := by
  constructor
  · intro leads
    induction front generalizing c with
    | nil =>
      cases leads with
      | @cons _ _ j _ _ name entry formatted finds kind rest =>
        cases rest
        exact ⟨c, j, entry, ⟨[], last, name, rfl, .nil, formatted, finds⟩, kind, rfl⟩
    | cons component front ih =>
      cases leads with
      | cons formatted finds kind rest =>
        obtain ⟨p, j, entry, ⟨front', last', name, split, leads, formatted', finds'⟩, kind',
          first⟩ := ih rest
        refine ⟨p, j, entry, ⟨component :: front', last', name, ?_, ?_, formatted', finds'⟩,
          kind', first⟩
        · rw [List.cons_append, split, List.cons_append]
        · exact .cons formatted finds kind leads
  · intro ⟨p, j, entry, ⟨front', last', name, split, leads, formatted, finds⟩, kind, first⟩
    rw [split, ← first]
    exact leads.trans (.cons formatted finds kind .nil)

end Leads

namespace Denotes

theorem concat (leads : v.Leads disk c front p) (formatted : formatFilename last = some name)
    (finds : Finds (v.listing disk p) name j entry) :
    v.Denotes disk c (front ++ [last]) p j entry :=
  ⟨front, last, name, rfl, leads, formatted, finds⟩

variable (denotes : v.Denotes disk c path p j entry)
include denotes

theorem directory (known : v.Directory disk c) : v.Directory disk p := by
  obtain ⟨_, _, _, _, leads, _, _⟩ := denotes
  exact leads.directory known

theorem here : v.listing disk p j = some entry := by
  obtain ⟨_, _, _, _, _, _, finds⟩ := denotes
  exact finds.1

theorem ne_nil : path ≠ [] := by
  obtain ⟨front, last, _, rfl, _⟩ := denotes
  simp

/-- Files and directories that are found under a path are objects. -/
theorem listed (known : v.Directory disk c)
    (kind : entry.isFile = true ∨ entry.isDirectory = true) :
    v.Listed disk p j entry := by
  refine ⟨denotes.directory known, denotes.here, ?_⟩
  obtain ⟨_, _, _, _, _, formatted, finds⟩ := denotes
  exact isObject_of_finds formatted finds kind

end Denotes

/-- No proper front of a path denotes anything but a directory. -/
def Straight (v : Volume) (disk : Bytes) (c : ℕ) (path : List (List UInt8)) : Prop :=
  ∀ front rest, path = front ++ rest → rest ≠ [] → ∀ p j entry,
    v.Denotes disk c front p j entry → entry.isDirectory = true

theorem Straight.of_append (straight : v.Straight disk c (front ++ rest)) :
    v.Straight disk c front := fun before after split more =>
  straight before (after ++ rest) (by rw [split, List.append_assoc]) (by simp [more])

/-- A straight path leads to a directory, denotes something else, or lacks a name. -/
theorem Straight.cases (straight : v.Straight disk c path) :
    (∃ p, v.Leads disk c path p) ∨
      (∃ p j entry, v.Denotes disk c path p j entry ∧ entry.isDirectory = false) ∨
      ∃ front component rest p, path = front ++ component :: rest ∧ v.Leads disk c front p ∧
        v.Missing disk p component := by
  induction path using List.reverseRecOn with
  | nil => exact .inl ⟨c, .nil⟩
  | append_singleton path last ih =>
    rcases ih straight.of_append with ⟨p, leads⟩ | ⟨p, j, entry, denotes, kind⟩ |
      ⟨front, component, rest, p, split, leads, missing⟩
    · by_cases absent : v.Missing disk p last
      · exact .inr (.inr ⟨path, last, [], p, rfl, leads, absent⟩)
      · unfold Missing at absent
        push Not at absent
        obtain ⟨name, formatted, j, entry, finds⟩ := absent
        have denotes := Denotes.concat leads formatted finds
        cases kind : entry.isDirectory with
        | true => exact .inl ⟨_, Leads.concat_iff.mpr ⟨p, j, entry, denotes, kind, rfl⟩⟩
        | false => exact .inr (.inl ⟨p, j, entry, denotes, kind⟩)
    · have contra := straight path [last] rfl (by simp) p j entry denotes
      rw [kind] at contra
      exact absurd contra (by decide)
    · exact .inr (.inr ⟨front, component, rest ++ [last], p, by rw [split]; simp, leads, missing⟩)

section

variable (sound : v.Sound) (readable : v.RootReadable)
  (table : v.IsTable disk (v.firstCluster current))
include sound readable table

/-- `FindEntryInDirectory_` searches the listing of a directory. -/
theorem Sound.findEntryInDirectory_eq (component : List UInt8) :
    v.findEntryInDirectory disk current component =
      .ok ((formatFilename component).bind fun name =>
        findSlot name (v.slots disk (v.firstCluster current)) 0) := by
  unfold findEntryInDirectory
  cases formatFilename component with
  | none => rfl
  | some name => exact sound.scanDirectoryTableWithOffset_eq readable _ table

theorem Sound.findEntryInDirectory_of_finds (formatted : formatFilename component = some name)
    (finds : Finds (v.listing disk (v.firstCluster current)) name j entry) :
    v.findEntryInDirectory disk current component = .ok (some (entry, j * kEntrySize)) := by
  rw [sound.findEntryInDirectory_eq readable table, formatted]
  congr 1
  exact findSlot_eq_some.mpr ⟨j, (Nat.zero_add _).symm, finds⟩

theorem Sound.findEntryInDirectory_of_missing
    (missing : v.Missing disk (v.firstCluster current) component) :
    v.findEntryInDirectory disk current component = .ok none := by
  rw [sound.findEntryInDirectory_eq readable table]
  cases formatted : formatFilename component with
  | none => rfl
  | some name =>
    congr 1
    refine Option.eq_none_iff_forall_ne_some.mpr fun pair result => ?_
    obtain ⟨k, -, finds⟩ := findSlot_eq_some.mp result
    exact missing name formatted k _ finds

end

/-- The components of a path around one of its names. -/
theorem names_split (split : names components = front ++ component :: rest) :
    ∃ before after, components = before ++ component :: after ∧ names before = front ∧
      names after = rest ∧ ¬ isSkipped component = true := by
  obtain ⟨before, after, rfl, frontNames, lastNames⟩ := List.filter_eq_append_iff.mp split
  obtain ⟨skips, more, rfl, skipped, taken, restNames⟩ := List.filter_eq_cons_iff.mp lastNames
  refine ⟨before ++ skips, more, by rw [List.append_assoc], ?_, restNames, by simpa using taken⟩
  unfold names
  rw [List.filter_append, frontNames, List.filter_eq_nil_iff.mpr skipped, List.append_nil]

theorem names_cons : names (component :: components) =
    if isSkipped component then names components else component :: names components := by
  unfold names
  rw [List.filter_cons]
  cases isSkipped component <;> rfl

theorem lookupComponents_of_skipped (skipped : names components = []) :
    v.lookupComponents disk components current c parent offset =
      .ok (some ⟨current, parent, offset⟩) := by
  induction components with
  | nil => rfl
  | cons component components ih =>
    rw [names_cons] at skipped
    split_ifs at skipped with here
    rw [lookupComponents, if_pos here]
    exact ih skipped

section

variable (sound : v.Sound) (readable : v.RootReadable) (formed : v.WellFormed disk)
  (known : v.Directory disk c) (first : v.firstCluster current = c)
  (kind : current.isDirectory = true)
include sound readable formed known first kind

/-- The walk passes the directories that a front of the path leads to. -/
theorem Sound.lookupComponents_append (leads : v.Leads disk c (names components) p) :
    ∃ current' parent' offset', v.firstCluster current' = p ∧ current'.isDirectory = true ∧
      ∀ more, v.lookupComponents disk (components ++ more) current c parent offset =
        v.lookupComponents disk more current' p parent' offset' := by
  induction components generalizing current c parent offset with
  | nil =>
    cases leads
    exact ⟨current, parent, offset, first, kind, fun _ => rfl⟩
  | cons component components ih =>
    rw [names_cons] at leads
    split_ifs at leads with skipped
    · obtain ⟨current', parent', offset', first', kind', walk⟩ := ih known first kind leads
      refine ⟨current', parent', offset', first', kind', fun more => ?_⟩
      rw [List.cons_append, lookupComponents, if_pos skipped]
      exact walk more
    · cases leads with
      | @cons _ _ j _ _ name entry formatted finds isDirectory rest =>
        have table := formed.table c known
        subst first
        obtain ⟨current', parent', offset', first', kind', walk⟩ :=
          ih (known.tail (Finds.child formatted finds isDirectory)) rfl isDirectory rest
        refine ⟨current', parent', offset', first', kind', fun more => ?_⟩
        rw [List.cons_append, lookupComponents, if_neg skipped,
          sound.findEntryInDirectory_of_finds readable table formatted finds]
        exact walk more

/-- The walk finds what a path denotes. -/
theorem Sound.lookupComponents_of_denotes
    (denotes : v.Denotes disk c (names components) p j entry) :
    v.lookupComponents disk components current c parent offset =
      .ok (some ⟨entry, p, j * kEntrySize⟩) := by
  obtain ⟨front, last, name, split, leads, formatted, finds⟩ := denotes
  obtain ⟨before, after, rfl, rfl, nothing, taken⟩ := names_split split
  obtain ⟨current', parent', offset', first', -, walk⟩ :=
    sound.lookupComponents_append readable formed known first kind leads
  have table := formed.table p (leads.directory known)
  subst first'
  rw [walk (last :: after), lookupComponents, if_neg taken,
    sound.findEntryInDirectory_of_finds readable table formatted finds]
  exact lookupComponents_of_skipped nothing

/-- The walk stops at a name that is missing. -/
theorem Sound.lookupComponents_of_missing (split : names components = front ++ component :: rest)
    (leads : v.Leads disk c front p) (missing : v.Missing disk p component) :
    v.lookupComponents disk components current c parent offset = .ok none := by
  obtain ⟨before, after, rfl, rfl, -, taken⟩ := names_split split
  obtain ⟨current', parent', offset', first', -, walk⟩ :=
    sound.lookupComponents_append readable formed known first kind leads
  have table := formed.table p (leads.directory known)
  subst first'
  rw [walk (component :: after), lookupComponents, if_neg taken,
    sound.findEntryInDirectory_of_missing readable table missing]
  rfl

end

/-- A cluster number is read back from an entry. -/
theorem firstCluster_setFirstCluster (entry : DirectoryEntry)
    (small : c < 2 ^ v.variant.clusterBits) : v.firstCluster (entry.setFirstCluster c) = c := by
  have wide : 2 ^ v.variant.clusterBits ≤ 2 ^ 32 := by cases v.variant <;> decide
  unfold firstCluster DirectoryEntry.setFirstCluster
  simp only [UInt16.toNat_ofNat']
  rw [show (c / 2 ^ 16 % 2 ^ 16 % 2 ^ 16) * 2 ^ 16 + c % 2 ^ 16 % 2 ^ 16 = c by omega,
    Nat.mod_eq_of_lt small]

theorem Sound.firstCluster_root (sound : v.Sound) :
    v.firstCluster v.makeRootDirectoryEntry = v.rootCluster := by
  refine firstCluster_setFirstCluster DirectoryEntry.zero ?_
  unfold rootCluster
  cases fixed : v.variant.kHasFixedRootDir with
  | true => exact Nat.two_pow_pos _
  | false => exact (sound.rootInRange fixed).2.trans sound.clusters_lt

theorem isDirectory_root (v : Volume) : v.makeRootDirectoryEntry.isDirectory = true := by
  change (Attributes.directory &&& (Attributes.directory ||| Attributes.volumeLabel) ==
    Attributes.directory) = true
  decide

/-- The walk from the root directory. -/
def walkFromRoot (v : Volume) (disk : Bytes) (components : List (List UInt8)) :
    Except Panic (Option PathLookupResult) :=
  v.lookupComponents disk components v.makeRootDirectoryEntry v.rootCluster v.rootCluster 0

theorem lookupPath_eq {path : Path} (valid : path.Valid) (nonempty : path.components ≠ []) :
    v.lookupPath disk path = v.walkFromRoot disk path.components := by
  have notEmpty : path.isEmpty = false := by
    unfold Path.isEmpty
    rw [List.isEmpty_eq_false_iff]
    exact valid.raw nonempty
  have notRoot : path.isRoot = false := by
    unfold Path.isRoot
    rw [List.isEmpty_eq_false_iff.mpr nonempty, Bool.and_false]
  unfold lookupPath
  rw [notEmpty, notRoot]
  rfl

theorem lookupPath_of_empty {path : Path} (valid : path.Valid) (nothing : path.components = []) :
    v.lookupPath disk path = .ok none := by
  refine if_pos ?_
  rcases valid.empty nothing with empty | absolute
  · rw [Path.isEmpty, empty]
    rfl
  · rw [Path.isRoot, absolute, nothing]
    exact Bool.or_true _

/-- `GetParentCluster_` walks along all components but the last. -/
theorem Sound.getParentCluster_eq (sound : v.Sound) {path : Path}
    (valid : path.Valid) (nonempty : path.components ≠ []) :
    v.getParentCluster disk path = (do
      match ← v.walkFromRoot disk path.components.dropLast with
      | none => return .error .directoryNotFound
      | some parent => return .ok (v.firstCluster parent.entry)) := by
  have parent : path.getParent =
      if path.isRelative && path.componentCount == 1 then Path.kCurrentDir
      else Path.rebuildPath path.isAbsolute path.components.dropLast := by
    unfold Path.getParent
    rw [if_neg]
    rw [Path.isRoot, List.isEmpty_eq_false_iff.mpr nonempty, Bool.and_false]
    decide
  unfold getParentCluster
  rw [parent]
  split_ifs with single root root
  · exact absurd root (by decide)
  · have alone : path.components.dropLast = [] := by
      rw [Bool.and_eq_true, beq_iff_eq] at single
      rw [← List.length_eq_zero_iff, List.length_dropLast]
      have count : path.components.length = 1 := single.2
      omega
    rw [alone]
    rfl
  · have alone : path.components.dropLast = [] := by
      have empty := (Bool.and_eq_true_iff.mp root).2
      exact List.isEmpty_iff.mp empty
    rw [alone]
    change Except.ok (Except.ok v.rootCluster) =
      Except.ok (Except.ok (v.firstCluster v.makeRootDirectoryEntry))
    rw [sound.firstCluster_root]
  · have more : path.components.dropLast ≠ [] := by
      intro alone
      refine root ?_
      have absolute : path.isAbsolute = true := by
        by_contra relative
        refine single ?_
        rw [Bool.and_eq_true, beq_iff_eq]
        refine ⟨by rw [Path.isRelative, Bool.eq_false_iff.mpr relative]; rfl, ?_⟩
        have count := congrArg List.length alone
        rw [List.length_dropLast, List.length_nil] at count
        have positive := List.length_pos_iff.mpr nonempty
        change path.components.length = 1
        omega
      rw [alone, absolute]
      rfl
    have walk : v.lookupPath disk
        (Path.rebuildPath path.isAbsolute path.components.dropLast) =
          v.walkFromRoot disk path.components.dropLast := by
      refine lookupPath_eq ⟨?_, ?_, fun alone => absurd alone more⟩ more
      · intro part member
        exact valid.parts part (List.mem_of_mem_dropLast member)
      · intro _
        obtain ⟨first, others, split⟩ := List.exists_cons_of_ne_nil more
        have characters : first ≠ [] := valid.parts first
          (List.mem_of_mem_dropLast (split ▸ List.mem_cons_self))
        exact Path.join_ne_nil _ split characters
    rewrite [walk]
    rfl

variable (sound : v.Sound) (readable : v.RootReadable) (formed : v.WellFormed disk)
include sound readable formed

/-- A walk along names that lead to a directory finds it. -/
theorem Sound.walkFromRoot_of_leads (leads : v.Leads disk v.rootCluster (names components) p) :
    ∃ result, v.walkFromRoot disk components = .ok (some result) ∧
      v.firstCluster result.entry = p ∧ result.entry.isDirectory = true := by
  obtain ⟨current, parent, offset, first, kind, walk⟩ :=
    sound.lookupComponents_append readable formed (Directory.root v disk)
      sound.firstCluster_root v.isDirectory_root leads
  have whole := walk []
  rw [List.append_nil] at whole
  exact ⟨⟨current, parent, offset⟩, whole, first, kind⟩

theorem Sound.walkFromRoot_of_denotes
    (denotes : v.Denotes disk v.rootCluster (names components) p j entry) :
    v.walkFromRoot disk components = .ok (some ⟨entry, p, j * kEntrySize⟩) :=
  sound.lookupComponents_of_denotes readable formed (Directory.root v disk)
    sound.firstCluster_root v.isDirectory_root denotes

theorem Sound.walkFromRoot_of_missing (split : names components = front ++ component :: rest)
    (leads : v.Leads disk v.rootCluster front p) (missing : v.Missing disk p component) :
    v.walkFromRoot disk components = .ok none :=
  sound.lookupComponents_of_missing readable formed (Directory.root v disk)
    sound.firstCluster_root v.isDirectory_root split leads missing

/-- What `LookupPath_` returns for a straight path. -/
theorem Sound.walkFromRoot_cases (straight : v.Straight disk v.rootCluster (names components)) :
    (∃ p, v.Leads disk v.rootCluster (names components) p ∧ ∃ result,
        v.walkFromRoot disk components = .ok (some result) ∧
          v.firstCluster result.entry = p ∧ result.entry.isDirectory = true) ∨
      (∃ p j entry, v.Denotes disk v.rootCluster (names components) p j entry ∧
        entry.isDirectory = false ∧
        v.walkFromRoot disk components = .ok (some ⟨entry, p, j * kEntrySize⟩)) ∨
      (∃ front component rest p, names components = front ++ component :: rest ∧
        v.Leads disk v.rootCluster front p ∧ v.Missing disk p component) ∧
        v.walkFromRoot disk components = .ok none := by
  rcases straight.cases with ⟨p, leads⟩ | ⟨p, j, entry, denotes, kind⟩ |
    ⟨front, component, rest, p, split, leads, missing⟩
  · exact .inl ⟨p, leads, sound.walkFromRoot_of_leads readable formed leads⟩
  · exact .inr (.inl ⟨p, j, entry, denotes, kind,
      sound.walkFromRoot_of_denotes readable formed denotes⟩)
  · exact .inr (.inr ⟨⟨front, component, rest, p, split, leads, missing⟩,
      sound.walkFromRoot_of_missing readable formed split leads missing⟩)

end Volume

end AlkOS.Fat
