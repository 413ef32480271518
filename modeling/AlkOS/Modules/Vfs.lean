import AlkOS.Containers.CritBitTree
import AlkOS.Fs.Path

/-!
# Mount points

`VfsModule` keeps its mount points in a crit-bit tree whose keys are the raw mount
strings. `FindMountPoint` returns the leaf reached by testing critical bits only. The
main result says when this is the longest mounted prefix.
-/

namespace AlkOS.Vfs

open Kernel Containers CritBitTree Vfs.Path

structure MountOptions where
  readOnly : Bool
deriving DecidableEq, Repr

/-- `MountPoint`, over the type of file system drivers. -/
structure MountPoint (Driver : Type) where
  path : Path
  options : MountOptions
  fs : Driver
deriving DecidableEq

abbrev Mounts (Driver : Type) := CritBitTree (MountPoint Driver)

variable {Driver : Type} {path : Path} {answer : Except VfsError Unit}

/-- `VfsModule::Mount`, with the answers of the tree's allocations. -/
def mount (allocation : Allocation) (mountPath : Path) (options : MountOptions) (driver : Driver) :
    Kernel (Mounts Driver) (Except VfsError Unit) := do
  if mountPath.isEmpty || !mountPath.isAbsolute then return .error .invalidPath
  else if ← contains mountPath.cString then return .error .alreadyMounted
  else if ← insert false allocation mountPath.cString ⟨mountPath, options, driver⟩ then
    return .ok ()
  else return .error .unknownError

def unmount (mountPath : Path) : Kernel (Mounts Driver) (Except VfsError Unit) := do
  if mountPath.isEmpty || !mountPath.isAbsolute then return .error .invalidPath
  else if !(← contains mountPath.cString) then return .error .notMounted
  else if ← remove mountPath.cString then return .ok ()
  else return .error .unknownError

def findMountPoint (mounts : Mounts Driver) (path : Path) : Except VfsError (MountPoint Driver) :=
  if path.isEmpty then .error .invalidPath
  else match mounts.getLongestPrefixMatch path.cString with
    | none => .error .mountPointNotFound
    | some found => .ok found

def getRelativePath (absolutePath mountPath : Path) : Path :=
  if mountPath.isRoot then absolutePath
  else if mountPath.componentCount ≥ absolutePath.componentCount then kRoot
  else (absolutePath.components.drop mountPath.componentCount).foldl divAssign kRoot

/-- Appending components one by one to the root. -/
theorem foldl_divAssign {front rest : List (List UInt8)}
    (valid : ∀ part ∈ front ++ rest, Path.IsComponent part)
    (count : (front ++ rest).length ≤ kMaxComponents)
    (short : weight (front ++ rest) ≤ kMaxPathSize) :
    rest.foldl divAssign (parse (join true front)) =
      parse (join true (front ++ rest)) := by
  induction rest generalizing front with
  | nil => rw [List.append_nil, List.foldl_nil]
  | cons component rest ih =>
    have shift : front ++ component :: rest = (front ++ [component]) ++ rest := by simp
    have sub : (front ++ [component]).Sublist ((front ++ [component]) ++ rest) :=
      List.sublist_append_left _ _
    rw [shift] at valid count short ⊢
    rw [List.foldl_cons, Path.divAssign_rebuildPath]
    · exact ih valid count short
    · exact fun part member => valid part (sub.subset member)
    · exact sub.length_le.trans count
    · exact (Path.weight_le_of_sublist sub).trans short

theorem weight_ofString (s : CString) :
    weight (ofString s).components ≤ kMaxPathSize := by
  refine (Path.weight_parseComponents _).trans ?_
  rw [List.length_take]
  unfold kMaxPathSize
  omega

/-- Under a mounted prefix the relative path is what follows the prefix. -/
theorem components_getRelativePath {s : CString} {mountPath : Path}
    (absolute : mountPath.isAbsolute = true)
    (under : mountPath.components <+: (ofString s).components) :
    mountPath.components ++ (getRelativePath (ofString s) mountPath).components =
      (ofString s).components := by
  obtain ⟨rest, whole⟩ := under
  unfold getRelativePath
  split_ifs with root covered
  · simp only [Path.isRoot, absolute, Bool.true_and, List.isEmpty_iff] at root
    rw [root, List.nil_append]
  · have none : rest = [] := by
      have size := congrArg List.length whole
      rw [List.length_append] at size
      change (ofString s).components.length ≤ mountPath.components.length at covered
      exact List.eq_nil_of_length_eq_zero (by omega)
    rw [← whole, none]
    rfl
  · have dropped : (ofString s).components.drop mountPath.componentCount = rest := by
      rw [← whole]
      exact List.drop_left
    have sub : rest.Sublist (ofString s).components := by
      rw [← whole]
      exact List.sublist_append_right _ _
    have valid : ∀ part ∈ rest, Path.IsComponent part :=
      fun part member => Path.isComponent_of_mem (sub.subset member)
    have count : rest.length ≤ kMaxComponents := sub.length_le.trans (List.length_take_le _ _)
    have short : weight rest ≤ kMaxPathSize :=
      (Path.weight_le_of_sublist sub).trans (weight_ofString s)
    have start : kRoot = parse (join true []) := by decide
    have built : rest.foldl divAssign (parse (join true [])) =
        parse (join true rest) := foldl_divAssign valid count short
    rw [dropped, start, built]
    change mountPath.components ++ Path.parseComponents (join true rest) = _
    rw [Path.parseComponents_join valid count short, whole]

/-- A call that changes the mounts, with the string its path is built from. -/
inductive Op (Driver : Type) where
  | mount (allocation : Allocation) (path : CString) (options : MountOptions) (driver : Driver)
  | unmount (path : CString)

/-- The computation of a call. -/
def Op.run : Op Driver → Kernel (Mounts Driver) (Except VfsError Unit)
  | .mount allocation path options driver =>
    Vfs.mount allocation (ofString path) options driver
  | .unmount path => Vfs.unmount (ofString path)

/-- The block of the key is not in use, and the key does not fill it. -/
def Op.Allowed (mounts : Mounts Driver) : Op Driver → Prop
  | .mount allocation path _ _ => Fits (ofString path).cString ∧
      ∀ block ∈ allocation.copy, mounts.Fresh (ofString path).cString block
  | .unmount _ => True

/-- A call that returns. -/
def Step (before after : Mounts Driver) : Prop :=
  ∃ (op : Op Driver) (answer : Except VfsError Unit),
    op.Allowed before ∧ EStateM.run op.run before = .ok answer after

/-- A sequence of calls. -/
def Run : Mounts Driver → Mounts Driver → Prop := Relation.ReflTransGen Step

/-- The tree is sorted, its keys are intact, and every leaf is named by the path it holds. -/
structure Consistent (mounts : Mounts Driver) : Prop where
  sorted : mounts.Sorted
  intact : mounts.Intact
  named : ∀ node ∈ mounts.nodes, node.name = node.value.path.cString
  absolute : ∀ node ∈ mounts.nodes, node.value.path.isAbsolute = true

variable {mounts mounts' : Mounts Driver}

/-- `Contains` returns what it says and nothing is changed. -/
theorem Consistent.contains {key : CString} {present : Bool} (consistent : Consistent mounts)
    (returned : (contains key).run mounts = .ok present mounts') :
    mounts' = mounts ∧ mounts.Readable key ∧ (present = true ↔ mounts.Present key) := by
  have readable := readable_of_contains returned
  obtain ⟨answer, asked, answered⟩ := run_contains consistent.sorted consistent.intact readable
  rw [asked] at returned
  cases returned
  exact ⟨rfl, readable, answered⟩

/-- The answer of the tree is turned into one of the module. -/
theorem eq_of_run_answer {tree : Mounts Driver} {changed : Bool}
    (last : EStateM.run (if changed = true then return .ok () else return .error .unknownError :
      Kernel (Mounts Driver) (Except VfsError Unit)) tree = .ok answer mounts') :
    mounts' = tree := by
  cases changed <;> cases last <;> rfl

/-- `Mount` keeps the tree consistent. -/
theorem Consistent.mount {allocation : Allocation} {options : MountOptions} {driver : Driver}
    (consistent : Consistent mounts) (fits : Fits path.cString)
    (fresh : ∀ block ∈ allocation.copy, mounts.Fresh path.cString block)
    (returned : (mount allocation path options driver).run mounts = .ok answer mounts') :
    Consistent mounts' := by
  unfold Vfs.mount at returned
  split_ifs at returned with invalid
  · cases returned
    exact consistent
  · have absolute : path.isAbsolute = true := by
      simp only [Bool.or_eq_true, Bool.not_eq_true'] at invalid
      exact (Bool.not_eq_false _).mp fun relative => invalid (.inr relative)
    obtain ⟨present, middle, asked, rest⟩ := run_bind_eq_ok returned
    obtain ⟨rfl, readable, -⟩ := consistent.contains asked
    split_ifs at rest
    · cases rest
      exact consistent
    · obtain ⟨inserted, after, added, last⟩ := run_bind_eq_ok rest
      obtain rfl := eq_of_run_answer last
      obtain ⟨added', after, ran, inserts, -⟩ := run_insert consistent.sorted consistent.intact
        readable false allocation ⟨path, options, driver⟩ fits fresh
      rw [ran] at added
      cases added
      cases inserted with
      | false =>
        have nodes := inserts.same rfl
        exact ⟨inserts.sorted, inserts.intact, nodes ▸ consistent.named,
          nodes ▸ consistent.absolute⟩
      | true =>
        obtain ⟨block, -, members⟩ := inserts.added rfl
        refine ⟨inserts.sorted, inserts.intact, fun node member => ?_, fun node member => ?_⟩
        · rcases (members node).mp member with rfl | old
          · rfl
          · exact consistent.named node old.1
        · rcases (members node).mp member with rfl | old
          · exact absolute
          · exact consistent.absolute node old.1

/-- `Unmount` keeps the tree consistent. -/
theorem Consistent.unmount (consistent : Consistent mounts)
    (returned : (unmount path).run mounts = .ok answer mounts') : Consistent mounts' := by
  unfold Vfs.unmount at returned
  split_ifs at returned
  · cases returned
    exact consistent
  · obtain ⟨present, middle, asked, rest⟩ := run_bind_eq_ok returned
    obtain ⟨rfl, readable, -⟩ := consistent.contains asked
    split_ifs at rest
    · cases rest
      exact consistent
    · obtain ⟨removed, after, dropped, last⟩ := run_bind_eq_ok rest
      obtain rfl := eq_of_run_answer last
      obtain ⟨answer, after, ran, -, sorted, intact, members⟩ :=
        run_remove consistent.sorted consistent.intact readable
      rw [ran] at dropped
      cases dropped
      exact ⟨sorted, intact, fun node member => consistent.named node ((members node).mp member).1,
        fun node member => consistent.absolute node ((members node).mp member).1⟩

theorem Consistent.run (run : Run mounts mounts') (consistent : Consistent mounts) :
    Consistent mounts' := by
  induction run with
  | refl => exact consistent
  | tail _ step ih =>
    obtain ⟨op, answer, allowed, returned⟩ := step
    cases op with
    | mount allocation path options driver => exact ih.mount allowed.1 allowed.2 returned
    | unmount path => exact ih.unmount returned

theorem Consistent.empty (memory : Bytes) : Consistent (⟨memory, none⟩ : Mounts Driver) where
  sorted root held := by cases held
  intact node member := by cases member
  named node member := by cases member
  absolute node member := by cases member

/-- The mount points in the tree. -/
def points (mounts : Mounts Driver) : List (MountPoint Driver) :=
  mounts.nodes.map ExternalNode.value

/-- The mount point is mounted at a longest component-wise prefix of the path. -/
structure IsLongestPrefix (mounts : Mounts Driver) (path : Path) (found : MountPoint Driver) :
    Prop where
  mounted : found ∈ points mounts
  under : found.path.components <+: path.components
  longest : ∀ other ∈ points mounts, other.path.components <+: path.components →
    other.path.components.length ≤ found.path.components.length

/-- `FindMountPoint` answers with a longest mounted prefix, to which the relative path adds the
rest, or fails if there is none. -/
def Resolves (mounts : Mounts Driver) (path : Path) : Prop :=
  match findMountPoint mounts path with
  | .ok found => IsLongestPrefix mounts path found ∧
      found.path.components ++ (getRelativePath path found.path).components = path.components
  | .error error => error = .mountPointNotFound ∧
      ∀ other ∈ points mounts, ¬ other.path.components <+: path.components

/-- The path has the bit of the mount string where that first differs from any other. -/
def SidesWith (mounts : Mounts Driver) (path : Path) (found : MountPoint Driver) : Prop :=
  ∀ other ∈ points mounts, other.path.cString ≠ found.path.cString →
    ∃ byte bit, FirstBit found.path.cString other.path.cString byte bit ∧
      bitOf path.cString byte bit = bitOf found.path.cString byte bit

/-- Which mount point `FindMountPoint` returns. -/
theorem findMountPoint_eq_ok_iff (consistent : Consistent mounts) (given : path.isEmpty = false)
    {found : MountPoint Driver} :
    findMountPoint mounts path = .ok found ↔
      found ∈ points mounts ∧ SidesWith mounts path found := by
  have distinct : ∀ node ∈ mounts.nodes, ∀ other ∈ mounts.nodes,
      other ≠ node ↔ other.value.path.cString ≠ node.value.path.cString := by
    intro node member other present
    rw [← consistent.named node member, ← consistent.named other present]
    refine not_congr ⟨fun same => by rw [same], fun same => ?_⟩
    cases held : mounts.root with
    | none =>
      simp only [nodes, held] at member
      cases member
    | some root =>
      simp only [nodes, held] at member present
      rw [← walk_of_name (consistent.sorted root held) present, same,
        walk_of_name (consistent.sorted root held) member]
  have rule : ∀ node, mounts.getBestMatch path.cString = some node ↔ node ∈ mounts.nodes ∧
      SidesWith mounts path node.value := by
    intro node
    rw [getBestMatch_eq_iff consistent.sorted]
    refine and_congr_right fun member => ?_
    simp only [SidesWith, points, List.forall_mem_map]
    refine forall₂_congr fun other present => ?_
    rw [consistent.named node member, consistent.named other present,
      distinct node member other present]
  unfold findMountPoint getLongestPrefixMatch
  rw [given]
  constructor
  · intro answered
    cases best : mounts.getBestMatch path.cString with
    | none =>
      rw [best] at answered
      cases answered
    | some node =>
      rw [best] at answered
      cases answered
      obtain ⟨member, sides⟩ := (rule node).mp best
      exact ⟨List.mem_map_of_mem member, sides⟩
  · intro chosen
    obtain ⟨member, sides⟩ := chosen
    obtain ⟨node, present, rfl⟩ := List.mem_map.mp member
    rw [(rule node).mpr ⟨present, sides⟩]
    rfl

/-- The lookup fails only without mounts. -/
theorem findMountPoint_eq_error_iff (given : path.isEmpty = false) {error : VfsError} :
    findMountPoint mounts path = .error error ↔
      error = .mountPointNotFound ∧ points mounts = [] := by
  unfold findMountPoint getLongestPrefixMatch
  rw [given, if_neg Bool.false_ne_true]
  cases held : mounts.root with
  | none =>
    simp only [getBestMatch, held, Option.map_none, points, nodes, List.map_nil, and_true,
      Except.error.injEq]
    exact eq_comm
  | some root =>
    simp only [getBestMatch, held, Option.map_some, points, nodes, reduceCtorEq, false_iff]
    intro empty
    have member := BitTrie.walk_mem (bits path.cString) root
    rw [List.map_eq_nil_iff.mp empty.2] at member
    cases member

/-- After any mounts of strings that do not fill their blocks, and unmounts, resolution is right for
an absolute path exactly when nothing is mounted or the path takes the side of a longest mounted
prefix against every other mount string. -/
theorem resolves_iff {memory : Bytes} (run : Run ⟨memory, none⟩ mounts) (s : CString)
    (absolute : (ofString s).isAbsolute = true) : Resolves mounts (ofString s) ↔
      points mounts = [] ∨ ∃ found, IsLongestPrefix mounts (ofString s) found ∧
        SidesWith mounts (ofString s) found := by
  have consistent := (Consistent.empty memory).run run
  have given : (ofString s).isEmpty = false := by
    cases shape : (ofString s).raw with
    | nil =>
      change ((ofString s).raw.head? == some kPathSeparator) = true at absolute
      rw [shape] at absolute
      cases absolute
    | cons c rest => rw [Path.isEmpty, shape]; rfl
  unfold Resolves
  cases answer : findMountPoint mounts (ofString s) with
  | error error =>
    obtain ⟨kind, none⟩ := (findMountPoint_eq_error_iff given).mp answer
    refine ⟨fun _ => .inl none, fun _ => ⟨kind, fun other member => ?_⟩⟩
    rw [none] at member
    cases member
  | ok found =>
    obtain ⟨member, sides⟩ := (findMountPoint_eq_ok_iff consistent given).mp answer
    constructor
    · exact fun right => .inr ⟨found, right.1, sides⟩
    · intro condition
      rcases condition with none | ⟨chosen, longest, taken⟩
      · rw [none] at member
        cases member
      · have same := (findMountPoint_eq_ok_iff consistent given).mpr ⟨longest.mounted, taken⟩
        rw [answer] at same
        cases same
        obtain ⟨node, present, rfl⟩ := List.mem_map.mp member
        exact ⟨longest, components_getRelativePath (consistent.absolute node present)
          longest.under⟩

/-- The string `/`. -/
def rootString : CString := ⟨[47], by decide⟩

/-- The string `/mnt`. -/
def mntString : CString := ⟨[47, 109, 110, 116], by decide⟩

/-- The mount of a string. -/
def mounted (s : CString) (block : ℕ) : ExternalNode (MountPoint Unit) :=
  ⟨s, some block, ⟨ofString s, ⟨false⟩, ()⟩⟩

/-- The mounts after mounting `/`. -/
def rootOnly : Mounts Unit :=
  ⟨copyKey (fun _ => 0) rootString (some 8), some (.leaf (mounted rootString 8))⟩

/-- The mounts after mounting `/` and then `/mnt`. -/
def rootAndMnt : Mounts Unit :=
  ⟨copyKey rootOnly.memory mntString (some 16),
    some (.node ⟨1, bitMask 6, .inr ⟨6, by decide, rfl⟩⟩ (.leaf (mounted rootString 8))
      (.leaf (mounted mntString 16)))⟩

/-- The two mounts are a run. -/
theorem run_rootAndMnt : Run ⟨fun _ => 0, none⟩ rootAndMnt := by
  have first : Step ⟨fun _ => 0, none⟩ rootOnly :=
    ⟨.mount ⟨true, some 8, true⟩ rootString ⟨false⟩ (), .ok (), by
      unfold Op.Allowed Fits Fresh
      decide +kernel, rfl⟩
  have second : Step rootOnly rootAndMnt :=
    ⟨.mount ⟨true, some 16, true⟩ mntString ⟨false⟩ (), .ok (), by
      unfold Op.Allowed Fits Fresh
      decide +kernel, rfl⟩
  exact (Relation.ReflTransGen.single first).tail second

/-- `/mnt/a` has the bits of `/mnt` and resolves to it. -/
theorem resolves_mnt_a :
    Resolves rootAndMnt (ofString ⟨[47, 109, 110, 116, 47, 97], by decide⟩) := by
  refine (resolves_iff run_rootAndMnt _ (by decide)).mpr
    (.inr ⟨⟨ofString mntString, ⟨false⟩, ()⟩, ⟨by decide, by decide, by decide⟩, ?_⟩)
  intro other member different
  have which : other = ⟨ofString rootString, ⟨false⟩, ()⟩ := by
    rcases List.mem_cons.mp member with here | there
    · exact here
    · exact absurd (congrArg (fun point => point.path.cString) (List.mem_singleton.mp there))
        different
  subst which
  exact ⟨1, 6, ⟨by decide, by decide, by decide, by decide⟩, by decide⟩

/-- `/foo` lies outside `/mnt`, but its second byte leads to the leaf of `/mnt`. -/
theorem foo_resolves_to_mnt : Run ⟨fun _ => 0, none⟩ rootAndMnt ∧
    findMountPoint rootAndMnt (ofString ⟨[47, 102, 111, 111], by decide⟩) =
      .ok ⟨ofString mntString, ⟨false⟩, ()⟩ ∧
    ¬ Resolves rootAndMnt (ofString ⟨[47, 102, 111, 111], by decide⟩) := by
  have answer : findMountPoint rootAndMnt (ofString ⟨[47, 102, 111, 111], by decide⟩) =
      .ok ⟨ofString mntString, ⟨false⟩, ()⟩ := by rfl
  refine ⟨run_rootAndMnt, answer, fun resolves => ?_⟩
  exact absurd resolves.1.under (by decide)

end AlkOS.Vfs
