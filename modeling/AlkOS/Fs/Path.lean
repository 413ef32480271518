import AlkOS.Kernel.CString

/-!
# Paths

`vfs::Path` keeps the string it was built from, at most 1023 characters of it,
and the non-empty components between separators, at most 64 of them. Derived
paths rebuild their string from components.
-/

namespace AlkOS.Vfs

/-- The errors of the virtual file system. -/
inductive VfsError where
  | fileNotFound
  | directoryNotFound
  | invalidPath
  | mountPointNotFound
  | alreadyMounted
  | notMounted
  | invalidArgument
  | alreadyExists
  | notEmpty
  | notADirectory
  | notAFile
  | invalidName
  | readOnly
  | diskFull
  | crossFilesystemRename
  | unknownError
deriving DecidableEq, Repr

def kMaxPathSize : ℕ := 1024

def kMaxComponents : ℕ := 64

/-- The separator `/`. -/
def kPathSeparator : UInt8 := 47

/-- A path: its string, whether it starts with a separator, and its components. -/
structure Path where
  raw : List UInt8
  isAbsolute : Bool
  components : List (List UInt8)
deriving DecidableEq, Repr

namespace Path

variable (raw : List UInt8)

/-- The components `Parse` finds in a string. -/
def parseComponents : List (List UInt8) :=
  ((raw.splitOn kPathSeparator).filter fun component => !component.isEmpty).take kMaxComponents

def parse : Path where
  raw := raw
  isAbsolute := raw.head? == some kPathSeparator
  components := parseComponents raw

/-- The constructor from a string. -/
def ofString (s : CString) : Path := parse (s.chars.take (kMaxPathSize - 1))

variable (isAbsolute : Bool)

/-- The string that `RebuildPath` writes for the components. -/
def join (components : List (List UInt8)) : List UInt8 :=
  ((if isAbsolute then [kPathSeparator] else []) ++
    [kPathSeparator].intercalate components).take kMaxPathSize

def rebuildPath (components : List (List UInt8)) : Path where
  raw := join isAbsolute components
  isAbsolute := (join isAbsolute components).head? == some kPathSeparator
  components := components

def kCurrentDir : Path := parse [46]

def kRoot : Path := parse [kPathSeparator]

variable (path : Path)

def isEmpty : Bool := path.raw.isEmpty

def isRelative : Bool := !path.isAbsolute

def isRoot : Bool := path.isAbsolute && path.components.isEmpty

def componentCount : ℕ := path.components.length

/-- `CString`: the string up to its first NUL. -/
def cString : CString where
  chars := path.raw.takeWhile (· != 0)
  nulFree := by
    intro member
    have passes := List.mem_takeWhile_imp member
    exact absurd passes (by decide)

/-- `GetFilename`: the last component. -/
def getFilename : List UInt8 := path.components.getLast?.getD []

def getParent : Path :=
  if path.isRoot || path.components.isEmpty then
    if path.isAbsolute then kRoot else kCurrentDir
  else if path.isRelative && path.componentCount == 1 then kCurrentDir
  else rebuildPath path.isAbsolute path.components.dropLast

/-- `operator/`. -/
def div (path other : Path) : Path :=
  if other.isAbsolute then other
  else if path.componentCount + other.componentCount ≤ kMaxComponents then
    rebuildPath path.isAbsolute (path.components ++ other.components)
  else path

/-- `operator/=` with a string; the assignment parses the string again. -/
def divAssign (component : List UInt8) : Path :=
  parse (path.div (parse (component.take (kMaxPathSize - 1)))).raw

/-- One turn of the loop of `GetWeaklyCanonical`. -/
def canonicalStep (canonical : List (List UInt8)) (component : List UInt8) :
    List (List UInt8) :=
  if component = [46] then canonical
  else if component = [46, 46] then
    if canonical ≠ [] ∧ canonical.getLast? ≠ some [46, 46] then canonical.dropLast
    else if isAbsolute = false ∧ canonical.length < kMaxComponents then canonical ++ [component]
    else canonical
  else if canonical.length < kMaxComponents then canonical ++ [component]
  else canonical

/-- The components that `GetWeaklyCanonical` keeps. -/
def canonicalComponents (components : List (List UInt8)) : List (List UInt8) :=
  components.foldl (canonicalStep isAbsolute) []

def getWeaklyCanonical : Path :=
  rebuildPath path.isAbsolute (canonicalComponents path.isAbsolute path.components)

/-- The characters that a list of components needs, with one separator for each. -/
def weight (components : List (List UInt8)) : ℕ :=
  (components.map fun component => component.length + 1).sum

theorem length_intercalate {components : List (List UInt8)} (some : components ≠ []) :
    ([kPathSeparator].intercalate components).length + 1 = weight components := by
  induction components with
  | nil => exact absurd rfl some
  | cons first rest ih =>
    cases rest with
    | nil => simp [weight]
    | cons second rest =>
      have tail := ih (List.cons_ne_nil second rest)
      simp only [List.intercalate_cons_cons, List.length_append, List.length_singleton,
        weight, List.map_cons, List.sum_cons] at tail ⊢
      omega

theorem weight_le_of_sublist {some rest : List (List UInt8)} (sub : some.Sublist rest) :
    weight some ≤ weight rest :=
  (sub.map _).sum_le_sum fun _ _ => Nat.zero_le _

/-- A component has characters and no separator. -/
def IsComponent (component : List UInt8) : Prop :=
  component ≠ [] ∧ kPathSeparator ∉ component

/-- Components contain no separator. -/
theorem not_mem_of_mem_splitOn {raw component : List UInt8}
    (member : component ∈ raw.splitOn kPathSeparator) : kPathSeparator ∉ component := by
  induction raw generalizing component with
  | nil =>
    have same : component = [] := by simpa using member
    rw [same]
    exact List.not_mem_nil
  | cons c rest ih =>
    rw [List.splitOn_cons_eq_if_modifyHead] at member
    split_ifs at member with separator
    · rcases List.mem_cons.mp member with rfl | later
      · exact List.not_mem_nil
      · exact ih later
    · cases parts : rest.splitOn kPathSeparator with
      | nil => exact absurd parts (List.splitOn_ne_nil _ _)
      | cons first others =>
        rw [parts] at member ih
        rcases List.mem_cons.mp member with rfl | later
        · intro inside
          rcases List.mem_cons.mp inside with here | there
          · exact separator (by rw [here]; exact BEq.refl _)
          · exact ih List.mem_cons_self there
        · exact ih (List.mem_cons_of_mem _ later)

theorem isComponent_of_mem {raw component : List UInt8}
    (member : component ∈ parseComponents raw) : IsComponent component := by
  have kept := List.mem_filter.mp (List.mem_of_mem_take member)
  exact ⟨by simpa using kept.2, not_mem_of_mem_splitOn kept.1⟩

/-- Components have characters, and a path without components is empty or the root. -/
structure Valid : Prop where
  parts : ∀ part ∈ path.components, part ≠ []
  raw : path.components ≠ [] → path.raw ≠ []
  empty : path.components = [] → path.raw = [] ∨ path.isAbsolute = true

/-- Parsed paths are valid. -/
theorem valid_parse : (parse raw).Valid where
  parts part member := (isComponent_of_mem member).1
  raw := by
    intro parts nothing
    change raw = [] at nothing
    rw [nothing] at parts
    exact parts rfl
  empty := by
    intro none
    cases raw with
    | nil => exact .inl rfl
    | cons c rest =>
      by_contra relative
      have different : (c == kPathSeparator) = false := by
        simpa [parse] using relative
      obtain ⟨first, others, split⟩ :=
        List.exists_cons_of_ne_nil (List.splitOn_ne_nil kPathSeparator rest)
      change parseComponents (c :: rest) = [] at none
      rw [parseComponents, List.splitOn_cons_eq_if_modifyHead, different, split] at none
      exact nomatch none

/-- A path that was parsed. -/
abbrev Parsed := {path : Path // path.Valid}

theorem weight_parseComponents :
    weight (parseComponents raw) ≤ raw.length + 1 := by
  have sub : (parseComponents raw).Sublist (raw.splitOn kPathSeparator) :=
    (List.take_sublist _ _).trans List.filter_sublist
  have whole := length_intercalate (List.splitOn_ne_nil kPathSeparator raw)
  rw [List.intercalate_splitOn] at whole
  exact (weight_le_of_sublist sub).trans whole.ge

/-- Parsing a rebuilt absolute path gives its components back. -/
theorem parseComponents_join {components : List (List UInt8)}
    (valid : ∀ component ∈ components, IsComponent component)
    (count : components.length ≤ kMaxComponents) (short : weight components ≤ kMaxPathSize) :
    parseComponents (join true components) = components := by
  by_cases empty : components = []
  · subst empty
    decide
  · have size := length_intercalate empty
    have fits : (kPathSeparator :: [kPathSeparator].intercalate components).length ≤
        kMaxPathSize := by
      rw [List.length_cons, size]
      exact short
    rw [join, if_pos rfl, List.singleton_append, List.take_of_length_le fits, parseComponents,
      List.splitOn_cons_eq_if_modifyHead, if_pos (BEq.refl _),
      List.splitOn_intercalate _ (fun component member => (valid component member).2) empty,
      List.filter_cons_of_neg (by simp), List.filter_eq_self.mpr, List.take_of_length_le count]
    intro component member
    simpa using (valid component member).1

theorem join_ne_nil {components others : List (List UInt8)}
    {first : List UInt8} (split : components = first :: others) (characters : first ≠ []) :
    join isAbsolute components ≠ [] := by
  obtain ⟨c, rest, rfl⟩ := List.exists_cons_of_ne_nil characters
  subst split
  cases isAbsolute with
  | true => simp [join, kMaxPathSize]
  | false =>
    cases others with
    | nil => simp [join, kMaxPathSize]
    | cons second others => simp [join, kMaxPathSize]

theorem isAbsolute_join (components : List (List UInt8)) :
    ((join true components).head? == some kPathSeparator) = true := by
  simp [join, kMaxPathSize]

/-- Appending one more component to a short absolute path. -/
theorem divAssign_rebuildPath {front : List (List UInt8)} {component : List UInt8}
    (valid : ∀ part ∈ front ++ [component], IsComponent part)
    (count : (front ++ [component]).length ≤ kMaxComponents)
    (short : weight (front ++ [component]) ≤ kMaxPathSize) :
    divAssign (parse (join true front)) component = parse (join true (front ++ [component])) := by
  have single := valid component (by simp)
  have small : component.length ≤ kMaxPathSize - 1 := by
    have part := weight_le_of_sublist (List.sublist_append_right front [component])
    have one : weight [component] = component.length + 1 := by simp [weight]
    omega
  have relative : (parse component).isAbsolute = false := by
    cases component with
    | nil => exact absurd rfl single.1
    | cons c rest =>
      have other : c ≠ kPathSeparator := fun same => single.2 (same ▸ List.mem_cons_self)
      simpa [parse] using other
  have parts : (parse component).components = [component] := by
    simp only [parse, parseComponents, List.splitOn_eq_singleton single.2]
    rw [List.filter_cons_of_pos (by simpa using single.1)]
    rfl
  have frontValid : parseComponents (join true front) = front := by
    apply parseComponents_join
    · exact fun part member => valid part (List.mem_append_left _ member)
    · rw [List.length_append] at count
      omega
    · exact (weight_le_of_sublist (List.sublist_append_left front [component])).trans short
  unfold divAssign
  rw [List.take_of_length_le small, div, relative]
  have room : (parse (join true front)).componentCount + (parse component).componentCount ≤
      kMaxComponents := by
    simp only [componentCount, parts]
    change (parseComponents (join true front)).length + 1 ≤ _
    rw [frontValid]
    simpa using count
  rw [if_pos room, parts]
  change parse (join ((join true front).head? == some kPathSeparator)
    (parseComponents (join true front) ++ [component])) = _
  rw [isAbsolute_join, frontValid]

end Path

end AlkOS.Vfs
