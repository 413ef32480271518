import AlkOS.Fs.Path

/-!
# Normal forms of paths

The components of a path lead to a location: names below a directory that lies some
levels above the current one, or below the root directory. `GetWeaklyCanonical` writes
the location down.
-/

namespace AlkOS.Vfs.Path

variable {isAbsolute : Bool} {components others : List (List UInt8)} {raw : List UInt8}

/-- Steps up, and the names that follow. -/
structure Location where
  up : ℕ
  names : List (List UInt8)
deriving DecidableEq, Repr

namespace Location

variable {location : Location}

/-- What a component does to a location; the root directory is its own parent. -/
def step (isAbsolute : Bool) (location : Location) (component : List UInt8) : Location :=
  if component = [46] then location
  else if component = [46, 46] then
    if location.names ≠ [] then { location with names := location.names.dropLast }
    else if isAbsolute = false then { location with up := location.up + 1 } else location
  else { location with names := location.names ++ [component] }

/-- The components that lead to a location and nowhere else on the way. -/
def parts (location : Location) : List (List UInt8) :=
  List.replicate location.up [46, 46] ++ location.names

/-- Names are no steps, and nothing lies above the root directory. -/
structure Proper (isAbsolute : Bool) (location : Location) : Prop where
  plain : ∀ name ∈ location.names, name ≠ [46] ∧ name ≠ [46, 46]
  up : isAbsolute = true → location.up = 0

section

variable (proper : location.Proper isAbsolute)
include proper

/-- A component keeps locations proper. -/
theorem Proper.step (component : List UInt8) :
    (location.step isAbsolute component).Proper isAbsolute := by
  unfold Location.step
  split_ifs with dot dots inside relative
  · exact proper
  · exact ⟨fun name member => proper.plain name (List.dropLast_subset _ member), proper.up⟩
  · exact ⟨proper.plain, fun absolute => nomatch relative.symm.trans absolute⟩
  · exact proper
  · exact ⟨List.forall_mem_append.mpr ⟨proper.plain, List.forall_mem_singleton.mpr ⟨dot, dots⟩⟩,
      proper.up⟩

/-- A step up takes a name back exactly if there is one. -/
theorem Proper.pops_iff :
    location.parts ≠ [] ∧ location.parts.getLast? ≠ some [46, 46] ↔ location.names ≠ [] := by
  constructor
  · rintro ⟨nonempty, last⟩ none
    rw [parts, none, List.append_nil, List.getLast?_replicate] at last
    rw [parts, none, List.append_nil, ne_eq, List.replicate_eq_nil_iff] at nonempty
    exact last (if_neg nonempty)
  · intro nonempty
    have last : location.parts.getLast? = some (location.names.getLast nonempty) := by
      rw [parts, List.getLast?_append, List.getLast?_eq_some_getLast nonempty, Option.some_or]
    refine ⟨fun none => nonempty (List.append_eq_nil_iff.mp none).2, fun dots => ?_⟩
    rw [last, Option.some.injEq] at dots
    exact (proper.plain _ (List.getLast_mem nonempty)).2 dots

/-- The loop of `GetWeaklyCanonical` takes the same step. -/
theorem Proper.canonicalStep_parts (room : location.parts.length < kMaxComponents)
    (component : List UInt8) :
    canonicalStep isAbsolute location.parts component =
        (location.step isAbsolute component).parts ∧
      (location.step isAbsolute component).parts.length ≤ location.parts.length + 1 := by
  unfold canonicalStep Location.step
  rw [if_congr proper.pops_iff rfl rfl]
  simp only [room, and_true]
  split_ifs with dot dots inside relative
  · exact ⟨rfl, Nat.le_succ _⟩
  · refine ⟨List.dropLast_append_of_ne_nil inside, ?_⟩
    simp [parts]
    omega
  · have none : location.names = [] := not_not.mp inside
    simp [parts, none, List.replicate_succ', dots]
  · exact ⟨rfl, Nat.le_succ _⟩
  · simp [parts]
    omega

end

end Location

/-- The location that components lead to. -/
def locate (isAbsolute : Bool) (components : List (List UInt8)) : Location :=
  components.foldl (Location.step isAbsolute) ⟨0, []⟩

/-- The location of a path. -/
def location (path : Path) : Location := locate path.isAbsolute path.components

theorem locate_append : locate isAbsolute (components ++ others) =
    others.foldl (Location.step isAbsolute) (locate isAbsolute components) :=
  List.foldl_append

theorem proper_locate (isAbsolute : Bool) (components : List (List UInt8)) :
    (locate isAbsolute components).Proper isAbsolute := by
  induction components using List.reverseRecOn with
  | nil => exact ⟨nofun, fun _ => rfl⟩
  | append_singleton front last ih =>
    rw [locate_append]
    exact ih.step last

/-- The canonical components are those of the location. -/
theorem canonicalComponents_eq (count : components.length ≤ kMaxComponents) :
    canonicalComponents isAbsolute components = (locate isAbsolute components).parts ∧
      (locate isAbsolute components).parts.length ≤ components.length := by
  induction components using List.reverseRecOn with
  | nil => exact ⟨rfl, Nat.le_refl _⟩
  | append_singleton front last ih =>
    rw [List.length_append, List.length_singleton] at count
    obtain ⟨same, fewer⟩ := ih (by omega)
    obtain ⟨step, more⟩ := (proper_locate isAbsolute front).canonicalStep_parts
      (lt_of_le_of_lt fewer (by omega)) last
    rw [locate_append, canonicalComponents, List.foldl_append]
    exact ⟨(congrArg (canonicalStep isAbsolute · last) same).trans step, more.trans (by simpa)⟩

/-- Canonical components are components of the path. -/
theorem mem_of_mem_canonicalComponents {part : List UInt8}
    (member : part ∈ canonicalComponents isAbsolute components) : part ∈ components := by
  induction components using List.reverseRecOn with
  | nil => exact nomatch member
  | append_singleton front last ih =>
    have steps : ∀ canonical, part ∈ canonicalStep isAbsolute canonical last →
        part ∈ canonical ∨ part = last := by
      intro canonical member
      unfold canonicalStep at member
      split_ifs at member
      · exact .inl member
      · exact .inl (List.dropLast_subset _ member)
      · exact (List.mem_append.mp member).imp_right List.mem_singleton.mp
      · exact .inl member
      · exact (List.mem_append.mp member).imp_right List.mem_singleton.mp
      · exact .inl member
    rw [canonicalComponents, List.foldl_append] at member
    exact List.mem_append.mpr ((steps _ member).imp ih List.mem_singleton.mpr)

/-- A path with proper components, no more than there is room for. -/
structure Formed (path : Path) : Prop where
  parts : ∀ part ∈ path.components, IsComponent part
  count : path.componentCount ≤ kMaxComponents

namespace Formed

variable {path other : Path}

variable (formed : path.Formed)
include formed

theorem getWeaklyCanonical_eq :
    path.getWeaklyCanonical = rebuildPath path.isAbsolute path.location.parts :=
  congrArg _ (canonicalComponents_eq formed.count).1

theorem getWeaklyCanonical : path.getWeaklyCanonical.Formed := by
  refine ⟨fun part member => formed.parts part (mem_of_mem_canonicalComponents member), ?_⟩
  rw [formed.getWeaklyCanonical_eq]
  exact (canonicalComponents_eq formed.count).2.trans formed.count

end Formed

end AlkOS.Vfs.Path
