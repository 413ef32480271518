import AlkOS.Fs.Fat.Operations
import AlkOS.Fs.Normalization

/-!
# Canonical paths

`LookupPath_` skips the components `.` and `..`, while `GetWeaklyCanonical` takes back
a component for each `..`. Both name the same entry exactly if nothing is taken back
and a name is left, or if neither names an entry.
-/

namespace AlkOS.Fat.Volume

open Kernel Vfs Path

variable {v : Volume} {disk : Bytes} {c p j : ℕ} {entry : DirectoryEntry}
  {components front back : List (List UInt8)}

/-- A name is left out of the location of an absolute path, or they are all there. -/
theorem names_locate (components : List (List UInt8)) :
    (locate true components).names = names components ∨
      (locate true components).names.length < (names components).length := by
  induction components using List.reverseRecOn with
  | nil => exact .inl rfl
  | append_singleton front component ih =>
    have split : names (front ++ [component]) = names front ++ names [component] :=
      List.filter_append _ _
    rw [locate_append, split, List.foldl_cons, List.foldl_nil, Location.step]
    split_ifs with dot dots nonempty relative
    · simpa [names, isSkipped, dot] using ih
    · have none : names [component] = [] := by simp [names, isSkipped, dots]
      have positive := List.length_pos_iff.mpr nonempty
      rw [none, List.append_nil, List.length_dropLast]
      rcases ih with same | fewer
      · exact .inr (by rw [← same]; omega)
      · exact .inr (by omega)
    · cases relative
    · simpa [names, isSkipped, dots] using ih
    · simpa [names, isSkipped, dot, dots] using ih

/-- The canonical components are all the names, or some name was taken back. -/
theorem canonicalComponents_spec (bounded : components.length ≤ kMaxComponents) :
    (∀ part ∈ canonicalComponents true components, part ∈ components ∧ isSkipped part = false) ∧
      (canonicalComponents true components = names components ∨
        (canonicalComponents true components).length < (names components).length) := by
  have proper := proper_locate true components
  have canonical : canonicalComponents true components = (locate true components).names := by
    rw [(canonicalComponents_eq bounded).1, Location.parts, proper.up rfl]
    rfl
  refine ⟨fun part member => ⟨mem_of_mem_canonicalComponents member, ?_⟩, ?_⟩
  · rw [canonical] at member
    simp [isSkipped, proper.plain part member]
  · rw [canonical]
    exact names_locate components

/-- Components that are skipped make no difference. -/
theorem lookupComponents_names {current : DirectoryEntry} {parent offset : ℕ} :
    v.lookupComponents disk (names components) current c parent offset =
      v.lookupComponents disk components current c parent offset := by
  induction components generalizing current c parent offset with
  | nil => rfl
  | cons component rest ih =>
    rw [names_cons, lookupComponents]
    split_ifs with skipped
    · exact ih
    · rw [lookupComponents, if_neg skipped]
      cases v.findEntryInDirectory disk current component with
      | error panic => rfl
      | ok found =>
        cases found with
        | none => rfl
        | some found => exact ih

/-- `LookupPath_` on the canonical path: nothing for the root, a walk otherwise. -/
theorem lookupPath_canonical {path : Path} (valid : path.Valid) (absolute : path.isAbsolute = true)
    (bounded : path.components.length ≤ kMaxComponents) :
    v.lookupPath disk path.getWeaklyCanonical =
      if canonicalComponents true path.components = [] then .ok none
      else v.walkFromRoot disk (canonicalComponents true path.components) := by
  have plain := (canonicalComponents_spec bounded).1
  unfold getWeaklyCanonical
  rw [absolute]
  have raw : join true (canonicalComponents true path.components) ≠ [] := fun none => by
    have first := isAbsolute_join (canonicalComponents true path.components)
    rw [none] at first
    exact nomatch first
  have canonical : (rebuildPath true (canonicalComponents true path.components)).Valid :=
    ⟨fun part member => valid.parts part (plain part member).1, fun _ => raw,
      fun _ => .inr (isAbsolute_join _)⟩
  split_ifs with empty
  · exact lookupPath_of_empty canonical empty
  · exact lookupPath_eq canonical empty

/-- The file system and the path agree on what a path names. -/
def Agrees (v : Volume) (disk : Bytes) (path : Path) : Prop :=
  v.lookupPath disk path.getWeaklyCanonical = v.lookupPath disk path

/-- Paths to one directory are equally long. -/
theorem WellFormed.length_eq_of_leads (formed : v.WellFormed disk)
    (first : v.Leads disk v.rootCluster front p) (second : v.Leads disk v.rootCluster back p) :
    front.length = back.length := by
  have top : ∀ {path last}, ¬ v.Leads disk v.rootCluster (path ++ [last]) v.rootCluster := by
    intro path last leads
    obtain ⟨q, j, entry, denotes, kind, same⟩ := Leads.concat_iff.mp leads
    exact formed.ne_root (denotes.listed (Directory.root v disk) (.inr kind)) kind same
  induction front using List.reverseRecOn generalizing back p with
  | nil =>
    cases first
    cases back using List.reverseRecOn with
    | nil => rfl
    | append_singleton back last => exact absurd second top
  | append_singleton front last ih =>
    cases back using List.reverseRecOn with
    | nil =>
      cases second
      exact absurd first top
    | append_singleton back other =>
      obtain ⟨q, j, entry, denotes, kind, same⟩ := Leads.concat_iff.mp first
      obtain ⟨q', k, entry', denotes', kind', same'⟩ := Leads.concat_iff.mp second
      obtain ⟨rfl, -⟩ := formed.parent_unique (denotes.listed (Directory.root v disk) (.inr kind))
        (denotes'.listed (Directory.root v disk) (.inr kind')) kind kind' (same.trans same'.symm)
      obtain ⟨before, x, -, split, leads, -⟩ := denotes
      obtain ⟨before', x', -, split', leads', -⟩ := denotes'
      obtain ⟨rfl, -⟩ := List.append_inj' split rfl
      obtain ⟨rfl, -⟩ := List.append_inj' split' rfl
      rw [List.length_append, List.length_append, ih leads leads']
      rfl

/-- Names of one slot are equally long. -/
theorem WellFormed.length_eq_of_denotes (formed : v.WellFormed disk) {other : DirectoryEntry}
    (first : v.Denotes disk v.rootCluster front p j entry)
    (second : v.Denotes disk v.rootCluster back p j other) : front.length = back.length := by
  obtain ⟨before, x, -, rfl, leads, -⟩ := first
  obtain ⟨before', x', -, rfl, leads', -⟩ := second
  rw [List.length_append, List.length_append, formed.length_eq_of_leads leads leads']
  rfl

section

variable {path : Path} (valid : path.Valid) (absolute : path.isAbsolute = true)
  (bounded : path.components.length ≤ kMaxComponents)
include valid absolute bounded

/-- Both lookups are the same walk if no name is taken back. -/
theorem agrees_of_same_names (same : path.components = [] ∨ names path.components ≠ [] ∧
      canonicalComponents true path.components = names path.components) : v.Agrees disk path := by
  unfold Agrees
  rw [lookupPath_canonical valid absolute bounded]
  rcases same with empty | ⟨named, same⟩
  · rw [lookupPath_of_empty valid empty, empty]
    rfl
  · have nonempty : path.components ≠ [] := fun empty => named (by rw [empty]; rfl)
    rw [lookupPath_eq valid nonempty, same, if_neg named]
    exact lookupComponents_names

/-- What a straight canonical path names. -/
theorem Sound.lookupPath_canonical_resolves (sound : v.Sound) (readable : v.RootReadable)
    (formed : v.WellFormed disk)
    (straight : v.Straight disk v.rootCluster (canonicalComponents true path.components)) :
    (∃ p j entry,
        v.Denotes disk v.rootCluster (canonicalComponents true path.components) p j entry ∧
        v.lookupPath disk path.getWeaklyCanonical = .ok (some ⟨entry, p, j * kEntrySize⟩)) ∨
      ¬ v.Resolves disk (canonicalComponents true path.components) ∧
        v.lookupPath disk path.getWeaklyCanonical = .ok none := by
  have plain : names (canonicalComponents true path.components) =
      canonicalComponents true path.components :=
    List.filter_eq_self.mpr fun part member => by
      simp [((canonicalComponents_spec bounded).1 part member).2]
  rw [lookupPath_canonical valid absolute bounded]
  split_ifs with empty
  · refine .inr ⟨fun ⟨p, j, entry, denotes⟩ => denotes.ne_nil empty, rfl⟩
  · have walk := sound.walkFromRoot_resolves readable formed (by rwa [plain]) (by rwa [plain])
    rwa [plain] at walk

end

/-- The canonical path names the same entry if no name is taken back; on straight paths of a
well-formed volume this is so only then, or if neither path names an entry. -/
theorem Sound.agrees_canonical (sound : v.Sound) (path : Path.Parsed)
    (absolute : path.1.isAbsolute = true) (bounded : path.1.components.length ≤ kMaxComponents) :
    (path.1.components = [] ∨ names path.1.components ≠ [] ∧
        canonicalComponents true path.1.components = names path.1.components →
      v.Agrees disk path.1) ∧
    (v.WellFormed disk → v.RootReadable →
      v.Straight disk v.rootCluster (names path.1.components) →
      v.Straight disk v.rootCluster (canonicalComponents true path.1.components) →
      (v.Agrees disk path.1 ↔ path.1.components = [] ∨ names path.1.components ≠ [] ∧
        (canonicalComponents true path.1.components = names path.1.components ∨
          ¬ v.Resolves disk (names path.1.components) ∧
          ¬ v.Resolves disk (canonicalComponents true path.1.components)))) := by
  refine ⟨agrees_of_same_names path.2 absolute bounded,
    fun formed readable straight straight' => ?_⟩
  have canonical := sound.lookupPath_canonical_resolves path.2 absolute bounded readable formed
    straight'
  by_cases empty : path.1.components = []
  · exact iff_of_true (agrees_of_same_names path.2 absolute bounded (.inl empty)) (.inl empty)
  rw [or_iff_right empty]
  have shorter := (canonicalComponents_spec bounded).2
  by_cases named : names path.1.components = []
  · have taken : canonicalComponents true path.1.components = [] := by
      rw [named] at shorter
      exact shorter.resolve_right (Nat.not_lt_zero _)
    refine iff_of_false (fun agrees => ?_) fun both => both.1 named
    rw [Agrees, lookupPath_canonical path.2 absolute bounded, if_pos taken,
      lookupPath_eq path.2 empty, walkFromRoot, lookupComponents_of_skipped named] at agrees
    cases agrees
  have walk := sound.walkFromRoot_resolves readable formed named straight
  rw [← lookupPath_eq path.2 empty] at walk
  constructor
  · intro agrees
    refine ⟨named, shorter.imp_right fun fewer => ?_⟩
    rcases walk with ⟨p, j, entry, denotes, found⟩ | ⟨unresolved, missing⟩
    · rcases canonical with ⟨q, k, other, denotes', found'⟩ | ⟨-, missing'⟩
      · rw [Agrees, found, found', Except.ok.injEq, Option.some.injEq,
          PathLookupResult.mk.injEq] at agrees
        obtain ⟨-, rfl, offset⟩ := agrees
        obtain rfl := Nat.eq_of_mul_eq_mul_right (by decide) offset
        have equal := formed.length_eq_of_denotes denotes denotes'
        omega
      · rw [Agrees, found, missing'] at agrees
        cases agrees
    · rcases canonical with ⟨q, k, other, -, found'⟩ | ⟨unresolved', -⟩
      · rw [Agrees, missing, found'] at agrees
        cases agrees
      · exact ⟨unresolved, unresolved'⟩
  · rintro ⟨-, same | ⟨unresolved, unresolved'⟩⟩
    · exact agrees_of_same_names path.2 absolute bounded (.inr ⟨named, same⟩)
    · rcases walk with ⟨p, j, entry, denotes, -⟩ | ⟨-, missing⟩
      · exact absurd ⟨p, j, entry, denotes⟩ unresolved
      · rcases canonical with ⟨q, k, other, denotes', -⟩ | ⟨-, missing'⟩
        · exact absurd ⟨q, k, other, denotes'⟩ unresolved'
        · exact missing'.trans missing.symm

/-- Nothing lies above a name in a directory. -/
theorem straight_of_short (short : components.length ≤ 1) : v.Straight disk c components := by
  intro front rest split more p j entry denotes
  have front_pos := List.length_pos_iff.mpr denotes.ne_nil
  have rest_pos := List.length_pos_iff.mpr more
  rw [split, List.length_append] at short
  omega

/-- For a file `/A` the file system agrees with the path on `/../A` and not on `/A/..`. -/
theorem agrees_canonical_dots :
    (small 1 1 8).Agrees ((small 1 1 8).loneFile []) (Path.parse [47, 46, 46, 47, 65]) ∧
      ¬ (small 1 1 8).Agrees ((small 1 1 8).loneFile []) (Path.parse [47, 65, 47, 46, 46]) := by
  have sound : (small 1 1 8).Sound := sound_small (by decide) (by decide) (by decide)
  obtain ⟨formed, here, _⟩ := sound.loneFile_fixed rfl (by decide)
  have readable : (small 1 1 8).RootReadable := fun _ => by decide
  constructor
  · exact ((Sound.agrees_canonical sound ⟨_, Path.valid_parse _⟩ (by decide) (by decide)).2 formed
      readable (straight_of_short (by decide)) (straight_of_short (by decide))).mpr
      (.inr ⟨by decide, .inl (by decide)⟩)
  · intro agrees
    rcases ((Sound.agrees_canonical sound ⟨_, Path.valid_parse _⟩ (by decide) (by decide)).2 formed
      readable (straight_of_short (by decide)) (straight_of_short (by decide))).mp agrees with
      empty | ⟨_, same | ⟨missing, _⟩⟩
    · exact absurd empty (by decide)
    · exact absurd same (by decide)
    · exact missing ⟨_, _, _, denotes_loneFile here⟩

/-- The parent of the root directory, which is the root directory. -/
def pathUp : Path.Parsed := ⟨Path.parse [47, 46, 46], Path.valid_parse _⟩

/-- `/..` is found and its canonical path `/` is not. -/
theorem not_agrees_parent_of_root :
    (small 1 1 8).Sound ∧ (small 1 1 8).WellFormed ((small 1 1 8).loneFile []) ∧
      ¬ (small 1 1 8).Agrees ((small 1 1 8).loneFile []) pathUp.1 := by
  have sound : (small 1 1 8).Sound := sound_small (by decide) (by decide) (by decide)
  refine ⟨sound, (sound.loneFile_fixed rfl (by decide)).1, fun agrees => ?_⟩
  exact nomatch agrees

end AlkOS.Fat.Volume
