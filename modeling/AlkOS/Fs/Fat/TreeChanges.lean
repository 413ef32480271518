import AlkOS.Fs.Fat.Tree

/-!
# Changing the directory tree

What the changes that the driver makes do to the tree: blocks of no object are
written, the chain of an object grows, or one slot of a directory is rewritten.
Each keeps the volume well formed.
-/

namespace AlkOS.Fat.Volume

open Kernel Relation Function

variable {v : Volume} {disk disk' : Bytes} {c c' p q i j k m x : ℕ}
  {entry entry' other : DirectoryEntry} {holder holder' : Option (ℕ × ℕ)} {entries blocks : Set ℕ}
  {l : List ℕ} {new : Option DirectoryEntry}

theorem Frame.listing_eq (frame : v.Frame disk disk' entries blocks) (table : v.IsTable disk c)
    (apart : ∀ x ∈ v.extent disk c, x ∉ entries) (away : ∀ x ∈ v.extent disk c, x ∉ blocks) :
    v.listing disk' c = v.listing disk c := by
  unfold listing
  rw [frame.slots_eq table apart away]

/-- A file whose table entries are left alone keeps its blocks. -/
theorem FileSound.of_frame (fine : v.FileSound disk entry) (file : entry.isFile = true)
    (frame : v.Frame disk disk' entries blocks)
    (apart : ∀ x ∈ v.objectBlocks disk entry, x ∉ entries) :
    v.objectBlocks disk' entry = v.objectBlocks disk entry ∧ v.FileSound disk' entry := by
  have same : v.objectBlocks disk' entry = v.objectBlocks disk entry := by
    by_cases none : v.firstCluster entry = 0
    · rw [objectBlocks, objectBlocks, if_pos ⟨file, none⟩, if_pos ⟨file, none⟩]
    · have kept := (fine.1.resolve_left none).frame frame apart
      rw [objectBlocks, if_neg fun both => none both.2, kept.extent_eq]
  unfold FileSound
  rw [same]
  exact ⟨rfl, fine.1.imp_right fun chain => chain.frame frame apart, fine.2⟩

/-- An object whose table entries are left alone keeps its blocks. -/
theorem WellFormed.objectBlocks_eq (formed : v.WellFormed disk)
    (listed : v.Listed disk c j entry) (frame : v.Frame disk disk' entries blocks)
    (apart : ∀ x ∈ v.objectBlocks disk entry, x ∉ entries) :
    v.objectBlocks disk' entry = v.objectBlocks disk entry := by
  rcases listed.object.1 with file | kind
  · exact ((formed.file c j entry listed file).of_frame file frame apart).1
  · rw [objectBlocks_of_directory kind] at apart ⊢
    rw [objectBlocks_of_directory kind]
    exact (frame.extent_eq (formed.table _ (listed.directory_of kind)) apart).1

/-- The two disks have the same directories with the same entries. -/
def SameTree (v : Volume) (disk disk' : Bytes) : Prop :=
  ∀ c, v.Directory disk c → v.listing disk' c = v.listing disk c

theorem SameTree.directory_iff (same : v.SameTree disk disk') :
    v.Directory disk' c ↔ v.Directory disk c := by
  refine Reachability.congr fun a directory b => ?_
  unfold Child
  rw [same a directory]

theorem SameTree.listed_iff (same : v.SameTree disk disk') :
    v.Listed disk' c j entry ↔ v.Listed disk c j entry := by
  constructor
  · intro ⟨directory, here, object⟩
    have before := same.directory_iff.mp directory
    exact ⟨before, (same c before) ▸ here, object⟩
  · intro ⟨directory, here, object⟩
    exact ⟨same.directory_iff.mpr directory, (same c directory).symm ▸ here, object⟩

/-- The entries are kept, and one holder gains clusters that belonged to nothing. -/
theorem SameTree.wellFormed (same : v.SameTree disk disk') (mine : Option (Option (ℕ × ℕ)))
    (formed : v.WellFormed disk) (table : ∀ c, v.Directory disk c → v.IsTable disk' c)
    (file : ∀ c j entry, v.Listed disk c j entry → entry.isFile = true → v.FileSound disk' entry)
    (root : ∀ x, x ∈ v.extent disk' v.rootCluster ↔
      x ∈ v.extent disk v.rootCluster ∨ mine = some none ∧ x ∈ l)
    (objects : ∀ c j entry, v.Listed disk c j entry → ∀ x, x ∈ v.objectBlocks disk' entry ↔
      x ∈ v.objectBlocks disk entry ∨ mine = some (some (c, j)) ∧ x ∈ l)
    (outside : ∀ holder x, v.Holds disk holder x → mine ≠ some holder → x ∉ l) :
    v.WellFormed disk' ∧
      (∀ holder x, v.Holds disk' holder x → v.Holds disk holder x ∨ mine = some holder ∧ x ∈ l) ∧
      ∀ holder x, v.Holds disk holder x → v.Holds disk' holder x := by
  have back : ∀ holder x, v.Holds disk' holder x →
      v.Holds disk holder x ∨ mine = some holder ∧ x ∈ l := by
    intro holder x holds
    cases holds with
    | root member => exact ((root x).mp member).imp_left .root
    | @object c i _ entry listed member =>
      have before := same.listed_iff.mp listed
      exact ((objects c i entry before x).mp member).imp_left (.object before)
  refine ⟨⟨fun c directory => table c (same.directory_iff.mp directory), ?_, ?_⟩, back, ?_⟩
  · intro c j entry listed
    exact file c j entry (same.listed_iff.mp listed)
  · intro first second x holds holds'
    rcases back first x holds with old | ⟨this, new⟩
    · rcases back second x holds' with old' | ⟨this', new'⟩
      · exact formed.apart first second x old old'
      · by_contra different
        exact outside first x old
          (fun this => different (Option.some.inj (this.symm.trans this'))) new'
    · rcases back second x holds' with old' | ⟨this', new'⟩
      · by_contra different
        exact outside second x old'
          (fun this' => different (Option.some.inj (this.symm.trans this'))) new
      · exact Option.some.inj (this.symm.trans this')
  · intro holder x holds
    cases holds with
    | root member => exact .root ((root x).mpr (.inl member))
    | @object c i _ entry listed member =>
      exact .object (same.listed_iff.mpr listed) ((objects c i entry listed x).mpr (.inl member))

section

variable (formed : v.WellFormed disk)
include formed

/-- Only what one holder has, which gains clusters, and what belongs to nothing is written. -/
theorem WellFormed.gained (mine : Option (Option (ℕ × ℕ)))
    (frame : v.Frame disk disk' entries entries) (within : ∀ x ∈ l, x ∈ entries)
    (outside : ∀ holder x, v.Holds disk holder x → mine ≠ some holder → x ∉ entries)
    (table : ∀ holder c, mine = some holder → v.Hosts disk holder c →
      v.listing disk' c = v.listing disk c ∧ v.IsTable disk' c ∧
        v.extent disk c ⊆ l ∧ v.extent disk' c = l)
    (file : ∀ c j entry, mine = some (some (c, j)) → v.Listed disk c j entry →
      entry.isFile = true → v.FileSound disk' entry ∧
        v.objectBlocks disk entry ⊆ l ∧ v.objectBlocks disk' entry = l) :
    v.WellFormed disk' ∧ v.SameTree disk disk' ∧
      (∀ holder x, v.Holds disk' holder x → v.Holds disk holder x ∨ mine = some holder ∧ x ∈ l) ∧
      ∀ holder x, v.Holds disk holder x → v.Holds disk' holder x := by
  have gains : ∀ {old new : List ℕ} {this : Prop}, this → old ⊆ l ∧ new = l →
      ∀ x, x ∈ new ↔ x ∈ old ∨ this ∧ x ∈ l := by
    rintro old new this here ⟨inside, rfl⟩ x
    exact ⟨fun member => .inr ⟨here, member⟩, fun member => member.elim (@inside x) And.right⟩
  have tables : ∀ holder c, v.Hosts disk holder c → v.Directory disk c →
      v.listing disk' c = v.listing disk c ∧ v.IsTable disk' c ∧
        ∀ x, x ∈ v.extent disk' c ↔ x ∈ v.extent disk c ∨ mine = some holder ∧ x ∈ l := by
    intro holder c hosts directory
    by_cases this : mine = some holder
    · obtain ⟨listing, isTable, new⟩ := table holder c this hosts
      exact ⟨listing, isTable, gains this new⟩
    · have away x (member : x ∈ v.extent disk c) := outside holder x (hosts.holds member) this
      have known := formed.table c directory
      obtain ⟨extent, isTable⟩ := frame.extent_eq known away
      refine ⟨frame.listing_eq known away away, isTable, fun x => ?_⟩
      simp [extent, this]
  have files : ∀ c j entry, v.Listed disk c j entry → entry.isFile = true →
      v.FileSound disk' entry ∧ ∀ x, x ∈ v.objectBlocks disk' entry ↔
        x ∈ v.objectBlocks disk entry ∨ mine = some (some (c, j)) ∧ x ∈ l := by
    intro c j entry listed isFile
    by_cases this : mine = some (some (c, j))
    · exact (file c j entry this listed isFile).imp_right (gains this)
    · obtain ⟨same, fine⟩ := (formed.file c j entry listed isFile).of_frame isFile frame
        fun x member => outside _ x (.object listed member) this
      refine ⟨fine, fun x => ?_⟩
      simp [same, this]
  have same : v.SameTree disk disk' := by
    intro c directory
    obtain ⟨holder, hosts⟩ := directory.exists_hosts
    exact (tables holder c hosts directory).1
  have objects : ∀ c j entry, v.Listed disk c j entry → ∀ x, x ∈ v.objectBlocks disk' entry ↔
      x ∈ v.objectBlocks disk entry ∨ mine = some (some (c, j)) ∧ x ∈ l := by
    intro c j entry listed
    rcases listed.object.1 with isFile | kind
    · exact (files c j entry listed isFile).2
    · rw [objectBlocks_of_directory kind, objectBlocks_of_directory kind]
      exact (tables _ _ (.object listed kind) (listed.directory_of kind)).2.2
  obtain ⟨formed', both⟩ := same.wellFormed mine formed (fun c directory => by
      obtain ⟨holder, hosts⟩ := directory.exists_hosts
      exact (tables holder c hosts directory).2.1)
    (fun c j entry listed isFile => (files c j entry listed isFile).1)
    (tables none _ .root (Directory.root v disk)).2.2 objects
    (fun holder x holds different => outside holder x holds different ∘ within x)
  exact ⟨formed', same, both⟩

/-- Writing what belongs to no object changes nothing. -/
theorem WellFormed.untouched (frame : v.Frame disk disk' entries blocks)
    (avoid : ∀ holder x, v.Holds disk holder x → x ∉ entries ∧ x ∉ blocks) :
    v.WellFormed disk' ∧ v.SameTree disk disk' ∧
      ∀ holder x, v.Holds disk' holder x ↔ v.Holds disk holder x := by
  obtain ⟨formed', same, back, forth⟩ := formed.gained none
    (frame.mono Set.subset_union_left Set.subset_union_right) (List.forall_mem_nil _)
    (fun holder x holds _ inside => inside.elim (avoid holder x holds).1 (avoid holder x holds).2)
    (fun _ _ impossible => nomatch impossible) (fun _ _ _ impossible => nomatch impossible)
  refine ⟨formed', same, fun holder x => ⟨fun holds => ?_, forth holder x⟩⟩
  exact (back holder x holds).elim id fun new => nomatch new.1

/-- The clusters of a chain that grows do not belong to anything else. -/
theorem WellFormed.not_mem_of_grown {l l' : List ℕ} (grown : v.Grown disk disk' l l')
    (owned : ∀ x ∈ l, v.Holds disk holder x)
    (holds : v.Holds disk holder' x) (different : holder ≠ holder') : x ∉ l' := by
  intro member
  rcases grown.fresh x member with old | ⟨known, free⟩
  · exact different (formed.apart _ _ x (owned x old) holds)
  · exact formed.not_holds_of_free known free holds

/-- The chain of a file grows. -/
theorem WellFormed.grown_file {l' : List ℕ} (listed : v.Listed disk p j entry)
    (file : entry.isFile = true)
    (chain : v.Chain disk (v.firstCluster entry) (v.objectBlocks disk entry))
    (grown : v.Grown disk disk' (v.objectBlocks disk entry) l') :
    v.WellFormed disk' ∧ v.SameTree disk disk' ∧ v.objectBlocks disk' entry = l' ∧
      (∀ holder x, v.Holds disk holder x → v.Holds disk' holder x) := by
  have nonzero : v.firstCluster entry ≠ 0 := by
    intro zero
    rw [objectBlocks, if_pos ⟨file, zero⟩] at chain
    obtain ⟨rest, nothing⟩ := chain.exists_cons
    cases nothing
  have chain' := grown.links _ chain
  have mine : v.objectBlocks disk' entry = l' := by
    rw [objectBlocks, if_neg fun both => nonzero both.2, chain'.extent_eq]
  have fine : v.FileSound disk' entry := by
    refine ⟨.inr (mine.symm ▸ chain'), ?_⟩
    rw [mine]
    exact (formed.file p j entry listed file).2.trans
      (Nat.mul_le_mul_right _ grown.starts.length_le)
  obtain ⟨formed', same, -, forth⟩ := formed.gained (some (some (p, j))) grown.frame
    (fun _ => id) (fun holder x holds different => formed.not_mem_of_grown grown
      (fun y member => .object listed member) holds (different ∘ congrArg some))
    (fun holder c this hosts =>
      absurd (Option.some.inj this).symm (hosts.ne_of_file listed file))
    (fun c i other this here _ => by
      obtain ⟨rfl, rfl⟩ := Prod.mk.inj (Option.some.inj (Option.some.inj this))
      rw [← listed.unique here]
      exact ⟨fine, grown.subset, mine⟩)
  exact ⟨formed', same, mine, forth⟩

/-- The table of a directory grows. -/
theorem WellFormed.grown_table (directory : v.Directory disk p)
    (grown : v.TableGrown disk disk' p) :
    v.WellFormed disk' ∧ v.SameTree disk disk' ∧
      (∀ holder x, v.Holds disk holder x → v.Holds disk' holder x) ∧
      ∀ holder x, v.Holds disk' holder x → v.Holds disk holder x ∨ x ∈ v.extent disk' p := by
  obtain ⟨host, hosts⟩ := directory.exists_hosts
  have chain' := grown.grown.links p ((formed.table p directory).chain grown.inner)
  obtain ⟨formed', same, back, forth⟩ := formed.gained (some host) grown.grown.frame
    (fun _ => id) (fun holder x holds different => formed.not_mem_of_grown grown.grown
      (fun y member => hosts.holds member) holds (different ∘ congrArg some))
    (fun holder c this hosts' => by
      cases this
      rw [hosts'.unique hosts]
      exact ⟨grown.listing, chain'.isTable, grown.grown.subset, rfl⟩)
    (fun c i other this here isFile =>
      absurd (Option.some.inj this) (hosts.ne_of_file here isFile))
  exact ⟨formed', same, forth, fun holder x holds => (back holder x holds).imp_right And.right⟩

/-- Every object gets its blocks from one old slot, or from nothing. -/
theorem WellFormed.relisted (source : ℕ × ℕ → ℕ × ℕ)
    (added : ℕ × ℕ) (table : ∀ c, v.Directory disk' c → v.IsTable disk' c)
    (file : ∀ c j entry, v.Listed disk' c j entry → entry.isFile = true → v.FileSound disk' entry)
    (root : v.extent disk' v.rootCluster = v.extent disk v.rootCluster)
    (origin : ∀ c j entry, v.Listed disk' c j entry → ∀ x ∈ v.objectBlocks disk' entry,
      v.Holds disk (some (source (c, j))) x ∨
        (c, j) = added ∧ ∀ holder, ¬ v.Holds disk holder x)
    (injective : ∀ c j entry, v.Listed disk' c j entry → ∀ c' k other, v.Listed disk' c' k other →
      source (c, j) = source (c', k) → (c, j) = (c', k)) : v.WellFormed disk' := by
  refine ⟨table, file, fun first second x holds holds' => ?_⟩
  cases holds with
  | root member =>
    rw [root] at member
    cases holds' with
    | root _ => rfl
    | object listed inside =>
      rcases origin _ _ _ listed x inside with old | ⟨-, nothing⟩
      · exact nomatch formed.apart _ _ x (.root member) old
      · exact absurd (.root member) (nothing none)
  | object listed inside =>
    rcases origin _ _ _ listed x inside with old | ⟨this, nothing⟩
    · cases holds' with
      | root member =>
        rw [root] at member
        exact nomatch formed.apart _ _ x (.root member) old
      | object listed' inside' =>
        rcases origin _ _ _ listed' x inside' with old' | ⟨-, nothing⟩
        · have same := Option.some.inj (formed.apart _ _ x old old')
          rw [injective _ _ _ listed _ _ _ listed' same]
        · exact absurd old (nothing _)
    · cases holds' with
      | root member =>
        rw [root] at member
        exact absurd (.root member) (nothing none)
      | object listed' inside' =>
        rcases origin _ _ _ listed' x inside' with old' | ⟨that, -⟩
        · exact absurd old' (nothing _)
        · rw [this, that]

/-- Rewriting a slot leaves the other directories alone. -/
theorem WellFormed.listing_eq_of_ne (directory : v.Directory disk p)
    (rewrites : v.Rewrites disk disk' p j new) (other : v.Directory disk c) (different : c ≠ p) :
    v.listing disk' c = v.listing disk c := by
  obtain ⟨b, member, frame⟩ := rewrites.frame
  refine frame.listing_eq (formed.table c other) (fun _ _ => id) fun x inside same => ?_
  rw [Set.mem_singleton_iff.mp same] at inside
  exact different (formed.directory_eq other directory inside member)

end

theorem Rewrites.isTable (rewrites : v.Rewrites disk disk' p j new) (table : v.IsTable disk c) :
    v.extent disk' c = v.extent disk c ∧ v.IsTable disk' c := by
  obtain ⟨b, -, frame⟩ := rewrites.frame
  exact frame.extent_eq table fun _ _ => id

/-- An object to be entered: a file with its chain, or a directory with a table. -/
def Placeable (v : Volume) (disk : Bytes) (entry : DirectoryEntry) : Prop :=
  IsObject entry ∧ (entry.isFile = true → v.FileSound disk entry) ∧
    (entry.isDirectory = true → v.IsTable disk (v.firstCluster entry))

theorem WellFormed.placeable (formed : v.WellFormed disk) (listed : v.Listed disk c j entry) :
    v.Placeable disk entry :=
  ⟨listed.object, formed.file c j entry listed,
    fun kind => formed.table _ (listed.directory_of kind)⟩

/-- An object keeps its blocks as long as the table entries stay. -/
theorem Placeable.frame (place : v.Placeable disk entry) (frame : v.Frame disk disk' ∅ blocks) :
    v.objectBlocks disk' entry = v.objectBlocks disk entry ∧ v.Placeable disk' entry := by
  obtain ⟨object, file, table⟩ := place
  rcases object.1 with isFile | kind
  · obtain ⟨same, fine⟩ := (file isFile).of_frame isFile frame fun _ _ => id
    refine ⟨same, object, fun _ => fine, fun kind => ?_⟩
    exact absurd kind (not_isDirectory isFile)
  · obtain ⟨same, table'⟩ := frame.extent_eq (table kind) fun _ _ => id
    refine ⟨?_, object, fun isFile => ?_, fun _ => table'⟩
    · rw [objectBlocks_of_directory kind, objectBlocks_of_directory kind, same]
    · exact absurd kind (not_isDirectory isFile)

theorem Placeable.rewrites (place : v.Placeable disk entry)
    (rewrites : v.Rewrites disk disk' p j new) :
    v.objectBlocks disk' entry = v.objectBlocks disk entry ∧ v.Placeable disk' entry := by
  obtain ⟨b, -, frame⟩ := rewrites.frame
  exact place.frame frame

/-- A slot holds another entry or none, and the others have their objects. -/
abbrev Relists (v : Volume) (disk disk' : Bytes) (p j : ℕ) (new : Option DirectoryEntry) : Prop :=
  ∀ c i other, v.Listed disk' c i other ↔
    if (c, i) = (p, j) then new = some other ∧ IsObject other else v.Listed disk c i other

section

variable (formed : v.WellFormed disk) (directory : v.Directory disk p)
  (rewrites : v.Rewrites disk disk' p j new)
include formed directory rewrites

/-- The listings after a slot was rewritten. -/
theorem WellFormed.listing_eq_ite (known : v.Directory disk c) (i : ℕ) :
    v.listing disk' c i = if (c, i) = (p, j) then new else v.listing disk c i := by
  by_cases here : c = p
  · subst here
    rw [rewrites.listing]
    by_cases this : i = j
    · rw [this, update_self, if_pos rfl]
    · rw [update_of_ne this, if_neg (by simp [this])]
  · rw [formed.listing_eq_of_ne directory rewrites known here, if_neg (by simp [here])]

/-- The subdirectories after a slot was rewritten. -/
theorem WellFormed.child_iff (known : v.Directory disk c) :
    v.Child disk' c m ↔
      (∃ i entry, (c, i) ≠ (p, j) ∧ v.Listed disk c i entry ∧ entry.isDirectory = true ∧
        v.firstCluster entry = m) ∨
      c = p ∧ ∃ entry ∈ new, IsObject entry ∧ entry.isDirectory = true ∧
        v.firstCluster entry = m := by
  constructor
  · intro ⟨i, entry, here, object, kind, first⟩
    rw [formed.listing_eq_ite directory rewrites known i] at here
    split_ifs at here with this
    · exact .inr ⟨(Prod.mk.inj this).1, entry, here, object, kind, first⟩
    · exact .inl ⟨i, entry, this, ⟨known, here, object⟩, kind, first⟩
  · intro edge
    rcases edge with ⟨i, entry, this, listed, kind, first⟩ | ⟨rfl, entry, here, object, kind, first⟩
    · refine ⟨i, entry, ?_, listed.object, kind, first⟩
      rw [formed.listing_eq_ite directory rewrites known i, if_neg this]
      exact listed.here
    · refine ⟨j, entry, ?_, object, kind, first⟩
      rw [formed.listing_eq_ite directory rewrites known j, if_pos rfl]
      exact here

section

variable (place : ∀ other ∈ new, IsObject other → v.Placeable disk other)
  (given : ∀ other ∈ new, IsObject other → ∀ x ∈ v.objectBlocks disk other,
    v.Holds disk (some (p, j)) x ∨ ∀ holder, ¬ v.Holds disk holder x)
include place given

/-- A slot is rewritten; its object has the old blocks or blocks that belonged to nothing. -/
theorem WellFormed.rewritten (stays : v.Directory disk' p)
    (kept : ∀ c i other, v.Listed disk c i other → v.Directory disk' c)
    (directories : ∀ c, v.Directory disk' c → v.Directory disk c ∨
      v.IsTable disk c ∧ ∀ i other, v.listing disk' c i = some other → ¬ IsObject other) :
    v.WellFormed disk' ∧ v.Relists disk disk' p j new := by
  have entries : v.Relists disk disk' p j new := by
    intro c i other
    constructor
    · intro ⟨now, here, object⟩
      have before := (directories c now).resolve_right fun leaf => leaf.2 i other here object
      rw [formed.listing_eq_ite directory rewrites before i] at here
      split_ifs at here ⊢
      · exact ⟨here, object⟩
      · exact ⟨before, here, object⟩
    · intro here
      split_ifs at here with this
      · obtain ⟨rfl, rfl⟩ := Prod.mk.inj this
        refine ⟨stays, ?_, here.2⟩
        rw [formed.listing_eq_ite directory rewrites directory i, if_pos rfl]
        exact here.1
      · refine ⟨kept c i other here, ?_, here.object⟩
        rw [formed.listing_eq_ite directory rewrites here.directory i, if_neg this]
        exact here.here
  have placed : ∀ c i other, v.Listed disk' c i other → v.Placeable disk other := by
    intro c i other here
    rw [entries] at here
    split_ifs at here
    · exact place other here.1 here.2
    · exact formed.placeable here
  refine ⟨formed.relisted id (p, j) ?_ ?_ ?_ ?_ fun _ _ _ _ _ _ _ _ same => same, entries⟩
  · intro c now
    exact (rewrites.isTable ((directories c now).elim (formed.table c) And.left)).2
  · intro c i other here isFile
    exact ((placed c i other here).rewrites rewrites).2.2.1 isFile
  · exact (rewrites.isTable (formed.table _ (Directory.root v disk))).1
  · intro c i other here x member
    rw [((placed c i other here).rewrites rewrites).1] at member
    rw [entries] at here
    split_ifs at here with this
    · exact (given other here.1 here.2 x member).imp (fun old => this ▸ old)
        fun nothing => ⟨this, nothing⟩
    · exact .inl (.object here member)

/-- A slot is rewritten without a change to the directories. -/
theorem WellFormed.rewritten_same (edges : ∀ m,
      (∃ entry ∈ new, IsObject entry ∧ entry.isDirectory = true ∧ v.firstCluster entry = m) ↔
      ∃ entry, v.Listed disk p j entry ∧ entry.isDirectory = true ∧ v.firstCluster entry = m) :
    v.WellFormed disk' ∧ (∀ c, v.Directory disk' c ↔ v.Directory disk c) ∧
      v.Relists disk disk' p j new := by
  have directories : ∀ c, v.Directory disk' c ↔ v.Directory disk c := by
    intro c
    refine Reachability.congr fun a known b => ?_
    rw [formed.child_iff directory rewrites known]
    constructor
    · intro edge
      rcases edge with ⟨i, other, -, here, kind, same⟩ | ⟨rfl, edge⟩
      · exact ⟨i, other, here.here, here.object, kind, same⟩
      · obtain ⟨other, here, kind, same⟩ := (edges b).mp edge
        exact ⟨j, other, here.here, here.object, kind, same⟩
    · intro ⟨i, other, here, object, kind, same⟩
      by_cases this : (a, i) = (p, j)
      · obtain ⟨rfl, rfl⟩ := Prod.mk.inj this
        exact .inr ⟨rfl, (edges b).mpr ⟨other, ⟨known, here, object⟩, kind, same⟩⟩
      · exact .inl ⟨i, other, this, ⟨known, here, object⟩, kind, same⟩
  obtain ⟨formed', entries⟩ := formed.rewritten directory rewrites place given
    ((directories p).mpr directory) (fun c i other here => (directories c).mpr here.directory)
    (fun c now => .inl ((directories c).mp now))
  exact ⟨formed', directories, entries⟩

end

end

section

variable (formed : v.WellFormed disk)
include formed

/-- The entry of an object is replaced by another one for it. -/
theorem WellFormed.replaced (listed : v.Listed disk p j entry)
    (rewrites : v.Rewrites disk disk' p j (some entry')) (place : v.Placeable disk entry')
    (kind : entry'.isDirectory = entry.isDirectory)
    (first : entry.isDirectory = true → v.firstCluster entry' = v.firstCluster entry)
    (given : ∀ x ∈ v.objectBlocks disk entry',
      x ∈ v.objectBlocks disk entry ∨ ∀ holder, ¬ v.Holds disk holder x) :
    v.WellFormed disk' ∧ (∀ c, v.Directory disk' c ↔ v.Directory disk c) ∧
      v.Relists disk disk' p j (some entry') := by
  refine formed.rewritten_same listed.directory rewrites
    (fun other new _ => Option.some.inj new ▸ place)
    (fun other new _ x member => (given x (Option.some.inj new ▸ member)).imp_left (.object listed))
    fun m => ?_
  constructor
  · intro ⟨other, here, _, isDirectory, same⟩
    obtain rfl := Option.some.inj here
    rw [kind] at isDirectory
    exact ⟨entry, listed, isDirectory, (first isDirectory).symm.trans same⟩
  · intro ⟨other, here, isDirectory, same⟩
    obtain rfl := listed.unique here
    exact ⟨entry', rfl, place.1, kind.trans isDirectory, (first isDirectory).trans same⟩

section

variable (directory : v.Directory disk p) (was : v.listing disk p j = none)
  (rewrites : v.Rewrites disk disk' p j (some entry')) (place : v.Placeable disk entry')
include directory was rewrites place

/-- A file is entered into a slot that was not in use. -/
theorem WellFormed.added_file (file : entry'.isFile = true)
    (given : ∀ x ∈ v.objectBlocks disk entry', ∀ holder, ¬ v.Holds disk holder x) :
    v.WellFormed disk' ∧ (∀ c, v.Directory disk' c ↔ v.Directory disk c) ∧
      v.Relists disk disk' p j (some entry') := by
  refine formed.rewritten_same directory rewrites
    (fun other new _ => Option.some.inj new ▸ place)
    (fun other new _ x member => .inr (given x (Option.some.inj new ▸ member))) fun m => ?_
  constructor
  · intro ⟨other, here, _, isDirectory, _⟩
    obtain rfl := Option.some.inj here
    exact absurd isDirectory (not_isDirectory file)
  · intro ⟨other, here, _, _⟩
    exact nomatch was.symm.trans here.here

omit directory was rewrites place in
/-- A file is removed from its slot. -/
theorem WellFormed.removed_file (listed : v.Listed disk p j entry) (file : entry.isFile = true)
    (rewrites : v.Rewrites disk disk' p j none) :
    v.WellFormed disk' ∧ (∀ c, v.Directory disk' c ↔ v.Directory disk c) ∧
      v.Relists disk disk' p j none := by
  refine formed.rewritten_same listed.directory rewrites (fun other new => nomatch new)
    (fun other new => nomatch new) fun m => ?_
  constructor
  · intro ⟨other, here, _⟩
    exact nomatch here
  · intro ⟨other, here, isDirectory, _⟩
    rw [← listed.unique here] at isDirectory
    exact absurd isDirectory (not_isDirectory file)

/-- A directory without objects is entered into a slot that was not in use. -/
theorem WellFormed.added_directory (kind : entry'.isDirectory = true)
    (given : ∀ x ∈ v.objectBlocks disk entry', ∀ holder, ¬ v.Holds disk holder x)
    (empty : ∀ i other, v.listing disk (v.firstCluster entry') i = some other → ¬ IsObject other) :
    v.WellFormed disk' ∧
      (∀ c, v.Directory disk' c ↔ v.Directory disk c ∨ c = v.firstCluster entry') ∧
      v.Relists disk disk' p j (some entry') := by
  have table := place.2.2 kind
  rw [objectBlocks_of_directory kind] at given
  have same : v.listing disk' (v.firstCluster entry') = v.listing disk (v.firstCluster entry') := by
    obtain ⟨b, member, frame⟩ := rewrites.frame
    refine frame.listing_eq table (fun _ _ => id) fun x inside equal => ?_
    obtain ⟨host, hosts⟩ := directory.exists_hosts
    exact given x inside host (hosts.holds (Set.mem_singleton_iff.mp equal ▸ member))
  have directories : ∀ c, v.Directory disk' c ↔
      v.Directory disk c ∨ c = v.firstCluster entry' := by
    intro c
    refine Reachability.add_leaf directory (fun a known b => ?_) ?_
    · rw [formed.child_iff directory rewrites known]
      constructor
      · intro edge
        rcases edge with ⟨i, other, -, here, isDirectory, first⟩ | ⟨rfl, other, here, -, -, first⟩
        · exact .inl ⟨i, other, here.here, here.object, isDirectory, first⟩
        · obtain rfl := Option.some.inj here
          exact .inr ⟨rfl, first.symm⟩
      · intro edge
        rcases edge with ⟨i, other, here, object, isDirectory, first⟩ | ⟨rfl, rfl⟩
        · refine .inl ⟨i, other, fun this => ?_, ⟨known, here, object⟩, isDirectory, first⟩
          obtain ⟨rfl, rfl⟩ := Prod.mk.inj this
          exact nomatch was.symm.trans here
        · exact .inr ⟨rfl, entry', rfl, place.1, kind, rfl⟩
    · intro b ⟨i, other, here, object, _⟩
      rw [same] at here
      exact empty i other here object
  obtain ⟨formed', entries⟩ := formed.rewritten directory rewrites
    (fun other new _ => Option.some.inj new ▸ place)
    (fun other new _ x member => .inr (given x (by
      rw [← objectBlocks_of_directory kind, Option.some.inj new]
      exact member)))
    ((directories p).mpr (.inl directory))
    (fun c i other here => (directories c).mpr (.inl here.directory))
    (fun c now => ((directories c).mp now).imp_right fun equal => by
      rw [equal]
      exact ⟨table, fun i other here => empty i other (same ▸ here)⟩)
  exact ⟨formed', directories, entries⟩

end

/-- A directory without objects is removed from its slot. -/
theorem WellFormed.removed_directory (listed : v.Listed disk p j entry)
    (kind : entry.isDirectory = true) (rewrites : v.Rewrites disk disk' p j none)
    (empty : ∀ i other, v.listing disk (v.firstCluster entry) i = some other → ¬ IsObject other) :
    v.WellFormed disk' ∧
      (∀ c, v.Directory disk' c ↔ v.Directory disk c ∧ c ≠ v.firstCluster entry) ∧
      v.Relists disk disk' p j none := by
  have directories : ∀ c, v.Directory disk' c ↔
      v.Directory disk c ∧ c ≠ v.firstCluster entry := by
    intro c
    refine Reachability.remove_leaf (formed.ne_root listed kind) (fun a known b => ?_) ?_
    · rw [formed.child_iff listed.directory rewrites known]
      constructor
      · intro edge
        rcases edge with ⟨i, other, this, here, isDirectory, first⟩ | ⟨-, other, here, -⟩
        · refine ⟨⟨i, other, here.here, here.object, isDirectory, first⟩, fun equal => this ?_⟩
          obtain ⟨rfl, rfl⟩ := formed.parent_unique here listed isDirectory kind
            (first.trans equal)
          rfl
        · exact nomatch here
      · intro ⟨⟨i, other, here, object, isDirectory, first⟩, different⟩
        refine .inl ⟨i, other, fun this => different ?_, ⟨known, here, object⟩, isDirectory, first⟩
        obtain ⟨rfl, rfl⟩ := Prod.mk.inj this
        rw [← first, Option.some.inj (here.symm.trans listed.here)]
    · intro b ⟨i, other, here, object, _⟩
      exact empty i other here object
  have stays : p ≠ v.firstCluster entry := by
    intro equal
    refine empty j entry ?_ listed.object
    rw [← equal]
    exact listed.here
  obtain ⟨formed', entries⟩ := formed.rewritten listed.directory rewrites
    (fun other new => nomatch new) (fun other new => nomatch new)
    ((directories p).mpr ⟨listed.directory, stays⟩)
    (fun c i other here => (directories c).mpr ⟨here.directory, fun equal => by
      refine empty i other ?_ here.object
      rw [← equal]
      exact here.here⟩)
    (fun c now => .inl ((directories c).mp now).1)
  exact ⟨formed', directories, entries⟩

end

section Moving

variable {middle : Bytes}

variable (formed : v.WellFormed disk) (target : v.Directory disk q) (different : p ≠ q)
  (enters : v.Rewrites disk middle q k (some entry')) (leaves : v.Rewrites middle disk' p j none)
include formed target different enters leaves

/-- The listings after an entry was moved to another directory. -/
theorem WellFormed.listing_eq_moved (source : v.Directory disk p) (known : v.Directory disk c)
    (i : ℕ) :
    v.listing disk' c i =
      if (c, i) = (q, k) then some entry'
      else if (c, i) = (p, j) then none else v.listing disk c i := by
  have first := formed.listing_eq_ite target enters known i
  by_cases here : c = p
  · subst here
    have away : (c, i) ≠ (q, k) := fun equal => different (Prod.mk.inj equal).1
    rw [if_neg away] at first ⊢
    rw [leaves.listing]
    by_cases this : i = j
    · rw [this, update_self, if_pos rfl]
    · rw [update_of_ne this, if_neg (by simp [this])]
      exact first
  · have second : v.listing disk' c = v.listing middle c := by
      obtain ⟨b, member, frame⟩ := leaves.frame
      obtain ⟨same, table⟩ := enters.isTable (formed.table c known)
      rw [(enters.isTable (formed.table p source)).1] at member
      refine frame.listing_eq table (fun _ _ => id) fun x inside equal => here ?_
      rw [same, Set.mem_singleton_iff.mp equal] at inside
      exact formed.directory_eq known source inside member
    rw [second, first]
    congr 1
    rw [if_neg (by simp [here])]

/-- An object is moved to a directory that does not lie inside it. -/
theorem WellFormed.moved (listed : v.Listed disk p j entry) (was : v.listing disk q k = none)
    (object : IsObject entry') (place : v.Placeable disk entry')
    (kind : entry'.isDirectory = entry.isDirectory)
    (blocks : v.objectBlocks disk entry' = v.objectBlocks disk entry)
    (first : v.firstCluster entry' = v.firstCluster entry)
    (outside : entry.isDirectory = true → ¬ ReflTransGen (v.Child disk) (v.firstCluster entry) q) :
    v.WellFormed disk' ∧ (∀ c, v.Directory disk' c ↔ v.Directory disk c) ∧
      ∀ c i other, v.Listed disk' c i other ↔
        if (c, i) = (q, k) then other = entry'
        else (c, i) ≠ (p, j) ∧ v.Listed disk c i other := by
  have slots := fun c (known : v.Directory disk c) i =>
    formed.listing_eq_moved target different enters leaves listed.directory known i
  have kept : ∀ a i other, v.Listed disk a i other → (a, i) ≠ (p, j) →
      v.listing disk' a i = some other := by
    intro a i other here away
    rw [slots a here.directory i, if_neg, if_neg away]
    · exact here.here
    · intro this
      obtain ⟨rfl, rfl⟩ := Prod.mk.inj this
      exact nomatch was.symm.trans here.here
  have directories : ∀ c, v.Directory disk' c ↔ v.Directory disk c := by
    intro c
    cases isDirectory : entry.isDirectory with
    | false =>
      refine Reachability.congr fun a known b => ?_
      constructor
      · intro ⟨i, other, here, isObject, sub, same⟩
        rw [slots a known i] at here
        split_ifs at here with this
        · rw [← Option.some.inj here, kind, isDirectory] at sub
          exact absurd sub (by decide)
        · exact ⟨i, other, here, isObject, sub, same⟩
      · intro ⟨i, other, here, isObject, sub, same⟩
        refine ⟨i, other, kept a i other ⟨known, here, isObject⟩ ?_, isObject, sub, same⟩
        intro this
        obtain ⟨rfl, rfl⟩ := Prod.mk.inj this
        rw [← Option.some.inj (listed.here.symm.trans here), isDirectory] at sub
        exact absurd sub (by decide)
    | true =>
      refine Reachability.move listed.directory (listed.child isDirectory) target
        (outside isDirectory) ?_ ?_ ?_
      · refine ⟨k, entry', ?_, object, kind.trans isDirectory, first⟩
        rw [slots q target k, if_pos rfl]
      · intro a known b ⟨i, other, here, isObject, sub, same⟩ away
        refine ⟨i, other, kept a i other ⟨known, here, isObject⟩ ?_, isObject, sub, same⟩
        intro this
        obtain ⟨rfl, rfl⟩ := Prod.mk.inj this
        rw [← Option.some.inj (listed.here.symm.trans here)] at same
        exact away same.symm
      · intro a known b ⟨i, other, here, isObject, sub, same⟩
        rw [slots a known i] at here
        split_ifs at here with this
        · rw [← Option.some.inj here, first] at same
          exact .inr same.symm
        · exact .inl ⟨i, other, here, isObject, sub, same⟩
  have entries : ∀ c i other, v.Listed disk' c i other ↔
      if (c, i) = (q, k) then other = entry'
      else (c, i) ≠ (p, j) ∧ v.Listed disk c i other := by
    intro c i other
    constructor
    · intro ⟨now, here, isObject⟩
      have before := (directories c).mp now
      rw [slots c before i] at here
      split_ifs at here ⊢ with this that
      · exact (Option.some.inj here).symm
      · exact ⟨that, before, here, isObject⟩
    · intro here
      split_ifs at here with this
      · obtain ⟨rfl, rfl⟩ := Prod.mk.inj this
        rw [here]
        refine ⟨(directories c).mpr target, ?_, object⟩
        rw [slots c target i, if_pos rfl]
      · exact ⟨(directories c).mpr here.2.directory, kept c i other here.2 here.1,
          here.2.object⟩
  have placed : ∀ c i other, v.Listed disk' c i other →
      v.objectBlocks disk' other = v.objectBlocks disk other ∧ v.Placeable disk' other := by
    intro c i other here
    have before : v.Placeable disk other := by
      rw [entries] at here
      split_ifs at here
      · rw [here]
        exact place
      · exact formed.placeable here.2
    obtain ⟨same, between⟩ := before.rewrites enters
    obtain ⟨same', after⟩ := between.rewrites leaves
    exact ⟨same'.trans same, after⟩
  have tables : ∀ c, v.Directory disk c → v.extent disk' c = v.extent disk c ∧
      v.IsTable disk' c := by
    intro c known
    obtain ⟨same, between⟩ := enters.isTable (formed.table c known)
    obtain ⟨same', after⟩ := leaves.isTable between
    exact ⟨same'.trans same, after⟩
  refine ⟨formed.relisted (fun slot => if slot = (q, k) then (p, j) else slot) (q, k) ?_ ?_ ?_ ?_
    ?_, directories, entries⟩
  · intro c now
    exact (tables c ((directories c).mp now)).2
  · intro c i other here isFile
    exact (placed c i other here).2.2.1 isFile
  · exact (tables _ (Directory.root v disk)).1
  · intro c i other here x member
    rw [(placed c i other here).1] at member
    rw [entries] at here
    split_ifs at here with this
    · rw [here, blocks] at member
      rw [if_pos this]
      exact .inl (.object listed member)
    · rw [if_neg this]
      exact .inl (.object here.2 member)
  · intro c i other here c' i' other' here' same
    rw [entries] at here here'
    split_ifs at same here here' with this that
    · rw [this, that]
    · exact absurd same.symm here'.1
    · exact absurd same here.1
    · exact same

end Moving

end AlkOS.Fat.Volume
