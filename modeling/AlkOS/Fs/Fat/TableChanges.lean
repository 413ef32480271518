import AlkOS.Fs.Fat.Tables

/-!
# Changing directory tables

`UpdateDirectoryEntry_` replaces one slot of a table. `CreateEntry_` takes the
first slot that is free or marks the end, and extends the table by an empty
cluster when there is none.
-/

namespace AlkOS.Fat.Volume

open Kernel Vfs Function

variable {v : Volume} {disk disk' : Bytes} {b cluster p i j offset size : ℕ}
  {l before after : List ℕ} {items : List DirectoryEntry} {entry : DirectoryEntry} {bytes : Bytes}
  {last free : ℕ}

theorem length_slotsOf (bytes : Bytes) (size : ℕ) :
    (slotsOf bytes size).length = size / kEntrySize := by
  rw [slotsOf, List.length_map, List.length_range]

theorem length_blockSlots (v : Volume) (disk : Bytes) (b : ℕ) :
    (v.blockSlots disk b).length = v.blockSize b / kEntrySize :=
  length_slotsOf _ _

/-- Changing the bytes of one slot. -/
theorem slotsOf_modify {bytes' : Bytes} {f : DirectoryEntry → DirectoryEntry}
    (here : DirectoryEntry.decode (bytes'.view (i * kEntrySize)) =
      f (DirectoryEntry.decode (bytes.view (i * kEntrySize))))
    (away : ∀ n, n < i * kEntrySize ∨ i * kEntrySize + kEntrySize ≤ n → bytes' n = bytes n)
    (size : ℕ) : slotsOf bytes' size = (slotsOf bytes size).modify i f := by
  apply List.ext_getElem
  · rw [List.length_modify, length_slotsOf, length_slotsOf]
  · intro k _ _
    rw [List.getElem_modify]
    simp only [slotsOf, List.getElem_map, List.getElem_range]
    split_ifs with same
    · subst same
      exact here
    · refine DirectoryEntry.decode_congr fun n below => away _ ?_
      rw [show kEntrySize = 32 from rfl]
      omega

/-- Writing the bytes of an entry replaces one slot. -/
theorem slotsOf_blit (bytes : Bytes) (entry : DirectoryEntry) (i size : ℕ) :
    slotsOf (bytes.blit (i * kEntrySize) kEntrySize entry.encode) size =
      (slotsOf bytes size).set i entry := by
  rw [List.set_eq_modify]
  apply slotsOf_modify
  · exact (DirectoryEntry.decode_congr fun n below => Bytes.blit_inside below).trans
      (DirectoryEntry.decode_encode entry)
  · exact fun n away => Bytes.blit_outside away

/-- Mark a slot as the end of the directory. -/
def endMarked (entry : DirectoryEntry) : DirectoryEntry :=
  { entry with filename := update entry.filename 0 kEOD }

/-- Writing one end mark changes one slot. -/
theorem slotsOf_blit_end (bytes : Bytes) (i size : ℕ) :
    slotsOf (bytes.blit (i * kEntrySize) 1 fun _ => kEOD) size =
      (slotsOf bytes size).modify i endMarked := by
  have tail : ∀ n, 0 < n →
      (bytes.blit (i * kEntrySize) 1 fun _ => kEOD).view (i * kEntrySize) n =
        bytes.view (i * kEntrySize) n := fun n positive =>
    Bytes.blit_outside (.inr (Nat.add_le_add_left positive _))
  apply slotsOf_modify
  · rw [DirectoryEntry.decode_of_tail fun n _ => tail n]
    dsimp only
    congr 1
    funext n
    by_cases zero : n = 0
    · rw [zero]
      exact Bytes.blit_inside Nat.one_pos
    · rw [update_of_ne zero]
      exact tail n (Fin.pos_iff_ne_zero.mpr zero)
  · exact fun n away => Bytes.blit_outside
      (away.imp_right (Nat.add_le_add_left (by decide) _).trans)

/-- The slots of a block whose bytes are replaced. -/
theorem blockSlots_putBlock (v : Volume) (disk bytes : Bytes) (b : ℕ) :
    v.blockSlots (v.putBlock disk b bytes) b = slotsOf bytes (v.blockSize b) := by
  refine List.map_congr_left fun i member => ?_
  have wide : kEntrySize = 32 := rfl
  have inside : (i + 1) * kEntrySize ≤ v.blockSize b := by
    refine le_trans (Nat.mul_le_mul_right _ (List.mem_range.mp member)) ?_
    exact Nat.div_mul_le_self _ _
  refine DirectoryEntry.decode_congr fun k below => block_putBlock_self ?_
  rw [Nat.add_mul] at inside
  omega

/-- A slot of a table lies in one of its blocks. -/
theorem exists_block_of_lt {α β : Type*} {f : α → List β} {items : List α} {j : ℕ}
    (inside : j < (items.flatMap f).length) :
    ∃ before b after i, items = before ++ b :: after ∧ i < (f b).length ∧
      j = (before.flatMap f).length + i := by
  induction items generalizing j with
  | nil => exact absurd inside (Nat.not_lt_zero j)
  | cons first items ih =>
    by_cases here : j < (f first).length
    · exact ⟨[], first, items, j, rfl, here, (Nat.zero_add j).symm⟩
    · rw [List.flatMap_cons, List.length_append] at inside
      obtain ⟨before, b, after, i, split, small, place⟩ :=
        ih (j := j - (f first).length) (by omega)
      refine ⟨first :: before, b, after, i, by rw [split, List.cons_append], small, ?_⟩
      rw [List.flatMap_cons, List.length_append]
      omega

/-- The slots of a table after a change of one of its blocks. -/
theorem Frame.slots_split (frame : v.Frame disk disk' ∅ {b}) (table : v.IsTable disk p)
    (split : v.extent disk p = before ++ b :: after) :
    v.slots disk' p = before.flatMap (v.blockSlots disk) ++
      (v.blockSlots disk' b ++ after.flatMap (v.blockSlots disk)) := by
  have nodup := table.nodup
  rw [split] at nodup
  obtain ⟨-, inner, apart⟩ := List.nodup_append.mp nodup
  have unchanged : ∀ x ∈ v.extent disk p, x ≠ b → v.blockSlots disk' x = v.blockSlots disk x :=
    fun x member different => blockSlots_congr (frame.block x (table.isBlock member) different)
  unfold slots
  rw [(frame.extent_eq table fun _ _ => id).1, split, List.flatMap_append, List.flatMap_cons]
  congr 1
  · refine List.flatMap_congr fun x member => unchanged x ?_ ?_
    · rw [split]
      exact List.mem_append_left _ member
    · exact apart x member b List.mem_cons_self
  · congr 1
    refine List.flatMap_congr fun x member => unchanged x ?_ ?_
    · rw [split]
      exact List.mem_append_right _ (List.mem_cons_of_mem b member)
    · intro same
      exact (List.nodup_cons.mp inner).1 (same ▸ member)

theorem slots_eq_split (split : v.extent disk p = before ++ b :: after) :
    v.slots disk p = before.flatMap (v.blockSlots disk) ++
      (v.blockSlots disk b ++ after.flatMap (v.blockSlots disk)) := by
  unfold slots
  rw [split, List.flatMap_append, List.flatMap_cons]

/-- Replace one slot of a block. -/
def putSlot (v : Volume) (disk : Bytes) (b i : ℕ) (entry : DirectoryEntry) : Bytes :=
  v.putBlock disk b ((v.block disk b).blit (i * kEntrySize) kEntrySize entry.encode)

theorem blockSlots_putSlot (v : Volume) (disk : Bytes) (b i : ℕ) (entry : DirectoryEntry) :
    v.blockSlots (v.putSlot disk b i entry) b = (v.blockSlots disk b).set i entry := by
  rw [putSlot, blockSlots_putBlock, slotsOf_blit]
  rfl

section

variable (sound : v.Sound)
include sound

/-- Replacing a slot of a block replaces a slot of the table. -/
theorem Sound.slots_putSlot (table : v.IsTable disk p)
    (split : v.extent disk p = before ++ b :: after) (inside : i < (v.blockSlots disk b).length) :
    v.slots (v.putSlot disk b i entry) p =
      (v.slots disk p).set ((before.flatMap (v.blockSlots disk)).length + i) entry := by
  have known : v.IsBlock b :=
    table.isBlock (split ▸ List.mem_append_right _ List.mem_cons_self)
  have frame : v.Frame disk (v.putSlot disk b i entry) ∅ {b} := sound.frame_putBlock known
  rw [frame.slots_split table split, slots_eq_split split, blockSlots_putSlot,
    List.set_append_right _ _ (Nat.le_add_right _ _), Nat.add_sub_cancel_left,
    List.set_append_left _ _ inside]

theorem Sound.clusterSize_eq :
    v.clusterSize / kEntrySize * kEntrySize = v.clusterSize :=
  Nat.div_mul_cancel ((sound.sectorSlots).mul_left v.sectorsPerCluster)

theorem Sound.slots_pos : 0 < v.clusterSize / kEntrySize := by
  have size := sound.clusterSize_eq
  have positive := sound.clusterSize_pos
  refine Nat.pos_of_ne_zero fun zero => ?_
  rw [zero] at size
  omega

theorem Sound.blockSize_eq (b : ℕ) :
    v.blockSize b / kEntrySize * kEntrySize = v.blockSize b := by
  unfold blockSize
  split_ifs
  · exact Nat.div_mul_cancel (sound.sectorSlots.mul_left v.rootSectors)
  · exact sound.clusterSize_eq

omit sound in
theorem length_flatMap_blockSlots (known : ∀ x ∈ l, v.InRange x) :
    (l.flatMap (v.blockSlots disk)).length = l.length * (v.clusterSize / kEntrySize) := by
  induction l with
  | nil => rw [List.flatMap_nil, List.length_nil, List.length_nil, Nat.zero_mul]
  | cons x l ih =>
    rw [List.flatMap_cons, List.length_append, length_blockSlots,
      blockSize_of_inRange (known x List.mem_cons_self),
      ih fun y member => known y (List.mem_cons_of_mem x member), List.length_cons, Nat.add_mul,
      Nat.one_mul, Nat.add_comm]

/-- The walk of `UpdateEntryInClusterDir_` reaches the cluster of the offset. -/
theorem Sound.seekCluster_eq {fuel : ℕ} (chain : v.Chain disk cluster (before ++ b :: after))
    (inside : offset < v.clusterSize) (enough : before.length * v.clusterSize + offset < fuel) :
    v.seekCluster disk fuel cluster (before.length * v.clusterSize + offset) = .ok (b, offset) := by
  induction before generalizing cluster fuel with
  | nil =>
    cases fuel with
    | zero => exact absurd enough (Nat.not_lt_zero _)
    | succ fuel =>
      obtain ⟨rest, split⟩ := chain.exists_cons
      have same : b = cluster := (List.cons.inj split).1
      rw [List.length_nil, Nat.zero_mul, Nat.zero_add, seekCluster, if_neg (by omega), same]
      rfl
  | cons x before ih =>
    cases fuel with
    | zero => exact absurd enough (Nat.not_lt_zero _)
    | succ fuel =>
      rw [List.length_cons, Nat.add_mul, Nat.one_mul] at enough ⊢
      obtain ⟨rest, split⟩ := chain.exists_cons
      obtain ⟨rfl, -⟩ := List.cons.inj split
      rcases chain.next with ⟨none, -⟩ | ⟨-, tail⟩
      · exact absurd none (List.append_ne_nil_of_right_ne_nil _ (List.cons_ne_nil _ _))
      · rw [seekCluster, if_pos ⟨by omega, chain.lt_kEOC chain.start_mem⟩,
          getFATEntry_of_passes (chain.passes sound)]
        have less : before.length * v.clusterSize + v.clusterSize + offset - v.clusterSize =
            before.length * v.clusterSize + offset := by omega
        rw [less]
        exact ih tail (by omega)

/-- `UpdateDirectoryEntry_` replaces the slot at an offset. -/
theorem Sound.run_updateDirectoryEntry (fits : v.RootFits) (table : v.IsTable disk p)
    (split : v.extent disk p = before ++ b :: after) (inside : i < (v.blockSlots disk b).length)
    (entry : DirectoryEntry) :
    EStateM.run (v.updateDirectoryEntry p
        (((before.flatMap (v.blockSlots disk)).length + i) * kEntrySize) entry) disk =
      .ok () (v.putSlot disk b i entry) := by
  have wide : kEntrySize = 32 := rfl
  rw [length_blockSlots] at inside
  have small : i * kEntrySize < v.blockSize b := by
    rw [← sound.blockSize_eq b, wide]
    rw [wide] at inside
    omega
  unfold updateDirectoryEntry
  by_cases root : v.IsRootBlock p
  · rw [extent_of_root root, List.singleton_eq_append_iff] at split
    rcases split with ⟨rfl, shape⟩ | ⟨-, shape⟩
    · obtain ⟨same, -⟩ := List.cons.inj shape
      subst same
      have size : v.blockSize b = v.rootSize := if_pos root
      have read : (reading v.readRoot).run disk = .ok (v.root disk) disk :=
        run_reading_of_ok (readRoot_eq (fits.readable root.1) disk)
      rw [if_pos (isRootBlock_iff.mpr root), List.flatMap_nil, List.length_nil, Nat.zero_add,
        updateEntryInFixedRootDir, if_neg (by omega), run_bind read,
        run_bind (run_checkBuffer (fits root.1) disk), putSlot, putBlock, block,
        if_pos root, if_pos root]
      rfl
    · exact absurd shape (by simp)
  · have chain := table.chain root
    rw [split] at chain
    have known := chain.inRange b (List.mem_append_right _ List.mem_cons_self)
    rw [blockSize_of_inRange known] at small
    have place : ((before.flatMap (v.blockSlots disk)).length + i) * kEntrySize =
        before.length * v.clusterSize + i * kEntrySize := by
      rw [length_flatMap_blockSlots fun x member =>
        chain.inRange x (List.mem_append_left _ member), Nat.add_mul, Nat.mul_assoc,
        sound.clusterSize_eq]
    have sought : EStateM.run (reading fun disk => v.seekCluster disk
        (before.length * v.clusterSize + i * kEntrySize + 1) p
        (before.length * v.clusterSize + i * kEntrySize)) disk = .ok (b, i * kEntrySize) disk := by
      apply run_reading_of_ok
      exact sound.seekCluster_eq chain small (Nat.lt_succ_self _)
    have below := chain.lt_kEOC (List.mem_append_right _ List.mem_cons_self)
    rw [if_neg (fun holds => root (isRootBlock_iff.mp holds)), place, updateEntryInClusterDir,
      run_bind sought, if_neg (not_le.mpr below),
      run_bind (sound.run_readCluster disk b),
      run_bind (run_checkBuffer sound.clusterFits disk), run_writeCluster, putSlot,
      putBlock_of_inRange known, block_of_inRange known]

/-- The effect of a change to one slot of a table. -/
structure Rewrites (v : Volume) (disk disk' : Bytes) (p j : ℕ) (new : Option DirectoryEntry) :
    Prop where
  frame : ∃ b ∈ v.extent disk p, v.Frame disk disk' ∅ {b}
  listing : v.listing disk' p = update (v.listing disk p) j new

omit sound in
theorem Rewrites.extent_eq {new : Option DirectoryEntry}
    (rewrites : v.Rewrites disk disk' p j new) (table : v.IsTable disk p) :
    v.extent disk' p = v.extent disk p ∧ v.IsTable disk' p := by
  obtain ⟨b, -, frame⟩ := rewrites.frame
  exact frame.extent_eq table fun _ _ => id

/-- What a slot holds once an entry is written to it. -/
def kept (entry : DirectoryEntry) : Option DirectoryEntry :=
  if entry.isFree then none else some entry

/-- Replacing a slot rewrites one entry. -/
theorem Sound.rewrites_putSlot (table : v.IsTable disk p)
    (split : v.extent disk p = before ++ b :: after) (inside : i < (v.blockSlots disk b).length)
    {old : DirectoryEntry}
    (found : v.listing disk p ((before.flatMap (v.blockSlots disk)).length + i) = some old)
    (going : entry.isFurtherEntriesFree = false) :
    v.Rewrites disk (v.putSlot disk b i entry) p
      ((before.flatMap (v.blockSlots disk)).length + i) (kept entry) := by
  have member : b ∈ v.extent disk p := split ▸ List.mem_append_right _ List.mem_cons_self
  refine ⟨⟨b, member, sound.frame_putBlock (table.isBlock member)⟩, ?_⟩
  rw [listing, sound.slots_putSlot table split inside]
  exact live_set found going

/-- `UpdateDirectoryEntry_` at an entry in use. -/
theorem Sound.run_update (fits : v.RootFits) (table : v.IsTable disk p) {old : DirectoryEntry}
    (found : v.listing disk p j = some old) (going : entry.isFurtherEntriesFree = false) :
    ∃ disk', (v.updateDirectoryEntry p (j * kEntrySize) entry).run disk = .ok () disk' ∧
      v.Rewrites disk disk' p j (kept entry) := by
  obtain ⟨before, b, after, i, split, small, rfl⟩ :=
    exists_block_of_lt (show j < (v.slots disk p).length from lt_length_of_live found)
  exact ⟨_, sound.run_updateDirectoryEntry fits table split small entry,
    sound.rewrites_putSlot table split small found going⟩

/-- Replacing a slot does not interfere with changes elsewhere. -/
theorem Sound.frame_putSlot {entries blocks : Set ℕ} (frame : v.Frame disk disk' entries blocks)
    (known : v.IsBlock b) (outside : b ∉ blocks) :
    v.Frame (v.putSlot disk b i entry) (v.putSlot disk' b i entry) entries blocks where
  entry x inside away := by
    unfold putSlot
    rw [sound.entry_putBlock known inside, sound.entry_putBlock known inside]
    exact frame.entry x inside away
  block other otherKnown away t inside := by
    unfold putSlot
    by_cases same : b = other
    · subst same
      rw [block_putBlock_self inside, block_putBlock_self inside]
      unfold Bytes.blit
      rw [frame.block b known outside t inside]
    · simp only [sound.block_putBlock_of_ne known otherKnown same inside]
      exact frame.block other otherKnown away t inside

/-- `UpdateDirectoryEntry_` commutes with earlier changes to other blocks. -/
theorem Sound.run_update_after (fits : v.RootFits) (table : v.IsTable disk p) {old : DirectoryEntry}
    (found : v.listing disk p j = some old) (going : entry.isFurtherEntriesFree = false)
    {entries : Set ℕ} (frame : v.Frame disk disk' entries ∅)
    (apart : ∀ b ∈ v.extent disk p, b ∉ entries) :
    ∃ middle disk'', ∃ b ∈ v.extent disk p,
      (v.updateDirectoryEntry p (j * kEntrySize) entry).run disk' = .ok () disk'' ∧
      v.Rewrites disk middle p j (kept entry) ∧ v.Frame middle disk'' entries ∅ ∧
      v.Frame disk' disk'' ∅ {b} ∧ v.slots disk'' p = (v.slots disk p).set j entry := by
  obtain ⟨before, b, after, i, split, small, rfl⟩ :=
    exists_block_of_lt (show j < (v.slots disk p).length from lt_length_of_live found)
  have member : b ∈ v.extent disk p := split ▸ List.mem_append_right _ List.mem_cons_self
  obtain ⟨extent', table'⟩ := frame.extent_eq table apart
  have same : ∀ x ∈ v.extent disk p, v.blockSlots disk' x = v.blockSlots disk x :=
    fun x inside => blockSlots_congr (frame.block x (table.isBlock inside) id)
  have front : before.flatMap (v.blockSlots disk') = before.flatMap (v.blockSlots disk) :=
    List.flatMap_congr fun x inside => same x (split ▸ List.mem_append_left _ inside)
  have run := sound.run_updateDirectoryEntry fits table' (extent'.trans split)
    ((same b member).symm ▸ small) entry
  have slots : v.slots (v.putSlot disk' b i entry) p = _ :=
    sound.slots_putSlot table' (extent'.trans split) ((same b member).symm ▸ small)
  rw [front, frame.slots_eq table apart fun _ _ => id] at slots
  rw [front] at run
  exact ⟨_, _, b, member, run, sound.rewrites_putSlot table split small found going,
    sound.frame_putSlot frame (table.isBlock member) id,
    sound.frame_putBlock (table.isBlock member), slots⟩

end

section Creation

variable {name : ShortName} {attributes : UInt8} {first : ℕ} {old : DirectoryEntry}
  {front back : List DirectoryEntry}

/-- Whether a new entry may take a slot. -/
def Vacant (entry : DirectoryEntry) : Prop :=
  entry.isFree = true ∨ entry.isFurtherEntriesFree = true

theorem freeSlot_eq_none : freeSlot items = none ↔ ∀ entry ∈ items, ¬ Vacant entry := by
  rw [freeSlot, List.findIdx?_eq_none_iff]
  simp only [Bool.or_eq_false_iff, Vacant, not_or, Bool.not_eq_true]

/-- The first vacant slot of a block. -/
theorem freeSlot_eq_some (found : freeSlot items = some i) :
    ∃ front old back, items = front ++ old :: back ∧ front.length = i ∧ Vacant old ∧
      ∀ entry ∈ front, ¬ Vacant entry := by
  obtain ⟨inside, vacant, before⟩ := List.findIdx?_eq_some_iff_getElem.mp found
  refine ⟨items.take i, items[i], items.drop (i + 1), ?_, ?_, ?_, ?_⟩
  · rw [← List.drop_eq_getElem_cons inside, List.take_append_drop]
  · rw [List.length_take, Nat.min_eq_left (Nat.le_of_lt inside)]
  · exact Bool.or_eq_true_iff.mp vacant
  · intro entry member taken
    obtain ⟨k, below, same⟩ := List.mem_take_iff_getElem.mp member
    have earlier := before k (by omega)
    rw [← same, Vacant, ← Bool.or_eq_true_iff] at taken
    exact earlier taken

theorem modify_append_succ {α : Type*} (f : α → α) (front : List α) (x : α) (back : List α) :
    (front ++ x :: back).modify (front.length + 1) f = front ++ x :: back.modifyHead f := by
  induction front with
  | nil => rw [List.nil_append, List.length_nil, List.modify_succ_cons,
      ← List.modifyHead_eq_modify_zero, List.nil_append]
  | cons y front ih => rw [List.cons_append, List.length_cons, List.modify_succ_cons, ih,
      List.cons_append]

/-- `WriteNewEntry_` takes a slot and moves the end mark behind it. -/
theorem slotsOf_writeNewEntry (split : slotsOf bytes size = front ++ old :: back) :
    slotsOf (writeNewEntry bytes (slotsOf bytes size) front.length name attributes first) size =
      front ++ old.renewed name attributes first ::
        if old.isFurtherEntriesFree then back.modifyHead endMarked else back := by
  have found : (slotsOf bytes size).getD front.length DirectoryEntry.zero = old := by
    rw [split, List.getD_eq_getElem?_getD, List.getElem?_append_right (Nat.le_refl _),
      Nat.sub_self]
    rfl
  have written : (slotsOf bytes size).set front.length (old.renewed name attributes first) =
      front ++ old.renewed name attributes first :: back := by
    rw [split, List.set_append_right _ _ (Nat.le_refl _), Nat.sub_self, List.set_cons_zero]
  have length : (slotsOf bytes size).length = front.length + 1 + back.length := by
    rw [split, List.length_append, List.length_cons]
    omega
  unfold writeNewEntry
  simp only [found, length]
  cases ends : old.isFurtherEntriesFree with
  | true =>
    cases back with
    | nil =>
      rw [if_neg (by simp), slotsOf_blit, written]
      rfl
    | cons next back =>
      rw [if_pos (by simp), slotsOf_blit_end, slotsOf_blit, written, modify_append_succ]
      rfl
  | false =>
    rw [if_neg (by simp), slotsOf_blit, written]
    rfl

/-- Take a slot of a block for a new entry. -/
def putNew (v : Volume) (disk : Bytes) (b i : ℕ) (name : ShortName) (attributes : UInt8)
    (first : ℕ) : Bytes :=
  v.putBlock disk b (writeNewEntry (v.block disk b) (v.blockSlots disk b) i name attributes first)

/-- The empty cluster that extends a table. -/
def extended (v : Volume) (disk : Bytes) (last free : ℕ) : Bytes :=
  v.putBlock (v.link disk last free) free fun _ => 0

theorem slotsOf_zero (size : ℕ) :
    slotsOf (fun _ => 0) size = List.replicate (size / kEntrySize) DirectoryEntry.zero := by
  rw [slotsOf, List.map_eq_replicate_iff.mpr, List.length_range]
  intro i _
  rfl

theorem blockSlots_extended (v : Volume) (disk : Bytes) (last free : ℕ) :
    v.blockSlots (v.extended disk last free) free =
      List.replicate (v.blockSize free / kEntrySize) DirectoryEntry.zero := by
  rw [extended, blockSlots_putBlock, slotsOf_zero]

theorem Sound.freeSlot_extended (sound : v.Sound) (disk : Bytes) (last : ℕ) {free : ℕ}
    (known : v.InRange free) :
    freeSlot (v.blockSlots (v.extended disk last free) free) = some 0 := by
  obtain ⟨k, count⟩ := Nat.exists_eq_succ_of_ne_zero (Nat.ne_of_gt sound.slots_pos)
  rw [blockSlots_extended, blockSize_of_inRange known, count]
  rfl

/-- A vacant slot is taken. -/
theorem Sound.run_createLoop_of_slot (sound : v.Sound) (known : v.InRange b)
    (below : b < v.kEOC) (found : freeSlot (v.blockSlots disk b) = some i) (fuel : ℕ) :
    (v.createLoop name attributes first (fuel + 1) b).run disk =
      .ok (.ok ()) (v.putNew disk b i name attributes first) := by
  rw [blockSlots_of_inRange known] at found
  rw [createLoop, if_pos below, run_bind (sound.run_readCluster disk b), putNew,
    blockSlots_of_inRange known, putBlock_of_inRange known, block_of_inRange known]
  simp only [found]
  rw [run_bind (run_checkBuffer sound.clusterFits disk)]
  rfl

/-- A full cluster is passed. -/
theorem Sound.run_createLoop_of_full (sound : v.Sound) (known : v.InRange b)
    (below : b < v.kEOC) (full : freeSlot (v.blockSlots disk b) = none) (fuel : ℕ) :
    (v.createLoop name attributes first (fuel + 1) b).run disk =
      EStateM.run (do
        match ← v.nextOrAllocate b with
        | none => return .error .diskFull
        | some (next, fresh) =>
          if fresh then v.initializeEmptyCluster next
          v.createLoop name attributes first fuel next) disk := by
  rw [blockSlots_of_inRange known] at full
  rewrite [createLoop, if_pos below, run_bind (sound.run_readCluster disk b)]
  dsimp only
  rewrite [full]
  rfl

/-- No block has a vacant slot. -/
abbrev Full (v : Volume) (disk : Bytes) (blocks : List ℕ) : Prop :=
  ∀ x ∈ blocks, freeSlot (v.blockSlots disk x) = none

/-- `CreateEntry_` takes the first vacant slot, in a new cluster if necessary and possible. -/
inductive Creates (v : Volume) (disk : Bytes) (name : ShortName) (attributes : UInt8)
    (first : ℕ) (blocks : List ℕ) : EStateM.Result Panic Bytes (Except VfsError Unit) → Prop where
  | slot {before after : List ℕ} {b i : ℕ} (split : blocks = before ++ b :: after)
      (full : v.Full disk before) (found : freeSlot (v.blockSlots disk b) = some i) :
      Creates v disk name attributes first blocks
        (.ok (.ok ()) (v.putNew disk b i name attributes first))
  | extended {before : List ℕ} {last free : ℕ} (inner : ∀ b ∈ blocks, ¬ v.IsRootBlock b)
      (split : blocks = before ++ [last]) (full : v.Full disk blocks)
      (found : v.firstFree disk = some free) : Creates v disk name attributes first blocks
        (.ok (.ok ()) (v.putNew (v.extended disk last free) free 0 name attributes first))
  | diskFull : Creates v disk name attributes first blocks (.ok (.error .diskFull) disk)

/-- A full cluster in front changes nothing. -/
theorem Creates.cons {result : EStateM.Result Panic Bytes (Except VfsError Unit)}
    (creates : v.Creates disk name attributes first l result) (known : v.InRange cluster)
    (found : freeSlot (v.blockSlots disk cluster) = none) :
    v.Creates disk name attributes first (cluster :: l) result := by
  cases creates with
  | slot split full slot =>
    subst split
    exact .slot List.cons_append.symm (List.forall_mem_cons.mpr ⟨found, full⟩) slot
  | extended inner split full free =>
    subst split
    exact .extended (List.forall_mem_cons.mpr ⟨known.not_isRootBlock, inner⟩)
      List.cons_append.symm (List.forall_mem_cons.mpr ⟨found, full⟩) free
  | diskFull => exact .diskFull

/-- The loop of `CreateEntry_` along a chain. -/
theorem Sound.run_createLoop (sound : v.Sound) (fits : v.Fits) {fuel : ℕ}
    (chain : v.Chain disk cluster l) (enough : l.length < fuel) :
    v.Creates disk name attributes first l
      ((v.createLoop name attributes first fuel cluster).run disk) := by
  induction fuel generalizing cluster l with
  | zero => exact absurd enough (Nat.not_lt_zero _)
  | succ fuel ih =>
    have known := chain.inRange cluster chain.start_mem
    have below := chain.lt_kEOC chain.start_mem
    obtain ⟨rest, rfl⟩ := chain.exists_cons
    rw [List.length_cons] at enough
    cases found : freeSlot (v.blockSlots disk cluster) with
    | some i =>
      rw [sound.run_createLoop_of_slot known below found fuel]
      exact .slot (List.nil_append _).symm nofun found
    | none =>
      rw [sound.run_createLoop_of_full known below found fuel]
      have step := sound.run_nextOrAllocate (chain.passes sound) disk
      rcases chain.next with ⟨rfl, ends⟩ | ⟨going, tail⟩
      · rw [if_pos ends] at step
        cases none : v.firstFree disk with
        | none =>
          rw [none] at step
          rw [run_bind step]
          exact .diskFull
        | some free =>
          rw [none] at step
          obtain ⟨freeKnown, -⟩ := firstFree_eq_some none
          have cleared : (v.initializeEmptyCluster free).run
              (v.link disk cluster free) = .ok () (v.extended disk cluster free) := by
            rw [initializeEmptyCluster,
              run_bind (run_checkBuffer sound.clusterFits _), run_writeCluster,
              extended, putBlock_of_inRange freeKnown]
          rw [run_bind step]
          obtain ⟨more, rfl⟩ : ∃ more, fuel = more + 1 := ⟨fuel - 1, by omega⟩
          simp only [↓reduceIte]
          rw [run_bind cleared, sound.run_createLoop_of_slot freeKnown
            (lt_of_lt_of_le freeKnown.2 fits.clusters)
            (sound.freeSlot_extended disk cluster freeKnown) more]
          exact .extended (fun b member => (chain.inRange b member).not_isRootBlock)
            (List.nil_append _).symm (List.forall_mem_singleton.mpr found) none
      · rw [if_neg (not_le.mpr going)] at step
        rw [run_bind step]
        exact (ih tail (Nat.lt_of_succ_lt_succ enough)).cons known found

/-- A new entry does not take the last slot of a block from the end mark, unless another mark
follows. -/
def Closed (v : Volume) (disk : Bytes) (p : ℕ) : Prop :=
  ∀ before b next after, v.extent disk p = before ++ b :: next :: after →
    (∀ x ∈ before, freeSlot (v.blockSlots disk x) = none) →
    freeSlot (v.blockSlots disk b) = some ((v.blockSlots disk b).length - 1) →
    (∀ old ∈ (v.blockSlots disk b).getLast?, old.isFurtherEntriesFree = true) →
    ∀ entry ∈ (v.blockSlots disk next).head?, entry.isFurtherEntriesFree = true

/-- Closing depends on the slots only. -/
theorem Closed.congr (closed : v.Closed disk p) (extent : v.extent disk' p = v.extent disk p)
    (same : ∀ b ∈ v.extent disk p, v.blockSlots disk' b = v.blockSlots disk b) :
    v.Closed disk' p := by
  intro before b next after split full
  rw [extent] at split
  have inside : ∀ x, x ∈ before ∨ x = b ∨ x = next → x ∈ v.extent disk p := by
    intro x member
    rw [split]
    rcases member with here | rfl | rfl
    · exact List.mem_append_left _ here
    · simp
    · simp
  rw [same b (inside b (.inr (.inl rfl))), same next (inside next (.inr (.inr rfl)))]
  refine closed before b next after split fun x member => ?_
  rw [← same x (inside x (.inl member))]
  exact full x member

theorem live_eq_none_of_vacant (vacant : Vacant old) :
    live (front ++ old :: back) front.length = none := by
  cases found : live (front ++ old :: back) front.length with
  | none => rfl
  | some entry =>
    obtain ⟨here, taken, going, -⟩ := live_eq_some found
    rw [List.getElem?_append_right (Nat.le_refl _), Nat.sub_self, List.getElem?_cons_zero,
      Option.some.injEq] at here
    rw [here] at vacant
    rcases vacant with free | ends
    · exact absurd free (by rw [taken]; decide)
    · exact absurd ends (by rw [going]; decide)

theorem isFurtherEntriesFree_renewed (fine : name 0 ≠ kEOD) :
    (old.renewed name attributes first).isFurtherEntriesFree = false :=
  beq_eq_false_iff_ne.mpr fine

theorem not_vacant_of_full {blocks : List ℕ} (full : v.Full disk blocks) :
    ∀ entry ∈ blocks.flatMap (v.blockSlots disk), ¬ Vacant entry := by
  intro entry member
  obtain ⟨x, inside, here⟩ := List.mem_flatMap.mp member
  exact freeSlot_eq_none.mp (full x inside) entry here

theorem going_of_not_vacant (taken : ∀ entry ∈ items, ¬ Vacant entry) :
    ∀ entry ∈ items, entry.isFurtherEntriesFree = false := fun entry member =>
  Bool.eq_false_iff.mpr fun ends => taken entry member (.inr ends)

theorem Sound.blockSlots_ne_nil (sound : v.Sound) (disk : Bytes) (known : v.InRange b) :
    v.blockSlots disk b ≠ [] := by
  rw [← List.length_pos_iff, length_blockSlots, blockSize_of_inRange known]
  exact sound.slots_pos

section

variable (sound : v.Sound) (table : v.IsTable disk p) (closed : v.Closed disk p)
  (split : v.extent disk p = before ++ b :: after)
  (full : v.Full disk before)
include sound table closed split full

/-- Behind an end mark in the last slot of a block comes another one. -/
theorem Closed.after_last (found : freeSlot (v.blockSlots disk b) = some front.length)
    (shape : v.blockSlots disk b = front ++ [old]) (ends : old.isFurtherEntriesFree = true) :
    ∀ next ∈ (after.flatMap (v.blockSlots disk)).head?, next.isFurtherEntriesFree = true := by
  intro next head
  cases after with
  | nil => exact nomatch head
  | cons following after =>
    have inner : ¬ v.IsRootBlock p := by
      intro root
      have size := congrArg List.length split
      rw [extent_of_root root, List.length_append] at size
      simp only [List.length_cons, List.length_nil] at size
      omega
    have known : v.InRange following := (table.chain inner).inRange following
      (split ▸ List.mem_append_right _ (List.mem_cons_of_mem b List.mem_cons_self))
    refine closed before b following after split full ?_ ?_ next ?_
    · rw [found, shape, List.length_append, List.length_singleton, Nat.add_sub_cancel]
    · intro last here
      rw [shape, List.getLast?_concat, Option.mem_some_iff] at here
      rw [← here]
      exact ends
    · obtain ⟨slot, others, starts⟩ :=
        List.exists_cons_of_ne_nil (sound.blockSlots_ne_nil disk known)
      rw [List.flatMap_cons, starts] at head
      rw [starts]
      exact head

/-- An entry created in a vacant slot of the table. -/
theorem Sound.rewrites_putNew (fine : name 0 ≠ kEOD)
    (found : freeSlot (v.blockSlots disk b) = some i) :
    ∃ (j : ℕ) (old : DirectoryEntry), v.listing disk p j = none ∧
      v.Rewrites disk (v.putNew disk b i name attributes first) p j
        (kept (old.renewed name attributes first)) := by
  have member : b ∈ v.extent disk p := split ▸ List.mem_append_right _ List.mem_cons_self
  have frame : v.Frame disk (v.putNew disk b i name attributes first) ∅ {b} :=
    sound.frame_putBlock (table.isBlock member)
  obtain ⟨front, old, back, shape, rfl, vacant, taken⟩ := freeSlot_eq_some found
  have written : v.blockSlots (v.putNew disk b front.length name attributes first) b =
      front ++ old.renewed name attributes first ::
        if old.isFurtherEntriesFree then back.modifyHead endMarked else back := by
    rw [putNew, blockSlots_putBlock]
    exact slotsOf_writeNewEntry shape
  have going : ∀ entry ∈ before.flatMap (v.blockSlots disk) ++ front,
      entry.isFurtherEntriesFree = false := by
    refine going_of_not_vacant fun entry inside => ?_
    rcases List.mem_append.mp inside with early | late
    · exact not_vacant_of_full full entry early
    · exact taken entry late
  have was : v.slots disk p = (before.flatMap (v.blockSlots disk) ++ front) ++
      old :: (back ++ after.flatMap (v.blockSlots disk)) := by
    rw [slots_eq_split split, shape]
    simp only [List.append_assoc, List.cons_append]
  have now : v.slots (v.putNew disk b front.length name attributes first) p =
      (before.flatMap (v.blockSlots disk) ++ front) ++ old.renewed name attributes first ::
        ((if old.isFurtherEntriesFree then back.modifyHead endMarked else back) ++
          after.flatMap (v.blockSlots disk)) := by
    rw [frame.slots_split table split, written]
    simp only [List.append_assoc, List.cons_append]
  refine ⟨(before.flatMap (v.blockSlots disk) ++ front).length, old, ?_, ⟨b, member, frame⟩, ?_⟩
  · rw [listing, was]
    exact live_eq_none_of_vacant vacant
  · unfold listing
    rw [was, now]
    cases ends : old.isFurtherEntriesFree with
    | false => exact live_replace going (isFurtherEntriesFree_renewed fine) ends
    | true =>
      refine live_replace_end going (isFurtherEntriesFree_renewed fine) ends ?_
      intro next head
      cases back with
      | cons second back =>
        have same : endMarked second = next := Option.some.inj head
        rw [← same]
        simp [DirectoryEntry.isFurtherEntriesFree, endMarked]
      | nil =>
        exact closed.after_last sound table split full found shape ends next head

end

/-- The chain of a table extended by an empty cluster. -/
theorem Sound.grown_extended (sound : v.Sound) (fits : v.Fits)
    (chain : v.Chain disk p (before ++ [last])) (found : v.firstFree disk = some free) :
    v.Chain (v.extended disk last free) p (before ++ [last] ++ [free]) ∧
      v.Frame disk (v.extended disk last free) {last, free} {free} := by
  have member : last ∈ before ++ [last] := List.mem_append_right _ List.mem_cons_self
  obtain ⟨known, -⟩ := firstFree_eq_some found
  obtain ⟨grown, frame, -⟩ :=
    sound.grown_link fits (chain.inRange last member) found (chain.entry_ne_zero member)
  have cleared : v.Frame (v.link disk last free) (v.extended disk last free) ∅ {free} :=
    sound.frame_putBlock (.inr known)
  have whole := (grown.append_left before).links p chain
  refine ⟨?_, (frame.trans cleared).mono (by simp) (by simp)⟩
  rw [List.append_assoc]
  exact whole.frame cleared fun _ _ => id

theorem live_append_ends (going : ∀ entry ∈ front, entry.isFurtherEntriesFree = false)
    (ends : old.isFurtherEntriesFree = true) : live (front ++ old :: back) = live front := by
  funext j
  rw [live_append going]
  split_ifs with inside
  · rfl
  · rw [live_cons_of_end ends]
    cases found : live front j with
    | none => rfl
    | some entry => exact absurd (lt_length_of_live found) inside

/-- A table has grown by clusters that were free, with no entries in use. -/
structure TableGrown (v : Volume) (disk disk' : Bytes) (p : ℕ) : Prop where
  inner : ¬ v.IsRootBlock p
  grown : v.Grown disk disk' (v.extent disk p) (v.extent disk' p)
  listing : v.listing disk' p = v.listing disk p

section

variable (sound : v.Sound) (fits : v.Fits) (table : v.IsTable disk p)
include sound fits table

/-- A full table is extended by an empty cluster. -/
theorem Sound.tableGrown_extended (inner : ¬ v.IsRootBlock p)
    (split : v.extent disk p = before ++ [last]) (full : v.Full disk (v.extent disk p))
    (found : v.firstFree disk = some free) :
    v.TableGrown disk (v.extended disk last free) p ∧
      v.extent (v.extended disk last free) p = v.extent disk p ++ [free] ∧
      ∀ x ∈ v.extent disk p, v.blockSlots (v.extended disk last free) x = v.blockSlots disk x := by
  obtain ⟨known, empty⟩ := firstFree_eq_some found
  have chain := table.chain inner
  rw [split] at chain
  obtain ⟨chain', frame⟩ := sound.grown_extended fits chain found
  have extent' : v.extent (v.extended disk last free) p = v.extent disk p ++ [free] := by
    rw [chain'.extent_eq, split]
  have same : ∀ x ∈ v.extent disk p,
      v.blockSlots (v.extended disk last free) x = v.blockSlots disk x := by
    intro x member
    refine blockSlots_congr (frame.block x (table.isBlock member) fun equal => ?_)
    rw [split, Set.mem_singleton_iff.mp equal] at member
    exact chain.entry_ne_zero member empty
  have going : ∀ entry ∈ v.slots disk p, entry.isFurtherEntriesFree = false :=
    going_of_not_vacant (not_vacant_of_full full)
  obtain ⟨k, count⟩ := Nat.exists_eq_succ_of_ne_zero (Nat.ne_of_gt sound.slots_pos)
  have slots' : v.slots (v.extended disk last free) p =
      v.slots disk p ++ DirectoryEntry.zero :: List.replicate k DirectoryEntry.zero := by
    unfold slots
    rw [extent', List.flatMap_append, List.flatMap_singleton, blockSlots_extended,
      blockSize_of_inRange known, count, List.replicate_succ, List.flatMap_congr same]
  refine ⟨⟨inner, ⟨?_, ?_, ?_, ?_⟩, ?_⟩, extent', same⟩
  · rw [extent']
    exact List.prefix_append _ _
  · intro b member
    rw [extent', List.mem_append, List.mem_singleton] at member
    rcases member with old | rfl
    · exact .inl old
    · exact .inr ⟨known, empty⟩
  · intro start again
    have equal : start = p := by
      obtain ⟨rest, first⟩ := again.exists_cons
      obtain ⟨rest', first'⟩ := (table.chain inner).exists_cons
      exact (List.cons.inj (first.symm.trans first')).1
    rw [equal, extent', split]
    exact chain'
  · rw [extent']
    refine frame.mono ?_ ?_
    · intro x member
      rcases member with rfl | rfl
      · rw [split]
        simp
      · simp
    · exact Set.singleton_subset_iff.mpr (List.mem_append_right _ List.mem_cons_self)
  · unfold listing
    rw [slots', live_append_ends going (by decide)]

omit sound fits table in
/-- In a full table that was just extended, the new cluster takes the next entry. -/
theorem closed_of_full (split : v.extent disk p = l ++ [b])
    (full : v.Full disk l) : v.Closed disk p := by
  intro before x next after shape _ found
  have member : x ∈ l := by
    have init := congrArg List.dropLast (split.symm.trans shape)
    rw [List.dropLast_concat, List.dropLast_append_of_ne_nil (List.cons_ne_nil _ _)] at init
    rw [init]
    exact List.mem_append_right _ List.mem_cons_self
  rw [full x member] at found
  exact nomatch found

/-- How `CreateEntry_` ends in a directory. -/
theorem Sound.run_createEntry :
    v.Creates disk name attributes first (v.extent disk p)
      ((v.createEntry p name attributes first).run disk) := by
  unfold createEntry
  by_cases root : v.IsRootBlock p
  · have read : (reading v.readRoot).run disk = .ok (v.root disk) disk :=
      run_reading_of_ok (readRoot_eq (fits.rootFits.readable root.1) disk)
    have block : v.blockSlots disk p = slotsOf (v.root disk) v.rootSize := by
      rw [blockSlots, Volume.block, blockSize, if_pos root, if_pos root]
    rw [if_pos (isRootBlock_iff.mpr root), createEntryInFixedRootDir, run_bind read,
      extent_of_root root]
    cases found : freeSlot (v.blockSlots disk p) with
    | some i =>
      have slot : v.Creates disk name attributes first [p] _ :=
        .slot (List.nil_append _).symm (List.forall_mem_nil _) found
      rw [putNew, block, putBlock, Volume.block, if_pos root, if_pos root] at slot
      rw [block] at found
      simp only [found]
      rw [run_bind (run_checkBuffer (fits.rootFits root.1) disk)]
      exact slot
    | none =>
      rw [block] at found
      simp only [found]
      exact .diskFull
  · have chain := table.chain root
    have short := chain.length_le
    have bound : v.clusterCount + 2 ≤ v.kEOC := fits.clusters
    rw [if_neg (fun holds => root (isRootBlock_iff.mp holds))]
    exact sound.run_createLoop fits chain (by omega)

/-- Creating an entry changes nothing or fills an unused slot, after extending the table if
necessary. -/
theorem Sound.run_createEntry_entered (closed : v.Closed disk p) (fine : name 0 ≠ kEOD) :
    (v.createEntry p name attributes first).run disk = .ok (.error .diskFull) disk ∨
      ∃ (middle disk' : Bytes) (j : ℕ) (old : DirectoryEntry),
        (v.createEntry p name attributes first).run disk = .ok (.ok ()) disk' ∧
          (middle = disk ∨ v.TableGrown disk middle p) ∧ v.listing middle p j = none ∧
          v.Rewrites middle disk' p j (kept (old.renewed name attributes first)) := by
  have creates : v.Creates disk name attributes first _ _ := sound.run_createEntry fits table
  generalize (v.createEntry p name attributes first).run disk = result at creates ⊢
  cases creates with
  | slot split full found =>
    obtain ⟨j, old, was, rewrites⟩ := sound.rewrites_putNew table closed split full fine found
    exact .inr ⟨disk, _, j, old, rfl, .inl rfl, was, rewrites⟩
  | diskFull => exact .inl rfl
  | @extended _ last _ below split full found =>
    have inner : ¬ v.IsRootBlock p := fun root =>
      below p (extent_of_root root ▸ List.mem_singleton_self p) root
    obtain ⟨grown, extent', same⟩ :=
      sound.tableGrown_extended fits table inner split full found
    have table' := (grown.grown.links p (table.chain inner)).isTable
    have full' : v.Full (v.extended disk last _) (v.extent disk p) := fun x member =>
      (same x member).symm ▸ full x member
    obtain ⟨j, old, was, rewrites⟩ := sound.rewrites_putNew table'
      (closed_of_full extent' full') extent' full' fine
      (sound.freeSlot_extended disk last (firstFree_eq_some found).1)
    exact .inr ⟨_, _, j, old, rfl, .inr grown, was, rewrites⟩

end

end Creation

end AlkOS.Fat.Volume
