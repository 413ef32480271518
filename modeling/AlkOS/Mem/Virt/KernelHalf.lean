import AlkOS.Mem.Virt.Vmm

/-!
# The kernel half of user address spaces

Entries of the kernel's root are copied into user roots. They stay right as long as the
kernel does not unmap the last page below an entry that a user root holds.
-/

namespace AlkOS.Mem.Vmm

open Kernel Hal Hal.Mmu BuddyPmm RadixTree Function

variable {build : Build} {m m' : Machine BuddyPmm} {kernelRoot root : ℕ} {users : Set ℕ}
  {idx : Fin 512} {heap : Heap} {vaddr paddr : BitVec 64} {flags : PageFlags}

/-- `ClearUserMappings` does nothing to an empty lower half. -/
theorem run_clearUserMappings {κ : Type} {ctx : MmuContext κ} {m : Machine κ}
    (empty : ∀ idx : Fin 512, idx.val < 256 → (m.frames root idx).isPresent = false) :
    (clearUserMappings ctx root).run m = .ok () m := by
  have low : ∀ idx ∈ lowerHalf, idx.val < 256 := by
    intro idx member
    exact of_decide_eq_true (List.mem_filter.mp member).2
  unfold clearUserMappings
  generalize lowerHalf = items at low ⊢
  induction items with
  | nil => rfl
  | cons idx rest ih =>
    have absent := empty idx (low idx List.mem_cons_self)
    have pass : EStateM.run (readEntry root idx >>= fun entry =>
        if entry.isPresent then do
          destroyTable ctx 3 entry.getNextLevelTable
          writeEntry root idx 0
        else pure ()) m = .ok () m := by
      rw [run_bind (run_readEntry m), absent]
      rfl
    refine (run_bind pass).trans (ih ?_)
    intro other member
    exact low other (List.mem_cons_of_mem idx member)

/-- A zeroed table with the upper half of the kernel's root. -/
def withKernelHalf (frames : Frames) (table kernelRoot : ℕ) : Frames :=
  update frames table fun idx => if 256 ≤ idx.val then frames kernelRoot idx else 0

/-- The upper half of the root is copied. -/
theorem run_copyKernelSpace {table : ℕ} {s : BuddyPmm} (frames : Frames)
    (apart : kernelRoot ≠ table) :
    (copyKernelSpace table kernelRoot).run ⟨update frames table fun _ => 0, s⟩ =
      .ok () ⟨withKernelHalf frames table kernelRoot, s⟩ := by
  have copied : (update (update frames table fun _ => 0) table fun idx =>
      if 256 ≤ idx.val then update frames table (fun _ => 0) kernelRoot idx
      else update frames table (fun _ => 0) table idx) =
      withKernelHalf frames table kernelRoot := by
    rw [update_idem, update_of_ne apart, update_self]
    rfl
  rw [← copied]
  rfl

/-- The machine after one entry was copied from the kernel's root. -/
def synced (m : Machine BuddyPmm) (root kernelRoot : ℕ) (idx : Fin 512) : Machine BuddyPmm :=
  { m with frames := setEntry m.frames root idx (m.frames kernelRoot idx) }

/-- The tables on the page's walk below the root have no other entry. -/
def LastMapping (m : Machine BuddyPmm) (root : ℕ) (vaddr : BitVec 64) : Prop :=
  ∃ path pt, indices vaddr = path ++ [pmeIdx 1 vaddr] ∧ tableAt m.frames root path = some pt ∧
    (m.frames pt (pmeIdx 1 vaddr)).isPresent = true ∧
    ∀ walked table, walked ≠ [] → walked <+: path → tableAt m.frames root walked = some table →
      (m.ctx.metaAt table).refCount = 1

namespace KernelHalf

variable (half : KernelHalf build m kernelRoot users)
include half

/-- The root table that a destroyed address space gives back. -/
theorem freeTable (member : root ∈ users)
    (ran : ((kernelMmuContext build).freeTable root 0).run m = .ok () m') :
    KernelHalf build m' kernelRoot (users \ {root}) := by
  obtain ⟨_, ran', serves, tables, same⟩ :=
    (kernelLawful build).freeTable root 0 m half.kernel.valid (half.tables root member)
  cases ran.symm.trans ran'
  apply (half.subset Set.sdiff_subset).frame serves
  intro table used role
  have apart : table ≠ root := by
    rcases role with other | ⟨path, reached⟩
    · exact other.2
    · intro here
      exact half.apart root member path (here ▸ reached)
  have remains : table ∈ m'.ctx.pageTables := by
    change table ∈ (kernelLawful build).tables m'.ctx
    rw [tables]
    exact ⟨used, apart⟩
  exact ⟨remains, same table remains⟩

/-- A user root is destroyed. -/
theorem destroyUserAddrSpace (member : root ∈ users)
    (ran : (destroyUserAddrSpace build heap ⟨root, true⟩).run m = .ok () m') :
    KernelHalf build m' kernelRoot (users \ {root}) := by
  unfold Vmm.destroyUserAddrSpace at ran
  rw [run_bind (run_clearUserMappings (half.lower root member))] at ran
  obtain ⟨_, m₁, areas, ran⟩ := run_bind_eq_ok ran
  obtain ⟨_, m₂, freed, object⟩ := run_bind_eq_ok ran
  have half := half.keepsTables heap.deleteAreas_keeps areas
  have half : KernelHalf build m₂ kernelRoot (users \ {root}) := by
    by_cases null : root = 0
    · rw [if_neg (by simp [null])] at freed
      cases freed
      exact half.subset Set.sdiff_subset
    · rw [if_pos (by simp [null])] at freed
      exact half.freeTable member freed
  exact half.keepsTables heap.deleteAddressSpace_keeps object

/-- An address space without a root is destroyed as if frame 0 were its root. -/
theorem destroyUserAddrSpace_null
    (quiet : ∀ idx : Fin 512, idx.val < 256 → (m.frames 0 idx).isPresent = false)
    (ran : (Vmm.destroyUserAddrSpace build heap ⟨0, false⟩).run m = .ok () m') :
    KernelHalf build m' kernelRoot users := by
  unfold Vmm.destroyUserAddrSpace at ran
  rw [run_bind (run_clearUserMappings quiet)] at ran
  obtain ⟨_, m₁, areas, ran⟩ := run_bind_eq_ok ran
  obtain ⟨_, m₂, freed, object⟩ := run_bind_eq_ok ran
  cases freed
  have half := half.keepsTables heap.deleteAreas_keeps areas
  exact half.keepsTables heap.deleteAddressSpace_keeps object

/-- A fresh root with the kernel's upper half is one more user root. -/
theorem copied {table : ℕ} {s' : BuddyPmm} (new : table ∉ m.ctx.pageTables)
    (serves : ∃ pool lists live, ServesTables s' pool lists live)
    (tables : s'.pageTables = insert table m.ctx.pageTables)
    (kept : ∀ other ∈ m.ctx.pageTables, s'.metaAt other = m.ctx.metaAt other) :
    KernelHalf build ⟨withKernelHalf m.frames table kernelRoot, s'⟩ kernelRoot
      (insert table users) := by
  have elsewhere : ∀ other ∈ m.ctx.pageTables,
      withKernelHalf m.frames table kernelRoot other = m.frames other := by
    intro other used
    have apart : other ≠ table := fun same => new (same ▸ used)
    exact update_of_ne apart ..
  have here : ∀ idx : Fin 512, withKernelHalf m.frames table kernelRoot table idx =
      if 256 ≤ idx.val then m.frames kernelRoot idx else 0 :=
    congrFun (update_self ..)
  have rootKept := elsewhere kernelRoot (half.kernel.tree.allocated [] kernelRoot rfl)
  have before : KernelHalf build ⟨withKernelHalf m.frames table kernelRoot, s'⟩
      kernelRoot users := by
    apply half.frame serves
    intro other used _
    refine ⟨?_, congrArg PageMeta.refCount (kept other used), elsewhere other used⟩
    rw [tables]
    exact Set.mem_insert_of_mem table used
  refine ⟨before.kernel, ?_, ?_, ?_, ?_⟩
  · intro user member
    rw [tables]
    rcases member with rfl | old
    · exact Set.mem_insert user _
    · exact Set.mem_insert_of_mem table (half.tables user old)
  · intro user member path
    rcases member with rfl | old
    · intro reached
      have walks : tableAt (withKernelHalf m.frames user kernelRoot) kernelRoot path =
          tableAt m.frames kernelRoot path := (walk_congr fun front idx _ other _ there =>
        congrFun (elsewhere other (half.kernel.tree.allocated front other there)) idx).1
      exact new (half.kernel.tree.allocated path user (walks.symm.trans reached))
    · exact before.apart user old path
  · intro user member idx low
    rcases member with rfl | old
    · change (withKernelHalf m.frames user kernelRoot user idx).isPresent = false
      rw [here, if_neg (Nat.not_le.mpr low)]
      rfl
    · exact before.lower user old idx low
  · intro user member idx high present
    rcases member with rfl | old
    · change withKernelHalf m.frames user kernelRoot user idx =
        withKernelHalf m.frames user kernelRoot kernelRoot idx
      rw [here, rootKept, if_pos high]
    · exact before.upper user old idx high present

/-- `CreateUserAddrSpace` adds one user root, or fails and adds none. -/
theorem setUpUserAddrSpace {result : Except MemError AddrSp}
    (quiet : (freeBlocks m.ctx).Nonempty ∨
      ∀ idx : Fin 512, idx.val < 256 → (m.frames 0 idx).isPresent = false)
    (ran : (Vmm.setUpUserAddrSpace build heap kernelRoot).run m = .ok result m') :
    (∃ as, result = .ok as ∧ KernelHalf build m' kernelRoot (insert as.pageTableRoot users)) ∨
      ∃ error, result = .error error ∧ KernelHalf build m' kernelRoot users := by
  obtain ⟨pool, lists, live, serves⟩ := half.kernel.valid
  unfold Vmm.setUpUserAddrSpace at ran
  rcases run_allocateTable build serves 0 with
    ⟨failed, none⟩ | ⟨table, s', lists', allocated, serves', new, _, tables, _, kept⟩
  · have failed : (initUser build ⟨0, false⟩).run m =
        .ok (.error .outOfMemory, ⟨0, false⟩) m := run_bind failed
    rw [run_bind failed] at ran
    obtain ⟨_, _, destroyed, ran⟩ := run_bind_eq_ok ran
    cases ran
    refine Or.inr ⟨_, rfl, half.destroyUserAddrSpace_null ?_ destroyed⟩
    rcases quiet with ⟨b, free⟩ | quiet
    · rw [serves.books.freelists.freeBlocks_eq, none] at free
      exact free.elim
    · exact quiet
  · have allocated : (initUser build ⟨0, false⟩).run m = .ok (.ok (), ⟨table, true⟩)
        ⟨update m.frames table fun _ => 0, s'⟩ := run_bind allocated
    have apart : kernelRoot ≠ table := by
      intro same
      exact new (same ▸ half.kernel.tree.allocated [] kernelRoot rfl)
    have fresh : table ∉ users := fun member => new (half.tables table member)
    have half := half.copied new ⟨_, _, _, serves'⟩ tables kept
    have back : insert table users \ {table} = users := Set.insert_sdiff_self_of_notMem fresh
    have member : table ∈ insert table users := Set.mem_insert table users
    rw [run_bind allocated] at ran
    obtain ⟨_, _, copied, ran⟩ := run_bind_eq_ok ran
    cases copied.symm.trans (run_copyKernelSpace m.frames apart)
    obtain ⟨made, _, area, ran⟩ := run_bind_eq_ok ran
    have half := half.keepsTables heap.newKernelSyncVMemArea_keeps area
    cases made with
    | false =>
      obtain ⟨_, _, destroyed, ran⟩ := run_bind_eq_ok ran
      cases ran
      exact Or.inr ⟨_, rfl, back ▸ half.destroyUserAddrSpace member destroyed⟩
    | true =>
      obtain ⟨added, _, listed, ran⟩ := run_bind_eq_ok ran
      have half := half.keepsTables heap.addArea_keeps listed
      cases added with
      | error error =>
        obtain ⟨_, _, destroyed, ran⟩ := run_bind_eq_ok ran
        cases ran
        exact Or.inr ⟨_, rfl, back ▸ half.destroyUserAddrSpace member destroyed⟩
      | ok value =>
        cases ran
        exact Or.inl ⟨_, rfl, half⟩

/-- `Map` on the kernel's root keeps the entries that users hold. -/
theorem map {result : Except MemError Unit} (present : flags.present = true)
    (clear : NoHuge m.frames kernelRoot vaddr)
    (ran : (Mmu.map (kernelMmuContext build) kernelRoot vaddr paddr flags).run m = .ok result m') :
    KernelHalf build m' kernelRoot users := by
  have kept := kept_of_map half.kernel clear present ran
  have same : ∀ user ∈ users, m'.frames user = m.frames user := fun user member =>
    kept.outside user (half.tables user member) (half.apart user member)
  refine ⟨kept.wellFormed, fun user member => kept.tables (half.tables user member), ?_, ?_, ?_⟩
  · intro user member path reached
    exact half.apart user member path (kept.origin path user reached (half.tables user member))
  · intro user member idx low
    rw [same user member]
    exact half.lower user member idx low
  · intro user member idx high occupied
    rw [same user member] at occupied ⊢
    have shared := half.upper user member idx high occupied
    rw [shared] at occupied ⊢
    exact (kept.entries kernelRoot (half.kernel.tree.allocated [] kernelRoot rfl) idx occupied).symm

/-- One upper entry of a user root becomes the kernel's. -/
theorem synced (member : root ∈ users) (high : 256 ≤ idx.val) :
    KernelHalf build (synced m root kernelRoot idx) kernelRoot users := by
  have elsewhere : ∀ table at', (table, at') ≠ (root, idx) →
      (Vmm.synced m root kernelRoot idx).frames table at' = m.frames table at' :=
    fun table at' apart => setEntry_of_ne apart
  have inTree : ∀ path table, tableAt m.frames kernelRoot path = some table →
      (Vmm.synced m root kernelRoot idx).frames table = m.frames table := by
    intro path table reached
    funext at'
    apply elsewhere
    intro both
    exact half.apart root member path ((Prod.mk.inj both).1 ▸ reached)
  have valid : (kernelLawful build).valid (Vmm.synced m root kernelRoot idx).ctx :=
    half.kernel.valid
  obtain ⟨kernel, walks⟩ := half.kernel.frame valid fun path table reached =>
    ⟨half.kernel.tree.allocated path table reached, rfl, inTree path table reached⟩
  refine ⟨kernel, half.tables, ?_, ?_, ?_⟩
  · intro user inUse path reached
    exact half.apart user inUse path ((walks path).1.symm.trans reached)
  · intro user inUse at' low
    rw [elsewhere user at']
    · exact half.lower user inUse at' low
    · intro both
      rw [(Prod.mk.inj both).2] at low
      omega
  · intro user inUse at' upper occupied
    rw [inTree [] kernelRoot rfl]
    by_cases here : (user, at') = (root, idx)
    · cases here
      exact setEntry_self
    · rw [elsewhere user at' here] at occupied ⊢
      exact half.upper user inUse at' upper occupied

/-- A fault in the kernel half changes nothing or copies one entry. -/
theorem handleFault {handled : Bool} (member : root ∈ users)
    (ran : (Vmm.handleFault root kernelRoot vaddr).run m = .ok handled m') :
    KernelHalf build m' kernelRoot users := by
  have apart : root ≠ kernelRoot := fun same => half.apart root member [] (congrArg some same.symm)
  unfold Vmm.handleFault syncMapping at ran
  rw [if_neg apart] at ran
  by_cases low : (pmeIdx 4 vaddr).val < 256
  · rw [if_pos low] at ran
    cases ran
    exact half
  · rw [if_neg low, run_bind (run_readEntry m),
      run_bind (run_readEntry m)] at ran
    split at ran
    · cases ran
      exact half.synced member (Nat.le_of_not_lt low)
    · cases ran
      exact half

/-- `Unmap` in the kernel keeps the entries of users, unless it removes the last page below one. -/
theorem unmap (clear : NoHuge m.frames kernelRoot vaddr)
    (shared : LastMapping m kernelRoot vaddr → 256 ≤ (pmeIdx 4 vaddr).val →
      ∀ user ∈ users, (m.frames user (pmeIdx 4 vaddr)).isPresent = false)
    (ran : (Mmu.unmap (kernelMmuContext build) kernelRoot vaddr).run m = .ok () m') :
    KernelHalf build m' kernelRoot users := by
  rcases run_unmap half.kernel clear with ⟨ran', _⟩ | ⟨_, path, pt, kept, ran', unmapped⟩
  · cases ran.symm.trans ran'
    exact half
  · cases ran.symm.trans ran'
    have keeps : KeepsFrames (kernelMmuContext build) := keepsFrames_kernelMmuContext
    have tables : ∀ walked, tableAt (clearLeaf m pt vaddr).frames kernelRoot walked =
        tableAt m.frames kernelRoot walked := unmapped.written.tables
    have same : ∀ user ∈ users, m'.frames user = m.frames user := by
      intro user member
      have notLeaf : user ≠ pt := fun here => half.apart user member path (here ▸ unmapped.reached)
      rw [unmapped.cut.outside user (half.tables user member) fun walked reached =>
        half.apart user member walked ((tables walked).symm.trans reached)]
      exact unmapped.written.others user notLeaf
    refine ⟨unmapped.cut.wellFormed, ?_, ?_, ?_, ?_⟩
    · intro user member
      refine (unmapped.cut.tables user).mpr ⟨half.tables user member, ?_⟩
      intro walked _ _ reached
      exact half.apart user member walked ((tables walked).symm.trans reached)
    · intro user member walked reached
      rw [unmapped.cut.walks] at reached
      split at reached
      · cases reached
      · exact half.apart user member walked ((tables walked).symm.trans reached)
    · intro user member idx low
      rw [same user member]
      exact half.lower user member idx low
    · intro user member idx high occupied
      rw [same user member] at occupied ⊢
      have start : tableAt m.frames kernelRoot [] = some kernelRoot := rfl
      rw [half.upper user member idx high occupied, unmapped.entry_eq start keeps half.kernel]
      intro ⟨first, all⟩
      -- The kernel's own entry would be cleared, so all tables on the walk were emptied.
      obtain rfl : idx = pmeIdx 4 vaddr := (List.cons_prefix_cons.mp first).1
      have last : LastMapping m kernelRoot vaddr := by
        refine ⟨path, pt, unmapped.split, unmapped.reached, unmapped.present, ?_⟩
        intro walked table notRoot inside reached
        exact unmapped.cut.counts walked table inside
          (all.trans_lt (List.length_pos_of_ne_nil notRoot)) ((tables walked).trans reached)
      rw [shared last high user member] at occupied
      cases occupied

end KernelHalf

end AlkOS.Mem.Vmm
