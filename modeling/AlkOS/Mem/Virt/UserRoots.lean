import AlkOS.Mem.Virt.KernelHalf

/-!
# Runs with many user roots

User address spaces come and go while the kernel maps and unmaps pages in its own
root. The user roots that are live are kept beside the machine; the program has
no list of them.
-/

namespace AlkOS.Mem.Vmm

open Kernel Hal Hal.Mmu BuddyPmm RadixTree

/-- The machine and the live user roots. -/
structure System where
  machine : Machine BuddyPmm
  users : Set ℕ

/-- The calls that matter for the kernel half. -/
inductive Op where
  | heap
  | create
  | destroy (root : ℕ)
  | map (vaddr paddr : BitVec 64) (flags : PageFlags)
  | unmap (vaddr : BitVec 64)
  | handleFault (root : ℕ) (vaddr : BitVec 64)

/-- One returning call. -/
inductive Step (build : Build) (kernelRoot : ℕ) : Op → System → System → Prop where
  | heap {m m' : Machine BuddyPmm} {users : Set ℕ} {α : Type}
      {call : Kernel (Machine BuddyPmm) α} {value : α} : KeepsTables call →
      EStateM.run call m = .ok value m' → Step build kernelRoot .heap ⟨m, users⟩ ⟨m', users⟩
  | create {m m' : Machine BuddyPmm} {users : Set ℕ} {heap : Heap} {as : AddrSp} :
      (setUpUserAddrSpace build heap kernelRoot).run m = .ok (.ok as) m' →
      Step build kernelRoot .create ⟨m, users⟩ ⟨m', insert as.pageTableRoot users⟩
  | createFails {m m' : Machine BuddyPmm} {users : Set ℕ} {heap : Heap} {error : MemError} :
      (setUpUserAddrSpace build heap kernelRoot).run m = .ok (.error error) m' →
      Step build kernelRoot .create ⟨m, users⟩ ⟨m', users⟩
  | destroy {m m' : Machine BuddyPmm} {users : Set ℕ} {heap : Heap} {root : ℕ} : root ∈ users →
      (destroyUserAddrSpace build heap ⟨root, true⟩).run m = .ok () m' →
      Step build kernelRoot (.destroy root) ⟨m, users⟩ ⟨m', users \ {root}⟩
  | map {m m' : Machine BuddyPmm} {users : Set ℕ} {vaddr paddr : BitVec 64} {flags : PageFlags}
      {result : Except MemError Unit} :
      (Mmu.map (kernelMmuContext build) kernelRoot vaddr paddr flags).run m =
        .ok result m' →
      Step build kernelRoot (.map vaddr paddr flags) ⟨m, users⟩ ⟨m', users⟩
  | unmap {m m' : Machine BuddyPmm} {users : Set ℕ} {vaddr : BitVec 64} :
      (Mmu.unmap (kernelMmuContext build) kernelRoot vaddr).run m = .ok () m' →
      Step build kernelRoot (.unmap vaddr) ⟨m, users⟩ ⟨m', users⟩
  | handleFault {m m' : Machine BuddyPmm} {users : Set ℕ} {root : ℕ} {vaddr : BitVec 64}
      {handled : Bool} : root ∈ users →
      (Vmm.handleFault root kernelRoot vaddr).run m = .ok handled m' →
      Step build kernelRoot (.handleFault root vaddr) ⟨m, users⟩ ⟨m', users⟩

/-- Any number of returning calls, each of them allowed in the state it finds. -/
def Run (build : Build) (kernelRoot : ℕ) (allowed : System → Op → Prop) : System → System → Prop :=
  Relation.ReflTransGen fun x y => ∃ op, allowed x op ∧ Step build kernelRoot op x y

/-- What keeps user roots from dangling: no root is created when no frame is free and frame 0 looks
like a root with user mappings; `Map` sets `Present` and walks meet no huge entry; and `Unmap` does
not remove the last page below an upper entry that a user root holds. -/
def Safe (kernelRoot : ℕ) (x : System) : Op → Prop
  | .create => (freeBlocks x.machine.ctx).Nonempty ∨
      ∀ idx : Fin 512, idx.val < 256 → (x.machine.frames 0 idx).isPresent = false
  | .map vaddr _ flags => flags.present = true ∧ NoHuge x.machine.frames kernelRoot vaddr
  | .unmap vaddr => NoHuge x.machine.frames kernelRoot vaddr ∧
      (LastMapping x.machine kernelRoot vaddr → 256 ≤ (pmeIdx 4 vaddr).val →
        ∀ user ∈ x.users, (x.machine.frames user (pmeIdx 4 vaddr)).isPresent = false)
  | .heap => True
  | .destroy _ => True
  | .handleFault _ _ => True

variable {build : Build} {kernelRoot : ℕ} {x y : System} {op : Op} {m m' : Machine BuddyPmm}

/-- `CreateUserAddrSpace` is the heap call for the object and a step that creates a root. -/
theorem step_createUserAddrSpace {heap : Heap} {result : Except MemError AddrSp} (users : Set ℕ)
    (ran : (createUserAddrSpace build heap kernelRoot).run m = .ok result m') :
    ∃ made middle, heap.newAddressSpace.run m = .ok made middle ∧
      Step build kernelRoot .heap ⟨m, users⟩ ⟨middle, users⟩ ∧
      ((∃ as, result = .ok as ∧
          Step build kernelRoot .create ⟨middle, users⟩ ⟨m', insert as.pageTableRoot users⟩) ∨
        ∃ error, result = .error error ∧
          (m' = middle ∨ Step build kernelRoot .create ⟨middle, users⟩ ⟨m', users⟩)) := by
  obtain ⟨made, middle, called, ran⟩ := run_bind_eq_ok ran
  refine ⟨made, middle, called, .heap heap.newAddressSpace_keeps called, ?_⟩
  cases made with
  | error error =>
    cases ran
    exact Or.inr ⟨error, rfl, Or.inl rfl⟩
  | ok value =>
    cases result with
    | ok as => exact Or.inl ⟨as, rfl, .create ran⟩
    | error error => exact Or.inr ⟨error, rfl, Or.inr (.createFails ran)⟩

/-- Every safe call keeps the kernel half of the user roots right. -/
theorem KernelHalf.step (half : KernelHalf build x.machine kernelRoot x.users)
    (safe : Safe kernelRoot x op) (step : Step build kernelRoot op x y) :
    KernelHalf build y.machine kernelRoot y.users := by
  cases step with
  | heap keeps ran => exact half.keepsTables keeps ran
  | create ran =>
    rcases half.setUpUserAddrSpace safe ran with ⟨as, same, after⟩ | ⟨error, failed, _⟩
    · cases same
      exact after
    · cases failed
  | createFails ran =>
    rcases half.setUpUserAddrSpace safe ran with ⟨as, same, _⟩ | ⟨error, _, after⟩
    · cases same
    · exact after
  | destroy member ran => exact half.destroyUserAddrSpace member ran
  | map ran => exact half.map safe.1 safe.2 ran
  | unmap ran => exact half.unmap safe.1 safe.2 ran
  | handleFault member ran => exact half.handleFault member ran

theorem KernelHalf.run (half : KernelHalf build x.machine kernelRoot x.users)
    (run : Run build kernelRoot (Safe kernelRoot) x y) :
    KernelHalf build y.machine kernelRoot y.users := by
  induction run with
  | refl => exact half
  | tail _ step ih =>
    obtain ⟨op, safe, step⟩ := step
    exact ih.step safe step

theorem KernelHalf.of_start (started : PageTables.Start build kernelRoot m) :
    KernelHalf build m kernelRoot ∅ :=
  ⟨PageTables.wellFormed_of_start started, fun _ none => none.elim, fun _ none => none.elim,
    fun _ none => none.elim, fun _ none => none.elim⟩

/-- Along safe calls, a present upper entry of a user root names the kernel's page table. -/
theorem userRoot_shares_kernelHalf (started : PageTables.Start build kernelRoot m)
    (run : Run build kernelRoot (Safe kernelRoot) ⟨m, ∅⟩ x) :
    ∀ user ∈ x.users, ∀ idx : Fin 512, 256 ≤ idx.val →
      (x.machine.frames user idx).isPresent = true →
      (x.machine.frames kernelRoot idx).isPresent = true ∧
        (x.machine.frames user idx).getNextLevelTable =
          (x.machine.frames kernelRoot idx).getNextLevelTable ∧
        (x.machine.frames user idx).getNextLevelTable ∈ x.machine.ctx.pageTables := by
  have half := KernelHalf.run (x := ⟨m, ∅⟩) (.of_start started) run
  intro user member idx high present
  exact half.shared member high present

/-- A heap with room for everything. -/
def roomyHeap : Heap where
  newAddressSpace := pure (.ok ())
  newKernelSyncVMemArea := pure true
  addArea := pure (.ok ())
  deleteAreas := pure ()
  deleteAddressSpace := pure ()
  newAddressSpace_keeps := .pure _
  newKernelSyncVMemArea_keeps := .pure _
  addArea_keeps := .pure _
  deleteAreas_keeps := .pure _
  deleteAddressSpace_keeps := .pure _

/-- A kernel page is mapped and a user root is created: its entry names the kernel's table. -/
theorem userRoot_of_nineFrames : ∃ m x, PageTables.Start .release 8 m ∧
    Run .release 8 (Safe 8) ⟨m, ∅⟩ x ∧ ∃ user ∈ x.users,
      (x.machine.frames user 256).isPresent = true ∧
      (x.machine.frames user 256).getNextLevelTable =
        (x.machine.frames 8 256).getNextLevelTable ∧
      (x.machine.frames user 256).getNextLevelTable ∈ x.machine.ctx.pageTables := by
  have evaluated : outcome (EStateM.run (do
      bootNineFrames
      let _ ← map (kernelMmuContext .release) 8 0xFFFF800000000000 0x1000 .data
      let mapped ← get
      let created ← createUserAddrSpace .release roomyHeap 8
      let m ← get
      match created with
      | .error _ => return (none, false)
      | .ok as => return (mapped.ctx.freelistTable 2, (m.frames as.pageTableRoot 256).isPresent))
      nineFrames) = some (some 4, true) := by decide +kernel
  obtain ⟨after, ran⟩ := eq_ok_of_outcome evaluated
  obtain ⟨_, m, booted, ran⟩ := run_bind_eq_ok ran
  obtain ⟨_, m₁, mapped, ran⟩ := run_bind_eq_ok ran
  rw [run_get_bind] at ran
  obtain ⟨created, m₂, ran', ran⟩ := run_bind_eq_ok ran
  rw [run_get_bind] at ran
  obtain ⟨started, clear⟩ := PageTables.start_of_nineFrames booted
  obtain ⟨_, _, called, heap, creates⟩ := step_createUserAddrSpace ∅ ran'
  cases called
  rcases creates with ⟨as, rfl, create⟩ | ⟨_, rfl, _⟩
  · obtain ⟨listed, present⟩ := Prod.mk.inj (EStateM.Result.ok.inj ran).1
    have free : (freeBlocks m₁.ctx).Nonempty := by
      refine ⟨⟨4, 2⟩, by decide, ?_⟩
      change IntrusiveList.OnList _ (m₁.ctx.freelistTable 2) 4
      rw [listed]
      exact .here 4
    have run : Run .release 8 (Safe 8) ⟨m, ∅⟩ ⟨m₂, insert as.pageTableRoot ∅⟩ :=
      .tail (.tail (.single ⟨.map _ _ .data, ⟨rfl, clear _⟩, .map mapped⟩) ⟨.heap, trivial, heap⟩)
        ⟨.create, Or.inl free, create⟩
    obtain ⟨_, same, used⟩ := userRoot_shares_kernelHalf started run as.pageTableRoot
      (Set.mem_insert _ _) 256 (by decide) present
    exact ⟨m, _, started, run, as.pageTableRoot, Set.mem_insert _ _, present, same, used⟩
  · cases ran

/-- The entry is present and names a frame that is no page table. -/
def dangles (m : Machine BuddyPmm) (root : ℕ) (idx : Fin 512) : Bool :=
  (m.frames root idx).isPresent &&
    decide ((m.ctx.metaAt (m.frames root idx).getNextLevelTable).type ≠ .pageTable)

/-- A kernel page is mapped, copied to a user root, and unmapped: the copy names a freed table. -/
theorem userRoot_dangles : ∃ m x, PageTables.Start .release 8 m ∧
    Run .release 8 (fun _ _ => True) ⟨m, ∅⟩ x ∧ ∃ user ∈ x.users,
      (x.machine.frames user 256).isPresent = true ∧
      (x.machine.frames user 256).getNextLevelTable ∉ x.machine.ctx.pageTables := by
  have evaluated : outcome (EStateM.run (do
      bootNineFrames
      let _ ← map (kernelMmuContext .release) 8 0xFFFF800000000000 0x1000 .data
      let created ← setUpUserAddrSpace .release roomyHeap 8
      unmap (kernelMmuContext .release) 8 0xFFFF800000000000
      let m ← get
      match created with
      | .error _ => return false
      | .ok as => return dangles m as.pageTableRoot 256) nineFrames) = some true :=
    by decide +kernel
  obtain ⟨after, ran⟩ := eq_ok_of_outcome evaluated
  obtain ⟨_, m, booted, ran⟩ := run_bind_eq_ok ran
  obtain ⟨_, m₁, mapped, ran⟩ := run_bind_eq_ok ran
  obtain ⟨created, m₂, ran', ran⟩ := run_bind_eq_ok ran
  obtain ⟨_, m₃, unmapped, ran⟩ := run_bind_eq_ok ran
  rw [run_get_bind] at ran
  cases created with
  | error error => cases ran
  | ok as =>
    have checked : dangles m₃ as.pageTableRoot 256 = true := (EStateM.Result.ok.inj ran).1
    rw [dangles, Bool.and_eq_true, decide_eq_true_eq] at checked
    have run : Run .release 8 (fun _ _ => True) ⟨m, ∅⟩ ⟨m₃, insert as.pageTableRoot ∅⟩ :=
      .tail (.tail (.single ⟨_, trivial, .map mapped⟩) ⟨_, trivial, .create ran'⟩)
        ⟨_, trivial, .unmap unmapped⟩
    refine ⟨m, _, (PageTables.start_of_nineFrames booted).1, run, as.pageTableRoot,
      Set.mem_insert _ _, checked.1, ?_⟩
    exact fun member => checked.2 member.2

end AlkOS.Mem.Vmm
