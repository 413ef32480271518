import AlkOS.Mem.Init.BootMmu

/-!
# Page tables implement a map of pages

Seen through `Translate`, `Map` adds one page to a partial map from virtual pages
to physical pages or changes nothing, and `Unmap` removes one page.
-/

namespace AlkOS.Hal.Mmu

open Kernel RadixTree

variable {κ : Type} {ctx : MmuContext κ} {L : Lawful ctx} {m m' : Machine κ} {root : ℕ}
  {frames frames' : Frames} {vaddr paddr v w : BitVec 64} {flags : PageFlags}

/-- The addresses of a page are those whose walks pass its leaf. -/
theorem prefix_indices_iff : indices v <+: indices w ↔ SamePage v w := by
  rw [← indices_eq_iff]
  constructor
  · intro inside
    exact inside.eq_of_length (length_indicesFrom.trans length_indicesFrom.symm)
  · intro same
    rw [same]

/-- Addresses with the same walks are translated alike. -/
theorem translate_congr
    (same : resolve frames' root (indices v) = resolve frames root (indices v)) :
    translate frames' root v = translate frames root v := by
  rw [translate_eq, translate_eq, same]

/-- `Translate` succeeds where the walk finds a value. -/
theorem translated_iff : (∃ address, translate frames root v = .ok address) ↔
    resolve frames root (indices v) ≠ none := by
  rw [translate_eq]
  cases resolve frames root (indices v) with
  | none =>
    refine ⟨?_, fun found => absurd rfl found⟩
    rintro ⟨_, failed⟩
    cases failed
  | some value => exact ⟨fun _ => Option.some_ne_none value, fun _ => ⟨_, rfl⟩⟩

theorem Mapped.translate_here (mapped : Mapped L m m' root vaddr paddr flags)
    (aligned : paddr.toNat % 4096 = 0) (bound : paddr.toNat < 2 ^ 52) (page : SamePage v vaddr) :
    translate m'.frames root v = .ok (paddr + (v &&& 0xFFF)) := by
  rw [translate_eq, indices_eq_iff.mpr page, mapped.here]
  change Except.ok (PageMapEntry.getFrameAddress _ + (v &&& 0xFFF)) = _
  rw [PageMapEntry.getFrameAddress_setFrameAddress flags aligned bound]

theorem Mapped.translate_elsewhere (mapped : Mapped L m m' root vaddr paddr flags)
    (apart : ¬ SamePage v vaddr) :
    translate m'.frames root v = translate m.frames root v := by
  apply translate_congr
  apply mapped.elsewhere
  rw [prefix_indices_iff]
  exact fun same => apart same.symm

theorem Grown.translate_eq (grown : Grown L m m' root) (v : BitVec 64) :
    translate m'.frames root v = translate m.frames root v :=
  translate_congr (grown.values (indices v))

theorem Unmapped.translate_here {path : List (Fin 512)} {pt kept : ℕ}
    (unmapped : Unmapped L m m' root vaddr path pt kept) (page : SamePage v vaddr) :
    translate m'.frames root v = .error .notFound := by
  rw [Mmu.translate_eq, indices_eq_iff.mpr page, unmapped.cut.values, unmapped.split,
    unmapped.written.here]
  rfl

theorem Unmapped.translate_elsewhere {path : List (Fin 512)} {pt kept : ℕ}
    (unmapped : Unmapped L m m' root vaddr path pt kept) (apart : ¬ SamePage v vaddr) :
    translate m'.frames root v = translate m.frames root v := by
  apply translate_congr
  rw [unmapped.cut.values]
  apply unmapped.written.elsewhere
  rw [← unmapped.split, prefix_indices_iff]
  exact fun same => apart same.symm

/-- Without huge entries on the walk, `Map` and `Unmap` return and leave a well-formed tree. `Map`
fails exactly if the page is translated already or `AllocateTable` fails on the walk. Each changes
the translation of the page only, and a failed `Map` changes none. -/
theorem translate_map_unmap (good : WellFormed L m root) (clear : NoHuge m.frames root vaddr) :
    (∀ paddr flags, paddr.toNat % 4096 = 0 → paddr.toNat < 2 ^ 52 → flags.present = true →
      ∃ result m', (map ctx root vaddr paddr flags).run m = .ok result m' ∧
        WellFormed L m' root ∧
        ((∃ error, result = .error error) ↔
          (∃ address, translate m.frames root vaddr = .ok address) ∨
            AllocationFails ctx vaddr 3 root m) ∧
        (result = .ok () →
          (∀ v, SamePage v vaddr → translate m'.frames root v = .ok (paddr + (v &&& 0xFFF))) ∧
          ∀ v, ¬ SamePage v vaddr → translate m'.frames root v = translate m.frames root v) ∧
        ∀ error, result = .error error →
          ∀ v, translate m'.frames root v = translate m.frames root v) ∧
      ∃ m', (unmap ctx root vaddr).run m = .ok () m' ∧ WellFormed L m' root ∧
        (∀ v, SamePage v vaddr → translate m'.frames root v = .error .notFound) ∧
        ∀ v, ¬ SamePage v vaddr → translate m'.frames root v = translate m.frames root v := by
  constructor
  · intro paddr flags aligned bound present
    rcases run_map good clear present paddr with
      ⟨error, m', ran, grown, why⟩ | ⟨m', ran, mapped, missing, served⟩
    · refine ⟨_, m', ran, grown.wellFormed, ?_, ?_, fun _ _ v => grown.translate_eq v⟩
      · rw [translated_iff]
        exact ⟨fun _ => why, fun _ => ⟨error, rfl⟩⟩
      · intro success
        cases success
    · refine ⟨_, m', ran, mapped.wellFormed, ?_, ?_, ?_⟩
      · rw [translated_iff]
        constructor
        · rintro ⟨error, failed⟩
          cases failed
        · exact fun why => (why.elim (fun full => full missing) served).elim
      · intro _
        exact ⟨fun v page => mapped.translate_here aligned bound page,
          fun v apart => mapped.translate_elsewhere apart⟩
      · intro error failed
        cases failed
  · rcases run_unmap good clear with ⟨ran, missing⟩ | ⟨m', path, pt, kept, ran, unmapped⟩
    · refine ⟨m, ran, good, ?_, fun _ _ => rfl⟩
      intro v page
      rw [translate_eq, indices_eq_iff.mpr page, missing]
    · exact ⟨m', ran, unmapped.cut.wellFormed, fun v page => unmapped.translate_here page,
        fun v apart => unmapped.translate_elsewhere apart⟩

/-- On nine frames `Map` succeeds on a page, then fails on the same page, and
`Unmap` removes the page again. -/
theorem translate_nineFrames : ∃ m m₁ m₂ m₃ : Machine Mem.BuddyPmm,
    EStateM.run Mem.bootNineFrames Mem.nineFrames = .ok () m ∧
    (map (Mem.kernelMmuContext .release) 8 0x1000 0x2000 .data).run m = .ok (.ok ()) m₁ ∧
    translate m₁.frames 8 0x1234 = .ok 0x2234 ∧
    (∃ error, (map (Mem.kernelMmuContext .release) 8 0x1000 0x3000 .data).run m₁ =
        .ok (.error error) m₂) ∧
    translate m₂.frames 8 0x1234 = .ok 0x2234 ∧
    (unmap (Mem.kernelMmuContext .release) 8 0x1000).run m₂ = .ok () m₃ ∧
    translate m₃.frames 8 0x1234 = .error .notFound := by
  have evaluated : outcome (EStateM.run (do
      Mem.bootNineFrames
      let mapped ← map (Mem.kernelMmuContext .release) 8 0x1000 0x2000 .data
      return mapped.isOk) Mem.nineFrames) = some true := by decide +kernel
  obtain ⟨after, ran⟩ := eq_ok_of_outcome evaluated
  obtain ⟨_, m, booted, ran⟩ := run_bind_eq_ok ran
  obtain ⟨result, m₁, mapped, ran⟩ := run_bind_eq_ok ran
  obtain ⟨before, _, _, boot, reconstructed, frames⟩ := Mem.boot_of_nineFrames booted
  obtain ⟨_, again, _, good⟩ := Mem.run_reconstructMetadata .release boot
  cases reconstructed.symm.trans again
  have clear := Mem.noHuge_of_nineFrames frames 0x1000
  obtain ⟨_, _, ran', good₁, _, success, _⟩ :=
    (translate_map_unmap good clear).1 0x2000 .data (by decide) (by decide) rfl
  cases mapped.symm.trans ran'
  have clear₁ := (kept_of_map good clear rfl mapped).noHuge _ clear
  cases result with
  | error error => cases ran
  | ok value =>
    have here : translate m₁.frames 8 0x1234 = .ok 0x2234 := (success rfl).1 0x1234 rfl
    obtain ⟨result, m₂, second, good₂, failed, _, same⟩ :=
      (translate_map_unmap good₁ clear₁).1 0x3000 .data (by decide) (by decide) rfl
    obtain ⟨error, rfl⟩ := failed.mpr (Or.inl ⟨0x2000, (success rfl).1 0x1000 rfl⟩)
    have clear₂ := (kept_of_map good₁ clear₁ rfl second).noHuge _ clear₁
    obtain ⟨m₃, removed, _, missing, _⟩ := (translate_map_unmap good₂ clear₂).2
    exact ⟨m, m₁, m₂, m₃, booted, mapped, here, ⟨error, second⟩, (same error rfl _).trans here,
      removed, missing 0x1234 rfl⟩

end AlkOS.Hal.Mmu
