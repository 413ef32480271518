import AlkOS.Foundation.Bytes

/-!
# The boot loader's ELF images

`GetProgramBounds` takes the maximum of the start and an end where it should take that
of two ends, so that the end of the last segment is returned. The image is not
overwritten while it is loaded.
-/

namespace AlkOS.Boot.Elf64

inductive Error where
  | invalidElf
  | unsupportedMachine
deriving DecidableEq

structure ProgramHeaderEntry where
  type : ℕ
  offset : ℕ
  virtualAddress : ℕ
  sizeInFileBytes : ℕ
  sizeInMemoryBytes : ℕ
deriving DecidableEq

def kLoadableSegmentType : ℕ := 1

variable (image : Bytes)

def isValid : Except Error Unit :=
  if (List.range 4).map image ≠ [0x7F, 0x45, 0x4C, 0x46] then .error .invalidElf
  else if image.readLE 18 2 ≠ 0x3E then .error .unsupportedMachine
  else .ok ()

/-- An entry of the program header table. -/
def programHeaderEntry (i : ℕ) : ProgramHeaderEntry :=
  let entry := image.view (image.readLE 32 8 + 56 * i)
  ⟨entry.readLE 0 4, entry.readLE 8 8, entry.readLE 16 8, entry.readLE 32 8, entry.readLE 40 8⟩

/-- The loadable segments, in the order of the table. -/
def segments : List ProgramHeaderEntry :=
  ((List.range (image.readLE 56 2)).map (programHeaderEntry image)).filter
    (·.type = kLoadableSegmentType)

/-- One round of the loop of `GetProgramBounds`. -/
def widen (bounds : ℕ × ℕ) (segment : ProgramHeaderEntry) : ℕ × ℕ :=
  let start := min bounds.1 segment.virtualAddress
  (start, max start ((segment.virtualAddress + segment.sizeInMemoryBytes) % 2 ^ 64))

def getProgramBounds : Except Error (ℕ × ℕ) :=
  if (isValid image).isOk ∧ segments image ≠ [] then
    .ok ((segments image).foldl widen (2 ^ 64 - 1, 0))
  else .error .invalidElf

/-- Bytes that `Load` copies from the image, or clears. -/
structure Write where
  address : ℕ
  size : ℕ
  source : Option ℕ

def elfBase : ℕ :=
  (segments image).foldl (fun base segment => min base segment.virtualAddress) (2 ^ 64 - 1)

/-- Without a destination an image is loaded at its own addresses. -/
def destination (address : ℕ) : ℕ := if address = 0 then elfBase image else address

/-- The copy of a segment and the bytes that are cleared behind it. -/
def loadSegment (destination base : ℕ) (segment : ProgramHeaderEntry) : List Write :=
  let address := (destination + (segment.virtualAddress + 2 ^ 64 - base) % 2 ^ 64) % 2 ^ 64
  ⟨address, segment.sizeInFileBytes, some segment.offset⟩ ::
    if segment.sizeInFileBytes < segment.sizeInMemoryBytes then
      [⟨(address + segment.sizeInFileBytes) % 2 ^ 64,
        segment.sizeInMemoryBytes - segment.sizeInFileBytes, none⟩]
    else []

/-- `Load`: the entry point and what is written. -/
def load (address : ℕ) : Except Error (ℕ × List Write) :=
  if (isValid image).isOk then
    let base := elfBase image
    let destination := destination image address
    .ok ((destination + (image.readLE 24 8 + 2 ^ 64 - base) % 2 ^ 64) % 2 ^ 64,
      (segments image).flatMap (loadSegment destination base))
  else .error .invalidElf

/-- The bounds are exact, and every byte is written between them, moved to the destination. -/
def Covers (address : ℕ) : Prop :=
  ∃ start stop entry writes, getProgramBounds image = .ok (start, stop) ∧
    IsLeast {v | ∃ segment ∈ segments image, segment.virtualAddress = v} start ∧
    IsGreatest {v | ∃ segment ∈ segments image,
      segment.virtualAddress + segment.sizeInMemoryBytes = v} stop ∧
    load image address = .ok (entry, writes) ∧ ∀ write ∈ writes, ∀ i < write.size,
      ∃ k < stop - start, (write.address + i) % 2 ^ 64 = (destination image address + k) % 2 ^ 64

variable {image} {l : List ProgramHeaderEntry} {segment : ProgramHeaderEntry}

/-- The fold of minima is below the addresses and is its start or one of them. -/
theorem foldl_min (l : List ProgramHeaderEntry) (start : ℕ) :
    let least := l.foldl (fun base segment => min base segment.virtualAddress) start
    (least = start ∨ ∃ segment ∈ l, segment.virtualAddress = least) ∧ least ≤ start ∧
      ∀ segment ∈ l, least ≤ segment.virtualAddress := by
  induction l generalizing start with
  | nil => exact ⟨.inl rfl, le_rfl, nofun⟩
  | cons first l ih =>
    obtain ⟨reached, least, below⟩ := ih (min start first.virtualAddress)
    simp only [List.foldl_cons, List.mem_cons, exists_eq_or_imp, forall_eq_or_imp]
    refine ⟨?_, least.trans (min_le_left _ _), least.trans (min_le_right _ _), below⟩
    rcases reached with same | found
    · rw [same]
      exact (min_choice _ _).imp_right fun same => .inl same.symm
    · exact .inr (.inr found)

theorem elfBase_le (member : segment ∈ segments image) :
    elfBase image ≤ segment.virtualAddress :=
  (foldl_min _ _).2.2 segment member

section

variable {front : List ProgramHeaderEntry} {last : ProgramHeaderEntry}
  (valid : isValid image = .ok ()) (split : segments image = front ++ [last])
  (noWrap : ∀ segment ∈ segments image,
    segment.virtualAddress + segment.sizeInMemoryBytes < 2 ^ 64)
include split

/-- The base is the least address. -/
theorem isLeast_elfBase :
    IsLeast {v | ∃ segment ∈ segments image, segment.virtualAddress = v} (elfBase image) := by
  refine ⟨?_, fun v ⟨segment, member, same⟩ => same ▸ elfBase_le member⟩
  rcases (foldl_min (segments image) (2 ^ 64 - 1)).1 with largest | found
  · have member : last ∈ segments image := split ▸ List.mem_append_right _ List.mem_cons_self
    refine ⟨last, member, ?_⟩
    have low := elfBase_le member
    have small : last.virtualAddress < 2 ^ 64 := by
      obtain ⟨i, _, rfl⟩ := List.mem_map.mp (List.mem_filter.mp member).1
      exact Bytes.readLE_lt _ _ _
    unfold elfBase at low ⊢
    omega
  · exact found

include valid noWrap

/-- The start is the base, and the end that of the last segment. -/
theorem getProgramBounds_eq : getProgramBounds image =
    .ok (elfBase image, last.virtualAddress + last.sizeInMemoryBytes) := by
  have starts : ∀ (l : List ProgramHeaderEntry) (bounds : ℕ × ℕ), (l.foldl widen bounds).1 =
      l.foldl (fun base segment => min base segment.virtualAddress) bounds.1 := by
    intro l
    induction l with
    | nil => exact fun _ => rfl
    | cons first l ih => exact fun bounds => ih (widen bounds first)
  have whole := noWrap last (split ▸ List.mem_append_right _ List.mem_cons_self)
  unfold getProgramBounds elfBase
  rw [if_pos ⟨by rw [valid]; rfl, by simp [split]⟩, split, List.foldl_append, List.foldl_append]
  simp only [List.foldl_cons, List.foldl_nil, widen, starts]
  congr 2
  omega

/-- The bounds cover what is loaded exactly if no segment ends after the last one. -/
theorem covers_iff (sizes : ∀ segment ∈ segments image,
      segment.sizeInFileBytes ≤ segment.sizeInMemoryBytes) (address : ℕ) :
    Covers image address ↔ ∀ segment ∈ segments image,
      segment.virtualAddress + segment.sizeInMemoryBytes ≤
        last.virtualAddress + last.sizeInMemoryBytes := by
  constructor
  · rintro ⟨start, stop, _, _, bounds, _, greatest, _⟩ segment member
    cases bounds.symm.trans (getProgramBounds_eq valid split noWrap)
    exact greatest.2 ⟨segment, member, rfl⟩
  · intro ends
    have member : last ∈ segments image := split ▸ List.mem_append_right _ List.mem_cons_self
    refine ⟨_, _, _, _, getProgramBounds_eq valid split noWrap, isLeast_elfBase split,
      ⟨⟨last, member, rfl⟩, fun v ⟨segment, member, same⟩ => same ▸ ends segment member⟩,
      if_pos (by rw [valid]; rfl), fun write written i inside => ?_⟩
    obtain ⟨segment, member, written⟩ := List.mem_flatMap.mp written
    have low := elfBase_le member
    have high := ends segment member
    have fits := sizes segment member
    rcases List.mem_cons.mp written with rfl | cleared
    · exact ⟨segment.virtualAddress - elfBase image + i, by simp only at inside; omega, by
        simp only
        omega⟩
    · split_ifs at cleared with more
      · cases List.mem_singleton.mp cleared
        exact ⟨segment.virtualAddress - elfBase image + segment.sizeInFileBytes + i, by
          simp only at inside
          simp only
          omega⟩
      · exact nomatch cleared

end

/-- An image with two segments of one page each, to be cleared. -/
def twoSegments (first second : ℕ) : Bytes :=
  [(0, 0x464C457F), (18, 0x3E), (32, 64), (56, 2), (64, 1), (80, first), (104, 0x1000), (120, 1),
    (136, second), (160, 0x1000)].foldl (fun image (offset, value) => image.writeLE offset 4 value)
      fun _ => 0

/-- Two segments in ascending order. -/
theorem covers_ascending : Covers (twoSegments 0x1000 0x2000) 0x100000 :=
  (covers_iff (by decide +kernel) (show segments _ = [⟨1, 0, 0x1000, 0, 0x1000⟩] ++
    [⟨1, 0, 0x2000, 0, 0x1000⟩] by decide +kernel) (by decide +kernel) (by decide +kernel) _).mpr
    (by decide +kernel)

/-- The bounds of two segments in descending order hold one of them. -/
theorem not_covers_descending :
    getProgramBounds (twoSegments 0x2000 0x1000) = .ok (0x1000, 0x2000) ∧
      ¬ Covers (twoSegments 0x2000 0x1000) 0x100000 := by
  have bounds : getProgramBounds (twoSegments 0x2000 0x1000) = .ok (0x1000, 0x2000) := by
    decide +kernel
  refine ⟨bounds, ?_⟩
  rintro ⟨_, _, _, _, other, _, greatest, _⟩
  cases other.symm.trans bounds
  have first : (⟨1, 0, 0x2000, 0, 0x1000⟩ : ProgramHeaderEntry) ∈
      segments (twoSegments 0x2000 0x1000) := by decide +kernel
  exact absurd (greatest.2 ⟨_, first, rfl⟩) (by decide)

end AlkOS.Boot.Elf64
