import AlkOS.Kernel.Basic

/-!
# Surfaces

A surface is a buffer of 32-bit pixels in lines of `pitch` bytes. Its memory is a
function from offsets to bytes, and painting is said for whole regions of pixels: the
bytes of a pixel lie in one line and in no other pixel.
-/

namespace AlkOS.Graphics

open Kernel

/-- The bytes of a surface. -/
abbrev Memory := ℕ → UInt8

/-- `Surface` without its buffer. -/
structure Surface where
  width : ℕ
  height : ℕ
  pitchBytes : ℕ
  narrow : width < 2 ^ 31
  low : height < 2 ^ 31
  room : 4 * width ≤ pitchBytes

abbrev NativePixel := BitVec 32

/-- One byte of a pixel as the code extracts it: `(raw >> 8 * k) & 0xFF`. -/
def channel (raw : NativePixel) (k : ℕ) : BitVec 32 := (raw >>> (8 * k)) &&& 0xFF

/-- A byte of a pixel in memory. -/
def byteOf (raw : NativePixel) (k : ℕ) : UInt8 := UInt8.ofBitVec ((channel raw k).setWidth 8)

/-- Store a pixel, lowest byte first. -/
def storePixel (offset : ℕ) (color : NativePixel) (memory : Memory) : Memory := fun a =>
  if offset ≤ a ∧ a < offset + 4 then byteOf color (a - offset) else memory a

def memset (offset : ℕ) (value : UInt8) (count : ℕ) (memory : Memory) : Memory := fun a =>
  if offset ≤ a ∧ a < offset + count then value else memory a

/-- `std::span<NativePixel>`. -/
structure Span where
  data : ℕ
  size : ℕ

/-- `subspan`. -/
def Span.subspan (build : Build) (span : Span) (offset count : ℕ) : Kernel Memory Span := do
  Kernel.assertTrue build (offset ≤ span.size ∧ count ≤ span.size - offset)
    "offset <= size() && count <= size() - offset"
  return ⟨span.data + 4 * offset, count⟩

/-- `GetScanline`. -/
def Surface.getScanline (build : Build) (surface : Surface) (y : ℕ) : Kernel Memory Span := do
  Kernel.assertTrue build (y < surface.height) "y < height_"
  return ⟨y * surface.pitchBytes, surface.width⟩

/-- `FillScanline`: a pixel of four equal bytes is set by bytes. -/
def fillScanline (dest : Span) (color : NativePixel) : Kernel Memory Unit :=
  if channel color 0 = channel color 1 ∧ channel color 0 = channel color 2 ∧
      channel color 0 = channel color 3 then
    modify (memset dest.data (byteOf color 0) (4 * dest.size))
  else (List.range dest.size).forM fun i => modify (storePixel (dest.data + 4 * i) color)

theorem run_subspan {build : Build} {span : Span} {offset count : ℕ} {memory : Memory}
    (fits : offset ≤ span.size ∧ count ≤ span.size - offset) :
    (span.subspan build offset count).run memory =
      .ok ⟨span.data + 4 * offset, count⟩ memory := by
  unfold Span.subspan
  rw [run_bind (run_assertTrue fits)]
  rfl

theorem run_getScanline {build : Build} {surface : Surface} {y : ℕ} {memory : Memory}
    (below : y < surface.height) :
    (surface.getScanline build y).run memory =
      .ok ⟨y * surface.pitchBytes, surface.width⟩ memory := by
  unfold Surface.getScanline
  rw [run_bind (run_assertTrue below)]
  rfl

/-- Pixels from an offset on. -/
def strip (offset count : ℕ) (color : NativePixel) (memory : Memory) : Memory := fun a =>
  if offset ≤ a ∧ a < offset + 4 * count then byteOf color ((a - offset) % 4) else memory a

/-- The memory after all pixels of a region were painted. -/
def Surface.paint (surface : Surface) (region : ℕ → ℕ → Prop) [∀ i j, Decidable (region i j)]
    (color : NativePixel) (memory : Memory) : Memory := fun a =>
  if region (a % surface.pitchBytes / 4) (a / surface.pitchBytes) ∧
      a % surface.pitchBytes / 4 < surface.width ∧ a / surface.pitchBytes < surface.height then
    byteOf color (a % surface.pitchBytes % 4)
  else memory a

variable {surface : Surface} {color : NativePixel} {memory : Memory} {offset count : ℕ}

theorem strip_zero : strip offset 0 color memory = memory := by
  funext a
  exact if_neg (by omega)

/-- A strip grows by one pixel. -/
theorem storePixel_strip :
    storePixel (offset + 4 * count) color (strip offset count color memory) =
      strip offset (count + 1) color memory := by
  funext a
  unfold storePixel strip
  by_cases last : offset + 4 * count ≤ a ∧ a < offset + 4 * count + 4
  · rw [if_pos last, if_pos (by omega)]
    congr 1
    omega
  · rw [if_neg last]
    by_cases before : offset ≤ a ∧ a < offset + 4 * count
    · rw [if_pos before, if_pos (by omega)]
    · rw [if_neg before, if_neg (by omega)]

theorem run_storePixels (color : NativePixel) (offset count : ℕ) (memory : Memory) :
    EStateM.run ((List.range count).forM fun i => modify (storePixel (offset + 4 * i) color) :
      Kernel Memory PUnit) memory = .ok () (strip offset count color memory) := by
  induction count with
  | zero =>
    rw [strip_zero]
    rfl
  | succ count ih =>
    rw [run_forM_range_succ ih, ← storePixel_strip]
    rfl

/-- A line of equal bytes is a line of pixels with these bytes. -/
theorem memset_eq_strip (first : channel color 0 = channel color 1)
    (second : channel color 0 = channel color 2) (third : channel color 0 = channel color 3) :
    memset offset (byteOf color 0) (4 * count) memory = strip offset count color memory := by
  funext a
  unfold memset strip
  by_cases inside : offset ≤ a ∧ a < offset + 4 * count
  · have cases : (a - offset) % 4 = 0 ∨ (a - offset) % 4 = 1 ∨ (a - offset) % 4 = 2 ∨
      (a - offset) % 4 = 3 := by omega
    rcases cases with same | same | same | same
    · rw [same]
    · rw [same, byteOf, byteOf, first]
    · rw [same, byteOf, byteOf, second]
    · rw [same, byteOf, byteOf, third]
  · rw [if_neg inside, if_neg inside]

/-- `FillScanline` stores a strip of pixels. -/
theorem run_fillScanline (dest : Span) (color : NativePixel) (memory : Memory) :
    (fillScanline dest color).run memory =
      .ok () (strip dest.data dest.size color memory) := by
  unfold fillScanline
  by_cases equal : channel color 0 = channel color 1 ∧ channel color 0 = channel color 2 ∧
      channel color 0 = channel color 3
  · rw [if_pos equal, ← memset_eq_strip equal.1 equal.2.1 equal.2.2]
    rfl
  · rw [if_neg equal]
    exact run_storePixels color dest.data dest.size memory

section Regions

variable {region region' : ℕ → ℕ → Prop} [∀ i j, Decidable (region i j)]
  [∀ i j, Decidable (region' i j)]

theorem paint_congr
    (same : ∀ i < surface.width, ∀ j < surface.height, region i j ↔ region' i j) :
    surface.paint region color memory = surface.paint region' color memory := by
  funext a
  refine if_congr ⟨fun inside => ?_, fun inside => ?_⟩ rfl rfl
  · exact ⟨(same _ inside.2.1 _ inside.2.2).mp inside.1, inside.2⟩
  · exact ⟨(same _ inside.2.1 _ inside.2.2).mpr inside.1, inside.2⟩

theorem paint_empty (empty : ∀ i < surface.width, ∀ j < surface.height, ¬region i j) :
    surface.paint region color memory = memory := by
  funext a
  exact if_neg fun inside => empty _ inside.2.1 _ inside.2.2 inside.1

/-- Painting two regions. -/
theorem paint_paint :
    surface.paint region' color (surface.paint region color memory) =
      surface.paint (fun i j => region i j ∨ region' i j) color memory := by
  funext a
  unfold Surface.paint
  by_cases second : region' (a % surface.pitchBytes / 4) (a / surface.pitchBytes) ∧
      a % surface.pitchBytes / 4 < surface.width ∧ a / surface.pitchBytes < surface.height
  · rw [if_pos second, if_pos ⟨.inr second.1, second.2⟩]
  · rw [if_neg second]
    refine if_congr ⟨fun inside => ⟨.inl inside.1, inside.2⟩, fun inside => ?_⟩ rfl rfl
    exact ⟨inside.1.resolve_right fun other => second ⟨other, inside.2⟩, inside.2⟩

/-- The byte of a pixel after painting. -/
theorem paint_pixel {i j k : ℕ} (inside : i < surface.width) (below : j < surface.height)
    (byte : k < 4) :
    surface.paint region color memory (j * surface.pitchBytes + 4 * i + k) =
      if region i j then byteOf color k
      else memory (j * surface.pitchBytes + 4 * i + k) := by
  have room := surface.room
  have line : (j * surface.pitchBytes + 4 * i + k) / surface.pitchBytes = j := by
    rw [Nat.add_assoc, Nat.mul_comm, Nat.mul_add_div (by omega), Nat.div_eq_of_lt (by omega),
      Nat.add_zero]
  have rest : (j * surface.pitchBytes + 4 * i + k) % surface.pitchBytes = 4 * i + k := by
    rw [Nat.add_assoc, Nat.mul_comm, Nat.mul_add_mod, Nat.mod_eq_of_lt (by omega)]
  have column : (4 * i + k) / 4 = i := by omega
  have index : (4 * i + k) % 4 = k := by omega
  unfold Surface.paint
  rw [line, rest, column, index]
  exact if_congr ⟨fun held => held.1, fun held => ⟨held, inside, below⟩⟩ rfl rfl

end Regions

/-- A part of a line as a region. -/
theorem strip_eq_paint {x y w : ℕ} (fits : x + w ≤ surface.width) (below : y < surface.height) :
    strip (y * surface.pitchBytes + 4 * x) w color memory =
      surface.paint (fun i j => j = y ∧ x ≤ i ∧ i < x + w) color memory := by
  funext a
  have room := surface.room
  have split := Nat.div_add_mod a surface.pitchBytes
  unfold strip Surface.paint
  by_cases inside : y * surface.pitchBytes + 4 * x ≤ a ∧
      a < y * surface.pitchBytes + 4 * x + 4 * w
  · have positive : 0 < surface.pitchBytes := by omega
    have line : a / surface.pitchBytes = y := by
      rw [Nat.div_eq_iff positive]
      omega
    rw [line, Nat.mul_comm] at split
    rw [if_pos inside, if_pos (by omega)]
    congr 1
    omega
  · rw [if_neg inside, if_neg]
    rintro ⟨⟨line, left, right⟩, _⟩
    rw [line, Nat.mul_comm] at split
    omega

end AlkOS.Graphics
