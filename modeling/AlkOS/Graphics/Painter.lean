import AlkOS.Graphics.Surface

/-!
# Painter

`FillRect` clips a rectangle to the surface with signed 32-bit arithmetic and unsigned
comparisons and fills it line by line. `DrawRect` and `DrawChar` are made of it. A signed
sum or product that is not an `i32` has no defined value.
-/

namespace AlkOS.Graphics

open Kernel

structure Rect where
  x : ℤ
  y : ℤ
  w : ℤ
  h : ℤ
deriving DecidableEq, Repr

variable (a : ℤ)

/-- The values of an `i32`. -/
def IsI32 : Prop := -2 ^ 31 ≤ a ∧ a < 2 ^ 31

instance (a : ℤ) : Decidable (IsI32 a) := inferInstanceAs (Decidable (_ ∧ _))

/-- A signed result. -/
def checkI32 : Kernel Memory ℤ :=
  if IsI32 a then pure a else throw (.undefined "signed overflow")

/-- `static_cast<u32>`. -/
def toU32 : ℕ := (a % 2 ^ 32).toNat

/-- `static_cast<i32>`. -/
def toI32 : ℤ := a.bmod (2 ^ 32)

/-- `static_cast<size_t>`. -/
def toSize : ℕ := (a % 2 ^ 64).toNat

/-- Cut off what lies before the origin: `if (x < 0) { w += x; x = 0; }`. -/
def clipStart (x w : ℤ) : Kernel Memory (ℤ × ℤ) :=
  if x < 0 then do return (0, ← checkI32 (w + x)) else return (x, w)

/-- Cut off what lies behind the surface:
`if (static_cast<u32>(x + w) > GetWidth()) w = GetWidth() - x;`. -/
def clipEnd (size : ℕ) (x w : ℤ) : Kernel Memory ℤ := do
  let right ← checkI32 (x + w)
  if size < toU32 right then return toI32 (size - x) else return w

/-- A line of `FillRect`. -/
def fillLine (build : Build) (surface : Surface) (color : NativePixel) (x y w : ℤ) (row : ℕ) :
    Kernel Memory Unit := do
  let line ← surface.getScanline build (toU32 (← checkI32 (y + row)))
  let part ← line.subspan build (toSize x) (toSize w)
  fillScanline part color

def fillRect (build : Build) (surface : Surface) (color : NativePixel) (r : Rect) :
    Kernel Memory Unit := do
  let (x, w) ← clipStart r.x r.w
  let (y, h) ← clipStart r.y r.h
  if surface.width ≤ toU32 x ∨ surface.height ≤ toU32 y then return ()
  else
    let w ← clipEnd surface.width x w
    let h ← clipEnd surface.height y h
    if w ≤ 0 ∨ h ≤ 0 then return ()
    else (List.range h.toNat).forM (fillLine build surface color x y w)

def drawRect (build : Build) (surface : Surface) (color : NativePixel) (r : Rect) :
    Kernel Memory Unit := do
  fillRect build surface color ⟨r.x, r.y, r.w, 1⟩
  let bottom ← checkI32 ((← checkI32 (r.y + r.h)) - 1)
  fillRect build surface color ⟨r.x, bottom, r.w, 1⟩
  fillRect build surface color ⟨r.x, r.y, 1, r.h⟩
  let right ← checkI32 ((← checkI32 (r.x + r.w)) - 1)
  fillRect build surface color ⟨right, r.y, 1, r.h⟩

/-- `Glyph`: the bytes behind its pointer and the sizes that drawing reads. -/
structure Glyph where
  buffer : ℕ → UInt8
  width : ℕ
  height : ℕ
  stride : ℕ
  narrow : width < 2 ^ 31
  low : height < 2 ^ 31

/-- The bit of a glyph at a row and a column, most significant bit first. -/
def Glyph.isSet (glyph : Glyph) (row col : ℕ) : Bool :=
  (glyph.buffer (row * glyph.stride % 2 ^ 32 + col >>> 3)).toNat.testBit (7 - col % 8)

structure CharCmd where
  x : ℤ
  y : ℤ
  c : UInt8
  scale : UInt8

/-- The square of a bit of a glyph. -/
def CharCmd.square (cmd : CharCmd) (row col : ℕ) : Rect where
  x := toI32 (cmd.x + col * cmd.scale.toNat)
  y := toI32 (cmd.y + row * cmd.scale.toNat)
  w := cmd.scale.toNat
  h := cmd.scale.toNat

/-- A row of a glyph. -/
def drawRow (build : Build) (surface : Surface) (color : NativePixel) (cmd : CharCmd)
    (glyph : Glyph) (row : ℕ) : Kernel Memory Unit :=
  (List.range glyph.width).forM fun col =>
    if glyph.isSet row col then fillRect build surface color (cmd.square row col) else pure ()

/-- `DrawChar` for any font. -/
def drawChar (build : Build) (surface : Surface) (color : NativePixel) (font : UInt8 → Glyph)
    (cmd : CharCmd) : Kernel Memory Unit := do
  let glyph := font cmd.c
  let scaledWidth ← checkI32 (toI32 glyph.width * cmd.scale.toNat)
  let scaledHeight ← checkI32 (toI32 glyph.height * cmd.scale.toNat)
  if toI32 surface.width ≤ cmd.x ∨ toI32 surface.height ≤ cmd.y then return ()
  else if (← checkI32 (cmd.x + scaledWidth)) ≤ 0 then return ()
  else if (← checkI32 (cmd.y + scaledHeight)) ≤ 0 then return ()
  else (List.range glyph.height).forM (drawRow build surface color cmd glyph)

/-- The pixels that `FillRect` paints: an end before the origin passes for one behind the surface.
-/
def Rect.Covers (r : Rect) (i j : ℕ) : Prop :=
  r.x ≤ i ∧ r.y ≤ j ∧ (r.x + r.w < 0 ∨ i < r.x + r.w) ∧ (r.y + r.h < 0 ∨ j < r.y + r.h)

instance (r : Rect) (i j : ℕ) : Decidable (r.Covers i j) :=
  inferInstanceAs (Decidable (_ ∧ _ ∧ (_ ∨ _) ∧ (_ ∨ _)))

/-- The coordinates and the sums of a rectangle are values of `i32`. -/
structure Rect.Valid (r : Rect) : Prop where
  x : IsI32 r.x
  y : IsI32 r.y
  w : IsI32 r.w
  h : IsI32 r.h
  right : IsI32 (r.x + r.w)
  bottom : IsI32 (r.y + r.h)

variable {build : Build} {surface : Surface} {color : NativePixel} {memory : Memory} {r : Rect}

theorem run_checkI32 {a : ℤ} (valid : IsI32 a) : (checkI32 a).run memory = .ok a memory := by
  rw [checkI32, if_pos valid]
  rfl

theorem toU32_of_nonneg {a : ℤ} (nonneg : 0 ≤ a) (small : a < 2 ^ 31) : (toU32 a : ℤ) = a := by
  unfold toU32
  rw [Int.emod_eq_of_lt nonneg (by omega), Int.toNat_of_nonneg nonneg]

theorem toU32_of_neg {a : ℤ} (valid : IsI32 a) (neg : a < 0) : 2 ^ 31 ≤ toU32 a := by
  obtain ⟨low, _⟩ := valid
  unfold toU32
  omega

theorem toSize_of_nonneg {a : ℤ} (nonneg : 0 ≤ a) (small : a < 2 ^ 31) : (toSize a : ℤ) = a := by
  unfold toSize
  rw [Int.emod_eq_of_lt nonneg (by omega), Int.toNat_of_nonneg nonneg]

theorem toI32_of_valid {a : ℤ} (valid : IsI32 a) : toI32 a = a := by
  obtain ⟨low, high⟩ := valid
  exact Int.bmod_eq_of_le (by norm_num; omega) (by norm_num; omega)

/-- The start of a side after clipping; its end stays where it is. -/
theorem run_clipStart {x w : ℤ} (right : IsI32 (x + w)) :
    (clipStart x w).run memory = .ok (max 0 x, x + w - max 0 x) memory := by
  unfold clipStart
  by_cases neg : x < 0
  · rw [if_pos neg, run_bind (run_checkI32 (by rwa [Int.add_comm])),
      max_eq_left neg.le, Int.sub_zero, Int.add_comm]
    rfl
  · rw [if_neg neg, max_eq_right (by omega), add_sub_cancel_left]
    rfl

/-- The end of a side after clipping. -/
def sideEnd (size : ℕ) (right : ℤ) : ℤ := if right < 0 ∨ size < right then size else right

/-- The end is cut off. -/
theorem run_clipEnd {size : ℕ} {x right : ℤ} (nonneg : 0 ≤ x) (inside : x < size)
    (small : size < 2 ^ 31) (valid : IsI32 right) :
    (clipEnd size x (right - x)).run memory = .ok (sideEnd size right - x) memory := by
  have sum : x + (right - x) = right := by omega
  unfold clipEnd sideEnd
  rw [sum, run_bind (run_checkI32 valid)]
  by_cases outside : right < 0 ∨ size < right
  · have large : size < toU32 right := by
      rcases outside with neg | above
      · have := toU32_of_neg valid neg
        omega
      · have := toU32_of_nonneg (by omega) valid.2
        omega
    rw [if_pos large, if_pos outside, toI32_of_valid ⟨by omega, by omega⟩]
    rfl
  · have same := toU32_of_nonneg (a := right) (by omega) valid.2
    rw [if_neg (by omega), if_neg outside]
    rfl

/-- One line. -/
theorem run_fillLine {x y w : ℤ} {row : ℕ} (left : 0 ≤ x) (width : 0 ≤ w)
    (right : x + w ≤ surface.width) (top : 0 ≤ y) (bottom : y + row < surface.height) :
    (fillLine build surface color x y w row).run memory =
      .ok () (surface.paint (fun i j => (j : ℤ) = y + row ∧ x ≤ i ∧ i < x + w) color memory) := by
  have narrow := surface.narrow
  have low := surface.low
  have xs := toSize_of_nonneg left (by omega)
  have ws := toSize_of_nonneg width (by omega)
  have ys := toU32_of_nonneg (a := y + row) (by omega) (by omega)
  unfold fillLine
  rw [run_bind (run_checkI32 ⟨by omega, by omega⟩),
    run_bind (run_getScanline (by omega)),
    run_bind (run_subspan (by simp only; omega)), run_fillScanline]
  simp only
  rw [strip_eq_paint (by omega) (by omega)]
  congr 1
  exact paint_congr fun i _ j _ => by omega

/-- The lines of a rectangle inside of the surface. -/
theorem run_fillLines {x y w : ℤ} (left : 0 ≤ x) (width : 0 ≤ w) (right : x + w ≤ surface.width)
    (top : 0 ≤ y) (count : ℕ) (bottom : y + count ≤ surface.height) :
    ((List.range count).forM (fillLine build surface color x y w)).run memory =
      .ok () (surface.paint (fun i j => y ≤ j ∧ (j : ℤ) < y + count ∧ x ≤ i ∧ i < x + w) color
        memory) := by
  induction count with
  | zero =>
    rw [paint_empty fun i _ j _ => by omega]
    rfl
  | succ count ih =>
    rw [run_forM_range_succ (ih (by omega)), run_fillLine left width right top (by omega),
      paint_paint]
    congr 1
    exact paint_congr fun i _ j _ => by omega

/-- `FillRect` paints the pixels that the rectangle covers. -/
theorem run_fillRect (valid : r.Valid) :
    (fillRect build surface color r).run memory =
      .ok () (surface.paint r.Covers color memory) := by
  obtain ⟨xValid, yValid, wValid, hValid, rightValid, bottomValid⟩ := valid
  have narrow := surface.narrow
  have low := surface.low
  unfold fillRect
  rw [run_bind (run_clipStart rightValid)]
  rw [run_bind (run_clipStart bottomValid)]
  simp only
  have xs := toU32_of_nonneg (a := max 0 r.x) (le_max_left _ _) (by have := xValid.2; omega)
  have ys := toU32_of_nonneg (a := max 0 r.y) (le_max_left _ _) (by have := yValid.2; omega)
  by_cases outside : surface.width ≤ toU32 (max 0 r.x) ∨ surface.height ≤ toU32 (max 0 r.y)
  · rw [if_pos outside, paint_empty fun i _ j _ => by unfold Rect.Covers; omega]
    rfl
  · rw [if_neg outside,
      run_bind (run_clipEnd (le_max_left _ _) (by omega) narrow rightValid),
      run_bind (run_clipEnd (le_max_left _ _) (by omega) low bottomValid)]
    have xEnd : sideEnd surface.width (r.x + r.w) ≤ surface.width := by
      unfold sideEnd
      split <;> omega
    have yEnd : sideEnd surface.height (r.y + r.h) ≤ surface.height := by
      unfold sideEnd
      split <;> omega
    have covers : ∀ i < surface.width, ∀ j < surface.height, r.Covers i j ↔
        max 0 r.y ≤ j ∧ (j : ℤ) < sideEnd surface.height (r.y + r.h) ∧ max 0 r.x ≤ i ∧
          i < sideEnd surface.width (r.x + r.w) := by
      unfold Rect.Covers sideEnd
      split <;> split <;> omega
    by_cases empty : sideEnd surface.width (r.x + r.w) - max 0 r.x ≤ 0 ∨
        sideEnd surface.height (r.y + r.h) - max 0 r.y ≤ 0
    · rw [if_pos empty, paint_empty fun i inside j below => by
        rw [covers i inside j below]
        omega]
      rfl
    · rw [if_neg empty, run_fillLines (le_max_left _ _) (by omega) (by omega) (le_max_left _ _) _
        (by omega)]
      congr 1
      refine paint_congr fun i inside j below => ?_
      rw [covers i inside j below]
      omega

end AlkOS.Graphics
