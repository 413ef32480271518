import AlkOS.Graphics.Painter

/-!
# Clipping

A rectangle is clipped as it should be unless one of its ends lies before the origin:
the rectangle is then stretched to the border instead of being dropped. Frames and
characters inherit this.
-/

namespace AlkOS.Graphics

open Kernel

variable {build : Build} {surface : Surface} {color : NativePixel} {memory : Memory} {r : Rect}
  {cmd : CharCmd} {glyph : Glyph}

/-- A byte belongs to a pixel. -/
def Surface.InPixel (surface : Surface) (a i j : ℕ) : Prop :=
  i < surface.width ∧ j < surface.height ∧ ∃ k < 4, a = j * surface.pitchBytes + 4 * i + k

/-- A pixel lies in a rectangle. -/
def Rect.Contains (r : Rect) (i j : ℕ) : Prop :=
  max 0 r.x ≤ i ∧ i < r.x + r.w ∧ max 0 r.y ≤ j ∧ j < r.y + r.h

/-- A pixel lies on the frame of a rectangle. -/
def Rect.Frame (r : Rect) (i j : ℕ) : Prop :=
  r.Contains i j ∧ (i = r.x ∨ i = r.x + r.w - 1 ∨ j = r.y ∨ j = r.y + r.h - 1)

/-- A pixel lies in the scaled square of a bit that is set. -/
def CharCmd.Shape (cmd : CharCmd) (glyph : Glyph) (i j : ℕ) : Prop :=
  ∃ row < glyph.height, ∃ col < glyph.width, glyph.isSet row col = true ∧
    (⟨cmd.x + col * cmd.scale.toNat, cmd.y + row * cmd.scale.toNat, cmd.scale.toNat,
      cmd.scale.toNat⟩ : Rect).Contains i j

/-- `FillRect` gives the colour to exactly the visible pixels of a rectangle. -/
def FillsExactly (build : Build) (surface : Surface) (color : NativePixel) (r : Rect) : Prop :=
  ∀ memory, ∃ after, (fillRect build surface color r).run memory = .ok () after ∧
    (∀ i < surface.width, ∀ j < surface.height, r.Contains i j → ∀ k < 4,
      after (j * surface.pitchBytes + 4 * i + k) = byteOf color k) ∧
    ∀ a, (∀ i j, r.Contains i j → ¬surface.InPixel a i j) → after a = memory a

/-- A computation changes only pixels of a shape, whatever is shown. -/
def ChangesOnly (surface : Surface) (shape : ℕ → ℕ → Prop) (run : Kernel Memory Unit) : Prop :=
  ∀ memory, ∃ after, EStateM.run run memory = .ok () after ∧
    ∀ a, after a ≠ memory a → ∃ i j, shape i j ∧ surface.InPixel a i j

/-- The right or the lower end lies before the origin. -/
def Rect.Before (r : Rect) : Prop := r.x + r.w < 0 ∨ r.y + r.h < 0

/-- The rectangle has an end before the origin and is stretched over some pixel. -/
def Spills (surface : Surface) (r : Rect) : Prop :=
  r.Before ∧ max 0 r.x < surface.width ∧ max 0 r.y < surface.height ∧
    (r.x + r.w < 0 ∨ max 0 r.x < r.x + r.w) ∧ (r.y + r.h < 0 ∨ max 0 r.y < r.y + r.h)

/-- What a rectangle with an end before the origin is stretched over lies in a shape. -/
def SpillsInto (surface : Surface) (shape : ℕ → ℕ → Prop) (r : Rect) : Prop :=
  r.Before → ∀ i < surface.width, ∀ j < surface.height, r.Covers i j → shape i j

/-- The four rectangles of `DrawRect`. -/
def Rect.edges (r : Rect) : List Rect :=
  [⟨r.x, r.y, r.w, 1⟩, ⟨r.x, r.y + r.h - 1, r.w, 1⟩, ⟨r.x, r.y, 1, r.h⟩,
    ⟨r.x + r.w - 1, r.y, 1, r.h⟩]

/-- The squares of a character. -/
def CharCmd.squares (cmd : CharCmd) (glyph : Glyph) : List Rect :=
  (List.range glyph.height).flatMap fun row =>
    ((List.range glyph.width).filter fun col => glyph.isSet row col).map (cmd.square row)

/-- What `DrawChar` computes is a value of `i32`, and what is stretched lies in the character. -/
def CharCondition (surface : Surface) (glyph : Glyph) (cmd : CharCmd) : Prop :=
  glyph.width * cmd.scale.toNat < 2 ^ 31 ∧ glyph.height * cmd.scale.toNat < 2 ^ 31 ∧
    (surface.width ≤ cmd.x ∨ surface.height ≤ cmd.y ∨
      cmd.x + (glyph.width * cmd.scale.toNat : ℕ) < 2 ^ 31 ∧
        (cmd.x + (glyph.width * cmd.scale.toNat : ℕ) ≤ 0 ∨
          cmd.y + (glyph.height * cmd.scale.toNat : ℕ) < 2 ^ 31 ∧
            (cmd.y + (glyph.height * cmd.scale.toNat : ℕ) ≤ 0 ∨
              ∀ r ∈ cmd.squares glyph, SpillsInto surface (cmd.Shape glyph) r)))

/-- The pixel of a byte. -/
theorem inPixel_iff {a i j : ℕ} : surface.InPixel a i j ↔ i < surface.width ∧
    j < surface.height ∧ a % surface.pitchBytes / 4 = i ∧ a / surface.pitchBytes = j := by
  have room := surface.room
  constructor
  · rintro ⟨inside, below, k, byte, rfl⟩
    refine ⟨inside, below, ?_, ?_⟩
    · rw [Nat.add_assoc, Nat.mul_comm, Nat.mul_add_mod, Nat.mod_eq_of_lt (by omega)]
      omega
    · rw [Nat.add_assoc, Nat.mul_comm, Nat.mul_add_div (by omega), Nat.div_eq_of_lt (by omega),
        Nat.add_zero]
  · rintro ⟨inside, below, rfl, rfl⟩
    refine ⟨inside, below, a % surface.pitchBytes % 4, Nat.mod_lt _ (by decide), ?_⟩
    have split := Nat.div_add_mod a surface.pitchBytes
    rw [Nat.mul_comm] at split
    omega

/-- A byte other than the first one of a pixel of the colour. -/
def otherByte (color : NativePixel) : UInt8 := byteOf color 0 + 1

theorem byteOf_ne_otherByte : byteOf color 0 ≠ otherByte color := by
  unfold otherByte
  generalize byteOf color 0 = byte
  intro same
  have table : ∀ n : Fin 256, UInt8.ofNat n.val ≠ UInt8.ofNat n.val + 1 := by decide +kernel
  refine table ⟨byte.toNat, byte.toNat_lt⟩ ?_
  rwa [UInt8.ofNat_toNat]

variable {region shape : ℕ → ℕ → Prop} [∀ i j, Decidable (region i j)]

/-- Painting a region changes only pixels of a shape that it lies in. -/
theorem paint_changesOnly_iff :
    (∀ memory a, surface.paint region color memory a ≠ memory a →
      ∃ i j, shape i j ∧ surface.InPixel a i j) ↔
      ∀ i < surface.width, ∀ j < surface.height, region i j → shape i j := by
  constructor
  · intro only i inside j below painted
    have changed : surface.paint region color (fun _ => otherByte color)
        (j * surface.pitchBytes + 4 * i + 0) = byteOf color 0 := by
      rw [paint_pixel inside below (by decide), if_pos painted]
    obtain ⟨i', j', shown, pixel⟩ := only (fun _ => otherByte color) _
      (by rw [changed]; exact byteOf_ne_otherByte)
    have here : surface.InPixel (j * surface.pitchBytes + 4 * i + 0) i j :=
      ⟨inside, below, 0, by decide, rfl⟩
    rw [inPixel_iff] at here pixel
    obtain rfl : i' = i := pixel.2.2.1.symm.trans here.2.2.1
    obtain rfl : j' = j := pixel.2.2.2.symm.trans here.2.2.2
    exact shown
  · intro within memory a changed
    by_cases painted : region (a % surface.pitchBytes / 4) (a / surface.pitchBytes) ∧
        a % surface.pitchBytes / 4 < surface.width ∧ a / surface.pitchBytes < surface.height
    · exact ⟨_, _, within _ painted.2.1 _ painted.2.2 painted.1,
        inPixel_iff.mpr ⟨painted.2.1, painted.2.2, rfl, rfl⟩⟩
    · exact (changed (if_neg painted)).elim

theorem covers_of_contains {i j : ℕ} (inside : r.Contains i j) : r.Covers i j := by
  unfold Rect.Contains at inside
  unfold Rect.Covers
  omega

/-- A rectangle without an end before the origin covers what it contains. -/
theorem contains_of_covers {i j : ℕ} (behind : ¬r.Before) (covers : r.Covers i j) :
    r.Contains i j := by
  unfold Rect.Before at behind
  unfold Rect.Covers at covers
  unfold Rect.Contains
  omega

/-- A rectangle spills exactly if it covers a pixel that it does not contain. -/
theorem not_spills_iff : ¬Spills surface r ↔
    ∀ i < surface.width, ∀ j < surface.height, r.Covers i j → r.Contains i j := by
  constructor
  · intro fine i inside j below covers
    by_contra outside
    refine fine ⟨?_, ?_⟩
    · by_contra behind
      exact outside (contains_of_covers behind covers)
    · unfold Rect.Covers at covers
      omega
  · rintro exact ⟨before, left, top, right, bottom⟩
    have inside := exact (max 0 r.x).toNat (by omega) (max 0 r.y).toNat (by omega) (by
      unfold Rect.Covers
      omega)
    unfold Rect.Contains at inside
    unfold Rect.Before at before
    omega

/-- `FillRect` is exact unless the rectangle spills. -/
theorem fillsExactly_iff (valid : r.Valid) :
    FillsExactly build surface color r ↔ ¬Spills surface r := by
  rw [not_spills_iff]
  constructor
  · intro fills
    refine paint_changesOnly_iff.mp fun memory a
      (changed : surface.paint r.Covers color memory a ≠ memory a) => ?_
    obtain ⟨after, ran, _, kept⟩ := fills memory
    rw [run_fillRect valid] at ran
    obtain ⟨_, rfl⟩ := EStateM.Result.ok.inj ran
    by_contra outside
    exact changed (kept a fun i j inside pixel => outside ⟨i, j, inside, pixel⟩)
  · intro exact memory
    refine ⟨_, run_fillRect valid, fun i inside j below contains k byte => ?_, fun a outside => ?_⟩
    · rw [paint_pixel inside below byte, if_pos (covers_of_contains contains)]
    · by_contra changed
      obtain ⟨i, j, contains, pixel⟩ := paint_changesOnly_iff.mpr exact memory a changed
      exact outside i j contains pixel

/-- Rectangles that are filled one after the other. -/
theorem run_fillRects (rects : List Rect) (valid : ∀ r ∈ rects, r.Valid) :
    (rects.forM (fillRect build surface color)).run memory =
      .ok () (surface.paint (fun i j => ∃ r ∈ rects, r.Covers i j) color memory) := by
  induction rects generalizing memory with
  | nil =>
    rfl
  | cons r rects ih =>
    have first : (fillRect build surface color r).run memory = _ :=
      run_fillRect (valid r List.mem_cons_self)
    refine (run_bind first).trans ?_
    rw [ih fun r member => valid r (List.mem_cons_of_mem _ member), paint_paint]
    congr 1
    exact paint_congr fun i _ j _ => by simp

/-- Rectangles with visible parts in a shape stay in it exactly if what is stretched does. -/
theorem changesOnly_fillRects_iff {rects : List Rect} (valid : ∀ r ∈ rects, r.Valid)
    (within : ∀ r ∈ rects, ∀ i j, r.Contains i j → shape i j) :
    ChangesOnly surface shape (rects.forM (fillRect build surface color)) ↔
      ∀ r ∈ rects, SpillsInto surface shape r := by
  have changes : ChangesOnly surface shape (rects.forM (fillRect build surface color)) ↔
      ∀ memory a, surface.paint (fun i j => ∃ r ∈ rects, r.Covers i j) color memory a ≠ memory a →
        ∃ i j, shape i j ∧ surface.InPixel a i j := by
    refine forall_congr' fun memory => ?_
    rw [run_fillRects rects valid]
    constructor
    · rintro ⟨after, ran, only⟩
      obtain ⟨_, rfl⟩ := EStateM.Result.ok.inj ran
      exact only
    · exact fun only => ⟨_, rfl, only⟩
  rw [changes, paint_changesOnly_iff]
  constructor
  · intro inside r member _ i left j top covers
    exact inside i left j top ⟨r, member, covers⟩
  · rintro spills i left j top ⟨r, member, covers⟩
    by_cases before : r.Before
    · exact spills r member before i left j top covers
    · exact within r member i j (contains_of_covers before covers)

theorem changesOnly_congr {run run' : Kernel Memory Unit}
    (same : ∀ memory, EStateM.run run memory = EStateM.run run' memory) :
    ChangesOnly surface shape run ↔ ChangesOnly surface shape run' :=
  forall_congr' fun memory => by rw [same memory]

theorem changesOnly_ite_iff {condition : Prop} [Decidable condition] {run : Kernel Memory Unit} :
    ChangesOnly surface shape (if condition then pure () else run) ↔
      condition ∨ ChangesOnly surface shape run := by
  by_cases holds : condition
  · rw [if_pos holds]
    exact iff_of_true (fun memory => ⟨memory, rfl, fun _ changed => (changed rfl).elim⟩)
      (.inl holds)
  · rw [if_neg holds, or_iff_right holds]

theorem changesOnly_checkI32_iff {a : ℤ} {rest : ℤ → Kernel Memory Unit} :
    ChangesOnly surface shape (checkI32 a >>= rest) ↔
      IsI32 a ∧ ChangesOnly surface shape (rest a) := by
  by_cases valid : IsI32 a
  · rw [and_iff_right valid]
    exact changesOnly_congr fun memory => run_bind (run_checkI32 valid)
  · refine iff_of_false (fun only => ?_) fun both => valid both.1
    obtain ⟨after, ran, _⟩ := only fun _ => 0
    rw [checkI32, if_neg valid] at ran
    cases ran

section Frames

variable (valid : r.Valid) (wide : 1 ≤ r.w) (high : 1 ≤ r.h)

include valid wide high

theorem valid_edges : ∀ e ∈ r.edges, e.Valid := by
  obtain ⟨x, y, w, h, right, bottom⟩ := valid
  unfold IsI32 at x y w h right bottom
  intro e member
  simp only [Rect.edges, List.mem_cons, List.not_mem_nil, or_false] at member
  rcases member with rfl | rfl | rfl | rfl <;>
    constructor <;> unfold IsI32 <;> simp only <;> omega

omit valid in
theorem frame_of_edge : ∀ e ∈ r.edges, ∀ i j, e.Contains i j → r.Frame i j := by
  intro e member i j inside
  simp only [Rect.edges, List.mem_cons, List.not_mem_nil, or_false] at member
  unfold Rect.Frame
  rcases member with rfl | rfl | rfl | rfl <;> unfold Rect.Contains at inside ⊢ <;>
    simp only at inside <;> omega

/-- `DrawRect` fills the four edges. -/
theorem run_drawRect : (drawRect build surface color r).run memory =
    (r.edges.forM (fillRect build surface color)).run memory := by
  have edges := valid_edges valid wide high
  have top : (⟨r.x, r.y, r.w, 1⟩ : Rect).Valid := edges _ (by simp [Rect.edges])
  have bottom : (⟨r.x, r.y + r.h - 1, r.w, 1⟩ : Rect).Valid := edges _ (by simp [Rect.edges])
  have left : (⟨r.x, r.y, 1, r.h⟩ : Rect).Valid := edges _ (by simp [Rect.edges])
  have right : (⟨r.x + r.w - 1, r.y, 1, r.h⟩ : Rect).Valid := edges _ (by simp [Rect.edges])
  rw [run_fillRects _ edges]
  unfold drawRect
  rw [run_bind (run_fillRect top),
    run_bind (run_checkI32 valid.bottom),
    run_bind (run_checkI32 bottom.y),
    run_bind (run_fillRect bottom), run_bind (run_fillRect left),
    run_bind (run_checkI32 valid.right),
    run_bind (run_checkI32 right.x), run_fillRect right, paint_paint, paint_paint,
    paint_paint]
  congr 1
  exact paint_congr fun i _ j _ => by simp [Rect.edges]

theorem drawRect_changesOnly_iff :
    ChangesOnly surface r.Frame (drawRect build surface color r) ↔
      ∀ e ∈ r.edges, SpillsInto surface r.Frame e :=
  (changesOnly_congr fun _ => run_drawRect valid wide high).trans
    (changesOnly_fillRects_iff (valid_edges valid wide high) (frame_of_edge wide high))

end Frames

theorem forM_flatMap {α β σ : Type} (items : List α) (parts : α → List β)
    (body : β → Kernel σ PUnit) :
    (items.flatMap parts).forM body = items.forM fun item => (parts item).forM body := by
  induction items with
  | nil => rfl
  | cons item items ih =>
    change forM ((item :: items).flatMap parts) body = _
    rw [List.flatMap_cons, List.forM_append]
    exact congrArg _ (funext fun _ => ih)

theorem forM_map_filter {α β σ : Type} (items : List α) (p : α → Bool) (f : α → β)
    (body : β → Kernel σ PUnit) :
    ((items.filter p).map f).forM body =
      items.forM fun item => if p item then body (f item) else pure () := by
  induction items with
  | nil => rfl
  | cons item items ih =>
    by_cases chosen : p item = true
    · rw [List.filter_cons_of_pos chosen]
      change (body (f item) >>= fun _ => ((items.filter p).map f).forM body) = _
      rw [ih]
      change _ = ((if p item = true then body (f item) else pure ()) >>= fun _ => _)
      rw [if_pos chosen]
    · rw [List.filter_cons_of_neg chosen, ih]
      change _ = ((if p item = true then body (f item) else pure ()) >>= fun _ => _)
      rw [if_neg chosen]
      rfl

theorem forM_squares :
    (cmd.squares glyph).forM (fillRect build surface color) =
      (List.range glyph.height).forM (drawRow build surface color cmd glyph) := by
  unfold CharCmd.squares
  rw [forM_flatMap]
  congr 1
  funext row
  rw [forM_map_filter]
  rfl

section Characters

variable (x : IsI32 cmd.x) (y : IsI32 cmd.y)
  (right : cmd.x + (glyph.width * cmd.scale.toNat : ℕ) < 2 ^ 31)
  (bottom : cmd.y + (glyph.height * cmd.scale.toNat : ℕ) < 2 ^ 31)

include x y right bottom

/-- The squares of a character lie where they should. -/
theorem square_eq {row col : ℕ} (above : row < glyph.height) (left : col < glyph.width) :
    cmd.square row col = ⟨cmd.x + col * cmd.scale.toNat, cmd.y + row * cmd.scale.toNat,
      cmd.scale.toNat, cmd.scale.toNat⟩ ∧ (cmd.square row col).Valid := by
  have width : (col + 1) * cmd.scale.toNat ≤ glyph.width * cmd.scale.toNat :=
    Nat.mul_le_mul_right _ left
  have height : (row + 1) * cmd.scale.toNat ≤ glyph.height * cmd.scale.toNat :=
    Nat.mul_le_mul_right _ above
  have scale := cmd.scale.toNat_lt
  rw [Nat.add_mul] at width height
  obtain ⟨xLow, _⟩ := x
  obtain ⟨yLow, _⟩ := y
  have xs : toI32 (cmd.x + col * cmd.scale.toNat) = cmd.x + col * cmd.scale.toNat :=
    toI32_of_valid ⟨by omega, by omega⟩
  have ys : toI32 (cmd.y + row * cmd.scale.toNat) = cmd.y + row * cmd.scale.toNat :=
    toI32_of_valid ⟨by omega, by omega⟩
  unfold CharCmd.square
  rw [xs, ys]
  refine ⟨rfl, ⟨?_, ?_, ?_, ?_, ?_, ?_⟩⟩ <;> unfold IsI32 <;> simp only <;> omega

theorem valid_squares : ∀ r ∈ cmd.squares glyph, r.Valid := by
  intro r member
  simp only [CharCmd.squares, List.mem_flatMap, List.mem_range, List.mem_map,
    List.mem_filter] at member
  obtain ⟨row, above, col, ⟨left, _⟩, rfl⟩ := member
  exact (square_eq x y right bottom above left).2

theorem shape_of_square : ∀ r ∈ cmd.squares glyph, ∀ i j, r.Contains i j →
    cmd.Shape glyph i j := by
  intro r member i j inside
  simp only [CharCmd.squares, List.mem_flatMap, List.mem_range, List.mem_map,
    List.mem_filter] at member
  obtain ⟨row, above, col, ⟨left, isSet⟩, rfl⟩ := member
  rw [(square_eq x y right bottom above left).1] at inside
  exact ⟨row, above, col, left, isSet, inside⟩

end Characters

/-- When `DrawChar` changes only pixels of the character. -/
theorem drawChar_changesOnly_iff {font : UInt8 → Glyph} (x : IsI32 cmd.x) (y : IsI32 cmd.y) :
    ChangesOnly surface (cmd.Shape (font cmd.c)) (drawChar build surface color font cmd) ↔
      CharCondition surface (font cmd.c) cmd := by
  generalize same : font cmd.c = glyph
  have narrow := surface.narrow
  have low := surface.low
  have widths : toI32 glyph.width = glyph.width :=
    toI32_of_valid ⟨by omega, by have := glyph.narrow; omega⟩
  have heights : toI32 glyph.height = glyph.height :=
    toI32_of_valid ⟨by omega, by have := glyph.low; omega⟩
  have surfaceWidth : toI32 surface.width = surface.width := toI32_of_valid ⟨by omega, by omega⟩
  have surfaceHeight : toI32 surface.height = surface.height :=
    toI32_of_valid ⟨by omega, by omega⟩
  unfold drawChar CharCondition
  rw [same]
  simp only [widths, heights, surfaceWidth, surfaceHeight]
  generalize wide : glyph.width * cmd.scale.toNat = scaledWidth
  generalize high : glyph.height * cmd.scale.toNat = scaledHeight
  have wideInt : (glyph.width : ℤ) * cmd.scale.toNat = scaledWidth := by rw [← wide]; push_cast; rfl
  have highInt : (glyph.height : ℤ) * cmd.scale.toNat = scaledHeight := by
    rw [← high]
    rfl
  rw [wideInt, highInt]
  rw [changesOnly_checkI32_iff, changesOnly_checkI32_iff, changesOnly_ite_iff,
    changesOnly_checkI32_iff, changesOnly_ite_iff, changesOnly_checkI32_iff, changesOnly_ite_iff]
  have loop : cmd.x + (scaledWidth : ℤ) < 2 ^ 31 → cmd.y + (scaledHeight : ℤ) < 2 ^ 31 →
      (ChangesOnly surface (cmd.Shape glyph)
        ((List.range glyph.height).forM (drawRow build surface color cmd glyph)) ↔
        ∀ r ∈ cmd.squares glyph, SpillsInto surface (cmd.Shape glyph) r) := by
    intro right bottom
    rw [← wide] at right
    rw [← high] at bottom
    rw [← forM_squares]
    exact changesOnly_fillRects_iff (valid_squares x y right bottom)
      (shape_of_square x y right bottom)
  obtain ⟨xLow, _⟩ := x
  obtain ⟨yLow, _⟩ := y
  have sum : ∀ a : ℤ, -2 ^ 31 ≤ a → ∀ n : ℕ, IsI32 (a + n) ↔ a + n < 2 ^ 31 := by
    unfold IsI32
    omega
  have product : ∀ n : ℕ, IsI32 n ↔ n < 2 ^ 31 := by
    unfold IsI32
    omega
  rw [product, product, sum _ xLow, sum _ yLow, or_assoc]
  refine and_congr_right fun _ => and_congr_right fun _ => or_congr_right (or_congr_right ?_)
  exact and_congr_right fun right => or_congr_right (and_congr_right fun bottom =>
    or_congr_right (loop right bottom))

/-- Rectangles, frames and characters are painted right exactly under the three conditions. -/
theorem fills_iff_not_spills (build : Build) (surface : Surface) (color : NativePixel)
    (valid : r.Valid) :
    (FillsExactly build surface color r ↔ ¬Spills surface r) ∧
      (1 ≤ r.w → 1 ≤ r.h → (ChangesOnly surface r.Frame (drawRect build surface color r) ↔
        ∀ e ∈ r.edges, SpillsInto surface r.Frame e)) ∧
      ∀ (font : UInt8 → Glyph) (cmd : CharCmd), IsI32 cmd.x → IsI32 cmd.y →
        (ChangesOnly surface (cmd.Shape (font cmd.c)) (drawChar build surface color font cmd) ↔
          CharCondition surface (font cmd.c) cmd) :=
  ⟨fillsExactly_iff valid, drawRect_changesOnly_iff valid, fun _ _ => drawChar_changesOnly_iff⟩

/-- A surface of four by three pixels. -/
def screen : Surface := ⟨4, 3, 16, by decide, by decide, by decide⟩

/-- A font with one row of eight set bits. -/
def dashes : UInt8 → Glyph := fun _ => ⟨fun _ => 255, 8, 1, 1, by decide, by decide⟩

/-- A rectangle over the left border and its frame. -/
theorem fills_iff_not_spills_border :
    FillsExactly .debug screen 7 ⟨-1, 1, 3, 5⟩ ∧
      ChangesOnly screen (Rect.Frame ⟨-1, 1, 3, 5⟩) (drawRect .debug screen 7 ⟨-1, 1, 3, 5⟩) := by
  have valid : (⟨-1, 1, 3, 5⟩ : Rect).Valid := by constructor <;> decide
  have result := fills_iff_not_spills .debug screen 7 valid
  refine ⟨result.1.mpr ?_, (result.2.1 (by decide) (by decide)).mpr ?_⟩
  · rintro ⟨before, _⟩
    unfold Rect.Before at before
    simp at before
  · intro e member before
    unfold Rect.Before at before
    simp [Rect.edges] at member
    rcases member with rfl | rfl | rfl | rfl <;> simp at before

/-- A rectangle left of the surface and a frame and a character over its border go wrong. -/
theorem not_fillsExactly_left :
    ¬FillsExactly .debug screen 7 ⟨-10, 0, 5, 1⟩ ∧
      ¬ChangesOnly screen (Rect.Frame ⟨0, -5, 3, 7⟩) (drawRect .debug screen 7 ⟨0, -5, 3, 7⟩) ∧
      ¬ChangesOnly screen (CharCmd.Shape ⟨-5, 0, 65, 1⟩ (dashes 65))
        (drawChar .debug screen 7 dashes ⟨-5, 0, 65, 1⟩) := by
  refine ⟨?_, ?_, ?_⟩
  · rw [fillsExactly_iff (by constructor <;> decide)]
    unfold Spills Rect.Before
    decide
  · rw [drawRect_changesOnly_iff (by constructor <;> decide) (by decide) (by decide)]
    intro spills
    have inside := spills ⟨0, -5, 3, 1⟩ (by decide) (by unfold Rect.Before; decide) 1 (by decide) 0
      (by decide) (by decide)
    unfold Rect.Frame at inside
    simp at inside
  · rw [drawChar_changesOnly_iff (by decide) (by decide)]
    intro condition
    rcases condition.2.2 with far | far | ⟨_, far | ⟨_, far | spills⟩⟩
    · exact absurd far (by decide)
    · exact absurd far (by decide)
    · exact absurd far (by decide)
    · exact absurd far (by decide)
    · obtain ⟨row, _, col, left, _, inside⟩ := spills ⟨-5, 0, 1, 1⟩ (by decide +kernel)
        (by unfold Rect.Before; decide) 3 (by decide) 0 (by decide) (by decide)
      have last : col < 8 := left
      have right : (3 : ℤ) < -5 + col * 1 + 1 := inside.2.1
      omega

end AlkOS.Graphics
