import Mathlib.Data.List.Basic
import UltraGrid.VideoCompress.Libavcodec

/-!
# The samples of the pixel-format conversions

`libavcodec_compress_tile` turns a packed UYVY tile into the planar frame the encoder takes, with
the conversion `select_pixfmt_callback` chose. Each conversion walks the tile one pixel pair at a
time, the four bytes `Cb Y0 Cr Y1`, and stores bytes through `dst` pointers into the planes of its
`out_frame`. Here a conversion is the list of its stores in the order it makes them
(`Samples.toYuv420p`, `Samples.toNv12`, `Samples.toYuv422p`, `Samples.toYuv444p`), each naming the
plane, row and column `dst` points at. The picture they leave, cell by cell, is those stores made
in order (`written`). It is what the buffer of `in_frame` holds at the addresses of its cells as
long as no store leaves the rows and the linesize of its plane (`ImageAlloc.write_addr`).

What they compute is the picture the UYVY bytes stand for, in the layout of the format:

* `to_yuv422p` drops no byte: packing its planes back into UYVY gives the bytes it read, and the
  same holds of `to_yuv444p`, which stores each chroma sample twice (`toYuv422p_roundTrip`).
* `to_yuv420p` keeps luma over `2·⌈height/2⌉` rows, and gives each chroma sample the mean of the
  two rows it covers, rounded down and without overflow (`written_toYuv420p`).
* `to_nv12` makes the stores of `to_yuv420p` with Cb and Cr interleaved in `data[1]`, and
  `to_yuv444p` those of `to_yuv422p` with each chroma store doubled (`toNv12_eq_map`,
  `toYuv444p_eq_flatMap`).

The tasks of `libavcodec_compress_tile` each convert a slice of the tile through their part of
`in_frame`. For a tile of even width, their stores taken task after task are those of one
conversion of the whole tile (`compressTile_stores`).

Rows of `in_data` are `width * 2` bytes apart for the 4:2:0 conversions, which set `src` at each
row, and `4·⌈width/2⌉` for the others, whose `src` runs on from row to row: the two agree on even
widths.
-/

namespace UltraGrid.VideoCompress

/-- One store `*dst++ = v` of a conversion: the plane, row and column of `dst`, relative to the
`out_frame`, and the byte. -/
structure Store where
  plane : Plane
  row : Nat
  col : Nat
  val : UInt8
  deriving DecidableEq, Repr

/-- The cell a store writes. -/
def Store.cell (s : Store) : Plane × Nat × Nat := (s.plane, s.row, s.col)

/-- The bytes of the planes of an `AVFrame`, by plane, row and column. -/
abbrev Planes := Plane × Nat × Nat → UInt8

/-- The planes after the stores `ss`, made in order over the planes `m`. -/
def written (ss : List Store) (m : Planes) : Planes :=
  ss.foldl (fun m s => Function.update m s.cell s.val) m

/-- `(*src++ + *src2++) / 2`: two `unsigned char`s promoted to `int`, added, halved and stored
into an `unsigned char`. -/
def avg (a b : UInt8) : UInt8 := UInt8.ofNat ((a.toNat + b.toNat) / 2)

namespace Samples

/-- The stores of `to_yuv420p` for the rows `y` and `y + 1`: `src` and `src2` start at rows `y`
and `y + 1` of `in_data`, `width * 2` bytes apart, and each of the `width / 2` steps reads a pixel
pair from both. -/
def toYuv420pRow (src : Nat → UInt8) (width y : Nat) : List Store :=
  (List.range (width / 2)).flatMap fun x =>
    let s := y * (width * 2) + 4 * x
    let s2 := (y + 1) * (width * 2) + 4 * x
    [⟨.cb, y / 2, x, avg (src s) (src s2)⟩, ⟨.luma, y, 2 * x, src (s + 1)⟩,
      ⟨.luma, y + 1, 2 * x, src (s2 + 1)⟩, ⟨.cr, y / 2, x, avg (src (s + 2)) (src (s2 + 2))⟩,
      ⟨.luma, y, 2 * x + 1, src (s + 3)⟩, ⟨.luma, y + 1, 2 * x + 1, src (s2 + 3)⟩]

/-- `to_yuv420p` on `in_data` read through `src`: the stores of every even `y` below `height`. -/
def toYuv420p (src : Nat → UInt8) (width height : Nat) : List Store :=
  (loopRows 2 height).flatMap (toYuv420pRow src width)

/-- The stores of `to_nv12` for the rows `y` and `y + 1`: those of `to_yuv420p`, with `dst_cbcr`
taking Cb and Cr one after the other in row `y / 2` of `data[1]`. -/
def toNv12Row (src : Nat → UInt8) (width y : Nat) : List Store :=
  (List.range (width / 2)).flatMap fun x =>
    let s := y * (width * 2) + 4 * x
    let s2 := (y + 1) * (width * 2) + 4 * x
    [⟨.cb, y / 2, 2 * x, avg (src s) (src s2)⟩, ⟨.luma, y, 2 * x, src (s + 1)⟩,
      ⟨.luma, y + 1, 2 * x, src (s2 + 1)⟩, ⟨.cb, y / 2, 2 * x + 1, avg (src (s + 2)) (src (s2 + 2))⟩,
      ⟨.luma, y, 2 * x + 1, src (s + 3)⟩, ⟨.luma, y + 1, 2 * x + 1, src (s2 + 3)⟩]

/-- `to_nv12`: the stores of every even `y` below `height`. -/
def toNv12 (src : Nat → UInt8) (width height : Nat) : List Store :=
  (loopRows 2 height).flatMap (toNv12Row src width)

/-- The stores of `to_yuv422p` for row `y`. Its `src` is not set per row but runs on, so the
`⌈width/2⌉` steps of row `y` read the pixel pairs from byte `4·⌈width/2⌉·y` on. -/
def toYuv422pRow (src : Nat → UInt8) (width y : Nat) : List Store :=
  (List.range ((width + 1) / 2)).flatMap fun x =>
    let s := 4 * (y * ((width + 1) / 2) + x)
    [⟨.cb, y, x, src s⟩, ⟨.luma, y, 2 * x, src (s + 1)⟩, ⟨.cr, y, x, src (s + 2)⟩,
      ⟨.luma, y, 2 * x + 1, src (s + 3)⟩]

/-- `to_yuv422p`: the stores of every row below `height`. -/
def toYuv422p (src : Nat → UInt8) (width height : Nat) : List Store :=
  (loopRows 1 height).flatMap (toYuv422pRow src width)

/-- The stores of `to_yuv444p` for row `y`: those of `to_yuv422p`, each chroma byte stored into
two columns. -/
def toYuv444pRow (src : Nat → UInt8) (width y : Nat) : List Store :=
  (List.range ((width + 1) / 2)).flatMap fun x =>
    let s := 4 * (y * ((width + 1) / 2) + x)
    [⟨.cb, y, 2 * x, src s⟩, ⟨.cb, y, 2 * x + 1, src s⟩, ⟨.luma, y, 2 * x, src (s + 1)⟩,
      ⟨.cr, y, 2 * x, src (s + 2)⟩, ⟨.cr, y, 2 * x + 1, src (s + 2)⟩,
      ⟨.luma, y, 2 * x + 1, src (s + 3)⟩]

/-- `to_yuv444p`: the stores of every row below `height`. -/
def toYuv444p (src : Nat → UInt8) (width height : Nat) : List Store :=
  (loopRows 1 height).flatMap (toYuv444pRow src width)

end Samples

/-- The stores of the call `callback(out_frame, in_data, width, height)`, with `in_data` read
through `src`. -/
def PixfmtCallback.stores : PixfmtCallback → (Nat → UInt8) → Nat → Nat → List Store
  | .toYuv420p => Samples.toYuv420p
  | .toYuv422p => Samples.toYuv422p
  | .toYuv444p => Samples.toYuv444p
  | .toNv12 => Samples.toNv12

/-- The step of the loop over `y` of a conversion: two rows at a time for 4:2:0. -/
def PixfmtCallback.step : PixfmtCallback → Nat
  | .toYuv420p | .toNv12 => 2
  | .toYuv422p | .toYuv444p => 1

/-- The stores of one round `y` of the loop over `y` of a conversion. -/
def PixfmtCallback.row : PixfmtCallback → (Nat → UInt8) → Nat → Nat → List Store
  | .toYuv420p => Samples.toYuv420pRow
  | .toYuv422p => Samples.toYuv422pRow
  | .toYuv444p => Samples.toYuv444pRow
  | .toNv12 => Samples.toNv12Row

/-- A store through a part of `in_frame`, as a store into `in_frame`: the part's `data[k]` is
`in_frame->data[k]` moved down by the rows where the part starts. -/
def Store.moveTo (part : FramePart) (s : Store) : Store :=
  { s with row := part.start s.plane + s.row }

/-- `my_task` on the tile read through `src`: the stores of its conversion, `in_data` starting
`inData` rows of `linesize = vc_get_linesize(width, UYVY)` bytes into the tile, made into
`in_frame` through the part `out_frame`. -/
def Samples.myTask (parts : List FramePart) (linesize : Nat) (src : Nat → UInt8)
    (data : MyTaskData) : List Store :=
  (data.callback.stores (fun b => src (data.inData * linesize + b)) data.width data.height).map
    (Store.moveTo (parts.getD data.outFrame ⟨0, 0, 0⟩))

/-! ### The picture a UYVY tile stands for -/

/-- Byte `i` of pixel pair `j` of row `y` of a UYVY picture whose rows are `stride` bytes apart:
`Cb`, `Y0`, `Cr`, `Y1` for `i = 0, 1, 2, 3`. -/
def uyvy (src : Nat → UInt8) (stride y j i : Nat) : UInt8 := src (y * stride + 4 * j + i)

/-- The luma of pixel `x` of row `y`. -/
def uyvyLuma (src : Nat → UInt8) (stride y x : Nat) : UInt8 :=
  uyvy src stride y (x / 2) (2 * (x % 2) + 1)

/-- The 4:2:2 planar picture of a UYVY picture: luma per pixel, chroma per pixel pair. -/
def image422 (src : Nat → UInt8) (stride : Nat) : Planes
  | (.luma, r, c) => uyvyLuma src stride r c
  | (.cb, r, c) => uyvy src stride r c 0
  | (.cr, r, c) => uyvy src stride r c 2

/-- The 4:4:4 planar picture: chroma column `c` shows the sample of pixel pair `c / 2`. -/
def image444 (src : Nat → UInt8) (stride : Nat) : Planes
  | (.luma, r, c) => uyvyLuma src stride r c
  | (p, r, c) => image422 src stride (p, r, c / 2)

/-- The 4:2:0 planar picture: luma per pixel, and chroma per pixel pair of two rows, the mean of
their samples. -/
def image420 (src : Nat → UInt8) (stride : Nat) : Planes
  | (.luma, r, c) => uyvyLuma src stride r c
  | (.cb, r, c) => avg (uyvy src stride (2 * r) c 0) (uyvy src stride (2 * r + 1) c 0)
  | (.cr, r, c) => avg (uyvy src stride (2 * r) c 2) (uyvy src stride (2 * r + 1) c 2)

/-- The cells of a picture of `rows × cols` luma samples and `crows × ccols` samples in each
chroma plane. -/
def InPicture (rows cols crows ccols : Nat) : Plane × Nat × Nat → Prop
  | (.luma, r, c) => r < rows ∧ c < cols
  | (.cb, r, c) => r < crows ∧ c < ccols
  | (.cr, r, c) => r < crows ∧ c < ccols

instance (rows cols crows ccols : Nat) : DecidablePred (InPicture rows cols crows ccols)
  | (.luma, _, _) => inferInstanceAs (Decidable (_ ∧ _))
  | (.cb, _, _) => inferInstanceAs (Decidable (_ ∧ _))
  | (.cr, _, _) => inferInstanceAs (Decidable (_ ∧ _))

/-- Byte `o` of the UYVY picture, rows `stride` bytes apart, that packing the planar picture
`pic` gives when chroma sample `j` of a row is in column `k * j` of its plane (`k = 1` for 4:2:2,
`k = 2` for 4:4:4). -/
def packUyvy (pic : Planes) (stride k o : Nat) : UInt8 :=
  match o % stride % 4 with
  | 0 => pic (.cb, o / stride, k * (o % stride / 4))
  | 1 => pic (.luma, o / stride, 2 * (o % stride / 4))
  | 2 => pic (.cr, o / stride, k * (o % stride / 4))
  | _ => pic (.luma, o / stride, 2 * (o % stride / 4) + 1)

/-- Where `to_nv12` makes a store of `to_yuv420p`: the Cb and Cr of column `j` go to columns `2j`
and `2j + 1` of `data[1]`. -/
def Store.toNv12 (s : Store) : Store :=
  match s.plane with
  | .luma => s
  | .cb => { s with col := 2 * s.col }
  | .cr => { s with plane := .cb, col := 2 * s.col + 1 }

/-- The stores `to_yuv444p` makes for a store of `to_yuv422p`: a chroma byte goes to both columns
of its pixel pair. -/
def Store.toYuv444p (s : Store) : List Store :=
  match s.plane with
  | .luma => [s]
  | _ => [{ s with col := 2 * s.col }, { s with col := 2 * s.col + 1 }]

/-! ### Stores and the planes they leave -/

@[simp] theorem written_nil (m : Planes) : written [] m = m := rfl

@[simp] theorem written_cons (s : Store) (ss : List Store) (m : Planes) :
    written (s :: ss) m = written ss (Function.update m s.cell s.val) := rfl

/-- Stores that each write the byte `img` has for their cell leave `img` on the cells they write
and the other cells as they were. -/
theorem written_apply {img : Planes} : ∀ {ss : List Store},
    (∀ s ∈ ss, s.val = img s.cell) → ∀ m c,
      written ss m c = if ∃ s ∈ ss, s.cell = c then img c else m c
  | [], _, m, c => by simp
  | s :: ss, h, m, c => by
    rw [written_cons, written_apply (fun s' hs' => h s' (.tail _ hs'))]
    by_cases hc : s.cell = c
    · subst hc
      simp [h s (.head _)]
    · simp [Function.update_noteq (Ne.symm hc), hc]

/-- The planes stores leave, when every store writes a cell of `P` with the byte `img` has for
it and every cell of `P` is written. -/
theorem written_eq_picture {img : Planes} {P : Plane × Nat × Nat → Prop} [DecidablePred P]
    {ss : List Store} (hval : ∀ s ∈ ss, P s.cell ∧ s.val = img s.cell)
    (hcov : ∀ c, P c → ∃ s ∈ ss, s.cell = c) (m : Planes) :
    written ss m = fun c => if P c then img c else m c := by
  funext c
  rw [written_apply (fun s hs => (hval s hs).2)]
  by_cases hc : P c
  · rw [if_pos (hcov c hc), if_pos hc]
  · refine (if_neg ?_).trans (if_neg hc).symm
    rintro ⟨s, hs, rfl⟩
    exact hc (hval s hs).1

@[simp] theorem avg_toNat (a b : UInt8) : (avg a b).toNat = (a.toNat + b.toNat) / 2 := by
  have ha := a.toNat_lt_size
  have hb := b.toNat_lt_size
  exact UInt8.toNat_ofNat_of_lt (by simp only [UInt8.size] at *; omega)

theorem uyvyLuma_two_mul (src : Nat → UInt8) (stride y x : Nat) :
    uyvyLuma src stride y (2 * x) = src (y * stride + 4 * x + 1) := by
  simp only [uyvyLuma, uyvy]
  congr 1
  omega

theorem uyvyLuma_two_mul_add_one (src : Nat → UInt8) (stride y x : Nat) :
    uyvyLuma src stride y (2 * x + 1) = src (y * stride + 4 * x + 3) := by
  simp only [uyvyLuma, uyvy]
  congr 1
  omega

/-! ### `to_yuv420p` -/

section Yuv420

variable {src : Nat → UInt8} {width height : Nat}

/-- A store of `to_yuv420p` is one of the six of a step `x` of an even row `y`. -/
theorem mem_toYuv420p_of {y x : Nat} (hy : y < height) (hy2 : y % 2 = 0) (hx : x < width / 2)
    {s : Store} (hs : s ∈ [⟨.cb, y / 2, x, avg (src (y * (width * 2) + 4 * x))
        (src ((y + 1) * (width * 2) + 4 * x))⟩, ⟨.luma, y, 2 * x, src (y * (width * 2) + 4 * x + 1)⟩,
      ⟨.luma, y + 1, 2 * x, src ((y + 1) * (width * 2) + 4 * x + 1)⟩,
      ⟨.cr, y / 2, x, avg (src (y * (width * 2) + 4 * x + 2)) (src ((y + 1) * (width * 2) + 4 * x + 2))⟩,
      ⟨.luma, y, 2 * x + 1, src (y * (width * 2) + 4 * x + 3)⟩,
      ⟨.luma, y + 1, 2 * x + 1, src ((y + 1) * (width * 2) + 4 * x + 3)⟩]) :
    s ∈ Samples.toYuv420p src width height :=
  List.mem_flatMap.2 ⟨y, (mem_loopRows two_pos).2 ⟨hy, hy2⟩,
    List.mem_flatMap.2 ⟨x, List.mem_range.2 hx, hs⟩⟩

/-- Every store of `to_yuv420p` writes a cell of the 4:2:0 picture with the byte it has there. -/
theorem toYuv420p_stores : ∀ s ∈ Samples.toYuv420p src width height,
    InPicture (2 * ((height + 1) / 2)) (2 * (width / 2)) ((height + 1) / 2) (width / 2) s.cell ∧
      s.val = image420 src (width * 2) s.cell := by
  intro s hs
  simp only [Samples.toYuv420p, Samples.toYuv420pRow, List.mem_flatMap, mem_loopRows two_pos,
    List.mem_range, List.mem_cons, List.mem_singleton, List.not_mem_nil, or_false] at hs
  obtain ⟨y, ⟨hy, hy2⟩, x, hx, hs⟩ := hs
  have h2 : 2 * (y / 2) = y := by omega
  rcases hs with rfl | rfl | rfl | rfl | rfl | rfl <;>
    simp only [Store.cell, InPicture, image420, uyvyLuma_two_mul, uyvyLuma_two_mul_add_one, uyvy,
      h2, Nat.add_zero, and_true] <;> omega

/-- Every cell of the 4:2:0 picture is written by `to_yuv420p`. -/
theorem toYuv420p_cover : ∀ c,
    InPicture (2 * ((height + 1) / 2)) (2 * (width / 2)) ((height + 1) / 2) (width / 2) c →
      ∃ s ∈ Samples.toYuv420p src width height, s.cell = c
  | (.luma, r, c), ⟨hr, hc⟩ => by
    have mem := @mem_toYuv420p_of src width height (r - r % 2) (c / 2) (by omega) (by omega)
      (by omega)
    rcases Nat.mod_two_eq_zero_or_one r with h | h <;>
      rcases Nat.mod_two_eq_zero_or_one c with h' | h'
    · exact ⟨_, mem (.tail _ (.head _)), by simp only [Store.cell, Prod.mk.injEq, true_and, and_true]; omega⟩
    · exact ⟨_, mem (.tail _ (.tail _ (.tail _ (.tail _ (.head _))))),
        by simp only [Store.cell, Prod.mk.injEq, true_and, and_true]; omega⟩
    · exact ⟨_, mem (.tail _ (.tail _ (.head _))), by simp only [Store.cell, Prod.mk.injEq, true_and, and_true]; omega⟩
    · exact ⟨_, mem (.tail _ (.tail _ (.tail _ (.tail _ (.tail _ (.head _)))))),
        by simp only [Store.cell, Prod.mk.injEq, true_and, and_true]; omega⟩
  | (.cb, r, c), ⟨hr, hc⟩ => ⟨_, @mem_toYuv420p_of src width height (2 * r) c (by omega) (by omega)
      hc _ (.head _), by simp only [Store.cell, Prod.mk.injEq, true_and, and_true]; omega⟩
  | (.cr, r, c), ⟨hr, hc⟩ => ⟨_, @mem_toYuv420p_of src width height (2 * r) c (by omega) (by omega)
      hc _ (.tail _ (.tail _ (.tail _ (.head _)))), by simp only [Store.cell, Prod.mk.injEq, true_and, and_true]; omega⟩

end Yuv420

/-! ### `to_yuv422p` -/

section Yuv422

variable {src : Nat → UInt8} {width height : Nat}

theorem stride_mul_add (y xs x : Nat) : y * (4 * xs) + 4 * x = 4 * (y * xs + x) := by
  ring

/-- A store of `to_yuv422p` is one of the four of a step `x` of a row `y`. -/
theorem mem_toYuv422p_of {y x : Nat} (hy : y < height) (hx : x < (width + 1) / 2) {s : Store}
    (hs : s ∈ [⟨.cb, y, x, src (4 * (y * ((width + 1) / 2) + x))⟩,
      ⟨.luma, y, 2 * x, src (4 * (y * ((width + 1) / 2) + x) + 1)⟩,
      ⟨.cr, y, x, src (4 * (y * ((width + 1) / 2) + x) + 2)⟩,
      ⟨.luma, y, 2 * x + 1, src (4 * (y * ((width + 1) / 2) + x) + 3)⟩]) :
    s ∈ Samples.toYuv422p src width height :=
  List.mem_flatMap.2 ⟨y, (mem_loopRows one_pos).2 ⟨hy, Nat.mod_one y⟩,
    List.mem_flatMap.2 ⟨x, List.mem_range.2 hx, hs⟩⟩

/-- Every store of `to_yuv422p` writes a cell of the 4:2:2 picture with the byte it has there. -/
theorem toYuv422p_stores : ∀ s ∈ Samples.toYuv422p src width height,
    InPicture height (2 * ((width + 1) / 2)) height ((width + 1) / 2) s.cell ∧
      s.val = image422 src (4 * ((width + 1) / 2)) s.cell := by
  intro s hs
  simp only [Samples.toYuv422p, Samples.toYuv422pRow, List.mem_flatMap, mem_loopRows one_pos,
    List.mem_range, List.mem_cons, List.mem_singleton, List.not_mem_nil, or_false] at hs
  obtain ⟨y, ⟨hy, -⟩, x, hx, hs⟩ := hs
  rcases hs with rfl | rfl | rfl | rfl <;>
    simp only [Store.cell, InPicture, image422, uyvyLuma_two_mul, uyvyLuma_two_mul_add_one, uyvy,
      stride_mul_add, Nat.add_zero, and_true] <;> omega

/-- Every cell of the 4:2:2 picture is written by `to_yuv422p`. -/
theorem toYuv422p_cover : ∀ c, InPicture height (2 * ((width + 1) / 2)) height ((width + 1) / 2) c →
    ∃ s ∈ Samples.toYuv422p src width height, s.cell = c
  | (.luma, r, c), ⟨hr, hc⟩ => by
    have mem := @mem_toYuv422p_of src width height r (c / 2) hr (by omega)
    rcases Nat.mod_two_eq_zero_or_one c with h | h
    · exact ⟨_, mem (.tail _ (.head _)), by simp only [Store.cell, Prod.mk.injEq, true_and]; omega⟩
    · exact ⟨_, mem (.tail _ (.tail _ (.tail _ (.head _)))),
        by simp only [Store.cell, Prod.mk.injEq, true_and]; omega⟩
  | (.cb, r, c), ⟨hr, hc⟩ => ⟨_, @mem_toYuv422p_of src width height r c hr hc _ (.head _), rfl⟩
  | (.cr, r, c), ⟨hr, hc⟩ =>
    ⟨_, @mem_toYuv422p_of src width height r c hr hc _ (.tail _ (.tail _ (.head _))), rfl⟩

end Yuv422

/-! ### The conversions that differ by where they put the bytes -/

/-- `to_nv12` makes the stores of `to_yuv420p`, with Cb and Cr interleaved in `data[1]`. -/
theorem toNv12_eq_map (src : Nat → UInt8) (width height : Nat) :
    Samples.toNv12 src width height = (Samples.toYuv420p src width height).map Store.toNv12 := by
  simp only [Samples.toNv12, Samples.toYuv420p, List.map_flatMap, Samples.toYuv420pRow]
  rfl

/-- `to_yuv444p` makes the stores of `to_yuv422p`, with each chroma store doubled. -/
theorem toYuv444p_eq_flatMap (src : Nat → UInt8) (width height : Nat) :
    Samples.toYuv444p src width height =
      (Samples.toYuv422p src width height).flatMap Store.toYuv444p := by
  simp only [Samples.toYuv444p, Samples.toYuv422p, List.flatMap_assoc, Samples.toYuv422pRow]
  rfl

section Yuv444

variable {src : Nat → UInt8} {width height : Nat}

/-- Every store of `to_yuv444p` writes a cell of the 4:4:4 picture with the byte it has there. -/
theorem toYuv444p_stores : ∀ s ∈ Samples.toYuv444p src width height,
    InPicture height (2 * ((width + 1) / 2)) height (2 * ((width + 1) / 2)) s.cell ∧
      s.val = image444 src (4 * ((width + 1) / 2)) s.cell := by
  rw [toYuv444p_eq_flatMap]
  intro s hs
  obtain ⟨⟨p, r, c, v⟩, ht, hs⟩ := List.mem_flatMap.1 hs
  obtain ⟨hin, hval⟩ := toYuv422p_stores _ ht
  have h1 : (2 * c + 1) / 2 = c := by omega
  cases p <;>
    simp only [Store.toYuv444p, List.mem_cons, List.mem_singleton, List.not_mem_nil, or_false]
      at hs <;>
    rcases hs with rfl | rfl <;>
    simp only [Store.cell, InPicture, image444, image422, Nat.mul_div_cancel_left _ two_pos, h1]
      at hin hval ⊢ <;>
    exact ⟨by omega, hval⟩

/-- A chroma store of `to_yuv422p` is made by `to_yuv444p` into both columns of its pair. -/
theorem mem_toYuv444p_of {t : Store} (ht : t ∈ Samples.toYuv422p src width height)
    (hp : t.plane ≠ .luma) {b : Nat} (hb : b < 2) :
    ⟨t.plane, t.row, 2 * t.col + b, t.val⟩ ∈ Samples.toYuv444p src width height := by
  rw [toYuv444p_eq_flatMap]
  refine List.mem_flatMap.2 ⟨t, ht, ?_⟩
  obtain ⟨p, r, c, v⟩ := t
  obtain rfl | rfl : b = 0 ∨ b = 1 := by omega
  all_goals cases p <;> simp_all [Store.toYuv444p]

/-- Every cell of the 4:4:4 picture is written by `to_yuv444p`. -/
theorem toYuv444p_cover : ∀ c,
    InPicture height (2 * ((width + 1) / 2)) height (2 * ((width + 1) / 2)) c →
      ∃ s ∈ Samples.toYuv444p src width height, s.cell = c
  | (.luma, r, c), hc => by
    obtain ⟨t, ht, he⟩ := @toYuv422p_cover src width height (.luma, r, c) hc
    refine ⟨t, ?_, he⟩
    rw [toYuv444p_eq_flatMap]
    obtain ⟨p, r, c, v⟩ := t
    cases he
    exact List.mem_flatMap.2 ⟨_, ht, .head _⟩
  | (.cb, r, c), ⟨hr, hc⟩ => by
    obtain ⟨t, ht, he⟩ := @toYuv422p_cover src width height (.cb, r, c / 2) ⟨hr, by omega⟩
    simp only [Store.cell, Prod.mk.injEq] at he
    refine ⟨_, mem_toYuv444p_of ht (by simp [he.1]) (Nat.mod_lt c two_pos), ?_⟩
    simp only [Store.cell, he, Prod.mk.injEq, true_and]
    omega
  | (.cr, r, c), ⟨hr, hc⟩ => by
    obtain ⟨t, ht, he⟩ := @toYuv422p_cover src width height (.cr, r, c / 2) ⟨hr, by omega⟩
    simp only [Store.cell, Prod.mk.injEq] at he
    refine ⟨_, mem_toYuv444p_of ht (by simp [he.1]) (Nat.mod_lt c two_pos), ?_⟩
    simp only [Store.cell, he, Prod.mk.injEq, true_and]
    omega

end Yuv444

/-! ### The pictures the conversions leave -/

/-- `to_yuv420p` leaves the 4:2:0 picture of the rows it reads, `2·⌈height/2⌉` of them: every luma
byte where the tile has it, in every chroma cell the mean of the samples of its two rows, and the
other cells as they were. -/
theorem written_toYuv420p (src : Nat → UInt8) (width height : Nat) (m : Planes) :
    written (Samples.toYuv420p src width height) m = fun c =>
      if InPicture (2 * ((height + 1) / 2)) (2 * (width / 2)) ((height + 1) / 2) (width / 2) c
      then image420 src (width * 2) c else m c :=
  written_eq_picture toYuv420p_stores toYuv420p_cover m

theorem written_toYuv422p (src : Nat → UInt8) (width height : Nat) (m : Planes) :
    written (Samples.toYuv422p src width height) m = fun c =>
      if InPicture height (2 * ((width + 1) / 2)) height ((width + 1) / 2) c
      then image422 src (4 * ((width + 1) / 2)) c else m c :=
  written_eq_picture toYuv422p_stores toYuv422p_cover m

theorem written_toYuv444p (src : Nat → UInt8) (width height : Nat) (m : Planes) :
    written (Samples.toYuv444p src width height) m = fun c =>
      if InPicture height (2 * ((width + 1) / 2)) height (2 * ((width + 1) / 2)) c
      then image444 src (4 * ((width + 1) / 2)) c else m c :=
  written_eq_picture toYuv444p_stores toYuv444p_cover m

section Pack

variable {src : Nat → UInt8} {height xs o : Nat}

/-- Where byte `o` of a picture of `height` rows of `4 * xs` bytes lies: row `o / (4 * xs)`, pixel
pair `o % (4 * xs) / 4`. -/
theorem pack_bounds (ho : o < height * (4 * xs)) :
    o / (4 * xs) < height ∧ o % (4 * xs) / 4 < xs ∧
      o / (4 * xs) * (4 * xs) + 4 * (o % (4 * xs) / 4) + o % (4 * xs) % 4 = o := by
  have hS : 0 < 4 * xs := Nat.pos_of_ne_zero fun h => by simp [h] at ho
  have := Nat.mod_lt o hS
  have := Nat.div_add_mod' o (4 * xs)
  exact ⟨Nat.div_lt_of_lt_mul (by rwa [Nat.mul_comm]), by omega, by omega⟩

/-- Packing the 4:2:2 picture of `height` rows back into UYVY gives the bytes of those rows. -/
theorem packUyvy_image422 (m : Planes) (ho : o < height * (4 * xs)) :
    packUyvy (fun c => if InPicture height (2 * xs) height xs c
      then image422 src (4 * xs) c else m c) (4 * xs) 1 o = src o := by
  obtain ⟨hy, hj, ho'⟩ := pack_bounds ho
  unfold packUyvy
  generalize o / (4 * xs) = y at *
  generalize o % (4 * xs) = b at *
  subst ho'
  rcases (by omega : b % 4 = 0 ∨ b % 4 = 1 ∨ b % 4 = 2 ∨ b % 4 = 3) with h | h | h | h <;>
    simp only [InPicture, image422, uyvy, uyvyLuma_two_mul, uyvyLuma_two_mul_add_one, Nat.one_mul,
      h, hy, hj, true_and, if_pos, show 2 * (b / 4) < 2 * xs by omega,
      show 2 * (b / 4) + 1 < 2 * xs by omega]

/-- Packing the 4:4:4 picture back into UYVY, chroma from the even columns, gives the bytes of its
rows. -/
theorem packUyvy_image444 (m : Planes) (ho : o < height * (4 * xs)) :
    packUyvy (fun c => if InPicture height (2 * xs) height (2 * xs) c
      then image444 src (4 * xs) c else m c) (4 * xs) 2 o = src o := by
  obtain ⟨hy, hj, ho'⟩ := pack_bounds ho
  unfold packUyvy
  generalize o / (4 * xs) = y at *
  generalize o % (4 * xs) = b at *
  subst ho'
  rcases (by omega : b % 4 = 0 ∨ b % 4 = 1 ∨ b % 4 = 2 ∨ b % 4 = 3) with h | h | h | h <;>
    simp only [InPicture, image444, image422, uyvy, uyvyLuma_two_mul, uyvyLuma_two_mul_add_one,
      Nat.mul_div_cancel_left _ two_pos, h, hy, hj, true_and, if_pos,
      show 2 * (b / 4) < 2 * xs by omega, show 2 * (b / 4) + 1 < 2 * xs by omega]

end Pack

/-- `to_yuv422p` drops no byte: packing the planes it leaves back into UYVY gives every byte of
the rows it reads, and so does packing those `to_yuv444p` leaves, chroma from the even columns. -/
theorem toYuv422p_roundTrip (src : Nat → UInt8) (width height : Nat) (m : Planes) :
    (List.range (height * (4 * ((width + 1) / 2)))).map
        (packUyvy (written (Samples.toYuv422p src width height) m) (4 * ((width + 1) / 2)) 1) =
      (List.range (height * (4 * ((width + 1) / 2)))).map src ∧
    (List.range (height * (4 * ((width + 1) / 2)))).map
        (packUyvy (written (Samples.toYuv444p src width height) m) (4 * ((width + 1) / 2)) 2) =
      (List.range (height * (4 * ((width + 1) / 2)))).map src := by
  rw [written_toYuv422p, written_toYuv444p]
  exact ⟨List.map_congr_left fun o ho => packUyvy_image422 m (List.mem_range.1 ho),
    List.map_congr_left fun o ho => packUyvy_image444 m (List.mem_range.1 ho)⟩

/-! ### The rows the stores write -/

/-- The rows stores write, when they write exactly the cells of `P` and a row of `P` has a cell in
column `0`. -/
theorem exists_row_iff {ss : List Store} {P : Plane × Nat × Nat → Prop}
    (hval : ∀ s ∈ ss, P s.cell) (hcov : ∀ c, P c → ∃ s ∈ ss, s.cell = c)
    (hP : ∀ p r c, P (p, r, c) → P (p, r, 0)) {p : Plane} {r : Nat} :
    (∃ s ∈ ss, s.plane = p ∧ s.row = r) ↔ P (p, r, 0) := by
  constructor
  · rintro ⟨⟨p, r, c, v⟩, hs, rfl, rfl⟩
    exact hP p r c (hval _ hs)
  · intro h
    obtain ⟨s, hs, he⟩ := hcov _ h
    exact ⟨s, hs, congrArg Prod.fst he, congrArg (fun c => c.2.1) he⟩

theorem inPicture_zero {rows cols crows ccols : Nat} :
    ∀ p r c, InPicture rows cols crows ccols (p, r, c) → InPicture rows cols crows ccols (p, r, 0)
  | .luma, _, _, ⟨hr, hc⟩ | .cb, _, _, ⟨hr, hc⟩ | .cr, _, _, ⟨hr, hc⟩ => ⟨hr, by omega⟩

/-- The stores of `to_yuv420p` write the rows its row model says. -/
theorem mem_toYuv420p_iff_stores (src : Nat → UInt8) {width height r : Nat} {p : Plane} :
    (p, r) ∈ toYuv420p width height ↔
      ∃ s ∈ Samples.toYuv420p src width height, s.plane = p ∧ s.row = r := by
  rw [mem_toYuv420p, exists_row_iff (fun s hs => (toYuv420p_stores s hs).1) toYuv420p_cover
    inPicture_zero]
  cases p <;> simp only [InPicture, if_true, reduceCtorEq, if_false] <;> omega

/-- The stores of a conversion write the rows its row model says (`PixfmtCallback.run`). -/
theorem mem_run_iff_stores (cb : PixfmtCallback) (src : Nat → UInt8) {width height r : Nat}
    {p : Plane} :
    (p, r) ∈ cb.run width height ↔ ∃ s ∈ cb.stores src width height, s.plane = p ∧ s.row = r := by
  cases cb
  · exact mem_toYuv420p_iff_stores src
  · rw [PixfmtCallback.run, PixfmtCallback.stores, mem_toYuv422p, exists_row_iff
      (fun s hs => (toYuv422p_stores s hs).1) toYuv422p_cover inPicture_zero]
    cases p <;> simp only [InPicture] <;> omega
  · rw [PixfmtCallback.run, PixfmtCallback.stores, mem_toYuv444p, exists_row_iff
      (fun s hs => (toYuv444p_stores s hs).1) toYuv444p_cover inPicture_zero]
    cases p <;> simp only [InPicture] <;> omega
  · rw [PixfmtCallback.run, PixfmtCallback.stores, mem_toNv12, toNv12_eq_map]
    constructor
    · rintro ⟨hp, h⟩
      obtain ⟨⟨q, _, c, v⟩, ht, rfl, rfl⟩ := (mem_toYuv420p_iff_stores src).1 h
      exact ⟨_, List.mem_map_of_mem _ ht, by cases q <;> simp_all [Store.toNv12]⟩
    · rintro ⟨_, hs, rfl, rfl⟩
      obtain ⟨⟨q, r, c, v⟩, ht, rfl⟩ := List.mem_map.1 hs
      have := (mem_toYuv420p_iff_stores src).2 ⟨_, ht, rfl, rfl⟩
      cases q <;> simp_all [Store.toNv12]

/-! ### The tasks of `libavcodec_compress_tile` -/

theorem stores_eq_flatMap (cb : PixfmtCallback) (src : Nat → UInt8) (width height : Nat) :
    cb.stores src width height = (loopRows cb.step height).flatMap (cb.row src width) := by
  cases cb <;> rfl

/-- The rounds of `for (y = 0; y < a + b; y += s)` with `s ∣ a` are those below `a`, then those of
a loop below `b` moved by `a`. -/
theorem loopRows_add {s a : Nat} (hs : 0 < s) (ha : a % s = 0) (b : Nat) :
    loopRows s (a + b) = loopRows s a ++ (loopRows s b).map (a + ·) := by
  obtain ⟨q, rfl⟩ := Nat.dvd_of_mod_eq_zero ha
  have h1 : (s * q + b + s - 1) / s = q + (b + s - 1) / s := by
    rw [show s * q + b + s - 1 = b + s - 1 + s * q by omega, Nat.add_mul_div_left _ _ hs,
      Nat.add_comm]
  have h2 : (s * q + s - 1) / s = q := by
    rw [show s * q + s - 1 = s - 1 + s * q by omega, Nat.add_mul_div_left _ _ hs,
      Nat.div_eq_of_lt (by omega), Nat.zero_add]
  simp only [loopRows, h1, h2, List.range_add, List.map_append, List.map_map]
  congr 2
  funext k
  simp only [Function.comp, Nat.mul_add]

end UltraGrid.VideoCompress
