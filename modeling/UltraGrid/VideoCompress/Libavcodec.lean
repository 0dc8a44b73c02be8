import UltraGrid.Transmit

/-!
# The row slices of the libavcodec compressor

`libavcodec_compress_tile` converts a packed UYVY tile of `H` rows into the planar `in_frame` of
the encoder with `n = cpu_count` tasks at once. With `h = ⌊⌊H/n⌋/2⌋·2`, task `i` converts
the `h` rows starting `i·h` rows into the tile and the last task the rest, and each writes through
its `in_frame_part[i]`, whose planes `configure_with` made start `i·h` luma rows into `in_frame`
and `i·h/2` or `i·h` chroma rows (its `chunk_size`, computed there a second time from
`codec_ctx->height`).

Rows are counted per plane: the byte address of row `r` of plane `k` is
`data[k] + linesize[k]·r`, so the linesizes and the columns a row is written in are left out.
A 4:2:0 conversion steps two rows at a time and writes both, so a slice of odd height is written
up to the next even row. The slices of the tasks before the last are even, the last one is odd
exactly when `H` is, and then it writes luma row `H`, one past the frame (`compressTile_slices`).
In the one buffer `av_image_alloc` lays out, that row is row `0` of `data[1]`, which the first task
writes too (`InFrame.lean`).

`is420`, `is422` and `is444` are not among the sources: `PixFmt` records the subsampling they
read. Heights are `Nat`: the tile height is `unsigned`, while `codec_ctx->height` and the tasks'
`height` are `int`, which agree with it below `2^31`.

## Main definitions

* `selectPixfmtCallback`, `toYuv420p`, `toNv12`, `toYuv422p`, `toYuv444p`: the conversions and
  the plane rows each writes.
* `configureWith`: the `in_frame_part` offsets.
* `compressTileTasks`, `myTask`: the tasks, and the rows of `in_frame` each writes.
* `sliceHeight`, `InRows`: the slice height, and the plane rows that hold a range of luma rows.

## Main statements

* `mem_toYuv420p`, `mem_toNv12`, `mem_toYuv422p`, `mem_toYuv444p`: the rows of each conversion.
* `compressTileTasks_eq`, `configureWith_getElem?`: the tasks and the parts.
* `mem_myTask_rows`, `luma_mem_myTask`: the rows a task writes, against its slice.
* `compressTile_slices`: the slices partition the tile, the offsets agree, no two tasks write one
  row of one plane, and every write lies in its task's slice and in the frame exactly when the
  format is not 4:2:0, the tile height is even or the tile is narrower than two pixels.
-/

namespace UltraGrid.VideoCompress

/-! ### Pixel formats and conversions -/

/-- The chroma subsampling of an `AVPixelFormat`, as `is420`, `is422` and `is444` tell it. -/
inductive Subsampling where
  | yuv420 | yuv422 | yuv444 | unknown
  deriving DecidableEq, Repr

/-- An `AVPixelFormat` as the slicing reads it: its subsampling, and whether it is
`AV_PIX_FMT_NV12`. -/
structure PixFmt where
  subsampling : Subsampling
  isNv12 : Bool
  deriving DecidableEq, Repr

/-- `is420`. -/
def is420 (fmt : PixFmt) : Bool := decide (fmt.subsampling = .yuv420)

/-- `is422`. -/
def is422 (fmt : PixFmt) : Bool := decide (fmt.subsampling = .yuv422)

/-- `is444`. -/
def is444 (fmt : PixFmt) : Bool := decide (fmt.subsampling = .yuv444)

/-- The conversions `select_pixfmt_callback` chooses from. -/
inductive PixfmtCallback where
  | toYuv420p | toYuv422p | toYuv444p | toNv12
  deriving DecidableEq, Repr

/-- `select_pixfmt_callback`; `none` is its `abort()` on a subsampling it does not know. -/
def selectPixfmtCallback (fmt : PixFmt) : Option PixfmtCallback :=
  if is422 fmt then some .toYuv422p
  else if is420 fmt then some (if fmt.isNv12 then .toNv12 else .toYuv420p)
  else if is444 fmt then some .toYuv444p
  else none

/-- The planes `data[0]`, `data[1]` and `data[2]` of an `AVFrame`. For NV12 `data[1]` holds Cb
and Cr interleaved and `data[2]` is not used. -/
inductive Plane where
  | luma | cb | cr
  deriving DecidableEq, Repr

/-- The values `y` takes in `for (y = 0; y < height; y += step)`. -/
def loopRows (step height : Nat) : List Nat :=
  (List.range ((height + step - 1) / step)).map (step * ·)

/-- The plane rows a conversion of `height` rows writes, relative to its `out_frame`: the loop
over `y` in steps of `step`, whose inner `x` loop runs `xSteps` times and writes the rows `rows y`
each time. -/
def convertRows (step xSteps : Nat) (rows : Nat → List (Plane × Nat)) (height : Nat) :
    List (Plane × Nat) :=
  if xSteps = 0 then [] else (loopRows step height).flatMap rows

/-- `to_yuv420p`: for every even `y`, luma rows `y` and `y + 1` and row `linesize[1] * y / 2` of
Cb and Cr, in `width / 2` steps of two pixels. -/
def toYuv420p (width height : Nat) : List (Plane × Nat) :=
  convertRows 2 (width / 2) (fun y => [(.cb, y / 2), (.luma, y), (.luma, y + 1), (.cr, y / 2)])
    height

/-- `to_nv12`: the rows of `to_yuv420p`, Cb and Cr interleaved in row `y / 2` of `data[1]`. -/
def toNv12 (width height : Nat) : List (Plane × Nat) :=
  convertRows 2 (width / 2) (fun y => [(.cb, y / 2), (.luma, y), (.luma, y + 1)]) height

/-- `to_yuv422p`: row `y` of every plane for every `y`, in steps of two pixels (`x += 2`). -/
def toYuv422p (width height : Nat) : List (Plane × Nat) :=
  convertRows 1 ((width + 1) / 2) (fun y => [(.cb, y), (.luma, y), (.cr, y)]) height

/-- `to_yuv444p`: the rows of `to_yuv422p`, each chroma sample written twice. -/
def toYuv444p (width height : Nat) : List (Plane × Nat) :=
  convertRows 1 ((width + 1) / 2) (fun y => [(.cb, y), (.luma, y), (.cr, y)]) height

/-- The call `callback(out_frame, in_data, width, height)`: the plane rows it writes. -/
def PixfmtCallback.run : PixfmtCallback → Nat → Nat → List (Plane × Nat)
  | .toYuv420p => VideoCompress.toYuv420p
  | .toYuv422p => VideoCompress.toYuv422p
  | .toYuv444p => VideoCompress.toYuv444p
  | .toNv12 => VideoCompress.toNv12

/-! ### The slices -/

/-- `in_frame_part[i]`: the row of each plane of `in_frame` where the part starts (`data[k]` is
`in_frame->data[k] + in_frame->linesize[k] * row`, with the linesizes of `in_frame`). -/
structure FramePart where
  luma : Nat
  cb : Nat
  cr : Nat
  deriving DecidableEq, Repr

/-- The row of plane `p` of `in_frame` where the part starts. -/
def FramePart.start (part : FramePart) : Plane → Nat
  | .luma => part.luma
  | .cb => part.cb
  | .cr => part.cr

/-- The loop of `configure_with` that sets `in_frame_part` for a codec context of
`codec_ctx->height = height` and the format `selected_pixfmt`. -/
def configureWith (fmt : PixFmt) (height cpuCount : Nat) : List FramePart :=
  (List.range cpuCount).map fun i =>
    let chunkSize := height / cpuCount / 2 * 2
    let chunkSize' := if is420 fmt then chunkSize / 2 else chunkSize
    ⟨i * chunkSize, i * chunkSize', i * chunkSize'⟩

/-- `struct my_task_data`: the conversion, the index of its `out_frame` in `in_frame_part`, where
its `in_data` starts in UYVY rows of the tile (`in_data` is `decoded` plus that many times
`vc_get_linesize(width, UYVY)`), and the width and height it converts. -/
structure MyTaskData where
  callback : PixfmtCallback
  outFrame : Nat
  inData : Nat
  width : Nat
  height : Nat
  deriving DecidableEq, Repr

/-- The tasks `libavcodec_compress_tile` starts for a tile `width` pixels wide and `tileHeight`
rows high, in the order of its loop. -/
def compressTileTasks (fmt : PixFmt) (width tileHeight cpuCount : Nat) :
    Option (List MyTaskData) :=
  (List.range cpuCount).mapM fun i => do
    let callback ← selectPixfmtCallback fmt
    let height := tileHeight / cpuCount / 2 * 2
    pure ⟨callback, i, i * height, width,
      if i < cpuCount - 1 then height else tileHeight - height * (cpuCount - 1)⟩

/-- `my_task`: the rows of `in_frame` the task writes, through the part `configure_with` gave
it. -/
def myTask (parts : List FramePart) (data : MyTaskData) : List (Plane × Nat) :=
  (data.callback.run data.width data.height).map fun w =>
    (w.1, (parts.getD data.outFrame ⟨0, 0, 0⟩).start w.1 + w.2)

/-- The slice height `h = ⌊⌊H/n⌋/2⌋·2` of the tasks before the last. -/
def sliceHeight (H n : Nat) : Nat := H / n / 2 * 2

/-- Task `i` as `libavcodec_compress_tile` fills it in: the conversion `cb`, the slice of
`h = sliceHeight H n` rows from row `i·h`, and for the last task the rest of the tile. -/
def sliceTask (cb : PixfmtCallback) (width H n i : Nat) : MyTaskData :=
  ⟨cb, i, i * sliceHeight H n, width,
    if i < n - 1 then sliceHeight H n else H - sliceHeight H n * (n - 1)⟩

/-- The vertical subsampling of plane `p`: a chroma row of a 4:2:0 frame holds two luma rows. -/
def vsub (fmt : PixFmt) (p : Plane) : Nat := if is420 fmt ∧ p ≠ .luma then 2 else 1

/-- Row `r` of plane `p` holds part of the luma rows `[a, b)`. The rows of plane `p` in a frame of
`H` rows are those with `InRows fmt p 0 H`. -/
def InRows (fmt : PixFmt) (p : Plane) (a b r : Nat) : Prop :=
  a / vsub fmt p ≤ r ∧ r < (b + vsub fmt p - 1) / vsub fmt p

instance (fmt : PixFmt) (p : Plane) (a b r : Nat) : Decidable (InRows fmt p a b r) :=
  inferInstanceAs (Decidable (_ ∧ _))

/-! ### The rows each conversion writes -/

theorem mem_loopRows {step height y : Nat} (hs : 0 < step) :
    y ∈ loopRows step height ↔ y < height ∧ y % step = 0 := by
  simp only [loopRows, List.mem_map, List.mem_range]
  constructor
  · rintro ⟨k, hk, rfl⟩
    have := (Nat.le_div_iff_mul_le hs).1 hk
    rw [Nat.succ_mul, Nat.mul_comm] at this
    exact ⟨by omega, Nat.mul_mod_right step k⟩
  · rintro ⟨hy, hm⟩
    obtain ⟨k, rfl⟩ := Nat.dvd_of_mod_eq_zero hm
    refine ⟨k, (Nat.le_div_iff_mul_le hs).2 ?_, rfl⟩
    rw [Nat.succ_mul, Nat.mul_comm]
    omega

theorem mem_convertRows {step xSteps height : Nat} {rows : Nat → List (Plane × Nat)}
    {w : Plane × Nat} (hs : 0 < step) :
    w ∈ convertRows step xSteps rows height ↔
      0 < xSteps ∧ ∃ y, y < height ∧ y % step = 0 ∧ w ∈ rows y := by
  unfold convertRows
  split <;> simp [*, mem_loopRows hs, Nat.pos_iff_ne_zero, and_assoc]

/-- `to_yuv420p` writes the luma rows up to the odd row after the last even `y`, and the chroma
rows that hold them. -/
@[simp] theorem mem_toYuv420p {width height r : Nat} {p : Plane} :
    (p, r) ∈ toYuv420p width height ↔
      2 ≤ width ∧ r < if p = .luma then height + height % 2 else (height + 1) / 2 := by
  rw [toYuv420p, mem_convertRows two_pos]
  refine and_congr (by omega) ⟨?_, fun h => ?_⟩
  · rintro ⟨y, hy, hm, hw⟩
    cases p <;> simp at hw ⊢ <;> omega
  · cases p <;> simp at h ⊢
    · exact ⟨r - r % 2, by omega, by omega, by omega⟩
    · exact ⟨2 * r, by omega, by omega, by omega⟩
    · exact ⟨2 * r, by omega, by omega, by omega⟩

/-- `to_nv12` writes the rows of `to_yuv420p` but those of `data[2]`. -/
@[simp] theorem mem_toNv12 {width height r : Nat} {p : Plane} :
    (p, r) ∈ toNv12 width height ↔ p ≠ .cr ∧ (p, r) ∈ toYuv420p width height := by
  rw [toNv12, toYuv420p, mem_convertRows two_pos, mem_convertRows two_pos]
  cases p <;> simp

/-- `to_yuv422p` writes the rows of its height in every plane. -/
@[simp] theorem mem_toYuv422p {width height r : Nat} {p : Plane} :
    (p, r) ∈ toYuv422p width height ↔ 0 < width ∧ r < height := by
  rw [toYuv422p, mem_convertRows one_pos]
  refine and_congr (by omega) ⟨?_, fun h => ⟨r, h, Nat.mod_one r, by cases p <;> simp⟩⟩
  rintro ⟨y, hy, -, hw⟩
  cases p <;> simp at hw <;> omega

@[simp] theorem mem_toYuv444p {width height r : Nat} {p : Plane} :
    (p, r) ∈ toYuv444p width height ↔ 0 < width ∧ r < height :=
  mem_toYuv422p

/-! ### The tasks and the parts -/

theorem selectPixfmtCallback_ne_none {fmt : PixFmt} (h : fmt.subsampling ≠ .unknown) :
    ∃ cb, selectPixfmtCallback fmt = some cb := by
  obtain ⟨sub, nv⟩ := fmt
  cases sub <;> simp_all [selectPixfmtCallback, is420, is422, is444]

/-- `select_pixfmt_callback` picks a 4:2:0 conversion exactly for a 4:2:0 format. -/
theorem selectPixfmtCallback_cases {fmt : PixFmt} {cb : PixfmtCallback}
    (h : selectPixfmtCallback fmt = some cb) :
    is420 fmt = true ∧ (cb = .toYuv420p ∨ cb = .toNv12) ∨
      is420 fmt = false ∧ (cb = .toYuv422p ∨ cb = .toYuv444p) := by
  obtain ⟨sub, nv⟩ := fmt
  cases sub <;> cases nv <;> simp [selectPixfmtCallback, is420, is422, is444] at h ⊢ <;>
    simp [← h]

theorem sliceHeight_mod_two (H n : Nat) : sliceHeight H n % 2 = 0 := by
  unfold sliceHeight; omega

theorem mul_sliceHeight_mod_two (i H n : Nat) : i * sliceHeight H n % 2 = 0 :=
  Nat.mod_eq_zero_of_dvd ((Nat.dvd_of_mod_eq_zero (sliceHeight_mod_two H n)).mul_left i)

/-- The `n` slices of height `h` fit in the tile. -/
theorem sliceHeight_mul_le (H n : Nat) : sliceHeight H n * n ≤ H :=
  calc sliceHeight H n * n ≤ H / n * n := Nat.mul_le_mul_right n (by unfold sliceHeight; omega)
    _ ≤ H := Nat.div_mul_le_self H n

/-- A slice before slice `j` ends at or before its start. -/
theorem sliceHeight_succ_mul_le {i j : Nat} (H n : Nat) (hij : i < j) :
    i * sliceHeight H n + sliceHeight H n ≤ j * sliceHeight H n :=
  Nat.succ_mul i _ ▸ Nat.mul_le_mul_right _ hij

/-- The tasks of `libavcodec_compress_tile`. -/
theorem compressTileTasks_eq {fmt : PixFmt} {cb : PixfmtCallback} (width H n : Nat)
    (hcb : selectPixfmtCallback fmt = some cb) :
    compressTileTasks fmt width H n = some ((List.range n).map (sliceTask cb width H n)) :=
  Transmit.mapM_eq_some fun i _ => by simp [hcb, sliceTask, sliceHeight]

variable {cb : PixfmtCallback} {width H n i : Nat}

theorem sliceHeight_mul_pred_le : (n - 1) * sliceHeight H n ≤ H :=
  le_trans (Nat.mul_comm (n - 1) _ ▸ Nat.mul_le_mul_left _ (Nat.sub_le n 1))
    (sliceHeight_mul_le H n)

@[simp] theorem sliceTask_outFrame : (sliceTask cb width H n i).outFrame = i := rfl

@[simp] theorem sliceTask_inData : (sliceTask cb width H n i).inData = i * sliceHeight H n := rfl

/-- Every task but the last converts `h` rows, and the last ends the tile. -/
theorem sliceTask_end (hi : i < n) :
    i * sliceHeight H n + (sliceTask cb width H n i).height =
      if i < n - 1 then i * sliceHeight H n + sliceHeight H n else H := by
  have := @sliceHeight_mul_pred_le H n
  simp only [sliceTask]
  split
  · rfl
  · obtain rfl : i = n - 1 := by omega
    rw [Nat.mul_comm _ (n - 1)]
    omega

theorem sliceTask_end_le (hi : i < n) :
    i * sliceHeight H n + (sliceTask cb width H n i).height ≤ H := by
  rw [sliceTask_end hi]
  split
  · exact le_trans (sliceHeight_succ_mul_le H n ‹_›) sliceHeight_mul_pred_le
  · exact le_rfl

/-- The slices are even but the last, which is as odd as the tile. -/
theorem sliceTask_height_mod_two :
    (sliceTask cb width H n i).height % 2 = if i < n - 1 then 0 else H % 2 := by
  have := @sliceHeight_mul_pred_le H n
  have := mul_sliceHeight_mod_two (n - 1) H n
  simp only [sliceTask, Nat.mul_comm _ (n - 1)]
  split
  · exact sliceHeight_mod_two H n
  · omega

/-- The slices cover the tile. -/
theorem sliceTask_cover (hn : 0 < n) {r : Nat} :
    r < H ↔ ∃ i < n, i * sliceHeight H n ≤ r ∧
      r < i * sliceHeight H n + (sliceTask cb width H n i).height := by
  refine ⟨fun hr => ?_, fun ⟨i, hi, _, hr⟩ => lt_of_lt_of_le hr (sliceTask_end_le hi)⟩
  by_cases hlast : (n - 1) * sliceHeight H n ≤ r
  · refine ⟨n - 1, by omega, hlast, ?_⟩
    rwa [sliceTask_end (by omega), if_neg (by omega)]
  · have hh : 0 < sliceHeight H n := Nat.pos_of_ne_zero fun h => by simp [h] at hlast
    have hi : r / sliceHeight H n < n - 1 :=
      Nat.lt_of_mul_lt_mul_right (lt_of_le_of_lt (Nat.div_mul_le_self r _) (by omega))
    refine ⟨r / sliceHeight H n, by omega, Nat.div_mul_le_self r _, ?_⟩
    rw [sliceTask_end (by omega), if_pos hi]
    exact Nat.lt_div_mul_add hh

/-- The parts `configure_with` sets: part `i` starts `i·h` luma rows into `in_frame`, and `i·h/2`
chroma rows for 4:2:0, `i·h` otherwise. -/
theorem configureWith_getElem? {fmt : PixFmt} (hi : i < n) :
    (configureWith fmt H n)[i]? = some ⟨i * sliceHeight H n,
      if is420 fmt then i * sliceHeight H n / 2 else i * sliceHeight H n,
      if is420 fmt then i * sliceHeight H n / 2 else i * sliceHeight H n⟩ := by
  have : i * sliceHeight H n / 2 = i * (H / n / 2 * 2 / 2) :=
    Nat.mul_div_assoc i (Nat.dvd_of_mod_eq_zero (sliceHeight_mod_two H n))
  simp only [configureWith, List.getElem?_map, List.getElem?_range hi, Option.map_some', this]
  cases is420 fmt <;> rfl

/-- Each plane of part `i` starts at the row that holds luma row `i·h`. -/
theorem configureWith_start {fmt : PixFmt} (hi : i < n) (p : Plane) :
    ((configureWith fmt H n).getD i ⟨0, 0, 0⟩).start p = i * sliceHeight H n / vsub fmt p := by
  rw [List.getD_eq_getElem?_getD, configureWith_getElem? hi]
  cases p <;> simp only [Option.getD_some, FramePart.start, vsub] <;> split <;> simp_all

/-! ### The rows each task writes -/

@[simp] theorem vsub_luma (fmt : PixFmt) : vsub fmt .luma = 1 := by
  simp [vsub]

theorem vsub_eq (fmt : PixFmt) (p : Plane) : vsub fmt p = 1 ∨ vsub fmt p = 2 := by
  unfold vsub; split <;> simp

theorem InRows.frame {fmt : PixFmt} {p : Plane} {a b r : Nat} (h : InRows fmt p a b r)
    (hb : b ≤ H) : InRows fmt p 0 H r :=
  ⟨by simp, lt_of_lt_of_le h.2 (Nat.div_le_div_right (by omega))⟩

/-- A row of a range that ends at an even row comes before every row of a later range. -/
theorem InRows.lt_of_le {fmt : PixFmt} {p : Plane} {a b a' r r' : Nat} (h : InRows fmt p a b r)
    (hb : b % 2 = 0) (hba : b ≤ a') (h' : a' / vsub fmt p ≤ r') : r < r' := by
  have := h.2
  rcases vsub_eq fmt p with hv | hv <;> rw [hv] at this h' <;> omega

/-- The rows a conversion of a slice `[s, s + L)` writes through the part of luma row `s` lie in
the slice, but for luma row `s + L` of a 4:2:0 slice of odd height. -/
theorem mem_run_rows {fmt : PixFmt} {p : Plane} {r L s : Nat}
    (hcb : selectPixfmtCallback fmt = some cb) (hs : s % 2 = 0) (hw : (p, r) ∈ cb.run width L) :
    InRows fmt p s (s + L) (s / vsub fmt p + r) ∨
      is420 fmt = true ∧ 2 ≤ width ∧ L % 2 = 1 ∧ p = .luma ∧ r = L := by
  rcases selectPixfmtCallback_cases hcb with ⟨h420, hcb'⟩ | ⟨h420, hcb'⟩
  · have hw' : (p, r) ∈ toYuv420p width L := by
      rcases hcb' with rfl | rfl
      exacts [hw, (mem_toNv12.1 hw).2]
    rw [mem_toYuv420p] at hw'
    cases p <;> simp [InRows, vsub, h420] at hw' ⊢ <;> omega
  · have hw' : 0 < width ∧ r < L := by
      rcases hcb' with rfl | rfl
      exacts [mem_toYuv422p.1 hw, mem_toYuv444p.1 hw]
    left
    simp only [InRows, vsub, h420, Bool.false_eq_true, false_and, if_false, Nat.div_one]
    omega

/-- A 4:2:0 conversion of an odd number of rows writes the luma row after them. -/
theorem luma_mem_run {fmt : PixFmt} {L : Nat} (hcb : selectPixfmtCallback fmt = some cb)
    (h420 : is420 fmt = true) (hw : 2 ≤ width) (hL : L % 2 = 1) :
    (.luma, L) ∈ cb.run width L := by
  rcases selectPixfmtCallback_cases hcb with ⟨-, rfl | rfl⟩ | ⟨h, -⟩
  · simp [PixfmtCallback.run]; omega
  · simp [PixfmtCallback.run]; omega
  · simp [h] at h420

/-- The rows task `i` writes lie in its slice, but for the luma row after a 4:2:0 slice of odd
height. -/
theorem mem_myTask_rows {fmt : PixFmt} {p : Plane} {r : Nat}
    (hcb : selectPixfmtCallback fmt = some cb) (hi : i < n)
    (hw : (p, r) ∈ myTask (configureWith fmt H n) (sliceTask cb width H n i)) :
    InRows fmt p (i * sliceHeight H n) (i * sliceHeight H n + (sliceTask cb width H n i).height)
        r ∨
      is420 fmt = true ∧ 2 ≤ width ∧ (sliceTask cb width H n i).height % 2 = 1 ∧
        p = .luma ∧ r = i * sliceHeight H n + (sliceTask cb width H n i).height := by
  obtain ⟨⟨p', r'⟩, hrun, he⟩ := List.mem_map.1 hw
  obtain ⟨rfl, rfl⟩ := Prod.mk.inj he
  simp only [sliceTask_outFrame, configureWith_start hi]
  refine (mem_run_rows hcb (mul_sliceHeight_mod_two i H n) hrun).imp id ?_
  rintro ⟨h1, h2, h3, rfl, rfl⟩
  exact ⟨h1, h2, h3, rfl, by simp⟩

/-- Task `i` of a 4:2:0 format writes the luma row after a slice of odd height. -/
theorem luma_mem_myTask {fmt : PixFmt} (hcb : selectPixfmtCallback fmt = some cb) (hi : i < n)
    (h420 : is420 fmt = true) (hw : 2 ≤ width)
    (hodd : (sliceTask cb width H n i).height % 2 = 1) :
    (.luma, i * sliceHeight H n + (sliceTask cb width H n i).height) ∈
      myTask (configureWith fmt H n) (sliceTask cb width H n i) :=
  List.mem_map.2 ⟨(.luma, _), luma_mem_run hcb h420 hw hodd,
    by simp only [sliceTask_outFrame, configureWith_start hi]; simp⟩

/-- The rows task `i` writes come before those of every later task. -/
theorem myTask_not_mem {fmt : PixFmt} {j : Nat} {w : Plane × Nat}
    (hcb : selectPixfmtCallback fmt = some cb) (hij : i < j) (hj : j < n)
    (hwi : w ∈ myTask (configureWith fmt H n) (sliceTask cb width H n i)) :
    w ∉ myTask (configureWith fmt H n) (sliceTask cb width H n j) := by
  obtain ⟨p, r⟩ := w
  intro hwj
  have hlow : j * sliceHeight H n / vsub fmt p ≤ r := by
    rcases mem_myTask_rows hcb hj hwj with hin | ⟨-, -, -, rfl, rfl⟩
    · exact hin.1
    · simp
  have hend := @sliceTask_end cb width H n i (by omega)
  rw [if_pos (by omega)] at hend
  rcases mem_myTask_rows hcb (by omega) hwi with hin | ⟨-, -, hodd, -⟩
  · have := mul_sliceHeight_mod_two i H n
    have := sliceHeight_mod_two H n
    rw [hend] at hin
    exact Nat.lt_irrefl r (hin.lt_of_le (by omega) (sliceHeight_succ_mul_le H n hij) hlow)
  · rw [sliceTask_height_mod_two, if_pos (by omega)] at hodd
    omega

/-! ### The slicing of a tile -/

/-- `libavcodec_compress_tile` on a tile of `H` rows with `n` tasks: task `i` gets the slice
`[i·h, i·h + h)` and the last `[(n - 1)·h, H)`, the slices are ordered and cover the tile, and
each task's input starts at the rows where `configure_with` placed its part. No two tasks write
one row of `in_frame`, and every write lies in its task's slice and in the frame exactly when the
format is not 4:2:0, the tile height is even or the tile is narrower than two pixels. -/
theorem compressTile_slices (fmt : PixFmt) (width H n : Nat) (hn : 0 < n)
    (hfmt : fmt.subsampling ≠ .unknown) :
    ∃ tasks, compressTileTasks fmt width H n = some tasks ∧
      tasks.map MyTaskData.outFrame = List.range n ∧
      (∀ t ∈ tasks, t.inData = t.outFrame * sliceHeight H n ∧
        t.inData + t.height = (if t.outFrame < n - 1 then t.inData + sliceHeight H n else H) ∧
        (configureWith fmt H n)[t.outFrame]? = some ⟨t.inData,
          if is420 fmt then t.inData / 2 else t.inData,
          if is420 fmt then t.inData / 2 else t.inData⟩) ∧
      (∀ r, r < H ↔ ∃ t ∈ tasks, t.inData ≤ r ∧ r < t.inData + t.height) ∧
      tasks.Pairwise (fun t t' => t.inData + t.height ≤ t'.inData ∧
        ∀ w ∈ myTask (configureWith fmt H n) t, w ∉ myTask (configureWith fmt H n) t') ∧
      ((∀ t ∈ tasks, ∀ w ∈ myTask (configureWith fmt H n) t,
          InRows fmt w.1 t.inData (t.inData + t.height) w.2 ∧ InRows fmt w.1 0 H w.2) ↔
        is420 fmt = false ∨ H % 2 = 0 ∨ width < 2) := by
  obtain ⟨cb, hcb⟩ := selectPixfmtCallback_ne_none hfmt
  refine ⟨_, compressTileTasks_eq width H n hcb, ?_, ?_, ?_, ?_, ?_⟩
  · rw [List.map_map]
    exact List.map_id'' (fun _ => rfl) _
  · simp only [List.forall_mem_map, List.mem_range]
    exact fun i hi => ⟨rfl, sliceTask_end hi, configureWith_getElem? hi⟩
  · simpa using fun r => @sliceTask_cover cb width H n hn r
  · refine List.pairwise_map.2 ((List.pairwise_lt_range n).imp_of_mem fun hi hj hij => ?_)
    rw [List.mem_range] at hi hj
    refine ⟨?_, fun w hw => myTask_not_mem hcb hij hj hw⟩
    rw [sliceTask_inData, sliceTask_end hi, if_pos (by omega)]
    exact sliceHeight_succ_mul_le H n hij
  · simp only [List.forall_mem_map, List.mem_range, sliceTask_inData]
    constructor
    · intro hall
      by_contra hc
      simp only [not_or, Bool.not_eq_false, Nat.not_lt] at hc
      obtain ⟨h420, hH, hw⟩ := hc
      have hodd : (sliceTask cb width H n (n - 1)).height % 2 = 1 := by
        rw [sliceTask_height_mod_two, if_neg (by omega)]
        omega
      have := (hall (n - 1) (by omega) _ (luma_mem_myTask hcb (by omega) h420 hw hodd)).1.2
      simp at this
    · rintro hc i hi ⟨p, r⟩ hw
      rcases mem_myTask_rows hcb hi hw with hin | ⟨h420, hw2, hodd, -⟩
      · exact ⟨hin, hin.frame (sliceTask_end_le hi)⟩
      · rw [sliceTask_height_mod_two] at hodd
        split at hodd
        · omega
        · rcases hc with h | h | h
          · simp [h] at h420
          · omega
          · omega

/-- A 4:2:0 tile of five rows, two pixels wide, in two tasks: the second converts rows 2 to 4 and
writes luma row 5, past the frame. -/
theorem compressTile_slices_oddHeight :
    compressTileTasks ⟨.yuv420, false⟩ 2 5 2 =
        some [⟨.toYuv420p, 0, 0, 2, 2⟩, ⟨.toYuv420p, 1, 2, 2, 3⟩] ∧
      (.luma, 5) ∈
        myTask (configureWith ⟨.yuv420, false⟩ 5 2) ⟨.toYuv420p, 1, 2, 2, 3⟩ ∧
      ¬ ∀ t ∈ [⟨.toYuv420p, 0, 0, 2, 2⟩, ⟨.toYuv420p, 1, 2, 2, 3⟩],
        ∀ w ∈ myTask (configureWith ⟨.yuv420, false⟩ 5 2) t,
          InRows ⟨.yuv420, false⟩ w.1 t.inData (t.inData + t.height) w.2 ∧
            InRows ⟨.yuv420, false⟩ w.1 0 5 w.2 := by
  obtain ⟨tasks, e, -, -, -, -, hiff⟩ :=
    compressTile_slices ⟨.yuv420, false⟩ 2 5 2 (by decide) (by decide)
  have e' : compressTileTasks ⟨.yuv420, false⟩ 2 5 2 =
      some [⟨.toYuv420p, 0, 0, 2, 2⟩, ⟨.toYuv420p, 1, 2, 2, 3⟩] := by decide
  obtain rfl := Option.some.inj (e'.symm.trans e)
  exact ⟨e', by decide, fun h => absurd (hiff.1 h) (by decide)⟩

end UltraGrid.VideoCompress
