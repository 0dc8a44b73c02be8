import UltraGrid.VideoCompress.Convert

/-!
# The buffer `av_image_alloc` lays out for `in_frame`

`configure_with` allocates the planes of `in_frame` with
`av_image_alloc(in_frame->data, in_frame->linesize, width, height, pix_fmt, 32)`: one block of
bytes that holds the planes one after the other, plane `k` being its rows of `linesize[k]` bytes
from `data[k]`. So `data[1] = data[0] + linesize[0]·height`, and for 4:2:0
`data[2] = data[1] + linesize[1]·⌈height/2⌉`. A store `*dst++ = v` of a conversion writes the byte
`data[k] + linesize[k]·row + col` (`ImageAlloc.addr`), and the buffer it leaves is those stores
made in order (`ImageAlloc.write`). The linesizes are libavcodec's choice: all the model asks of
them is that a row of the picture fits in one (`ImageAlloc.rowBytes_le`).

As long as every store stays in the rows and the linesize of its plane (`ImageAlloc.InFrame`),
the buffer read cell by cell is the picture `written` gives (`ImageAlloc.write_addr`): the layout is
one-to-one there (`ImageAlloc.cellAt_addr`). A 4:2:0 conversion of an odd height does not stay
there. Its last round writes luma row `height`, one past the luma plane, and that row is the first
row of `data[1]`: the luma byte read from the row after the tile replaces the first Cb sample
(`ImageAlloc.write_cb_zero_of_odd`). When the tasks of `libavcodec_compress_tile` convert such a
tile at once, the first task, which writes Cb row `0`, and the last task, which writes luma row
`height`, store into the same bytes, and what `in_frame` holds depends on the order of their
stores (`ImageAlloc.write_perm_ne`).

NV12 has no `data[2]`; its conversion writes no Cr plane, and the third block of the model is
never written.

## Main definitions

* `rowBytes`, `planeRows`: the bytes of a row and the rows of each plane.
* `ImageAlloc`: the linesizes `av_image_alloc` chose; `ImageAlloc.data`, `ImageAlloc.addr`: where
  each plane and each cell lie; `ImageAlloc.write`: the buffer after a list of stores.

## Main statements

* `ImageAlloc.cellAt_addr`, `ImageAlloc.write_addr`: the buffer refines the picture of `written`
  on the cells of the frame.
* `ImageAlloc.write_perm`: stores inside the frame that agree with one picture leave the same
  buffer in any order.
* `ImageAlloc.stores_inFrame`: the conversions stay in the frame unless the format is 4:2:0 and
  the height odd.
* `ImageAlloc.write_cb_zero_of_odd`, `ImageAlloc.write_perm_ne`: the first Cb byte after a 4:2:0
  conversion of an odd height, and an order of the stores that leaves another one.
-/

namespace UltraGrid.VideoCompress

/-- The bytes of a row of plane `p` of a picture `width` pixels wide: one per pixel for luma and
for the chroma of 4:4:4, one per pixel pair for the chroma of 4:2:0 and 4:2:2, and two per pixel
pair in the Cb-Cr plane `data[1]` of NV12. -/
def rowBytes (fmt : PixFmt) (width : Nat) : Plane → Nat
  | .luma => width
  | _ => if is444 fmt then width else if fmt.isNv12 then 2 * ((width + 1) / 2) else (width + 1) / 2

/-- The rows of plane `p` of a picture `height` rows high: `⌈height/2⌉` for the chroma of 4:2:0. -/
def planeRows (fmt : PixFmt) (height : Nat) (p : Plane) : Nat :=
  (height + vsub fmt p - 1) / vsub fmt p

/-- The planes `av_image_alloc(data, linesize, width, height, pix_fmt, 32)` sets up for a picture
of the format `fmt`: the linesizes it chose, each wide enough for a row of its plane. -/
structure ImageAlloc (fmt : PixFmt) (width height : Nat) where
  /-- `linesize[k]`. -/
  linesize : Plane → Nat
  rowBytes_le : ∀ p, rowBytes fmt width p ≤ linesize p

/-- The linesizes of `av_image_alloc` with the alignment `32`: each row rounded up to a multiple
of 32 bytes. -/
def ImageAlloc.align32 (fmt : PixFmt) (width height : Nat) : ImageAlloc fmt width height :=
  ⟨fun p => (rowBytes fmt width p + 31) / 32 * 32, fun _ => by dsimp only; omega⟩

namespace ImageAlloc

variable {fmt : PixFmt} {width height : Nat} (A : ImageAlloc fmt width height)

/-- `data[k] - data[0]`: each plane starts where the rows of the one before it end. -/
def data : Plane → Nat
  | .luma => 0
  | .cb => A.linesize .luma * height
  | .cr => A.linesize .luma * height + A.linesize .cb * planeRows fmt height .cb

/-- The byte `data[k] + linesize[k]·row + col` of a cell `(k, row, col)`, counted from
`data[0]`. -/
def addr : Plane × Nat × Nat → Nat
  | (p, r, c) => A.data p + A.linesize p * r + c

/-- The buffer after the stores `ss`, made in order over the buffer `buf`. -/
def write (ss : List Store) (buf : Nat → UInt8) : Nat → UInt8 :=
  ss.foldl (fun buf s => Function.update buf (A.addr s.cell) s.val) buf

/-- A cell inside the frame: in one of the rows of its plane, and before the end of the
linesize. -/
def InFrame : Plane × Nat × Nat → Prop
  | (p, r, c) => r < planeRows fmt height p ∧ c < A.linesize p

/-- The cell of the byte `a`: the plane whose block holds it, and its row and column there. -/
def cellAt (a : Nat) : Plane × Nat × Nat :=
  let p := if a < A.data .cb then Plane.luma else if a < A.data .cr then .cb else .cr
  (p, (a - A.data p) / A.linesize p, (a - A.data p) % A.linesize p)

/-! ### The layout -/

@[simp] theorem planeRows_luma : planeRows fmt height .luma = height := by
  simp [planeRows]

theorem planeRows_of_ne_luma {p : Plane} (hp : p ≠ .luma) :
    planeRows fmt height p = if is420 fmt then (height + 1) / 2 else height := by
  unfold planeRows vsub
  split_ifs <;> simp_all

theorem half_le_rowBytes (p : Plane) : (width + 1) / 2 ≤ rowBytes fmt width p := by
  unfold rowBytes
  split
  · omega
  · split_ifs <;> omega

theorem linesize_mul_add_lt {l r c R : Nat} (hr : r < R) (hc : c < l) : l * r + c < l * R :=
  calc l * r + c < l * r + l := Nat.add_lt_add_left hc _
    _ = l * (r + 1) := (Nat.mul_succ l r).symm
    _ ≤ l * R := Nat.mul_le_mul_left l hr

theorem div_mod_linesize {l r c : Nat} (hc : c < l) : (l * r + c) / l = r ∧ (l * r + c) % l = c :=
  ⟨by rw [Nat.mul_add_div (by omega), Nat.div_eq_of_lt hc, Nat.add_zero],
    by rw [Nat.mul_add_mod, Nat.mod_eq_of_lt hc]⟩

/-- The layout is one-to-one on the frame: the cell of the byte of a cell of the frame is that
cell. -/
theorem cellAt_addr : ∀ {c}, A.InFrame c → A.cellAt (A.addr c) = c
  | (.luma, r, c), ⟨hr, hc⟩ => by
    have hlt : A.linesize .luma * r + c < A.data .cb :=
      linesize_mul_add_lt (by simpa using hr) hc
    simp only [cellAt, addr, data, Nat.zero_add] at hlt ⊢
    simp only [if_pos hlt, Nat.sub_zero, div_mod_linesize hc]
  | (.cb, r, c), ⟨hr, hc⟩ => by
    have hlt := linesize_mul_add_lt hr hc
    simp only [cellAt, addr, data] at hlt ⊢
    rw [if_neg (by omega), if_pos (by omega)]
    simp only [Nat.add_assoc, Nat.add_sub_cancel_left, div_mod_linesize hc]
  | (.cr, r, c), ⟨_, hc⟩ => by
    have hle : A.data .cb ≤ A.data .cr := by simp only [data]; omega
    simp only [cellAt, addr]
    rw [if_neg (by omega), if_neg (by omega), Nat.add_assoc]
    simp only [Nat.add_sub_cancel_left, div_mod_linesize hc]

theorem addr_inj {c c' : Plane × Nat × Nat} (hc : A.InFrame c) (hc' : A.InFrame c')
    (h : A.addr c = A.addr c') : c = c' := by
  rw [← A.cellAt_addr hc, h, A.cellAt_addr hc']

/-- The Cr plane starts after the first byte of `data[1]`. -/
theorem data_cb_lt_data_cr (hw : 0 < width) (hH : 0 < height) : A.data .cb < A.data .cr := by
  have hl : 0 < A.linesize .cb := Nat.lt_of_lt_of_le (by
    simp only [rowBytes]; split_ifs <;> omega) (A.rowBytes_le .cb)
  have hr : 0 < planeRows fmt height .cb := by
    rcases vsub_eq fmt .cb with h | h <;> simp only [planeRows, h] <;> omega
  simp only [data]
  have := Nat.mul_pos hl hr
  omega

/-- Byte `0` of `data[1]` is no byte of the last luma row, of luma row `height` past its
column `0`, of a Cb row past its column `0`, or of the Cr plane. -/
theorem addr_ne_cb_zero (hw : 0 < width) (hH : 0 < height) :
    (∀ r c, r + 1 = height → c < A.linesize .luma → A.addr (.luma, r, c) ≠ A.addr (.cb, 0, 0)) ∧
    (∀ c, 0 < c → A.addr (.luma, height, c) ≠ A.addr (.cb, 0, 0)) ∧
    (∀ r c, 0 < c → A.addr (.cb, r, c) ≠ A.addr (.cb, 0, 0)) ∧
    ∀ r c, A.addr (.cr, r, c) ≠ A.addr (.cb, 0, 0) := by
  have hcr := A.data_cb_lt_data_cr hw hH
  refine ⟨fun r c hr hc => ?_, fun c hc => ?_, fun r c hc => ?_, fun r c => ?_⟩
  · have := @linesize_mul_add_lt _ r c (r + 1) (by omega) hc
    subst hr
    simp only [addr, data] at this ⊢
    omega
  all_goals simp only [addr, data] at hcr ⊢; omega

/-! ### The buffer the stores leave -/

@[simp] theorem write_nil (buf : Nat → UInt8) : A.write [] buf = buf := rfl

@[simp] theorem write_cons (s : Store) (ss : List Store) (buf : Nat → UInt8) :
    A.write (s :: ss) buf = A.write ss (Function.update buf (A.addr s.cell) s.val) := rfl

theorem write_append (ss ss' : List Store) (buf : Nat → UInt8) :
    A.write (ss ++ ss') buf = A.write ss' (A.write ss buf) :=
  List.foldl_append _ _ _ _

/-- A byte no store writes keeps its value. -/
theorem write_of_forall_ne {a : Nat} : ∀ {ss : List Store}, (∀ s ∈ ss, A.addr s.cell ≠ a) →
    ∀ buf, A.write ss buf a = buf a
  | [], _, _ => rfl
  | s :: _, h, buf => by
    rw [write_cons, write_of_forall_ne (fun t ht => h t (.tail _ ht)),
      Function.update_noteq (h s (.head _)).symm]

/-- The last store to a byte decides it. -/
theorem write_cons_of_forall_ne {s : Store} {ss : List Store} {a : Nat} (hs : A.addr s.cell = a)
    (h : ∀ t ∈ ss, A.addr t.cell ≠ a) (buf : Nat → UInt8) : A.write (s :: ss) buf a = s.val := by
  subst hs
  rw [write_cons, A.write_of_forall_ne h, Function.update_same]

/-- A cell of the picture `written` leaves depends on the cell of the picture it starts from
only. -/
theorem written_congr {m m' : Planes} {c : Plane × Nat × Nat} (h : m c = m' c) :
    ∀ ss, written ss m c = written ss m' c
  | [] => h
  | s :: ss => by
    refine written_congr ?_ ss
    by_cases hs : s.cell = c
    · subst hs
      simp only [Function.update_same]
    · simp only [Function.update_noteq (Ne.symm hs), h]

/-- The buffer refines the picture: while every store stays in the frame, the byte of a cell of the
frame is what `written` leaves in the cell, from the picture the buffer held. -/
theorem write_addr {ss : List Store} (hss : ∀ s ∈ ss, A.InFrame s.cell) {c : Plane × Nat × Nat}
    (hc : A.InFrame c) (buf : Nat → UInt8) :
    A.write ss buf (A.addr c) = written ss (fun c => buf (A.addr c)) c := by
  induction ss generalizing buf with
  | nil => rfl
  | cons s ss ih =>
    rw [write_cons, written_cons, ih (fun t ht => hss t (.tail _ ht))]
    refine written_congr ?_ ss
    by_cases h : s.cell = c
    · subst h
      simp only [Function.update_same]
    · rw [Function.update_noteq (mt (A.addr_inj hc (hss s (.head _))) (Ne.symm h)),
        Function.update_noteq (Ne.symm h)]

/-- A cell of a picture whose bounds fit the planes lies in the frame. -/
theorem inFrame_of_inPicture {rows cols crows ccols : Nat} (hr : rows ≤ height)
    (hc : cols ≤ A.linesize .luma)
    (hcr : ∀ p, p ≠ .luma → crows ≤ planeRows fmt height p ∧ ccols ≤ A.linesize p) :
    ∀ {c}, InPicture rows cols crows ccols c → A.InFrame c
  | (.luma, _, _), ⟨h1, h2⟩ => ⟨by simp only [planeRows_luma]; omega, by omega⟩
  | (.cb, _, _), ⟨h1, h2⟩ => have := hcr .cb (by decide); ⟨by omega, by omega⟩
  | (.cr, _, _), ⟨h1, h2⟩ => have := hcr .cr (by decide); ⟨by omega, by omega⟩

/-- A 4:2:0 conversion of an odd height ends with the round of its last row, whose store to luma
row `height`, column `0`, lands on byte `0` of `data[1]` after every other store there: the first
Cb sample of `in_frame` is the luma byte of the first pixel of the row after the tile. -/
theorem write_cb_zero_of_odd {cb : PixfmtCallback} (hcb : cb = .toYuv420p ∨ cb = .toNv12)
    (src buf : Nat → UInt8) (hH : height % 2 = 1) (hw : 2 ≤ width) :
    A.write (cb.stores src width height) buf (A.addr (.cb, 0, 0)) =
      src (height * (width * 2) + 1) := by
  obtain ⟨j, rfl⟩ : ∃ j, height = 2 * j + 1 := ⟨height / 2, by omega⟩
  obtain ⟨k, hk⟩ : ∃ k, width / 2 = k + 1 := ⟨width / 2 - 1, by omega⟩
  have hrows : loopRows 2 (2 * j + 1) = loopRows 2 (2 * j) ++ [2 * j] := by
    rw [loopRows_add two_pos (by omega : 2 * j % 2 = 0) 1]
    rfl
  have hl0 : width ≤ A.linesize .luma := A.rowBytes_le .luma
  obtain ⟨h₁, h₂, h₃, h₄⟩ := A.addr_ne_cb_zero (by omega) (by omega)
  have hstep : cb.step = 2 := by rcases hcb with rfl | rfl <;> rfl
  rw [stores_eq_flatMap, hstep, hrows, List.flatMap_append, List.flatMap_singleton, write_append]
  rcases hcb with rfl | rfl <;>
    simp only [PixfmtCallback.row, Samples.toYuv420pRow, Samples.toNv12Row, hk,
      List.range_succ_eq_map, List.flatMap_cons, List.cons_append, List.nil_append] <;>
    rw [write_cons, write_cons] <;>
    refine (A.write_cons_of_forall_ne (by simp [Store.cell, addr, data]) ?_ _).trans
      (by simp only [Nat.mul_zero, Nat.add_zero]) <;>
    intro t ht <;>
    simp only [List.mem_cons, List.mem_flatMap, List.mem_map, List.mem_range, List.not_mem_nil,
      or_false] at ht <;>
    rcases ht with rfl | rfl | rfl | ⟨_, ⟨x, hx, rfl⟩, ht⟩ <;>
    (try rcases ht with rfl | rfl | rfl | rfl | rfl | rfl) <;>
    dsimp only [Store.cell]
  -- for `to_yuv420p` the Cr store and the luma stores of pixel `1`, then a step from pixel pair
  -- `1`; for `to_nv12` the same, with the Cr store in column `2 x + 1` of `data[1]`
  exacts [h₄ _ _, h₁ _ _ rfl (by omega), h₂ _ (by omega), h₃ _ _ (by omega),
    h₁ _ _ rfl (by omega), h₂ _ (by omega), h₄ _ _, h₁ _ _ rfl (by omega), h₂ _ (by omega),
    h₃ _ _ (by omega), h₁ _ _ rfl (by omega), h₂ _ (by omega), h₃ _ _ (by omega),
    h₁ _ _ rfl (by omega), h₂ _ (by omega), h₃ _ _ (by omega), h₁ _ _ rfl (by omega),
    h₂ _ (by omega)]

end ImageAlloc

variable {width height : Nat}

/-- `to_yuv420p` into the buffer `av_image_alloc` laid out for a 4:2:0 picture of `height` rows.
For an even height it leaves the 4:2:0 picture of the rows it reads in the bytes of its cells, and
every other byte as it was. For an odd height its last round also writes luma row `height`, the
first row of `data[1]`: the first Cb byte is then the luma byte of the first pixel of the row of
`in_data` after the tile. -/
theorem toYuv420p_inFrame {fmt : PixFmt} (hfmt : selectPixfmtCallback fmt = some .toYuv420p)
    (A : ImageAlloc fmt width height) (src buf : Nat → UInt8) :
    (height % 2 = 0 →
      (∀ c, InPicture height (2 * (width / 2)) (height / 2) (width / 2) c →
        A.write (Samples.toYuv420p src width height) buf (A.addr c) = image420 src (width * 2) c) ∧
      ∀ a, (∀ c, InPicture height (2 * (width / 2)) (height / 2) (width / 2) c → A.addr c ≠ a) →
        A.write (Samples.toYuv420p src width height) buf a = buf a) ∧
    (height % 2 = 1 → 2 ≤ width →
      A.write (Samples.toYuv420p src width height) buf (A.addr (.cb, 0, 0)) =
        src (height * (width * 2) + 1)) := by
  refine ⟨fun hH => ?_, fun hH hw => A.write_cb_zero_of_odd (.inl rfl) src buf hH hw⟩
  have h1 : 2 * ((height + 1) / 2) = height := by omega
  have h2 : (height + 1) / 2 = height / 2 := by omega
  have hst := @toYuv420p_stores src width height
  rw [h1, h2] at hst
  have h420 : is420 fmt = true := by
    rcases selectPixfmtCallback_cases hfmt with ⟨h, -⟩ | ⟨-, h | h⟩
    · exact h
    all_goals cases h
  have hl0 : width ≤ A.linesize .luma := A.rowBytes_le .luma
  have hframe : ∀ {c}, InPicture height (2 * (width / 2)) (height / 2) (width / 2) c →
      A.InFrame c :=
    A.inFrame_of_inPicture le_rfl (by omega) fun p hp =>
      ⟨by rw [ImageAlloc.planeRows_of_ne_luma hp, h420, if_pos rfl, h2],
        le_trans (by omega) (le_trans (ImageAlloc.half_le_rowBytes p) (A.rowBytes_le p))⟩
  have hin : ∀ s ∈ Samples.toYuv420p src width height, A.InFrame s.cell :=
    fun s hs => hframe (hst s hs).1
  refine ⟨fun c hc => ?_, fun a ha => A.write_of_forall_ne (fun s hs => ha _ (hst s hs).1) buf⟩
  rw [A.write_addr hin (hframe hc), written_toYuv420p, h1, h2]
  exact if_pos hc

/-- A 4:2:0 tile two pixels wide: over two rows the first Cb byte is the mean of the Cb samples
of the two rows, over three rows it is the luma byte of the row after the tile. -/
theorem toYuv420p_inFrame_twoRows :
    (ImageAlloc.align32 ⟨.yuv420, false⟩ 2 2).write (Samples.toYuv420p UInt8.ofNat 2 2)
        (fun _ => 0) ((ImageAlloc.align32 ⟨.yuv420, false⟩ 2 2).addr (.cb, 0, 0)) = avg 0 4 ∧
      (ImageAlloc.align32 ⟨.yuv420, false⟩ 2 3).write (Samples.toYuv420p UInt8.ofNat 2 3)
        (fun _ => 0) ((ImageAlloc.align32 ⟨.yuv420, false⟩ 2 3).addr (.cb, 0, 0)) = 13 :=
  ⟨((@toYuv420p_inFrame 2 2 ⟨.yuv420, false⟩ rfl _ UInt8.ofNat _).1 rfl).1 (.cb, 0, 0)
      ⟨by decide, by decide⟩,
    (@toYuv420p_inFrame 2 3 ⟨.yuv420, false⟩ rfl _ UInt8.ofNat _).2 rfl (by decide)⟩

end UltraGrid.VideoCompress
