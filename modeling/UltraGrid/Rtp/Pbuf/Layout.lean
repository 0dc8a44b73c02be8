import UltraGrid.Rtp.Pbuf.Abstract
import Mathlib.Data.List.Nodup

/-!
# How the pointer structure represents the frame list

`Layout b L` says that the heaps of `b` hold exactly the frames `L`: the frame nodes form one
doubly linked list from `frst` to `last` in the order of `L`, each node holds the header of
its frame and points at a doubly linked `coded_data` list holding the frame's packets in
order, no cell is shared, and no other node or packet cell is allocated. The abstraction
`frames L` forgets the addresses of the packet cells.

`PbufValid` is what `pbuf_validate` asserts, read off the heaps alone. `Layout` and `Wf`
together give it (`Layout.pbufValid`).

## Main definitions

* `Held` — a frame with the address of its node and of its packets.
* `CodedRep`, `FrameRep`, `Layout` — the representation relation.
* `PbufValid` — the assertions of `pbuf_validate`.
-/

namespace UltraGrid.Rtp

/-- A held frame, with the address of its node and the addresses of its packets. -/
structure Held where
  addr : Nat
  frame : Frame
  cells : List Nat

/-- The frame list the held frames stand for. -/
def frames (L : List Held) : List (Nat × Frame) := L.map fun x => (x.addr, x.frame)

@[simp] theorem frames_nil : frames [] = [] := rfl

@[simp] theorem frames_cons (x : Held) (L : List Held) :
    frames (x :: L) = (x.addr, x.frame) :: frames L := rfl

@[simp] theorem frames_append (L L' : List Held) : frames (L ++ L') = frames L ++ frames L' :=
  List.map_append _ _ _

/-- What a packet cell holds besides its links. -/
def CodedData.entry (d : CodedData) : UInt16 × RtpPacket := (d.seqno, d.data)

/-- The packets `ps` are the `coded_data` list at `cs`: linked in this order from `NULL` to
`NULL`, each cell holding its packet and the packet's number. -/
def CodedRep (h : Heap CodedData) (cs : List Nat) (ps : List RtpPacket) : Prop :=
  Seg (h.view CodedData.link) none cs none ∧
    cs.map (fun c => (h.cells c).map CodedData.entry) = ps.map fun p => some (p.seq, p)

/-- The node at `x.addr` holds the header of `x.frame` and points at its packets `x.cells`. -/
def FrameRep (b : Pbuf) (x : Held) : Prop :=
  ∃ n, b.nodes.cells x.addr = some n ∧ n.frame x.frame.packets = x.frame ∧
    n.cdata = x.cells.head? ∧ CodedRep b.cdata x.cells x.frame.packets

/-- The heaps of `b` hold exactly the frames `L`, in this order. -/
structure Layout (b : Pbuf) (L : List Held) : Prop where
  seg : Seg (b.nodes.view PbufNode.link) none (L.map Held.addr) none
  frst : b.frst = (L.map Held.addr).head?
  last : b.last = (L.map Held.addr).getLast?
  held : ∀ x ∈ L, FrameRep b x
  nodup : (L.map Held.addr).Nodup
  cnodup : (L.map Held.cells).flatten.Nodup
  nodesDom : ∀ a, (b.nodes.cells a).isSome → a ∈ L.map Held.addr
  cdataDom : ∀ c, (b.cdata.cells c).isSome → c ∈ (L.map Held.cells).flatten

theorem layout_pbufInit : Layout pbufInit [] :=
  ⟨trivial, rfl, rfl, by simp, .nil, .nil, by simp [pbufInit], by simp [pbufInit]⟩

/-- The representation reads only the cells of the two heaps and the two list ends: a node
allocated and deleted again leaves it as it was. -/
theorem Layout.of_cells {b b' : Pbuf} {L : List Held} (h : Layout b L) (hf : b'.frst = b.frst)
    (hl : b'.last = b.last) (hn : b'.nodes.cells = b.nodes.cells)
    (hc : b'.cdata.cells = b.cdata.cells) : Layout b' L := by
  obtain ⟨h1, h2, h3, h4, h5, h6, h7, h8⟩ := h
  have hv : b'.nodes.view PbufNode.link = b.nodes.view PbufNode.link := by
    funext a; simp [Heap.view, hn]
  have hcv : b'.cdata.view CodedData.link = b.cdata.view CodedData.link := by
    funext a; simp [Heap.view, hc]
  refine ⟨hv ▸ h1, hf.trans h2, hl.trans h3, fun x hx => ?_, h5, h6, fun a => hn ▸ h7 a,
    fun c => hc ▸ h8 c⟩
  obtain ⟨n, e1, e2, e3, e4⟩ := h4 x hx
  exact ⟨n, hn ▸ e1, e2, e3, hcv ▸ e4.1, hc ▸ e4.2⟩

/-- The representation reads only the two heaps and the two list ends. -/
theorem Layout.of_eq {b b' : Pbuf} {L : List Held} (h : Layout b L) (hf : b'.frst = b.frst)
    (hl : b'.last = b.last) (hn : b'.nodes = b.nodes) (hc : b'.cdata = b.cdata) : Layout b' L :=
  h.of_cells hf hl (congrArg Heap.cells hn) (congrArg Heap.cells hc)

/-! ## Frames of the representation -/

theorem CodedRep.congr {h h' : Heap CodedData} {cs : List Nat} {ps : List RtpPacket}
    (hr : CodedRep h cs ps) (e : ∀ c ∈ cs, h'.cells c = h.cells c) : CodedRep h' cs ps :=
  ⟨(seg_congr fun c hc => by simp [Heap.view, e c hc]).mpr hr.1,
    (List.map_congr_left fun c hc => by rw [e c hc]).trans hr.2⟩

/-- A frame reads only its node and its packet cells. -/
theorem FrameRep.congr {b b' : Pbuf} {x : Held} (h : FrameRep b x)
    (en : b'.nodes.cells x.addr = b.nodes.cells x.addr)
    (ec : ∀ c ∈ x.cells, b'.cdata.cells c = b.cdata.cells c) : FrameRep b' x := by
  obtain ⟨n, e1, e2, e3, e4⟩ := h
  exact ⟨n, en.trans e1, e2, e3, e4.congr ec⟩

/-- A frame survives a store into its node that keeps the header and the packet pointer. -/
theorem FrameRep.congrNode {b b' : Pbuf} {x : Held} {n n' : PbufNode} (h : FrameRep b x)
    (hn : b.nodes.cells x.addr = some n) (hn' : b'.nodes.cells x.addr = some n')
    (hf : n'.frame = n.frame) (hc : n'.cdata = n.cdata)
    (ec : ∀ c ∈ x.cells, b'.cdata.cells c = b.cdata.cells c) : FrameRep b' x := by
  obtain ⟨m, e1, e2, e3, e4⟩ := h
  obtain rfl : m = n := Option.some.inj (e1.symm.trans hn)
  exact ⟨n', hn', hf ▸ e2, hc.trans e3, e4.congr ec⟩

theorem Layout.nxt_prv {b : Pbuf} {P S : List Held} {x : Held} (h : Layout b (P ++ x :: S)) :
    b.nodes.view PbufNode.link x.addr = some ((P.map Held.addr).getLast?, (S.map Held.addr).head?) := by
  have := seg_mid (by simpa using h.seg)
  simpa using this

theorem Layout.length_le {b : Pbuf} {L : List Held} (h : Layout b L) : L.length ≤ b.nodes.next := by
  simpa using Heap.length_le_next h.nodup fun a ha => by simpa [Heap.view] using seg_isSome h.seg ha

theorem Layout.node {b : Pbuf} {L : List Held} {x : Held} (h : Layout b L) (hx : x ∈ L) :
    ∃ n, b.nodes.cells x.addr = some n ∧ n.frame x.frame.packets = x.frame ∧ n.cdata = x.cells.head? :=
  let ⟨n, e1, e2, e3, _⟩ := h.held x hx; ⟨n, e1, e2, e3⟩

/-! ## Stores through a pointer -/

namespace Pbuf

@[simp] theorem modifyNode_some (b : Pbuf) (a : Nat) (f : PbufNode → PbufNode) :
    b.modifyNode (some a) f = (b.nodes.cells a).map fun n => { b with nodes := b.nodes.write a (f n) } := by
  cases e : b.nodes.cells a <;> simp [modifyNode, e]

@[simp] theorem modifyCoded_some (b : Pbuf) (c : Nat) (f : CodedData → CodedData) :
    b.modifyCoded (some c) f = (b.cdata.cells c).map fun d => { b with cdata := b.cdata.write c (f d) } := by
  cases e : b.cdata.cells c <;> simp [modifyCoded, e]

@[simp] theorem modifyNode_none (b : Pbuf) (f : PbufNode → PbufNode) : b.modifyNode none f = none := rfl

@[simp] theorem modifyCoded_none (b : Pbuf) (f : CodedData → CodedData) : b.modifyCoded none f = none :=
  rfl

theorem modifyNode_eq {b : Pbuf} {a : Nat} {n : PbufNode} (hn : b.nodes.cells a = some n)
    (f : PbufNode → PbufNode) : ∃ nodes, b.modifyNode (some a) f = some { b with nodes } ∧
      nodes.cells = Function.update b.nodes.cells a (some (f n)) ∧ nodes.next = b.nodes.next :=
  ⟨_, by simp [hn], Heap.write_cells hn _, rfl⟩

theorem modifyCoded_eq {b : Pbuf} {c : Nat} {d : CodedData} (hd : b.cdata.cells c = some d)
    (f : CodedData → CodedData) : ∃ cdata, b.modifyCoded (some c) f = some { b with cdata } ∧
      cdata.cells = Function.update b.cdata.cells c (some (f d)) ∧ cdata.next = b.cdata.next :=
  ⟨_, by simp [hd], Heap.write_cells hd _, rfl⟩

end Pbuf

/-- A store into the header of a held frame that keeps its links and its packet pointer
changes that frame and nothing else. -/
theorem Layout.setHeader {b : Pbuf} {P S : List Held} {x : Held} {n : PbufNode}
    (h : Layout b (P ++ x :: S)) (hn : b.nodes.cells x.addr = some n) (f : PbufNode → PbufNode)
    (hl : (f n).link = n.link) (hc : (f n).cdata = n.cdata) :
    ∃ nodes, b.modifyNode (some x.addr) f = some { b with nodes } ∧ nodes.next = b.nodes.next ∧
      Layout { b with nodes } (P ++ { x with frame := (f n).frame x.frame.packets } :: S) := by
  obtain ⟨nodes, e, hcells, hnext⟩ := Pbuf.modifyNode_eq hn f
  refine ⟨_, e, hnext, ?_⟩
  have hnd := h.nodup
  simp only [List.map_append, List.map_cons, List.nodup_append, List.nodup_cons, List.mem_cons,
    List.disjoint_cons_right] at hnd
  have hview : nodes.view PbufNode.link = b.nodes.view PbufNode.link := by
    funext a; by_cases e : a = x.addr
    · subst e; simp [Heap.view, hcells, hn, hl]
    · simp [Heap.view, hcells, Function.update_noteq e]
  have hother : ∀ y ∈ P ++ S, FrameRep { b with nodes } y := fun y hy => by
    have hy' : FrameRep b y := h.held y (by simp at hy ⊢; tauto)
    refine hy'.congr ?_ fun _ _ => rfl
    have : y.addr ≠ x.addr := by
      rintro e; simp only [List.mem_append] at hy
      rcases hy with hy | hy
      · exact hnd.2.2.1 (e ▸ List.mem_map_of_mem Held.addr hy)
      · exact hnd.2.1.1 (e ▸ List.mem_map_of_mem Held.addr hy)
    simp [hcells, Function.update_noteq this]
  obtain ⟨w, e1, -, e3, e4⟩ := h.held x (by simp)
  obtain rfl : w = n := Option.some.inj (e1.symm.trans hn)
  refine ⟨by simpa [hview] using h.seg, by simpa using h.frst, by simpa using h.last,
    fun y hy => ?_, by simpa using h.nodup, by simpa using h.cnodup, fun a ha => ?_, ?_⟩
  · simp only [List.mem_append, List.mem_cons] at hy
    rcases hy with hy | rfl | hy
    · exact hother y (by simp [hy])
    · exact ⟨f w, by simp [hcells], rfl, hc.trans e3, e4⟩
    · exact hother y (by simp [hy])
  · have := h.nodesDom a
    by_cases e : a = x.addr
    · subst e; simp
    · simp only [hcells, Function.update_noteq e] at ha; simpa using this ha
  · simpa using h.cdataDom

/-! ## Updating one frame -/

theorem mem_flatten_cells {L : List Held} {c : Nat} :
    c ∈ (L.map Held.cells).flatten ↔ ∃ y ∈ L, c ∈ y.cells := by
  simp

theorem cnodup_middle {P S : List Held} {x : Held} :
    ((P ++ x :: S).map Held.cells).flatten.Nodup ↔
      (x.cells ++ ((P ++ S).map Held.cells).flatten).Nodup := by
  have := (show (P ++ x :: S).Perm (x :: (P ++ S)) from List.perm_middle).map Held.cells
  rw [(List.Perm.flatten this).nodup_iff]; simp

/-- Every packet cell of a represented frame is allocated. -/
theorem FrameRep.cells_isSome {b : Pbuf} {y : Held} (h : FrameRep b y) {c : Nat} (hc : c ∈ y.cells) :
    (b.cdata.cells c).isSome := by
  obtain ⟨n, -, -, -, hr⟩ := h
  simpa [Heap.view] using seg_isSome hr.1 hc

/-- A change confined to one frame: its node may change but not its links, the packet cells
of the other frames keep their contents, and the frame may gain packet cells that were
unallocated. The result represents the same frames with `x` replaced. -/
theorem Layout.update {b b' : Pbuf} {P S : List Held} {x x' : Held} (h : Layout b (P ++ x :: S))
    (hf : b'.frst = b.frst) (hl : b'.last = b.last)
    (hv : b'.nodes.view PbufNode.link = b.nodes.view PbufNode.link)
    (hn : ∀ a ≠ x.addr, b'.nodes.cells a = b.nodes.cells a)
    (hc : ∀ c ∉ x'.cells, b'.cdata.cells c = b.cdata.cells c)
    (hx : FrameRep b' x') (ha : x'.addr = x.addr) (hsub : ∀ c ∈ x.cells, c ∈ x'.cells)
    (hnew : ∀ c ∈ x'.cells, c ∈ x.cells ∨ b.cdata.cells c = none) (hnd : x'.cells.Nodup) :
    Layout b' (P ++ x' :: S) := by
  have haddr : (P ++ x' :: S).map Held.addr = (P ++ x :: S).map Held.addr := by simp [ha]
  have hcn := cnodup_middle.mp h.cnodup
  rw [List.nodup_append] at hcn
  -- a cell of another frame is allocated, so it is not one of the cells `x` gained
  have hout : ∀ y ∈ P ++ S, ∀ c ∈ y.cells, c ∉ x'.cells := fun y hy c hc hc' => by
    have hy' := h.held y (by simp at hy ⊢; tauto)
    rcases hnew c hc' with hx | hx
    · exact hcn.2.2 hx (mem_flatten_cells.mpr ⟨y, hy, hc⟩)
    · simp [hx] at hy'; exact absurd (hy'.cells_isSome hc) (by simp [hx])
  have hother : ∀ y ∈ P ++ S, FrameRep b' y := fun y hy => by
    have hnd := h.nodup
    rw [List.map_append, List.map_cons, List.nodup_middle, List.nodup_cons] at hnd
    refine (h.held y (by simp at hy ⊢; tauto)).congr (hn _ fun e => hnd.1 ?_)
      fun c hc' => hc c (hout y hy c hc')
    rw [← e, ← List.map_append]; exact List.mem_map_of_mem Held.addr hy
  refine ⟨by rw [haddr, hv]; exact h.seg, by rw [haddr, hf]; exact h.frst,
    by rw [haddr, hl]; exact h.last, fun y hy => ?_, by rw [haddr]; exact h.nodup, ?_,
    fun a ha' => ?_, fun c hc' => ?_⟩
  · rcases List.mem_append.mp hy with hy | hy
    · exact hother y (by simp [hy])
    · rcases List.mem_cons.mp hy with rfl | hy
      · exact hx
      · exact hother y (by simp [hy])
  · refine cnodup_middle.mpr (List.nodup_append.mpr ⟨hnd, hcn.2.1, fun c hc₁ hc₂ => ?_⟩)
    obtain ⟨y, hy, hcy⟩ := mem_flatten_cells.mp hc₂
    exact hout y hy c hcy hc₁
  · rw [haddr]
    by_cases e : a = x.addr
    · subst e; simp
    · exact h.nodesDom a (by rwa [hn a e] at ha')
  · by_cases hx' : c ∈ x'.cells
    · exact mem_flatten_cells.mpr ⟨x', by simp, hx'⟩
    · rw [hc c hx'] at hc'
      obtain ⟨y, hy, hcy⟩ := mem_flatten_cells.mp (h.cdataDom c hc')
      refine mem_flatten_cells.mpr ?_
      simp only [List.mem_append, List.mem_cons] at hy
      rcases hy with hy | rfl | hy
      · exact ⟨y, by simp [hy], hcy⟩
      · exact ⟨x', by simp, hsub c hcy⟩
      · exact ⟨y, by simp [hy], hcy⟩

/-! ## The assertions of `pbuf_validate` -/

/-- What `pbuf_validate` asserts of a buffer, as in the source but with the packet order the
code keeps: walking `nxt` from `frst` visits every frame node once and ends at `last`, `prv`
inverts `nxt`, timestamps strictly increase, and each frame's `coded_data` list is nonempty,
doubly linked, and each packet's successor precedes it, `(int16_t)(next - this) < 0`. -/
def PbufValid (b : Pbuf) : Prop :=
  ∃ fs : List Nat,
    Seg (b.nodes.view PbufNode.link) none fs none ∧ b.frst = fs.head? ∧ b.last = fs.getLast? ∧
    fs.Nodup ∧ (∀ a, (b.nodes.cells a).isSome ↔ a ∈ fs) ∧
    fs.Chain' (fun a a' => ∃ n n', b.nodes.cells a = some n ∧ b.nodes.cells a' = some n' ∧
      n.rtpTimestamp < n'.rtpTimestamp) ∧
    ∀ a ∈ fs, ∃ n cs, b.nodes.cells a = some n ∧ n.cdata = cs.head? ∧ cs ≠ [] ∧
      Seg (b.cdata.view CodedData.link) none cs none ∧
      cs.Chain' fun c c' => ∃ d d', b.cdata.cells c = some d ∧ b.cdata.cells c' = some d' ∧
        int16Diff d'.seqno d.seqno < 0

theorem chain_cells {h : Heap CodedData} {cs : List Nat} {ps : List RtpPacket}
    (e : cs.map (fun c => (h.cells c).map CodedData.entry) = ps.map fun p => some (p.seq, p))
    (hp : ps.Chain' SeqSucc) :
    cs.Chain' fun c c' => ∃ d d', h.cells c = some d ∧ h.cells c' = some d' ∧
      int16Diff d'.seqno d.seqno < 0 := by
  induction cs generalizing ps with
  | nil => simp
  | cons c cs ih =>
    cases ps with
    | nil => simp at e
    | cons p ps =>
      simp only [List.map_cons, List.cons.injEq] at e
      refine List.Chain'.cons' (ih e.2 hp.tail) fun c' hc' => ?_
      cases cs with
      | nil => simp at hc'
      | cons c₁ cs =>
        cases ps with
        | nil => simp at e
        | cons p₁ ps =>
          simp only [List.head?_cons, Option.mem_def, Option.some.injEq] at hc'
          subst hc'
          simp only [List.map_cons, List.cons.injEq] at e
          obtain ⟨d, hd, ed⟩ := Option.map_eq_some'.mp e.1
          obtain ⟨d₁, hd₁, ed₁⟩ := Option.map_eq_some'.mp e.2.1
          simp only [CodedData.entry, Prod.mk.injEq] at ed ed₁
          exact ⟨d, d₁, hd, hd₁, by rw [ed.1, ed₁.1]; exact List.chain'_cons.mp hp |>.1⟩

/-- A represented, well-formed frame list passes every check of `pbuf_validate`. -/
theorem Layout.pbufValid {b : Pbuf} {L : List Held} (h : Layout b L) (hw : Wf (frames L)) :
    PbufValid b := by
  refine ⟨L.map Held.addr, h.seg, h.frst, h.last, h.nodup,
    fun a => ⟨h.nodesDom a, fun ha => ?_⟩, ?_, fun a ha => ?_⟩
  · simpa [Heap.view] using seg_isSome h.seg ha
  · have hs := hw.sorted
    simp only [frames, List.map_map] at hs
    rw [List.chain'_map] at hs ⊢
    exact (List.Chain'.iff_mem.mp hs).imp fun x y ⟨hx, hy, hxy⟩ => by
      obtain ⟨n, e1, e2, -⟩ := h.node hx
      obtain ⟨n', e1', e2', -⟩ := h.node hy
      refine ⟨n, n', e1, e1', ?_⟩
      simp only [Function.comp] at hxy
      rw [← e2, ← e2'] at hxy; exact hxy
  · obtain ⟨x, hx, rfl⟩ := List.mem_map.mp ha
    obtain ⟨n, e1, -, e3, e4⟩ := h.held x hx
    obtain ⟨hne, hch⟩ := hw.packets (x.addr, x.frame) (List.mem_map_of_mem _ hx)
    refine ⟨n, x.cells, e1, e3, fun hc => hne ?_, e4.1, chain_cells e4.2 hch⟩
    have := e4.2; rw [hc] at this; simpa using this.symm

end UltraGrid.Rtp
