import UltraGrid.Rtp.Pbuf.CodedUnit

/-!
# The frame part of `pbuf_insert` refines `fileFrame`

`pbuf_insert` starts a frame in an empty buffer, hands a packet of the tail's timestamp to
`add_coded_unit`, appends a new tail frame for a later timestamp, and otherwise scans back
from the tail for a frame of the packet's timestamp. With the allocations succeeding, on a
represented buffer whose frames are well formed, the buffer afterwards represents
`fileFrame` of the frames before (`insertFrame_spec`).

## Main statements

* `Layout.single`, `Layout.push` — the stores that create a frame.
* `scanBack_spec` — where the backward scan stops.
* `insertFrame_spec` — the refinement.
-/

namespace UltraGrid.Rtp

/-! ## A new frame -/

/-- The node `create_new_pnode` makes for `pkt`, due at `playoutTime`, with its packet at `c`. -/
def newNode (pkt : RtpPacket) (playoutTime : Int) (c : Option Nat) : PbufNode :=
  ⟨none, none, pkt.ts, playoutTime, c, false, pkt.m, false⟩

/-- The packet cell `create_new_pnode` and `add_coded_unit` fill for `pkt`. -/
def newCoded (pkt : RtpPacket) : CodedData := ⟨none, none, pkt.seq, pkt⟩

@[simp] theorem newNode_frame (pkt : RtpPacket) (playoutTime : Int) (c : Option Nat) :
    (newNode pkt playoutTime c).frame [pkt] = Frame.new pkt playoutTime := rfl

theorem createNewPnode_true (b : Pbuf) (pkt : RtpPacket) (now delayUs : Int) :
    createNewPnode b pkt now delayUs true =
      (some b.nodes.next, { b with
        nodes := (b.nodes.alloc (newNode pkt (now + delayUs * 1000) (some b.cdata.next))).2
        cdata := (b.cdata.alloc (newCoded pkt)).2 }) := rfl

theorem createNewPnode_false (b : Pbuf) (pkt : RtpPacket) (now delayUs : Int) :
    createNewPnode b pkt now delayUs false =
      (none, { b with
        nodes := (b.nodes.alloc (newNode pkt (now + delayUs * 1000) none)).2.free b.nodes.next }) := rfl

/-- A packet cell alone is the packet list of one packet. -/
theorem codedRep_single {h : Heap CodedData} {c : Nat} {pkt : RtpPacket}
    (hc : h.cells c = some (newCoded pkt)) : CodedRep h [c] [pkt] :=
  ⟨by simp [Heap.view, hc, newCoded, CodedData.link], by simp [hc, newCoded, CodedData.entry]⟩

/-- The frame `pbuf_insert` starts in an empty buffer. -/
theorem Layout.single {b : Pbuf} (h : Layout b []) (pkt : RtpPacket) (pt : Int) :
    Layout { b with
        frst := some b.nodes.next, last := some b.nodes.next
        nodes := (b.nodes.alloc (newNode pkt pt (some b.cdata.next))).2
        cdata := (b.cdata.alloc (newCoded pkt)).2 }
      [⟨b.nodes.next, Frame.new pkt pt, [b.cdata.next]⟩] := by
  refine ⟨by simp [Heap.view, newNode, PbufNode.link], rfl, rfl, fun x hx => ?_, by simp,
    by simp, fun a ha => ?_, fun c hc => ?_⟩
  · simp only [List.mem_singleton] at hx; subst hx
    exact ⟨newNode pkt pt (some b.cdata.next), by simp, rfl, rfl, codedRep_single (by simp)⟩
  · by_contra e
    simp only [List.map_cons, List.map_nil, List.mem_singleton] at e
    simp only [Heap.alloc_cells, Function.update_noteq e] at ha
    simpa using h.nodesDom a ha
  · by_contra e
    simp only [List.map_cons, List.map_nil, List.flatten_cons, List.flatten_nil, List.append_nil,
      List.mem_singleton] at e
    simp only [Heap.alloc_cells, Function.update_noteq e] at hc
    simpa using h.cdataDom c hc

/-- The stores of `pbuf_insert` that append a new tail frame: the old tail `y` points at it
and is marked completed. -/
theorem Layout.push {b : Pbuf} {L : List Held} {y : Held} {m : PbufNode}
    (h : Layout b (L ++ [y])) (hm : b.nodes.cells y.addr = some m) (pkt : RtpPacket) (pt : Int) :
    Layout { b with
        last := some b.nodes.next
        nodes := ((b.nodes.alloc (newNode pkt pt (some b.cdata.next))).2.write y.addr
            { m with nxt := some b.nodes.next, completed := true }).write b.nodes.next
            { newNode pkt pt (some b.cdata.next) with prv := some y.addr }
        cdata := (b.cdata.alloc (newCoded pkt)).2 }
      (L ++ [⟨y.addr, { y.frame with completed := true }, y.cells⟩,
        ⟨b.nodes.next, Frame.new pkt pt, [b.cdata.next]⟩]) := by
  -- the held nodes and packet cells are allocated, the new ones are not
  have hold : ∀ a ∈ (L ++ [y]).map Held.addr, a ≠ b.nodes.next := fun a ha e => by
    have := seg_isSome h.seg ha; simp [e, Heap.view, b.nodes.cells_next] at this
  have hcold : ∀ c ∈ ((L ++ [y]).map Held.cells).flatten, c ≠ b.cdata.next := fun c hc e => by
    obtain ⟨x, hx, hcx⟩ := mem_flatten_cells.mp hc
    have := (h.held x hx).cells_isSome hcx; simp [e, b.cdata.cells_next] at this
  have hyt : y.addr ≠ b.nodes.next := hold y.addr (by simp)
  have hnd := h.nodup
  simp only [List.map_append, List.map_cons, List.map_nil] at hnd
  have hyL : y.addr ∉ L.map Held.addr := fun hm' => (List.nodup_append.mp hnd).2.2 hm' (by simp)
  have hcn := h.cnodup
  simp only [List.map_append, List.map_cons, List.map_nil, List.flatten_append,
    List.flatten_cons, List.flatten_nil, List.append_nil] at hcn
  obtain ⟨m', hm', hfr, hcd, hrep⟩ := h.held y (by simp)
  obtain rfl : m' = m := Option.some.inj (hm'.symm.trans hm)
  have hrep' : ∀ x ∈ L ++ [y], CodedRep b.cdata x.cells x.frame.packets →
      CodedRep (b.cdata.alloc (newCoded pkt)).2 x.cells x.frame.packets := fun x hx hr =>
    hr.congr fun c hc => by
      simp [Function.update_noteq (hcold c (mem_flatten_cells.mpr ⟨x, hx, hc⟩))]
  refine ⟨?_, ?_, by simp, fun x hx => ?_, ?_, ?_, fun a ha => ?_, fun c hc => ?_⟩
  · -- the old tail now points at the new frame, which points back at it
    have hs := h.seg
    simp only [List.map_append, List.map_cons, List.map_nil] at hs ⊢
    rw [← List.singleton_append, ← List.append_assoc, seg_concat]
    refine ⟨seg_setLast hs hnd (fun a ha ha' => ?_) fun l hl => ?_, ?_⟩
    · have hay : a ≠ y.addr := fun e => ha' (by simp [e])
      simp [Heap.view, hay, hold a (by simpa using ha)]
    · simp only [List.getLast?_append, List.getLast?_singleton, Option.or_some, Option.mem_def,
        Option.some.injEq] at hl
      subst hl
      simp [Heap.view, hyt, hm, PbufNode.link]
    · simp [Heap.view, newNode, PbufNode.link, hyt.symm]
  · simpa using h.frst
  · simp only [List.mem_append, List.mem_cons, List.not_mem_nil, or_false] at hx
    rcases hx with hx | rfl | rfl
    · obtain ⟨n, hn, hnf, hnc, hnr⟩ := h.held x (by simp [hx])
      have hxy : x.addr ≠ y.addr := fun e => hyL (e ▸ List.mem_map_of_mem _ hx)
      have hxt : x.addr ≠ b.nodes.next := hold x.addr (by simp [List.mem_map_of_mem _ hx])
      exact ⟨n, by simp [hxy, hxt, hn], hnf, hnc, hrep' x (by simp [hx]) hnr⟩
    · refine ⟨{ m' with nxt := some b.nodes.next, completed := true }, by simp [hyt, hm], ?_, hcd,
        hrep' y (by simp) hrep⟩
      rw [← hfr]; rfl
    · exact ⟨{ newNode pkt pt (some b.cdata.next) with prv := some y.addr }, by simp [hyt.symm],
        rfl, rfl, codedRep_single (by simp)⟩
  · simp only [List.map_append, List.map_cons, List.map_nil]
    rw [← List.singleton_append, ← List.append_assoc]
    exact List.nodup_append.mpr ⟨hnd, List.nodup_singleton _, fun a ha hb =>
      hold a (by simpa using ha) (List.mem_singleton.mp hb)⟩
  · simp only [List.map_append, List.map_cons, List.map_nil, List.flatten_append,
      List.flatten_cons, List.flatten_nil, List.append_nil]
    rw [← List.append_assoc]
    exact List.nodup_append.mpr ⟨hcn, List.nodup_singleton _, fun c hc hb =>
      hcold c (by simpa using hc) (List.mem_singleton.mp hb)⟩
  · have := h.nodesDom a
    simp only [Heap.write_cells_apply, Heap.alloc_cells] at ha
    simp only [List.map_append, List.map_cons, List.map_nil, List.mem_append, List.mem_cons,
      List.not_mem_nil, or_false] at this ⊢
    by_cases e : a = b.nodes.next
    · exact .inr (.inr e)
    · by_cases e' : a = y.addr
      · exact .inr (.inl e')
      · simp only [e, e', false_and, if_false, Function.update_noteq e] at ha
        rcases this ha with h' | h'
        · exact .inl h'
        · exact absurd h' e'
  · simp only [List.map_append, List.map_cons, List.map_nil, List.flatten_append,
      List.flatten_cons, List.flatten_nil, List.append_nil, List.mem_append,
      List.mem_singleton] at hc ⊢
    by_cases e : c = b.cdata.next
    · exact .inr (.inr e)
    · simp only [Heap.alloc_cells, Function.update_noteq e] at hc
      have := h.cdataDom c hc
      simp only [List.map_append, List.map_cons, List.map_nil, List.flatten_append,
        List.flatten_cons, List.flatten_nil, List.append_nil, List.mem_append] at this
      tauto

/-! ## The packets of one frame -/

/-- The packets of one timestamp routed to a frame that `create_new_pnode` made for the first
of them, each with whether the `malloc` of its cell succeeds: when all their numbers lie in a
window of `2^15`, the frame ends up holding, for each number among the first packet and the
packets whose `malloc` succeeded, the first of them with that number, in strictly descending
wrap-around order. -/
theorem addCodedUnit_filed {b : Pbuf} {P S : List Held} {x : Held} {p₀ : RtpPacket}
    {qs : List (RtpPacket × Bool)} {base : UInt16} (h : Layout b (P ++ x :: S))
    (hp₀ : x.frame.packets = [p₀]) (hts : ∀ q ∈ qs, q.1.ts = x.frame.rtpTimestamp)
    (hw : ∀ q ∈ p₀ :: qs.map Prod.fst, InWindow base q.seq) :
    ∃ b' x', qs.foldlM (fun b q => addCodedUnit b (some x.addr) q.1 q.2) b = some b' ∧
      x'.addr = x.addr ∧ Layout b' (P ++ x' :: S) ∧
      Filed base (p₀ :: (qs.filter fun q => q.2).map Prod.fst) x'.frame.packets ∧
      x'.frame.packets.Pairwise fun p q => 0 < int16Diff p.seq q.seq := by
  obtain ⟨b', x', e, ha, hp, hl⟩ := foldAddCodedUnit_spec qs b x h hts (by simp [hp₀])
  have hsub : ∀ q ∈ p₀ :: (qs.filter fun q => q.2).map Prod.fst, InWindow base q.seq := fun q hq =>
    hw q ((((List.filter_sublist qs).map Prod.fst).cons_cons p₀).subset hq)
  have hf : Filed base (p₀ :: (qs.filter fun q => q.2).map Prod.fst) x'.frame.packets := by
    rw [hp, hp₀]; simpa using (filed_singleton p₀).foldl _ (by simpa using hsub)
  exact ⟨b', x', e, ha, hl, hf, hf.desc.pairwise_int16Diff fun q hq =>
    hsub q (List.mem_of_find?_eq_some (hf.first q hq))⟩

/-- The frame `create_new_pnode` starts for the packet `⟨100, 0, false, 0, []⟩` in an empty buffer. -/
def oneFrame : Pbuf :=
  { pbufInit with
    frst := some 0, last := some 0
    nodes := (pbufInit.nodes.alloc (newNode ⟨100, 0, false, 0, []⟩ 0 (some 0))).2
    cdata := (pbufInit.cdata.alloc (newCoded ⟨100, 0, false, 0, []⟩)).2 }

theorem addCodedUnit_filed_wrap :
    ∃ b' x', [(⟨100, 1, false, 0, []⟩, true), (⟨100, 65535, false, 0, []⟩, true),
        (⟨100, 2, false, 0, []⟩, false), (⟨100, 1, true, 0, []⟩, true)].foldlM
        (fun b q => addCodedUnit b (some 0) q.1 q.2) oneFrame = some b' ∧
      x'.addr = 0 ∧ Layout b' ([] ++ x' :: []) ∧
      Filed 65535 [⟨100, 0, false, 0, []⟩, ⟨100, 1, false, 0, []⟩, ⟨100, 65535, false, 0, []⟩,
        ⟨100, 1, true, 0, []⟩] x'.frame.packets ∧
      x'.frame.packets.Pairwise fun p q => 0 < int16Diff p.seq q.seq :=
  @addCodedUnit_filed _ [] [] ⟨0, Frame.new ⟨100, 0, false, 0, []⟩ 0, [0]⟩ ⟨100, 0, false, 0, []⟩
    [(⟨100, 1, false, 0, []⟩, true), (⟨100, 65535, false, 0, []⟩, true),
      (⟨100, 2, false, 0, []⟩, false), (⟨100, 1, true, 0, []⟩, true)] 65535
    (Layout.single layout_pbufInit _ 0) rfl (by decide) (by decide)

/-- A packet of a new number whose cell cannot be allocated is dropped: after it the frame still
holds its one packet, so the number of a packet routed to it is missing. -/
theorem addCodedUnit_malloc_fail_drops :
    [((⟨100, 1, false, 0, []⟩ : RtpPacket), false)].foldlM
        (fun b q => addCodedUnit b (some 0) q.1 q.2) oneFrame = some oneFrame ∧
      Layout oneFrame [⟨0, Frame.new ⟨100, 0, false, 0, []⟩ 0, [0]⟩] :=
  ⟨rfl, Layout.single layout_pbufInit _ 0⟩

/-! ## The backward scan -/

/-- The scan from the frame `z`, the frames `P` before it, stops at the last frame of
`P ++ [z]` that is the first frame or has a timestamp not after `ts`. -/
theorem scanBack_spec {b : Pbuf} (ts : UInt32) :
    ∀ (fuel : Nat) (P : List Held) (z : Held) (S : List Held),
    Layout b (P ++ z :: S) → P.length < fuel →
    ∃ Q w R, P ++ [z] = Q ++ w :: R ∧ (∀ v ∈ R, ts < v.frame.rtpTimestamp) ∧
      (Q = [] ∨ w.frame.rtpTimestamp ≤ ts) ∧
      scanBack b.nodes b.frst ts fuel (some z.addr) = some (some w.addr)
  | 0, _, _, _, _, hf => absurd hf (Nat.not_lt_zero _)
  | fuel + 1, P, z, S, h, hf => by
    obtain ⟨m, hm, hfr, -⟩ := h.node (List.mem_append_right P (List.mem_cons_self z S))
    have hts : m.rtpTimestamp = z.frame.rtpTimestamp := by rw [← hfr]; rfl
    rcases P.eq_nil_or_concat with rfl | ⟨P', y, e⟩
    · exact ⟨[], z, [], rfl, by simp, .inl rfl, by simp [scanBack, h.frst]⟩
    · rw [List.concat_eq_append] at e; subst e
      -- `z` is not the first frame
      have hfrst : b.frst ≠ some z.addr := by
        obtain ⟨a, as, ha⟩ := List.exists_cons_of_ne_nil
          (show (P' ++ [y]).map Held.addr ≠ [] by simp)
        have hnd := h.nodup
        rw [List.map_append, ha, List.cons_append, List.nodup_cons] at hnd
        rw [h.frst, List.map_append, ha]
        intro e; simp only [List.cons_append, List.head?_cons, Option.some.injEq] at e
        exact hnd.1 (by simp [e])
      have hprv : m.prv = some y.addr := by
        have := h.nxt_prv; simp [Heap.view, hm, PbufNode.link] at this; exact this.1
      by_cases hlt : ts < m.rtpTimestamp
      · obtain ⟨Q, w, R, e, hR, hQ, hs⟩ :=
          scanBack_spec ts fuel P' y (z :: S) (by simpa using h) (by simp at hf; omega)
        refine ⟨Q, w, R ++ [z], by rw [e]; simp, fun v hv => ?_, hQ, ?_⟩
        · rcases List.mem_append.mp hv with hv | hv
          · exact hR v hv
          · rw [List.mem_singleton.mp hv, ← hts]; exact hlt
        · simp [scanBack, Ne.symm hfrst, hm, hlt, hprv, hs]
      · refine ⟨P' ++ [y], z, [], rfl, by simp, .inr (hts ▸ UInt32.not_lt.mp hlt), ?_⟩
        simp [scanBack, Ne.symm hfrst, hm, hlt]

/-! ## `pbuf_insert` -/

/-- A packet not later than the tail frame goes, whatever the allocations do, to the held frame
of its timestamp, found at the tail or by the backward scan, through `add_coded_unit`; when no
frame has its timestamp it is dropped. -/
theorem insertFrame_route {b : Pbuf} {L₀ : List Held} {y : Held} (h : Layout b (L₀ ++ [y]))
    (hw : Wf (frames (L₀ ++ [y]))) {pkt : RtpPacket} (hlt : ¬ y.frame.rtpTimestamp < pkt.ts)
    (now offsetMs : Int) (mallocOk : Bool) :
    (∃ Q w R, L₀ ++ [y] = Q ++ w :: R ∧ w.frame.rtpTimestamp = pkt.ts ∧
        insertFrame b pkt now offsetMs mallocOk = addCodedUnit b (some w.addr) pkt mallocOk) ∨
      ((∀ x ∈ frames (L₀ ++ [y]), x.2.rtpTimestamp ≠ pkt.ts) ∧
        insertFrame b pkt now offsetMs mallocOk = some b) := by
  obtain ⟨m, hm, hfr, -⟩ := h.node (List.mem_append_right L₀ (List.mem_singleton_self y))
  have hts : m.rtpTimestamp = y.frame.rtpTimestamp := by rw [← hfr]; rfl
  have hlast : b.last = some y.addr := by simp [h.last]
  simp only [insertFrame, hlast, reduceCtorEq, and_false, if_false, Heap.deref_some, hm,
    Option.bind_eq_bind, Option.some_bind, hts]
  by_cases heq : y.frame.rtpTimestamp = pkt.ts
  · -- the tail's timestamp
    rw [if_pos heq]
    exact .inl ⟨L₀, y, [], rfl, heq, rfl⟩
  rw [if_neg heq, if_neg hlt]
  obtain ⟨x₀, L₁, hx₀⟩ : ∃ x₀ L₁, L₀ ++ [y] = x₀ :: L₁ := List.exists_cons_of_ne_nil (by simp)
  obtain ⟨f₀, hf₀, hfr₀, -⟩ := h.node (hx₀ ▸ List.mem_cons_self x₀ L₁)
  have hts₀ : f₀.rtpTimestamp = x₀.frame.rtpTimestamp := by rw [← hfr₀]; rfl
  have hfrst : b.frst = some x₀.addr := by rw [h.frst, hx₀]; rfl
  have hafter := (hw.lt_of_eq (show frames (L₀ ++ [y]) = [] ++ (x₀.addr, x₀.frame) :: frames L₁ by
    rw [hx₀]; rfl)).2
  simp only [hfrst, Heap.deref_some, hf₀, Option.some_bind, hts₀]
  by_cases hold : pkt.ts < x₀.frame.rtpTimestamp
  · -- older than every held frame
    rw [if_pos hold]
    refine .inr ⟨fun x hx => ?_, rfl⟩
    rw [hx₀] at hx
    rcases List.mem_cons.mp hx with rfl | hx
    · exact (UInt32.ne_of_lt hold).symm
    · exact (UInt32.ne_of_lt (UInt32.lt_trans hold (hafter x hx))).symm
  rw [if_neg hold]
  obtain ⟨Q, w, R, eQ, hR, hQ, hs⟩ := scanBack_spec pkt.ts b.nodes.next L₀ y []
    (by simpa using h) (by have := h.length_le; simp at this; omega)
  rw [hfrst] at hs
  rw [hs, Option.some_bind]
  obtain ⟨mw, hmw, hfrw, -⟩ :=
    (eQ ▸ h : Layout b (Q ++ w :: R)).node (List.mem_append_right Q (List.mem_cons_self w R))
  have htsw : mw.rtpTimestamp = w.frame.rtpTimestamp := by rw [← hfrw]; rfl
  simp only [Heap.deref_some, hmw, Option.some_bind, htsw]
  by_cases hwt : w.frame.rtpTimestamp = pkt.ts
  · -- the scan found the packet's frame
    rw [if_pos hwt]
    exact .inl ⟨Q, w, R, eQ, hwt, rfl⟩
  -- the frame it stopped at has an earlier timestamp: there is no frame of the packet's
  rw [if_neg hwt]
  have hsort := hw.lt_of_eq
    (show frames (L₀ ++ [y]) = frames Q ++ (w.addr, w.frame) :: frames R by rw [eQ]; simp)
  have hwle : w.frame.rtpTimestamp ≤ pkt.ts := by
    rcases hQ with rfl | hQ
    · rw [hx₀, List.nil_append, List.cons.injEq] at eQ
      rw [← eQ.1]; exact UInt32.not_lt.mp hold
    · exact hQ
  refine .inr ⟨fun x hx => ?_, rfl⟩
  rw [eQ, frames_append, frames_cons] at hx
  rcases List.mem_append.mp hx with hx | hx
  · have : x.2.rtpTimestamp < w.frame.rtpTimestamp := hsort.1 x hx
    rw [uint32_lt_iff] at this; rw [uint32_le_iff] at hwle; rw [Ne, uint32_eq_iff]; omega
  · rcases List.mem_cons.mp hx with rfl | hx
    · exact hwt
    · obtain ⟨v, hv, rfl⟩ := List.mem_map.mp hx
      exact (UInt32.ne_of_lt (hR v hv)).symm

/-- With the allocations succeeding, the frame part of `pbuf_insert` on a represented,
well-formed buffer files the packet as `fileFrame` does; a new frame gets the next node
address. -/
theorem insertFrame_spec {b : Pbuf} {L : List Held} (h : Layout b L) (hw : Wf (frames L))
    (pkt : RtpPacket) (now offsetMs : Int) :
    ∃ frst last nodes cdata L', insertFrame b pkt now offsetMs true =
        some { b with frst, last, nodes, cdata } ∧
      Layout { b with frst, last, nodes, cdata } L' ∧
      frames L' = fileFrame (frames L) pkt b.nodes.next
        (now + (b.playoutDelayUs + 1000 * offsetMs) * 1000) ∧
      b.nodes.next ≤ nodes.next := by
  rcases L.eq_nil_or_concat with rfl | ⟨L₀, y, e⟩
  · refine ⟨_, _, _, _, _, ?_, h.single pkt _, rfl, by simp⟩
    simp [insertFrame, h.frst, h.last, createNewPnode_true]
  rw [List.concat_eq_append] at e; subst e
  by_cases hlt : y.frame.rtpTimestamp < pkt.ts
  · -- a later timestamp: a new tail frame
    obtain ⟨m, hm, hfr, -⟩ := h.node (List.mem_append_right L₀ (List.mem_singleton_self y))
    have hts : m.rtpTimestamp = y.frame.rtpTimestamp := by rw [← hfr]; rfl
    have hlast : b.last = some y.addr := by simp [h.last]
    have hyt : y.addr ≠ b.nodes.next := fun e => by simp [e, b.nodes.cells_next] at hm
    simp only [insertFrame, hlast, reduceCtorEq, and_false, if_false, Heap.deref_some, hm,
      Option.bind_eq_bind, Option.some_bind, hts, if_neg (UInt32.ne_of_lt hlt), if_pos hlt]
    simp only [createNewPnode_true, Pbuf.modifyNode_some, Heap.alloc_cells,
      Function.update_noteq hyt, hm, Option.map_some', Option.some_bind, Heap.write_cells_apply,
      Function.update_same, Option.pure_def, hyt.symm, false_and, if_false, Option.isSome_some,
      and_self, if_true]
    refine ⟨_, _, _, _, _, rfl, h.push hm pkt _, ?_, by simp⟩
    have hbefore := (hw.lt_of_eq
      (show frames (L₀ ++ [y]) = frames L₀ ++ (y.addr, y.frame) :: [] by simp)).1
    simp only [frames_append, frames_cons, frames_nil]
    have hu : ∀ x ∈ frames L₀ ++ [(y.addr, y.frame)], x.2.rtpTimestamp ≠ pkt.ts := fun x hx => by
      rcases List.mem_append.mp hx with hx | hx
      · exact UInt32.ne_of_lt (UInt32.lt_trans (hbefore x hx) hlt)
      · rw [List.mem_singleton.mp hx]; exact UInt32.ne_of_lt hlt
    exact (fileFrame_push hu hlt _ _).symm
  rcases insertFrame_route h hw hlt now offsetMs true with ⟨Q, w, R, eQ, hwt, e⟩ | ⟨hu, e⟩
  · -- `add_coded_unit` on the held frame of the packet's timestamp
    have hsort := hw.lt_of_eq
      (show frames (L₀ ++ [y]) = frames Q ++ (w.addr, w.frame) :: frames R by rw [eQ]; simp)
    obtain ⟨nodes, cdata, cells, e', hnext, hl⟩ := addCodedUnit_spec (eQ ▸ h) hwt
      (hw.packets (w.addr, w.frame) (by rw [eQ]; simp)).1
    refine ⟨_, _, nodes, cdata, _, e.trans e', hl, ?_, hnext.ge⟩
    have hu : ∀ x ∈ frames Q ++ frames R, x.2.rtpTimestamp ≠ pkt.ts := fun x hx => by
      rcases List.mem_append.mp hx with hx | hx
      · exact UInt32.ne_of_lt (hwt ▸ hsort.1 x hx)
      · exact (UInt32.ne_of_lt (hwt ▸ hsort.2 x hx)).symm
    rw [eQ, frames_append, frames_append, frames_cons, frames_cons, fileFrame_of_mem hwt hu]
  · -- no frame of the packet's timestamp: the packet is dropped
    refine ⟨b.frst, b.last, b.nodes, b.cdata, _, e, h, ?_, le_rfl⟩
    simp only [frames_append, frames_cons, frames_nil] at hu ⊢
    exact (fileFrame_drop hu hlt _ _).symm

/-- When the `malloc` of `create_new_pnode` fails for a packet that opens a new tail frame,
`pbuf_insert` stores through the `NULL` it returned. -/
theorem insertFrame_newTail_malloc_fail {b : Pbuf} {L₀ : List Held} {y : Held} {pkt : RtpPacket}
    (h : Layout b (L₀ ++ [y])) (hlt : y.frame.rtpTimestamp < pkt.ts) (now offsetMs : Int) :
    insertFrame b pkt now offsetMs false = none := by
  obtain ⟨m, hm, hfr, -⟩ := h.node (List.mem_append_right L₀ (List.mem_singleton_self y))
  have hts : m.rtpTimestamp = y.frame.rtpTimestamp := by rw [← hfr]; rfl
  have hyt : y.addr ≠ b.nodes.next := fun e => by simp [e, b.nodes.cells_next] at hm
  have hlast : b.last = some y.addr := by simp [h.last]
  simp [insertFrame, hlast, hm, hts, hlt, UInt32.ne_of_lt hlt, createNewPnode_false, hyt]

/-- The packet opens a new tail frame: the tail frame's timestamp is earlier. -/
def NewTail (F : List (Nat × Frame)) (pkt : RtpPacket) : Bool :=
  match F.getLast? with
  | some (_, fl) => fl.rtpTimestamp < pkt.ts
  | none => false

/-- When its allocation fails, the frame part of `pbuf_insert` on a represented, well-formed
buffer crashes for a packet that opens a new tail frame and keeps every frame otherwise:
`add_coded_unit` or the scan drops the packet, and the frame `create_new_pnode` starts in an
empty buffer is deleted again, leaving a node address used. -/
theorem insertFrame_false {b : Pbuf} {L : List Held} (h : Layout b L) (hw : Wf (frames L))
    (pkt : RtpPacket) (now offsetMs : Int) :
    if NewTail (frames L) pkt then insertFrame b pkt now offsetMs false = none
    else ∃ nodes, insertFrame b pkt now offsetMs false = some { b with nodes } ∧
      nodes.cells = b.nodes.cells ∧ b.nodes.next ≤ nodes.next := by
  rcases L.eq_nil_or_concat with rfl | ⟨L₀, y, e⟩
  · -- `create_new_pnode` deletes the node it made
    rw [if_neg (by simp [NewTail])]
    refine ⟨(b.nodes.alloc (newNode pkt (now + (b.playoutDelayUs + 1000 * offsetMs) * 1000)
      none)).2.free b.nodes.next, ?_, by simp [Function.update_idem, b.nodes.cells_next], by simp⟩
    simp [insertFrame, h.frst, h.last, createNewPnode_false]
  rw [List.concat_eq_append] at e; subst e
  by_cases hlt : y.frame.rtpTimestamp < pkt.ts
  · simpa [NewTail, hlt] using insertFrame_newTail_malloc_fail h hlt now offsetMs
  rw [if_neg (by simp [NewTail, List.getLast?_concat, hlt])]
  refine ⟨b.nodes, ?_, rfl, le_rfl⟩
  rcases insertFrame_route h hw hlt now offsetMs false with ⟨Q, w, R, eQ, hwt, e⟩ | ⟨-, e⟩
  · rw [e]
    exact addCodedUnit_of_malloc_fail (eQ ▸ h) hwt
      (hw.packets (w.addr, w.frame) (by rw [eQ]; simp)).1
  · exact e

end UltraGrid.Rtp
