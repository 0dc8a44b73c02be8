import UltraGrid.Rtp.Pbuf.Layout

/-!
# The two scheduler passes refine the frame-list operations

`pbuf_decode` and `pbuf_remove` walk the frame list from `frst`. For every represented buffer
they end without undefined behaviour, and the buffer afterwards represents `decodeFrames` and
`removeFrames` of the frames before (`pbufDecode_spec`, `pbufRemove_spec`). The decode pass
changes frame headers only; the remove pass unlinks the leading evictable frames and frees
their nodes and packets.
-/

namespace UltraGrid.Rtp

/-! ## `pbuf_decode` -/

section Decode

variable (now : Int) (df : DecodeFrame)

/-- The decode loop from the frame `S.head`, the frames `P` before it already visited. -/
theorem decodeLoop_spec : ∀ (S P : List Held) (b : Pbuf) (fuel : Nat),
    Layout b (P ++ S) → S.length < fuel →
    ∃ nodes S' r, decodeLoop now df fuel b (S.map Held.addr).head? =
        some ⟨{ b with nodes }, r, (decodeFrames now (frames S)).2⟩ ∧
      nodes.next = b.nodes.next ∧ Layout { b with nodes } (P ++ S') ∧
      frames S' = (decodeFrames now (frames S)).1 ∧
      ((decodeFrames now (frames S)).2 = none ∧ r = 0 ∨
        ∃ x ∈ S, (decodeFrames now (frames S)).2 = some x.addr ∧
          r = df x.cells.head? ⟨b.receivedPktsCum, b.expectedPktsCum⟩)
  | [], P, b, fuel, h, hf => by
    obtain ⟨k, rfl⟩ : ∃ k, fuel = k + 1 := ⟨fuel - 1, by simp at hf; omega⟩
    exact ⟨b.nodes, [], 0, rfl, rfl, by simpa using h, rfl, .inl ⟨rfl, rfl⟩⟩
  | x :: S, P, b, fuel, h, hf => by
    obtain ⟨k, rfl⟩ : ∃ k, fuel = k + 1 := ⟨fuel - 1, by simp at hf; omega⟩
    obtain ⟨n, hn, hfr, hcd⟩ := h.node (List.mem_append_right P (List.mem_cons_self x S))
    have hnxt : n.nxt = (S.map Held.addr).head? := by
      have := h.nxt_prv; simp [Heap.view, hn, PbufNode.link] at this; simpa using this.2
    -- the rest of the walk, from the next frame, after the header of `x` became `x'`
    have rest : ∀ x' : Held, ∀ nodes, Layout { b with nodes } (P ++ x' :: S) →
        x'.addr = x.addr → nodes.next = b.nodes.next →
        ∃ nodes' S' r, decodeLoop now df k { b with nodes } n.nxt =
            some ⟨{ b with nodes := nodes' }, r, (decodeFrames now (frames S)).2⟩ ∧
          nodes'.next = b.nodes.next ∧ Layout { b with nodes := nodes' } (P ++ x' :: S') ∧
          frames S' = (decodeFrames now (frames S)).1 ∧
          ((decodeFrames now (frames S)).2 = none ∧ r = 0 ∨
            ∃ y ∈ S, (decodeFrames now (frames S)).2 = some y.addr ∧
              r = df y.cells.head? ⟨b.receivedPktsCum, b.expectedPktsCum⟩) := by
      intro x' nodes hl _ hnext
      obtain ⟨nodes', S', r, e, hn', hl', hS', hr⟩ :=
        decodeLoop_spec S (P ++ [x']) { b with nodes } k (by simpa using hl) (by simp at hf; omega)
      exact ⟨nodes', S', r, hnxt ▸ e, hn'.trans hnext, by simpa using hl', hS', hr⟩
    have hd : x.frame.decoded = n.decoded := by rw [← hfr]; rfl
    have hp : x.frame.playoutTime = n.playoutTime := by rw [← hfr]; rfl
    have hcomp : x.frame.complete = frameComplete n := by rw [← hfr]; rfl
    simp only [List.map_cons, List.head?_cons, decodeLoop, hn, Option.bind_eq_bind,
      Option.some_bind, frames_cons, decodeFrames, hd, hp, hcomp]
    by_cases hdue : (!n.decoded) = true ∧ now > n.playoutTime
    · rw [if_pos hdue, if_pos hdue]
      by_cases hc : frameComplete n = true
      · obtain ⟨nodes, e, hnext, hl⟩ := h.setHeader hn (fun n => { n with decoded := true }) rfl rfl
        rw [if_pos hc, if_pos hc, e, Option.some_bind]
        refine ⟨nodes, _ :: S, _, rfl, hnext, hl, ?_, .inr ⟨x, by simp, rfl, by rw [hcd]⟩⟩
        simp only [frames_cons]; rw [← hfr]; rfl
      · rw [if_neg hc, if_neg hc]
        by_cases hlate : now > n.playoutTime + oneSecond
        · obtain ⟨nodes, e, hnext, hl⟩ := h.setHeader hn (fun n => { n with completed := true }) rfl rfl
          rw [if_pos hlate, if_pos hlate, e, Option.some_bind]
          obtain ⟨nodes', S', r, e', hn', hl', hS', hr⟩ := rest _ nodes hl rfl hnext
          refine ⟨nodes', _ :: S', r, e', hn', hl', ?_, hr.imp id fun ⟨y, hy, hh, hr⟩ =>
            ⟨y, by simp [hy], hh, hr⟩⟩
          simp only [frames_cons, hS']; rw [← hfr]; rfl
        · rw [if_neg hlate, if_neg hlate, Option.pure_def, Option.some_bind]
          obtain ⟨nodes', S', r, e', hn', hl', hS', hr⟩ := rest x b.nodes h rfl rfl
          exact ⟨nodes', _ :: S', r, e', hn', hl', by simp only [frames_cons, hS']; rfl,
            hr.imp id fun ⟨y, hy, hh, hr⟩ => ⟨y, by simp [hy], hh, hr⟩⟩
    · rw [if_neg hdue, if_neg hdue]
      obtain ⟨nodes', S', r, e', hn', hl', hS', hr⟩ := rest x b.nodes h rfl rfl
      exact ⟨nodes', _ :: S', r, e', hn', hl', by simp only [frames_cons, hS']; rfl,
        hr.imp id fun ⟨y, hy, hh, hr⟩ => ⟨y, by simp [hy], hh, hr⟩⟩

/-- `pbuf_decode` on a represented buffer: it hands the frame `decodeFrames` picks to the
callback, with that frame's packet list, and changes only frame headers. -/
theorem pbufDecode_spec {b : Pbuf} {L : List Held} (h : Layout b L) :
    ∃ nodes L', pbufDecode b now df = some ⟨{ b with nodes },
        ((decodeFrames now (frames L)).2.map fun a =>
          df ((b.nodes.cells a).bind PbufNode.cdata) ⟨b.receivedPktsCum, b.expectedPktsCum⟩).getD 0,
        (decodeFrames now (frames L)).2⟩ ∧
      nodes.next = b.nodes.next ∧ Layout { b with nodes } L' ∧
      frames L' = (decodeFrames now (frames L)).1 := by
  obtain ⟨nodes, L', r, e, hn, hl, hL, hr⟩ :=
    decodeLoop_spec now df L [] b (b.nodes.next + 1) (by simpa using h) (by have := h.length_le; omega)
  refine ⟨nodes, L', ?_, hn, by simpa using hl, hL⟩
  have hf : b.frst = (L.map Held.addr).head? := h.frst
  rw [pbufDecode, hf, e]
  rcases hr with ⟨hh, rfl⟩ | ⟨x, hx, hh, rfl⟩
  · simp [hh, hf]
  · obtain ⟨n, hn', -, hc⟩ := h.node hx
    simp [hh, hn', hc, hf]

end Decode

/-! ## `pbuf_remove` -/

/-- `free_cdata` frees exactly the cells of the list it walks. -/
theorem freeCdata_spec : ∀ (cs : List Nat) (h : Heap CodedData) (p : Option Nat) (fuel : Nat),
    Seg (h.view CodedData.link) p cs none → cs.Nodup → cs.length < fuel →
    ∃ h', freeCdata h fuel cs.head? = some h' ∧ h'.next = h.next ∧
      ∀ c, h'.cells c = if c ∈ cs then none else h.cells c
  | [], h, _, fuel, _, _, hf => by
    obtain ⟨k, rfl⟩ : ∃ k, fuel = k + 1 := ⟨fuel - 1, by simp at hf; omega⟩
    exact ⟨h, rfl, rfl, by simp⟩
  | c :: cs, h, p, fuel, hs, hd, hf => by
    obtain ⟨k, rfl⟩ : ∃ k, fuel = k + 1 := ⟨fuel - 1, by simp at hf; omega⟩
    obtain ⟨hc, hs⟩ := seg_cons.mp hs
    obtain ⟨d, hd', e⟩ := Option.map_eq_some'.mp hc
    rw [List.nodup_cons] at hd
    have hs' : Seg ((h.free c).view CodedData.link) (some c) cs none := by
      rw [Heap.view_free, seg_update_of_not_mem hd.1]; exact hs
    obtain ⟨h', e', hn, hc'⟩ := freeCdata_spec cs (h.free c) (some c) k hs' hd.2 (by simp at hf; omega)
    have hnxt : d.nxt = cs.head? := by simp [CodedData.link] at e; exact e.2
    refine ⟨h', by simp [freeCdata, hd', hnxt, e'], hn, fun c' => ?_⟩
    rw [hc']; by_cases e1 : c' = c
    · subst e1; simp [hd.1]
    · simp [e1, Function.update_noteq e1]

/-- Unlinking and freeing the first frame leaves the rest represented. -/
theorem Layout.unlinkHead {b : Pbuf} {x : Held} {S : List Held} (h : Layout b (x :: S))
    (nodes : Heap PbufNode) (cdata : Heap CodedData)
    (hnodes : ∀ a, nodes.cells a = if a = x.addr then none
      else if some a = (S.map Held.addr).head? then (b.nodes.cells a).map fun m => { m with prv := none }
      else b.nodes.cells a)
    (hcdata : ∀ c, cdata.cells c = if c ∈ x.cells then none else b.cdata.cells c) :
    Layout { b with frst := (S.map Held.addr).head?, last := (S.map Held.addr).getLast?, nodes, cdata } S := by
  have hnd := h.nodup
  have hcnd := h.cnodup
  simp only [List.map_cons, List.nodup_cons, List.flatten_cons, List.nodup_append] at hnd hcnd
  have hdisj : ∀ z ∈ S, ∀ c ∈ z.cells, c ∉ x.cells := fun z hz c hc hcx =>
    hcnd.2.2 hcx (List.mem_flatten.mpr ⟨z.cells, List.mem_map_of_mem _ hz, hc⟩)
  have hne : ∀ z ∈ S, z.addr ≠ x.addr := fun z hz e => hnd.1 (e ▸ List.mem_map_of_mem _ hz)
  refine ⟨?_, rfl, rfl, fun z hz => ?_, hnd.2, hcnd.2.1, fun a ha => ?_, fun c hc => ?_⟩
  · have hs := (seg_cons.mp h.seg).2
    cases S with
    | nil => trivial
    | cons y S₀ =>
      simp only [List.map_cons, seg_cons, List.head?_cons] at hs ⊢
      simp only [List.map_cons, List.nodup_cons, List.mem_cons, not_or] at hnd
      refine ⟨?_, (seg_congr fun a ha => ?_).mpr hs.2⟩
      · have := hs.1
        simp only [Heap.view, hnodes, if_neg (hne y (by simp)), if_true] at this ⊢
        obtain ⟨m, hm, e⟩ := Option.map_eq_some'.mp this
        simp only [PbufNode.link, Prod.mk.injEq] at e
        simp [hm, PbufNode.link, e.2]
      · have h1 : a ≠ x.addr := fun e => hnd.1.2 (e ▸ ha)
        have h2 : some a ≠ some y.addr := fun e => hnd.2.1 (Option.some.inj e ▸ ha)
        simp [Heap.view, hnodes, h1, h2]
  · obtain ⟨n, hn, -, -⟩ := h.node (List.mem_cons_of_mem x hz)
    have e := hnodes z.addr
    rw [if_neg (hne z hz)] at e
    have ec : ∀ c ∈ z.cells, cdata.cells c = b.cdata.cells c := fun c hc => by
      simp [hcdata, hdisj z hz c hc]
    split_ifs at e
    · have e' : nodes.cells z.addr = some { n with prv := none } := by simp [e, hn]
      exact (h.held z (List.mem_cons_of_mem x hz)).congrNode hn e' rfl rfl ec
    · exact (h.held z (List.mem_cons_of_mem x hz)).congrNode hn (e.trans hn) rfl rfl ec
  · have e := hnodes a
    split_ifs at e with h1 h2
    · simp [e] at ha
    · have := h.nodesDom a (by simpa [e] using ha)
      simpa [h1] using this
    · have := h.nodesDom a (by simpa [e] using ha)
      simpa [h1] using this
  · have e := hcdata c
    split_ifs at e with h1
    · simp [e] at hc
    · have := h.cdataDom c (by simpa [e] using hc)
      simpa [h1] using this


/-- One round of `pbuf_remove` on the first frame of a represented buffer: the rest of the
frames stay represented, with `frst` and `last` at their ends. -/
theorem unlinkFrame_spec {b : Pbuf} {x : Held} {S : List Held} {n : PbufNode}
    (h : Layout b (x :: S)) (hn : b.nodes.cells x.addr = some n) :
    ∃ nodes cdata,
      unlinkFrame b x.addr n =
        some { b with frst := (S.map Held.addr).head?, last := (S.map Held.addr).getLast?,
                      nodes, cdata } ∧ nodes.next = b.nodes.next ∧
      Layout { b with frst := (S.map Held.addr).head?, last := (S.map Held.addr).getLast?,
                      nodes, cdata } S := by
  have hl := Layout.nxt_prv (show Layout b ([] ++ x :: S) from h)
  simp only [Heap.view, hn, Option.map_some', PbufNode.link, Option.some.injEq, Prod.mk.injEq,
    List.map_nil, List.getLast?_nil] at hl
  obtain ⟨hprv, hnxt⟩ := hl
  obtain ⟨m, hm, -, hcd, hrep⟩ := h.held x (by simp)
  rw [hn, Option.some.injEq] at hm
  subst hm
  have hcnd := h.cnodup
  simp only [List.map_cons, List.flatten_cons, List.nodup_append] at hcnd
  obtain ⟨cdata, ef, -, hcells⟩ := freeCdata_spec x.cells b.cdata none (b.cdata.next + 1) hrep.1 hcnd.1
    (by have := Heap.length_le_next hcnd.1 fun c hc => by
          simpa [Heap.view] using seg_isSome hrep.1 hc
        omega)
  have hfrst : b.frst = some x.addr := by simp [h.frst]
  cases S with
  | nil =>
    have hlast : b.last = some x.addr := by simp [h.last]
    refine ⟨b.nodes.free x.addr, cdata, ?_, rfl, h.unlinkHead _ _ (fun a => ?_) hcells⟩
    · simp [unlinkFrame, hfrst, hlast, hnxt, hprv, hcd, ef]
    · by_cases e : a = x.addr <;> simp [e, Function.update_noteq]
  | cons y S₀ =>
    have hnd := h.nodup
    simp only [List.map_cons, List.nodup_cons, List.mem_cons, not_or] at hnd
    have hlast' : b.last = ((y :: S₀).map Held.addr).getLast? := by
      rw [h.last]; simp [List.getLast?_cons_cons]
    have hlast : b.last ≠ some x.addr := fun e => by
      rw [hlast'] at e
      obtain ⟨ys, hys⟩ := List.getLast?_eq_some_iff.mp e
      have : x.addr ∈ (y :: S₀).map Held.addr := by rw [hys]; simp
      simp only [List.map_cons, List.mem_cons] at this
      exact this.elim hnd.1.1 hnd.1.2
    obtain ⟨k, hk, -, -⟩ := h.node (List.mem_cons_of_mem x (List.mem_cons_self y S₀))
    simp only [List.map_cons, List.head?_cons] at hnxt
    obtain ⟨nodes₁, e₁, hc₁, hx₁⟩ := Pbuf.modifyNode_eq
      (show ({ b with frst := some y.addr } : Pbuf).nodes.cells y.addr = some k from hk)
      fun m => { m with prv := n.prv }
    refine ⟨nodes₁.free x.addr, cdata, ?_, hx₁, h.unlinkHead _ _ (fun a => ?_) hcells⟩
    · simp only [unlinkFrame, if_pos hfrst, hnxt, Option.bind_eq_bind]
      rw [if_neg (show ({ b with frst := some y.addr } : Pbuf).last ≠ some x.addr from hlast),
        if_pos (by simp), e₁, Option.some_bind, hprv, if_neg (by simp),
        Option.pure_def, Option.some_bind]
      simp only [hcd, ef, Option.some_bind, hlast']
      rfl
    · by_cases e : a = x.addr
      · simp [e]
      · by_cases e' : a = y.addr
        · subst e'; simp [e, hc₁, hk, hprv]
        · simp [e, e', hc₁, Function.update_noteq e']


/-- The loop of `pbuf_remove` evicts exactly the leading evictable frames. -/
theorem removeLoop_spec (now : Int) : ∀ (L : List Held) (b : Pbuf) (fuel : Nat),
    Layout b L → L.length < fuel →
    ∃ frst last nodes cdata,
      removeLoop now fuel b (L.map Held.addr).head? = some { b with frst, last, nodes, cdata } ∧
      nodes.next = b.nodes.next ∧ Layout { b with frst, last, nodes, cdata } (L.dropWhile fun x => Evictable now x.frame)
  | [], b, fuel, h, hf => by
    obtain ⟨k, rfl⟩ : ∃ k, fuel = k + 1 := ⟨fuel - 1, by simp at hf; omega⟩
    exact ⟨b.frst, b.last, b.nodes, b.cdata, rfl, rfl, by simpa using h⟩
  | x :: S, b, fuel, h, hf => by
    obtain ⟨k, rfl⟩ : ∃ k, fuel = k + 1 := ⟨fuel - 1, by simp at hf; omega⟩
    obtain ⟨n, hn, hfr, -⟩ := h.node (List.mem_cons_self x S)
    have hev : Evictable now x.frame = decide (now > n.playoutTime ∧ frameComplete n = true) := by
      rw [← hfr]; simp [Evictable, PbufNode.frame, Frame.complete, frameComplete]
    have hnxt : n.nxt = (S.map Held.addr).head? := by
      have := Layout.nxt_prv (show Layout b ([] ++ x :: S) from h)
      simp [Heap.view, hn, PbufNode.link] at this; simpa using this.2
    simp only [List.map_cons, List.head?_cons, removeLoop, hn, Option.bind_eq_bind, Option.some_bind]
    by_cases hc : now > n.playoutTime ∧ frameComplete n = true
    · obtain ⟨nodes, cdata, e, hx, hl⟩ := unlinkFrame_spec h hn
      rw [if_pos hc, e, Option.some_bind, hnxt, List.dropWhile_cons_of_pos (by simp [hev, hc])]
      obtain ⟨frst', last', nodes', cdata', e', hx', hl'⟩ :=
        removeLoop_spec now S _ k hl (by simp at hf; omega)
      exact ⟨frst', last', nodes', cdata', e', hx'.trans hx, hl'⟩
    · rw [if_neg hc, List.dropWhile_cons_of_neg (by simp [hev, hc])]
      exact ⟨b.frst, b.last, b.nodes, b.cdata, rfl, rfl, h⟩

/-- `pbuf_remove` on a represented buffer evicts the leading frames that are due and complete
and changes nothing but the frame store. -/
theorem pbufRemove_spec {b : Pbuf} {L : List Held} (h : Layout b L) (now : Int) :
    ∃ frst last nodes cdata L', pbufRemove b now = some { b with frst, last, nodes, cdata } ∧
      nodes.next = b.nodes.next ∧ Layout { b with frst, last, nodes, cdata } L' ∧
      frames L' = removeFrames now (frames L) := by
  obtain ⟨frst, last, nodes, cdata, e, hx, hl⟩ :=
    removeLoop_spec now L b (b.nodes.next + 1) h (by have := h.length_le; omega)
  refine ⟨frst, last, nodes, cdata, _, ?_, hx, hl, ?_⟩
  · rw [pbufRemove, show b.frst = (L.map Held.addr).head? from h.frst, e]
  · simp only [frames, removeFrames, List.dropWhile_map]; rfl

end UltraGrid.Rtp
