import UltraGrid.Rtp.Pbuf.Layout

/-!
# `add_coded_unit` files a packet as `insertDesc` does

`add_coded_unit` walks a frame's `coded_data` list from its head past the packets whose number
is after the new packet's, then links a new cell in at that point, or frees it when the packet
found there has the same number. `walkCoded_spec` says where the walk stops in terms of the
packet list, `CodedRep.splice` that linking a fresh cell in between two parts of a list gives
the list with the packet in between, and `addCodedUnit_spec` puts them together: on a
represented buffer the frame becomes `Frame.addPacket`.

## Main statements

* `Layout.setFrame` — replacing one frame's node and packet list keeps the representation.
* `addCodedUnit_spec` — with `malloc` succeeding, the frame becomes `x.frame.addPacket pkt`.
* `addCodedUnit_of_malloc_fail` — when it fails, the buffer is unchanged.
* `foldAddCodedUnit_spec` — a list of packets filed in turn gives the fold of `insertDesc`.
-/

namespace UltraGrid.Rtp

/-- Replacing the node of one frame by `n'`, with the same links, and its packet list by
`cells`, which keeps the old cells and adds only unallocated ones, keeps the representation. -/
theorem Layout.setFrame {b : Pbuf} {P S : List Held} {x : Held} {n n' : PbufNode}
    {nodes : Heap PbufNode} {cdata : Heap CodedData} {cells : List Nat} {f : Frame}
    (h : Layout b (P ++ x :: S)) (hn : b.nodes.cells x.addr = some n)
    (hnodes : nodes.cells = Function.update b.nodes.cells x.addr (some n'))
    (hl : n'.link = n.link) (hf : n'.frame f.packets = f) (hcd : n'.cdata = cells.head?)
    (hrep : CodedRep cdata cells f.packets) (hc : ∀ c ∉ cells, cdata.cells c = b.cdata.cells c)
    (hsub : ∀ c ∈ x.cells, c ∈ cells) (hnew : ∀ c ∈ cells, c ∈ x.cells ∨ b.cdata.cells c = none)
    (hnd : cells.Nodup) :
    Layout { b with nodes, cdata } (P ++ ⟨x.addr, f, cells⟩ :: S) := by
  refine h.update rfl rfl ?_ (fun a ha => by simp [hnodes, Function.update_noteq ha]) hc
    ⟨n', by simp [hnodes], hf, hcd, hrep⟩ rfl hsub hnew hnd
  funext a
  by_cases e : a = x.addr
  · subst e; simp [Heap.view, hnodes, hn, hl]
  · simp [Heap.view, hnodes, Function.update_noteq e]

/-! ## The walk -/

/-- The walk of `add_coded_unit` stops at the first packet whose number is not after `pkt`'s,
where `insertDesc` stops too. -/
theorem walkCoded_spec (h : Heap CodedData) (pkt : RtpPacket) :
    ∀ (cs : List Nat) (ps : List RtpPacket) (q : Option Nat) (fuel : Nat),
    Seg (h.view CodedData.link) q cs none →
    cs.map (fun c => (h.cells c).map CodedData.entry) = ps.map (fun p => some (p.seq, p)) →
    cs.length < fuel →
    ∃ pre rest ppre prest, cs = pre ++ rest ∧ ps = ppre ++ prest ∧ pre.length = ppre.length ∧
      insertDesc pkt ps = ppre ++ insertDesc pkt prest ∧
      (∀ r ∈ prest.head?, ¬ int16Diff pkt.seq r.seq < 0) ∧
      walkCoded h pkt.seq fuel q cs.head? = some (pre.getLast?.or q, rest.head?)
  | [], ps, q, fuel, _, he, hf => by
    obtain ⟨k, rfl⟩ : ∃ k, fuel = k + 1 := ⟨fuel - 1, by simp at hf; omega⟩
    obtain rfl : ps = [] := by simpa using he.symm
    exact ⟨[], [], [], [], rfl, rfl, rfl, rfl, by simp, rfl⟩
  | c :: cs, [], _, _, _, he, _ => by simp at he
  | c :: cs, p :: ps, q, fuel, hs, he, hf => by
    obtain ⟨k, rfl⟩ : ∃ k, fuel = k + 1 := ⟨fuel - 1, by simp at hf; omega⟩
    simp only [List.map_cons, List.cons.injEq] at he
    obtain ⟨d, hd, ed⟩ := Option.map_eq_some'.mp he.1
    simp only [CodedData.entry, Prod.mk.injEq] at ed
    have hnxt : d.nxt = cs.head? := by
      have := hs.1; simp [Heap.view, hd, CodedData.link] at this; simpa using this.2
    by_cases hlt : int16Diff pkt.seq p.seq < 0
    · obtain ⟨pre, rest, ppre, prest, e1, e2, e3, e4, e5, e6⟩ :=
        walkCoded_spec h pkt cs ps (some c) k hs.2 he.2 (by simp at hf; omega)
      refine ⟨c :: pre, rest, p :: ppre, prest, by simp [e1], by simp [e2], by simp [e3], ?_, e5, ?_⟩
      · rw [insertDesc, if_pos hlt, e4]; rfl
      · simp only [List.head?_cons, walkCoded, hd, Option.bind_eq_bind, Option.some_bind, ed.1,
          if_pos hlt, hnxt, e6, getLast?_cons_or]
    · refine ⟨[], c :: cs, [], p :: ps, rfl, rfl, rfl, rfl, by simpa using hlt, ?_⟩
      simp [walkCoded, hd, ed.1, hlt]

/-! ## Linking a new cell in -/

/-- A fresh cell linked in between `pre` and `rest`: the last cell of `pre` and the first of
`rest` point at it, and nothing else changes. -/
theorem CodedRep.splice {h h' : Heap CodedData} {pre rest : List Nat}
    {ppre prest : List RtpPacket} {tmp : Nat} {pkt : RtpPacket}
    (hr : CodedRep h (pre ++ rest) (ppre ++ prest)) (hlen : pre.length = ppre.length)
    (hnd : (pre ++ rest).Nodup)
    (ht : h'.cells tmp = some ⟨rest.head?, pre.getLast?, pkt.seq, pkt⟩)
    (hl : ∀ l ∈ pre.getLast?, h'.cells l = (h.cells l).map fun d => { d with nxt := some tmp })
    (hh : ∀ r ∈ rest.head?, h'.cells r = (h.cells r).map fun d => { d with prv := some tmp })
    (ho : ∀ c ∈ pre ++ rest, c ∉ pre.getLast? → c ∉ rest.head? → h'.cells c = h.cells c) :
    CodedRep h' (pre ++ tmp :: rest) (ppre ++ pkt :: prest) := by
  have hdisj := List.nodup_append.mp hnd
  have hpr : ∀ c ∈ pre, c ∉ rest.head? := fun c hc hc' =>
    hdisj.2.2 hc (List.mem_of_mem_head? hc')
  have hrp : ∀ c ∈ rest, c ∉ pre.getLast? := fun c hc hc' =>
    hdisj.2.2 (List.mem_of_mem_getLast? hc') hc
  -- no old cell changes its packet
  have hentry : ∀ c ∈ pre ++ rest,
      (h'.cells c).map CodedData.entry = (h.cells c).map CodedData.entry := fun c hc => by
    by_cases e₁ : c ∈ pre.getLast?
    · rw [hl c e₁, Option.map_map]; rfl
    · by_cases e₂ : c ∈ rest.head?
      · rw [hh c e₂, Option.map_map]; rfl
      · rw [ho c hc e₁ e₂]
  obtain ⟨hs, hm⟩ := hr
  rw [seg_append, Option.or_none] at hs
  rw [List.map_append, List.map_append] at hm
  obtain ⟨hm₁, hm₂⟩ := List.append_inj hm (by simpa using hlen)
  refine ⟨?_, ?_⟩
  · rw [seg_append, List.head?_cons, Option.or_some, Option.or_none, seg_cons]
    refine ⟨seg_setLast hs.1 hdisj.1 (fun c hc hc' => ?_) fun l hl' => ?_, by simp [Heap.view, ht,
      CodedData.link], seg_setFirst hs.2 hdisj.2.1 (fun c hc hc' => ?_) fun r hr' => ?_⟩
    · simp [Heap.view, ho c (by simp [hc]) hc' (hpr c hc)]
    · simp only [Heap.view, hl l hl', Option.map_map]; rfl
    · simp [Heap.view, ho c (by simp [hc]) (hrp c hc) hc']
    · simp only [Heap.view, hh r hr', Option.map_map]; rfl
  · simp only [List.map_append, List.map_cons, ht, Option.map_some']
    rw [← hm₁, ← hm₂, List.map_congr_left fun c hc => hentry c (by simp [hc]),
      List.map_congr_left fun c hc => hentry c (by simp [hc])]
    rfl

/-- `add_coded_unit` on the heaps: a fresh cell linked in between `pre` and `rest`, the parts
of the frame's packet list, and the frame's node replaced. -/
theorem Layout.splice {b : Pbuf} {P S : List Held} {x : Held} {n n' : PbufNode}
    {nodes : Heap PbufNode} {cdata : Heap CodedData} {pre rest : List Nat}
    {ppre prest : List RtpPacket} {tmp : Nat} {pkt : RtpPacket} {f : Frame}
    (h : Layout b (P ++ x :: S)) (hn : b.nodes.cells x.addr = some n)
    (hnodes : nodes.cells = Function.update b.nodes.cells x.addr (some n'))
    (hl : n'.link = n.link) (hf : n'.frame f.packets = f) (hcd : n'.cdata = (pre ++ tmp :: rest).head?)
    (hx : x.cells = pre ++ rest) (hp : x.frame.packets = ppre ++ prest)
    (hlen : pre.length = ppre.length) (hfp : f.packets = ppre ++ pkt :: prest)
    (htmp : b.cdata.cells tmp = none)
    (ht : cdata.cells tmp = some ⟨rest.head?, pre.getLast?, pkt.seq, pkt⟩)
    (hlast : ∀ l ∈ pre.getLast?, cdata.cells l = (b.cdata.cells l).map fun d => { d with nxt := some tmp })
    (hhead : ∀ r ∈ rest.head?, cdata.cells r = (b.cdata.cells r).map fun d => { d with prv := some tmp })
    (ho : ∀ c, c ≠ tmp → c ∉ pre.getLast? → c ∉ rest.head? → cdata.cells c = b.cdata.cells c) :
    Layout { b with nodes, cdata } (P ++ ⟨x.addr, f, pre ++ tmp :: rest⟩ :: S) := by
  obtain ⟨-, -, -, -, hrep⟩ := h.held x (by simp)
  have hnd : x.cells.Nodup := (List.nodup_append.mp (cnodup_middle.mp h.cnodup)).1
  have hfresh : tmp ∉ x.cells := fun hm => by
    simpa [htmp] using (h.held x (by simp)).cells_isSome hm
  rw [hx] at hnd hfresh
  rw [hx, hp] at hrep
  refine h.setFrame hn hnodes hl hf hcd (hfp ▸ hrep.splice hlen hnd ht hlast hhead
    fun c hc => ho c fun e => hfresh (e ▸ hc)) (fun c hc => ?_) (fun c hc => by simp [hx] at hc ⊢; tauto)
    (fun c hc => ?_) (List.nodup_middle.mpr (List.nodup_cons.mpr ⟨hfresh, hnd⟩))
  · simp only [List.mem_append, List.mem_cons, not_or] at hc
    exact ho c hc.2.1 (fun e => hc.1 (List.mem_of_mem_getLast? e))
      (fun e => hc.2.2 (List.mem_of_mem_head? e))
  · simp only [List.mem_append, List.mem_cons] at hc
    rcases hc with hc | rfl | hc
    · exact .inl (by simp [hx, hc])
    · exact .inr htmp
    · exact .inl (by simp [hx, hc])

/-! ## `add_coded_unit` -/

/-- With `malloc` succeeding, `add_coded_unit` on a held frame of the packet's timestamp files
the packet as `Frame.addPacket` does, and changes no other frame. -/
theorem addCodedUnit_spec {b : Pbuf} {P S : List Held} {x : Held} {pkt : RtpPacket}
    (h : Layout b (P ++ x :: S)) (hts : x.frame.rtpTimestamp = pkt.ts)
    (hne : x.frame.packets ≠ []) :
    ∃ nodes cdata cells, addCodedUnit b (some x.addr) pkt true = some { b with nodes, cdata } ∧
      nodes.next = b.nodes.next ∧
      Layout { b with nodes, cdata } (P ++ ⟨x.addr, x.frame.addPacket pkt, cells⟩ :: S) := by
  obtain ⟨n, hn, hfr, hcd, hrep⟩ := h.held x (by simp)
  have hts' : n.rtpTimestamp = pkt.ts := by rw [← hts, ← hfr]; rfl
  obtain ⟨c₀, cs₀, hcs⟩ : ∃ c₀ cs₀, x.cells = c₀ :: cs₀ := by
    cases e : x.cells with
    | nil => exact absurd (by simpa [e] using hrep.2.symm) hne
    | cons c₀ cs₀ => exact ⟨c₀, cs₀, rfl⟩
  obtain ⟨p₀, ps₀, hps⟩ : ∃ p₀ ps₀, x.frame.packets = p₀ :: ps₀ := List.exists_cons_of_ne_nil hne
  obtain ⟨d₀, hd₀, ed₀⟩ : ∃ d₀, b.cdata.cells c₀ = some d₀ ∧ d₀.seqno = p₀.seq := by
    have := hrep.2; rw [hcs, hps] at this
    simp only [List.map_cons, List.cons.injEq] at this
    obtain ⟨d, hd, ed⟩ := Option.map_eq_some'.mp this.1
    exact ⟨d, hd, by simp [CodedData.entry] at ed; exact ed.1⟩
  have hfresh : ∀ c ∈ x.cells, c ≠ b.cdata.next := fun c hc e => by
    have := (h.held x (by simp)).cells_isSome hc; rw [e, b.cdata.cells_next] at this; simp at this
  have hc₀ : c₀ ≠ b.cdata.next := hfresh c₀ (by simp [hcs])
  have hnd : x.cells.Nodup := (List.nodup_append.mp (cnodup_middle.mp h.cnodup)).1
  have hframe : ∀ n' : PbufNode, n'.rtpTimestamp = n.rtpTimestamp → n'.playoutTime = n.playoutTime →
      n'.decoded = n.decoded → n'.mbit = (n.mbit || pkt.m) → n'.completed = n.completed →
      n'.frame (x.frame.addPacket pkt).packets = x.frame.addPacket pkt := by
    intro n' e1 e2 e3 e4 e5
    rw [← hfr]; simp [PbufNode.frame, Frame.addPacket, e1, e2, e3, e4, e5]
  simp only [addCodedUnit, Heap.deref_some, hn, hts', hcd, hcs, Option.bind_eq_bind, Option.some_bind, ne_eq, not_true_eq_false, reduceCtorEq, or_self, if_false, Bool.not_true, Bool.false_eq_true, Option.pure_def, Pbuf.modifyNode_some, Pbuf.modifyCoded_some, Option.map_some', Heap.alloc_fst, List.head?_cons]
  simp only [Heap.write_cells_apply, Heap.alloc_cells, Function.update_same, Function.update_noteq hc₀, hd₀, Option.some_bind, Option.map_some', ed₀, hc₀, false_and, if_false, and_true, if_true, Option.isSome_some, Heap.write_write, hn, true_and]
  have hlenp : x.cells.length = x.frame.packets.length := by simpa using congrArg List.length hrep.2
  by_cases hA : 0 < int16Diff pkt.seq p₀.seq
  · -- the packet is after every packet of the frame: it becomes the head
    simp only [if_pos hA, hc₀, false_and, if_false, Function.update_noteq hc₀, hd₀, Option.map_some', Option.some_bind, Heap.write_write]
    have hins : (x.frame.addPacket pkt).packets = [] ++ pkt :: x.frame.packets := by
      simp only [Frame.addPacket, hps, insertDesc]; rw [if_neg (by omega), if_neg (by omega)]; rfl
    refine ⟨_, _, [] ++ b.cdata.next :: x.cells, rfl, rfl, h.splice hn (Heap.write_cells hn _) rfl
      (hframe _ hts'.symm rfl rfl rfl rfl) (by simp) (by simp) (by simp) rfl hins b.cdata.cells_next
      (by simp [hcs, hc₀.symm]) (by simp) (by simp [hcs, hd₀, ed₀, hc₀]) fun c hc _ hh => ?_⟩
    have : c ≠ c₀ := fun e => hh (by simp [hcs, e])
    simp [this, hc]
  · simp only [if_neg hA]
    have hrep₁ : CodedRep (b.cdata.alloc ⟨none, none, pkt.seq, pkt⟩).2 x.cells x.frame.packets :=
      hrep.congr fun c hc => by simp [Function.update_noteq (hfresh c hc)]
    have hlen : x.cells.length < (b.cdata.alloc ⟨none, none, pkt.seq, pkt⟩).2.next := by
      have := Heap.length_le_next hnd fun c hc => (h.held x (by simp)).cells_isSome hc
      simp; omega
    obtain ⟨pre, rest, ppre, prest, e1, e2, e3, e4, e5, e6⟩ :=
      walkCoded_spec _ pkt x.cells x.frame.packets none _ hrep₁.1 hrep₁.2 hlen
    simp only [hcs, List.head?_cons] at e6
    simp only [e6, Option.some_bind, Option.or_none]
    have hpre : pre ≠ [] ∨ rest = x.cells := by
      rcases pre with _ | ⟨c, pre⟩
      · simp [e1]
      · simp
    rcases rest with _ | ⟨r, rs⟩
    · -- the packet is before every packet of the frame: it goes last
      obtain rfl : prest = [] := by
        have h₁ := congrArg List.length e1; have h₂ := congrArg List.length e2
        simp only [List.length_append, List.length_nil] at h₁ h₂
        exact List.eq_nil_of_length_eq_zero (by omega)
      obtain ⟨l, hl⟩ : ∃ l, pre.getLast? = some l := by
        rcases hpre with hpre | hpre
        · exact ⟨_, List.getLast?_eq_getLast pre hpre⟩
        · simp [hcs] at hpre
      have hlx : l ∈ x.cells := by rw [e1]; simp [List.mem_of_mem_getLast? hl]
      obtain ⟨d, hd⟩ := Option.isSome_iff_exists.mp ((h.held x (by simp)).cells_isSome hlx)
      have hlt : l ≠ b.cdata.next := hfresh l hlx
      simp only [hl, Pbuf.modifyCoded_some, Heap.write_cells_apply, Heap.alloc_cells, hlt, false_and, if_false, Function.update_noteq hlt, hd, Option.map_some', List.head?_nil]
      have hins : (x.frame.addPacket pkt).packets = ppre ++ pkt :: [] := by
        simp only [Frame.addPacket]; rw [e4]; rfl
      refine ⟨_, _, pre ++ b.cdata.next :: [], rfl, rfl, h.splice hn (Heap.write_cells hn _) rfl
        (hframe _ hts'.symm rfl rfl rfl rfl) ?_ e1 e2 e3 hins b.cdata.cells_next
        (by simp [hlt.symm, hl]) (by simp [hl, hd, hlt]) (by simp) fun c hc hc' _ => ?_⟩
      · obtain ⟨c, pre', rfl⟩ := List.exists_cons_of_ne_nil (show pre ≠ [] by rintro rfl; simp at hl)
        simp only [hcs, List.append_nil, List.cons.injEq] at e1
        simp [e1.1]
      · have : c ≠ l := fun e => hc' (by simp [e, hl])
        simp [hc, this]
    · obtain ⟨p', ps', rfl⟩ : ∃ p' ps', prest = p' :: ps' := by
        rcases prest with _ | ⟨p', ps'⟩
        · have h₁ := congrArg List.length e1; have h₂ := congrArg List.length e2
          simp only [List.length_append, List.length_nil, List.length_cons] at h₁ h₂; omega
        · exact ⟨p', ps', rfl⟩
      have hrx : r ∈ x.cells := by rw [e1]; simp
      have hrt : r ≠ b.cdata.next := hfresh r hrx
      -- the cell at `r` holds `p'`, and its `prv` is the last cell of `pre`
      have hsplit := hrep.2
      rw [e1, e2, List.map_append, List.map_append] at hsplit
      obtain ⟨-, hsplit⟩ := List.append_inj hsplit (by simpa using e3)
      simp only [List.map_cons, List.cons.injEq] at hsplit
      obtain ⟨dr, hdr, edr⟩ := Option.map_eq_some'.mp hsplit.1
      simp only [CodedData.entry, Prod.mk.injEq] at edr
      have hprv : dr.prv = pre.getLast? := by
        have := seg_mid (e1 ▸ hrep.1 : Seg _ none (pre ++ r :: rs) none)
        simp [Heap.view, hdr, CodedData.link] at this; exact this.1
      simp only [List.head?_cons, Function.update_noteq hrt, hdr, Option.some_bind, edr.1]
      by_cases hC : 0 < int16Diff pkt.seq p'.seq
      · -- the packet goes between `pre` and `rest`
        obtain ⟨l, hl⟩ : ∃ l, pre.getLast? = some l := by
          rcases pre with _ | ⟨c, pre⟩
          · obtain rfl : ppre = [] := List.eq_nil_of_length_eq_zero (by simpa using e3.symm)
            rw [hps] at e2; simp only [List.nil_append, List.cons.injEq] at e2
            exact absurd (e2.1 ▸ hC) hA
          · exact ⟨_, List.getLast?_eq_getLast _ (List.cons_ne_nil c pre)⟩
        have hlx : l ∈ x.cells := by rw [e1]; simp [List.mem_of_mem_getLast? hl]
        obtain ⟨d, hd⟩ := Option.isSome_iff_exists.mp ((h.held x (by simp)).cells_isSome hlx)
        have hlt : l ≠ b.cdata.next := hfresh l hlx
        have hlr : l ≠ r := fun e => (List.nodup_append.mp (e1 ▸ hnd)).2.2
          (List.mem_of_mem_getLast? hl) (e ▸ List.mem_cons_self r rs)
        simp only [if_pos hC, hprv, hl, Pbuf.modifyCoded_some, Heap.write_cells_apply,
          Heap.alloc_cells, hlt, hrt, hlr, Ne.symm hlr, false_and, if_false,
          Function.update_noteq hlt, Function.update_noteq hrt, hd, hdr, Option.map_some',
          Option.some_bind]
        have hins : (x.frame.addPacket pkt).packets = ppre ++ pkt :: p' :: ps' := by
          simp only [Frame.addPacket]; rw [e4, insertDesc, if_neg (e5 p' rfl), if_neg (by omega)]
        refine ⟨_, _, pre ++ b.cdata.next :: r :: rs, rfl, rfl, h.splice hn (Heap.write_cells hn _)
          rfl (hframe _ hts'.symm rfl rfl rfl rfl) ?_ e1 e2 e3 hins b.cdata.cells_next
          (by simp [hlt.symm, hrt.symm, hl]) (by simp [hl, hd, hlt, hlr, hrt])
          (by simp [hdr, edr.1, hlr.symm, hrt]) fun c hc hc' hc'' => ?_⟩
        · obtain ⟨c, pre', rfl⟩ := List.exists_cons_of_ne_nil (show pre ≠ [] by rintro rfl; simp at hl)
          simp only [hcs, List.cons_append, List.cons.injEq] at e1
          simp [e1.1]
        · have h₁ : c ≠ l := fun e => hc' (by simp [e, hl])
          have h₂ : c ≠ r := fun e => hc'' (by simp [e])
          simp [hc, h₁, h₂]
      · -- a packet of this number is already filed: the new cell is freed
        have heq : int16Diff pkt.seq p'.seq = 0 := by have := e5 p' rfl; omega
        simp only [if_neg hC]
        have hins : (x.frame.addPacket pkt).packets = x.frame.packets := by
          simp only [Frame.addPacket]; rw [e4, insertDesc, if_neg (e5 p' rfl), if_pos heq, e2]
        have hfree : ((b.cdata.alloc ⟨none, none, pkt.seq, pkt⟩).2.free b.cdata.next).cells =
            b.cdata.cells := by
          simp [Function.update_idem, b.cdata.cells_next]
        refine ⟨_, _, x.cells, rfl, rfl, h.setFrame hn (Heap.write_cells hn _) rfl
          (hframe _ hts'.symm rfl rfl rfl rfl) (by simp [hcs])
          (hins ▸ hrep.congr fun c _ => by rw [hfree]) (fun c _ => by rw [hfree]) (fun c hc => hc)
          (fun c hc => .inl hc) hnd⟩

/-- When the `malloc` of the new cell fails the packet is dropped and nothing changes. -/
theorem addCodedUnit_of_malloc_fail {b : Pbuf} {P S : List Held} {x : Held} {pkt : RtpPacket}
    (h : Layout b (P ++ x :: S)) (hts : x.frame.rtpTimestamp = pkt.ts)
    (hne : x.frame.packets ≠ []) : addCodedUnit b (some x.addr) pkt false = some b := by
  obtain ⟨n, hn, hfr, hcd, hrep⟩ := h.held x (by simp)
  have hts' : n.rtpTimestamp = pkt.ts := by rw [← hts, ← hfr]; rfl
  obtain ⟨c₀, cs₀, hcs⟩ := List.exists_cons_of_ne_nil fun e : x.cells = [] =>
    hne (by simpa [e] using hrep.2.symm)
  simp [addCodedUnit, hn, hts', hcd, hcs]

/-- `add_coded_unit` called on the packets `qs` in turn, all of the frame's timestamp, each with
whether the `malloc` of its cell succeeds, files the packets whose `malloc` succeeds as the fold
of `insertDesc` does and drops the others. -/
theorem foldAddCodedUnit_spec {P S : List Held} :
    ∀ (qs : List (RtpPacket × Bool)) (b : Pbuf) (x : Held),
    Layout b (P ++ x :: S) → (∀ q ∈ qs, q.1.ts = x.frame.rtpTimestamp) → x.frame.packets ≠ [] →
    ∃ b' x', qs.foldlM (fun b q => addCodedUnit b (some x.addr) q.1 q.2) b = some b' ∧
      x'.addr = x.addr ∧
      x'.frame.packets = ((qs.filter fun q => q.2).map Prod.fst).foldl (fun ps p => insertDesc p ps)
        x.frame.packets ∧
      Layout b' (P ++ x' :: S)
  | [], b, x, h, _, _ => ⟨b, x, rfl, rfl, rfl, h⟩
  | (q, true) :: qs, b, x, h, hts, hne => by
    obtain ⟨nodes, cdata, cells, e, -, hl⟩ :=
      addCodedUnit_spec h (hts _ (List.mem_cons_self _ _)).symm hne
    obtain ⟨b', x', e', ha, hp, hl'⟩ := foldAddCodedUnit_spec qs _ _ hl
      (fun r hr => hts r (List.mem_cons_of_mem _ hr)) (insertDesc_ne_nil _ _)
    exact ⟨b', x', by simpa [e] using e', ha, by simpa using hp, hl'⟩
  | (q, false) :: qs, b, x, h, hts, hne => by
    have e := addCodedUnit_of_malloc_fail h (hts _ (List.mem_cons_self _ _)).symm hne
    obtain ⟨b', x', e', ha, hp, hl'⟩ :=
      foldAddCodedUnit_spec qs b x h (fun r hr => hts r (List.mem_cons_of_mem _ hr)) hne
    exact ⟨b', x', by simpa [e] using e', ha, by simpa using hp, hl'⟩

end UltraGrid.Rtp
