import UltraGrid.Rtp.Pbuf.Defs
import Mathlib.Data.List.Chain

/-!
# The frame store as a list

What the linked structures of `pbuf.cpp` stand for: the held frames in list order, each with
the address of its node, and each frame's packets in list order. The operations here say in
these terms what `pbuf_insert`, `pbuf_decode` and `pbuf_remove` do to the frames; the modules
`CodedUnit`, `Insert` and `Scheduler` prove that the pointer code does exactly this.

`insertDesc` is `add_coded_unit` on a list. For every input it keeps the order in which each
packet's successor precedes it (`chain_insertDesc`), and inside a window of fewer than `2^15`
sequence numbers it is an ordered insertion without duplicates (`Filed.step`, `Filed.foldl`).

## Main definitions

* `Frame` — a held frame: header fields and packets.
* `insertDesc` — filing one packet into a frame's packet list.
* `fileFrame`, `decodeFrames`, `removeFrames` — the three operations on the frame list.
* `Wf` — timestamps strictly increase and every packet list is nonempty and ordered.
-/

namespace UltraGrid.Rtp

/-- A frame of the buffer. -/
structure Frame where
  rtpTimestamp : UInt32
  playoutTime : Int
  decoded : Bool
  mbit : Bool
  completed : Bool
  packets : List RtpPacket
  deriving DecidableEq, Repr

/-- `frame_complete` on a frame. -/
def Frame.complete (f : Frame) : Bool := f.mbit || f.completed

/-- The frame `create_new_pnode` makes for `pkt`. -/
def Frame.new (pkt : RtpPacket) (playoutTime : Int) : Frame :=
  ⟨pkt.ts, playoutTime, false, pkt.m, false, [pkt]⟩

/-- The frame a node and a packet list stand for. -/
def PbufNode.frame (n : PbufNode) (packets : List RtpPacket) : Frame :=
  ⟨n.rtpTimestamp, n.playoutTime, n.decoded, n.mbit, n.completed, packets⟩

/-- `add_coded_unit` on the packet list: walk past the packets whose number is after `pkt`'s,
then file `pkt` before the first one that is not, or drop it when that one has its number. -/
def insertDesc (pkt : RtpPacket) : List RtpPacket → List RtpPacket
  | [] => [pkt]
  | p :: ps =>
    if int16Diff pkt.seq p.seq < 0 then p :: insertDesc pkt ps
    else if int16Diff pkt.seq p.seq = 0 then p :: ps
    else pkt :: p :: ps

/-- `add_coded_unit` on a frame: the marker bit is or-ed in even when the packet is a
duplicate. -/
def Frame.addPacket (f : Frame) (pkt : RtpPacket) : Frame :=
  { f with mbit := f.mbit || pkt.m, packets := insertDesc pkt f.packets }

/-- The order `add_coded_unit` keeps: the successor `y` of `x` precedes it,
`(int16_t)(y - x) < 0`. -/
def SeqSucc (x y : RtpPacket) : Prop := int16Diff y.seq x.seq < 0

instance (x y : RtpPacket) : Decidable (SeqSucc x y) := by unfold SeqSucc; infer_instance

theorem mem_insertDesc {pkt q : RtpPacket} {ps : List RtpPacket} (h : q ∈ insertDesc pkt ps) :
    q = pkt ∨ q ∈ ps := by
  induction ps with
  | nil => simpa [insertDesc] using h
  | cons p ps ih =>
    simp only [insertDesc] at h
    split_ifs at h <;> simp_all
    tauto

theorem head?_insertDesc (pkt : RtpPacket) (ps : List RtpPacket) :
    (insertDesc pkt ps).head? = some pkt ∨ (insertDesc pkt ps).head? = ps.head? := by
  cases ps with
  | nil => simp [insertDesc]
  | cons p ps => simp only [insertDesc]; split_ifs <;> simp

theorem insertDesc_ne_nil (pkt : RtpPacket) (ps : List RtpPacket) : insertDesc pkt ps ≠ [] := by
  cases ps with
  | nil => simp [insertDesc]
  | cons p ps => simp only [insertDesc]; split_ifs <;> simp

/-- Filing a packet keeps the successor order, for every sequence number. -/
theorem chain_insertDesc (pkt : RtpPacket) {ps : List RtpPacket} (h : ps.Chain' SeqSucc) :
    (insertDesc pkt ps).Chain' SeqSucc := by
  induction ps with
  | nil => simp [insertDesc]
  | cons p ps ih =>
    simp only [insertDesc]
    split_ifs with hlt heq
    · refine List.Chain'.cons' (ih h.tail) fun y hy => ?_
      rcases head?_insertDesc pkt ps with e | e <;> rw [e] at hy
      · cases hy; exact hlt
      · exact List.Chain'.rel_head? h hy
    · exact h
    · exact List.Chain'.cons' h fun y hy => by
        cases hy; exact int16Diff_neg_of_pos (by omega)

/-! ### Inside a window of sequence numbers -/

section Window

variable (base : UInt16)

/-- Strictly descending positions in the window from `base`. -/
def Desc (ps : List RtpPacket) : Prop :=
  ps.Pairwise fun x y => offset base y.seq < offset base x.seq

variable {base}

theorem insertDesc_of_mem {pkt : RtpPacket} {ps : List RtpPacket}
    (hw : ∀ q ∈ pkt :: ps, InWindow base q.seq) (hd : Desc base ps)
    (hm : ∃ q ∈ ps, q.seq = pkt.seq) : insertDesc pkt ps = ps := by
  induction ps with
  | nil => simp at hm
  | cons p ps ih =>
    simp only [Desc, List.pairwise_cons] at hd
    have hp : int16Diff pkt.seq p.seq = offset base pkt.seq - offset base p.seq :=
      int16Diff_of_inWindow (hw _ (by simp)) (hw _ (by simp))
    by_cases e : p.seq = pkt.seq
    · simp [insertDesc, e]
    · obtain ⟨q, hq, hqs⟩ : ∃ q ∈ ps, q.seq = pkt.seq := by simpa [e] using hm
      have := hd.1 q hq
      rw [hqs] at this
      simp only [insertDesc, hp, show (offset base pkt.seq : Int) - offset base p.seq < 0 by omega,
        if_true]
      rw [ih (fun q hq => hw q (by simp at hq ⊢; tauto)) hd.2 ⟨q, hq, hqs⟩]

theorem mem_insertDesc_of_not_mem {pkt q : RtpPacket} {ps : List RtpPacket}
    (hm : ∀ p ∈ ps, p.seq ≠ pkt.seq) : q ∈ insertDesc pkt ps ↔ q = pkt ∨ q ∈ ps := by
  induction ps with
  | nil => simp [insertDesc]
  | cons p ps ih =>
    have hne : int16Diff pkt.seq p.seq ≠ 0 := fun h0 =>
      hm p (List.mem_cons_self _ _) (int16Diff_eq_zero.mp h0).symm
    simp only [insertDesc, hne, if_false]
    split_ifs
    · rw [List.mem_cons, ih fun p hp => hm p (List.mem_cons_of_mem _ hp), List.mem_cons]
      exact or_left_comm
    · exact List.mem_cons

theorem desc_insertDesc {pkt : RtpPacket} {ps : List RtpPacket}
    (hw : ∀ q ∈ pkt :: ps, InWindow base q.seq) (hd : Desc base ps) :
    Desc base (insertDesc pkt ps) := by
  induction ps with
  | nil => simp [insertDesc, Desc]
  | cons p ps ih =>
    simp only [Desc, List.pairwise_cons] at hd
    have hp : int16Diff pkt.seq p.seq = offset base pkt.seq - offset base p.seq :=
      int16Diff_of_inWindow (hw _ (by simp)) (hw _ (by simp))
    simp only [insertDesc, hp]
    split_ifs with hlt heq
    · refine List.pairwise_cons.mpr ⟨fun q hq => ?_, ih (fun q hq => hw q (by simp at hq ⊢; tauto)) hd.2⟩
      rcases mem_insertDesc hq with rfl | hq
      · omega
      · exact hd.1 q hq
    · exact List.pairwise_cons.mpr hd
    · refine List.pairwise_cons.mpr ⟨fun q hq => ?_, List.pairwise_cons.mpr hd⟩
      rcases List.mem_cons.mp hq with rfl | hq
      · omega
      · have := hd.1 q hq; omega

/-- What a frame's packet list holds after the packets `pre` were filed in this order: each
entry is the first packet of its number, every number is there, and the order descends. -/
structure Filed (base : UInt16) (pre ps : List RtpPacket) : Prop where
  desc : Desc base ps
  first : ∀ q ∈ ps, pre.find? (fun p => p.seq == q.seq) = some q
  every : ∀ p ∈ pre, ∃ q ∈ ps, q.seq = p.seq

theorem Filed.step {pre ps : List RtpPacket} {pkt : RtpPacket} (h : Filed base pre ps)
    (hw : ∀ q ∈ pre ++ [pkt], InWindow base q.seq) :
    Filed base (pre ++ [pkt]) (insertDesc pkt ps) := by
  have hps : ∀ q ∈ ps, q ∈ pre := fun q hq => List.mem_of_find?_eq_some (h.first q hq)
  have hwin : ∀ q ∈ pkt :: ps, InWindow base q.seq := fun q hq => by
    rcases List.mem_cons.mp hq with rfl | hq
    · exact hw q (by simp)
    · exact hw q (by simp [hps q hq])
  by_cases hm : ∃ q ∈ ps, q.seq = pkt.seq
  · rw [insertDesc_of_mem hwin h.desc hm]
    refine ⟨h.desc, fun q hq => by simp [List.find?_append, h.first q hq], fun p hp => ?_⟩
    rcases List.mem_append.mp hp with hp | hp
    · exact h.every p hp
    · obtain ⟨q, hq, e⟩ := hm; exact ⟨q, hq, by simp at hp; rw [hp, e]⟩
  · push_neg at hm
    have hpre : pre.find? (fun p => p.seq == pkt.seq) = none := by
      refine List.find?_eq_none.mpr fun p hp e => ?_
      obtain ⟨q, hq, hqs⟩ := h.every p hp
      exact hm q hq (hqs.trans (by simpa using e))
    refine ⟨desc_insertDesc hwin h.desc, fun q hq => ?_, fun p hp => ?_⟩
    · rcases (mem_insertDesc_of_not_mem hm).mp hq with rfl | hq
      · simp [List.find?_append, hpre]
      · simp [List.find?_append, h.first q hq]
    · rcases List.mem_append.mp hp with hp | hp
      · obtain ⟨q, hq, e⟩ := h.every p hp
        exact ⟨q, (mem_insertDesc_of_not_mem hm).mpr (.inr hq), e⟩
      · simp at hp; exact ⟨pkt, (mem_insertDesc_of_not_mem hm).mpr (.inl rfl), hp ▸ rfl⟩

theorem Filed.foldl {pre ps : List RtpPacket} (h : Filed base pre ps) (qs : List RtpPacket)
    (hw : ∀ q ∈ pre ++ qs, InWindow base q.seq) :
    Filed base (pre ++ qs) (qs.foldl (fun ps p => insertDesc p ps) ps) := by
  induction qs generalizing pre ps with
  | nil => simpa using h
  | cons q qs ih =>
    have := ih (h.step fun r hr => hw r (by simp at hr ⊢; tauto))
      (by simpa using hw)
    simpa using this

theorem filed_singleton (p : RtpPacket) : Filed base [p] [p] :=
  ⟨by simp [Desc], by simp, by simp⟩

end Window

/-- Within a window the descending positions are the descending wrap-around order. -/
theorem Desc.pairwise_int16Diff {base : UInt16} {ps : List RtpPacket} (h : Desc base ps)
    (hw : ∀ q ∈ ps, InWindow base q.seq) : ps.Pairwise fun x y => 0 < int16Diff x.seq y.seq :=
  (List.pairwise_and_iff.mpr ⟨h, List.pairwise_of_forall_mem_list fun x hx y hy => And.intro (hw x hx) (hw y hy)⟩).imp
    fun ⟨hlt, hx, hy⟩ => by rw [int16Diff_of_inWindow hx hy]; omega

/-! ## The frame list -/

/-- The frame list after `pbuf_insert` files `pkt`; a new frame gets the address `fresh`
and the playout time `playoutTime`. A packet goes to the held frame of its timestamp; a later
timestamp opens a new tail frame and marks the old tail completed; any other packet is dropped. -/
def fileFrame (F : List (Nat × Frame)) (pkt : RtpPacket) (fresh : Nat) (playoutTime : Int) :
    List (Nat × Frame) :=
  match F.getLast? with
  | none => [(fresh, Frame.new pkt playoutTime)]
  | some (l, fl) =>
    if F.any (fun x => x.2.rtpTimestamp == pkt.ts) then
      F.map fun x => if x.2.rtpTimestamp = pkt.ts then (x.1, x.2.addPacket pkt) else x
    else if fl.rtpTimestamp < pkt.ts then
      F.dropLast ++ [(l, { fl with completed := true }), (fresh, Frame.new pkt playoutTime)]
    else F

/-- The frame list after `pbuf_decode` at `now`, with the address of the frame handed to the
callback. -/
def decodeFrames (now : Int) : List (Nat × Frame) → List (Nat × Frame) × Option Nat
  | [] => ([], none)
  | (a, f) :: F =>
    if !f.decoded ∧ now > f.playoutTime then
      if f.complete then ((a, { f with decoded := true }) :: F, some a)
      else
        let f' := if now > f.playoutTime + oneSecond then { f with completed := true } else f
        ((a, f') :: (decodeFrames now F).1, (decodeFrames now F).2)
    else ((a, f) :: (decodeFrames now F).1, (decodeFrames now F).2)

/-- Due at `now` and complete: what `pbuf_remove` evicts. -/
def Evictable (now : Int) (f : Frame) : Bool := decide (now > f.playoutTime) && f.complete

/-- The frame list after `pbuf_remove` at `now`. -/
def removeFrames (now : Int) (F : List (Nat × Frame)) : List (Nat × Frame) :=
  F.dropWhile fun x => Evictable now x.2

/-! ## The invariant -/

/-- The frame list `pbuf_validate` checks for: timestamps strictly increase, and every frame
holds packets, each one's successor preceding it. -/
structure Wf (F : List (Nat × Frame)) : Prop where
  sorted : (F.map fun x => x.2.rtpTimestamp).Chain' (· < ·)
  packets : ∀ x ∈ F, x.2.packets ≠ [] ∧ x.2.packets.Chain' SeqSucc

/-- The timestamps and packet lists of the frames, which is all `Wf` reads. -/
def shape (F : List (Nat × Frame)) : List (UInt32 × List RtpPacket) :=
  F.map fun x => (x.2.rtpTimestamp, x.2.packets)

theorem Wf.of_shape {F G : List (Nat × Frame)} (hw : Wf F) (e : shape G = shape F) : Wf G := by
  have hts : G.map (fun x => x.2.rtpTimestamp) = F.map fun x => x.2.rtpTimestamp := by
    have := congrArg (List.map Prod.fst) e; simpa [shape] using this
  refine ⟨hts ▸ hw.sorted, fun x hx => ?_⟩
  have : (x.2.rtpTimestamp, x.2.packets) ∈ shape F := e ▸ List.mem_map_of_mem _ hx
  obtain ⟨y, hy, hxy⟩ := List.mem_map.mp this
  simp only [Prod.mk.injEq] at hxy
  exact hxy.2 ▸ hw.packets y hy

/-- `pbuf_decode` changes flags only. -/
theorem shape_decodeFrames (now : Int) (F : List (Nat × Frame)) :
    shape (decodeFrames now F).1 = shape F := by
  induction F with
  | nil => rfl
  | cons x F ih =>
    obtain ⟨a, f⟩ := x
    simp only [decodeFrames]
    split_ifs <;> simp_all [shape]

theorem wf_decodeFrames {F : List (Nat × Frame)} (hw : Wf F) (now : Int) :
    Wf (decodeFrames now F).1 :=
  hw.of_shape (shape_decodeFrames now F)

theorem wf_removeFrames {F : List (Nat × Frame)} (hw : Wf F) (now : Int) : Wf (removeFrames now F) := by
  have hs : removeFrames now F <:+ F := List.dropWhile_suffix _
  exact ⟨hw.sorted.suffix (hs.map _), fun x hx => hw.packets x (hs.subset hx)⟩

theorem wf_fileFrame {F : List (Nat × Frame)} (hw : Wf F) (pkt : RtpPacket) (fresh : Nat)
    (playoutTime : Int) : Wf (fileFrame F pkt fresh playoutTime) := by
  unfold fileFrame
  rcases e : F.getLast? with _ | ⟨l, fl⟩
  · exact ⟨by simp, by simp [Frame.new]⟩
  · simp only
    split_ifs with hany hlt
    · -- the packet goes to the held frames of its timestamp, which keep their timestamps
      refine ⟨?_, fun x hx => ?_⟩
      · have : (F.map fun x => if x.2.rtpTimestamp = pkt.ts then (x.1, x.2.addPacket pkt) else x).map
            (fun x => x.2.rtpTimestamp) = F.map fun x => x.2.rtpTimestamp := by
          simp only [List.map_map]; congr 1; funext x; simp only [Function.comp]; split_ifs <;> rfl
        exact this ▸ hw.sorted
      · obtain ⟨y, hy, rfl⟩ := List.mem_map.mp hx
        have := hw.packets y hy
        split_ifs
        · exact ⟨insertDesc_ne_nil _ _, chain_insertDesc _ this.2⟩
        · exact this
    · -- a new tail frame with a later timestamp
      obtain ⟨F', rfl⟩ := List.getLast?_eq_some_iff.mp e
      have hs := hw.sorted
      simp only [List.map_append, List.map_cons, List.map_nil] at hs
      refine ⟨?_, fun x hx => ?_⟩
      · have := hs.append (List.chain'_singleton pkt.ts) (by simp [hlt])
        simpa using this
      · simp only [List.dropLast_concat, List.mem_append, List.mem_cons, List.mem_singleton,
          List.not_mem_nil, or_false] at hx
        rcases hx with hx | rfl | rfl
        · exact hw.packets x (by simp [hx])
        · exact hw.packets (l, fl) (by simp)
        · simp [Frame.new]
    · exact hw

/-! ## Filing a packet, case by case -/

instance uint32_isTrans_lt : IsTrans UInt32 (· < ·) := ⟨fun _ _ _ => UInt32.lt_trans⟩

/-- In a well-formed frame list, the frames before a frame have smaller timestamps and the
frames after it larger ones. -/
theorem Wf.lt_of_eq {F A B : List (Nat × Frame)} {x : Nat × Frame} (hw : Wf F)
    (e : F = A ++ x :: B) :
    (∀ a ∈ A, a.2.rtpTimestamp < x.2.rtpTimestamp) ∧ ∀ c ∈ B, x.2.rtpTimestamp < c.2.rtpTimestamp := by
  have := List.chain'_iff_pairwise.mp hw.sorted
  simp only [e, List.map_append, List.map_cons, List.pairwise_append, List.pairwise_cons,
    List.mem_map, List.mem_cons, forall_exists_index, and_imp, forall_apply_eq_imp_iff₂] at this
  exact ⟨fun a ha => this.2.2 a ha _ (.inl rfl), this.2.1.1⟩

@[simp] theorem fileFrame_nil (pkt : RtpPacket) (fresh : Nat) (playoutTime : Int) :
    fileFrame [] pkt fresh playoutTime = [(fresh, Frame.new pkt playoutTime)] := rfl

/-- A packet of a held frame's timestamp goes to that frame alone. -/
theorem fileFrame_of_mem {A B : List (Nat × Frame)} {a : Nat} {f : Frame} {pkt : RtpPacket}
    (hf : f.rtpTimestamp = pkt.ts) (hu : ∀ x ∈ A ++ B, x.2.rtpTimestamp ≠ pkt.ts) (fresh : Nat)
    (playoutTime : Int) :
    fileFrame (A ++ (a, f) :: B) pkt fresh playoutTime = A ++ (a, f.addPacket pkt) :: B := by
  unfold fileFrame
  obtain ⟨l, fl, e⟩ : ∃ l fl, (A ++ (a, f) :: B).getLast? = some (l, fl) := by
    cases h : (A ++ (a, f) :: B).getLast? with
    | none => simp at h
    | some x => exact ⟨x.1, x.2, rfl⟩
  have hany : (A ++ (a, f) :: B).any (fun x => x.2.rtpTimestamp == pkt.ts) = true :=
    List.any_eq_true.mpr ⟨(a, f), List.mem_append_right A (List.mem_cons_self _ _), by simp [hf]⟩
  have hA : ∀ x ∈ A, (if x.2.rtpTimestamp = pkt.ts then (x.1, x.2.addPacket pkt) else x) = x :=
    fun x hx => if_neg (hu x (List.mem_append_left B hx))
  have hB : ∀ x ∈ B, (if x.2.rtpTimestamp = pkt.ts then (x.1, x.2.addPacket pkt) else x) = x :=
    fun x hx => if_neg (hu x (List.mem_append_right A hx))
  simp only [e, hany, if_true, List.map_append, List.map_cons, hf, List.map_congr_left hA,
    List.map_congr_left hB, List.map_id']

/-- A packet of a later timestamp than every held frame's opens a new tail frame, and the old
tail is marked completed. -/
theorem fileFrame_push {F : List (Nat × Frame)} {l : Nat} {fl : Frame} {pkt : RtpPacket}
    (hu : ∀ x ∈ F ++ [(l, fl)], x.2.rtpTimestamp ≠ pkt.ts) (hlt : fl.rtpTimestamp < pkt.ts)
    (fresh : Nat) (playoutTime : Int) :
    fileFrame (F ++ [(l, fl)]) pkt fresh playoutTime =
      F ++ [(l, { fl with completed := true }), (fresh, Frame.new pkt playoutTime)] := by
  unfold fileFrame
  have : (F ++ [(l, fl)]).any (fun x => x.2.rtpTimestamp == pkt.ts) = false :=
    List.any_eq_false.mpr fun x hx => by simpa using hu x hx
  simp [this, hlt]

/-- Any other packet is dropped. -/
theorem fileFrame_drop {F : List (Nat × Frame)} {l : Nat} {fl : Frame} {pkt : RtpPacket}
    (hu : ∀ x ∈ F ++ [(l, fl)], x.2.rtpTimestamp ≠ pkt.ts) (hlt : ¬ fl.rtpTimestamp < pkt.ts)
    (fresh : Nat) (playoutTime : Int) :
    fileFrame (F ++ [(l, fl)]) pkt fresh playoutTime = F ++ [(l, fl)] := by
  unfold fileFrame
  have : (F ++ [(l, fl)]).any (fun x => x.2.rtpTimestamp == pkt.ts) = false :=
    List.any_eq_false.mpr fun x hx => by simpa using hu x hx
  simp [this, hlt]

end UltraGrid.Rtp
