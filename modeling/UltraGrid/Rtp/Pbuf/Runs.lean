import UltraGrid.Rtp.Pbuf.Scheduler
import UltraGrid.Rtp.Pbuf.Insert
import UltraGrid.Rtp.Pbuf.Stats

/-!
# Runs of the playout buffer

A receiver calls `pbuf_init` once and then, in any order, `pbuf_insert` for every arriving
packet, `pbuf_decode` and `pbuf_remove` from its display loop, and `pbuf_set_playout_delay`.
`Op` names these calls and `run` makes a list of them. From every state a run reaches, each
call does to the frame list what `fileFrame`, `decodeFrames` or `removeFrames` says, or keeps
it when an allocation of `pbuf_insert` fails; the one call that does not return is a failed
allocation for a packet that opens a new tail frame (`step_cases`). So the layout that
`pbuf_validate` checks holds along every run that returns.

## Main definitions

* `Op`, `step`, `run` — the calls, one call, and a list of calls from a buffer.
* `absStep` — what a call does to the frame list.
* `Good` — the invariant of reachable buffers: a layout, sorted frames, an aligned cursor.

## Main statements

* `step_cases` — every call refines `absStep` and keeps `Good`, or crashes on a new tail frame
  whose allocation fails.
* `run_invariant_of_run` — what every refined step keeps holds after every run that returns;
  `run_invariant` — and a run whose allocations succeed returns.
-/

namespace UltraGrid.Rtp

/-- A call into the playout buffer; `mallocOk` says whether the allocations of `pbuf_insert`
succeed. -/
inductive Op where
  | insert (pkt : RtpPacket) (now offsetMs : Int) (mallocOk : Bool)
  | decode (now : Int) (decodeFunc : DecodeFrame)
  | remove (now : Int)
  | setPlayoutDelay (us : Int)

/-- Every allocation the call makes succeeds. -/
def Op.MallocOk : Op → Prop
  | .insert _ _ _ mallocOk => mallocOk = true
  | _ => True

/-- One call: the buffer after it, and the address of the frame handed to `decode_func`. -/
def step (b : Pbuf) : Op → Option (Pbuf × Option Nat)
  | .insert pkt now offsetMs mallocOk =>
    (pbufInsert b pkt now offsetMs mallocOk).map fun r => (r.1, none)
  | .decode now decodeFunc => (pbufDecode b now decodeFunc).map fun d => (d.buf, d.handed)
  | .remove now => (pbufRemove b now).map fun b => (b, none)
  | .setPlayoutDelay us => some (pbufSetPlayoutDelay b us, none)

/-- A list of calls from `b`: the final buffer and the frames handed to `decode_func`, in
order. -/
def run (b : Pbuf) : List Op → Option (Pbuf × List Nat)
  | [] => some (b, [])
  | op :: ops => do
    let (b, h) ← step b op
    let (b, hs) ← run b ops
    pure (b, h.toList ++ hs)

/-- What a call does to the frame list, when a new frame is put at `fresh` and the playout
delay is `delayUs`. A `pbuf_insert` whose allocation fails keeps the frames. -/
def absStep (F : List (Nat × Frame)) (fresh : Nat) (delayUs : Int) :
    Op → List (Nat × Frame) × Option Nat
  | .insert pkt now offsetMs true =>
    (fileFrame F pkt fresh (now + (delayUs + 1000 * offsetMs) * 1000), none)
  | .insert _ _ _ false => (F, none)
  | .decode now _ => decodeFrames now F
  | .remove now => (removeFrames now F, none)
  | .setPlayoutDelay _ => (F, none)

/-- The invariant of every buffer a run reaches, with `L` the frames it holds. -/
structure Good (b : Pbuf) (L : List Held) : Prop where
  layout : Layout b L
  wf : Wf (frames L)
  stats : StatsOk b

theorem good_pbufInit : Good pbufInit [] := ⟨layout_pbufInit, ⟨by simp, by simp⟩, pbufInit_statsOk⟩

theorem Good.lt_next {b : Pbuf} {L : List Held} (h : Good b L) {x : Held} (hx : x ∈ L) :
    x.addr < b.nodes.next := by
  obtain ⟨n, hn, -⟩ := h.layout.node hx
  by_contra hc
  simp [b.nodes.unused _ (Nat.le_of_not_lt hc)] at hn

/-- From a good buffer `pbuf_insert` with its allocations succeeding returns a good buffer whose
frames are `fileFrame` of the old ones. -/
theorem pbufInsert_refines {b : Pbuf} {L : List Held} (h : Good b L) (pkt : RtpPacket)
    (now offsetMs : Int) :
    ∃ b' r L', pbufInsert b pkt now offsetMs true = some (b', r) ∧ Good b' L' ∧
      frames L' = fileFrame (frames L) pkt b.nodes.next
        (now + (b.playoutDelayUs + 1000 * offsetMs) * 1000) ∧ b.nodes.next ≤ b'.nodes.next := by
  obtain ⟨b₁, r, e, hs, hf, hl, hd, hn, hc⟩ := insertStats_spec h.stats pkt
  obtain ⟨frst, last, nodes, cdata, L', e', hl', hL', hnext⟩ :=
    insertFrame_spec (h.layout.of_eq hf hl hn hc) h.wf pkt now offsetMs
  exact ⟨_, r, L', by simp [pbufInsert, e, e'], ⟨hl', hL' ▸ wf_fileFrame h.wf _ _ _, hs⟩,
    by rw [hL', hn, hd], hn ▸ hnext⟩

/-- From a good buffer `pbuf_insert` with its allocation failing crashes for a packet that opens a
new tail frame, and otherwise returns a good buffer holding the same frames. -/
theorem pbufInsert_false {b : Pbuf} {L : List Held} (h : Good b L) (pkt : RtpPacket)
    (now offsetMs : Int) :
    if NewTail (frames L) pkt then pbufInsert b pkt now offsetMs false = none
    else ∃ b' r, pbufInsert b pkt now offsetMs false = some (b', r) ∧ Good b' L ∧
      b.nodes.next ≤ b'.nodes.next := by
  obtain ⟨b₁, r, e, hs, hf, hl, -, hn, hc⟩ := insertStats_spec h.stats pkt
  have hi := insertFrame_false (h.layout.of_eq hf hl hn hc) h.wf pkt now offsetMs
  split_ifs at hi ⊢
  · simp [pbufInsert, e, hi]
  · obtain ⟨nodes, e', hcells, hnext⟩ := hi
    exact ⟨{ b₁ with nodes }, r, by simp [pbufInsert, e, e'],
      ⟨h.layout.of_cells hf hl (hcells.trans (congrArg Heap.cells hn)) (congrArg Heap.cells hc),
        h.wf, hs⟩, hn ▸ hnext⟩

/-- From a good buffer every call returns, keeps the buffer good and does to its frames what
`absStep` says, the node counter never going back; or it is a `pbuf_insert` whose allocation
fails for a packet that opens a new tail frame, and it crashes. -/
theorem step_cases {b : Pbuf} {L : List Held} (h : Good b L) (op : Op) :
    (∃ b' h' L', step b op = some (b', h') ∧ Good b' L' ∧
      (frames L', h') = absStep (frames L) b.nodes.next b.playoutDelayUs op ∧
      b.nodes.next ≤ b'.nodes.next) ∨
    ∃ pkt now offsetMs, op = .insert pkt now offsetMs false ∧ NewTail (frames L) pkt ∧
      step b op = none := by
  cases op with
  | insert pkt now offsetMs mallocOk =>
    cases mallocOk with
    | true =>
      obtain ⟨b', r, L', e, g, hL, hn⟩ := pbufInsert_refines h pkt now offsetMs
      exact .inl ⟨b', none, L', by simp [step, e], g, by simp [absStep, hL], hn⟩
    | false =>
      have hi := pbufInsert_false h pkt now offsetMs
      split_ifs at hi with ht
      · exact .inr ⟨pkt, now, offsetMs, rfl, ht, by simp [step, hi]⟩
      · obtain ⟨b', r, e, g, hn⟩ := hi
        exact .inl ⟨b', none, L, by simp [step, e], g, rfl, hn⟩
  | decode now df =>
    obtain ⟨nodes, L', e, hn, hl, hL⟩ := pbufDecode_spec now df h.layout
    exact .inl ⟨_, (decodeFrames now (frames L)).2, L', by simp [step, e],
      ⟨hl, hL ▸ wf_decodeFrames h.wf now, h.stats⟩, by simp [absStep, hL], hn.ge⟩
  | remove now =>
    obtain ⟨frst, last, nodes, cdata, L', e, hn, hl, hL⟩ := pbufRemove_spec h.layout now
    exact .inl ⟨_, none, L', by simp [step, e], ⟨hl, hL ▸ wf_removeFrames h.wf now, h.stats⟩,
      by simp [absStep, hL], hn.ge⟩
  | setPlayoutDelay us =>
    exact .inl ⟨_, none, L, rfl, ⟨h.layout.of_eq rfl rfl rfl rfl, h.wf, h.stats⟩, rfl, le_rfl⟩

/-- From a good buffer every call whose allocations succeed returns. -/
theorem step_spec {b : Pbuf} {L : List Held} (h : Good b L) {op : Op} (hop : op.MallocOk) :
    ∃ b' h' L', step b op = some (b', h') ∧ Good b' L' ∧
      (frames L', h') = absStep (frames L) b.nodes.next b.playoutDelayUs op ∧
      b.nodes.next ≤ b'.nodes.next :=
  (step_cases h op).resolve_right fun ⟨_, _, _, e, _⟩ => by subst e; exact Bool.false_ne_true hop

/-- An invariant `P` of the calls made so far, the buffer, its frames and the frames handed to
`decode_func`, which every refined step keeps, holds after every run that returns. -/
theorem run_invariant_of_run (P : List Op → Pbuf → List Held → List Nat → Prop)
    (hP : ∀ ops b L hs op b' h' L', Good b L → P ops b L hs → step b op = some (b', h') →
      Good b' L' → (frames L', h') = absStep (frames L) b.nodes.next b.playoutDelayUs op →
      b.nodes.next ≤ b'.nodes.next → P (ops ++ [op]) b' L' (hs ++ h'.toList)) :
    ∀ (rest ops : List Op) (b : Pbuf) (L : List Held) (hs : List Nat) (b' : Pbuf)
      (hs' : List Nat), Good b L → P ops b L hs → run b rest = some (b', hs') →
      ∃ L', Good b' L' ∧ P (ops ++ rest) b' L' (hs ++ hs')
  | [], ops, b, L, hs, b', hs', h, hp, e => by
    obtain ⟨rfl, rfl⟩ := Prod.mk.inj (Option.some.inj e)
    exact ⟨L, h, by simpa using hp⟩
  | op :: rest, ops, b, L, hs, b', hs', h, hp, e => by
    simp only [run, Option.bind_eq_bind, Option.bind_eq_some, Option.pure_def,
      Option.some.injEq] at e
    obtain ⟨⟨b₁, h₁⟩, e₁, ⟨b₂, hs₂⟩, e₂, he⟩ := e
    obtain ⟨rfl, rfl⟩ := Prod.mk.inj he
    rcases step_cases h op with ⟨b₁', h₁', L₁, e₁', g₁, ha₁, hn₁⟩ | ⟨-, -, -, -, -, e₁'⟩
    · rw [e₁] at e₁'
      obtain ⟨rfl, rfl⟩ := Prod.mk.inj (Option.some.inj e₁')
      obtain ⟨L', g', hp'⟩ := run_invariant_of_run P hP rest (ops ++ [op]) b₁ L₁
        (hs ++ h₁.toList) b₂ hs₂ g₁ (hP _ _ _ _ _ _ _ _ h hp e₁ g₁ ha₁ hn₁) e₂
      exact ⟨L', g', by simpa using hp'⟩
    · rw [e₁] at e₁'; cases e₁'

/-- Every run from `pbuf_init` that returns, whether its allocations succeed or not, returns a
good buffer. -/
theorem run_good_of_run {ops : List Op} {b : Pbuf} {hs : List Nat}
    (h : run pbufInit ops = some (b, hs)) : ∃ L, Good b L :=
  let ⟨L, g, _⟩ := run_invariant_of_run (fun _ _ _ _ => True)
    (fun _ _ _ _ _ _ _ _ _ _ _ _ _ _ => trivial) ops [] pbufInit [] [] b hs good_pbufInit trivial h
  ⟨L, g⟩

/-- An invariant `P` of the calls made so far, the buffer, its frames and the frames handed to
`decode_func`, which every refined step keeps, holds after every run whose allocations
succeed, and that run returns. -/
theorem run_invariant (P : List Op → Pbuf → List Held → List Nat → Prop)
    (hP : ∀ ops b L hs op b' h' L', Good b L → P ops b L hs → step b op = some (b', h') →
      Good b' L' → (frames L', h') = absStep (frames L) b.nodes.next b.playoutDelayUs op →
      b.nodes.next ≤ b'.nodes.next → P (ops ++ [op]) b' L' (hs ++ h'.toList)) :
    ∀ (rest ops : List Op) (b : Pbuf) (L : List Held) (hs : List Nat), Good b L →
      P ops b L hs → (∀ op ∈ rest, op.MallocOk) →
      ∃ b' hs' L', run b rest = some (b', hs') ∧ Good b' L' ∧ P (ops ++ rest) b' L' (hs ++ hs')
  | [], ops, b, L, hs, h, hp, _ => ⟨b, [], L, rfl, h, by simpa using hp⟩
  | op :: rest, ops, b, L, hs, h, hp, hok => by
    obtain ⟨b₁, h₁, L₁, e₁, g₁, ha₁, hn₁⟩ := step_spec h (hok op (List.mem_cons_self _ _))
    obtain ⟨b', hs', L', e', g', hp'⟩ := run_invariant P hP rest (ops ++ [op]) b₁ L₁
      (hs ++ h₁.toList) g₁ (hP _ _ _ _ _ _ _ _ h hp e₁ g₁ ha₁ hn₁)
      fun o ho => hok o (List.mem_cons_of_mem _ ho)
    exact ⟨b', h₁.toList ++ hs', L', by simp [run, e₁, e'], g', by simpa using hp'⟩

/-- Every run from `pbuf_init` whose allocations succeed returns a good buffer. -/
theorem run_good (ops : List Op) (hok : ∀ op ∈ ops, op.MallocOk) :
    ∃ b hs L, run pbufInit ops = some (b, hs) ∧ Good b L := by
  obtain ⟨b, hs, L, e, g, -⟩ :=
    run_invariant (fun _ _ _ _ => True) (fun _ _ _ _ _ _ _ _ _ _ _ _ _ _ => trivial) ops [] pbufInit [] []
      good_pbufInit trivial hok
  exact ⟨b, hs, L, e, g⟩

/-! ## The layout along runs -/

/-- Along every run whose allocations succeed the buffer has the layout `pbuf_validate` walks,
with the frames in increasing timestamp order and each packet list descending: the successor
`d'` of every packet `d` has `(int16_t)(d'.seqno - d.seqno) < 0`. -/
theorem run_pbufValid (ops : List Op) (hok : ∀ op ∈ ops, op.MallocOk) :
    ∃ b hs, run pbufInit ops = some (b, hs) ∧ PbufValid b := by
  obtain ⟨b, hs, L, e, g⟩ := run_good ops hok
  exact ⟨b, hs, e, g.layout.pbufValid g.wf⟩

theorem run_pbufValid_insertDecode :
    ∃ b hs, run pbufInit [.insert ⟨100, 0, true, 0, []⟩ 0 0 true, .remove 0,
      .decode 40000000 fun _ _ => 0] = some (b, hs) ∧ PbufValid b :=
  run_pbufValid _ (by simp [Op.MallocOk])

set_option maxRecDepth 4000 in
/-- Two packets of one frame half an epoch apart: the second is filed after the first, and
`(int16_t)(0 - 32768)` is not positive. -/
theorem run_halfEpoch_successor :
    ∃ b, run pbufInit [.insert ⟨100, 0, false, 0, []⟩ 0 0 true,
      .insert ⟨100, 32768, false, 0, []⟩ 0 0 true] = some (b, []) ∧
    ∃ n d d', b.nodes.cells 0 = some n ∧ n.cdata.bind b.cdata.cells = some d ∧
      d.nxt.bind b.cdata.cells = some d' ∧ ¬ 0 < int16Diff d.seqno d'.seqno :=
  ⟨_, rfl, _, _, _, rfl, rfl, rfl, by decide⟩

/-! ## Routing a packet -/

/-- From a good buffer `pbuf_insert` files the packet as `fileFrame` says: into the held frame
of its timestamp, or into a new tail frame after marking the old tail completed, or nowhere. -/
theorem pbufInsert_fileFrame {b : Pbuf} {L : List Held} (h : Good b L) (pkt : RtpPacket)
    (now offsetMs : Int) :
    ∃ b' r L', pbufInsert b pkt now offsetMs true = some (b', r) ∧ Good b' L' ∧
      frames L' = fileFrame (frames L) pkt b.nodes.next
        (now + (b.playoutDelayUs + 1000 * offsetMs) * 1000) :=
  let ⟨b', r, L', e, g, hL, _⟩ := pbufInsert_refines h pkt now offsetMs
  ⟨b', r, L', e, g, hL⟩

/-- A packet of the first of two held frames, found by the backward scan. -/
theorem pbufInsert_fileFrame_scan :
    ∃ b hs L, run pbufInit [.insert ⟨100, 0, false, 0, []⟩ 0 0 true,
      .insert ⟨200, 1, false, 0, []⟩ 0 0 true] = some (b, hs) ∧ Good b L ∧
      ∃ b' r L', pbufInsert b ⟨100, 2, true, 0, []⟩ 0 0 true = some (b', r) ∧ Good b' L' ∧
        frames L' = fileFrame (frames L) ⟨100, 2, true, 0, []⟩ b.nodes.next
          (0 + (b.playoutDelayUs + 1000 * 0) * 1000) := by
  obtain ⟨L, g⟩ := run_good_of_run (show run pbufInit [.insert ⟨100, 0, false, 0, []⟩ 0 0 true,
    .insert ⟨200, 1, false, 0, []⟩ 0 0 true] = some (_, []) from rfl)
  exact ⟨_, _, L, rfl, g, pbufInsert_fileFrame g _ 0 0⟩

/-- A packet of a later timestamp sets the completed flag of the old tail frame. -/
theorem run_newTail_marks_tail :
    ∃ b₁ b₂, run pbufInit [.insert ⟨100, 0, false, 0, []⟩ 0 0 true] = some (b₁, []) ∧
      run b₁ [.insert ⟨200, 1, false, 0, []⟩ 0 0 true] = some (b₂, []) ∧
      (b₁.nodes.cells 0).map PbufNode.completed = some false ∧
      (b₂.nodes.cells 0).map PbufNode.completed = some true :=
  ⟨_, _, rfl, rfl, rfl, rfl⟩

/-! ## A failed allocation -/

/-- When the packet list of a new tail frame cannot be allocated, `create_new_pnode` returns
`NULL`, and `pbuf_insert` writes `tmp->prv` through it. -/
theorem pbufInsert_newTail_malloc_fail {b : Pbuf} {L₀ : List Held} {y : Held}
    (h : Good b (L₀ ++ [y])) {pkt : RtpPacket} (hlt : y.frame.rtpTimestamp < pkt.ts)
    (now offsetMs : Int) : pbufInsert b pkt now offsetMs false = none := by
  obtain ⟨b₁, r, e, -, hf, hl, -, hn, hc⟩ := insertStats_spec h.stats pkt
  simp [pbufInsert, e, insertFrame_newTail_malloc_fail (h.layout.of_eq hf hl hn hc) hlt]

theorem pbufInsert_newTail_malloc_fail_second :
    ∃ b, run pbufInit [.insert ⟨100, 0, false, 0, []⟩ 0 0 true] = some (b, []) ∧
      pbufInsert b ⟨200, 1, false, 0, []⟩ 0 0 false = none := by
  refine ⟨_, rfl, @pbufInsert_newTail_malloc_fail _ [] ⟨0, Frame.new ⟨100, 0, false, 0, []⟩ 32000000, [0]⟩
    ?_ _ (by decide) 0 0⟩
  exact ⟨(Layout.single layout_pbufInit _ _).of_eq rfl rfl rfl rfl,
    ⟨by simp [frames], by simp [frames, Frame.new]⟩, .inr ⟨by decide, by decide, by decide⟩⟩

end UltraGrid.Rtp
