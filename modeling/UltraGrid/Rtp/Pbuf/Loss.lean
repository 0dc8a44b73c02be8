import UltraGrid.Rtp.Pbuf.Stats

/-!
# The loss counters of a stream

For a stream of packets whose sequence numbers go forward, the bitmap statistics of
`pbuf_insert` follow an unbounded-counter model (`LossModel`):

* sequence numbers are unwrapped to positions;
* the report cursor is a position that only moves forward and stays less than two intervals
  below the highest position seen;
* the window counters count the positions the cursor passed since the last report, and the
  received ones among them;
* at each flush, the cumulative counters gain the window counters as they stand then.

`expected_pkts += number_word_bits` is computed in `size_t` and converted back to `int`, so
`expected_pkts` holds the count of passed positions wrapped to 32 bits, for every stream
(`LossWindow`); a long stream without reports does wrap it. `received_pkts += …` and the
`long long` sums are signed additions, undefined out of range: the model of `pbuf_insert` wraps
them, and `LossInv` says that they hold the model's counts exactly while those fit
(`LossModel.Fits`), which a stream of fewer than `2^31 - STATS_INTERVAL` packets ensures
(`LossModel.Counted`). Each flush adds the whole window to the cumulative counters, so a window
flushed twice without a report in between is counted twice (`statsRun_cum_recounts`), and a late
packet behind the cursor reads as one far ahead (`statsRun_late_flushes_epoch`).

## Main definitions

* `statsRun` — the statistics part of `pbuf_insert` over a stream of packets.
* `LossModel` — the unbounded-counter model, with `LossModel.init`, `LossModel.step` and
  `LossModel.run`.
* `LossWindow`, `LossInv` — a buffer holds the window and bitmap of a model, and its counts.

## Main statements

* `insertStats_step` — one packet keeps an invariant that marking, flushing and reporting keep.
* `lossWindow_run`, `lossInv_run` — every stream that moves forward keeps `LossWindow`, and
  `LossInv` while the counts fit.
-/

namespace UltraGrid.Rtp

/-- The statistics part of `pbuf_insert` over a stream of packets: the buffer after the last one,
and whether each call logged a report. -/
def statsRun (b : Pbuf) : List RtpPacket → Option (Pbuf × List (Option Report))
  | [] => some (b, [])
  | pkt :: pkts => do
    let (b, r) ← insertStats b pkt
    let (b, rs) ← statsRun b pkts
    pure (b, r :: rs)

theorem statsRun_cons {b b₁ b' : Pbuf} {pkt : RtpPacket} {pkts : List RtpPacket} {r : Option Report}
    {rs : List (Option Report)} (h : insertStats b pkt = some (b₁, r))
    (h' : statsRun b₁ pkts = some (b', rs)) : statsRun b (pkt :: pkts) = some (b', r :: rs) := by
  simp [statsRun, h, h']

/-- How far the sequence number moves forward from `a` to `a'`, in `[0, 2^16)`. -/
def seqAdvance (a a' : UInt16) : Nat := (a'.toNat + 65536 - a.toNat) % 65536

/-- `a'` is `1` to `n` sequence numbers ahead of `a`. -/
def AdvancesBy (n : Nat) (a a' : UInt16) : Prop := 0 < seqAdvance a a' ∧ seqAdvance a a' ≤ n

instance (n : Nat) : DecidableRel (AdvancesBy n) := fun _ _ => inferInstanceAs (Decidable (_ ∧ _))

/-- The position `h + seqAdvance prev a` of `a`, after `prev` at position `h`, is `a` modulo
`2^16`. -/
theorem toNat_eq_seqAdvance {prev a : UInt16} {h : Nat} (hp : prev.toNat = h % 65536) :
    a.toNat = (h + seqAdvance prev a) % 65536 := by
  have := toNat_lt a
  unfold seqAdvance; omega

/-! ## The model -/

/-- The statistics in unbounded positions: the report `cursor`, the highest position `high`
seen, the cursor at the last report `reset`, the positions counted as received, and the
cumulative counters. -/
structure LossModel where
  cursor : Nat
  high : Nat
  reset : Nat
  arrived : Nat → Bool
  expectedCum : Int
  receivedCum : Int

namespace LossModel

/-- After the first packet, at position `u`: the cursor at the start of its interval, and the
slots from there up to the packet counted as received. -/
def init (u : Nat) : LossModel where
  cursor := u / statsInterval * statsInterval
  high := u
  reset := u / statsInterval * statsInterval
  arrived p := decide (u / statsInterval * statsInterval ≤ p ∧ p ≤ u)
  expectedCum := 0
  receivedCum := 0

/-- The received positions the cursor passed since the last report. -/
def received (m : LossModel) : Nat := (List.range' m.reset (m.cursor - m.reset)).countP m.arrived

/-- The packet at position `u` arrives. -/
def mark (m : LossModel) (u : Nat) : LossModel :=
  { m with high := u, arrived := Function.update m.arrived u true }

/-- The cursor moves to the interval below the one of `u`, and the window counters are added to
the cumulative ones: the received positions as they are, and the positions passed as the `int`
that `expected_pkts` holds, the conversion of its `size_t` sum. -/
def flush (m : LossModel) (u : Nat) : LossModel :=
  let m' := { m with cursor := u / statsInterval * statsInterval - statsInterval }
  { m' with
    expectedCum := m.expectedCum + int32 ((m'.cursor : Int) - m.reset)
    receivedCum := m.receivedCum + m'.received }

/-- A report starts new window counters at the cursor. -/
def resetWindow (m : LossModel) : LossModel := { m with reset := m.cursor }

@[simp] theorem mark_high (m : LossModel) (u : Nat) : (m.mark u).high = u := rfl

@[simp] theorem mark_reset (m : LossModel) (u : Nat) : (m.mark u).reset = m.reset := by
  dsimp only [mark]

@[simp] theorem mark_arrived (m : LossModel) (u : Nat) :
    (m.mark u).arrived = Function.update m.arrived u true := rfl

@[simp] theorem flush_cursor (m : LossModel) (u : Nat) :
    (m.flush u).cursor = u / statsInterval * statsInterval - statsInterval := by dsimp only [flush]

@[simp] theorem flush_high (m : LossModel) (u : Nat) : (m.flush u).high = m.high := by
  dsimp only [flush]

@[simp] theorem flush_reset (m : LossModel) (u : Nat) : (m.flush u).reset = m.reset := by
  dsimp only [flush]

@[simp] theorem flush_arrived (m : LossModel) (u : Nat) : (m.flush u).arrived = m.arrived := by
  dsimp only [flush]

/-- A packet at position `u` beyond `high`: it is marked, and flushed once it is two intervals
ahead of the cursor. -/
def advance (m : LossModel) (u : Nat) : LossModel :=
  if m.cursor + 2 * statsInterval ≤ u then (m.mark u).flush u else m.mark u

/-- The packet at position `u`, where `report` says whether the call reported. -/
def step (m : LossModel) (u : Nat) (report : Bool) : LossModel :=
  if report then (m.advance u).resetWindow else m.advance u

/-- The packets after one at sequence number `prev`, with the report flags of their calls. -/
def run (m : LossModel) (prev : UInt16) : List RtpPacket → List Bool → LossModel
  | pkt :: pkts, r :: rs => (m.step (m.high + seqAdvance prev pkt.seq) r).run pkt.seq pkts rs
  | _, _ => m

@[simp] theorem advance_high (m : LossModel) (u : Nat) : (m.advance u).high = u := by
  unfold advance; split_ifs <;> rfl

@[simp] theorem step_high (m : LossModel) (u : Nat) (r : Bool) : (m.step u r).high = u := by
  unfold step; split_ifs <;> simp [resetWindow]

theorem step_cursor (m : LossModel) (u : Nat) (r : Bool) :
    (m.step u r).cursor = if m.cursor + 2 * statsInterval ≤ u then
      u / statsInterval * statsInterval - statsInterval else m.cursor := by
  unfold step advance; split_ifs <;> rfl

theorem step_false_reset (m : LossModel) (u : Nat) : (m.step u false).reset = m.reset := by
  simp only [step, advance, Bool.false_eq_true, if_false]; split_ifs <;> simp [flush, mark]

/-- The cursor never moves back. -/
theorem cursor_le_step (m : LossModel) (u : Nat) (r : Bool) : m.cursor ≤ (m.step u r).cursor := by
  rw [step_cursor]; split_ifs with h <;> simp only [statsInterval] at h ⊢ <;> omega

/-! ### The counts fit the C types -/

/-- The counts of `m` fit the C types: the received positions of the window an `int`, the
cumulative counters a `long long`. -/
def Fits (m : LossModel) : Prop :=
  m.received < 2 ^ 31 ∧ -2 ^ 63 ≤ m.expectedCum ∧ m.expectedCum < 2 ^ 63 ∧
    0 ≤ m.receivedCum ∧ m.receivedCum < 2 ^ 63

/-- After the first packet and `k` more, at most `k + STATS_INTERVAL` positions arrived, the
packets and the slots the first one prefilled, and each packet added at most one window to the
cumulative counters. -/
structure Counted (m : LossModel) (k : Nat) : Prop where
  arrived : ∃ S : List Nat, S.length ≤ k + statsInterval ∧ ∀ p, m.arrived p → p ∈ S
  receivedCum : 0 ≤ m.receivedCum ∧ m.receivedCum ≤ ((k * (k + statsInterval) : Nat) : Int)
  expectedCum : -((k : Int) * 2 ^ 31) ≤ m.expectedCum ∧ m.expectedCum ≤ (k : Int) * 2 ^ 31

/-- The window counts at most the positions that arrived. -/
theorem received_le {m : LossModel} {S : List Nat} (hS : ∀ p, m.arrived p → p ∈ S) :
    m.received ≤ S.length := by
  rw [received, List.countP_eq_length_filter]
  exact (((List.nodup_range' _ _).filter _).subperm fun p hp =>
    hS p (List.of_mem_filter hp)).length_le

theorem counted_init (u : Nat) : (init u).Counted 0 := by
  refine ⟨⟨List.range' (u / statsInterval * statsInterval) (u % statsInterval + 1), ?_,
    fun p hp => ?_⟩, by simp [init], by simp [init]⟩
  · simp only [List.length_range', statsInterval]; omega
  · simp only [init, decide_eq_true_eq] at hp
    simp only [List.mem_range'_1, statsInterval] at hp ⊢; omega

theorem Counted.resetWindow {m : LossModel} {k : Nat} (h : m.Counted k) : m.resetWindow.Counted k :=
  ⟨h.arrived, h.receivedCum, h.expectedCum⟩

/-- A packet adds one arrived position and at most one window. -/
theorem Counted.advance {m : LossModel} {k : Nat} (h : m.Counted k) (u : Nat) :
    (m.advance u).Counted (k + 1) := by
  obtain ⟨S, hS, hm⟩ := h.arrived
  have ha : ∀ p, (m.mark u).arrived p → p ∈ u :: S := fun p hp => by
    by_cases e : p = u
    · simp [e]
    · simp only [mark, Function.update_noteq e] at hp; exact List.mem_cons_of_mem _ (hm p hp)
  have hl : (u :: S).length ≤ k + 1 + statsInterval := by simp only [List.length_cons]; omega
  obtain ⟨h₁, h₂⟩ := h.receivedCum
  obtain ⟨h₃, h₄⟩ := h.expectedCum
  have hP : k * (k + statsInterval) ≤ (k + 1) * (k + 1 + statsInterval) :=
    Nat.mul_le_mul (by omega) (by omega)
  unfold LossModel.advance; split_ifs
  · -- the flush adds one window of at most `k + 1 + STATS_INTERVAL` received positions
    have hr := @received_le { m.mark u with cursor := u / statsInterval * statsInterval -
      statsInterval } _ ha
    have e : (k + 1) * (k + 1 + statsInterval) =
        k * (k + statsInterval) + (2 * k + 1 + statsInterval) := by ring
    have hx := int32_lt (((u / statsInterval * statsInterval - statsInterval : Nat) : Int) - m.reset)
    have hx' := int32_ge (((u / statsInterval * statsInterval - statsInterval : Nat) : Int) - m.reset)
    refine ⟨⟨u :: S, hl, ha⟩, ⟨?_, ?_⟩, ⟨?_, ?_⟩⟩ <;> simp only [flush, mark] at hr ⊢
    · omega
    · rw [e, Nat.cast_add]
      generalize k * (k + statsInterval) = P at *
      omega
    all_goals push_cast; omega
  · refine ⟨⟨u :: S, hl, ha⟩, ⟨h₁, h₂.trans (Int.ofNat_le.2 hP)⟩, ⟨?_, ?_⟩⟩ <;>
      simp only [mark] <;> push_cast <;> omega

theorem Counted.step {m : LossModel} {k : Nat} (h : m.Counted k) (u : Nat) (r : Bool) :
    (m.step u r).Counted (k + 1) := by
  unfold LossModel.step; split_ifs
  exacts [(h.advance u).resetWindow, h.advance u]

/-- While fewer than `2^31` positions arrived, the counts fit. -/
theorem Counted.fits {m : LossModel} {k : Nat} (h : m.Counted k) (hk : k + statsInterval < 2 ^ 31) :
    m.Fits := by
  obtain ⟨S, hS, hm⟩ := h.arrived
  have hr := received_le hm
  have hp : k * (k + statsInterval) ≤ 2 ^ 62 :=
    (Nat.mul_le_mul (show k ≤ 2 ^ 31 by omega) hk.le).trans (by norm_num)
  obtain ⟨h₁, h₂⟩ := h.receivedCum
  obtain ⟨h₃, h₄⟩ := h.expectedCum
  have hp' : ((k * (k + statsInterval) : Nat) : Int) ≤ 2 ^ 62 := by exact_mod_cast hp
  exact ⟨by omega, by omega, by omega, h₁, by omega⟩

end LossModel

/-- What the statistics fields of `b` hold of the model `m` for every stream: the cursor modulo
`2^16`, the bitmap slots of the `2^16` positions from the cursor on, and `expected_pkts`, the
number of positions the cursor passed as the `int` its `size_t` sum converts to. -/
structure LossWindow (b : Pbuf) (m : LossModel) : Prop where
  cursor : b.lastReportSeq = ((m.cursor % 65536 : Nat) : Int)
  aligned : m.cursor % statsInterval = 0
  le_high : m.cursor ≤ m.high
  high_lt : m.high < m.cursor + 2 * statsInterval
  reset_le : m.reset ≤ m.cursor
  arrived_le : ∀ p, m.arrived p → p ≤ m.high
  bits : ∀ p, m.cursor ≤ p → p < m.cursor + 65536 → bitAt b.packets (p % 65536) = m.arrived p
  expected : b.expectedPkts = int32 ((m.cursor : Int) - m.reset)

/-- While the counts fit the C types (`received_pkts += …` and the `long long` sums are signed
additions, undefined out of range), `received_pkts` and the cumulative counters hold the counts
of the model. -/
structure LossInv (b : Pbuf) (m : LossModel) extends LossWindow b m : Prop where
  fits : m.Fits
  received : b.receivedPkts = m.received
  expectedCum : b.expectedPktsCum = m.expectedCum
  receivedCum : b.receivedPktsCum = m.receivedCum

/-! ## One packet -/

theorem countP_update_of_not_mem {l : List Nat} {f : Nat → Bool} {u : Nat} (h : u ∉ l) :
    l.countP (Function.update f u true) = l.countP f :=
  List.countP_congr fun p hp => by rw [Function.update_noteq (fun (e : p = u) => h (e ▸ hp))]

theorem arrived_le_mark {m : LossModel} (h : ∀ p, m.arrived p → p ≤ m.high) {u : Nat}
    (hu : m.high < u) : ∀ p, (m.mark u).arrived p → p ≤ u := fun p hp => by
  by_cases e : p = u
  · omega
  · dsimp only [LossModel.mark] at hp
    rw [Function.update_noteq e] at hp; have := h p hp; omega

/-- Marking position `u` in the window from the cursor sets its slot only. -/
theorem bitAt_markPacket {b : Pbuf} {m : LossModel} (h : LossWindow b m) {u p : Nat}
    (hu : m.cursor ≤ u) (hu' : u < m.cursor + 65536) (hp : m.cursor ≤ p) (hp' : p < m.cursor + 65536) :
    bitAt (setBit b.packets (u % 65536)) (p % 65536) = Function.update m.arrived u true p := by
  rw [bitAt_setBit, h.bits p hp hp']
  by_cases e : p = u
  · subst e; simp
  · have : p % 65536 ≠ u % 65536 := by omega
    simp [Function.update_noteq e, this]

/-- A position beyond `high` is not among those the window counted. -/
theorem received_mark {m : LossModel} (h : m.cursor ≤ m.high) {u : Nat} (hu : m.high < u) :
    (m.mark u).received = m.received := by
  simp only [LossModel.received, LossModel.mark]
  exact countP_update_of_not_mem (by simp; omega)

/-- A packet less than two intervals ahead of the cursor is only marked. -/
theorem lossWindow_mark {b : Pbuf} {m : LossModel} (h : LossWindow b m) {u : Nat} (hu : m.high < u)
    (hf : u < m.cursor + 2 * statsInterval) (o d : Bool) :
    LossWindow { b with packets := setBit b.packets (u % 65536), outOfOrderPkts := o, dups := d }
      (m.mark u) := by
  have := h.le_high
  refine ⟨h.cursor, h.aligned, by dsimp only [LossModel.mark]; omega, hf, h.reset_le,
    arrived_le_mark h.arrived_le hu, fun p hp hp' => ?_, h.expected⟩
  exact bitAt_markPacket h (by omega) (by simp only [statsInterval] at hf; omega) hp hp'

theorem lossInv_mark {b : Pbuf} {m : LossModel} (h : LossInv b m) {u : Nat} (hu : m.high < u)
    (hf : u < m.cursor + 2 * statsInterval) (o d : Bool) :
    LossInv { b with packets := setBit b.packets (u % 65536), outOfOrderPkts := o, dups := d }
      (m.mark u) := by
  have hr := received_mark h.le_high hu
  refine ⟨lossWindow_mark h.toLossWindow hu hf o d, ?_, hr ▸ h.received, h.expectedCum,
    h.receivedCum⟩
  unfold LossModel.Fits; rw [hr]; exact h.fits

/-- The slots `m.cursor + t` for `t < w`, read through the word loop from the cursor, count the
received positions among them. -/
theorem countP_window {b : Pbuf} {m : LossModel} (h : LossWindow b m) {u w : Nat}
    (hw : m.cursor + w ≤ u) (hu' : u < m.cursor + 65536) :
    ((List.range w).countP fun t =>
      bitAt (setBit b.packets (u % 65536)) ((m.cursor % 65536 + t) % 65536)) =
      (List.range' m.cursor w).countP (Function.update m.arrived u true) := by
  rw [List.range'_eq_map_range, List.countP_map]
  refine List.countP_congr fun t ht => ?_
  have := List.mem_range.1 ht
  rw [Nat.mod_add_mod, Function.comp_apply,
    bitAt_markPacket h (by omega) hu' (Nat.le_add_right _ _) (by omega)]

/-- The arithmetic of a flush: from the aligned cursor `c`, a packet at `u`, two intervals ahead
and less than `2^16`, moves the cursor by `k` words to the interval below its own. -/
theorem flush_rounds {c u : Nat} (ha : c % statsInterval = 0) (hf : c + 2 * statsInterval ≤ u)
    (hu : u < c + 65536) :
    ∃ k, c + 64 * k = u / statsInterval * statsInterval - statsInterval ∧ k ≤ 1024 ∧
      statsInterval * 2 ≤ (((u % 65536 : Nat) : Int) - ((c % 65536 : Nat) : Int)) % 65536 ∧
      (u / statsInterval * statsInterval - statsInterval) % 65536 =
        (u % 65536 / statsInterval * statsInterval + 65536 - statsInterval) % 65536 ∧
      k = ((u / statsInterval * statsInterval - statsInterval) % 65536 + 65536 - c % 65536) % 65536 /
        numberWordBits := by
  simp only [statsInterval, numberWordBits] at *
  exact ⟨(u / 128 * 128 - 128 - c) / 64, by omega, by omega, by omega, by omega, by omega⟩

/-- After the flush rounds from the cursor, the slots the cursor passed are clear and the others
are those of the marked bitmap. -/
theorem bitAt_flush {b b₂ : Pbuf} {m : LossModel} (h : LossWindow b m) {u k : Nat}
    (hb : b₂.packets = setBit b.packets (u % 65536)) (hu : m.high < u) (hu' : u < m.cursor + 65536)
    (hk : k ≤ 1024) (p : Nat) (hp : m.cursor + 64 * k ≤ p) (hp' : p < m.cursor + 64 * k + 65536) :
    bitAt (flushWords b₂ (m.cursor % 65536) k).packets (p % 65536) =
      Function.update m.arrived u true p := by
  have := h.le_high
  have hal := h.aligned
  simp only [statsInterval] at hal
  rw [bitAt_flushWords b₂ _ k (Nat.mod_lt _ (by norm_num)) (by omega) hk _ (Nat.mod_lt _ (by norm_num)),
    hb, numberWordBits]
  by_cases hpc : p < m.cursor + 65536
  · have : ¬ (p % 65536 + 65536 - m.cursor % 65536) % 65536 < 64 * k := by omega
    rw [bitAt_markPacket h (by omega) hu' (by omega) hpc]
    simp [this]
  · have : (p % 65536 + 65536 - m.cursor % 65536) % 65536 < 64 * k := by omega
    have ha : m.arrived p = false := by
      by_contra hc; have := h.arrived_le p (by simpa using hc); omega
    simp [this, Function.update_noteq (show p ≠ u by omega), ha]

/-- A packet two intervals ahead of the cursor or more is marked, and the words from the
cursor up to the interval below the packet's are flushed into the window counters, which are
then added to the cumulative ones. While `received_pkts` holds an `int`, it gains the
positions that arrived among those the cursor passed. -/
theorem lossWindow_flush {b : Pbuf} {m : LossModel} (h : LossWindow b m) {u : Nat} (hu : m.high < u)
    (hu' : u < m.cursor + 65536) (hf : m.cursor + 2 * statsInterval ≤ u) (o d : Bool) :
    ∃ b', flushStats
        { b with packets := setBit b.packets (u % 65536), outOfOrderPkts := o, dups := d }
        (u % 65536) = some b' ∧ LossWindow b' ((m.mark u).flush u) ∧
      (int32 b.receivedPkts = b.receivedPkts →
        b'.receivedPkts = int32 (b.receivedPkts + ((m.mark u).flush u).received - m.received)) ∧
      b'.receivedPktsCum = int64 (b.receivedPktsCum + b'.receivedPkts) ∧
      b'.expectedPktsCum = int64 (b.expectedPktsCum + b'.expectedPkts) := by
  obtain ⟨k, hC, hk, h₁, h₂, h₃⟩ := flush_rounds h.aligned hf hu'
  generalize hC' : u / statsInterval * statsInterval - statsInterval = C' at hC h₂ h₃
  have hs : ((m.mark u).flush u).received =
      (List.range' m.reset (C' - m.reset)).countP (Function.update m.arrived u true) := by
    simp only [LossModel.flush, LossModel.mark, LossModel.received, hC']
  have hn : m.cursor % 65536 % 64 = 0 := by
    have := h.aligned; simp only [statsInterval] at this; omega
  set b₂ := { b with packets := setBit b.packets (u % 65536), outOfOrderPkts := o, dups := d }
  refine ⟨_, @flushStats_of_le b₂ _ _ _ k h.cursor (Nat.mod_lt _ (by norm_num)) hn h₁ h₂ h₃, ?_⟩
  clear h₁ h₂ h₃
  have hre := h.reset_le
  have hle := h.le_high
  -- the window counters after the loop: `64 k` more slots, and the received ones among them
  have he : (flushWords b₂ (m.cursor % 65536) k).expectedPkts = int32 ((C' : Int) - m.reset) := by
    have he : b₂.expectedPkts = int32 ((m.cursor : Int) - m.reset) := h.expected
    rw [flushWords_expectedPkts b₂ _ k (by rw [he, int32_int32]), he, int32_add_int32]
    exact congrArg int32 (by simp only [numberWordBits]; omega)
  have hr : int32 b.receivedPkts = b.receivedPkts →
      (flushWords b₂ (m.cursor % 65536) k).receivedPkts =
        int32 (b.receivedPkts + ((m.mark u).flush u).received - m.received) := fun hr => by
    have hu : u ∉ List.range' m.reset (m.cursor - m.reset) := by simp; omega
    have hw : List.range' m.reset (m.cursor - m.reset) ++ List.range' m.cursor (64 * k) =
        List.range' m.reset (C' - m.reset) := by
      have := List.range'_append_1 m.reset (m.cursor - m.reset) (64 * k)
      rwa [Nat.add_sub_cancel' hre, show 64 * k + (m.cursor - m.reset) = C' - m.reset by omega]
        at this
    rw [flushWords_receivedPkts b₂ _ k (Nat.mod_lt _ (by norm_num)) hn hk hr, numberWordBits,
      countP_window h (by simp only [statsInterval] at hC'; omega) hu', hs, ← hw,
      List.countP_append, countP_update_of_not_mem hu, LossModel.received]
    push_cast; ring_nf
  obtain ⟨-, hrc, hec, -⟩ := flushWords_keeps b₂ (m.cursor % 65536) k
  have hcur : ((m.mark u).flush u).cursor = C' := hC'
  simp only [statsInterval] at hC'
  refine ⟨⟨?_, ?_, ?_, ?_, ?_, fun p hp => ?_, fun p hp hp' => ?_, ?_⟩,
    hr, by show int64 (_ + _) = _; rw [hrc], by show int64 (_ + _) = _; rw [hec]⟩
  · rw [hcur]
  · rw [hcur, statsInterval]; omega
  · rw [hcur, LossModel.flush_high, LossModel.mark_high]; omega
  · rw [hcur, LossModel.flush_high, LossModel.mark_high, statsInterval]; omega
  · rw [hcur, LossModel.flush_reset, LossModel.mark_reset]; omega
  · rw [LossModel.flush_arrived] at hp
    rw [LossModel.flush_high]
    exact arrived_le_mark h.arrived_le hu p hp
  · rw [hcur] at hp hp'
    rw [LossModel.flush_arrived, LossModel.mark_arrived]
    exact bitAt_flush h rfl hu hu' hk p (by omega) (by omega)
  · rw [hcur, LossModel.flush_reset, LossModel.mark_reset]; exact he

/-- While the counts fit, the flush adds to the exact counters. -/
theorem lossInv_flush {b : Pbuf} {m : LossModel} (h : LossInv b m) {u : Nat} (hu : m.high < u)
    (hu' : u < m.cursor + 65536) (hf : m.cursor + 2 * statsInterval ≤ u) (o d : Bool)
    (hfit : ((m.mark u).flush u).Fits) :
    ∃ b', flushStats
        { b with packets := setBit b.packets (u % 65536), outOfOrderPkts := o, dups := d }
        (u % 65536) = some b' ∧ LossInv b' ((m.mark u).flush u) := by
  obtain ⟨b', e, hw, hr, hrc, hec⟩ := lossWindow_flush h.toLossWindow hu hu' hf o d
  have hr₀ := h.received
  have hf₀ := h.fits
  obtain ⟨h₁, h₂, h₃, h₄, h₅⟩ := hfit
  unfold LossModel.Fits at hf₀
  have hr' : b'.receivedPkts = ((m.mark u).flush u).received := by
    rw [hr (by rw [hr₀]; exact int32_of_lt (by omega) (by omega)), hr₀, add_sub_cancel_left]
    exact int32_of_lt (by omega) (by exact_mod_cast h₁)
  refine ⟨b', e, hw, ⟨h₁, h₂, h₃, h₄, h₅⟩, hr', ?_, ?_⟩
  · rw [hec, hw.expected, h.expectedCum]
    exact int64_of_range h₂ h₃
  · rw [hrc, hr', h.receivedCum]
    exact int64_of_range (by omega) h₅

/-- A report starts new window counters at the cursor. -/
theorem lossWindow_report {b : Pbuf} {m : LossModel} (h : LossWindow b m) (ts : UInt32) :
    LossWindow
      { b with
        expectedPkts := 0, receivedPkts := 0, lastDisplayTs := ts, longestGap := 0,
        outOfOrderPkts := false, dups := false }
      m.resetWindow :=
  ⟨h.cursor, h.aligned, h.le_high, h.high_lt, le_rfl, h.arrived_le, h.bits,
    by simp [LossModel.resetWindow]⟩

theorem lossInv_report {b : Pbuf} {m : LossModel} (h : LossInv b m) (ts : UInt32) :
    LossInv
      { b with
        expectedPkts := 0, receivedPkts := 0, lastDisplayTs := ts, longestGap := 0,
        outOfOrderPkts := false, dups := false }
      m.resetWindow :=
  have h0 : m.resetWindow.received = 0 := by simp [LossModel.resetWindow, LossModel.received]
  ⟨lossWindow_report h.toLossWindow ts, by
    obtain ⟨-, hf⟩ := h.fits; exact ⟨by rw [h0]; norm_num, hf⟩, by rw [h0]; rfl, h.expectedCum,
    h.receivedCum⟩

/-- One packet at position `u`, beyond `high`, for an invariant `I` that marking, the flush
block and a report keep. -/
theorem insertStats_step (I : Pbuf → LossModel → Prop) {b : Pbuf} {m : LossModel}
    (h : LossWindow b m) {pkt : RtpPacket} {u : Nat} (hs : pkt.seq.toNat = u % 65536)
    (h₀ : m.high < u)
    (hmark : ∀ o d, u < m.cursor + 2 * statsInterval →
      I { b with packets := setBit b.packets (u % 65536), outOfOrderPkts := o, dups := d } (m.mark u))
    (hflush : ∀ o d, m.cursor + 2 * statsInterval ≤ u → ∃ b', flushStats
      { b with packets := setBit b.packets (u % 65536), outOfOrderPkts := o, dups := d } (u % 65536) =
        some b' ∧ I b' ((m.mark u).flush u))
    (hreport : ∀ b' m', I b' m' → I { b' with
        expectedPkts := 0, receivedPkts := 0, lastDisplayTs := pkt.ts, longestGap := 0,
        outOfOrderPkts := false, dups := false } m'.resetWindow) :
    ∃ b' r, insertStats b pkt = some (b', r) ∧ I b' (m.step u r.isSome) := by
  have hi : statsInit b pkt.seq.toNat = b := statsInit_of_ne (by rw [h.cursor]; omega) _
  obtain ⟨o, d, e⟩ := markPacket_eq b pkt.seq.toNat
  obtain ⟨b₃, e₃, h₃⟩ : ∃ b₃, flushStats (markPacket b pkt.seq.toNat) pkt.seq.toNat = some b₃ ∧
      I b₃ (m.advance u) := by
    rw [e, hs, LossModel.advance]
    split_ifs with hf
    · exact hflush o d hf
    · refine ⟨_, flushStats_of_lt ?_, hmark o d (by omega)⟩
      have := h.le_high
      simp only [h.cursor, statsInterval] at hf ⊢
      omega
  have hr : insertStats b pkt = some (reportStats b₃ pkt) := by simp [insertStats, hi, e₃]
  by_cases hrep : 90000 * 5 < (pkt.ts - b₃.lastDisplayTs).toNat ∧ 0 < b₃.expectedPkts
  · obtain ⟨r, er⟩ := reportStats_of hrep
    exact ⟨_, some r, hr.trans (by rw [er]), hreport _ _ h₃⟩
  · exact ⟨b₃, none, hr.trans (by rw [reportStats_of_not hrep]), h₃⟩

/-- One packet, ahead of the last one and less than `2^16` positions ahead of the cursor, keeps
`LossWindow`. -/
theorem lossWindow_step {b : Pbuf} {m : LossModel} (h : LossWindow b m) {prev : UInt16}
    (hp : prev.toNat = m.high % 65536) (pkt : RtpPacket) (h₀ : 0 < seqAdvance prev pkt.seq)
    (h₁ : m.high + seqAdvance prev pkt.seq < m.cursor + 65536) :
    ∃ b' r, insertStats b pkt = some (b', r) ∧
      LossWindow b' (m.step (m.high + seqAdvance prev pkt.seq) r.isSome) :=
  insertStats_step LossWindow h (toNat_eq_seqAdvance hp) (by omega)
    (fun o d hf => lossWindow_mark h (by omega) hf o d)
    (fun o d hf => let ⟨b', e, hw, _⟩ := lossWindow_flush h (by omega) h₁ hf o d; ⟨b', e, hw⟩)
    fun _ _ h' => lossWindow_report h' pkt.ts

/-- So does `LossInv`, while the counts fit after the packet. -/
theorem lossInv_step {b : Pbuf} {m : LossModel} (h : LossInv b m) {prev : UInt16}
    (hp : prev.toNat = m.high % 65536) (pkt : RtpPacket) (h₀ : 0 < seqAdvance prev pkt.seq)
    (h₁ : m.high + seqAdvance prev pkt.seq < m.cursor + 65536)
    (hfit : (m.advance (m.high + seqAdvance prev pkt.seq)).Fits) :
    ∃ b' r, insertStats b pkt = some (b', r) ∧
      LossInv b' (m.step (m.high + seqAdvance prev pkt.seq) r.isSome) := by
  unfold LossModel.advance at hfit
  exact insertStats_step LossInv h.toLossWindow (toNat_eq_seqAdvance hp) (by omega)
    (fun o d hf => lossInv_mark h (by omega) hf o d)
    (fun o d hf => lossInv_flush h (by omega) h₁ hf o d (by rwa [if_pos hf] at hfit))
    fun _ _ h' => lossInv_report h' pkt.ts

/-- The first packet after `pbuf_init` starts the model: the cursor at the start of its
interval, the slots before it prefilled, and no report. -/
theorem lossInv_first (pkt : RtpPacket) :
    ∃ b, insertStats pbufInit pkt = some (b, none) ∧ LossInv b (LossModel.init pkt.seq.toNat) := by
  have hs := toNat_lt pkt.seq
  unfold insertStats
  generalize pkt.seq.toNat = u at hs ⊢
  have hi := statsInit_of_eq (show pbufInit.lastReportSeq = -1 from rfl) u
  obtain ⟨o, d, e⟩ := markPacket_eq (statsInit pbufInit u) u
  have hc : u / statsInterval * statsInterval ≤ u := Nat.div_mul_le_self _ _
  have hf : flushStats (markPacket (statsInit pbufInit u) u) u =
      some (markPacket (statsInit pbufInit u) u) :=
    flushStats_of_lt (by rw [e, hi]; dsimp only; simp only [statsInterval] at hc ⊢; omega)
  have hr : reportStats (markPacket (statsInit pbufInit u) u) pkt =
      (markPacket (statsInit pbufInit u) u, none) :=
    reportStats_of_not (by rw [e, hi]; simp [pbufInit])
  have h0 : (LossModel.init u).received = 0 := by simp [LossModel.init, LossModel.received]
  refine ⟨markPacket (statsInit pbufInit u) u, by simp [hf, hr], ?_⟩
  rw [e, hi]
  refine ⟨⟨?_, Nat.mul_mod_left _ _, hc, by simp only [LossModel.init, statsInterval]; omega, le_rfl,
    fun p hp => (of_decide_eq_true hp).2, fun p hp hp' => ?_, by simp [pbufInit, LossModel.init]⟩,
    by rw [LossModel.Fits, h0]; simp [LossModel.init], by simp [pbufInit, h0], rfl, rfl⟩
  · show ((u / statsInterval * statsInterval : Nat) : Int) =
      ((u / statsInterval * statsInterval % 65536 : Nat) : Int)
    rw [Nat.mod_eq_of_lt (lt_of_le_of_lt hc hs)]
  · dsimp only [LossModel.init] at hp hp' ⊢
    rw [bitAt_setBit, bitAt_prefill hs 65536 _ _ hc (by omega), bitAt_pbufInit, Bool.false_or,
      ← Bool.decide_or, decide_eq_decide]
    simp only [statsInterval] at hc hp hp' ⊢
    constructor <;> intro <;> omega

/-! ## Streams -/

/-- Every stream that moves forward by `1` to `65280` sequence numbers at a time keeps
`LossWindow`, the model taking the report flags of the calls. -/
theorem lossWindow_run : ∀ (pkts : List RtpPacket) (b : Pbuf) (m : LossModel) (prev : UInt16),
    LossWindow b m → prev.toNat = m.high % 65536 →
    List.Chain (AdvancesBy 65280) prev (pkts.map RtpPacket.seq) →
    ∃ b' rs, statsRun b pkts = some (b', rs) ∧ LossWindow b' (m.run prev pkts (rs.map Option.isSome))
  | [], b, _, _, h, _, _ => ⟨b, [], rfl, h⟩
  | pkt :: pkts, b, m, prev, h, hp, hc => by
    obtain ⟨⟨h₀, h₁⟩, hc⟩ := List.chain_cons.1 hc
    have := h.high_lt
    simp only [statsInterval] at this
    obtain ⟨b₁, r, e₁, h₁⟩ := lossWindow_step h hp pkt h₀ (by omega)
    obtain ⟨b', rs, e, h'⟩ := lossWindow_run pkts b₁ _ pkt.seq h₁
      (by rw [LossModel.step_high]; exact toNat_eq_seqAdvance hp) hc
    exact ⟨b', r :: rs, statsRun_cons e₁ e, h'⟩

/-- So does `LossInv` while fewer than `2^31` positions arrived: a model after `k` packets
beyond the first, followed by fewer than `2^31 - STATS_INTERVAL - k` more. -/
theorem lossInv_run : ∀ (pkts : List RtpPacket) (b : Pbuf) (m : LossModel) (prev : UInt16) (k : Nat),
    LossInv b m → m.Counted k → k + pkts.length + statsInterval < 2 ^ 31 →
    prev.toNat = m.high % 65536 → List.Chain (AdvancesBy 65280) prev (pkts.map RtpPacket.seq) →
    ∃ b' rs, statsRun b pkts = some (b', rs) ∧ LossInv b' (m.run prev pkts (rs.map Option.isSome))
  | [], b, _, _, _, h, _, _, _, _ => ⟨b, [], rfl, h⟩
  | pkt :: pkts, b, m, prev, k, h, hk, hlen, hp, hc => by
    obtain ⟨⟨h₀, h₁⟩, hc⟩ := List.chain_cons.1 hc
    have := h.high_lt
    simp only [statsInterval] at this
    simp only [List.length_cons] at hlen
    obtain ⟨b₁, r, e₁, h₁⟩ := lossInv_step h hp pkt h₀ (by omega)
      ((hk.advance _).fits (by omega))
    obtain ⟨b', rs, e, h'⟩ := lossInv_run pkts b₁ _ pkt.seq (k + 1) h₁ (hk.step _ _) (by omega)
      (by rw [LossModel.step_high]; exact toNat_eq_seqAdvance hp) hc
    exact ⟨b', r :: rs, statsRun_cons e₁ e, h'⟩

/-- A stream whose timestamps stay those of the last report makes no report. -/
theorem statsRun_quiet : ∀ (pkts : List RtpPacket) (b : Pbuf), StatsOk b →
    (∀ p ∈ pkts, p.ts = b.lastDisplayTs) →
    ∃ b', statsRun b pkts = some (b', List.replicate pkts.length none)
  | [], b, _, _ => ⟨b, rfl⟩
  | pkt :: pkts, b, h, ht => by
    obtain ⟨b₁, e₁, h₁, hts⟩ := insertStats_quiet h (ht pkt (List.mem_cons_self _ _))
    obtain ⟨b', e⟩ := statsRun_quiet pkts b₁ h₁ fun p hp => hts ▸ ht p (List.mem_cons_of_mem _ hp)
    exact ⟨b', statsRun_cons e₁ e⟩

/-- From `pbuf_init`, every stream whose sequence numbers move forward by `1` to `32767` at a
time, across any number of wraps and with any timestamps, of fewer than
`2^31 - STATS_INTERVAL` packets after the first, keeps the statistics of the model run from its
first packet: no signed counter leaves its range, `received_pkts` and the cumulative counters
are the model's counts, and `expected_pkts` is its count as an `int`. -/
theorem statsRun_lossModel (p₀ : RtpPacket) (pkts : List RtpPacket)
    (hadv : List.Chain (AdvancesBy 32767) p₀.seq (pkts.map RtpPacket.seq))
    (hlen : pkts.length + statsInterval < 2 ^ 31) :
    ∃ b rs, statsRun pbufInit (p₀ :: pkts) = some (b, none :: rs) ∧
      LossInv b ((LossModel.init p₀.seq.toNat).run p₀.seq pkts (rs.map Option.isSome)) := by
  obtain ⟨b₁, e₁, h₁⟩ := lossInv_first p₀
  obtain ⟨b, rs, e, h⟩ := lossInv_run pkts b₁ _ p₀.seq 0 h₁ (LossModel.counted_init _)
    (by omega) (Nat.mod_eq_of_lt (toNat_lt _)).symm
    (hadv.imp fun _ _ h => ⟨h.1, le_trans h.2 (by decide : 32767 ≤ 65280)⟩)
  exact ⟨b, rs, statsRun_cons e₁ e, h⟩

/-- A packet with sequence number `s` and timestamp `0`, without payload. -/
def pktAt (s : UInt16) : RtpPacket := ⟨0, s, false, 0, []⟩

/-- A stream that wraps: `65534, 65535, 0, 1`. -/
theorem statsRun_lossModel_wrap :
    ∃ b rs, statsRun pbufInit (pktAt 65534 :: [pktAt 65535, pktAt 0, pktAt 1]) = some (b, none :: rs) ∧
      LossInv b ((LossModel.init 65534).run 65534 [pktAt 65535, pktAt 0, pktAt 1]
        (rs.map Option.isSome)) :=
  statsRun_lossModel (pktAt 65534) _ (.cons (by decide) (.cons (by decide) (.cons (by decide) .nil)))
    (by decide)

/-! ## A stream `32767` apart -/

/-- Packet `k` of a stream whose sequence numbers move `32767` forward at a time. -/
def stridePkt (k : Nat) : RtpPacket := pktAt (UInt16.ofNat (32767 * k))

theorem seqAdvance_stridePkt (j : Nat) :
    seqAdvance (stridePkt j).seq (stridePkt (j + 1)).seq = 32767 := by
  simp only [seqAdvance, stridePkt, pktAt, UInt16.toNat, UInt16.ofNat, BitVec.toNat_ofNat]
  omega

theorem chain_stridePkt : ∀ (n j : Nat),
    List.Chain (AdvancesBy 65280) (stridePkt j).seq (((List.range' (j + 1) n).map stridePkt).map RtpPacket.seq)
  | 0, _ => .nil
  | n + 1, j => .cons (by simp only [AdvancesBy, seqAdvance_stridePkt]; omega) (chain_stridePkt n (j + 1))

/-- Each packet of the stream flushes up to the interval below its own. -/
theorem run_stridePkt : ∀ (n j : Nat) (m : LossModel), m.high = 32767 * j → m.cursor ≤ m.high →
    ∃ m', m.run (stridePkt j).seq ((List.range' (j + 1) (n + 1)).map stridePkt)
        (List.replicate (n + 1) false) = m' ∧
      m'.cursor = 32767 * (j + n + 1) / 128 * 128 - 128 ∧ m'.reset = m.reset
  | n, j, m, hh, hc => by
    have hs : (m.step (m.high + 32767) false).cursor = (m.high + 32767) / 128 * 128 - 128 := by
      rw [m.step_cursor, if_pos (by simp only [statsInterval]; omega)]; rfl
    rw [List.range'_succ, List.map_cons, List.replicate_succ, LossModel.run, seqAdvance_stridePkt]
    cases n with
    | zero =>
      refine ⟨_, rfl, ?_, m.step_false_reset _⟩
      show (m.step (m.high + 32767) false).cursor = _
      rw [hs, hh, show 32767 * (j + 0 + 1) = 32767 * j + 32767 by ring]
    | succ n =>
      obtain ⟨m', e, hc', hr'⟩ := run_stridePkt n (j + 1) (m.step (m.high + 32767) false)
        (by rw [LossModel.step_high, hh]; ring) (by rw [hs, LossModel.step_high]; omega)
      exact ⟨m', e, by rw [hc', show j + 1 + n = j + (n + 1) by omega], hr'.trans (m.step_false_reset _)⟩

/-- A stream of `65540` packets `32767` apart, with one timestamp: no report comes, the
cursor passes `2147516160` positions, and `expected_pkts` wraps to a negative value. -/
theorem statsRun_expectedPkts_wraps :
    ∃ b, statsRun pbufInit ((List.range' 0 65540).map stridePkt) =
        some (b, List.replicate 65540 none) ∧
      b.lastReportSeq = 32512 ∧ b.expectedPkts = -2147451136 := by
  obtain ⟨b', e'⟩ := statsRun_quiet ((List.range' 0 65540).map stridePkt) pbufInit pbufInit_statsOk
    fun p hp => by obtain ⟨k, -, rfl⟩ := List.mem_map.1 hp; rfl
  obtain ⟨b₁, e₁, h₁⟩ := lossInv_first (stridePkt 0)
  obtain ⟨b, rs, e, h⟩ :=
    lossWindow_run ((List.range' 1 65539).map stridePkt) b₁ _ (stridePkt 0).seq h₁.toLossWindow rfl
      (chain_stridePkt 65539 0)
  have e₀ : statsRun pbufInit ((List.range' 0 65540).map stridePkt) = some (b, none :: rs) :=
    statsRun_cons e₁ e
  rw [e₀, List.length_map, List.length_range'] at e'
  obtain rfl : rs = List.replicate 65539 none := (List.cons.inj (Prod.mk.inj (Option.some.inj e')).2).2
  rw [List.map_replicate] at h
  obtain ⟨m', em, hc, hr⟩ := run_stridePkt 65538 0 (LossModel.init 0) rfl le_rfl
  have h' : LossWindow b m' := em ▸ h
  refine ⟨b, e₀, ?_, ?_⟩
  · rw [h'.cursor, hc]; decide
  · rw [h'.expected, hc, hr]; decide

/-! ## The cumulative counters -/

set_option maxRecDepth 8000 in
/-- Packets `63`, `256` and `384` with one timestamp: the two flushes move the cursor over the
four words below `256`, yet add `128 + 256` expected and `64 + 64` received packets to the
cumulative counters, since without a report in between the second flush adds the first window
once more. -/
theorem statsRun_cum_recounts :
    ∃ b, statsRun pbufInit [pktAt 63, pktAt 256, pktAt 384] = some (b, [none, none, none]) ∧
      b.lastReportSeq = 256 ∧ b.expectedPktsCum = 384 ∧ b.receivedPktsCum = 128 := by
  obtain ⟨b', e'⟩ := statsRun_quiet [pktAt 63, pktAt 256, pktAt 384] pbufInit pbufInit_statsOk
    (by decide)
  obtain ⟨b₁, e₁, h₁⟩ := lossInv_first (pktAt 63)
  obtain ⟨b, rs, e, h⟩ := lossInv_run [pktAt 256, pktAt 384] b₁ _ (pktAt 63).seq 0 h₁
    (LossModel.counted_init _) (by decide) (by decide)
    (.cons (by decide) (.cons (by decide) .nil))
  have e₀ := statsRun_cons e₁ e
  rw [e₀] at e'
  obtain rfl : rs = [none, none] := (List.cons.inj (Prod.mk.inj (Option.some.inj e')).2).2
  refine ⟨b, e₀, ?_, ?_, ?_⟩
  · rw [h.cursor]; decide
  · rw [h.expectedCum]; decide
  · rw [h.receivedCum]; decide

/-! ## A late packet behind the cursor -/

/-- Packets `63` and `65535` with one timestamp: the second is a late packet, `64` behind the
first, but it lies behind the cursor at `0`, so the call flushes `1020` words, moves the cursor
to `65280` and counts `65280` expected packets. -/
theorem statsRun_late_flushes_epoch :
    ∃ b, statsRun pbufInit [pktAt 63, pktAt 65535] = some (b, [none, none]) ∧
      b.lastReportSeq = 65280 ∧ b.expectedPkts = 65280 := by
  obtain ⟨b', e'⟩ := statsRun_quiet [pktAt 63, pktAt 65535] pbufInit pbufInit_statsOk (by decide)
  obtain ⟨b₁, e₁, h₁⟩ := lossInv_first (pktAt 63)
  obtain ⟨b, r, e₂, h⟩ :=
    @lossWindow_step b₁ _ h₁.toLossWindow (pktAt 63).seq (by decide) (pktAt 65535) (by decide)
      (by decide)
  have e₀ := statsRun_cons e₁ (statsRun_cons e₂ (show statsRun b [] = some (b, []) from rfl))
  rw [e₀] at e'
  obtain rfl : r = none := (List.cons.inj (List.cons.inj (Prod.mk.inj (Option.some.inj e')).2).2).1
  refine ⟨b, e₀, ?_, ?_⟩
  · rw [h.cursor]; decide
  · rw [h.expected]; decide

end UltraGrid.Rtp
