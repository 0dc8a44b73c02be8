import UltraGrid.Rtp.Pbuf.Loss

/-!
# The reordering and duplicate flags of the loss report

`pbuf_insert` notes a packet as reordered when a later sequence number of its 64-bit word is
already marked, and as a duplicate when its own bit is; the report logs both flags and clears
them. The detection is approximate, a packet reordered across two words is not noted, but it
raises no false alarm. Along a stream whose sequence numbers only move forward, gaps allowed,
the bit of a new packet and every later bit of its word lie in the window from the cursor
(`LossWindow`) at positions that have not arrived, so they are clear: no report of such a stream
says reordered packets or duplicates (`statsRun_noFlags`).

## Main definitions

* `Pbuf.NoFlags`, `Report.NoFlags` — neither flag raised.

## Main statements

* `markPacket_flags` — a packet whose bit and later bits are clear raises no flag.
* `insertStats_noFlags` — one packet of a forward stream keeps both flags down.
* `statsRun_noFlags` — so does a whole forward stream from `pbuf_init`.
-/

namespace UltraGrid.Rtp

/-- Neither a reordered packet nor a duplicate is noted. -/
def Pbuf.NoFlags (b : Pbuf) : Prop := b.outOfOrderPkts = false ∧ b.dups = false

/-- A report that notes neither reordered packets nor duplicates. -/
def Report.NoFlags (r : Report) : Prop := r.outOfOrderPkts = false ∧ r.dups = false

/-! ## The blocks of `pbuf_insert` -/

theorem flushLoop_flags (r : Nat) : ∀ (fuel i : Nat) (b b' : Pbuf), flushLoop r fuel i b = some b' →
    b'.outOfOrderPkts = b.outOfOrderPkts ∧ b'.dups = b.dups
  | 0, _, _, _, h => by cases h
  | fuel + 1, i, b, b', h => by
    unfold flushLoop at h
    split_ifs at h
    · cases h; exact ⟨rfl, rfl⟩
    · exact flushLoop_flags r fuel _ (flushWord b i) b' h

theorem flushStats_flags {b b' : Pbuf} {seq : Nat} (h : flushStats b seq = some b') :
    b'.outOfOrderPkts = b.outOfOrderPkts ∧ b'.dups = b.dups := by
  unfold flushStats at h
  split_ifs at h
  · simp only [Option.bind_eq_bind, Option.pure_def, Option.bind_eq_some, Option.some.injEq] at h
    obtain ⟨b₁, h₁, rfl⟩ := h
    exact flushLoop_flags _ _ _ _ b₁ h₁
  · cases h; exact ⟨rfl, rfl⟩

/-- `current_bit` is `2^(seq mod 64)`. -/
theorem toNat_currentBit (seq : Nat) : (currentBit seq).toNat = 2 ^ (seq % numberWordBits) := by
  have : 2 ^ (seq % numberWordBits) < 2 ^ 64 :=
    Nat.pow_lt_pow_right (by decide) (Nat.mod_lt _ (by decide))
  simp only [currentBit, BitVec.toNat_shiftLeft, BitVec.toNat_ofNat, Nat.shiftLeft_eq]
  rw [Nat.one_mod_eq_one.2 (by decide), Nat.one_mul, Nat.mod_eq_of_lt this]

/-- A packet whose own bit and every later bit of its word are clear is noted neither as
reordered nor as a duplicate. -/
theorem markPacket_flags {b : Pbuf} {seq : Nat}
    (h : ∀ q, seq ≤ q → q / numberWordBits = seq / numberWordBits → bitAt b.packets q = false) :
    (markPacket b seq).outOfOrderPkts = b.outOfOrderPkts ∧ (markPacket b seq).dups = b.dups := by
  set w := b.packets (seq / numberWordBits)
  have hk : seq % numberWordBits < 64 := Nat.mod_lt _ (by decide)
  -- the bits of the word from `seq`'s on are clear
  have hw : ∀ j, seq % numberWordBits ≤ j → w.getLsbD j = false := by
    intro j hj
    by_cases hj' : j < 64
    · have := h (seq / numberWordBits * numberWordBits + j) (by simp only [numberWordBits] at *; omega)
        (by simp only [numberWordBits] at *; omega)
      simpa only [bitAt, numberWordBits, show (seq / 64 * 64 + j) / 64 = seq / 64 by omega,
        show (seq / 64 * 64 + j) % 64 = j by omega] using this
    · exact BitVec.getLsbD_ge _ _ (by omega)
  have hdup : (w &&& currentBit seq) = 0 := by
    apply BitVec.eq_of_getLsbD_eq
    intro j
    simp only [currentBit, BitVec.getLsbD_and, BitVec.getLsbD_shiftLeft, BitVec.getLsbD_one,
      BitVec.getLsbD_zero]
    by_cases e : j.val = seq % numberWordBits
    · simp [e, hw _ le_rfl]
    · simp
      omega
  have hord : ¬ currentBit seq < (w &&& ~~~currentBit seq) := by
    rw [BitVec.lt_def, toNat_currentBit, not_lt]
    refine Nat.le_of_lt (Nat.lt_pow_two_of_testBit _ fun i hi => ?_)
    rw [BitVec.testBit_toNat, BitVec.getLsbD_and, hw i hi, Bool.false_and]
  simp only [markPacket, hord, hdup, if_false, ne_eq, not_true_eq_false, and_self]

/-- In a stream that moves forward, the bit of a new packet, beyond every position seen, and
the later bits of its word are clear. -/
theorem bitAt_ahead {b : Pbuf} {m : LossModel} (h : LossWindow b m) {u : Nat} (hu : m.high < u)
    (hu' : u < m.cursor + 65536) :
    ∀ q, u % 65536 ≤ q → q / numberWordBits = u % 65536 / numberWordBits →
      bitAt b.packets q = false := by
  intro q hq hw
  have hal := h.aligned
  have hle := h.le_high
  simp only [statsInterval, numberWordBits] at hal hw
  have hp := h.bits (u + (q - u % 65536)) (by omega) (by omega)
  rw [show (u + (q - u % 65536)) % 65536 = q by omega] at hp
  rw [hp]
  by_contra hc
  have := h.arrived_le _ (by simpa using hc)
  omega

/-- The first packet finds its bit and the later bits of its word clear: the prefill marks
only the slots before it. -/
theorem bitAt_statsInit_ahead (u : Nat) (hu : u < 65536) :
    ∀ q, u ≤ q → q / numberWordBits = u / numberWordBits →
      bitAt (statsInit pbufInit u).packets q = false := by
  intro q hq _
  rw [statsInit_of_eq rfl]
  dsimp only
  rw [bitAt_prefill hu 65536 _ _ (Nat.div_mul_le_self _ _) (by omega), bitAt_pbufInit]
  simp only [Bool.false_or, decide_eq_false_iff_not, not_and, not_lt]
  exact fun _ => hq

/-- The report carries the flags, and clears them. -/
theorem reportStats_noFlags {b b' : Pbuf} {pkt : RtpPacket} {r : Option Report}
    (hb : b.NoFlags) (e : reportStats b pkt = (b', r)) :
    b'.NoFlags ∧ ∀ rep, r = some rep → rep.NoFlags := by
  unfold reportStats at e
  split_ifs at e
  · simp only [Prod.mk.injEq] at e
    obtain ⟨rfl, rfl⟩ := e
    exact ⟨⟨rfl, rfl⟩, fun rep hr => by cases hr; exact hb⟩
  · simp only [Prod.mk.injEq] at e
    obtain ⟨rfl, rfl⟩ := e
    exact ⟨hb, fun _ hr => by cases hr⟩

/-- The statistics of `pbuf_insert` keep both flags down when the packet's bit and the later
bits of its word are clear. -/
theorem insertStats_flags {b b' : Pbuf} {pkt : RtpPacket} {r : Option Report}
    (hb : (statsInit b pkt.seq.toNat).NoFlags)
    (hc : ∀ q, pkt.seq.toNat ≤ q → q / numberWordBits = pkt.seq.toNat / numberWordBits →
      bitAt (statsInit b pkt.seq.toNat).packets q = false)
    (e : insertStats b pkt = some (b', r)) : b'.NoFlags ∧ ∀ rep, r = some rep → rep.NoFlags := by
  simp only [insertStats, Option.bind_eq_bind, Option.pure_def, Option.bind_eq_some,
    Option.some.injEq] at e
  obtain ⟨b₃, e₃, e₄⟩ := e
  obtain ⟨ho, hd⟩ := flushStats_flags e₃
  obtain ⟨ho', hd'⟩ := markPacket_flags hc
  exact reportStats_noFlags ⟨ho.trans (ho'.trans hb.1), hd.trans (hd'.trans hb.2)⟩ e₄

/-- One packet of a stream that moves forward keeps both flags down, and so does its report. -/
theorem insertStats_noFlags {b : Pbuf} {m : LossModel} (h : LossWindow b m) (hb : b.NoFlags)
    {prev : UInt16} (hp : prev.toNat = m.high % 65536) {pkt : RtpPacket}
    (h₀ : 0 < seqAdvance prev pkt.seq) (h₁ : m.high + seqAdvance prev pkt.seq < m.cursor + 65536)
    {b' : Pbuf} {r : Option Report} (e : insertStats b pkt = some (b', r)) :
    b'.NoFlags ∧ ∀ rep, r = some rep → rep.NoFlags := by
  have hu : pkt.seq.toNat = (m.high + seqAdvance prev pkt.seq) % 65536 := toNat_eq_seqAdvance hp
  have hi : statsInit b pkt.seq.toNat = b := statsInit_of_ne (by rw [h.cursor]; omega) _
  refine insertStats_flags (by rw [hi]; exact hb) ?_ e
  rw [hi, hu]
  exact bitAt_ahead h (by omega) h₁

/-! ## Streams -/

/-- Every stream that moves forward by `1` to `65280` sequence numbers at a time keeps both flags
down, and none of its reports notes reordered packets or duplicates. -/
theorem statsRun_noFlags_of_lossWindow : ∀ (pkts : List RtpPacket) (b : Pbuf) (m : LossModel)
    (prev : UInt16), LossWindow b m → b.NoFlags → prev.toNat = m.high % 65536 →
    List.Chain (AdvancesBy 65280) prev (pkts.map RtpPacket.seq) →
    ∃ b' rs, statsRun b pkts = some (b', rs) ∧ b'.NoFlags ∧
      ∀ r ∈ rs, ∀ rep, r = some rep → rep.NoFlags
  | [], b, _, _, _, hb, _, _ => ⟨b, [], rfl, hb, fun _ hr => absurd hr (List.not_mem_nil _)⟩
  | pkt :: pkts, b, m, prev, h, hb, hp, hc => by
    obtain ⟨⟨h₀, h₁⟩, hc⟩ := List.chain_cons.1 hc
    have := h.high_lt
    simp only [statsInterval] at this
    obtain ⟨b₁, r, e₁, h₁'⟩ := lossWindow_step h hp pkt h₀ (by omega)
    obtain ⟨hb₁, hr⟩ := insertStats_noFlags h hb hp h₀ (by omega) e₁
    obtain ⟨b', rs, e, hb', hrs⟩ := statsRun_noFlags_of_lossWindow pkts b₁ _ pkt.seq h₁' hb₁
      (by rw [LossModel.step_high]; exact toNat_eq_seqAdvance hp) hc
    refine ⟨b', r :: rs, statsRun_cons e₁ e, hb', fun r' hr' => ?_⟩
    rcases List.mem_cons.1 hr' with rfl | hr'
    · exact hr
    · exact hrs r' hr'

/-- From `pbuf_init`, along every stream whose sequence numbers only move forward, by `1` to
`65280` at a time with any gaps, wraps and timestamps, `pbuf_insert` never notes a reordered
packet or a duplicate: both flags stay down and no report raises either. -/
theorem statsRun_noFlags (p₀ : RtpPacket) (pkts : List RtpPacket)
    (hadv : List.Chain (AdvancesBy 65280) p₀.seq (pkts.map RtpPacket.seq)) :
    ∃ b rs, statsRun pbufInit (p₀ :: pkts) = some (b, rs) ∧ b.NoFlags ∧
      ∀ r ∈ rs, ∀ rep, r = some rep → rep.NoFlags := by
  obtain ⟨b₁, e₁, h₁⟩ := lossInv_first p₀
  have hs := toNat_lt p₀.seq
  obtain ⟨hb₁, -⟩ := @insertStats_flags pbufInit b₁ p₀ none ⟨rfl, rfl⟩
    (bitAt_statsInit_ahead _ hs) e₁
  obtain ⟨b, rs, e, hb, hrs⟩ := statsRun_noFlags_of_lossWindow pkts b₁ _ p₀.seq h₁.toLossWindow hb₁
    (Nat.mod_eq_of_lt hs).symm hadv
  refine ⟨b, none :: rs, statsRun_cons e₁ e, hb, fun r hr => ?_⟩
  rcases List.mem_cons.1 hr with rfl | hr
  · exact fun _ h => by cases h
  · exact hrs r hr

/-- A stream across the wrap that loses sequence number `0` raises neither flag. -/
theorem statsRun_noFlags_wrapGap :
    ∃ b rs, statsRun pbufInit (pktAt 65534 :: [pktAt 65535, pktAt 1, pktAt 2]) = some (b, rs) ∧
      b.NoFlags ∧ ∀ r ∈ rs, ∀ rep, r = some rep → rep.NoFlags :=
  statsRun_noFlags (pktAt 65534) _ (.cons (by decide) (.cons (by decide) (.cons (by decide) .nil)))

end UltraGrid.Rtp
