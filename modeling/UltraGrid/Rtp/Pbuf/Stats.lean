import UltraGrid.Rtp.Pbuf.Defs

/-!
# The loss statistics of `pbuf_insert`

The statistics part of `pbuf_insert` keeps a report cursor `last_report_seq`, which after the
first packet is a multiple of `STATS_INTERVAL` below `2^16` (`StatsOk`). From such a state the
flush loop runs a whole number of 64-bit words and ends (`flushLoop_eq`), so `insertStats`
always returns, and it changes only the statistics fields (`insertStats_spec`).

The bitmap is read one slot at a time through `bitAt`. A round of the flush loop adds a word's
64 slots to `expected_pkts` and its set slots to `received_pkts`, and clears it; `k` rounds from
an aligned slot do so for the `64 k` slots from there (`flushWords_expectedPkts`,
`flushWords_receivedPkts`, `bitAt_flushWords`).

## Main definitions

* `StatsOk` — the cursor is unset or an aligned sequence number.
* `StatsOnly` — two buffers that agree on everything but the statistics.
* `bitAt` — the slot of one sequence number in the bitmap.
* `flushWords` — the flush loop, given its number of rounds.
-/

namespace UltraGrid.Rtp

/-- A sequence number at the start of a report interval. -/
def Aligned (x : Int) : Prop := 0 ≤ x ∧ x < 65536 ∧ x % statsInterval = 0

/-- The report cursor is `-1` before the first packet and an aligned sequence number after. -/
def StatsOk (b : Pbuf) : Prop := b.lastReportSeq = -1 ∨ Aligned b.lastReportSeq

/-- The buffers agree on everything the frame list is made of. -/
def StatsOnly (b b' : Pbuf) : Prop :=
  b'.frst = b.frst ∧ b'.last = b.last ∧ b'.playoutDelayUs = b.playoutDelayUs ∧
    b'.nodes = b.nodes ∧ b'.cdata = b.cdata

theorem StatsOnly.refl (b : Pbuf) : StatsOnly b b := ⟨rfl, rfl, rfl, rfl, rfl⟩

theorem StatsOnly.trans {b b' b'' : Pbuf} (h : StatsOnly b b') (h' : StatsOnly b' b'') :
    StatsOnly b b'' :=
  ⟨h'.1.trans h.1, h'.2.1.trans h.2.1, h'.2.2.1.trans h.2.2.1, h'.2.2.2.1.trans h.2.2.2.1,
    h'.2.2.2.2.trans h.2.2.2.2⟩

theorem pbufInit_statsOk : StatsOk pbufInit := .inl rfl

/-! ## The bitmap -/

/-- Slot `q` of the bitmap, the bit of sequence number `q`. -/
def bitAt (packets : Nat → BitVec 64) (q : Nat) : Bool :=
  (packets (q / numberWordBits)).getLsbD (q % numberWordBits)

@[simp] theorem bitAt_pbufInit (q : Nat) : bitAt pbufInit.packets q = false := by
  simp [bitAt, pbufInit]

theorem bitAt_setBit (packets : Nat → BitVec 64) (q q' : Nat) :
    bitAt (setBit packets q) q' = (bitAt packets q' || decide (q' = q)) := by
  unfold bitAt setBit currentBit
  by_cases hw : q' / numberWordBits = q / numberWordBits
  · rw [hw, Function.update_same]
    simp only [numberWordBits] at hw ⊢
    simp only [BitVec.getLsbD_or, BitVec.getLsbD_shiftLeft, BitVec.getLsbD_one]
    congr 1
    by_cases e : q' = q
    · subst e; simp [Nat.mod_lt]
    · have : q' % 64 ≠ q % 64 := fun h => e (by omega)
      simp [e]; omega
  · rw [Function.update_noteq hw]
    have : q' ≠ q := fun e => hw (e ▸ rfl)
    simp [this]

theorem bitAt_update_zero (packets : Nat → BitVec 64) (w q : Nat) :
    bitAt (Function.update packets w 0) q =
      (bitAt packets q && decide (q / numberWordBits ≠ w)) := by
  unfold bitAt
  by_cases hw : q / numberWordBits = w
  · subst hw; simp
  · rw [Function.update_noteq hw]; simp [hw]

/-- The start-up loop from `i` sets the slots from `i` up to the first packet `seq`. -/
theorem bitAt_prefill {seq : Nat} (hs : seq < 65536) : ∀ (fuel i : Nat) (p : Nat → BitVec 64),
    i ≤ seq → seq - i < fuel → ∀ q,
    bitAt (prefill seq fuel i p) q = (bitAt p q || decide (i ≤ q ∧ q < seq))
  | 0, _, _, _, hf, _ => absurd hf (Nat.not_lt_zero _)
  | fuel + 1, i, p, hi, hf, q => by
    rw [prefill]
    split_ifs with e
    · subst e; simp
    · rw [show (i + 1) % 65536 = i + 1 by omega,
        bitAt_prefill hs fuel (i + 1) _ (by omega) (by omega) q, bitAt_setBit, Bool.or_assoc]
      congr 1
      by_cases h₁ : q = i
      · simp [h₁]; omega
      · by_cases h₂ : i ≤ q ∧ q < seq
        · simp [h₁, h₂]; omega
        · simp [h₁, h₂]; omega

/-- `popcount` of word `w` counts its 64 slots. -/
theorem popcount_eq (packets : Nat → BitVec 64) (w : Nat) :
    popcount (packets w) = (List.range 64).countP fun t => bitAt packets (64 * w + t) := by
  unfold popcount
  refine List.countP_congr fun t ht => ?_
  have ht : t < 64 := List.mem_range.1 ht
  simp [bitAt, numberWordBits, Nat.mul_add_div, Nat.mul_add_mod, Nat.mod_eq_of_lt ht,
    Nat.div_eq_of_lt ht]

/-! ## The flush loop -/

/-- `k` rounds of the flush loop from the word of sequence number `i`. -/
def flushWords : Pbuf → Nat → Nat → Pbuf
  | b, _, 0 => b
  | b, i, k + 1 => flushWords (flushWord b i) ((i + numberWordBits) % 65536) k

/-- The flush loop from `i` to `reportSeqUntil`, both multiples of 64, runs
`(reportSeqUntil - i) mod 2^16 / 64` rounds. -/
theorem flushLoop_eq (reportSeqUntil : Nat) (hu : reportSeqUntil < 65536) :
    ∀ (k i : Nat) (b : Pbuf) (fuel : Nat), i < 65536 →
    (reportSeqUntil + 65536 - i) % 65536 = numberWordBits * k → k < fuel →
    flushLoop reportSeqUntil fuel i b = some (flushWords b i k)
  | k, i, b, 0, _, _, hf => absurd hf (Nat.not_lt_zero _)
  | 0, i, b, fuel + 1, hi, hk, _ => by
    have : i = reportSeqUntil := by simp [numberWordBits] at hk; omega
    simp [flushLoop, this, flushWords]
  | k + 1, i, b, fuel + 1, hi, hk, hf => by
    have hne : i ≠ reportSeqUntil := by rintro rfl; simp [numberWordBits] at hk
    rw [flushLoop, if_neg hne, flushWords]
    exact flushLoop_eq reportSeqUntil hu k _ _ fuel (Nat.mod_lt _ (by norm_num))
      (by simp only [numberWordBits] at hk ⊢; omega) (by omega)

theorem flushWords_statsOnly : ∀ (b : Pbuf) (i k : Nat), StatsOnly b (flushWords b i k)
  | b, _, 0 => StatsOnly.refl b
  | b, i, k + 1 =>
    (show StatsOnly b (flushWord b i) from ⟨rfl, rfl, rfl, rfl, rfl⟩).trans
      (flushWords_statsOnly (flushWord b i) _ k)

/-- The fields the flush loop leaves alone. -/
theorem flushWords_keeps : ∀ (b : Pbuf) (i k : Nat),
    (flushWords b i k).lastReportSeq = b.lastReportSeq ∧
    (flushWords b i k).receivedPktsCum = b.receivedPktsCum ∧
    (flushWords b i k).expectedPktsCum = b.expectedPktsCum ∧
    (flushWords b i k).lastDisplayTs = b.lastDisplayTs
  | _, _, 0 => ⟨rfl, rfl, rfl, rfl⟩
  | b, i, k + 1 => flushWords_keeps (flushWord b i) _ k

/-- Each round adds a word's 64 slots to `expected_pkts`. -/
theorem flushWords_expectedPkts : ∀ (b : Pbuf) (i k : Nat),
    int32 b.expectedPkts = b.expectedPkts →
    (flushWords b i k).expectedPkts = int32 (b.expectedPkts + numberWordBits * k)
  | b, _, 0, he => by simpa using he.symm
  | b, i, k + 1, _ => by
    rw [flushWords, flushWords_expectedPkts (flushWord b i) _ k (int32_int32 (b.expectedPkts + _))]
    simp only [flushWord, int32_add_int32]
    congr 1; push_cast; ring

theorem bitAt_flushWord (b : Pbuf) (i q : Nat) :
    bitAt (flushWord b i).packets q =
      (bitAt b.packets q && decide (q / numberWordBits ≠ i / numberWordBits)) :=
  bitAt_update_zero _ _ _

/-- The rounds from the aligned `i` clear the words of the `64 k` slots from `i` on. -/
theorem bitAt_flushWords : ∀ (b : Pbuf) (i k : Nat), i < 65536 → i % 64 = 0 → k ≤ 1024 →
    ∀ q < 65536, bitAt (flushWords b i k).packets q =
      (bitAt b.packets q && !decide ((q + 65536 - i) % 65536 < numberWordBits * k))
  | b, _, 0, _, _, _, q, _ => by simp [flushWords]
  | b, i, k + 1, hi, ha, hk, q, hq => by
    rw [flushWords, bitAt_flushWords _ _ k (Nat.mod_lt _ (by norm_num))
      (by simp only [numberWordBits]; omega) (by omega) q hq, bitAt_flushWord, Bool.and_assoc]
    congr 1
    simp only [numberWordBits]
    by_cases h : (q + 65536 - i) % 65536 < 64 * (k + 1)
    · by_cases h' : q / 64 = i / 64
      · simp [h, h']
      · simp [h, h']; omega
    · simp [h]; omega

/-- The rounds from the aligned `i` add the set slots among the `64 k` from `i` on to
`received_pkts`. -/
theorem flushWords_receivedPkts : ∀ (b : Pbuf) (i k : Nat), i < 65536 → i % 64 = 0 → k ≤ 1024 →
    int32 b.receivedPkts = b.receivedPkts →
    (flushWords b i k).receivedPkts = int32 (b.receivedPkts +
      (List.range (numberWordBits * k)).countP fun t => bitAt b.packets ((i + t) % 65536))
  | b, _, 0, _, _, _, hr => by simpa using hr.symm
  | b, i, k + 1, hi, ha, hk, _ => by
    simp only [numberWordBits] at *
    have hw : popcount (b.packets (i / 64)) =
        (List.range 64).countP fun t => bitAt b.packets ((i + t) % 65536) := by
      rw [popcount_eq]
      refine List.countP_congr fun t ht => ?_
      have := List.mem_range.1 ht
      rw [show 64 * (i / 64) + t = (i + t) % 65536 by omega]
    have hrest : ((List.range (64 * k)).countP fun t =>
        bitAt (flushWord b i).packets (((i + 64) % 65536 + t) % 65536)) =
        ((List.range (64 * k)).map (64 + ·)).countP fun t => bitAt b.packets ((i + t) % 65536) := by
      rw [List.countP_map]
      refine List.countP_congr fun t ht => ?_
      have := List.mem_range.1 ht
      rw [bitAt_flushWord, Nat.mod_add_mod, Function.comp_apply, ← Nat.add_assoc]
      simp only [numberWordBits, ne_eq, Bool.and_eq_true, decide_eq_true_eq, and_iff_left_iff_imp]
      intro _; omega
    rw [flushWords, flushWords_receivedPkts (flushWord b i) _ k (Nat.mod_lt _ (by norm_num))
      (by simp only [numberWordBits]; omega) (by omega) (int32_int32 (b.receivedPkts + _))]
    simp only [numberWordBits] at hrest ⊢
    rw [hrest, show 64 * (k + 1) = 64 + 64 * k by ring, List.range_add, List.countP_append, ← hw]
    simp only [flushWord, numberWordBits, int32_add_int32, add_assoc, Nat.cast_add]

/-! ## The four blocks -/

theorem statsInit_spec {b : Pbuf} (h : StatsOk b) {seq : Nat} (hs : seq < 65536) :
    Aligned (statsInit b seq).lastReportSeq ∧ StatsOnly b (statsInit b seq) := by
  simp only [statsInit]
  split_ifs with e
  · refine ⟨⟨?_, ?_, ?_⟩, StatsOnly.refl b⟩ <;> dsimp only <;> simp only [statsInterval] <;> omega
  · exact ⟨h.resolve_left e, StatsOnly.refl b⟩

theorem markPacket_spec (b : Pbuf) (seq : Nat) :
    (markPacket b seq).lastReportSeq = b.lastReportSeq ∧ StatsOnly b (markPacket b seq) := by
  simp only [markPacket]
  split_ifs <;> exact ⟨rfl, StatsOnly.refl b⟩

/-- From the aligned cursor `n`, a packet `seq` at least two intervals ahead flushes the
`k` words up to `u`, one interval below `seq`'s, into the counters and moves the cursor to
`u`. -/
theorem flushStats_of_le {b : Pbuf} {n seq u k : Nat} (hn : b.lastReportSeq = n)
    (hn' : n < 65536) (ha : n % numberWordBits = 0)
    (h : statsInterval * 2 ≤ ((seq : Int) - n) % 65536)
    (hu : u = (seq / statsInterval * statsInterval + 65536 - statsInterval) % 65536)
    (hk : k = (u + 65536 - n) % 65536 / numberWordBits) :
    flushStats b seq = some { flushWords b n k with
      receivedPktsCum := int64 ((flushWords b n k).receivedPktsCum + (flushWords b n k).receivedPkts)
      expectedPktsCum := int64 ((flushWords b n k).expectedPktsCum + (flushWords b n k).expectedPkts)
      lastReportSeq := u } := by
  simp only [numberWordBits] at ha hk
  have hu64 : u % 64 = 0 := by rw [hu]; simp only [statsInterval]; omega
  have hk' : (u + 65536 - n) % 65536 = numberWordBits * k := by
    simp only [numberWordBits]; omega
  have hk'' : k < 1024 := by omega
  unfold flushStats
  rw [hn, if_pos h, show ((n : Int) % 65536).toNat = n by omega, ← hu]
  dsimp only
  rw [flushLoop_eq u (by omega) k n b 1024 hn' hk' hk'']
  rfl

theorem flushStats_of_lt {b : Pbuf} {seq : Nat}
    (h : ¬ statsInterval * 2 ≤ ((seq : Int) - b.lastReportSeq) % 65536) : flushStats b seq = some b := by
  simp [flushStats, h]

/-- From an aligned cursor the flush block always ends, at an aligned cursor. -/
theorem flushStats_spec {b : Pbuf} (h : Aligned b.lastReportSeq) (seq : Nat) :
    ∃ b', flushStats b seq = some b' ∧ Aligned b'.lastReportSeq ∧ StatsOnly b b' := by
  obtain ⟨n, hn⟩ : ∃ n : Nat, b.lastReportSeq = n := ⟨b.lastReportSeq.toNat, by have := h.1; omega⟩
  have h1 := h.2.1
  have h2 := h.2.2
  rw [hn] at h1 h2
  by_cases hf : statsInterval * 2 ≤ ((seq : Int) - n) % 65536
  · refine ⟨_, flushStats_of_le hn (by omega) (by simp only [statsInterval, numberWordBits] at h2 ⊢; omega)
      hf rfl rfl, ⟨by dsimp only; omega, by dsimp only; omega, ?_⟩, flushWords_statsOnly b _ _⟩
    dsimp only; simp only [statsInterval]; omega
  · exact ⟨b, flushStats_of_lt (hn ▸ hf), h, StatsOnly.refl b⟩

theorem reportStats_spec (b : Pbuf) (pkt : RtpPacket) :
    (reportStats b pkt).1.lastReportSeq = b.lastReportSeq ∧ StatsOnly b (reportStats b pkt).1 := by
  simp only [reportStats]
  split_ifs <;> exact ⟨rfl, StatsOnly.refl b⟩

theorem statsInit_of_ne {b : Pbuf} (h : b.lastReportSeq ≠ -1) (seq : Nat) : statsInit b seq = b := by
  simp [statsInit, h]

theorem statsInit_of_eq {b : Pbuf} (h : b.lastReportSeq = -1) (seq : Nat) :
    statsInit b seq = { b with lastReportSeq := (seq / statsInterval * statsInterval : Nat)
                               packets := prefill seq 65536 (seq / statsInterval * statsInterval) b.packets } := by
  simp [statsInit, h]

/-- `markPacket` sets the packet's slot and at most the two flags. -/
theorem markPacket_eq (b : Pbuf) (seq : Nat) : ∃ o d,
    markPacket b seq = { b with packets := setBit b.packets seq, outOfOrderPkts := o, dups := d } := by
  simp only [markPacket]
  split_ifs <;> exact ⟨_, _, rfl⟩

theorem reportStats_of_not {b : Pbuf} {pkt : RtpPacket}
    (h : ¬ (90000 * 5 < (pkt.ts - b.lastDisplayTs).toNat ∧ 0 < b.expectedPkts)) :
    reportStats b pkt = (b, none) := by
  simp [reportStats, h]

theorem reportStats_of {b : Pbuf} {pkt : RtpPacket}
    (h : 90000 * 5 < (pkt.ts - b.lastDisplayTs).toNat ∧ 0 < b.expectedPkts) :
    ∃ r, reportStats b pkt =
      ({ b with
          expectedPkts := 0, receivedPkts := 0, lastDisplayTs := pkt.ts, longestGap := 0,
          outOfOrderPkts := false, dups := false }, some r) := by
  simp only [reportStats, if_pos h]; exact ⟨_, rfl⟩

/-- The statistics part of `pbuf_insert` always returns, keeps the cursor aligned, and
changes only the statistics fields. -/
theorem insertStats_spec {b : Pbuf} (h : StatsOk b) (pkt : RtpPacket) :
    ∃ b' r, insertStats b pkt = some (b', r) ∧ StatsOk b' ∧ StatsOnly b b' := by
  have hs : pkt.seq.toNat < 65536 := toNat_lt pkt.seq
  obtain ⟨ha₁, hs₁⟩ := statsInit_spec h hs
  obtain ⟨e₂, hs₂⟩ := markPacket_spec (statsInit b pkt.seq.toNat) pkt.seq.toNat
  obtain ⟨b₃, e₃, ha₃, hs₃⟩ := flushStats_spec (e₂ ▸ ha₁) pkt.seq.toNat
  obtain ⟨e₄, hs₄⟩ := reportStats_spec b₃ pkt
  exact ⟨_, (reportStats b₃ pkt).2, by simp [insertStats, e₃], .inr (e₄ ▸ ha₃),
    hs₁.trans (hs₂.trans (hs₃.trans hs₄))⟩

/-! ## The report timestamp -/

theorem flushLoop_lastDisplayTs (reportSeqUntil : Nat) : ∀ (fuel i : Nat) (b b' : Pbuf),
    flushLoop reportSeqUntil fuel i b = some b' → b'.lastDisplayTs = b.lastDisplayTs
  | 0, _, _, _, h => nomatch h
  | fuel + 1, i, b, b', h => by
    rw [flushLoop] at h
    split_ifs at h
    · cases h; rfl
    · exact flushLoop_lastDisplayTs reportSeqUntil fuel _ (flushWord b i) b' h

theorem flushStats_lastDisplayTs {b b' : Pbuf} {seq : Nat} (h : flushStats b seq = some b') :
    b'.lastDisplayTs = b.lastDisplayTs := by
  unfold flushStats at h
  split_ifs at h
  · obtain ⟨b'', h₁, h₂⟩ := Option.bind_eq_some.1 h
    cases h₂
    exact flushLoop_lastDisplayTs _ _ _ b b'' h₁
  · cases h; rfl

/-- A packet with the timestamp of the last report makes no report and keeps that timestamp. -/
theorem insertStats_quiet {b : Pbuf} (h : StatsOk b) {pkt : RtpPacket}
    (ht : pkt.ts = b.lastDisplayTs) :
    ∃ b', insertStats b pkt = some (b', none) ∧ StatsOk b' ∧ b'.lastDisplayTs = b.lastDisplayTs := by
  have hs : pkt.seq.toNat < 65536 := toNat_lt pkt.seq
  obtain ⟨ha₁, -⟩ := statsInit_spec h hs
  obtain ⟨e₂, -⟩ := markPacket_spec (statsInit b pkt.seq.toNat) pkt.seq.toNat
  obtain ⟨b₃, e₃, ha₃, -⟩ := flushStats_spec (e₂ ▸ ha₁) pkt.seq.toNat
  have hts : b₃.lastDisplayTs = b.lastDisplayTs := by
    obtain ⟨o, d, e⟩ := markPacket_eq (statsInit b pkt.seq.toNat) pkt.seq.toNat
    rw [flushStats_lastDisplayTs e₃, e]
    simp only [statsInit]; split_ifs <;> rfl
  have hr : reportStats b₃ pkt = (b₃, none) := reportStats_of_not (by simp [ht, hts])
  exact ⟨b₃, by simp [insertStats, e₃, hr], .inr ha₃, hts⟩

end UltraGrid.Rtp
