import UltraGrid.Rtp.Pbuf.Runs

/-!
# The report cursor along runs

`last_report_seq` is the cursor of the loss statistics: `-1` until the first packet, then the
start of a report interval. Every call of the buffer other than the statistics block of
`pbuf_insert` stores only into the frame list (`FramesOnly`), so only that block moves the
cursor, and it always leaves it aligned (`insertStats_aligned`). Along every run, whether its
allocations succeed or not, the cursor is therefore `-1` exactly until the first insert and
aligned after it (`run_statsOk`).

From such a cursor both loops of the statistics block are short. The start-up loop
`for (uint16_t i = last_report_seq; i != pkt->seq; ++i)` meets the packet within fewer than
`STATS_INTERVAL` rounds (`prefill_rounds`), and the flush loop, stepping its `uint16_t` index
by 64, meets `report_seq_until` after 2 to 1020 rounds, one word of `packets` each
(`flushLoop_rounds`).

## Main definitions

* `FramesOnly`, `Keeps`: a buffer that differs from another in its frame list only, and a call
  all of whose results do.
* `prefillRounds`: `k` rounds of the start-up loop.
* `FirstHit`: a `uint16_t` index stepped from `i` meets its bound first after `k` steps.
* `InsertLoops`: both loops of the next insert are short.

## Main statements

* `keeps_insertFrame`, `keeps_removeLoop`, `keeps_decodeLoop`: the frame part of every call
  leaves the statistics alone.
* `step_framesOnly`, `run_statsOk`: the cursor across one call and across a run.
* `prefill_rounds`, `flushLoop_rounds`: the rounds of the two loops.
* `run_reportCursor`: the cursor and the loops of the next insert after every run.
-/

namespace UltraGrid.Rtp

/-! ## Calls that leave the statistics alone -/

/-- The statistics fields of a buffer. -/
def Pbuf.statsFields (b : Pbuf) :=
  (b.packets, b.lastReportSeq, b.receivedPkts, b.expectedPkts, b.receivedPktsCum,
    b.expectedPktsCum, b.lastDisplayTs, b.longestGap, b.outOfOrderPkts, b.dups)

/-- `b'` differs from `b` in the frame list only. -/
def FramesOnly (b b' : Pbuf) : Prop := b'.statsFields = b.statsFields

/-- Every result of `o` holds a buffer, read by `buf`, that differs from `b` in the frame list
only. -/
def Keeps {α : Type} (buf : α → Pbuf) (b : Pbuf) (o : Option α) : Prop :=
  ∀ r, o = some r → FramesOnly b (buf r)

section Keeps

variable {α β : Type} {buf : α → Pbuf} {b b₀ : Pbuf}

theorem FramesOnly.trans {b' b'' : Pbuf} (h : FramesOnly b b') (h' : FramesOnly b' b'') :
    FramesOnly b b'' := Eq.trans h' h

theorem FramesOnly.lastReportSeq {b' : Pbuf} (h : FramesOnly b b') :
    b'.lastReportSeq = b.lastReportSeq := congrArg (·.2.1) h

theorem FramesOnly.statsOk {b' : Pbuf} (hf : FramesOnly b b') (h : StatsOk b) : StatsOk b' := by
  unfold StatsOk
  rw [hf.lastReportSeq]
  exact h

theorem keeps_none : Keeps buf b none := fun _ h => nomatch h

theorem keeps_some {r : α} (h : FramesOnly b (buf r)) : Keeps buf b (some r) :=
  fun _ e => Option.some.inj e ▸ h

theorem keeps_bind {x : Option β} {f : β → Option α} (hf : ∀ a, Keeps buf b (f a)) :
    Keeps buf b (x >>= f) := fun r e => by
  obtain ⟨a, -, ha⟩ := Option.bind_eq_some.1 e
  exact hf a r ha

/-- A step that keeps the frame list only, followed by one that does from each of its results. -/
theorem keeps_bind_pbuf {x : Option Pbuf} {f : Pbuf → Option α} (hx : Keeps id b x)
    (hf : ∀ b₁, FramesOnly b b₁ → Keeps buf b (f b₁)) : Keeps buf b (x >>= f) :=
    fun r e => by
  obtain ⟨a, ha, hb⟩ := Option.bind_eq_some.1 e
  exact hf a (hx a ha) r hb

theorem Keeps.of_framesOnly {o : Option α} (h : FramesOnly b b₀) (hk : Keeps buf b₀ o) :
    Keeps buf b o := fun r e => h.trans (hk r e)

theorem keeps_modifyNode {p : Option Nat} {g : PbufNode → PbufNode} (h : FramesOnly b b₀) :
    Keeps id b (b₀.modifyNode p g) :=
  keeps_bind fun _ => keeps_some h

end Keeps

theorem framesOnly_createNewPnode {b : Pbuf} {pkt : RtpPacket} {now d : Int} {m : Bool} :
    FramesOnly b (createNewPnode b pkt now d m).2 := by
  unfold createNewPnode
  split <;> rfl

/-- Every store of `add_coded_unit` goes to a frame or a packet. -/
theorem keeps_addCodedUnit {b : Pbuf} {node : Option Nat} {pkt : RtpPacket} {m : Bool} :
    Keeps id b (addCodedUnit b node pkt m) := by
  have : FramesOnly b b := rfl
  unfold addCodedUnit
  repeat' first
    | exact keeps_none
    | exact keeps_some ‹_›
    | refine keeps_bind_pbuf ?_ fun _ _ => ?_
    | refine keeps_bind fun _ => ?_
    | split

/-- The frame part of `pbuf_insert` leaves the statistics alone, whether its allocations
succeed or not. -/
theorem keeps_insertFrame {b : Pbuf} {pkt : RtpPacket} {now offsetMs : Int} {mallocOk : Bool} :
    Keeps id b (insertFrame b pkt now offsetMs mallocOk) := by
  have hb : FramesOnly b b := rfl
  have hc := @framesOnly_createNewPnode b pkt now (b.playoutDelayUs + 1000 * offsetMs) mallocOk
  unfold insertFrame
  dsimp only
  generalize createNewPnode b pkt now (b.playoutDelayUs + 1000 * offsetMs) mallocOk = r at hc
  obtain ⟨tmp, b₁⟩ := r
  split
  · exact keeps_some hc
  refine keeps_bind fun last => ?_
  split
  · exact keeps_addCodedUnit
  split
  · -- a later timestamp: the new tail is linked after the old one
    exact keeps_bind_pbuf (keeps_modifyNode hc) fun _ h₂ =>
      keeps_bind_pbuf (keeps_modifyNode h₂) fun _ h₃ => keeps_some h₃
  refine keeps_bind fun frst => ?_
  split
  · exact keeps_some hb
  refine keeps_bind fun curr => keeps_bind fun c => ?_
  split
  · exact keeps_addCodedUnit
  · exact keeps_some hb

theorem keeps_unlinkFrame {b : Pbuf} {c : Nat} {n : PbufNode} : Keeps id b (unlinkFrame b c n) := by
  unfold unlinkFrame
  generalize hb₁ : (if b.frst = some c then { b with frst := n.nxt } else b) = b₁
  have h₁ : FramesOnly b b₁ := hb₁ ▸ by split <;> rfl
  dsimp only
  generalize hb₂ : (if b₁.last = some c then { b₁ with last := n.prv } else b₁) = b₂
  have h₂ : FramesOnly b b₂ := hb₂ ▸ by split <;> exact h₁
  repeat' first
    | exact keeps_some ‹_›
    | refine keeps_bind_pbuf ?_ fun _ _ => ?_
    | refine keeps_bind fun _ => ?_
    | split

theorem keeps_removeLoop {b : Pbuf} (t : Int) :
    ∀ fuel b₀ p, FramesOnly b b₀ → Keeps id b (removeLoop t fuel b₀ p)
  | 0, _, _, _ => keeps_none
  | _ + 1, _, none, h => keeps_some h
  | fuel + 1, b₀, some c, h => by
    refine keeps_bind fun n => ?_
    split
    · exact keeps_bind_pbuf (keeps_unlinkFrame.of_framesOnly h) fun b₁ h₁ =>
        keeps_removeLoop t fuel b₁ _ h₁
    · exact keeps_some h

theorem keeps_decodeLoop {b : Pbuf} (t : Int) (f : DecodeFrame) :
    ∀ fuel b₀ p, FramesOnly b b₀ → Keeps Decoded.buf b (decodeLoop t f fuel b₀ p)
  | 0, _, _, _ => keeps_none
  | _ + 1, _, none, h => keeps_some h
  | fuel + 1, b₀, some c, h => by
    refine keeps_bind fun n => ?_
    split
    · split
      · exact keeps_bind_pbuf (keeps_modifyNode h) fun _ h₁ => keeps_some h₁
      · -- a frame more than a second late is marked completed on the way
        dsimp only
        split
        · exact keeps_bind_pbuf (keeps_modifyNode h) fun b₁ h₁ =>
            keeps_decodeLoop t f fuel b₁ _ h₁
        · exact keeps_bind_pbuf (keeps_some h) fun b₁ h₁ =>
            keeps_decodeLoop t f fuel b₁ _ h₁
    · exact keeps_decodeLoop t f fuel b₀ _ h

/-! ## The cursor along runs -/

/-- The statistics block always leaves the cursor on the start of a report interval. -/
theorem insertStats_aligned {b b' : Pbuf} {pkt : RtpPacket} {r : Option Report} (h : StatsOk b)
    (e : insertStats b pkt = some (b', r)) : Aligned b'.lastReportSeq := by
  have hs : pkt.seq.toNat < 65536 := toNat_lt pkt.seq
  obtain ⟨ha₁, -⟩ := statsInit_spec h hs
  obtain ⟨e₂, -⟩ := markPacket_spec (statsInit b pkt.seq.toNat) pkt.seq.toNat
  obtain ⟨b₃, e₃, ha₃, -⟩ := flushStats_spec (e₂ ▸ ha₁) pkt.seq.toNat
  obtain rfl : (reportStats b₃ pkt).1 = b' := by
    simp only [insertStats, e₃, Option.bind_eq_bind, Option.some_bind, Option.pure_def,
      Option.some.injEq] at e
    rw [e]
  exact (reportStats_spec b₃ pkt).1 ▸ ha₃

/-- What one call does to the statistics: an insert runs its statistics block and then stores
into the frame list only, and every other call stores into the frame list only. -/
theorem step_framesOnly {b b' : Pbuf} {op : Op} {h' : Option Nat} (e : step b op = some (b', h')) :
    (∃ pkt now offsetMs mallocOk, op = .insert pkt now offsetMs mallocOk ∧
      ∃ b₁ r, insertStats b pkt = some (b₁, r) ∧ FramesOnly b₁ b') ∨
    ((∀ pkt now offsetMs mallocOk, Op.insert pkt now offsetMs mallocOk ≠ op) ∧
      FramesOnly b b') := by
  cases op with
  | insert pkt now offsetMs mallocOk =>
    simp only [step, pbufInsert, Option.map_eq_some', Option.bind_eq_bind, Option.bind_eq_some,
      Option.pure_def, Option.some.injEq, Prod.mk.injEq] at e
    obtain ⟨_, ⟨⟨b₁, r⟩, e₁, b₂, e₂, rfl⟩, rfl, -⟩ := e
    exact .inl ⟨pkt, now, offsetMs, mallocOk, rfl, b₁, r, e₁, keeps_insertFrame b₂ e₂⟩
  | decode now df =>
    obtain ⟨d, ed, he⟩ := Option.map_eq_some'.1 e
    obtain rfl : d.buf = b' := congrArg Prod.fst he
    exact .inr ⟨fun _ _ _ _ => nofun, keeps_decodeLoop now df _ b _ rfl d ed⟩
  | remove now =>
    obtain ⟨b₁, ed, he⟩ := Option.map_eq_some'.1 e
    obtain rfl : b₁ = b' := congrArg Prod.fst he
    exact .inr ⟨fun _ _ _ _ => nofun, keeps_removeLoop now _ b _ rfl b₁ ed⟩
  | setPlayoutDelay us =>
    obtain rfl : pbufSetPlayoutDelay b us = b' := congrArg Prod.fst (Option.some.inj e)
    exact .inr ⟨fun _ _ _ _ => nofun, rfl⟩

/-- One call keeps the cursor `-1` or aligned, and leaves `-1` only by an insert. -/
theorem step_statsOk {b b' : Pbuf} {op : Op} {h' : Option Nat} (h : StatsOk b)
    (e : step b op = some (b', h')) :
    StatsOk b' ∧ (b'.lastReportSeq = -1 ↔ b.lastReportSeq = -1 ∧
      ∀ pkt now offsetMs mallocOk, Op.insert pkt now offsetMs mallocOk ≠ op) := by
  rcases step_framesOnly e with
    ⟨pkt, now, offsetMs, mallocOk, rfl, b₁, r, e₁, hf⟩ | ⟨hne, hf⟩
  · have ha := insertStats_aligned h e₁
    refine ⟨.inr (hf.lastReportSeq ▸ ha),
      hf.lastReportSeq ▸ ⟨fun e => ?_, fun ⟨_, hne⟩ => ?_⟩⟩
    · have := ha.1; omega
    · exact absurd rfl (hne pkt now offsetMs mallocOk)
  · exact ⟨hf.statsOk h, hf.lastReportSeq ▸ ⟨fun e => ⟨e, hne⟩, And.left⟩⟩

/-- Along every run the cursor stays `-1` or aligned, and is `-1` exactly while no packet has
been inserted. -/
theorem run_statsOk : ∀ (ops : List Op) (b₀ b : Pbuf) (hs : List Nat), StatsOk b₀ →
    run b₀ ops = some (b, hs) → StatsOk b ∧ (b.lastReportSeq = -1 ↔ b₀.lastReportSeq = -1 ∧
      ∀ pkt now offsetMs mallocOk, Op.insert pkt now offsetMs mallocOk ∉ ops)
  | [], b₀, b, hs, h, e => by
    obtain rfl : b₀ = b := congrArg Prod.fst (Option.some.inj e)
    simp [h]
  | op :: ops, b₀, b, hs, h, e => by
    simp only [run, Option.bind_eq_bind, Option.bind_eq_some, Option.pure_def,
      Option.some.injEq] at e
    obtain ⟨⟨b₁, h₁⟩, e₁, ⟨b₂, hs₂⟩, e₂, he⟩ := e
    obtain rfl : b₂ = b := congrArg Prod.fst he
    obtain ⟨hb₁, hi₁⟩ := step_statsOk h e₁
    obtain ⟨hb, hi⟩ := run_statsOk ops b₁ b₂ hs₂ hb₁ e₂
    refine ⟨hb, hi.trans ?_⟩
    simp only [hi₁, List.mem_cons, not_or, forall_and, and_assoc]

/-! ## The two loops -/

/-- `k` rounds of the start-up loop from slot `i`. -/
def prefillRounds : (Nat → BitVec 64) → Nat → Nat → Nat → BitVec 64
  | packets, _, 0 => packets
  | packets, i, k + 1 => prefillRounds (setBit packets i) ((i + 1) % 65536) k

/-- A `uint16_t` index stepped by `stride` from `i` equals `bound` first after `k` steps. -/
def FirstHit (stride i bound k : Nat) : Prop :=
  (i + stride * k) % 65536 = bound ∧ ∀ j < k, (i + stride * j) % 65536 ≠ bound

/-- The start-up loop from `i` to the first packet `seq` runs `(seq - i) mod 2^16` rounds. -/
theorem prefill_eq {seq : Nat} (hs : seq < 65536) :
    ∀ (k i : Nat) (p : Nat → BitVec 64) (fuel : Nat), i < 65536 →
    (seq + 65536 - i) % 65536 = k → k < fuel → prefill seq fuel i p = prefillRounds p i k
  | _, _, _, 0, _, _, hf => absurd hf (Nat.not_lt_zero _)
  | 0, i, p, fuel + 1, hi, hk, _ => by
    have : i = seq := by omega
    simp [prefill, prefillRounds, this]
  | k + 1, i, p, fuel + 1, hi, hk, hf => by
    have hne : i ≠ seq := by omega
    rw [prefill, if_neg hne, prefillRounds]
    exact prefill_eq hs k _ _ fuel (Nat.mod_lt _ (by decide)) (by omega) (by omega)

/-- From the start of its interval, the start-up loop meets the packet `seq` within fewer than
`STATS_INTERVAL` rounds. -/
theorem prefill_rounds {seq : Nat} (hs : seq < 65536) (p : Nat → BitVec 64) :
    ∃ k < statsInterval, FirstHit 1 (seq / statsInterval * statsInterval) seq k ∧
      prefill seq 65536 (seq / statsInterval * statsInterval) p =
        prefillRounds p (seq / statsInterval * statsInterval) k := by
  simp only [statsInterval, FirstHit]
  exact ⟨seq % 128, by omega, ⟨by omega, fun j hj => by omega⟩,
    prefill_eq hs _ _ p 65536 (by omega) (by omega) (by omega)⟩

/-- The flush block of `pbuf_insert` on `b` for the packet `seq`, when it runs its loop, ends
after 2 to 1020 rounds, each on a word of `packets`: its `uint16_t` index meets
`report_seq_until` first after `k` steps, and the block leaves the buffer of `k` rounds of
`flushWord` from the cursor. -/
def FlushShort (b : Pbuf) (seq : Nat) : Prop :=
  statsInterval * 2 ≤ ((seq : Int) - b.lastReportSeq) % 65536 →
    ∃ k, 2 ≤ k ∧ k ≤ 1020 ∧
      FirstHit numberWordBits (b.lastReportSeq % 65536).toNat
        ((seq / statsInterval * statsInterval + 65536 - statsInterval) % 65536) k ∧
      flushStats b seq = some { flushWords b (b.lastReportSeq % 65536).toNat k with
        receivedPktsCum := int64 ((flushWords b (b.lastReportSeq % 65536).toNat k).receivedPktsCum +
          (flushWords b (b.lastReportSeq % 65536).toNat k).receivedPkts)
        expectedPktsCum := int64 ((flushWords b (b.lastReportSeq % 65536).toNat k).expectedPktsCum +
          (flushWords b (b.lastReportSeq % 65536).toNat k).expectedPkts)
        lastReportSeq := ((seq / statsInterval * statsInterval + 65536 - statsInterval) % 65536 : Nat) } ∧
      ∀ j < k, ((b.lastReportSeq % 65536).toNat + numberWordBits * j) % 65536 / numberWordBits < 1024

/-- From an aligned cursor the flush loop is short: the cursor and `report_seq_until` are both
multiples of `STATS_INTERVAL`, at least two intervals and at most `2^16 - 2` intervals apart
after the loop's start. -/
theorem flushLoop_rounds {b : Pbuf} (h : Aligned b.lastReportSeq) (seq : Nat) :
    FlushShort b seq := by
  intro hf
  obtain ⟨n, hn⟩ : ∃ n : Nat, b.lastReportSeq = n :=
    ⟨b.lastReportSeq.toNat, by have := h.1; omega⟩
  have h1 := h.2.1
  have h2 := h.2.2
  rw [hn] at h1 h2 hf
  rw [hn, show ((n : Int) % 65536).toNat = n by omega]
  simp only [statsInterval, numberWordBits, FirstHit] at h2 hf ⊢
  generalize hu : (seq / 128 * 128 + 65536 - 128) % 65536 = u
  -- `report_seq_until` lies 2 to 1020 words of 64 slots after the cursor
  obtain ⟨k, hk, hk2, hk1020⟩ :
      ∃ k, (u + 65536 - n) % 65536 = 64 * k ∧ 2 ≤ k ∧ k ≤ 1020 :=
    ⟨(u + 65536 - n) % 65536 / 64, by omega, by omega, by omega⟩
  refine ⟨k, hk2, hk1020, ⟨by omega, fun j hj => by omega⟩, ?_, fun j _ => by omega⟩
  exact flushStats_of_le hn (by omega) (by simp only [numberWordBits]; omega)
    (by simp only [statsInterval]; omega) (by simp only [statsInterval]; omega)
    (by simp only [numberWordBits]; omega)

/-- Both loops of an insert of the sequence number `seq` into `b` are short: the start-up block
marks the slots of fewer than `STATS_INTERVAL` rounds of its loop, and the flush block is
short. -/
def InsertLoops (b : Pbuf) (seq : Nat) : Prop :=
  (b.lastReportSeq = -1 → ∃ k < statsInterval,
    FirstHit 1 (seq / statsInterval * statsInterval) seq k ∧
      statsInit b seq = { b with
        lastReportSeq := (seq / statsInterval * statsInterval : Nat)
        packets := prefillRounds b.packets (seq / statsInterval * statsInterval) k }) ∧
  FlushShort (markPacket (statsInit b seq) seq) seq

theorem insertLoops_of_statsOk {b : Pbuf} (h : StatsOk b) {seq : Nat} (hs : seq < 65536) :
    InsertLoops b seq :=
  ⟨fun h₁ => let ⟨k, hk, hf, e⟩ := prefill_rounds hs b.packets
      ⟨k, hk, hf, by rw [statsInit_of_eq h₁, e]⟩,
    flushLoop_rounds (by rw [(markPacket_spec _ seq).1]; exact (statsInit_spec h hs).1) seq⟩

/-- Along every run from `pbuf_init`, whether its allocations succeed or not, the report cursor
is `-1` exactly until the first packet and a multiple of `STATS_INTERVAL` in `[0, 2^16)` after
it, and both loops of the next insert are short. -/
theorem run_reportCursor (ops : List Op) {b : Pbuf} {hs : List Nat}
    (h : run pbufInit ops = some (b, hs)) :
    (b.lastReportSeq = -1 ↔ ∀ pkt now offsetMs mallocOk, Op.insert pkt now offsetMs mallocOk ∉ ops) ∧
      StatsOk b ∧ ∀ seq < 65536, InsertLoops b seq := by
  obtain ⟨hb, hi⟩ := run_statsOk ops pbufInit b hs pbufInit_statsOk h
  exact ⟨hi.trans (and_iff_right rfl), hb, fun _ hs => insertLoops_of_statsOk hb hs⟩

/-- The run of one insert, of sequence number 300, with its allocations succeeding. -/
theorem run_reportCursor_firstPacket : ∃ b hs,
    run pbufInit [.insert ⟨0, 300, false, 0, []⟩ 0 0 true] = some (b, hs) ∧
      ((b.lastReportSeq = -1 ↔ ∀ pkt now offsetMs mallocOk,
          Op.insert pkt now offsetMs mallocOk ∉ [Op.insert ⟨0, 300, false, 0, []⟩ 0 0 true]) ∧
        StatsOk b ∧ ∀ seq < 65536, InsertLoops b seq) := by
  obtain ⟨b, hs, -, e, -⟩ :=
    run_good [.insert ⟨0, 300, false, 0, []⟩ 0 0 true] (by simp [Op.MallocOk])
  exact ⟨b, hs, e, run_reportCursor _ e⟩

end UltraGrid.Rtp
