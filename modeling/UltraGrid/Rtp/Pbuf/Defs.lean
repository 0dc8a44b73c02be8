import UltraGrid.Rtp.Seq
import UltraGrid.Rtp.Heap

/-!
# The playout buffer of `rtp/pbuf.cpp`

A shallow embedding of the playout buffer. `struct pbuf` is the record `Pbuf`; its two kinds
of linked nodes, `struct pbuf_node` (a frame) and `struct coded_data` (a packet of a frame),
live in two heaps, and every pointer is an `Option Nat` (`none` is `NULL`). Each function of
the source is a function here under its own name; a load or store through `NULL` or through a
freed node, and an `assert` that fails, give `none`.

Loops that follow pointers take a `fuel` argument. The functions start them with the number of
nodes ever allocated, more than any list without a cycle is long, so fuel runs out only on a
corrupted list.

Times are `std::chrono::high_resolution_clock` time points in nanoseconds. The value read
through `offset_ms` and the clock reading of `create_new_pnode` are inputs of `pbufInsert`,
and whether the `malloc` calls of one insert succeed is the input `mallocOk`; `new` throws
instead of returning `NULL`, so it always succeeds here.

The loss statistics of `pbuf_insert` are `insertStats`; they update only the statistics
fields, and `insertFrame` only the frame list.
-/

namespace UltraGrid.Rtp

/-- The fields of `rtp_packet` the buffer reads. -/
structure RtpPacket where
  ts : UInt32
  seq : UInt16
  m : Bool
  ssrc : UInt32
  data : List UInt8
  deriving DecidableEq, Repr

/-- `struct coded_data`: one packet of a frame. -/
structure CodedData where
  nxt : Option Nat
  prv : Option Nat
  seqno : UInt16
  data : RtpPacket
  deriving DecidableEq, Repr

/-- `struct pbuf_node`: one frame. The arrival time is written and never read, and the magic
number is read only by the disabled `pbuf_validate`; neither is modelled. -/
structure PbufNode where
  nxt : Option Nat
  prv : Option Nat
  rtpTimestamp : UInt32
  playoutTime : Int
  cdata : Option Nat
  decoded : Bool
  mbit : Bool
  completed : Bool
  deriving DecidableEq, Repr

/-- The links of a frame, as `Seg` reads them. -/
def PbufNode.link (n : PbufNode) : Option Nat × Option Nat := (n.prv, n.nxt)

/-- The links of a packet, as `Seg` reads them. -/
def CodedData.link (d : CodedData) : Option Nat × Option Nat := (d.prv, d.nxt)

/-- `struct pbuf`. `packets` is the 65536-bit array of `(1<<16) / 64` words, indexed by
word. -/
structure Pbuf where
  frst : Option Nat
  last : Option Nat
  playoutDelayUs : Int
  nodes : Heap PbufNode
  cdata : Heap CodedData
  packets : Nat → BitVec 64
  lastReportSeq : Int
  receivedPkts : Int
  expectedPkts : Int
  receivedPktsCum : Int
  expectedPktsCum : Int
  lastDisplayTs : UInt32
  longestGap : Int
  outOfOrderPkts : Bool
  dups : Bool

/-- `struct pbuf_stats`, the snapshot handed to the decode callback. -/
structure PbufStats where
  receivedPktsCum : Int
  expectedPktsCum : Int
  deriving DecidableEq, Repr

/-- The loss report `pbuf_insert` logs every five seconds; the percentage is the double
`received / expected * 100` and is left out. -/
structure Report where
  ssrc : UInt32
  receivedPkts : Int
  expectedPkts : Int
  lost : Int
  longestGap : Int
  outOfOrderPkts : Bool
  dups : Bool
  deriving DecidableEq, Repr

/-- `STATS_INTERVAL`. -/
def statsInterval : Nat := 128

/-- `sizeof(unsigned long long) * CHAR_BIT`. -/
def numberWordBits : Nat := 64

/-- One second in clock ticks. -/
def oneSecond : Int := 1000000000

/-- `pbuf_init`: an empty buffer from `calloc`, with the fixed 32 ms delay. -/
def pbufInit : Pbuf where
  frst := none
  last := none
  playoutDelayUs := 32000
  nodes := Heap.empty
  cdata := Heap.empty
  packets := fun _ => 0
  lastReportSeq := -1
  receivedPkts := 0
  expectedPkts := 0
  receivedPktsCum := 0
  expectedPktsCum := 0
  lastDisplayTs := 0
  longestGap := 0
  outOfOrderPkts := false
  dups := false

/-- `pbuf_set_playout_delay`, given the delay already converted to microseconds. -/
def pbufSetPlayoutDelay (b : Pbuf) (us : Int) : Pbuf := { b with playoutDelayUs := us }

/-- `pbuf_is_empty`. -/
def pbufIsEmpty (b : Pbuf) : Bool := b.frst.isNone

namespace Pbuf

/-- A store through a frame pointer. -/
def modifyNode (b : Pbuf) (p : Option Nat) (f : PbufNode → PbufNode) : Option Pbuf := do
  let nodes ← b.nodes.modify p f
  pure { b with nodes }

/-- A store through a packet pointer. -/
def modifyCoded (b : Pbuf) (p : Option Nat) (f : CodedData → CodedData) : Option Pbuf := do
  let cdata ← b.cdata.modify p f
  pure { b with cdata }

end Pbuf

/-! ## Loss statistics -/

/-- `__builtin_popcountll`. -/
def popcount (w : BitVec 64) : Nat := (List.range 64).countP (w.getLsbD ·)

/-- `__builtin_clzll`. It is undefined for `0`, so it takes the proof that its word is not. -/
def clz (w : BitVec 64) (_ : w ≠ 0) : Nat := 63 - Nat.log2 w.toNat

/-- `__builtin_ctzll`, undefined for `0` as `clz` is. -/
def ctz (w : BitVec 64) (_ : w ≠ 0) : Nat := (List.range 64).findIdx (w.getLsbD ·)

/-- `max<unsigned long long>(*longest_gap, n)` stored back into the `int`. -/
def maxGap (g : Int) (n : Nat) : Int := int32 (max (g % 2 ^ 64) n)

/-- The loop `while (packets != 0) { … ctz … ; packets >>= 1; }`; a word is zero after 64
shifts, so 64 rounds of fuel end it. -/
def gapLoop : Nat → Int → BitVec 64 → Int
  | 0, g, _ => g
  | fuel + 1, g, w => if h : w = 0 then g else gapLoop fuel (maxGap g (ctz w h)) (w >>> 1)

/-- `compute_longest_gap`: the new value of `*longest_gap` after a flushed word. -/
def computeLongestGap (g : Int) (w : BitVec 64) : Int :=
  if g = 64 then g
  else if h : w = 0 then 64
  else if w = BitVec.allOnes 64 then g
  else gapLoop 64 (maxGap g (clz w h)) w

/-- `1ull << (i % number_word_bits)`. -/
def currentBit (i : Nat) : BitVec 64 := 1#64 <<< (i % numberWordBits)

/-- `packets[i / number_word_bits] |= current_bit`. -/
def setBit (packets : Nat → BitVec 64) (i : Nat) : Nat → BitVec 64 :=
  Function.update packets (i / numberWordBits) (packets (i / numberWordBits) ||| currentBit i)

/-- The start-up loop `for (uint16_t i = last_report_seq; i != pkt->seq; ++i)`, marking the
slots before the first packet. `i` runs through all of `uint16_t` within `2^16` rounds, so
that fuel always suffices. -/
def prefill (seq : Nat) : Nat → Nat → (Nat → BitVec 64) → Nat → BitVec 64
  | 0, _, packets => packets
  | fuel + 1, i, packets =>
    if i = seq then packets else prefill seq fuel ((i + 1) % 65536) (setBit packets i)

/-- One round of the flush loop over the word holding sequence number `i`.
`expected_pkts += number_word_bits` adds in `size_t` and converts the sum back to `int`, which
wraps it to 32 bits. `received_pkts += __builtin_popcountll(…)` adds two `int`s, which is
undefined past `2^31 - 1`; the model wraps it as well, and the statements about the counters
(`LossInv`) hold only while it stays in range. -/
def flushWord (b : Pbuf) (i : Nat) : Pbuf :=
  let w := b.packets (i / numberWordBits)
  { b with
    expectedPkts := int32 (b.expectedPkts + numberWordBits)
    receivedPkts := int32 (b.receivedPkts + popcount w)
    longestGap := computeLongestGap b.longestGap w
    packets := Function.update b.packets (i / numberWordBits) 0 }

/-- The flush loop `for (uint16_t i = last_report_seq; i != report_seq_until; i += 64)`.
`i` takes at most `2^16 / 64 = 1024` values, so a loop that has not met its bound within
1024 rounds never does: `none` then stands for a loop that does not end. -/
def flushLoop (reportSeqUntil : Nat) : Nat → Nat → Pbuf → Option Pbuf
  | 0, _, _ => none
  | fuel + 1, i, b =>
    if i = reportSeqUntil then some b
    else flushLoop reportSeqUntil fuel ((i + numberWordBits) % 65536) (flushWord b i)

/-- The start-up block of `pbuf_insert`: on the first packet, put the cursor on the start of
the packet's interval and mark the slots before the packet. -/
def statsInit (b : Pbuf) (seq : Nat) : Pbuf :=
  if b.lastReportSeq = -1 then
    let start := seq / statsInterval * statsInterval
    { b with lastReportSeq := start, packets := prefill seq 65536 start b.packets }
  else b

/-- Mark the packet `seq` in the bitmap, noting a reordered and a duplicate packet. -/
def markPacket (b : Pbuf) (seq : Nat) : Pbuf :=
  let bit := currentBit seq
  let w := b.packets (seq / numberWordBits)
  let b := if bit < (w &&& ~~~bit) then { b with outOfOrderPkts := true } else b
  let b := if (w &&& bit) ≠ 0 then { b with dups := true } else b
  { b with packets := setBit b.packets seq }

/-- Flush the words more than one interval behind the packet `seq` into the window counters,
and add the window counters to the cumulative ones. The `long long` additions are undefined
out of range; the model wraps them to 64 bits. -/
def flushStats (b : Pbuf) (seq : Nat) : Option Pbuf :=
  if statsInterval * 2 ≤ ((seq : Int) - b.lastReportSeq) % 65536 then do
    let reportSeqUntil := (seq / statsInterval * statsInterval + 65536 - statsInterval) % 65536
    let b ← flushLoop reportSeqUntil 1024 (b.lastReportSeq % 65536).toNat b
    pure { b with
      receivedPktsCum := int64 (b.receivedPktsCum + b.receivedPkts)
      expectedPktsCum := int64 (b.expectedPktsCum + b.expectedPkts)
      lastReportSeq := reportSeqUntil }
  else pure b

/-- Every five seconds of media time, when packets were expected: the report, and the window
counters reset. -/
def reportStats (b : Pbuf) (pkt : RtpPacket) : Pbuf × Option Report :=
  if 90000 * 5 < (pkt.ts - b.lastDisplayTs).toNat ∧ 0 < b.expectedPkts then
    let report : Report :=
      { ssrc := pkt.ssrc, receivedPkts := b.receivedPkts, expectedPkts := b.expectedPkts,
        lost := int32 (b.expectedPkts - b.receivedPkts), longestGap := b.longestGap,
        outOfOrderPkts := b.outOfOrderPkts, dups := b.dups }
    ({ b with expectedPkts := 0, receivedPkts := 0, lastDisplayTs := pkt.ts
              longestGap := 0, outOfOrderPkts := false, dups := false }, some report)
  else (b, none)

/-- The statistics part of `pbuf_insert`, its four blocks in order. -/
def insertStats (b : Pbuf) (pkt : RtpPacket) : Option (Pbuf × Option Report) := do
  let b := markPacket (statsInit b pkt.seq.toNat) pkt.seq.toNat
  let b ← flushStats b pkt.seq.toNat
  pure (reportStats b pkt)

/-! ## Frames -/

/-- `frame_complete`: the marker bit was seen, or the frame was marked completed. -/
def frameComplete (n : PbufNode) : Bool := n.mbit || n.completed

/-- `create_new_pnode`: a frame for `pkt`, due `delayUs` microseconds after `now`, whose
packet list is `pkt` alone. When the `malloc` of that list fails the node is deleted again
and the result is `NULL`. -/
def createNewPnode (b : Pbuf) (pkt : RtpPacket) (now delayUs : Int) (mallocOk : Bool) :
    Option Nat × Pbuf :=
  let node : PbufNode :=
    { nxt := none, prv := none, rtpTimestamp := pkt.ts, playoutTime := now + delayUs * 1000
      cdata := none, decoded := false, mbit := pkt.m, completed := false }
  if mallocOk then
    let (c, cdata) := b.cdata.alloc { nxt := none, prv := none, seqno := pkt.seq, data := pkt }
    let (tmp, nodes) := b.nodes.alloc { node with cdata := some c }
    (some tmp, { b with nodes, cdata })
  else
    let (tmp, nodes) := b.nodes.alloc node
    (none, { b with nodes := nodes.free tmp })

/-- The loop `while (curr != NULL && (int16_t)(tmp->seqno - curr->seqno) < 0)` of
`add_coded_unit`, returning the final `prv` and `curr`. -/
def walkCoded (cdata : Heap CodedData) (seqno : UInt16) :
    Nat → Option Nat → Option Nat → Option (Option Nat × Option Nat)
  | 0, _, _ => none
  | _ + 1, prv, none => some (prv, none)
  | fuel + 1, prv, some c => do
    let d ← cdata.cells c
    if int16Diff seqno d.seqno < 0 then walkCoded cdata seqno fuel (some c) d.nxt
    else some (prv, some c)

/-- `add_coded_unit`: file `pkt` into the packet list of the frame at `node`, kept in
descending sequence order; a packet whose number is already there is dropped. -/
def addCodedUnit (b : Pbuf) (node : Option Nat) (pkt : RtpPacket) (mallocOk : Bool) :
    Option Pbuf := do
  let n ← b.nodes.deref node
  -- assert(node->rtp_timestamp == pkt->ts); assert(node->cdata != NULL);
  if n.rtpTimestamp ≠ pkt.ts ∨ n.cdata = none then none
  if !mallocOk then return b
  let (tmp, cdata) := b.cdata.alloc { nxt := none, prv := none, seqno := pkt.seq, data := pkt }
  let b ← { b with cdata }.modifyNode node fun n => { n with mbit := n.mbit || pkt.m }
  let hd ← b.cdata.deref n.cdata
  if 0 < int16Diff pkt.seq hd.seqno then
    let b ← b.modifyCoded (some tmp) fun d => { d with prv := none, nxt := n.cdata }
    let b ← b.modifyCoded n.cdata fun d => { d with prv := some tmp }
    b.modifyNode node fun n => { n with cdata := some tmp }
  else
    let (prv, curr) ← walkCoded b.cdata pkt.seq b.cdata.next none n.cdata
    match curr with
    | none =>
      let b ← b.modifyCoded (some tmp) fun d => { d with nxt := none, prv := prv }
      b.modifyCoded prv fun d => { d with nxt := some tmp }
    | some c =>
      let cd ← b.cdata.cells c
      if 0 < int16Diff pkt.seq cd.seqno then
        let b ← b.modifyCoded (some tmp) fun d => { d with nxt := some c, prv := cd.prv }
        let b ← b.modifyCoded cd.prv fun d => { d with nxt := some tmp }
        b.modifyCoded (some c) fun d => { d with prv := some tmp }
      else
        -- the same sequence number is already filed: the packet and the node are freed
        pure { b with cdata := b.cdata.free tmp }

/-- The backward scan `while (curr != frst && curr->rtp_timestamp > pkt->ts) curr = curr->prv;`
of `pbuf_insert`. -/
def scanBack (nodes : Heap PbufNode) (frst : Option Nat) (ts : UInt32) :
    Nat → Option Nat → Option (Option Nat)
  | 0, _ => none
  | fuel + 1, curr =>
    if curr ≠ frst then do
      let n ← nodes.deref curr
      if ts < n.rtpTimestamp then scanBack nodes frst ts fuel n.prv else some curr
    else some curr

/-- The frame part of `pbuf_insert`: start a frame in an empty buffer, add the packet to the
tail frame, append a new tail frame for a later timestamp, or look for an earlier frame of the
packet's timestamp and drop the packet when there is none. -/
def insertFrame (b : Pbuf) (pkt : RtpPacket) (now offsetMs : Int) (mallocOk : Bool) :
    Option Pbuf :=
  let delayUs := b.playoutDelayUs + 1000 * offsetMs
  if b.frst = none ∧ b.last = none then
    let (tmp, b) := createNewPnode b pkt now delayUs mallocOk
    some { b with frst := tmp, last := tmp }
  else do
    let last ← b.nodes.deref b.last
    if last.rtpTimestamp = pkt.ts then addCodedUnit b b.last pkt mallocOk
    else if last.rtpTimestamp < pkt.ts then
      let (tmp, b') := createNewPnode b pkt now delayUs mallocOk
      let b' ← b'.modifyNode b.last fun n => { n with nxt := tmp, completed := true }
      let b' ← b'.modifyNode tmp fun n => { n with prv := b.last }
      pure { b' with last := tmp }
    else
      let frst ← b.nodes.deref b.frst
      if pkt.ts < frst.rtpTimestamp then pure b
      else
        let curr ← scanBack b.nodes b.frst pkt.ts b.nodes.next b.last
        let c ← b.nodes.deref curr
        if c.rtpTimestamp = pkt.ts then addCodedUnit b curr pkt mallocOk else pure b

/-- `pbuf_insert`: statistics first, for every packet, then the frame list. -/
def pbufInsert (b : Pbuf) (pkt : RtpPacket) (now offsetMs : Int) (mallocOk : Bool) :
    Option (Pbuf × Option Report) := do
  let (b, report) ← insertStats b pkt
  let b ← insertFrame b pkt now offsetMs mallocOk
  pure (b, report)

/-! ## Scheduler -/

/-- `free_cdata`: free every packet of the list from `head`. -/
def freeCdata (cdata : Heap CodedData) : Nat → Option Nat → Option (Heap CodedData)
  | 0, _ => none
  | _ + 1, none => some cdata
  | fuel + 1, some c => do
    let d ← cdata.cells c
    freeCdata (cdata.free c) fuel d.nxt

/-- The body of the loop of `pbuf_remove` for an evicted frame `c` with node `n`: unlink it
and free it with its packets. The fields of `curr` are read once; no store of the body goes to
`curr` itself unless the list has a cycle. -/
def unlinkFrame (b : Pbuf) (c : Nat) (n : PbufNode) : Option Pbuf := do
  let b := if b.frst = some c then { b with frst := n.nxt } else b
  let b := if b.last = some c then { b with last := n.prv } else b
  let b ← if n.nxt ≠ none then b.modifyNode n.nxt fun m => { m with prv := n.prv } else pure b
  let b ← if n.prv ≠ none then b.modifyNode n.prv fun m => { m with nxt := n.nxt } else pure b
  let cdata ← freeCdata b.cdata (b.cdata.next + 1) n.cdata
  pure { b with cdata, nodes := b.nodes.free c }

/-- The loop of `pbuf_remove` from `curr`: evict every frame that is due and complete, and
stop at the first that is not. -/
def removeLoop (currTime : Int) : Nat → Pbuf → Option Nat → Option Pbuf
  | 0, _, _ => none
  | _ + 1, b, none => some b
  | fuel + 1, b, some c => do
    let n ← b.nodes.cells c
    if currTime > n.playoutTime ∧ frameComplete n then
      let b ← unlinkFrame b c n
      removeLoop currTime fuel b n.nxt
    else pure b

/-- `pbuf_remove`. -/
def pbufRemove (b : Pbuf) (currTime : Int) : Option Pbuf :=
  removeLoop currTime (b.nodes.next + 1) b b.frst

/-- The decode callback: it receives the frame's packet list and the statistics snapshot. -/
abbrev DecodeFrame := Option Nat → PbufStats → Int

/-- What `pbuf_decode` returns, with the frame it handed to the callback, if any. -/
structure Decoded where
  buf : Pbuf
  ret : Int
  handed : Option Nat

/-- The loop of `pbuf_decode` from `curr`: hand the first undecoded, due and complete frame
to `decodeFunc`; an undecoded, due, incomplete frame more than a second late is marked
completed on the way. -/
def decodeLoop (currTime : Int) (decodeFunc : DecodeFrame) : Nat → Pbuf → Option Nat → Option Decoded
  | 0, _, _ => none
  | _ + 1, b, none => some ⟨b, 0, none⟩
  | fuel + 1, b, some c => do
    let n ← b.nodes.cells c
    if !n.decoded ∧ currTime > n.playoutTime then
      if frameComplete n then
        let ret := decodeFunc n.cdata ⟨b.receivedPktsCum, b.expectedPktsCum⟩
        let b ← b.modifyNode (some c) fun n => { n with decoded := true }
        pure ⟨b, ret, some c⟩
      else
        let b ← if currTime > n.playoutTime + oneSecond then
            b.modifyNode (some c) fun n => { n with completed := true }
          else pure b
        decodeLoop currTime decodeFunc fuel b n.nxt
    else decodeLoop currTime decodeFunc fuel b n.nxt

/-- `pbuf_decode`. -/
def pbufDecode (b : Pbuf) (currTime : Int) (decodeFunc : DecodeFrame) : Option Decoded :=
  decodeLoop currTime decodeFunc (b.nodes.next + 1) b b.frst

end UltraGrid.Rtp
