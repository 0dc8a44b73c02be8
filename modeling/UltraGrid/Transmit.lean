import UltraGrid.Rtp.Seq

/-!
# The video packetizer of `transmit.c`

`tx_send_base` cuts the data of one tile into RTP packets of at most `c` bytes of payload, where
`c = ((mtu - 40 - sizeof(payload_hdr_t)) / 48) * 48` is computed in the `int data_len`
(`chunkLen`). Each packet carries a payload header whose `offset` is the position `pos` of its
payload in the tile, as `htonl` of the `unsigned pos`, and whose `length` is `htons(data_len)`;
the packet with the last piece gets the marker bit when the caller asks for it. `tx_send` sends
the tiles of a frame in the order of its two loops and asks for the marker on the last tile.

The loop is `sendLoop`, with fuel. From an empty position it sends the packets `specPacket`
describes (`sendLoop_spec`): whole chunks, then the rest of the tile, `max(1, ⌈L/c⌉)` in all.
This needs `c < 2^16`, since `htons` keeps only 16 bits of the length (`txSendBase_length_header`),
and a tile that ends at least `c` below `2^32`, since `pos` is `unsigned`
(`sendLoop_wraps`).

`sizeof(payload_hdr_t)` is the parameter `hdrSize`: the header type is not among the sources.
The header fields that are the same in every packet of a tile (`width`, `height`, `colorspc`,
`fps`, `aux`, `tileinfo`) and the pacing loop that waits `packet_rate` nanoseconds after each
packet are left out.

## Main definitions

* `Packet`: what one call of `rtp_send_data_hdr` sends.
* `chunkLen`, `sendLoop`, `txSendBase`, `txSend`: the model of the source.
* `packetCount`, `specPacket`, `Covers`: the packets of a tile as the chunks of its data.

## Main statements

* `sendLoop_spec`, `txSendBase_eq`: the packets of a tile.
* `txSend_spec`: the packets of a frame, with exactly one marker, on its last packet.
-/

namespace UltraGrid.Transmit

open Rtp (int32 int32_of_lt int32_lt)

/-- One call of `rtp_send_data_hdr(rtp_session, ts, pt, m, 0, 0, &payload_hdr, …, data,
data_len, 0, 0, 0)`: the timestamp, payload type and marker of the RTP header, the `offset`,
`flags` and `length` of the payload header, and the payload, `data_len` bytes from `offset` in
the tile. -/
structure Packet where
  ts : UInt32
  pt : Nat
  m : Bool
  offset : Nat
  flags : Nat
  length : Nat
  dataLen : Int
  deriving DecidableEq, Repr

/-- The conversion of an `int` to `unsigned int`. -/
def toUnsigned (x : Int) : Nat := (x % 2 ^ 32).toNat

/-- `data_len = tx->mtu - 40 - (sizeof(payload_hdr_t)); data_len = (data_len / 48) * 48;`: the
`unsigned` difference `mtu - 40`, then the `size_t` difference with the header size, stored into
the `int` and rounded toward zero to a multiple of 48. -/
def chunkLen (mtu : UInt32) (hdrSize : Nat) : Int :=
  (int32 ((((mtu.toNat + 2 ^ 32 - 40) % 2 ^ 32 + 2 ^ 64 - hdrSize % 2 ^ 64) % 2 ^ 64 : Nat))).tdiv
    48 * 48

/-- The loop `do { … } while (pos < tile->data_len)` of `tx_send_base` from the position `pos`
with the marker `m` so far: the packets it sends, or `none` when it has not stopped within
`fuel` rounds. -/
def sendLoop (ts : UInt32) (sendM : Bool) (chunk : Int) (tileLen : Nat) :
    Nat → Nat → Bool → Option (List Packet)
  | 0, _, _ => none
  | fuel + 1, pos, m =>
    let last := decide (tileLen ≤ (pos + toUnsigned chunk) % 2 ^ 32)
    let m := m || (last && sendM)
    let dataLen : Int := if last then int32 ((tileLen + 2 ^ 32 - pos) % 2 ^ 32 : Nat) else chunk
    let pkt : Packet := ⟨ts, 96, m, pos, 0x8000, (dataLen % 65536).toNat, dataLen⟩
    let pos := (pos + toUnsigned dataLen) % 2 ^ 32
    if pos < tileLen then (sendLoop ts sendM chunk tileLen fuel pos m).map (pkt :: ·)
    else some [pkt]

/-- `tx_send_base` on a tile of `tileLen` bytes, with the marker requested when `sendM`. A round
that does not end the loop advances `pos` by a whole chunk, so one round per byte and one more
suffice. -/
def txSendBase (mtu : UInt32) (hdrSize : Nat) (ts : UInt32) (sendM : Bool) (tileLen : Nat) :
    Option (List Packet) :=
  sendLoop ts sendM (chunkLen mtu hdrSize) tileLen (tileLen + 1) 0 false

/-- The tiles of a `gridWidth × gridHeight` frame in the order of the loops of `tx_send`: the
column `i` outside, the row `j` inside. -/
def gridOrder (gridWidth gridHeight : Nat) : List (Nat × Nat) :=
  (List.range gridWidth).flatMap fun i => (List.range gridHeight).map fun j => (i, j)

/-- `tx_send`: every tile sent with the timestamp `ts`, the marker requested for the tile at
`(gridWidth - 1, gridHeight - 1)` only. `tileLen i j` is the `data_len` of
`tile_get(frame, i, j)`. -/
def txSend (mtu : UInt32) (hdrSize : Nat) (ts : UInt32) (gridWidth gridHeight : Nat)
    (tileLen : Nat → Nat → Nat) : Option (List Packet) :=
  ((gridOrder gridWidth gridHeight).mapM fun (i, j) =>
    txSendBase mtu hdrSize ts (decide (i = gridWidth - 1 ∧ j = gridHeight - 1)) (tileLen i j)).map
    List.flatten

/-! ## The packets of a tile -/

/-- `max(1, ⌈L/c⌉)`: the number of packets of a tile of `L` bytes in chunks of `c`. -/
def packetCount (L c : Nat) : Nat := max 1 ((L + c - 1) / c)

/-- The payload length of packet `i` of `n`: a whole chunk, and the rest of the tile in the
last. -/
def pieceLen (L c n i : Nat) : Nat := if i + 1 = n then L - i * c else c

/-- Packet `i` of the `n` packets of a tile of `L` bytes in chunks of `c`. -/
def specPacket (ts : UInt32) (sendM : Bool) (L c n i : Nat) : Packet :=
  ⟨ts, 96, sendM && decide (i + 1 = n), i * c, 0x8000, pieceLen L c n i, pieceLen L c n i⟩

/-- The payload headers of `pkts` cut `[o, L)` into consecutive pieces, each the payload its
packet carries. -/
def Covers : Nat → List Packet → Nat → Prop
  | o, [], L => o = L
  | o, p :: ps, L => p.offset = o ∧ (p.length : Int) = p.dataLen ∧ Covers (o + p.length) ps L

/-- The packets `pkts` of a tile of `L` bytes in chunks of `c`: `max(1, ⌈L/c⌉)` of them, with
the headers `(0, c), (c, c), …, (k c, L - k c)` that cut `[0, L)` into consecutive pieces, none
empty unless `L = 0`, all with the timestamp `ts`, and the marker on the last one exactly when
`sendM`. -/
def TileSent (ts : UInt32) (sendM : Bool) (L c : Nat) (pkts : List Packet) : Prop :=
  pkts.length = packetCount L c ∧
    pkts.map (fun p => (p.offset, p.length)) =
      (List.range (packetCount L c)).map (fun i => (i * c, pieceLen L c (packetCount L c) i)) ∧
    Covers 0 pkts L ∧ (∀ p ∈ pkts, p.ts = ts ∧ (0 < p.length ∨ L = 0)) ∧
    ∀ i (h : i < pkts.length), pkts[i].m = (sendM && decide (i + 1 = pkts.length))

/-- The packets `pkts` of a frame: all with the timestamp `ts`, and exactly one with the marker,
the last. -/
def FrameSent (ts : UInt32) (pkts : List Packet) : Prop :=
  (∀ p ∈ pkts, p.ts = ts) ∧ pkts.countP (·.m) = 1 ∧ pkts.getLast?.map (·.m) = some true

theorem toUnsigned_ofNat {n : Nat} (h : n < 2 ^ 32) : toUnsigned n = n := by
  unfold toUnsigned
  omega

/-- `max(1, ⌈L/c⌉)` chunks of `c` reach `L`, and all but the last stop short of it. -/
theorem packetCount_spec {L c : Nat} (hc : 0 < c) :
    0 < packetCount L c ∧ L ≤ packetCount L c * c ∧ (packetCount L c - 1) * c ≤ L ∧
      (0 < L → (packetCount L c - 1) * c < L) := by
  have h₁ := Nat.div_add_mod (L + c - 1) c
  have h₂ := Nat.mod_lt (L + c - 1) hc
  unfold packetCount
  generalize (L + c - 1) / c = q at h₁ ⊢
  rcases Nat.eq_zero_or_pos q with rfl | hq
  · rw [max_eq_left (Nat.zero_le 1)]
    omega
  · rw [max_eq_right hq, Nat.sub_one_mul, Nat.mul_comm q c]
    have : c ≤ c * q := Nat.le_mul_of_pos_right c hq
    omega

variable (ts : UInt32) (sendM : Bool) {c L : Nat}

/-- From the start of packet `i`, the loop sends packets `i` to `n - 1` of the tile, when a
chunk fits the 16 bits of the length field and no position wraps. -/
theorem sendLoop_spec (hc : 0 < c) (hc16 : c < 2 ^ 16) (hL : L + c ≤ 2 ^ 32) :
    ∀ k i fuel, i + k = packetCount L c → 0 < k → k ≤ fuel →
      sendLoop ts sendM c L fuel (i * c) false =
        some ((List.range' i k).map (specPacket ts sendM L c (packetCount L c)))
  | 0, _, _, _, hk, _ => absurd hk (Nat.lt_irrefl 0)
  | _, _, 0, _, hk, hf => absurd (Nat.lt_of_lt_of_le hk hf) (Nat.lt_irrefl 0)
  | k + 1, i, fuel + 1, hn, _, hf => by
    obtain ⟨hn₀, hn₁, hn₂, hn₃⟩ := @packetCount_spec L c hc
    have hu : toUnsigned (c : Int) = c := toUnsigned_ofNat (by omega)
    rcases Nat.eq_zero_or_pos k with rfl | hk
    · -- the last packet: the rest of the tile, with the marker when asked
      have hi : i + 1 = packetCount L c := by omega
      obtain ⟨hic, hic'⟩ : i * c ≤ L ∧ (0 < L → i * c < L) := by
        rw [show i = packetCount L c - 1 by omega]; exact ⟨hn₂, hn₃⟩
      have hle : L ≤ i * c + c := by rw [← Nat.succ_mul, Nat.succ_eq_add_one, hi]; exact hn₁
      have hwrap : i * c + c < 2 ^ 32 := by
        rcases Nat.eq_zero_or_pos L with h0 | h0
        · omega
        · have := hic' h0; omega
      have hrest :
          int32 (((L + 2 ^ 32 - i * c) % 2 ^ 32 : Nat) : Int) = ((L - i * c : Nat) : Int) := by
        rw [show (L + 2 ^ 32 - i * c) % 2 ^ 32 = L - i * c by omega]
        exact int32_of_lt (by omega) (by omega)
      have hpos : toUnsigned ((L - i * c : Nat) : Int) = L - i * c := toUnsigned_ofNat (by omega)
      have hlen : (((L - i * c : Nat) : Int) % 65536).toNat = L - i * c := by omega
      simp only [sendLoop, hu, Nat.mod_eq_of_lt hwrap, decide_eq_true_eq, hle, if_true, hrest,
        hpos, hlen, decide_True, Bool.true_and, Bool.false_or]
      rw [if_neg (by omega)]
      simp only [List.range'_succ, List.range'_zero, List.map_cons, List.map_nil, specPacket,
        pieceLen, hi, decide_True, if_true, Bool.and_true]
    · -- a whole chunk, then the rest of the packets from the next position
      have hlt : i * c + c < L := by
        have : (i + 1) * c ≤ (packetCount L c - 1) * c := Nat.mul_le_mul_right c (by omega)
        rw [Nat.succ_mul] at this
        omega
      have hnext := sendLoop_spec hc hc16 hL k (i + 1) fuel (by omega) hk (by omega)
      rw [Nat.succ_mul] at hnext
      have hlen : ((c : Int) % 65536).toNat = c := by omega
      simp only [sendLoop, hu, Nat.mod_eq_of_lt (show i * c + c < 2 ^ 32 by omega),
        decide_eq_true_eq, show ¬ L ≤ i * c + c by omega, if_false, decide_False, Bool.false_and,
        Bool.false_or, hlen, Bool.false_eq_true]
      rw [if_pos hlt, hnext]
      simp only [List.range'_succ, List.map_cons, Option.map_some', specPacket, pieceLen,
        show i + 1 ≠ packetCount L c by omega, decide_False, if_false, Bool.and_false]

/-- The spec packets from packet `i` on cut `[i c, L)`. -/
theorem covers_spec (hc : 0 < c) :
    ∀ k i, i + k = packetCount L c → 0 < k →
      Covers (i * c) ((List.range' i k).map (specPacket ts sendM L c (packetCount L c))) L
  | 0, _, _, hk => absurd hk (Nat.lt_irrefl 0)
  | k + 1, i, hn, _ => by
    obtain ⟨hn₀, -, hn₂, -⟩ := @packetCount_spec L c hc
    rcases Nat.eq_zero_or_pos k with rfl | hk
    · have hic : i * c ≤ L := by rw [show i = packetCount L c - 1 by omega]; exact hn₂
      simp only [List.range'_succ, List.range'_zero, List.map_cons, List.map_nil, Covers,
        specPacket, pieceLen, show i + 1 = packetCount L c by omega, if_true, true_and]
      omega
    · have := covers_spec hc k (i + 1) (by omega) hk
      rw [Nat.succ_mul] at this
      simpa only [List.range'_succ, List.map_cons, Covers, specPacket, pieceLen,
        show i + 1 ≠ packetCount L c by omega, if_false, true_and] using this

/-- The packets `specPacket` lists for a tile satisfy `TileSent`: `max(1, ⌈L/c⌉)` headers that
cut `[0, L)` into consecutive pieces of `c` bytes and the rest, one timestamp, and the marker on
the last one exactly when `sendM`. -/
theorem tileSent_spec (hc : 0 < c) :
    TileSent ts sendM L c
      ((List.range (packetCount L c)).map (specPacket ts sendM L c (packetCount L c))) := by
  obtain ⟨hn₀, -, hn₂, hn₃⟩ := @packetCount_spec L c hc
  refine ⟨by simp, by simp [specPacket], ?_, ?_, fun i hi => by simp [specPacket]⟩
  · simpa [List.range_eq_range'] using covers_spec ts sendM hc (packetCount L c) 0 (by omega) hn₀
  · simp only [List.mem_map, List.mem_range]
    rintro _ ⟨i, hi, rfl⟩
    refine ⟨rfl, ?_⟩
    unfold specPacket pieceLen
    split_ifs with h
    · rcases Nat.eq_zero_or_pos L with hL | hL
      · exact .inr hL
      · have : i * c < L := by rw [show i = packetCount L c - 1 by omega]; exact hn₃ hL
        exact .inl (Nat.sub_pos_of_lt this)
    · exact .inl hc

theorem chunkLen_eq_toNat {mtu : UInt32} {hdrSize : Nat} (hc : 0 < chunkLen mtu hdrSize) :
    chunkLen mtu hdrSize = ((chunkLen mtu hdrSize).toNat : Int) := (Int.toNat_of_nonneg hc.le).symm

/-- `tx_send_base` sends the spec packets of the tile, when a chunk fits the 16 bits of the length
field and the tile ends a chunk below `2^32`. -/
theorem txSendBase_eq {mtu : UInt32} {hdrSize : Nat} (L : Nat) (hc : 0 < chunkLen mtu hdrSize)
    (hc16 : chunkLen mtu hdrSize < 2 ^ 16) (hL : L + (chunkLen mtu hdrSize).toNat ≤ 2 ^ 32) :
    txSendBase mtu hdrSize ts sendM L =
      some ((List.range (packetCount L (chunkLen mtu hdrSize).toNat)).map
        (specPacket ts sendM L (chunkLen mtu hdrSize).toNat
          (packetCount L (chunkLen mtu hdrSize).toNat))) := by
  unfold txSendBase
  obtain ⟨c, hc'⟩ : ∃ c : Nat, chunkLen mtu hdrSize = c := ⟨_, chunkLen_eq_toNat hc⟩
  rw [hc'] at hc hc16 hL ⊢
  simp only [Int.toNat_ofNat] at hL ⊢
  obtain ⟨hn₀, -, hn₂, -⟩ := @packetCount_spec L c (by omega)
  have hn : packetCount L c ≤ L + 1 := by
    have : packetCount L c - 1 ≤ (packetCount L c - 1) * c := Nat.le_mul_of_pos_right _ (by omega)
    omega
  simpa [List.range_eq_range'] using
    sendLoop_spec ts sendM (by omega) (by omega) hL (packetCount L c) 0 (L + 1) (by omega) hn₀ hn

/-! ## The packets of a frame -/

theorem mapM_eq_some {α β : Type} {f : α → Option β} {g : α → β} :
    ∀ {l : List α}, (∀ x ∈ l, f x = some (g x)) → l.mapM f = some (l.map g)
  | [], _ => rfl
  | a :: l, h => by
    rw [List.mapM_cons, h a (List.mem_cons_self a l),
      mapM_eq_some fun x hx => h x (List.mem_cons_of_mem a hx)]
    rfl

theorem mem_gridOrder {w h : Nat} {t : Nat × Nat} :
    t ∈ gridOrder w h ↔ t.1 < w ∧ t.2 < h := by
  obtain ⟨i, j⟩ := t
  simp only [gridOrder, List.mem_flatMap, List.mem_range, List.mem_map, Prod.mk.injEq]
  constructor
  · rintro ⟨_, hi, _, hj, rfl, rfl⟩
    exact ⟨hi, hj⟩
  · rintro ⟨hi, hj⟩
    exact ⟨i, hi, j, hj, rfl, rfl⟩

/-- The loops of `tx_send` end with the tile `(gridWidth - 1, gridHeight - 1)`, and meet it only
there. -/
theorem gridOrder_last {w h : Nat} (hw : 0 < w) (hh : 0 < h) :
    ∃ l, gridOrder w h = l ++ [(w - 1, h - 1)] ∧ (w - 1, h - 1) ∉ l := by
  obtain ⟨w, rfl⟩ : ∃ w', w = w' + 1 := ⟨w - 1, by omega⟩
  obtain ⟨h, rfl⟩ : ∃ h', h = h' + 1 := ⟨h - 1, by omega⟩
  refine ⟨gridOrder w (h + 1) ++ (List.range h).map fun j => (w, j), ?_, ?_⟩
  · simp [gridOrder, List.range_succ]
  · simp [mem_gridOrder]

/-- The spec packets of a tile carry one marker when `sendM` and none otherwise, on the last
packet. -/
theorem specPackets_marker (hc : 0 < c) :
    ((List.range (packetCount L c)).map (specPacket ts sendM L c (packetCount L c))).countP (·.m) =
        (if sendM then 1 else 0) ∧
      ((List.range (packetCount L c)).map (specPacket ts sendM L c (packetCount L c))).getLast?.map
        (·.m) = some sendM := by
  obtain ⟨n, hn⟩ : ∃ n, packetCount L c = n + 1 :=
    ⟨_, (Nat.succ_pred_eq_of_pos (packetCount_spec hc).1).symm⟩
  rw [hn, List.range_succ, List.map_append]
  refine ⟨?_, by simp [specPacket]⟩
  rw [List.countP_append, List.countP_eq_zero.2 fun p hp => ?_]
  · cases sendM <;> simp [specPacket]
  · obtain ⟨i, hi, rfl⟩ := List.mem_map.1 hp
    simp [specPacket, (List.mem_range.1 hi).ne]

/-- `tx_send` on a frame whose every tile ends a chunk below `2^32`: each tile's packets as
`TileSent` says, and for the frame one timestamp and exactly one marker, on its last packet, the
last of the last tile in grid order. -/
theorem txSend_spec {mtu : UInt32} {hdrSize : Nat} (ts : UInt32) (hc : 0 < chunkLen mtu hdrSize)
    (hc16 : chunkLen mtu hdrSize < 2 ^ 16) :
    (∀ (sendM : Bool) (L : Nat), L + (chunkLen mtu hdrSize).toNat ≤ 2 ^ 32 →
      ∃ pkts, txSendBase mtu hdrSize ts sendM L = some pkts ∧
        TileSent ts sendM L (chunkLen mtu hdrSize).toNat pkts) ∧
    ∀ (w h : Nat) (tileLen : Nat → Nat → Nat), 0 < w → 0 < h →
      (∀ i < w, ∀ j < h, tileLen i j + (chunkLen mtu hdrSize).toNat ≤ 2 ^ 32) →
      ∃ pkts, txSend mtu hdrSize ts w h tileLen = some pkts ∧ FrameSent ts pkts := by
  have hc' : 0 < (chunkLen mtu hdrSize).toNat := by omega
  refine ⟨fun sendM L hL =>
    ⟨_, txSendBase_eq ts sendM L hc hc16 hL, tileSent_spec ts sendM hc'⟩, ?_⟩
  intro w h tileLen hw hh hL
  generalize hg : (fun t : Nat × Nat =>
    (List.range (packetCount (tileLen t.1 t.2) (chunkLen mtu hdrSize).toNat)).map
      (specPacket ts (decide (t.1 = w - 1 ∧ t.2 = h - 1)) (tileLen t.1 t.2)
        (chunkLen mtu hdrSize).toNat
        (packetCount (tileLen t.1 t.2) (chunkLen mtu hdrSize).toNat))) = g
  have hm : txSend mtu hdrSize ts w h tileLen = some ((gridOrder w h).map g).flatten := by
    rw [txSend, mapM_eq_some fun t ht => ?_, Option.map_some']
    obtain ⟨hi, hj⟩ := mem_gridOrder.1 ht
    rw [← hg]
    exact txSendBase_eq ts _ _ hc hc16 (hL _ hi _ hj)
  obtain ⟨l, hl, hnot⟩ := gridOrder_last hw hh
  have hmark := @specPackets_marker ts true _ (tileLen (w - 1) (h - 1)) hc'
  refine ⟨_, hm, fun p hp => ?_, ?_, ?_⟩
  · -- every packet carries the frame's timestamp
    simp only [← hg, List.mem_flatten, List.mem_map] at hp
    obtain ⟨_, ⟨t, -, rfl⟩, hp⟩ := hp
    obtain ⟨i, -, rfl⟩ := List.mem_map.1 hp
    rfl
  · -- the tiles before the last request no marker
    rw [hl, List.map_append, List.flatten_append, List.countP_append, List.map_singleton,
      List.flatten_singleton, List.countP_eq_zero.2 fun p hp => ?_]
    · simpa [← hg] using hmark.1
    · simp only [← hg, List.mem_flatten, List.mem_map] at hp
      obtain ⟨_, ⟨t, ht, rfl⟩, hp⟩ := hp
      obtain ⟨i, -, rfl⟩ := List.mem_map.1 hp
      have : ¬ (t.1 = w - 1 ∧ t.2 = h - 1) := fun e => hnot (by rw [← e.1, ← e.2]; exact ht)
      simp [specPacket, this]
  · -- the marker is on the last packet of the last tile
    rw [hl, List.map_append, List.flatten_append, List.map_singleton, List.flatten_singleton,
      List.getLast?_append]
    have hlast := hmark.2
    simp only [← hg, decide_True, and_self] at hlast ⊢
    obtain ⟨q, hq, e⟩ := Option.map_eq_some'.1 hlast
    rw [hq]
    simpa using e

/-- At `mtu = 1500` with a 24-byte payload header, chunks of 1392 bytes. -/
theorem txSend_spec_mtu1500 : 0 < chunkLen 1500 24 ∧ chunkLen 1500 24 < 2 ^ 16 ∧
    (∀ (sendM : Bool) (L : Nat), L + (chunkLen 1500 24).toNat ≤ 2 ^ 32 →
      ∃ pkts, txSendBase 1500 24 0 sendM L = some pkts ∧
        TileSent 0 sendM L (chunkLen 1500 24).toNat pkts) ∧
    ∀ (w h : Nat) (tileLen : Nat → Nat → Nat), 0 < w → 0 < h →
      (∀ i < w, ∀ j < h, tileLen i j + (chunkLen 1500 24).toNat ≤ 2 ^ 32) →
      ∃ pkts, txSend 1500 24 0 w h tileLen = some pkts ∧ FrameSent 0 pkts :=
  ⟨by decide, by decide, txSend_spec 0 (by decide) (by decide)⟩

/-! ## Where the packets are not the chunks -/

/-- With `mtu - 40 - sizeof(payload_hdr_t) = 65568` a tile of one chunk goes in one packet whose
`length` field reads 32: `htons` keeps 16 bits of `data_len`. -/
theorem txSendBase_length_header (hdrSize : Nat) (ts : UInt32) (sendM : Bool) :
    txSendBase (UInt32.ofNat (65608 + hdrSize)) hdrSize ts sendM 65568 =
      some [⟨ts, 96, sendM, 0, 0x8000, 32, 65568⟩] := by
  have hc : chunkLen (UInt32.ofNat (65608 + hdrSize)) hdrSize = 65568 := by
    simp only [chunkLen, UInt32.toNat, UInt32.ofNat, BitVec.toNat_ofNat, int32, Int.bmod]
    have h : (((((65608 + hdrSize) % 2 ^ 32 + 2 ^ 32 - 40) % 2 ^ 32 + 2 ^ 64 - hdrSize % 2 ^ 64) %
      2 ^ 64 : Nat) : Int) % ((2 ^ 32 : Nat) : Int) = 65568 := by omega
    rw [h]
    decide
  simp [txSendBase, hc, sendLoop, toUnsigned, int32, Int.bmod]

/-- At `mtu = 65632` with a 24-byte payload header the chunk is `c = 65568`, and a tile of one
chunk goes out in one packet whose header gives the length 32. -/
theorem txSendBase_length_header_mtu65632 :
    chunkLen 65632 24 = 65568 ∧
      txSendBase 65632 24 0 true 65568 = some [⟨0, 96, true, 0, 0x8000, 32, 65568⟩] :=
  ⟨by decide, txSendBase_length_header 24 0 true⟩

/-- A positive chunk is a multiple of 48 that fits an `int`. -/
theorem chunkLen_spec {mtu : UInt32} {hdrSize : Nat} (hc : 0 < chunkLen mtu hdrSize) :
    chunkLen mtu hdrSize < 2 ^ 31 ∧ chunkLen mtu hdrSize % 48 = 0 := by
  unfold chunkLen at hc ⊢
  have hlt :=
    int32_lt ((((mtu.toNat + 2 ^ 32 - 40) % 2 ^ 32 + 2 ^ 64 - hdrSize % 2 ^ 64) % 2 ^ 64 : Nat))
  generalize int32 _ = x at hc hlt ⊢
  rcases Int.le_or_lt 0 x with h0 | h0
  · rw [Int.tdiv_eq_ediv h0 (by decide)] at hc ⊢
    omega
  · obtain ⟨y, rfl⟩ : ∃ y, x = -y := ⟨-x, by omega⟩
    rw [Int.neg_tdiv, Int.tdiv_eq_ediv (by omega) (by decide)] at hc
    omega

theorem sendLoop_wraps_aux {c : Nat} (hc : c < 2 ^ 32) (h16 : c % 16 = 0) :
    ∀ fuel pos m, pos % 16 = 0 → sendLoop ts sendM c (2 ^ 32 - 1) fuel pos m = none
  | 0, _, _, _ => rfl
  | fuel + 1, pos, m, hp => by
    have hu : toUnsigned (c : Int) = c := toUnsigned_ofNat hc
    simp only [sendLoop, hu, decide_eq_true_eq, show ¬ 2 ^ 32 - 1 ≤ (pos + c) % 2 ^ 32 by omega,
      if_false, decide_False, Bool.false_eq_true, Bool.false_and, Bool.or_false]
    rw [if_pos (by omega), sendLoop_wraps_aux hc h16 fuel _ _ (by omega)]
    rfl

/-- For a tile of `2^32 - 1` bytes, which an `unsigned data_len` can hold, `pos + data_len` is a
multiple of 16 modulo `2^32` and never reaches the tile's end: however much fuel it is given, the
loop does not stop. -/
theorem sendLoop_wraps {mtu : UInt32} {hdrSize : Nat} (hc : 0 < chunkLen mtu hdrSize) (fuel : Nat) :
    sendLoop ts sendM (chunkLen mtu hdrSize) (2 ^ 32 - 1) fuel 0 false = none := by
  obtain ⟨hlt, h48⟩ := chunkLen_spec hc
  rw [chunkLen_eq_toNat hc]
  exact sendLoop_wraps_aux ts sendM (by omega) (by omega) fuel 0 false rfl

end UltraGrid.Transmit
