import UltraGrid.Transmit

/-!
# The bytes the packets carry, and the audio packetizer

Each call of `rtp_send_data_hdr` in `tx_send_base` is given `data = tile->data + pos` and
`data_len`: its payload is `data_len` bytes of the tile from `pos`, the `offset` of its header
(`payload`). Read in the order they are sent, the payloads of a tile's packets are the tile
(`txSendBase_payload`), and each is the piece of the tile that its header's `offset` and
`length` name: a receiver that puts every payload where its header says rebuilds the tile.
`tx_send_tile` is `tx_send_base` on one tile with the marker asked for (`txSendTile`).

`audio_tx_send` is the loop of `tx_send_base` once more, with other constants: the chunk
`mtu - 40 - sizeof(audio_payload_hdr_t)` for `mtu = 1500`, not rounded to a multiple of 48, the
marker always asked for on the last packet, the payload type `audio_payload_type`, and a header
without `flags`. It is `sendLoop` with these values (`audioTxSend`), so it sends the packets of
`TileSent`, one marker on the last one, and its payloads rebuild the buffer
(`audioTxSend_spec`).

`sizeof(audio_payload_hdr_t)` and `audio_payload_type` are parameters: neither is among the
sources. The fields of the audio header that are the same in every packet (`ch_count`,
`sample_rate`, `buffer_len`, `audio_quant`) and the pacing loop are left out.
-/

namespace UltraGrid.Transmit

open Rtp (int32 int32_of_lt)

/-- The payload of a packet: the `data_len` bytes from `offset` of the tile `data`. -/
def payload (data : List UInt8) (p : Packet) : List UInt8 :=
  (data.drop p.offset).take p.dataLen.toNat

theorem Covers.le : ∀ {o : Nat} {pkts : List Packet} {L : Nat}, Covers o pkts L → o ≤ L
  | _, [], _, h => Nat.le_of_eq h
  | _, _ :: _, _, ⟨_, _, h⟩ => Nat.le_trans (Nat.le_add_right _ _) h.le

/-- The payloads of packets that cut `[o, L)` are the tile from `o`. -/
theorem flatten_payload_of_covers {data : List UInt8} :
    ∀ {o : Nat} {pkts : List Packet}, Covers o pkts data.length →
      (pkts.map (payload data)).flatten = data.drop o
  | _, [], h => by simp [show _ = data.length from h]
  | o, p :: ps, ⟨ho, hl, h⟩ => by
    have hp : payload data p = (data.drop o).take p.length := by
      rw [payload, ho, ← hl, Int.toNat_ofNat]
    rw [List.map_cons, List.flatten_cons, flatten_payload_of_covers h, hp, ← List.drop_drop,
      List.take_append_drop]

/-- In packets that cut `[o, L)`, each header names the piece of the tile its payload is. -/
theorem payload_of_covers {data : List UInt8} :
    ∀ {o : Nat} {pkts : List Packet}, Covers o pkts data.length → ∀ p ∈ pkts,
      payload data p = (data.drop p.offset).take p.length ∧ p.offset + p.length ≤ data.length
  | _, [], _, _, hp => absurd hp (List.not_mem_nil _)
  | _, q :: ps, ⟨ho, hl, h⟩, p, hp => by
    rcases List.mem_cons.1 hp with rfl | hp
    · exact ⟨by rw [payload, ← hl, Int.toNat_ofNat], ho ▸ h.le⟩
    · exact payload_of_covers h p hp

/-- The payloads of the packets of a tile, in the order `tx_send_base` sends them, are the
tile: each byte goes out once, and each packet's header `offset` and `length` name the piece of
the tile it carries. -/
theorem txSendBase_payload {mtu : UInt32} {hdrSize : Nat} (ts : UInt32) (sendM : Bool)
    (data : List UInt8) (hc : 0 < chunkLen mtu hdrSize) (hc16 : chunkLen mtu hdrSize < 2 ^ 16)
    (hL : data.length + (chunkLen mtu hdrSize).toNat ≤ 2 ^ 32) :
    ∃ pkts, txSendBase mtu hdrSize ts sendM data.length = some pkts ∧
      (pkts.map (payload data)).flatten = data ∧
      ∀ p ∈ pkts, payload data p = (data.drop p.offset).take p.length ∧
        (payload data p).length = p.length := by
  have hcov := (@tileSent_spec ts sendM _ data.length
    (show 0 < (chunkLen mtu hdrSize).toNat by omega)).2.2.1
  refine ⟨_, txSendBase_eq ts sendM data.length hc hc16 hL, flatten_payload_of_covers hcov,
    fun p hp => ?_⟩
  obtain ⟨he, hle⟩ := payload_of_covers hcov p hp
  refine ⟨he, ?_⟩
  rw [he, List.length_take, List.length_drop]
  omega

/-- A tile of 3000 bytes at `mtu = 1500`, with a 24-byte payload header. -/
theorem txSendBase_payload_mtu1500 :
    ∃ pkts, txSendBase 1500 24 0 true (List.replicate 3000 (7 : UInt8)).length = some pkts ∧
      (pkts.map (payload (List.replicate 3000 7))).flatten = List.replicate 3000 7 ∧
      ∀ p ∈ pkts, payload (List.replicate 3000 7) p =
          ((List.replicate 3000 7).drop p.offset).take p.length ∧
        (payload (List.replicate 3000 7) p).length = p.length :=
  txSendBase_payload 0 true _ (by decide) (by decide) (by simp only [List.length_replicate]; decide)

/-- `tx_send_tile`: the tile at `(xPos, yPos)` sent alone, with the marker on its last packet.
`tileLen i j` is the `data_len` of `tile_get(frame, i, j)`. -/
def txSendTile (mtu : UInt32) (hdrSize : Nat) (ts : UInt32) (tileLen : Nat → Nat → Nat)
    (xPos yPos : Nat) : Option (List Packet) :=
  txSendBase mtu hdrSize ts true (tileLen xPos yPos)

/-! ## The audio packetizer -/

/-- One call of `rtp_send_data_hdr` in `audio_tx_send`: the timestamp, payload type and marker of
the RTP header, the `offset` and `length` of the audio payload header, and `data_len`. -/
structure AudioPacket where
  ts : UInt32
  pt : Nat
  m : Bool
  offset : Nat
  length : Nat
  dataLen : Int
  deriving DecidableEq, Repr

/-- A packet of the loop with the payload type `pt` and the audio header, which has no `flags`. -/
def Packet.toAudio (pt : Nat) (p : Packet) : AudioPacket :=
  ⟨p.ts, pt, p.m, p.offset, p.length, p.dataLen⟩

/-- `data_len = mtu - 40 - sizeof(audio_payload_hdr_t)` with `const int mtu = 1500`: the `int`
1460, then the `size_t` difference with the header size, stored into the `int`. -/
def audioChunkLen (hdrSize : Nat) : Int :=
  int32 ((1460 + 2 ^ 64 - hdrSize % 2 ^ 64) % 2 ^ 64 : Nat)

/-- `audio_tx_send` on a buffer of `bufferLen` bytes: the loop of `tx_send_base` with the audio
chunk and the marker on the last packet, sent with the payload type `audioPayloadType`. -/
def audioTxSend (hdrSize audioPayloadType : Nat) (ts : UInt32) (bufferLen : Nat) :
    Option (List AudioPacket) :=
  (sendLoop ts true (audioChunkLen hdrSize) bufferLen (bufferLen + 1) 0 false).map
    (List.map (Packet.toAudio audioPayloadType))

theorem audioChunkLen_of_lt {hdrSize : Nat} (h : hdrSize < 1460) :
    audioChunkLen hdrSize = ((1460 - hdrSize : Nat) : Int) := by
  unfold audioChunkLen
  rw [show (1460 + 2 ^ 64 - hdrSize % 2 ^ 64) % 2 ^ 64 = 1460 - hdrSize by omega]
  exact int32_of_lt (by omega) (by omega)

/-- The loop from the start of a buffer of `L` bytes, with one round per byte and one more, sends
the spec packets. -/
theorem sendLoop_start (ts : UInt32) (sendM : Bool) {c L : Nat} (hc : 0 < c) (hc16 : c < 2 ^ 16)
    (hL : L + c ≤ 2 ^ 32) :
    sendLoop ts sendM c L (L + 1) 0 false =
      some ((List.range (packetCount L c)).map (specPacket ts sendM L c (packetCount L c))) := by
  obtain ⟨hn₀, -, hn₂, -⟩ := @packetCount_spec L c hc
  have hn : packetCount L c ≤ L + 1 := by
    have : packetCount L c - 1 ≤ (packetCount L c - 1) * c := Nat.le_mul_of_pos_right _ hc
    omega
  simpa [List.range_eq_range'] using
    sendLoop_spec ts sendM hc hc16 hL (packetCount L c) 0 (L + 1) (by omega) hn₀ hn

/-- `audio_tx_send` sends the packets of its buffer as `tx_send_base` sends a tile whose marker
is asked for, in chunks of `1460 - sizeof(audio_payload_hdr_t)` bytes, all with the audio
payload type: the marker is on the last packet only, and the payloads rebuild the buffer. -/
theorem audioTxSend_spec (hdrSize pt : Nat) (ts : UInt32) (data : List UInt8)
    (hh : hdrSize < 1460) (hL : data.length + (1460 - hdrSize) ≤ 2 ^ 32) :
    ∃ pkts, audioTxSend hdrSize pt ts data.length = some (pkts.map (Packet.toAudio pt)) ∧
      TileSent ts true data.length (1460 - hdrSize) pkts ∧
      (pkts.map (payload data)).flatten = data := by
  have hsent := @tileSent_spec ts true _ data.length (show 0 < 1460 - hdrSize by omega)
  refine ⟨_, ?_, hsent, flatten_payload_of_covers hsent.2.2.1⟩
  rw [audioTxSend, audioChunkLen_of_lt hh, sendLoop_start ts true (by omega) (by omega) hL,
    Option.map_some']

/-- A buffer of 3000 bytes with a 16-byte audio header goes out in chunks of 1444 bytes. -/
theorem audioTxSend_spec_3000 :
    ∃ pkts, audioTxSend 16 97 0 (List.replicate 3000 (0 : UInt8)).length =
        some (pkts.map (Packet.toAudio 97)) ∧
      TileSent 0 true (List.replicate 3000 (0 : UInt8)).length (1460 - 16) pkts ∧
      (pkts.map (payload (List.replicate 3000 0))).flatten = List.replicate 3000 0 :=
  audioTxSend_spec 16 97 0 _ (by decide) (by simp only [List.length_replicate]; decide)

end UltraGrid.Transmit
