import Mathlib.Data.List.Basic

/-!
# The interrupt handler of the DVB Master III Tx

`dvbm_txu_irq_handler` reads `PLX_INTCSR` of the card's PCI bridge. On an interrupt of DMA
channel 0 it reads `PLX_DMACSR0`, clears the interrupt by writing `ENABLE | CLINT` to it, advances
the DMA ring and, when the channel is done with its chain, records the event
`ASI_EVENT_TX_BUFFER_ORDER` and sets bit 0 of `dma_done`. On a local interrupt it reads
`DVBM_FDU_ICSR`, writes the value back to clear it, and records `ASI_EVENT_TX_FIFO_ORDER` for
`TXUIS` and `ASI_EVENT_TX_DATA_ORDER` for `TXDIS`. It wakes the waiters and returns
`IRQ_HANDLED` when it saw one of these causes, `IRQ_NONE` otherwise.

The masks and the event numbers are parameters (`IrqBits`): their values are in `plx9080.h`,
`dvbm_fdu.h` and `asi.h`, which are not among the sources. `mdma_advance` is counted
(`Iface.dmaAdvances`); the spin lock around the `ICSR` access and the dummy read that flushes
the posted writes are left out.

The handler serves an interrupt when `claims` holds (`handler_woke`) and records its `causes`
without clearing an event (`testBit_handler_events`); it acknowledges a local interrupt even when
it does not claim it. Over any sequence of interrupts the events are the ones recorded, the ring
advances once per DMA interrupt, and the waiters are woken exactly by the claimed ones
(`irqRun_spec`).
-/

namespace UltraGrid.Quad

/-- `set_bit(nr, addr)` on the word at `addr`. -/
def setBit (nr w : Nat) : Nat := w ||| 1 <<< nr

/-- `x & mask` as a condition. -/
def hasBits (x mask : Nat) : Bool := x &&& mask != 0

/-- The masks the handler tests and writes, and the numbers of the events it records. -/
structure IrqBits where
  /-- `PLX_INTCSR_DMA0INT_ACTIVE`. -/
  dma0IntActive : Nat
  /-- `PLX_INTCSR_PCILOCINT_ACTIVE`. -/
  pciLocIntActive : Nat
  /-- `PLX_DMACSR_ENABLE`. -/
  dmacsrEnable : Nat
  /-- `PLX_DMACSR_CLINT`. -/
  dmacsrClint : Nat
  /-- `PLX_DMACSR_DONE`. -/
  dmacsrDone : Nat
  /-- `DVBM_FDU_ICSR_TXUIS`. -/
  txuis : Nat
  /-- `DVBM_FDU_ICSR_TXDIS`. -/
  txdis : Nat
  /-- `ASI_EVENT_TX_BUFFER_ORDER`. -/
  txBufferOrder : Nat
  /-- `ASI_EVENT_TX_FIFO_ORDER`. -/
  txFifoOrder : Nat
  /-- `ASI_EVENT_TX_DATA_ORDER`. -/
  txDataOrder : Nat
  deriving DecidableEq, Repr

/-- What the handler reads from the card: `PLX_INTCSR`, and `PLX_DMACSR0` and `DVBM_FDU_ICSR`
as they read when it reads them. -/
structure IrqRegs where
  intcsr : Nat
  dmacsr0 : Nat
  icsr : Nat
  deriving DecidableEq, Repr

/-- The fields of the transmit interface the handler changes: `events`, `dma_done`, and the
number of `mdma_advance` calls on its ring. -/
structure Iface where
  events : Nat
  dmaDone : Nat
  dmaAdvances : Nat
  deriving DecidableEq, Repr

/-- The registers the handler writes. -/
inductive Reg where
  | dmacsr0 | icsr
  deriving DecidableEq, Repr

/-- `irqreturn_t`. -/
inductive IrqReturn where
  | none | handled
  deriving DecidableEq, Repr

/-- One call of the handler: the interface after it, its register writes in order, whether it
called `wake_up`, and what it returned. -/
structure IrqResult where
  iface : Iface
  writes : List (Reg × Nat)
  woke : Bool
  ret : IrqReturn
  deriving DecidableEq, Repr

/-- `dvbm_txu_irq_handler`. -/
def dvbmTxuIrqHandler (b : IrqBits) (r : IrqRegs) (iface : Iface) : IrqResult :=
  let dma := hasBits r.intcsr b.dma0IntActive
  let done := hasBits r.dmacsr0 b.dmacsrDone
  let iface : Iface := if dma then
      { events := if done then setBit b.txBufferOrder iface.events else iface.events
        dmaDone := if done then setBit 0 iface.dmaDone else iface.dmaDone
        dmaAdvances := iface.dmaAdvances + 1 }
    else iface
  let loc := hasBits r.intcsr b.pciLocIntActive
  let fifo := loc && hasBits r.icsr b.txuis
  let data := loc && hasBits r.icsr b.txdis
  let iface := { iface with events := if fifo then setBit b.txFifoOrder iface.events else iface.events }
  let iface := { iface with events := if data then setBit b.txDataOrder iface.events else iface.events }
  let interrupting := dma || fifo || data
  { iface
    writes := (if dma then [(.dmacsr0, b.dmacsrEnable ||| b.dmacsrClint)] else []) ++
      (if loc then [(.icsr, r.icsr)] else [])
    woke := interrupting
    ret := if interrupting then .handled else .none }

/-! ### What the handler is for -/

/-- The interrupts the handler serves: one of DMA channel 0, or a local one that is a FIFO
underrun or a `TXDIS`. -/
def claims (b : IrqBits) (r : IrqRegs) : Bool :=
  hasBits r.intcsr b.dma0IntActive ||
    hasBits r.intcsr b.pciLocIntActive && (hasBits r.icsr b.txuis || hasBits r.icsr b.txdis)

/-- A DMA interrupt whose channel is done with its chain. -/
def dmaDoneCause (b : IrqBits) (r : IrqRegs) : Bool :=
  hasBits r.intcsr b.dma0IntActive && hasBits r.dmacsr0 b.dmacsrDone

/-- The events an interrupt reports. -/
def causes (b : IrqBits) (r : IrqRegs) : List Nat :=
  (if dmaDoneCause b r then [b.txBufferOrder] else []) ++
    (if hasBits r.intcsr b.pciLocIntActive && hasBits r.icsr b.txuis then [b.txFifoOrder]
      else []) ++
    (if hasBits r.intcsr b.pciLocIntActive && hasBits r.icsr b.txdis then [b.txDataOrder]
      else [])

@[simp] theorem testBit_setBit (nr w n : Nat) : (setBit nr w).testBit n = (n = nr || w.testBit n) := by
  rw [setBit, Nat.testBit_or, Nat.one_shiftLeft, Nat.testBit_two_pow, Bool.or_comm]
  simp only [@eq_comm _ nr n]

theorem testBit_ite_setBit (c : Bool) (nr w n : Nat) :
    (if c then setBit nr w else w).testBit n = (c && n = nr || w.testBit n) := by
  cases c <;> simp

/-- A cause is only ever reported by an interrupt the handler claims. -/
theorem claims_of_mem_causes {b : IrqBits} {r : IrqRegs} {n : Nat} (h : n ∈ causes b r) :
    claims b r := by
  simp only [causes, dmaDoneCause, List.mem_append, List.mem_ite_nil_right] at h
  simp only [Bool.and_eq_true] at h
  simp only [claims, Bool.or_eq_true, Bool.and_eq_true]
  rcases h with (⟨⟨h, -⟩, -⟩ | ⟨⟨hl, hu⟩, -⟩) | ⟨⟨hl, hd⟩, -⟩
  · exact .inl h
  · exact .inr ⟨hl, .inl hu⟩
  · exact .inr ⟨hl, .inr hd⟩

theorem handler_events (b : IrqBits) (r : IrqRegs) (iface : Iface) :
    (dvbmTxuIrqHandler b r iface).iface.events =
      if hasBits r.intcsr b.pciLocIntActive && hasBits r.icsr b.txdis then
        setBit b.txDataOrder
          (if hasBits r.intcsr b.pciLocIntActive && hasBits r.icsr b.txuis then
            setBit b.txFifoOrder
              (if dmaDoneCause b r then setBit b.txBufferOrder iface.events else iface.events)
          else if dmaDoneCause b r then setBit b.txBufferOrder iface.events else iface.events)
      else if hasBits r.intcsr b.pciLocIntActive && hasBits r.icsr b.txuis then
        setBit b.txFifoOrder
          (if dmaDoneCause b r then setBit b.txBufferOrder iface.events else iface.events)
      else if dmaDoneCause b r then setBit b.txBufferOrder iface.events else iface.events := by
  simp only [dvbmTxuIrqHandler, dmaDoneCause]
  by_cases h : hasBits r.intcsr b.dma0IntActive <;> simp [h]

theorem testBit_handler_events (b : IrqBits) (r : IrqRegs) (iface : Iface) (n : Nat) :
    (dvbmTxuIrqHandler b r iface).iface.events.testBit n ↔
      iface.events.testBit n ∨ n ∈ causes b r := by
  rw [handler_events]
  simp only [testBit_ite_setBit]
  simp only [causes, List.mem_append, List.mem_ite_nil_right, List.mem_singleton,
    Bool.or_eq_true, Bool.and_eq_true, decide_eq_true_eq, or_assoc, or_comm, or_left_comm]

theorem handler_dmaDone (b : IrqBits) (r : IrqRegs) (iface : Iface) :
    (dvbmTxuIrqHandler b r iface).iface.dmaDone =
      if dmaDoneCause b r then setBit 0 iface.dmaDone else iface.dmaDone := by
  simp only [dvbmTxuIrqHandler, dmaDoneCause]
  split_ifs <;> simp_all

theorem handler_dmaAdvances (b : IrqBits) (r : IrqRegs) (iface : Iface) :
    (dvbmTxuIrqHandler b r iface).iface.dmaAdvances =
      iface.dmaAdvances + if hasBits r.intcsr b.dma0IntActive then 1 else 0 := by
  simp only [dvbmTxuIrqHandler]
  split_ifs <;> rfl

theorem handler_woke (b : IrqBits) (r : IrqRegs) (iface : Iface) :
    (dvbmTxuIrqHandler b r iface).woke = claims b r := by
  simp only [dvbmTxuIrqHandler, claims]
  cases hasBits r.intcsr b.pciLocIntActive <;> simp [Bool.or_assoc]

/- A local interrupt that is neither a FIFO underrun nor `TXDIS` is cleared and not claimed. -/
example :
    (dvbmTxuIrqHandler ⟨1, 2, 4, 8, 16, 1, 2, 0, 1, 2⟩ ⟨2, 0, 4⟩ ⟨0, 0, 0⟩).ret = .none ∧
      (Reg.icsr, 4) ∈ (dvbmTxuIrqHandler ⟨1, 2, 4, 8, 16, 1, 2, 0, 1, 2⟩ ⟨2, 0, 4⟩ ⟨0, 0, 0⟩).writes := by
  decide

/-! ### Runs of interrupts -/

/-- The handler called on the interrupts `rs` in turn: the interface after them, and whether
each call woke the waiters. -/
def irqRun (b : IrqBits) (iface : Iface) : List IrqRegs → Iface × List Bool
  | [] => (iface, [])
  | r :: rs =>
    let res := dvbmTxuIrqHandler b r iface
    let run := irqRun b res.iface rs
    (run.1, res.woke :: run.2)

/-- Along any sequence of interrupts the handler loses no event and invents none: the events
set are the ones there before and the causes of the interrupts, `dma_done` is set exactly by a
DMA interrupt whose channel is done, the ring advances once per DMA interrupt, and the waiters
are woken by exactly the interrupts the handler serves. -/
theorem irqRun_spec (b : IrqBits) (rs : List IrqRegs) (iface : Iface) :
    (∀ n, (irqRun b iface rs).1.events.testBit n ↔
      iface.events.testBit n ∨ ∃ r ∈ rs, n ∈ causes b r) ∧
    (∀ n, (irqRun b iface rs).1.dmaDone.testBit n ↔
      iface.dmaDone.testBit n ∨ n = 0 ∧ ∃ r ∈ rs, dmaDoneCause b r) ∧
    (irqRun b iface rs).1.dmaAdvances =
      iface.dmaAdvances + rs.countP (fun r => hasBits r.intcsr b.dma0IntActive) ∧
    (irqRun b iface rs).2 = rs.map (claims b) := by
  induction rs generalizing iface with
  | nil => simp [irqRun]
  | cons r rs ih =>
    obtain ⟨he, hd, ha, hw⟩ := ih (dvbmTxuIrqHandler b r iface).iface
    refine ⟨fun n => ?_, fun n => ?_, ?_, ?_⟩
    · rw [irqRun, he, testBit_handler_events]
      simp only [List.mem_cons, exists_eq_or_imp, or_assoc]
    · rw [irqRun, hd, handler_dmaDone, testBit_ite_setBit]
      by_cases hn : n = 0 <;>
        simp [hn, List.mem_cons, exists_eq_or_imp, or_comm, or_left_comm, or_assoc]
    · rw [irqRun, ha, handler_dmaAdvances, List.countP_cons]
      omega
    · rw [irqRun, hw, handler_woke, List.map_cons]

end UltraGrid.Quad
