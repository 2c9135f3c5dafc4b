import DrumMachine.Firmware.Keyboard

/-!
# Keyboard exchange

The path of one exchange with the shift registers: `SPIx_ReadWriteByte` and
`SPI_TransmitReceive` of `drv_spi.c`, `rt_spi_transfer`, and `kbTransferData` over them. The
peripheral is described by what it answers.
-/

namespace DrumMachine

open Framework

/-- What the peripheral answers while one byte is exchanged: how many polls of each flag
read `RESET` before one reads `SET`, and the content of the data register. -/
structure ByteExchange where
  txeBusy : Nat
  rxneBusy : Nat
  datar : BitVec 16
deriving DecidableEq

/-- `while (flag == RESET) { i++; if (i > 200) return 0; }`, with `false` for the return. -/
def waitFlag : Nat → Nat → Bool
  | 0, _ => true
  | busy + 1, i => if i + 1 > 200 then false else waitFlag busy (i + 1)

structure ByteResult where
  sent : Option (BitVec 8)
  received : BitVec 8
deriving DecidableEq

def spixReadWriteByte (b : ByteExchange) (txData : BitVec 8) : ByteResult :=
  if waitFlag b.txeBusy 0 then
    if waitFlag b.rxneBusy 0 then ⟨some txData, b.datar.setWidth 8⟩
    else ⟨some txData, 0⟩
  else ⟨none, 0⟩

abbrev Chain.byte (d : Chain) (i : Fin 3) : BitVec 8 := d[i.val]

abbrev Chain.setByte (d : Chain) (i : Fin 3) (byte : BitVec 8) : Chain := d.set i.val byte

structure Transfer where
  recvBuf : Chain
  wire : List (BitVec 8)
deriving DecidableEq

def exchangeByte (bytes : Vector ByteExchange 3) (sendBuf : Chain) (i : Fin 3) (t : Transfer) :
    Transfer :=
  let r := spixReadWriteByte bytes[i.val] sendBuf[i.val]
  ⟨t.recvBuf.set i.val r.received, t.wire ++ r.sent.toList⟩

def spiTransmitReceive (bytes : Vector ByteExchange 3) (sendBuf recvBuf : Chain) : Transfer :=
  forLoop 3 (exchangeByte bytes sendBuf) ⟨recvBuf, []⟩

/-- One call of `rt_spi_transfer`: whether the bus lock was taken, whether the bus was or
could be configured for the device, and the bytes. -/
structure Exchange where
  lockTaken : Bool
  configured : Bool
  bytes : Vector ByteExchange 3
deriving DecidableEq

/-- `rt_spi_transfer` of a chain: the returned length and the buffers. A chain fits one chunk
of `spixfer`, which returns the message length since no chunk fails. -/
def rtSpiTransfer (x : Exchange) (sendBuf recvBuf : Chain) : Nat × Transfer :=
  if x.lockTaken then
    if x.configured then (3, spiTransmitReceive x.bytes sendBuf recvBuf)
    else (0, ⟨recvBuf, []⟩)
  else (0, ⟨recvBuf, []⟩)

/-- `kbTransferData`: the bytes it leaves in `button_data`. A transfer that returns 0 is
printed and goes on like any other. -/
def kbTransferData (x : Exchange) (ledData buttonData : Chain) : Chain :=
  let buttonDataTemp := (rtSpiTransfer x ledData Chain.zero).2.recvBuf
  forLoop 3 (fun i (out : Chain) => out.set i.val (~~~buttonDataTemp[i.val])) buttonData

def Exchange.Fails (x : Exchange) : Prop := x.lockTaken = false ∨ x.configured = false

instance (x : Exchange) : Decidable x.Fails :=
  inferInstanceAs (Decidable (x.lockTaken = false ∨ x.configured = false))

/-- `SPIx_ReadWriteByte` gives up waiting: a flag reads `RESET` more than 200 times. -/
def ByteExchange.GivesUp (b : ByteExchange) : Prop := 200 < b.txeBusy ∨ 200 < b.rxneBusy

instance (b : ByteExchange) : Decidable b.GivesUp :=
  inferInstanceAs (Decidable (200 < b.txeBusy ∨ 200 < b.rxneBusy))

theorem waitFlag_eq (busy i : Nat) : waitFlag busy i = decide (busy + i ≤ 200 ∨ busy = 0) := by
  induction busy generalizing i with
  | zero => simp [waitFlag]
  | succ busy ih =>
    rw [waitFlag]
    by_cases h : i + 1 > 200
    · rw [if_pos h, eq_comm, decide_eq_false_iff_not]
      omega
    · rw [if_neg h, ih, decide_eq_decide]
      omega

theorem spixReadWriteByte_received (b : ByteExchange) (txData : BitVec 8) :
    (spixReadWriteByte b txData).received = if b.GivesUp then 0 else b.datar.setWidth 8 := by
  simp only [spixReadWriteByte, waitFlag_eq, ByteExchange.GivesUp, decide_eq_true_eq]
  by_cases ht : 200 < b.txeBusy
  · have hw : ¬(b.txeBusy + 0 ≤ 200 ∨ b.txeBusy = 0) := by omega
    simp only [hw, ht, true_or, ↓reduceIte]
  · have hw : b.txeBusy + 0 ≤ 200 ∨ b.txeBusy = 0 := by omega
    by_cases hr : 200 < b.rxneBusy
    · have hw' : ¬(b.rxneBusy + 0 ≤ 200 ∨ b.rxneBusy = 0) := by omega
      simp only [hw, hw', hr, or_true, ↓reduceIte]
    · have hw' : b.rxneBusy + 0 ≤ 200 ∨ b.rxneBusy = 0 := by omega
      simp only [hw, hw', ht, hr, or_self, ↓reduceIte]

theorem spiTransmitReceive_recvBuf (bytes : Vector ByteExchange 3) (sendBuf recvBuf : Chain)
    (i : Fin 3) :
    (spiTransmitReceive bytes sendBuf recvBuf).recvBuf[i.val] =
      if bytes[i.val].GivesUp then 0 else bytes[i.val].datar.setWidth 8 := by
  rw [← spixReadWriteByte_received _ sendBuf[i.val]]
  apply forLoop_cells (exchangeByte bytes sendBuf) (fun i t => t.recvBuf[i.val])
    (fun i _ => (spixReadWriteByte bytes[i.val] sendBuf[i.val]).received)
  · intro i t
    simp [exchangeByte]
  · intro i j t hne
    have hval := Fin.val_ne_of_ne hne.symm
    simp [exchangeByte, hval]

theorem rtSpiTransfer_eq_zero_iff (x : Exchange) (sendBuf recvBuf : Chain) :
    (rtSpiTransfer x sendBuf recvBuf).1 = 0 ↔ x.Fails := by
  rw [rtSpiTransfer, Exchange.Fails]
  cases x.lockTaken <;> cases x.configured <;> simp

theorem rtSpiTransfer_of_fails {x : Exchange} (h : x.Fails) (sendBuf recvBuf : Chain) :
    rtSpiTransfer x sendBuf recvBuf = (0, ⟨recvBuf, []⟩) := by
  rw [rtSpiTransfer]
  rcases h with h | h <;> simp [h]

abbrev Exchange.byte (x : Exchange) (i : Fin 3) : ByteExchange := x.bytes[i.val]

def Exchange.Lost (x : Exchange) (i : Fin 3) : Prop := x.Fails ∨ x.bytes[i.val].GivesUp

instance (x : Exchange) (i : Fin 3) : Decidable (x.Lost i) :=
  inferInstanceAs (Decidable (x.Fails ∨ x.bytes[i.val].GivesUp))

theorem kbTransferData_byte (x : Exchange) (ledData buttonData : Chain) (i : Fin 3) :
    (kbTransferData x ledData buttonData)[i.val] =
      ~~~(if x.Lost i then 0 else x.bytes[i.val].datar.setWidth 8) := by
  have hinvert : (kbTransferData x ledData buttonData)[i.val] =
      ~~~(rtSpiTransfer x ledData Chain.zero).2.recvBuf[i.val] := by
    apply forLoop_cells (fun i (out : Chain) => out.set i.val
        (~~~(rtSpiTransfer x ledData Chain.zero).2.recvBuf[i.val]))
      (fun i (out : Chain) => out[i.val])
      (fun i _ => ~~~(rtSpiTransfer x ledData Chain.zero).2.recvBuf[i.val])
    · intro i t
      simp
    · intro i j t hne
      have hval := Fin.val_ne_of_ne hne.symm
      simp [hval]
  have hzero : ∀ j : Fin 3, Chain.zero[j.val] = 0 := by decide
  rw [hinvert]
  by_cases hf : x.Fails
  · have hlost : x.Lost i := Or.inl hf
    rw [rtSpiTransfer_of_fails hf, hzero, if_pos hlost]
  · have hok : (rtSpiTransfer x ledData Chain.zero).2 =
        spiTransmitReceive x.bytes ledData Chain.zero := by
      rw [Exchange.Fails, not_or, Bool.not_eq_false, Bool.not_eq_false] at hf
      simp [rtSpiTransfer, hf.1, hf.2]
    rw [hok, spiTransmitReceive_recvBuf]
    simp only [Exchange.Lost, hf, false_or]

end DrumMachine
