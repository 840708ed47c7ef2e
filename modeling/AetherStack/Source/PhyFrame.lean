import AetherStack.Lib.Rows
import AetherStack.Source.RadioFrames

/-!
# Bursts of data symbols

Source: stack/phy/src/frame.cpp:29-86 and 150-339, and the range of what `pss_detect` returns in
stack/phy/src/sync.cpp:104-158. The mapper and
the demapper are a parameter, `Modem`, since they compute in floating point; a row is what one
symbol carries. So are the samples: of the sample path only the indices are here, as integers,
with the cast of the buffer length to `int`.
-/
namespace AetherStack.Source
open Lib Mac

inductive Mcs where
  | qpsk | qam16 | qam64
  deriving DecidableEq, Repr

namespace Mcs

def toOctet : Mcs → UInt8
  | .qpsk => 0
  | .qam16 => 1
  | .qam64 => 2

/-- A field above `Mcs::QAM64` is a corrupt header. -/
def ofField : Nat → Option Mcs
  | 0 => some .qpsk
  | 1 => some .qam16
  | 2 => some .qam64
  | _ => none

/-- `mcs_bits_per_symbol`. -/
def bitsPerSymbol : Mcs → Nat
  | .qpsk => 2
  | .qam16 => 4
  | .qam64 => 6

theorem ofField_toOctet (mcs : Mcs) : ofField mcs.toOctet.toNat = some mcs := by
  cases mcs <;> rfl

theorem bitsPerSymbol_pos (mcs : Mcs) : 0 < mcs.bitsPerSymbol := by
  cases mcs <;> decide

end Mcs

def kPreambleSymbols : Nat := 3

def kFrameDataMaxSymbols : Nat := 40

/-- `qam_modulate` and `qam_demodulate` at a number of bits per symbol. -/
structure Modem (Row : Type) where
  modulate : Bytes → Nat → Row
  demodulate : Row → Nat → Bytes

/-- Demodulation undoes modulation on every row of bits the modulator takes. -/
def Modem.Ideal {Row : Type} (m : Modem Row) : Prop :=
  ∀ (bits : Bytes) (mcs : Mcs), bits.length % mcs.bitsPerSymbol = 0 → (∀ b ∈ bits, b = 0 ∨ b = 1) →
    m.demodulate (m.modulate bits mcs.bitsPerSymbol) mcs.bitsPerSymbol = bits

/-! ### Transmitter -/

def tagMcs (bits : Bytes) (mcs : Mcs) : Bytes := bits.take 16 ++
  (appendByteBits mcs.toOctet ++ bits.drop 16)

def frameBitsCapacity (nFft : Nat) (mcs : Mcs) : Nat :=
  2 * nFft + (kFrameDataMaxSymbols - 1) * mcs.bitsPerSymbol * nFft - 8

def frameDataSymbols (nBits nFft : Nat) (mcs : Mcs) : Nat :=
  let total := nBits + 8
  if total ≤ 2 * nFft then 1
  else 1 + (total - 2 * nFft + mcs.bitsPerSymbol * nFft - 1) / (mcs.bitsPerSymbol * nFft)

/-- The bits of data symbol 0, and of symbol `s + 1`. -/
def headRow (tagged : Bytes) (nFft : Nat) : Bytes := padTo 0 (2 * nFft) (tagged.take (2 * nFft))

def dataRow (tagged : Bytes) (nFft : Nat) (mcs : Mcs) (s : Nat) : Bytes :=
  let off := 2 * nFft + s * mcs.bitsPerSymbol * nFft
  padTo 0 (mcs.bitsPerSymbol * nFft) ((tagged.take (off + mcs.bitsPerSymbol * nFft)).drop off)

def mapDataSymbols {Row : Type} (m : Modem Row) (bits : Bytes) (nFft : Nat) (mcs : Mcs) : List Row :=
  m.modulate (headRow (tagMcs bits mcs) nFft) Mcs.qpsk.bitsPerSymbol ::
    (List.range (frameDataSymbols bits.length nFft mcs - 1)).map fun s =>
      m.modulate (dataRow (tagMcs bits mcs) nFft mcs s) mcs.bitsPerSymbol

/-! ### Receiver, bit path -/

/-- The early drop: data for another C-RNTI. Symbol 0 begins `[len:16][mcs:8][type:8][rnti:16]`. -/
def foreignUnicast (headBits : Bytes) (ownRnti : Nat) : Bool :=
  ownRnti ≠ 0 && rd headBits 24 8 = 0xA5 && rd headBits 32 16 ≠ ownRnti &&
    rd headBits 32 16 ≠ rntiBroadcast

def stripTag (tagged : Bytes) : Bytes := tagged.take 16 ++ tagged.drop 24

/-- What `phy_rx_frame` makes of the data symbols that are available. -/
def phyRxBits {Row : Type} (m : Modem Row) (rows : List Row) (ownRnti : Nat) : Bytes :=
  match rows.take kFrameDataMaxSymbols with
  | [] => []
  | head :: rest =>
    let headBits := m.demodulate head Mcs.qpsk.bitsPerSymbol
    if headBits.length < 48 then []
    else
      match Mcs.ofField (rd headBits 16 8) with
      | none => []
      | some mcs =>
        if foreignUnicast headBits ownRnti then []
        else stripTag (headBits ++ rest.flatMap fun row => m.demodulate row mcs.bitsPerSymbol)

/-! ### Receiver, sample indices -/

/-- `static_cast<int>` of a `size_t`. -/
def asInt (size : Nat) : Int :=
  if size % 2 ^ 32 < 2 ^ 31 then (size % 2 ^ 32 : Nat) else (size % 2 ^ 32 : Nat) - 2 ^ 32

theorem asInt_le (size : Nat) : asInt size ≤ size := by
  have hmod := Nat.mod_le size (2 ^ 32)
  unfold asInt
  split <;> omega

/-- The timing that `pss_detect` can return for a buffer of a length. -/
def PssTiming (size nFft cpLen timing : Nat) : Prop :=
  (nFft : Int) ≤ asInt size ∧ timing ≤ min (size - nFft) (4 * (nFft + cpLen))

instance (size nFft cpLen timing : Nat) : Decidable (PssTiming size nFft cpLen timing) :=
  inferInstanceAs (Decidable ((nFft : Int) ≤ asInt size ∧ timing ≤ min (size - nFft) (4 * (nFft + cpLen))))

/-- An index range taken out of a buffer of a length. -/
structure Slice where
  buffer : Int
  first : Int
  last : Int
  deriving DecidableEq, Repr

def Slice.InBounds (s : Slice) : Prop := 0 ≤ s.first ∧ s.first ≤ s.last ∧ s.last ≤ s.buffer

instance (s : Slice) : Decidable s.InBounds :=
  inferInstanceAs (Decidable (0 ≤ s.first ∧ s.first ≤ s.last ∧ s.last ≤ s.buffer))

section Window
variable (size nFft cpLen timing : Nat)

def stride : Int := nFft + cpLen

/-- The working window begins at the cyclic prefix in front of the peak. -/
def burstCpStart : Int := timing - cpLen

def availSamples : Int := asInt size - burstCpStart cpLen timing

def workLen : Int :=
  min (availSamples size cpLen timing)
    (stride nFft cpLen * ((kPreambleSymbols : Int) + (kFrameDataMaxSymbols : Int)))

/-- `slice_fd`: the body of a symbol of the window. -/
def symbolSlice (symIndex : Nat) : Slice :=
  let first := symIndex * stride nFft cpLen + cpLen
  ⟨workLen size nFft cpLen timing, first, first + nFft⟩

def availSyms : Nat :=
  let needed := kPreambleSymbols * stride nFft cpLen + cpLen + nFft
  if workLen size nFft cpLen timing ≥ needed then
    min (1 + (workLen size nFft cpLen timing - needed) / stride nFft cpLen).toNat kFrameDataMaxSymbols
  else 0

/-- The slices of a reception in their order. Whether the PCI is confirmed and whether the header
of symbol 0 is accepted depends on the samples. -/
def rxSlices (pciConfirmed headerAccepted : Bool) : List Slice :=
  let begins := burstCpStart cpLen timing
  if availSamples size cpLen timing ≤ 0 then []
  else
    let symbols := availSyms size nFft cpLen timing
    let demodulated := if pciConfirmed then (if headerAccepted then symbols else min symbols 1) else 0
    ⟨size, begins, begins + workLen size nFft cpLen timing⟩ ::
      symbolSlice size nFft cpLen timing 1 :: symbolSlice size nFft cpLen timing 2 ::
      (List.range demodulated).map fun s => symbolSlice size nFft cpLen timing (kPreambleSymbols + s)

end Window

end AetherStack.Source
