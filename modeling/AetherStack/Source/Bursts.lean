import AetherStack.Source.Ofdm

/-!
# Bursts of samples

Source: stack/phy/src/sync.cpp:40-160 and 181-204 (rows, `pss_detect`, `pci_verify`),
stack/phy/src/frame.cpp:29-340 (bursts), tools/channel/sim_channel.py:203-270 (the echo). The two
searches of a reception, for the timing and for the PCI, are here with their thresholds; what they
compare, the normalised correlations, are floats and a parameter, `Correlators`. The estimates of
the frequency offset, which is 0, and of the SNR, which is only reported, are left out.
-/
namespace AetherStack.Source
open Lib

structure FrameTxConfig where
  nFft : Nat := 64
  cpLen : Nat := 16
  pci : Nat := 0
  deriving DecidableEq, Repr

def kNumNid2 : Nat := 3

def kNumNid1 : Nat := 2

def pciNid1 (pci : Nat) : Nat := pci / kNumNid2

def pciNid2 (pci : Nat) : Nat := pci % kNumNid2

def makePci (nid1 nid2 : Nat) : Nat := nid1 * kNumNid2 + nid2

/-- One draw of the generator behind the DMRS. -/
def nextLcg (lcg : UInt32) : UInt32 := lcg * 1664525 + 1013904223

def lcgBit (lcg : UInt32) : Bool := (lcg >>> 16) &&& 1 ≠ 0

section
variable {K : Type} [Field K]

/-- A symbol behind its cyclic prefix. -/
def addSymbol (timeSym : List K) (cpLen : Nat) : List K := timeSym.drop (timeSym.length - cpLen) ++ timeSym

/-- The DC subcarrier stays empty. -/
def zcRow (zc : List K) (nFft : Nat) : List K :=
  (List.range nFft).map fun k => if k = 0 then 0 else zc.getD (k - 1) 0

namespace Numbers
variable (num : Numbers K)

/-- An even length is an exception. -/
def zadoffChu (u n : Nat) : Option (List K) :=
  if n % 2 = 0 then none else some ((List.range n).map fun i => num.polar (-((u * i * (i + 1) : Nat) / n)))

def pssFreq (nid2 nFft : Nat) : Option (List K) :=
  (num.zadoffChu ([25, 29, 34].getD (nid2 % kNumNid2) 0) (nFft - 1)).map fun zc => zcRow zc nFft

def sssFreq (nid1 nFft : Nat) : Option (List K) :=
  (num.zadoffChu ([7, 13].getD (nid1 % kNumNid1) 0) (nFft - 1)).map fun zc => zcRow zc nFft

/-- The loop of `dmrs_freq` over the subcarriers that are left. -/
def dmrsRow : Nat → UInt32 → List K
  | 0, _ => []
  | k + 1, lcg =>
    let i := nextLcg lcg
    let q := nextLcg i
    num.qpsk (lcgBit i) (lcgBit q) :: dmrsRow k q

def dmrsFreq (pci nFft : Nat) : List K := num.dmrsRow nFft (0x9E3779B9 ^^^ (UInt32.ofNat pci * 2654435761))

/-! ### Transmitter -/

/-- Symbols given by their subcarriers, in time and with prefixes. -/
def burst (rows : List (List K)) (cpLen : Nat) : List K :=
  rows.flatMap fun row => addSymbol (num.fftInplace row true) cpLen

def preambleRows (cfg : FrameTxConfig) : Option (List (List K)) :=
  (num.pssFreq (pciNid2 cfg.pci) cfg.nFft).bind fun pss =>
    (num.sssFreq (pciNid1 cfg.pci) cfg.nFft).map fun sss => [pss, sss, num.dmrsFreq cfg.pci cfg.nFft]

/-- Too many bits are an exception, here and in `phy_tx_data`. -/
def phyTxFrame (m : Modem (List K)) (bits : Bytes) (cfg : FrameTxConfig) (mcs : Mcs) : Option (List K) :=
  if bits.length > frameBitsCapacity cfg.nFft mcs then none
  else (num.preambleRows cfg).map fun preamble =>
    num.burst (preamble ++ mapDataSymbols m bits cfg.nFft mcs) cfg.cpLen

def phyTxData (m : Modem (List K)) (bits : Bytes) (cfg : FrameTxConfig) (mcs : Mcs) : Option (List K) :=
  if bits.length > frameBitsCapacity cfg.nFft mcs then none
  else some (num.burst (mapDataSymbols m bits cfg.nFft mcs) cfg.cpLen)

def phyPreambleBurst (cfg : FrameTxConfig) : Option (List K) :=
  (num.preambleRows cfg).map fun preamble => num.burst preamble cfg.cpLen

/-- What a node sends: the preamble, then the data. -/
def airSamples (m : Modem (List K)) (bits : Bytes) (cfg : FrameTxConfig) (mcs : Mcs) : Option (List K) :=
  (num.phyPreambleBurst cfg).bind fun iq => (num.phyTxData m bits cfg mcs).map fun data => iq ++ data

end Numbers

/-! ### Channel -/

/-- One echo, `impair_relative` without noise. -/
def impair (echoDelay : Nat) (echoGain : K) (samples : List K) : List K :=
  if echoDelay < samples.length then
    (List.range samples.length).map fun i =>
      if i < echoDelay then samples.getD i 0 else samples.getD i 0 + echoGain * samples.getD (i - echoDelay) 0
  else samples

/-! ### Synchronisation -/

structure SyncResult where
  timing : Nat
  nid2Hint : Nat

/-- What sync.cpp measures. `matched samples nFft nid2 start` is the `mag` of `pss_detect`, of which
there is none where the window or the template has no energy; `pciVerify` has the rows of SSS and
DMRS, a candidate and the width. -/
structure Correlators (K : Type) where
  matched : List K → Nat → Nat → Nat → Option ℚ
  pciVerify : List K → List K → Nat → Nat → ℚ

/-- A score replaces the best one so far only when it is larger. -/
def keepBest {α : Type} (score : α → Option ℚ) (best : ℚ × Option α) (x : α) : ℚ × Option α :=
  match score x with
  | none => best
  | some v => if best.1 < v then (v, some x) else best

/-- The search of both loops. -/
def firstBest {α : Type} (score : α → Option ℚ) (low : ℚ) (xs : List α) : ℚ × Option α :=
  xs.foldl (keepBest score) (low, none)

/-- The starts that the matched filter is tried at, for one template after the other. -/
def pssStarts (lastStart : Nat) : List (Nat × Nat) :=
  (List.range kNumNid2).flatMap fun nid2 => (List.range (lastStart + 1)).map fun start => (nid2, start)

namespace Correlators
variable {K : Type} (c : Correlators K)

def pssDetect (samples : List K) (nFft scanLimit : Nat) : Option SyncResult :=
  if asInt samples.length < nFft then none
  else
    let best := firstBest (fun s => c.matched samples nFft s.1 s.2) (-1)
      (pssStarts (min (samples.length - nFft) scanLimit))
    best.2.bind fun s => if 1 / 2 < best.1 then some ⟨s.2, s.1⟩ else none

/-- The candidate with the best correlation, if that is good enough. -/
def confirmPci (sssFd dmrsFd : List K) (nid2Hint nFft : Nat) : Option Nat :=
  let best := firstBest (fun cand => some (c.pciVerify sssFd dmrsFd cand nFft)) (-1)
    ((List.range kNumNid1).map fun nid1 => makePci nid1 nid2Hint)
  best.2.bind fun pci => if best.1 < 1 / 2 then none else some pci

end Correlators

/-! ### Receiver -/

/-- The samples of a range inside the buffer. -/
def takeSlice (samples : List K) (s : Slice) : List K :=
  (samples.drop s.first.toNat).take (s.last - s.first).toNat

variable [DecidableEq K]

/-- The least-squares estimate from the DMRS. -/
def channelEstimate (rxDmrs refDmrs : List K) (nFft : Nat) : List K :=
  (List.range nFft).map fun k => if refDmrs.getD k 0 = 0 then 0 else rxDmrs.getD k 0 / refDmrs.getD k 0

namespace Numbers
variable (num : Numbers K)

def equalise (h fd : List K) (nFft : Nat) : List K :=
  (List.range nFft).map fun k => if num.strong (h.getD k 0) then fd.getD k 0 / h.getD k 0 else 0

/-- The transform of a symbol of the window. -/
def sliceFd (samples : List K) (cfg : FrameTxConfig) (timing symIndex : Nat) : List K :=
  let work := takeSlice samples
    ⟨samples.length, burstCpStart cfg.cpLen timing,
      burstCpStart cfg.cpLen timing + workLen samples.length cfg.nFft cfg.cpLen timing⟩
  num.fftInplace (takeSlice work (symbolSlice samples.length cfg.nFft cfg.cpLen timing symIndex)) false

/-- The equalised data symbols. -/
def phyRxRows (samples : List K) (cfg : FrameTxConfig) (timing : Nat) : List (List K) :=
  let h := channelEstimate (num.sliceFd samples cfg timing 2) (num.dmrsFreq cfg.pci cfg.nFft) cfg.nFft
  (List.range (availSyms samples.length cfg.nFft cfg.cpLen timing)).map fun s =>
    num.equalise h (num.sliceFd samples cfg timing (kPreambleSymbols + s)) cfg.nFft

/-- A negative `cfg.pci` is `anyCell`. -/
def phyRxFrame (c : Correlators K) (m : Modem (List K)) (samples : List K) (cfg : FrameTxConfig) (anyCell : Bool)
    (ownRnti : Nat) : Bytes :=
  match c.pssDetect samples cfg.nFft (4 * (cfg.nFft + cfg.cpLen)) with
  | none => []
  | some sync =>
    if availSamples samples.length cfg.cpLen sync.timing ≤ 0 then []
    else
      match c.confirmPci (num.sliceFd samples cfg sync.timing 1) (num.sliceFd samples cfg sync.timing 2) sync.nid2Hint
        cfg.nFft with
      | none => []
      | some pci =>
        if !anyCell && pci ≠ cfg.pci then []
        else phyRxBits m (num.phyRxRows samples { cfg with pci := pci } sync.timing) ownRnti

end Numbers

end

/-! ### Shapes -/

section
variable {K : Type} (num : Numbers K)

namespace Numbers

theorem length_dmrsRow (k : Nat) (lcg : UInt32) : (num.dmrsRow k lcg).length = k := by
  induction k generalizing lcg with
  | zero => rfl
  | succ k ih => exact congrArg (· + 1) (ih _)

theorem length_dmrsFreq (pci nFft : Nat) : (num.dmrsFreq pci nFft).length = nFft := num.length_dmrsRow _ _

/-- A property of the QPSK points is one of the DMRS. -/
theorem forall_mem_dmrsFreq {P : K → Prop} (h : ∀ i q, P (num.qpsk i q)) (pci nFft : Nat) :
    ∀ x ∈ num.dmrsFreq pci nFft, P x := by
  have hrow : ∀ k lcg, ∀ x ∈ num.dmrsRow k lcg, P x := by
    intro k
    induction k with
    | zero => exact fun _ _ hx => absurd hx List.not_mem_nil
    | succ k ih =>
      intro lcg x hx
      rcases List.mem_cons.mp hx with rfl | hx
      · exact h _ _
      · exact ih _ x hx
  exact hrow nFft _

end Numbers

variable [Field K]

theorem length_zcRow (zc : List K) (nFft : Nat) : (zcRow zc nFft).length = nFft := by
  rw [zcRow, List.length_map, List.length_range]

theorem length_impair (echoDelay : Nat) (echoGain : K) (samples : List K) :
    (impair echoDelay echoGain samples).length = samples.length := by
  rw [impair]
  split
  · rw [List.length_map, List.length_range]
  · rfl

/-- Where the echo has begun. -/
theorem getD_impair {echoDelay i : Nat} (echoGain : K) {samples : List K} (hi : i < samples.length)
    (hdelay : echoDelay ≤ i) : (impair echoDelay echoGain samples).getD i 0 =
      samples.getD i 0 + echoGain * samples.getD (i - echoDelay) 0 := by
  rw [impair, if_pos (by omega), List.getD_eq_getElem _ _ (by simpa using hi), List.getElem_map, List.getElem_range,
    if_neg (by omega)]

namespace Numbers

theorem length_fftInplace (v : List K) (inverse : Bool) : (num.fftInplace v inverse).length = v.length := by
  rw [fftInplace]
  split
  · rfl
  · exact length_chunkFft num v inverse

/-- The burst of two row lists is the bursts one after the other. -/
theorem burst_append (rows rows' : List (List K)) (cpLen : Nat) :
    num.burst (rows ++ rows') cpLen = num.burst rows cpLen ++ num.burst rows' cpLen := List.flatMap_append

/-- Preamble and data make the frame. -/
theorem airSamples_eq (m : Modem (List K)) (bits : Bytes) (cfg : FrameTxConfig) (mcs : Mcs) :
    num.airSamples m bits cfg mcs = num.phyTxFrame m bits cfg mcs := by
  rw [airSamples, phyPreambleBurst, phyTxFrame, phyTxData]
  cases num.preambleRows cfg with
  | none => split <;> rfl
  | some preamble =>
    split
    · rfl
    · exact congrArg some (num.burst_append _ _ _).symm

/-- Every preamble is three rows of the width of the transform. -/
theorem preambleRows_eq {cfg : FrameTxConfig} {rows : List (List K)} (h : num.preambleRows cfg = some rows) :
    ∃ pss sss, rows = [pss, sss, num.dmrsFreq cfg.pci cfg.nFft] ∧ pss.length = cfg.nFft ∧ sss.length = cfg.nFft := by
  obtain ⟨pss, hpss, hrest⟩ := Option.bind_eq_some_iff.mp h
  obtain ⟨sss, hsss, rfl⟩ := Option.map_eq_some_iff.mp hrest
  obtain ⟨zc, -, rfl⟩ := Option.map_eq_some_iff.mp hpss
  obtain ⟨zc', -, rfl⟩ := Option.map_eq_some_iff.mp hsss
  exact ⟨_, _, rfl, length_zcRow zc _, length_zcRow zc' _⟩

end Numbers

end

end AetherStack.Source
