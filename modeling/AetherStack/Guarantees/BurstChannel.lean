import AetherStack.Guarantees.AirInterface
import AetherStack.Guarantees.Subcarriers
import AetherStack.Source.Bursts

/-!
# Bursts through an echo

The cyclic prefix makes an echo a factor on every subcarrier, the DMRS measures the factor, and
the equaliser takes it out: behind the echo of the channel simulator, and with a timing that may be
early, a burst carries its frame, whatever the frame and the modulation. The receiver is given that
its correlations single out the timing and the PCI; that they do is a matter of the samples, and of
floats, and not proved here.
-/
namespace AetherStack.Guarantees
open Lib Source Qam Mac Subcarriers

namespace BurstChannel

theorem length_addSymbol {K : Type} {t : List K} {n cpLen : Nat} (ht : t.length = n) (hcp : cpLen ≤ n) :
    (addSymbol t cpLen).length = n + cpLen := by
  rw [addSymbol, List.length_append, List.length_drop, ht]
  omega

section
variable {K : Type} [Field K] {num : Numbers K}

/-- The prefix makes the symbol periodic. -/
theorem getD_addSymbol {t : List K} {n cpLen c : Nat} (ht : t.length = n) (hcp : cpLen ≤ n)
    (hc : c < n + cpLen) : (addSymbol t cpLen).getD c 0 = t.getD ((c + (n - cpLen)) % n) 0 := by
  have hlen : (t.drop (t.length - cpLen)).length = cpLen := by
    rw [List.length_drop]
    omega
  rw [addSymbol]
  rcases Nat.lt_or_ge c cpLen with hprefix | hbody
  · rw [List.getD_append _ _ _ _ (by omega), List.getD_eq_getElem?_getD, List.getElem?_drop,
      ← List.getD_eq_getElem?_getD, Nat.mod_eq_of_lt (by omega), ht, Nat.add_comm]
  · rw [List.getD_append_right _ _ _ _ (by omega), hlen,
      show c + (n - cpLen) = c - cpLen + n by omega, Nat.add_mod_right, Nat.mod_eq_of_lt (by omega)]

variable {k cpLen : Nat} {rows : List (List K)}

theorem length_burst (hcp : cpLen ≤ 2 ^ k) (hrows : ∀ row ∈ rows, row.length = 2 ^ k) :
    (num.burst rows cpLen).length = rows.length * (2 ^ k + cpLen) :=
  length_flatMap_pieces fun row hrow =>
    length_addSymbol ((num.length_fftInplace row true).trans (hrows row hrow)) hcp

/-- A sample of a burst, from the start of its symbol's prefix. -/
theorem getD_burst (hcp : cpLen ≤ 2 ^ k) (hrows : ∀ row ∈ rows, row.length = 2 ^ k) {s c : Nat}
    (hs : s < rows.length) (hc : c < 2 ^ k + cpLen) :
    (num.burst rows cpLen).getD (s * (2 ^ k + cpLen) + c) 0 =
      (num.fftInplace rows[s] true).getD ((c + (2 ^ k - cpLen)) % 2 ^ k) 0 := by
  have hlen : ∀ row ∈ rows, (num.fftInplace row true).length = 2 ^ k :=
    fun row hrow => (num.length_fftInplace row true).trans (hrows row hrow)
  rw [Numbers.burst, getD_flatMap_pieces (fun row hrow => length_addSymbol (hlen row hrow) hcp) hs hc,
    getD_addSymbol (hlen _ (List.getElem_mem hs)) hcp hc]

end

/-! ### Synchronisation -/

section
variable {α : Type} {score : α → Option ℚ} {low v : ℚ} {x : α} {xs : List α}

/-- A score above all others wins the search, wherever it stands. -/
theorem firstBest_eq (hx : x ∈ xs) (hscore : score x = some v) (hlow : low < v)
    (hothers : ∀ y ∈ xs, y ≠ x → ∀ u, score y = some u → u < v) : firstBest score low xs = (v, some x) := by
  -- once found it stays
  have hkept : ∀ ys : List α, (∀ y ∈ ys, y ≠ x → ∀ u, score y = some u → u < v) →
      ys.foldl (keepBest score) (v, some x) = (v, some x) := by
    intro ys
    induction ys with
    | nil => exact fun _ => rfl
    | cons y ys ih =>
      intro hys
      rw [List.foldl_cons, keepBest]
      have hsame : ∀ u, score y = some u → ¬v < u := by
        intro u hu
        by_cases hyx : y = x
        · rw [hyx, hscore, Option.some.injEq] at hu
          exact hu ▸ lt_irrefl v
        · exact (hys y List.mem_cons_self hyx u hu).le.not_gt
      have hrest := ih fun z hz => hys z (List.mem_cons_of_mem y hz)
      cases hy : score y with
      | none => exact hrest
      | some u =>
        dsimp only
        rw [if_neg (hsame u hy)]
        exact hrest
  have hfound : ∀ (ys : List α) (best : ℚ × Option α), x ∈ ys → best.1 < v →
      (∀ y ∈ ys, y ≠ x → ∀ u, score y = some u → u < v) →
      ys.foldl (keepBest score) best = (v, some x) := by
    intro ys
    induction ys with
    | nil => exact fun _ hmem => absurd hmem List.not_mem_nil
    | cons y ys ih =>
      intro best hmem hbest hys
      have hrest : ∀ z ∈ ys, z ≠ x → ∀ u, score z = some u → u < v := fun z hz => hys z (List.mem_cons_of_mem y hz)
      rw [List.foldl_cons, keepBest]
      by_cases hyx : y = x
      · rw [hyx, hscore]
        dsimp only
        rw [if_pos hbest]
        exact hkept ys hrest
      · have hmem := (List.mem_cons.mp hmem).resolve_left (Ne.symm hyx)
        cases hy : score y with
        | none => exact ih best hmem hbest hrest
        | some u =>
          dsimp only
          refine ih _ hmem ?_ hrest
          split
          · exact hys y List.mem_cons_self hyx u hy
          · exact hbest
  exact hfound xs (low, none) hx hlow hothers

/-- The search tries every root at every start of the window. -/
theorem mem_pssStarts {lastStart nid2 start : Nat} :
    (nid2, start) ∈ pssStarts lastStart ↔ nid2 < kNumNid2 ∧ start ≤ lastStart := by
  simp [pssStarts]

/-- The two halves of a PCI give it back. -/
theorem makePci_pciNid (pci : Nat) : makePci (pciNid1 pci) (pciNid2 pci) = pci := Nat.div_add_mod' pci kNumNid2

variable {K : Type} [Field K]

/-- The matched filter singles out the start of the burst, and the rows of the preamble the PCI. -/
structure Synchronised (num : Numbers K) (c : Correlators K) (samples : List K) (cfg : FrameTxConfig) (timing : Nat) :
    Prop where
  peak : ∃ mag, c.matched samples cfg.nFft (pciNid2 cfg.pci) timing = some mag ∧ 1 / 2 < mag ∧
    ∀ nid2 < kNumNid2, ∀ start ≤ 4 * (cfg.nFft + cfg.cpLen), (nid2, start) ≠ (pciNid2 cfg.pci, timing) →
      ∀ other, c.matched samples cfg.nFft nid2 start = some other → other < mag
  pci : ∀ nid1 < kNumNid1, makePci nid1 (pciNid2 cfg.pci) ≠ cfg.pci →
    c.pciVerify (num.sliceFd samples cfg timing 1) (num.sliceFd samples cfg timing 2)
        (makePci nid1 (pciNid2 cfg.pci)) cfg.nFft <
      c.pciVerify (num.sliceFd samples cfg timing 1) (num.sliceFd samples cfg timing 2) cfg.pci cfg.nFft
  confirmed : 1 / 2 ≤ c.pciVerify (num.sliceFd samples cfg timing 1) (num.sliceFd samples cfg timing 2) cfg.pci cfg.nFft

variable {num : Numbers K} {c : Correlators K} {samples : List K} {cfg : FrameTxConfig} {timing : Nat}

/-- The matched filter finds the start of the burst and the first half of the PCI. -/
theorem Synchronised.pssDetect_eq (h : Synchronised num c samples cfg timing) (hsmall : samples.length < 2 ^ 31)
    (hinside : timing + cfg.nFft ≤ samples.length) (hwindow : timing ≤ 4 * (cfg.nFft + cfg.cpLen)) :
    c.pssDetect samples cfg.nFft (4 * (cfg.nFft + cfg.cpLen)) = some ⟨timing, pciNid2 cfg.pci⟩ := by
  obtain ⟨mag, hmag, hhalf, hothers⟩ := h.peak
  have hlong : ¬asInt samples.length < cfg.nFft := by
    rw [asInt, Nat.mod_eq_of_lt (by omega), if_pos hsmall]
    omega
  have hnid2 : pciNid2 cfg.pci < kNumNid2 := Nat.mod_lt _ (by decide)
  have hbest : firstBest (fun s => c.matched samples cfg.nFft s.1 s.2) (-1)
      (pssStarts (min (samples.length - cfg.nFft) (4 * (cfg.nFft + cfg.cpLen)))) =
        (mag, some (pciNid2 cfg.pci, timing)) := by
    refine firstBest_eq (mem_pssStarts.mpr ⟨hnid2, by omega⟩) hmag (by linarith) fun s hs hne other hother => ?_
    obtain ⟨hs1, hs2⟩ := mem_pssStarts.mp hs
    exact hothers s.1 hs1 s.2 (by omega) hne other hother
  rw [Correlators.pssDetect, if_neg hlong]
  dsimp only
  rw [hbest, Option.bind_some, if_pos hhalf]

/-- The rows of the preamble confirm the PCI. -/
theorem Synchronised.confirmPci_eq (h : Synchronised num c samples cfg timing) (hpci : cfg.pci < kNumNid1 * kNumNid2) :
    c.confirmPci (num.sliceFd samples cfg timing 1) (num.sliceFd samples cfg timing 2) (pciNid2 cfg.pci) cfg.nFft =
      some cfg.pci := by
  have hnid1 : pciNid1 cfg.pci < kNumNid1 := Nat.div_lt_of_lt_mul (by rwa [Nat.mul_comm])
  have hmem : cfg.pci ∈ (List.range kNumNid1).map fun nid1 => makePci nid1 (pciNid2 cfg.pci) :=
    List.mem_map.mpr ⟨_, List.mem_range.mpr hnid1, makePci_pciNid cfg.pci⟩
  have hconfirmed := h.confirmed
  have hbest : firstBest (fun cand => some (c.pciVerify (num.sliceFd samples cfg timing 1)
      (num.sliceFd samples cfg timing 2) cand cfg.nFft)) (-1)
      ((List.range kNumNid1).map fun nid1 => makePci nid1 (pciNid2 cfg.pci)) =
        (c.pciVerify (num.sliceFd samples cfg timing 1) (num.sliceFd samples cfg timing 2) cfg.pci cfg.nFft,
          some cfg.pci) := by
    refine firstBest_eq hmem rfl (by linarith) fun cand hcand hne u hu => ?_
    obtain ⟨nid1, hnid1, rfl⟩ := List.mem_map.mp hcand
    rw [← Option.some.inj hu]
    exact h.pci nid1 (List.mem_range.mp hnid1) hne
  rw [Correlators.confirmPci, hbest, Option.bind_some, if_neg (not_lt.mpr hconfirmed)]

end

/-! ### The window of a symbol -/

section
variable {size nFft cpLen lead early count : Nat}

theorem asInt_eq (hsmall : size < 2 ^ 31) : asInt size = size := by
  have hmod : size % 2 ^ 32 = size := Nat.mod_eq_of_lt (by omega)
  rw [asInt, hmod, if_pos hsmall]

/-- What is cut out of the buffer reaches to the end of the burst. -/
theorem workLen_eq (hsize : size = lead + count * (nFft + cpLen)) (hsmall : size < 2 ^ 31) (hlead : early ≤ lead) :
    workLen size nFft cpLen (lead + cpLen - early) =
      (min (count * (nFft + cpLen) + early) ((nFft + cpLen) * 43) : Nat) := by
  have hstride : stride nFft cpLen = (nFft + cpLen : Nat) := (Nat.cast_add _ _).symm
  have havail : availSamples size cpLen (lead + cpLen - early) = (count * (nFft + cpLen) + early : Nat) := by
    rw [availSamples, burstCpStart, asInt_eq hsmall]
    omega
  rw [workLen, havail, hstride, kPreambleSymbols, kFrameDataMaxSymbols]
  push_cast
  ring_nf

/-- The symbols behind the preamble are all there, and no more. -/
theorem availSyms_eq (hsize : size = lead + count * (nFft + cpLen)) (hsmall : size < 2 ^ 31) (hlead : early ≤ lead)
    (hcp : early ≤ cpLen) (hfft : 0 < nFft) (hcount : 3 < count) (hmax : count ≤ 43) :
    availSyms size nFft cpLen (lead + cpLen - early) = count - 3 := by
  have hstride : stride nFft cpLen = (nFft + cpLen : Nat) := (Nat.cast_add _ _).symm
  have hneeded : (kPreambleSymbols : Int) * stride nFft cpLen + cpLen + nFft = (4 * (nFft + cpLen) : Nat) := by
    rw [hstride, kPreambleSymbols]
    push_cast
    ring
  have hleast : 4 * (nFft + cpLen) ≤ count * (nFft + cpLen) := Nat.mul_le_mul_right _ hcount
  have hmost : count * (nFft + cpLen) ≤ 43 * (nFft + cpLen) := Nat.mul_le_mul_right _ hmax
  have hsymbols : (min (count * (nFft + cpLen) + early) ((nFft + cpLen) * 43) - 4 * (nFft + cpLen)) / (nFft + cpLen) =
      count - 4 := by
    refine Nat.div_eq_of_lt_le ?_ ?_
    · rw [Nat.sub_mul]
      omega
    · rw [Nat.succ_mul (count - 4), Nat.sub_mul]
      omega
  rw [availSyms, hneeded, workLen_eq hsize hsmall hlead, hstride, if_pos (by omega), ← Nat.cast_sub (by omega), ← Int.natCast_div,
    hsymbols, kFrameDataMaxSymbols]
  omega

end

/-! ### A symbol at the receiver -/

section
variable {K : Type} [Field K] {num : Numbers K} {k cpLen early echoDelay : Nat} {echoGain : K} {lead : List K}
  {rows : List (List K)}

/-- What the receiver gets: something, then the burst, all with the echo. -/
def received (num : Numbers K) (cpLen echoDelay : Nat) (echoGain : K) (lead : List K) (rows : List (List K)) : List K :=
  impair echoDelay echoGain (lead ++ num.burst rows cpLen)

/-- The factor of the path and of an early timing on a subcarrier. -/
def pathGain (num : Numbers K) (k early echoDelay : Nat) (echoGain : K) (q : Nat) : K :=
  num.wlen false (2 ^ k) ^ (early * q) + echoGain * num.wlen false (2 ^ k) ^ ((early + echoDelay) * q)

theorem length_received (hcp : cpLen ≤ 2 ^ k) (hrows : ∀ row ∈ rows, row.length = 2 ^ k) :
    (received num cpLen echoDelay echoGain lead rows).length = lead.length + rows.length * (2 ^ k + cpLen) := by
  rw [received, length_impair, List.length_append, length_burst hcp hrows]

/-- Inside the body of a symbol, and `early` samples before, direct path and echo are both of that
symbol. -/
theorem getD_received (hcp : cpLen ≤ 2 ^ k) (hrows : ∀ row ∈ rows, row.length = 2 ^ k)
    (hpath : early + echoDelay ≤ cpLen) {s m : Nat} (hs : s < rows.length) (hm : m < 2 ^ k) :
    (received num cpLen echoDelay echoGain lead rows).getD
        (lead.length + (s * (2 ^ k + cpLen) + (cpLen - early + m))) 0 =
      (num.fftInplace rows[s] true).getD ((m + (2 ^ k - early)) % 2 ^ k) 0 +
        echoGain * (num.fftInplace rows[s] true).getD ((m + (2 ^ k - (early + echoDelay))) % 2 ^ k) 0 := by
  have hnext : (s + 1) * (2 ^ k + cpLen) ≤ rows.length * (2 ^ k + cpLen) := Nat.mul_le_mul_right _ hs
  rw [Nat.succ_mul] at hnext
  have hsample : ∀ delay, early + delay ≤ cpLen →
      (lead ++ num.burst rows cpLen).getD (lead.length + (s * (2 ^ k + cpLen) + (cpLen - early + m)) - delay) 0 =
        (num.fftInplace rows[s] true).getD ((m + (2 ^ k - (early + delay))) % 2 ^ k) 0 := by
    intro delay hdelay
    have hplace : lead.length + (s * (2 ^ k + cpLen) + (cpLen - early + m)) - delay - lead.length =
        s * (2 ^ k + cpLen) + (cpLen - early - delay + m) := by omega
    rw [List.getD_append_right _ _ _ _ (by omega), hplace, getD_burst hcp hrows hs (by omega)]
    congr 2
    omega
  rw [received, getD_impair echoGain _ (by omega), hsample echoDelay hpath]
  · congr 1
    exact hsample 0 (by omega)
  · rw [List.length_append, length_burst hcp hrows]
    omega

/-- The transform of a received symbol is the sent row with the factor of every subcarrier. -/
theorem fftInplace_received (h : num.Lawful) (hcp : cpLen ≤ 2 ^ k) (hrows : ∀ row ∈ rows, row.length = 2 ^ k)
    (hpath : early + echoDelay ≤ cpLen) {s : Nat} (hs : s < rows.length) {body : List K} (hbody : body.length = 2 ^ k)
    (heq : ∀ m < 2 ^ k, body.getD m 0 = (received num cpLen echoDelay echoGain lead rows).getD
      (lead.length + (s * (2 ^ k + cpLen) + (cpLen - early + m))) 0) {q : Nat} (hq : q < 2 ^ k) :
    (num.fftInplace body false).getD q 0 = pathGain num k early echoDelay echoGain q * rows[s].getD q 0 := by
  have hrow : rows[s].length = 2 ^ k := hrows _ (List.getElem_mem hs)
  have hwhole : num.wlen false (2 ^ k) ^ 2 ^ k = 1 := (h.tower false).whole k
  have htransform : ∀ (u : List K), u.length = 2 ^ k → (num.fftInplace u false).getD q 0 =
      dft (num.wlen false (2 ^ k)) (2 ^ k) (fun m => u.getD m 0) q := by
    intro u hu
    rw [Numbers.fftInplace_eq num h hu, Numbers.getD_chunkFft num u false (hu ▸ hq), hu,
      Numbers.fftCooleyTukey_eq h _ k false hq, if_neg (by decide)]
  have hsent : dft (num.wlen false (2 ^ k)) (2 ^ k) (fun m => (num.fftInplace rows[s] true).getD m 0) q =
      rows[s].getD q 0 := by
    rw [← htransform _ ((num.length_fftInplace _ _).trans hrow), Numbers.fftInplace_eq num h hrow,
      Numbers.fftInplace_eq num h ((Numbers.length_chunkFft num _ _).trans hrow)]
    exact congrArg (fun u => u.getD q 0) (Numbers.chunkFft_chunkFft h hrow true)
  rw [htransform body hbody, dft_congr (fun m hm => (heq m hm).trans (getD_received hcp hrows hpath hs hm)) q, dft_add,
    dft_mul, dft_delay (x := fun i => (num.fftInplace rows[s] true).getD i 0) hwhole (by omega),
    dft_delay (x := fun i => (num.fftInplace rows[s] true).getD i 0) hwhole (by omega), hsent, pathGain]
  ring

end

/-! ### Reception -/

section
variable {K : Type} {samples : List K} {nFft cpLen lead early count : Nat}

/-- A slice inside the buffer is a piece of the samples. -/
theorem takeSlice_nat (samples : List K) (buffer : Int) (first size : Nat) :
    takeSlice samples ⟨buffer, first, first + size⟩ = (samples.drop first).take size := by
  rw [takeSlice, Int.toNat_natCast, add_sub_cancel_left, Int.toNat_natCast]

theorem length_preambled {num : Numbers K} {n pci : Nat} {pss sss : List K} {data : List (List K)} (hpss : pss.length = n)
    (hsss : sss.length = n) (hdata : ∀ row ∈ data, row.length = n) :
    ∀ row ∈ [pss, sss, num.dmrsFreq pci n] ++ data, row.length = n := by
  intro row hrow
  rcases List.mem_append.mp hrow with hrow | hrow
  · simp only [List.mem_cons, List.not_mem_nil, or_false] at hrow
    rcases hrow with rfl | rfl | rfl
    · exact hpss
    · exact hsss
    · exact num.length_dmrsFreq _ _
  · exact hdata row hrow

variable [Field K]

/-- The slices of the receiver are the bodies of the symbols, `early` samples before. -/
theorem takeSlice_symbol (hsize : samples.length = lead + count * (nFft + cpLen)) (hsmall : samples.length < 2 ^ 31)
    (hlead : early ≤ lead) (hcp : early ≤ cpLen) (hmax : count ≤ 43) {s : Nat} (hs : s < count) {body : List K}
    (hbody : body = takeSlice (takeSlice samples ⟨samples.length, burstCpStart cpLen (lead + cpLen - early),
        burstCpStart cpLen (lead + cpLen - early) + workLen samples.length nFft cpLen (lead + cpLen - early)⟩)
      (symbolSlice samples.length nFft cpLen (lead + cpLen - early) s)) :
    body.length = nFft ∧ ∀ m < nFft,
      body.getD m 0 = samples.getD (lead + (s * (nFft + cpLen) + (cpLen - early + m))) 0 := by
  have hnext : (s + 1) * (nFft + cpLen) ≤ count * (nFft + cpLen) := Nat.mul_le_mul_right _ hs
  have hmost : count * (nFft + cpLen) ≤ 43 * (nFft + cpLen) := Nat.mul_le_mul_right _ hmax
  rw [Nat.succ_mul] at hnext
  have hstart : burstCpStart cpLen (lead + cpLen - early) = (lead - early : Nat) := by
    rw [burstCpStart]
    omega
  have hfirst : (s : Int) * stride nFft cpLen + cpLen = (s * (nFft + cpLen) + cpLen : Nat) := by
    rw [stride]
    push_cast
    ring
  rw [symbolSlice, hfirst, hstart, workLen_eq hsize hsmall hlead, takeSlice_nat, takeSlice_nat, List.drop_take,
    List.take_take, List.drop_drop] at hbody
  subst hbody
  constructor
  · rw [List.length_take, List.length_drop]
    omega
  · intro m hm
    rw [List.getD_eq_getElem?_getD, List.getElem?_take_of_lt (by omega), List.getElem?_drop,
      ← List.getD_eq_getElem?_getD]
    congr 1
    omega

end

section
variable {K : Type} [Field K] [DecidableEq K] {num : Numbers K} {k cpLen pci early echoDelay : Nat} {echoGain : K}
  {lead : List K} {preamble data : List (List K)}

/-- The equaliser gives back the rows that were sent. -/
theorem phyRxRows_received (h : num.Lawful) {pss sss : List K} (hpss : pss.length = 2 ^ k) (hsss : sss.length = 2 ^ k)
    (hdata : ∀ row ∈ data, row.length = 2 ^ k) (hcp : cpLen ≤ 2 ^ k) (hpath : early + echoDelay ≤ cpLen)
    (hlead : early ≤ lead.length) (hsome : data ≠ []) (hmax : data.length ≤ 40)
    (hsmall : lead.length + (3 + data.length) * (2 ^ k + cpLen) < 2 ^ 31)
    (hstrong : ∀ q < 2 ^ k, num.strong (pathGain num k early echoDelay echoGain q) = true) :
    num.phyRxRows (received num cpLen echoDelay echoGain lead ([pss, sss, num.dmrsFreq pci (2 ^ k)] ++ data))
      ⟨2 ^ k, cpLen, pci⟩ (lead.length + cpLen - early) = data := by
  have hrows : ∀ row ∈ [pss, sss, num.dmrsFreq pci (2 ^ k)] ++ data, row.length = 2 ^ k :=
    length_preambled hpss hsss hdata
  have hcount : ([pss, sss, num.dmrsFreq pci (2 ^ k)] ++ data).length = 3 + data.length := by
    rw [List.length_append]
    rfl
  have hpos : 0 < data.length := List.length_pos_iff.mpr hsome
  generalize hsamples : received num cpLen echoDelay echoGain lead ([pss, sss, num.dmrsFreq pci (2 ^ k)] ++ data) =
    samples
  have hsize : samples.length = lead.length + (3 + data.length) * (2 ^ k + cpLen) := by
    rw [← hsamples, length_received hcp hrows, hcount]
  -- Every symbol of the burst, after its transform.
  have hsymbol : ∀ s, (hs : s < 3 + data.length) → ∀ q < 2 ^ k,
      (num.sliceFd samples ⟨2 ^ k, cpLen, pci⟩ (lead.length + cpLen - early) s).getD q 0 =
      pathGain num k early echoDelay echoGain q *
        (([pss, sss, num.dmrsFreq pci (2 ^ k)] ++ data).getD s []).getD q 0 := by
    intro s hs q hq
    obtain ⟨hlen, hbody⟩ := takeSlice_symbol hsize (by omega) hlead (by omega) (by omega) hs rfl
    have hs' : s < ([pss, sss, num.dmrsFreq pci (2 ^ k)] ++ data).length := by rwa [hcount]
    refine (fftInplace_received h hcp hrows hpath hs' hlen (fun m hm => by rw [hbody m hm, hsamples]) hq).trans ?_
    rw [List.getD_eq_getElem _ [] hs']
  -- The DMRS shows the factor of every subcarrier.
  have hestimate : ∀ q < 2 ^ k, ∀ rx : List K,
      rx.getD q 0 = pathGain num k early echoDelay echoGain q * (num.dmrsFreq pci (2 ^ k)).getD q 0 →
      (channelEstimate rx (num.dmrsFreq pci (2 ^ k)) (2 ^ k)).getD q 0 = pathGain num k early echoDelay echoGain q := by
    intro q hq rx hrx
    have hplace : q < (num.dmrsFreq pci (2 ^ k)).length := by rwa [num.length_dmrsFreq]
    have hne : (num.dmrsFreq pci (2 ^ k)).getD q 0 ≠ 0 := by
      rw [List.getD_eq_getElem _ _ hplace]
      exact num.forall_mem_dmrsFreq (P := fun x => x ≠ 0) h.qpsk_ne_zero _ _ _ (List.getElem_mem hplace)
    rw [channelEstimate, List.getD_eq_getElem _ _ (by simpa using hq), List.getElem_map, List.getElem_range, if_neg hne,
      hrx, mul_div_cancel_right₀ _ hne]
  rw [Numbers.phyRxRows, availSyms_eq hsize (by omega) hlead (by omega) (Nat.two_pow_pos k) (by omega) (by omega),
    Nat.add_sub_cancel_left]
  refine List.ext_getElem (by simp) fun i hi hdata_i => ?_
  rw [List.getElem_map, List.getElem_range]
  have hrow := hdata _ (List.getElem_mem hdata_i)
  refine List.ext_getElem (by simp [Numbers.equalise, hrow]) fun q hq hq' => ?_
  have hq : q < 2 ^ k := hrow ▸ hq'
  have hgain := hestimate q hq _ (hsymbol 2 (by omega) q hq)
  have hnonzero : pathGain num k early echoDelay echoGain q ≠ 0 := by
    intro hzero
    have hweak := hstrong q hq
    rw [hzero, h.strong_zero] at hweak
    cases hweak
  have hsent : ([pss, sss, num.dmrsFreq pci (2 ^ k)] ++ data).getD (3 + i) [] = data[i] := by
    rw [List.getD_append_right _ _ _ _ (by simp), List.getD_eq_getElem _ _ (by simpa using hdata_i)]
    congr 1
    simp
  simp only [Numbers.equalise, List.getElem_map, List.getElem_range]
  rw [hgain, if_pos (hstrong q hq), kPreambleSymbols,
    hsymbol (3 + i) (by omega) q hq, hsent, mul_div_cancel_left₀ _ hnonzero, List.getD_eq_getElem _ _ hq']

end

/-- A transform of an even size has a preamble. -/
theorem exists_preambleRows {K : Type} [Field K] (num : Numbers K) {nFft : Nat} (heven : nFft % 2 = 0) (hpos : 0 < nFft)
    (cpLen pci : Nat) : ∃ rows, num.preambleRows ⟨nFft, cpLen, pci⟩ = some rows := by
  have hodd : ¬(nFft - 1) % 2 = 0 := by omega
  have hzc : ∀ u, ∃ zc, num.zadoffChu u (nFft - 1) = some zc := fun u => ⟨_, if_neg hodd⟩
  obtain ⟨zc, hpss⟩ := hzc ([25, 29, 34].getD (pciNid2 pci % kNumNid2) 0)
  obtain ⟨zc', hsss⟩ := hzc ([7, 13].getD (pciNid1 pci % kNumNid1) 0)
  refine ⟨[zcRow zc nFft, zcRow zc' nFft, num.dmrsFreq pci nFft], ?_⟩
  rw [Numbers.preambleRows, Numbers.pssFreq, Numbers.sssFreq, hpss, hsss]
  rfl

/-! ### Exact mapper and demapper -/

noncomputable def exactModem : Modem (List ℂ) where
  modulate bits bps := (qamModulate bits bps).map fun s => ⟨s.i * pamNorm bps, s.q * pamNorm bps⟩
  demodulate row bps :=
    qamDemodulate (row.map fun z => ⟨lround (z.re / pamNorm bps), lround (z.im / pamNorm bps)⟩) bps

/-- Without noise the demapper undoes the mapper. -/
theorem exactModem_ideal : exactModem.Ideal := by
  intro bits mcs hwhole hbits
  have htwo : 2 ≤ mcs.bitsPerSymbol := by cases mcs <;> decide
  have heven : mcs.bitsPerSymbol = 2 * (mcs.bitsPerSymbol / 2) := by cases mcs <;> decide
  have hnorm := (pamNorm_pos htwo).ne'
  have hback : ∀ s : Symbol, (⟨lround (s.i * pamNorm mcs.bitsPerSymbol / pamNorm mcs.bitsPerSymbol),
      lround (s.q * pamNorm mcs.bitsPerSymbol / pamNorm mcs.bitsPerSymbol)⟩ : Symbol) = s := by
    intro s
    rw [mul_div_cancel_right₀ _ hnorm, mul_div_cancel_right₀ _ hnorm, lround_intCast, lround_intCast]
  show qamDemodulate (((qamModulate bits mcs.bitsPerSymbol).map _).map _) _ = bits
  rw [List.map_map, heven, List.map_congr_left (g := id) fun s _ => heven ▸ hback s, List.map_id]
  exact GrayMapping.demodulate_modulate (by omega) hbits (heven ▸ hwhole)

theorem length_modulate {bits : Bytes} {mcs : Mcs} {n : Nat} (h : bits.length = mcs.bitsPerSymbol * n) :
    (exactModem.modulate bits mcs.bitsPerSymbol).length = n := by
  have hpos := mcs.bitsPerSymbol_pos
  have heven : mcs.bitsPerSymbol % 2 = 0 := by cases mcs <;> rfl
  have hwhole : bits.length % mcs.bitsPerSymbol = 0 := by rw [h, Nat.mul_mod_right]
  show ((qamModulate bits mcs.bitsPerSymbol).map _).length = n
  rw [List.length_map, qamModulate, if_neg (by omega), List.length_map, List.length_range, h,
    Nat.mul_div_cancel_left _ hpos]

/-- A data symbol is as wide as the transform. -/
theorem length_mapped (bits : Bytes) (nFft : Nat) (mcs : Mcs) :
    ∀ row ∈ mapDataSymbols exactModem bits nFft mcs, row.length = nFft := by
  intro row hrow
  rcases List.mem_cons.mp hrow with rfl | hrow
  · exact @length_modulate _ .qpsk _ (length_padTo 0 _ _)
  · obtain ⟨s, -, rfl⟩ := List.mem_map.mp hrow
    exact length_modulate (length_padTo 0 _ _)

/-! ### The factors of an echo -/

/-- The twiddle factors lie on the unit circle. -/
theorem norm_wlen (len : Nat) : ‖exactNumbers.wlen false len‖ = 1 := by
  show ‖Complex.exp (_ * _ * Complex.I)‖ = 1
  rw [← Complex.ofReal_mul, Complex.norm_exp_ofReal_mul_I]

/-- An echo that is weaker than the direct path by a thousandth leaves every subcarrier strong. -/
theorem strong_pathGain {echoGain : ℂ} (h : ‖echoGain‖ < 999 / 1000) (k early echoDelay q : Nat) :
    exactNumbers.strong (pathGain exactNumbers k early echoDelay echoGain q) = true := by
  have hturn : ∀ m : Nat, ‖exactNumbers.wlen false (2 ^ k) ^ m‖ = 1 := fun m => by rw [norm_pow, norm_wlen, one_pow]
  have hecho : ‖echoGain * exactNumbers.wlen false (2 ^ k) ^ ((early + echoDelay) * q)‖ = ‖echoGain‖ := by
    rw [norm_mul, hturn, mul_one]
  have hleast : 1 - ‖echoGain‖ ≤ ‖pathGain exactNumbers k early echoDelay echoGain q‖ := by
    have htriangle := norm_sub_norm_le (exactNumbers.wlen false (2 ^ k) ^ (early * q))
      (-(echoGain * exactNumbers.wlen false (2 ^ k) ^ ((early + echoDelay) * q)))
    rwa [norm_neg, hecho, hturn, sub_neg_eq_add] at htriangle
  show decide (1 / 1000000 < Complex.normSq _) = true
  rw [decide_eq_true_eq, Complex.normSq_eq_norm_sq]
  nlinarith

end BurstChannel

open BurstChannel

/-- What the correlations show of a burst of PCI 1 behind three samples and an echo of half the
amplitude: its start, and little elsewhere. -/
def halfEcho : Correlators ℂ where
  matched _ _ nid2 start := some (if nid2 = 1 ∧ start = 19 then 4 / 5 else 1 / 5)
  pciVerify _ _ pci _ := if pci = 1 then 9 / 10 else 1 / 5

end AetherStack.Guarantees
