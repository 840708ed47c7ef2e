import AetherStack.Source.PhyFrame

/-!
# The window of the receiver

Of the index ranges of a reception the data symbols are counted before they are sliced, and the
end of the window is cut at the samples that are there. The begin of the window and the two
preamble symbols behind the PSS are not checked.
-/
namespace AetherStack.Guarantees
open Source

namespace ReceiverWindow

variable {size nFft cpLen timing : Nat}

theorem stride_pos (cpLen : Nat) (hfft : 1 ≤ nFft) : 0 < stride nFft cpLen := by
  unfold stride
  omega

/-- What the receiver cuts out: the burst, and the symbols inside it. -/
theorem mem_rxSlices {pciConfirmed headerAccepted : Bool} {s : Slice}
    (h : s ∈ rxSlices size nFft cpLen timing pciConfirmed headerAccepted) :
    s = ⟨size, burstCpStart cpLen timing, burstCpStart cpLen timing + workLen size nFft cpLen timing⟩ ∨
      s = symbolSlice size nFft cpLen timing 1 ∨ s = symbolSlice size nFft cpLen timing 2 ∨
      ∃ i < availSyms size nFft cpLen timing, s = symbolSlice size nFft cpLen timing (kPreambleSymbols + i) := by
  unfold rxSlices at h
  dsimp only at h
  split at h
  · exact absurd h (List.not_mem_nil)
  · simp only [List.mem_cons, List.mem_map, List.mem_range] at h
    rcases h with h | h | h | ⟨i, hi, rfl⟩
    · exact .inl h
    · exact .inr (.inl h)
    · exact .inr (.inr (.inl h))
    · refine .inr (.inr (.inr ⟨i, ?_, rfl⟩))
      revert hi
      split
      · split
        · exact id
        · exact fun hi => lt_of_lt_of_le hi (min_le_left _ _)
      · exact fun hi => absurd hi (Nat.not_lt_zero i)

/-- The window ends inside the buffer. -/
theorem window_end_le : burstCpStart cpLen timing + workLen size nFft cpLen timing ≤ size := by
  have hcast := asInt_le size
  have hcut : workLen size nFft cpLen timing ≤ availSamples size cpLen timing := min_le_left _ _
  unfold availSamples at hcut
  omega

/-- The preamble needs its symbols inside the window. -/
theorem symbolSlice_inBounds_iff (i : Nat) :
    (symbolSlice size nFft cpLen timing i).InBounds ↔
      (i + 1) * stride nFft cpLen ≤ workLen size nFft cpLen timing := by
  have hstride : stride nFft cpLen = nFft + cpLen := rfl
  have hfirst : (0 : Int) ≤ i * stride nFft cpLen := by
    apply Int.mul_nonneg
    · exact Int.natCast_nonneg i
    · rw [hstride]
      omega
  have hnext : ((i : Int) + 1) * stride nFft cpLen = i * stride nFft cpLen + stride nFft cpLen := by ring
  simp only [Slice.InBounds, symbolSlice]
  rw [hnext]
  generalize (i : Int) * stride nFft cpLen = first at *
  omega

/-- The data symbols are counted. -/
theorem dataSymbol_inBounds (hfft : 1 ≤ nFft) {i : Nat} (h : i < availSyms size nFft cpLen timing) :
    (symbolSlice size nFft cpLen timing (kPreambleSymbols + i)).InBounds := by
  have hpos := stride_pos cpLen hfft
  have hstride : stride nFft cpLen = nFft + cpLen := rfl
  rw [symbolSlice_inBounds_iff]
  unfold availSyms at h
  dsimp only at h
  split at h
  · rename_i hlong
    have hcount : (i : Int) ≤ (workLen size nFft cpLen timing -
        (kPreambleSymbols * stride nFft cpLen + cpLen + nFft)) / stride nFft cpLen := by omega
    have hbytes := (Int.le_ediv_iff_mul_le hpos).mp hcount
    have hexpand : (((kPreambleSymbols + i : Nat) : Int) + 1) * stride nFft cpLen =
        kPreambleSymbols * stride nFft cpLen + i * stride nFft cpLen + stride nFft cpLen := by
      push_cast
      ring
    rw [hexpand]
    omega
  · exact absurd h (Nat.not_lt_zero i)

end ReceiverWindow

open ReceiverWindow

end AetherStack.Guarantees
