import AetherStack.Lib.Differences
import AetherStack.Source.FecDistance
import AetherStack.Source.HarqCodec

/-!
# What the Viterbi decoder decides

The decoder returns the inputs of a sequence whose output is nearest to what was received, of
all input sequences of that length. The encoder's tail brings it back to the zero state, but the
decoder does not use that: its traceback starts at the best state, whichever it is. A sequence
that leaves the path of the sender near the end and never comes back competes with it, and over
the last steps it is far nearer than the free distance.
-/
namespace AetherStack.Guarantees
open Source Fec Lib

namespace FecDecoding

/-- The encoder without its tail: the state it ends in, and the coded bits. -/
def encodeInputs (inputs : Bytes) : Nat × Bytes :=
  (inputs.map fun b => if b ≠ 0 then 1 else 0).foldl emit (0, [])

def erased (soft : Option Bytes) (i : Nat) : Bool := soft.any fun marks => marks.getD i 0 == 2

/-- The received bits that are not erased and differ from the sent ones. -/
def weightedDistance (received : Bytes) (soft : Option Bytes) (sent : Bytes) : Nat :=
  (List.range received.length).countP fun i =>
    ((received.getD i 0 != 0) != (sent.getD i 0 != 0)) && !erased soft i

/-! ### Sequences of octets and of numbers -/

def bitsOf (inputs : Bytes) : List Nat := inputs.map fun b => if b ≠ 0 then 1 else 0

theorem binary_bitsOf (inputs : Bytes) : Binary (bitsOf inputs) := by
  intro u hu
  obtain ⟨b, -, rfl⟩ := List.mem_map.mp hu
  split <;> decide

@[simp] theorem length_bitsOf (inputs : Bytes) : (bitsOf inputs).length = inputs.length := by
  simp [bitsOf]

theorem bitsOf_append (inputs more : Bytes) : bitsOf (inputs ++ more) = bitsOf inputs ++ bitsOf more := by
  simp [bitsOf]

/-- The octets of a sequence of bits, and back. -/
theorem bitsOf_map_ofNat {us : List Nat} (hus : Binary us) : bitsOf (us.map UInt8.ofNat) = us := by
  rw [bitsOf, List.map_map]
  refine (List.map_congr_left fun u hu => ?_).trans (List.map_id _)
  obtain rfl | rfl : u = 0 ∨ u = 1 := by
    have hlt := hus u hu
    omega
  · rfl
  · rfl

theorem map_ofNat_bitsOf {inputs : Bytes} (h : BitList inputs) : (bitsOf inputs).map UInt8.ofNat = inputs := by
  rw [bitsOf, List.map_map]
  refine (List.map_congr_left fun b hb => ?_).trans (List.map_id _)
  rcases h b hb with rfl | rfl <;> rfl

theorem bitList_map_ofNat {us : List Nat} (hus : Binary us) : BitList (us.map UInt8.ofNat) := by
  intro b hb
  obtain ⟨u, hu, rfl⟩ := List.mem_map.mp hb
  obtain rfl | rfl : u = 0 ∨ u = 1 := by
    have hlt := hus u hu
    omega
  · exact .inl rfl
  · exact .inr rfl

/-- The encoder walks the trellis and emits the codeword of the walk. -/
theorem encodeInputs_eq (inputs : Bytes) :
    encodeInputs inputs = (pathEnd 0 (bitsOf inputs), codeword 0 (bitsOf inputs)) := by
  have hstate : ∀ (us : List Nat) (s : Nat) (acc : Bytes), (us.foldl emit (s, acc)).1 = pathEnd s us := by
    intro us
    induction us with
    | nil => exact fun _ _ => rfl
    | cons u us ih => exact fun s acc => ih _ _
  refine Prod.ext (hstate _ _ _) ?_
  rw [encodeInputs, foldl_emit, List.nil_append]
  rfl

/-- A block is encoded with its six zeros behind it. -/
theorem fecEncode_eq_inputs (bits : Bytes) :
    fecEncode bits = (encodeInputs (bits ++ List.replicate tailBits 0)).2 := by
  rw [encodeInputs_eq, fecEncode_eq_codeword, bitsOf_append]
  rfl

/-! ### The distance is the cost of a path -/

theorem weightedDistance_cons (c o : UInt8) (received sent : Bytes) (soft : Option Bytes) :
    weightedDistance (c :: received) soft (o :: sent) =
      (if ((c != 0) != (o != 0)) && !erased soft 0 then 1 else 0) +
        weightedDistance received (soft.map (List.drop 1)) sent := by
  have herased : ∀ i, erased (soft.map (List.drop 1)) i = erased soft (i + 1) := by
    intro i
    cases soft with
    | none => rfl
    | some marks => simp [erased, List.getD_eq_getElem?_getD, Nat.add_comm i 1]
  rw [weightedDistance, List.length_cons, List.range_succ_eq_map, List.countP_cons, List.countP_map,
    weightedDistance]
  simp only [Function.comp_def, List.getD_cons_succ, List.getD_cons_zero, Nat.succ_eq_add_one, herased]
  omega

theorem weightedDistance_cons_cons (c0 c1 o0 o1 : UInt8) (received sent : Bytes) (soft : Option Bytes) :
    weightedDistance (c0 :: c1 :: received) soft (o0 :: o1 :: sent) =
      (if ((c0 != 0) != (o0 != 0)) && !erased soft 0 then 1 else 0) +
        (if ((c1 != 0) != (o1 != 0)) && !erased soft 1 then 1 else 0) +
          weightedDistance received (soft.map (List.drop 2)) sent := by
  have hsecond : erased (soft.map (List.drop 1)) 0 = erased soft 1 := by
    cases soft with
    | none => rfl
    | some marks => simp [erased, List.getD_eq_getElem?_getD]
  have hrest : (soft.map (List.drop 1)).map (List.drop 1) = soft.map (List.drop 2) := by
    cases soft with
    | none => rfl
    | some marks => simp
  rw [weightedDistance_cons, weightedDistance_cons, hsecond, hrest, Nat.add_assoc]

/-- The cost of one place: the received bit, its weight and the coded bit. -/
theorem place_cost (c : UInt8) (gone : Bool) {o : Nat} (ho : o < 2) :
    (if (if c > 0 then 1 else 0) ^^^ o ≠ 0 then (if gone then 0 else 1) else 0) =
      if ((c != 0) != (UInt8.ofNat o != 0)) && !gone then 1 else 0 := by
  have hbit : (if c > 0 then 1 else 0 : Nat) = if c ≠ 0 then 1 else 0 := by
    by_cases hc : c = 0
    · rw [hc]
      rfl
    · rw [if_pos (UInt8.pos_iff_ne_zero.mpr hc), if_pos hc]
  rw [hbit]
  obtain rfl | rfl : o = 0 ∨ o = 1 := by omega
  · by_cases hc : c = 0 <;> cases gone <;> simp [hc]
  · by_cases hc : c = 0 <;> cases gone <;> simp [hc]

theorem receivedPairs_cons_cons (c0 c1 : UInt8) (received : Bytes) (soft : Option Bytes) :
    receivedPairs (c0 :: c1 :: received) soft =
      ⟨if c0 > 0 then 1 else 0, if c1 > 0 then 1 else 0, if erased soft 0 then 0 else 1,
        if erased soft 1 then 0 else 1⟩ :: receivedPairs received (soft.map (List.drop 2)) := by
  cases soft with
  | none => rfl
  | some marks => simp [receivedPairs, erased]

/-- The distance to a codeword is the cost of its path. -/
theorem weightedDistance_codeword {s : Nat} (hs : s < numStates) {us : List Nat} (hus : Binary us)
    (received : Bytes) (soft : Option Bytes) (hlen : received.length = 2 * us.length) :
    weightedDistance received soft (codeword s us) = pathCost s us (receivedPairs received soft) := by
  induction us generalizing s received soft with
  | nil =>
    obtain rfl := List.length_eq_zero_iff.mp hlen
    rfl
  | cons u us ih =>
    match received, hlen with
    | c0 :: c1 :: received, hlen =>
      have hu := hus u List.mem_cons_self
      obtain ⟨hfirst, hsecond⟩ := trellisOut_bits s hs u hu
      have hrest := ih (trellisNext_spec s hs u hu).1 (fun v hv => hus v (List.mem_cons_of_mem u hv))
        received (soft.map (List.drop 2)) (by simpa [Nat.mul_succ] using hlen)
      rw [codeword, weightedDistance_cons_cons, hrest, receivedPairs_cons_cons, pathCost, branchMetric]
      dsimp only
      rw [place_cost c0 _ hfirst, place_cost c1 _ hsecond]

/-- The same for the code sequence of some inputs. -/
theorem weightedDistance_inputs (inputs received : Bytes) (soft : Option Bytes)
    (hlen : received.length = 2 * inputs.length) :
    weightedDistance received soft (encodeInputs inputs).2 =
      pathCost 0 (bitsOf inputs) (receivedPairs received soft) := by
  rw [encodeInputs_eq]
  exact weightedDistance_codeword (by decide) (binary_bitsOf inputs) received soft (by simpa using hlen)

theorem weightedDistance_le (received : Bytes) (soft : Option Bytes) (sent : Bytes) :
    weightedDistance received soft sent ≤ received.length := by
  have hle := List.countP_le_length (p := fun i =>
    ((received.getD i 0 != 0) != (sent.getD i 0 != 0)) && !erased soft i) (l := List.range received.length)
  rwa [List.length_range] at hle

/-- What the decoder returns, as octets: the front of a nearest sequence. -/
theorem fecDecode_eq {coded : Bytes} {soft : Option Bytes} (heven : coded.length % 2 = 0)
    (hsteps : tailBits ≤ coded.length / 2) {inputs : Bytes} (hlen : inputs.length = coded.length / 2)
    (hfinite : weightedDistance coded soft (encodeInputs inputs).2 < inf) :
    ∃ info tail : Bytes, fecDecode coded soft = .ok info ∧ tail.length = tailBits ∧ BitList (info ++ tail) ∧
      (info ++ tail).length = coded.length / 2 ∧
      Nearest (receivedPairs coded soft) (bitsOf (info ++ tail)) := by
  rw [weightedDistance_inputs inputs coded soft (by omega)] at hfinite
  obtain ⟨vs, hvlen, hvs, hnearest, hdecode⟩ :=
    fecDecode_nearest heven hsteps (by simpa using hlen) (binary_bitsOf inputs) hfinite
  refine ⟨_, (vs.map UInt8.ofNat).drop (coded.length / 2 - tailBits), hdecode, ?_, ?_, ?_, ?_⟩
  · rw [List.length_drop, List.length_map, hvlen]
    omega
  · rw [List.take_append_drop]
    exact bitList_map_ofNat hvs
  · rw [List.take_append_drop, List.length_map, hvlen]
  · rw [List.take_append_drop, bitsOf_map_ofNat hvs]
    exact hnearest

end FecDecoding

open FecDecoding

/-- For every received list of whole steps that is short enough for the metrics, and every mask of
erasures: what the decoder returns is the front of an input sequence whose output is nearest to
the list, of all input sequences of its length. -/
theorem viterbi_optimal {coded : Bytes} (soft : Option Bytes) (heven : coded.length % 2 = 0)
    (hlong : 7 ≤ coded.length / 2) (hshort : coded.length / 2 < 2 ^ 29) :
    ∃ info tail : Bytes, fecDecode coded soft = .ok info ∧ tail.length = 6 ∧ BitList (info ++ tail) ∧
      (info ++ tail).length = coded.length / 2 ∧
      ∀ inputs : Bytes, BitList inputs → inputs.length = coded.length / 2 →
        weightedDistance coded soft (encodeInputs (info ++ tail)).2 ≤
          weightedDistance coded soft (encodeInputs inputs).2 := by
  have hsteps : tailBits ≤ coded.length / 2 := by
    rw [tailBits]
    omega
  have hfinite : weightedDistance coded soft (encodeInputs (List.replicate (coded.length / 2) 0)).2 < inf := by
    have hle := weightedDistance_le coded soft (encodeInputs (List.replicate (coded.length / 2) 0)).2
    rw [inf]
    omega
  obtain ⟨info, tail, hdecode, htail, hbits, hlen, hnearest⟩ :=
    fecDecode_eq heven hsteps List.length_replicate hfinite
  refine ⟨info, tail, hdecode, htail, hbits, hlen, fun inputs _ hinputs => ?_⟩
  rw [weightedDistance_inputs _ coded soft (by omega), weightedDistance_inputs _ coded soft (by omega)]
  have hmin := hnearest (bitsOf inputs) (by rw [length_bitsOf, length_receivedPairs, hinputs])
    (binary_bitsOf inputs)
  omega

/-- Seven steps with two erasures. -/
theorem viterbi_optimal_seven_steps :
    ∃ info tail : Bytes, fecDecode [1, 0, 1, 1, 0, 0, 1, 0, 0, 0, 0, 1, 1, 1] (some [2, 2, 0, 0, 0, 0, 0, 0, 0, 0, 0, 0, 0, 0]) = .ok info ∧
      tail.length = 6 ∧ BitList (info ++ tail) ∧ (info ++ tail).length = 7 ∧
      ∀ inputs : Bytes, BitList inputs → inputs.length = 7 →
        weightedDistance [1, 0, 1, 1, 0, 0, 1, 0, 0, 0, 0, 1, 1, 1] (some [2, 2, 0, 0, 0, 0, 0, 0, 0, 0, 0, 0, 0, 0]) (encodeInputs (info ++ tail)).2 ≤
          weightedDistance [1, 0, 1, 1, 0, 0, 1, 0, 0, 0, 0, 1, 1, 1] (some [2, 2, 0, 0, 0, 0, 0, 0, 0, 0, 0, 0, 0, 0]) (encodeInputs inputs).2 :=
  viterbi_optimal (some [2, 2, 0, 0, 0, 0, 0, 0, 0, 0, 0, 0, 0, 0]) (by decide) (by decide) (by decide)

/-! ## Corrected errors -/

namespace FecDecoding

/-- Of the input sequences whose output is nearest to the received list, the one that ends in the
lowest state carries the bits. -/
def CarriedByNearest (bits received : Bytes) : Prop :=
  ∃ tail : Bytes, tail.length = tailBits ∧ BitList tail ∧
    ∀ inputs : Bytes, BitList inputs → inputs.length = bits.length + tailBits →
      weightedDistance received none (encodeInputs (bits ++ tail)).2 <
          weightedDistance received none (encodeInputs inputs).2 ∨
        weightedDistance received none (encodeInputs (bits ++ tail)).2 =
            weightedDistance received none (encodeInputs inputs).2 ∧
          (encodeInputs (bits ++ tail)).1 ≤ (encodeInputs inputs).1

/-- At most two errors in the last ten steps, and at most three in the last seventeen. -/
def FewAtTheEnd (bits received : Bytes) : Prop :=
  differences (received.drop (received.length - 20)) ((fecEncode bits).drop (received.length - 20)) ≤ 2 ∧
    differences (received.drop (received.length - 34)) ((fecEncode bits).drop (received.length - 34)) ≤ 3

/-- Without erasures the distance counts the differing bits. -/
theorem weightedDistance_le_differences {received sent : Bytes} (h : received.length = sent.length) :
    weightedDistance received none sent ≤ differences received sent := by
  induction received generalizing sent with
  | nil => exact Nat.zero_le _
  | cons c received ih =>
    cases sent with
    | nil => cases h
    | cons o sent =>
      have hrest := ih (Nat.succ.inj h)
      rw [weightedDistance_cons, differences_cons_cons]
      refine Nat.add_le_add ?_ hrest
      by_cases hsame : c = o
      · simp [hsame]
      · rw [if_pos hsame]
        split <;> omega

/-! ### Two sequences that are both near -/

/-- Two different sequences of one length part at some place. -/
theorem exists_first_difference {us vs : List Nat} (hlen : us.length = vs.length) (hne : us ≠ vs) :
    ∃ (p : List Nat) (u v : Nat) (us' vs' : List Nat), us = p ++ u :: us' ∧ vs = p ++ v :: vs' ∧ u ≠ v := by
  induction us generalizing vs with
  | nil => exact absurd (List.length_eq_zero_iff.mp hlen.symm).symm hne
  | cons u us ih =>
    cases vs with
    | nil => cases hlen
    | cons v vs =>
      by_cases huv : u = v
      · subst huv
        have hrest : us ≠ vs := fun h => hne (h ▸ rfl)
        obtain ⟨p, a, b, us', vs', rfl, rfl, hab⟩ := ih (Nat.succ.inj hlen) hrest
        exact ⟨u :: p, a, b, us', vs', rfl, rfl, hab⟩
      · exact ⟨[], u, v, us, vs, rfl, rfl, huv⟩

theorem xor_eq_one {u v : Nat} (hu : u < 2) (hv : v < 2) (hne : u ≠ v) : u ^^^ v = 1 := by
  obtain rfl | rfl : u = 0 ∨ u = 1 := by omega
  · obtain rfl : v = 1 := by omega
    rfl
  · obtain rfl : v = 0 := by omega
    rfl

/-- The difference behind the first place where the sequences part weighs what both cost there. -/
theorem pathWeight_parted {p us vs : List Nat} {u v : Nat} (hus : Binary (p ++ u :: us))
    (hvs : Binary (p ++ v :: vs)) (hne : u ≠ v) {rs : List Received} (hrs : ∀ r ∈ rs, Hard r)
    (hlen : (p ++ u :: us).length = rs.length) (hvlen : (p ++ v :: vs).length = rs.length) :
    pathWeight 0 (1 :: difference us vs) ≤ pathCost (pathEnd 0 p) (u :: us) (rs.drop p.length) +
      pathCost (pathEnd 0 p) (v :: vs) (rs.drop p.length) := by
  have hp : pathEnd 0 p < numStates := pathEnd_lt (by decide) fun a ha => hus a (by simp [ha])
  have hdrop : ∀ ws : List Nat, (p ++ ws).length = rs.length → ws.length = (rs.drop p.length).length := by
    intro ws hws
    rw [List.length_append] at hws
    rw [List.length_drop]
    omega
  have hle := pathWeight_difference_le hp hp
    (show Binary (u :: us) from fun a ha => hus a (List.mem_append_right p ha))
    (show Binary (v :: vs) from fun a ha => hvs a (List.mem_append_right p ha))
    (fun r hr => hrs r (List.mem_of_mem_drop hr)) (hdrop _ hlen) (hdrop _ hvlen)
  rwa [Nat.xor_self, difference, List.zipWith_cons_cons,
    xor_eq_one (hus u (by simp)) (hvs v (by simp)) hne] at hle

/-- The front that two sequences share costs both the same. -/
theorem pathCost_shared {p us : List Nat} {rs : List Received} (hlen : (p ++ us).length = rs.length) :
    pathCost 0 (p ++ us) rs =
      pathCost 0 p (rs.take p.length) + pathCost (pathEnd 0 p) us (rs.drop p.length) := by
  rw [List.length_append] at hlen
  have hfront : p.length = (rs.take p.length).length := by
    rw [List.length_take]
    omega
  have hsplit := pathCost_append_list 0 hfront us (rs.drop p.length)
  rwa [List.take_append_drop] at hsplit

/-- Within half the free distance, no second sequence is as near and ends in the same state. -/
theorem nearest_unique {us vs : List Nat} (hus : Binary us) (hvs : Binary vs) {rs : List Received}
    (hrs : ∀ r ∈ rs, Hard r) (hlen : us.length = rs.length) (hvlen : vs.length = rs.length)
    (hnear : pathCost 0 us rs ≤ 4) (hsame : pathCost 0 vs rs = pathCost 0 us rs)
    (hend : pathEnd 0 us = pathEnd 0 vs) : us = vs := by
  by_contra hne
  obtain ⟨p, u, v, us', vs', rfl, rfl, huv⟩ := exists_first_difference (hlen.trans hvlen.symm) hne
  have hone : 1 ∈ difference (p ++ u :: us') (p ++ v :: vs') := by
    rw [difference, List.zipWith_append rfl, List.zipWith_cons_cons,
      xor_eq_one (hus u (by simp)) (hvs v (by simp)) huv]
    simp
  have hback : pathEnd 0 (difference (p ++ u :: us') (p ++ v :: vs')) = 0 := by
    have h := pathEnd_difference (s := 0) (t := 0) (by decide) (by decide) hus hvs (hlen.trans hvlen.symm)
    rwa [hend, Nat.xor_self, Nat.xor_self] at h
  have hfree := free_distance (binary_difference hus hvs) hone hback
  have hle := pathWeight_difference_le (s := 0) (t := 0) (by decide) (by decide) hus hvs hrs hlen hvlen
  rw [Nat.xor_self] at hle
  omega

/-! ### Errors near the end -/

/-- The code of a sequence continues from the state its front ends in. -/
theorem codeword_append (s : Nat) (us vs : List Nat) :
    codeword s (us ++ vs) = codeword s us ++ codeword (pathEnd s us) vs := by
  induction us generalizing s with
  | nil => rfl
  | cons u us ih =>
    rw [List.cons_append, codeword, ih, codeword, List.cons_append, List.cons_append]
    rfl

theorem receivedPairs_drop (received : Bytes) (j : Nat) :
    (receivedPairs received none).drop j = receivedPairs (received.drop (2 * j)) none := by
  induction j generalizing received with
  | zero => rfl
  | succ j ih =>
    match received with
    | [] => simp [receivedPairs]
    | [c] => simp [receivedPairs, Nat.mul_succ]
    | c0 :: c1 :: received =>
      have hdrop : (c0 :: c1 :: received).drop (2 * (j + 1)) = received.drop (2 * j) := by
        rw [Nat.mul_succ]
        rfl
      rw [hdrop, ← ih, receivedPairs]
      rfl

/-- What the sent sequence costs from some step on are errors there. -/
theorem suffix_cost_le {p us : List Nat} (hus : Binary (p ++ us)) {received : Bytes}
    (hlen : received.length = 2 * (p ++ us).length) :
    pathCost (pathEnd 0 p) us ((receivedPairs received none).drop p.length) ≤
      differences (received.drop (2 * p.length)) ((codeword 0 (p ++ us)).drop (2 * p.length)) := by
  have hp : pathEnd 0 p < numStates := pathEnd_lt (by decide) fun a ha => hus a (by simp [ha])
  have hsuffix : Binary us := fun a ha => hus a (List.mem_append_right p ha)
  have hcode : (codeword 0 (p ++ us)).drop (2 * p.length) = codeword (pathEnd 0 p) us := by
    rw [codeword_append]
    exact List.drop_left' (length_codeword 0 p)
  have hrest : (received.drop (2 * p.length)).length = 2 * us.length := by
    rw [List.length_drop, hlen, List.length_append]
    omega
  rw [receivedPairs_drop, hcode, ← weightedDistance_codeword hp hsuffix _ none hrest]
  exact weightedDistance_le_differences (hrest.trans (length_codeword _ us).symm)

theorem differences_drop_mono {received sent : Bytes} (h : received.length = sent.length) {a b : Nat}
    (hab : a ≤ b) : differences (received.drop b) (sent.drop b) ≤ differences (received.drop a) (sent.drop a) := by
  have hle := differences_drop_le
    (show (received.drop a).length = (sent.drop a).length by rw [List.length_drop, List.length_drop, h]) (b - a)
  rwa [List.drop_drop, List.drop_drop, Nat.add_sub_cancel' hab] at hle

/-! ### The two conditions -/

section Sent

variable {bits received : Bytes}

theorem length_received (hlen : received.length = (fecEncode bits).length) :
    received.length = 2 * (bits.length + tailBits) := by
  rw [hlen, length_fecEncode, tailBits]

/-- The sent sequence costs as many bits as were corrupted. -/
theorem sent_cost (hlen : received.length = (fecEncode bits).length) :
    weightedDistance received none (encodeInputs (bits ++ List.replicate tailBits 0)).2 ≤
      differences received (fecEncode bits) := by
  rw [fecEncode_eq_inputs] at hlen ⊢
  exact weightedDistance_le_differences hlen

/-- The decoder on a list with up to four errors. -/
theorem decode_near (hlen : received.length = (fecEncode bits).length)
    (hnear : differences received (fecEncode bits) ≤ 4) :
    ∃ info tail : Bytes, fecDecode received none = .ok info ∧ tail.length = tailBits ∧ BitList (info ++ tail) ∧
      info.length = bits.length ∧ Nearest (receivedPairs received none) (bitsOf (info ++ tail)) := by
  have hwhole := length_received hlen
  have hcost := sent_cost hlen
  have hfinite : weightedDistance received none (encodeInputs (bits ++ List.replicate tailBits 0)).2 < inf := by
    rw [inf]
    omega
  obtain ⟨info, tail, hdecode, htail, hbits, hsum, hnearest⟩ :=
    fecDecode_eq (by omega) (by omega) (by simp; omega) hfinite
  refine ⟨info, tail, hdecode, htail, hbits, ?_, hnearest⟩
  rw [List.length_append] at hsum
  omega

/-- Nearest among the sequences of numbers, and among those of octets. -/
theorem carriedByNearest_iff (hlen : received.length = (fecEncode bits).length) :
    CarriedByNearest bits received ↔ ∃ tail : Bytes, tail.length = tailBits ∧ BitList tail ∧
      Nearest (receivedPairs received none) (bitsOf (bits ++ tail)) := by
  have hwhole := length_received hlen
  have hpairs : (receivedPairs received none).length = bits.length + tailBits := by
    rw [length_receivedPairs]
    omega
  have hcost : ∀ inputs : Bytes, inputs.length = bits.length + tailBits →
      weightedDistance received none (encodeInputs inputs).2 =
        pathCost 0 (bitsOf inputs) (receivedPairs received none) :=
    fun inputs h => weightedDistance_inputs inputs received none (by omega)
  have hend : ∀ inputs : Bytes, (encodeInputs inputs).1 = pathEnd 0 (bitsOf inputs) :=
    fun inputs => congrArg Prod.fst (encodeInputs_eq inputs)
  constructor
  · rintro ⟨tail, htail, hbits, hmin⟩
    refine ⟨tail, htail, hbits, fun us hus hbin => ?_⟩
    have hlength : (us.map UInt8.ofNat).length = bits.length + tailBits := by
      rw [List.length_map, hus, hpairs]
    have h := hmin _ (bitList_map_ofNat hbin) hlength
    rwa [hcost _ hlength, hcost _ (by rw [List.length_append, htail]), hend, hend, bitsOf_map_ofNat hbin] at h
  · rintro ⟨tail, htail, hbits, hmin⟩
    refine ⟨tail, htail, hbits, fun inputs hin hlength => ?_⟩
    rw [hcost _ hlength, hcost _ (by rw [List.length_append, htail]), hend, hend]
    exact hmin _ (by rw [length_bitsOf, hlength, hpairs]) (binary_bitsOf inputs)

/-- Bit lists are read one way. -/
theorem bitsOf_injective {x y : Bytes} (hx : BitList x) (hy : BitList y) (h : bitsOf x = bitsOf y) : x = y := by
  rw [← map_ofNat_bitsOf hx, h, map_ofNat_bitsOf hy]

/-- Up to four errors: the decoder is right exactly when a nearest sequence carries the block. -/
theorem decode_iff_carried (hbits : BitList bits) (hlen : received.length = (fecEncode bits).length)
    (hnear : differences received (fecEncode bits) ≤ 4) :
    fecDecode received none = .ok bits ↔ CarriedByNearest bits received := by
  have hwhole := length_received hlen
  have hpairs : (receivedPairs received none).length = bits.length + tailBits := by
    rw [length_receivedPairs]
    omega
  obtain ⟨info, tail, hdecode, htail, hlist, hinfo, hnearest⟩ := decode_near hlen hnear
  rw [carriedByNearest_iff hlen, hdecode]
  constructor
  · intro heq
    obtain rfl := Except.ok.inj heq
    exact ⟨tail, htail, fun b hb => hlist b (by simp [hb]), hnearest⟩
  · rintro ⟨tail', htail', hlist', hnearest'⟩
    have hlen' : (bitsOf (bits ++ tail')).length = (receivedPairs received none).length := by
      rw [length_bitsOf, List.length_append, htail', hpairs]
    have hlenv : (bitsOf (info ++ tail)).length = (receivedPairs received none).length := by
      rw [length_bitsOf, List.length_append, htail, hinfo, hpairs]
    have hthere := hnearest _ hlen' (binary_bitsOf _)
    have hback := hnearest' _ hlenv (binary_bitsOf _)
    have hfour : pathCost 0 (bitsOf (bits ++ tail')) (receivedPairs received none) ≤ 4 := by
      have hsent := hnearest' (bitsOf (bits ++ List.replicate tailBits 0)) (by simp [hpairs]) (binary_bitsOf _)
      have hcost := sent_cost hlen
      rw [weightedDistance_inputs _ received none (by simp; omega)] at hcost
      omega
    have hsame := nearest_unique (binary_bitsOf _) (binary_bitsOf _) (hard_receivedPairs received) hlen' hlenv
      hfour (by omega) (by omega)
    have hsentlist : BitList (bits ++ tail') := by
      intro b hb
      rcases List.mem_append.mp hb with h | h
      · exact hbits b h
      · exact hlist' b h
    rw [List.append_inj_left (bitsOf_injective hsentlist hlist hsame) hinfo.symm]

/-- The tail ends in the zero state. -/
theorem pathEnd_flush : ∀ s < numStates, pathEnd s (List.replicate tailBits 0) = 0 := by decide

/-- A sequence that parts from the sent one at an information bit is no nearer, when the errors
near the end are few. -/
theorem decode_of_fewAtTheEnd (hbits : BitList bits) (hlen : received.length = (fecEncode bits).length)
    (hnear : differences received (fecEncode bits) ≤ 4) (hfew : FewAtTheEnd bits received) :
    fecDecode received none = .ok bits := by
  have hwhole := length_received hlen
  have hpairs : (receivedPairs received none).length = bits.length + tailBits := by
    rw [length_receivedPairs]
    omega
  obtain ⟨info, tail, hdecode, htail, hlist, hinfo, hnearest⟩ := decode_near hlen hnear
  rw [hdecode]
  by_contra hwrong
  have hne : bitsOf bits ≠ bitsOf info := fun h =>
    hwrong (congrArg _ (bitsOf_injective hbits (fun b hb => hlist b (by simp [hb])) h).symm)
  obtain ⟨p, u, v, us, vs, hsent, hread, huv⟩ := exists_first_difference (by simp [hinfo]) hne
  -- both sequences with their tails
  have hflush : bitsOf (List.replicate tailBits 0) = List.replicate tailBits 0 := rfl
  have hsent' : bitsOf (bits ++ List.replicate tailBits 0) = p ++ u :: (us ++ List.replicate tailBits 0) := by
    rw [bitsOf_append, hsent, hflush, List.append_assoc, List.cons_append]
  have hread' : bitsOf (info ++ tail) = p ++ v :: (vs ++ bitsOf tail) := by
    rw [bitsOf_append, hread, List.append_assoc, List.cons_append]
  have hn : bits.length = p.length + (us.length + 1) := by
    simpa using congrArg List.length hsent
  have hn' : info.length = p.length + (vs.length + 1) := by
    simpa using congrArg List.length hread
  have hubin := binary_bitsOf (bits ++ List.replicate tailBits 0)
  have hvbin := binary_bitsOf (info ++ tail)
  have hulen : (bitsOf (bits ++ List.replicate tailBits 0)).length = (receivedPairs received none).length := by
    simp [hpairs]
  have hvlen : (bitsOf (info ++ tail)).length = (receivedPairs received none).length := by
    rw [length_bitsOf, List.length_append, htail, hinfo, hpairs]
  have hcost := sent_cost hlen
  rw [weightedDistance_inputs _ received none (by simp; omega)] at hcost
  have hzero : pathEnd 0 (bitsOf (bits ++ List.replicate tailBits 0)) = 0 := by
    rw [bitsOf_append, hflush, pathEnd, List.foldl_append]
    exact pathEnd_flush _ (pathEnd_lt (by decide) (binary_bitsOf bits))
  have hcheaper : pathCost 0 (bitsOf (info ++ tail)) (receivedPairs received none) <
      pathCost 0 (bitsOf (bits ++ List.replicate tailBits 0)) (receivedPairs received none) := by
    rcases hnearest _ hulen hubin with h | ⟨hsame, hend⟩
    · exact h
    · -- as near, and in the zero state as well: the same sequence
      have heq := nearest_unique hubin hvbin (hard_receivedPairs received) hulen hvlen (by omega) hsame (by omega)
      rw [hsent', hread', List.append_cancel_left_eq, List.cons.injEq] at heq
      exact absurd heq.1 huv
  rw [hsent'] at hubin hulen hcheaper
  rw [hread'] at hvbin hvlen hcheaper
  rw [pathCost_shared hulen, pathCost_shared hvlen] at hcheaper
  have hparted := pathWeight_parted hubin hvbin huv (hard_receivedPairs received) hulen hvlen
  have hcode : fecEncode bits = codeword 0 (p ++ u :: (us ++ List.replicate tailBits 0)) := by
    rw [fecEncode_eq_inputs, encodeInputs_eq, hsent']
  have hreceived : received.length = 2 * (p ++ u :: (us ++ List.replicate tailBits 0)).length := by
    rw [hwhole, hulen, hpairs]
  have herrors := suffix_cost_le hubin hreceived
  rw [← hcode] at herrors
  have hrest : (difference (us ++ List.replicate tailBits 0) (vs ++ bitsOf tail)).length = us.length + 6 := by
    simp only [difference, List.length_zipWith, List.length_append, List.length_replicate, length_bitsOf, htail,
      tailBits]
    omega
  have hdbin : Binary (difference (us ++ List.replicate tailBits 0) (vs ++ bitsOf tail)) :=
    binary_difference (fun a ha => hubin a (List.mem_append_right p (List.mem_cons_of_mem u ha)))
      (fun a ha => hvbin a (List.mem_append_right p (List.mem_cons_of_mem v ha)))
  obtain ⟨hfour, hsix, height⟩ := open_distance hdbin
  rw [hrest] at hfour hsix height
  rw [tailBits] at hwhole
  have hfour := hfour (by omega)
  rcases Nat.lt_or_ge us.length 4 with hshort | hmiddle
  · have hlast := differences_drop_mono hlen (show received.length - 20 ≤ 2 * p.length by omega)
    have htwo := hfew.1
    omega
  · have hsix := hsix (by omega)
    rcases Nat.lt_or_ge us.length 11 with hshort | hlong
    · have hlast := differences_drop_mono hlen (show received.length - 34 ≤ 2 * p.length by omega)
      have hthree := hfew.2
      omega
    · have height := height (by omega)
      have hall := differences_drop_le hlen (2 * p.length)
      omega

end Sent

end FecDecoding

open FecDecoding

/-- For every block and every received list with up to four errors: the block comes back if and
only if the nearest of all input sequences carries it, whether or not it ends in the zero state.
It does when the errors near the end are few. -/
theorem fec_corrects_iff {bits received : Bytes} (hbits : BitList bits)
    (hlen : received.length = (fecEncode bits).length)
    (hnear : differences received (fecEncode bits) ≤ 4) :
    (fecDecode received none = .ok bits ↔ CarriedByNearest bits received) ∧
      (FewAtTheEnd bits received → fecDecode received none = .ok bits) :=
  ⟨decode_iff_carried hbits hlen hnear, decode_of_fewAtTheEnd hbits hlen hnear⟩

/-- One information bit, two errors. -/
theorem fec_corrects_two_errors :
    (fecDecode [1, 1, 0, 0, 0, 0, 0, 0, 0, 0, 0, 0, 0, 0] none = .ok [0] ↔
        CarriedByNearest [0] [1, 1, 0, 0, 0, 0, 0, 0, 0, 0, 0, 0, 0, 0]) ∧
      (FewAtTheEnd [0] [1, 1, 0, 0, 0, 0, 0, 0, 0, 0, 0, 0, 0, 0] →
        fecDecode [1, 1, 0, 0, 0, 0, 0, 0, 0, 0, 0, 0, 0, 0] none = .ok [0]) :=
  fec_corrects_iff (by simp [BitList]) (by decide) (by decide)

/-- The same block with three errors is read as the other one. -/
theorem fec_misses_three_errors :
    fecEncode [0] = [0, 0, 0, 0, 0, 0, 0, 0, 0, 0, 0, 0, 0, 0] ∧
      differences [1, 1, 1, 0, 0, 0, 0, 0, 0, 0, 0, 0, 0, 0] (fecEncode [0]) = 3 ∧
      fecDecode [1, 1, 1, 0, 0, 0, 0, 0, 0, 0, 0, 0, 0, 0] none = .ok [1] := by
  exact ⟨by decide, by decide, by decide +kernel⟩

end AetherStack.Guarantees
