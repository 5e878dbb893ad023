import Telephony.Lib.Loop
import Mathlib.Data.Finset.Card
import Mathlib.Data.Nat.Bitwise

/-!
# Negative acknowledgements

`ast_rtcp_generate_nack` asks for the packets of the vector `missing_seqno`. It goes through the
sequence numbers from the expected one on, and writes blocks of 32 bits: the upper half of a block
is the number of a packet, and each bit of the lower half stands for one of the 16 packets after it.
-/

namespace Telephony.Rtp

open Lib List Nat

/-! ## Data model -/

def seqnoCycleOver : ℕ := 65536

/-- Source: `ast_rtcp_generate_nack` ("Handle cycling of the"), `ast_rtp_read` -/
def seqnoAfter (n : ℤ) : ℤ := if n + 1 = seqnoCycleOver then 0 else n + 1

/-- The blocks of a negative acknowledgement while they are written.
Source: `ast_rtcp_generate_nack` -/
structure NackState where
  blpIndex : ℤ
  currentSeqno : ℕ
  remainingMissingSeqno : ℕ
  fci : ℕ
  words : List ℕ
  deriving DecidableEq, Repr

/-- Write a missing number into the block; there is a new block after 16 bits.
Source: `ast_rtcp_generate_nack` ("We hit the max") -/
def NackState.add (s : NackState) (blpIndex : ℤ) : NackState :=
  if 17 ≤ blpIndex then
    { s with blpIndex := 0, fci := s.currentSeqno <<< 16, words := s.words ++ [s.fci] }
  else if blpIndex = 0 then { s with blpIndex, fci := s.fci ||| s.currentSeqno <<< 16 }
  else { s with blpIndex, fci := s.fci ||| 1 <<< (blpIndex - 1).toNat }

/-- Source: `ast_rtcp_generate_nack` -/
def nackStep (missingSeqno : List ℕ) (s : NackState) : Option (NackState ⊕ List ℕ) :=
  if s.remainingMissingSeqno = 0 then some (.inr (s.words ++ [s.fci]))
  else
    let s' :=
      if s.currentSeqno ∈ missingSeqno then
        { s.add (s.blpIndex + 1) with remainingMissingSeqno := s.remainingMissingSeqno - 1 }
      else { s with blpIndex := s.blpIndex + 1 }
    some (.inl { s' with currentSeqno := (seqnoAfter s.currentSeqno).toNat })

def rtcpGenerateNack (expectedrxseqno : ℤ) (missingSeqno : List ℕ) : Option (List ℕ) :=
  if missingSeqno.length = 0 then some []
  else
    iterate (nackStep missingSeqno) (seqnoCycleOver + 1) ⟨-1, expectedrxseqno.toNat, missingSeqno.length, 0, []⟩

/-- The numbers that a block asks for: its own, and one for each bit of its mask.
Source: `ast_rtcp_generate_nack` (`fci`), `ast_rtp_rtcp_handle_nack` (`pid`, `blp`) -/
def nackRequests (fci : ℕ) : List ℕ :=
  fci / 65536 :: ((List.range 16).filter fun i => fci.testBit i).map fun i => (fci / 65536 + i + 1) % 65536

/-! ## One block -/

lemma mem_nackRequests {fci x : ℕ} :
    x ∈ nackRequests fci ↔ x = fci / 65536 ∨ ∃ i < 16, fci.testBit i ∧ x = (fci / 65536 + i + 1) % 65536 := by
  simp only [nackRequests, mem_cons, mem_map, mem_filter, mem_range, and_assoc, eq_comm]

lemma mem_nackRequests_shiftLeft {n x : ℕ} : x ∈ nackRequests (n <<< 16) ↔ x = n := by
  have hdiv : n <<< 16 / 65536 = n := by
    rw [shiftLeft_eq]
    exact Nat.mul_div_cancel n (by decide)
  rw [mem_nackRequests, hdiv]
  constructor
  · rintro (hx | ⟨i, hi, hbit, -⟩)
    · exact hx
    · rw [testBit_shiftLeft, decide_eq_false (by omega)] at hbit
      exact absurd hbit Bool.false_ne_true
  · exact .inl

lemma or_bit_div {fci i : ℕ} (hi : i < 16) : (fci ||| 1 <<< i) / 65536 = fci / 65536 := by
  have hbit : (1 <<< i) / 65536 = 0 := by
    rw [shiftLeft_eq, one_mul]
    exact div_eq_of_lt (Nat.pow_lt_pow_right (by decide) hi)
  have hor := or_div_two_pow (a := fci) (b := 1 <<< i) (n := 16)
  rwa [hbit, or_zero] at hor

lemma mem_nackRequests_or {fci i x : ℕ} (hi : i < 16) :
    x ∈ nackRequests (fci ||| 1 <<< i) ↔ x ∈ nackRequests fci ∨ x = (fci / 65536 + i + 1) % 65536 := by
  rw [mem_nackRequests, mem_nackRequests, or_bit_div hi]
  constructor
  · rintro (hx | ⟨j, hj, hbit, hx⟩)
    · exact .inl (.inl hx)
    · rw [testBit_or, one_shiftLeft, testBit_two_pow, Bool.or_eq_true,
        decide_eq_true_eq] at hbit
      rcases hbit with hbit | rfl
      · exact .inl (.inr ⟨j, hj, hbit, hx⟩)
      · exact .inr hx
  · rintro ((hx | ⟨j, hj, hbit, hx⟩) | hx)
    · exact .inl hx
    · exact .inr ⟨j, hj, by rw [testBit_or, hbit, Bool.true_or], hx⟩
    · refine .inr ⟨i, hi, ?_, hx⟩
      rw [testBit_or, one_shiftLeft, testBit_two_pow_self, Bool.or_true]

/-! ## All blocks -/

def seqnoOffset (e n : ℕ) : ℕ := (n + 65536 - e) % 65536

section Rounds

variable {missing words : List ℕ} {e : ℕ}

/-- The numbers that are left before and after a round. Induction on the vector. -/
lemma countP_offset (he : e < 65536) {j : ℕ} (hj : j < 65536) (hnd : missing.Nodup)
    (hlt : ∀ x ∈ missing, x < 65536) :
    missing.countP (fun x => j ≤ seqnoOffset e x) =
      missing.countP (fun x => j + 1 ≤ seqnoOffset e x) + if (e + j) % 65536 ∈ missing then 1 else 0 := by
  induction missing with
  | nil => rfl
  | cons x l ih =>
    obtain ⟨hx, hnd⟩ := nodup_cons.mp hnd
    obtain ⟨hxlt, hlt⟩ := forall_mem_cons.mp hlt
    have ih := ih hnd hlt
    rw [countP_cons, countP_cons, ih]
    simp only [mem_cons, decide_eq_true_eq]
    by_cases hcur : (e + j) % 65536 = x
    · subst hcur
      have hoff : seqnoOffset e ((e + j) % 65536) = j := by
        unfold seqnoOffset
        omega
      rw [if_neg hx, if_pos hoff.ge, if_neg (by omega), if_pos (.inl rfl)]
    have hoff : seqnoOffset e x ≠ j := by
      unfold seqnoOffset
      omega
    have hsame : j ≤ seqnoOffset e x ↔ j + 1 ≤ seqnoOffset e x := by omega
    simp only [hcur, false_or, hsame]
    omega

/-- After `j` rounds the blocks ask for the missing numbers among the first `j`, and the last block
is for the number `o` rounds after the first. -/
structure Asked (missing : List ℕ) (e j : ℕ) (s : NackState) : Prop where
  block : ∃ o < j, s.blpIndex = j - 1 - o ∧ s.fci / 65536 = (e + o) % 65536
  asks : ∀ x, x ∈ (s.words ++ [s.fci]).flatMap nackRequests ↔ x ∈ missing ∧ seqnoOffset e x < j

lemma Asked.add {j : ℕ} {s : NackState} (h : Asked missing e j s) (he : e < 65536) (hj : j < 65536)
    (hlt : ∀ x ∈ missing, x < 65536) (hcur : s.currentSeqno = (e + j) % 65536)
    (hmem : s.currentSeqno ∈ missing) : Asked missing e (j + 1) (s.add (s.blpIndex + 1)) := by
  obtain ⟨o, ho, hidx, hpid⟩ := h.block
  have hcnt : ∀ x, x ∈ missing ∧ seqnoOffset e x < j + 1 ↔
      (x ∈ missing ∧ seqnoOffset e x < j) ∨ x = s.currentSeqno := by
    intro x
    constructor
    · rintro ⟨hx, hoff⟩
      have hxlt := hlt x hx
      by_cases hless : seqnoOffset e x < j
      · exact .inl ⟨hx, hless⟩
      · unfold seqnoOffset at hoff hless
        exact .inr (by omega)
    · rintro (⟨hx, hoff⟩ | rfl)
      · exact ⟨hx, by omega⟩
      · refine ⟨hmem, ?_⟩
        unfold seqnoOffset
        omega
  have hasks := h.asks
  simp only [flatMap_append, flatMap_singleton, mem_append] at hasks
  unfold NackState.add
  by_cases hlong : 17 ≤ s.blpIndex + 1
  · rw [if_pos hlong]
    refine ⟨⟨j, by omega, by simp only; omega, ?_⟩, fun x => ?_⟩
    · rw [← hcur, shiftLeft_eq]
      exact Nat.mul_div_cancel _ (by decide)
    · simp only [flatMap_append, flatMap_singleton, mem_append,
        mem_nackRequests_shiftLeft]
      rw [hasks x, hcnt x]
  rw [if_neg hlong, if_neg (by omega)]
  have hbit : (s.blpIndex + 1 - 1).toNat = j - 1 - o := by omega
  refine ⟨⟨o, by omega, by simp only; omega, ?_⟩, fun x => ?_⟩
  · rw [or_bit_div (by omega), hpid]
  · simp only [flatMap_append, flatMap_singleton, mem_append, hbit]
    rw [mem_nackRequests_or (by omega), ← or_assoc, hasks x, hcnt x, hpid, hcur]
    have hnum : ((e + o) % 65536 + (j - 1 - o) + 1) % 65536 = (e + j) % 65536 := by omega
    rw [hnum]

lemma Asked.pass {j : ℕ} {s : NackState} (h : Asked missing e j s)
    (hlt : ∀ x ∈ missing, x < 65536) (hcur : s.currentSeqno = (e + j) % 65536)
    (hmem : s.currentSeqno ∉ missing) :
    Asked missing e (j + 1) { s with blpIndex := s.blpIndex + 1 } := by
  obtain ⟨o, ho, hidx, hpid⟩ := h.block
  refine ⟨⟨o, by omega, by simp only; omega, hpid⟩, fun x => ?_⟩
  refine (h.asks x).trans ⟨?_, ?_⟩
  · rintro ⟨hx, hoff⟩
    exact ⟨hx, by omega⟩
  · rintro ⟨hx, hoff⟩
    refine ⟨hx, ?_⟩
    have hxlt := hlt x hx
    have hne : x ≠ s.currentSeqno := fun heq => hmem (heq ▸ hx)
    unfold seqnoOffset at hoff ⊢
    omega

lemma nackStep_next {j : ℕ} {s : NackState} (he : e < 65536) (hj : j < 65536) (hnd : missing.Nodup)
    (hlt : ∀ x ∈ missing, x < 65536) (hcur : s.currentSeqno = (e + j) % 65536)
    (hleft : s.remainingMissingSeqno = missing.countP fun x => j ≤ seqnoOffset e x)
    (hmore : s.remainingMissingSeqno ≠ 0) :
    ∃ s', nackStep missing s = some (.inl s') ∧ s'.currentSeqno = (e + (j + 1)) % 65536 ∧
      s'.remainingMissingSeqno = missing.countP (fun x => j + 1 ≤ seqnoOffset e x) ∧
      (Asked missing e j s → Asked missing e (j + 1) s') := by
  have hcnt := countP_offset he hj hnd hlt
  have haft : (seqnoAfter s.currentSeqno).toNat = (e + (j + 1)) % 65536 := by
    unfold seqnoAfter seqnoCycleOver
    split_ifs <;> omega
  unfold nackStep
  rw [if_neg hmore]
  by_cases hmem : s.currentSeqno ∈ missing
  · rw [if_pos (hcur ▸ hmem)] at hcnt
    simp only [if_pos hmem, haft]
    refine ⟨_, rfl, rfl, by simp only; omega, fun hask => ?_⟩
    have hadd := hask.add he hj hlt hcur hmem
    exact { hadd with }
  rw [if_neg (hcur ▸ hmem)] at hcnt
  simp only [if_neg hmem, haft]
  refine ⟨_, rfl, rfl, by simp only; omega, fun hask => ?_⟩
  have hpass := hask.pass hlt hcur hmem
  exact { hpass with }

lemma nackStep_done {j : ℕ} {s : NackState}
    (hleft : s.remainingMissingSeqno = missing.countP fun x => j ≤ seqnoOffset e x)
    (hzero : s.remainingMissingSeqno = 0) :
    nackStep missing s = some (.inr (s.words ++ [s.fci])) ∧
      (Asked missing e j s → ∀ x, x ∈ (s.words ++ [s.fci]).flatMap nackRequests ↔ x ∈ missing) := by
  refine ⟨by rw [nackStep, if_pos hzero], fun hask x => ?_⟩
  rw [hask.asks]
  refine ⟨And.left, fun hx => ⟨hx, ?_⟩⟩
  rw [hleft, countP_eq_zero] at hzero
  simpa using hzero x hx

lemma iterate_nackStep (k : ℕ) {j : ℕ} {s : NackState} (he : e < 65536) (hk : j + k = 65536)
    (hnd : missing.Nodup) (hlt : ∀ x ∈ missing, x < 65536) (hcur : s.currentSeqno = (e + j) % 65536)
    (hleft : s.remainingMissingSeqno = missing.countP fun x => j ≤ seqnoOffset e x) :
    ∃ words, iterate (nackStep missing) (k + 1) s = some words ∧
      (Asked missing e j s → ∀ x, x ∈ words.flatMap nackRequests ↔ x ∈ missing) := by
  induction k generalizing j s with
  | zero =>
    have hzero : s.remainingMissingSeqno = 0 := by
      rw [hleft, countP_eq_zero]
      intro x _
      have hoff : seqnoOffset e x < 65536 := mod_lt _ (by decide)
      rw [decide_eq_true_eq]
      omega
    obtain ⟨hdone, hasks⟩ := nackStep_done hleft hzero
    exact ⟨_, iterate_done hdone 0, hasks⟩
  | succ k ih =>
    by_cases hzero : s.remainingMissingSeqno = 0
    · obtain ⟨hdone, hasks⟩ := nackStep_done hleft hzero
      exact ⟨_, iterate_done hdone _, hasks⟩
    obtain ⟨s', hstep, hcur', hleft', hask⟩ :=
      nackStep_next he (by omega) hnd hlt hcur hleft hzero
    obtain ⟨words, hrun, hasks⟩ := ih (by omega) hcur' hleft'
    exact ⟨words, by rw [iterate_next hstep, hrun], fun h => hasks (hask h)⟩

lemma countP_offset_zero : missing.length = missing.countP fun x => 0 ≤ seqnoOffset e x := by
  simp

lemma rtcpGenerateNack_requests (he : e < 65536) (hnd : missing.Nodup)
    (hlt : ∀ x ∈ missing, x < 65536) :
    ∃ words, rtcpGenerateNack e missing = some words ∧
      ((missing = [] ∨ e ∈ missing) → ∀ x, x ∈ words.flatMap nackRequests ↔ x ∈ missing) := by
  unfold rtcpGenerateNack
  by_cases hemp : missing.length = 0
  · rw [length_eq_zero_iff.mp hemp]
    exact ⟨[], rfl, fun _ x => by simp⟩
  rw [if_neg hemp]
  have hcur : e = (e + 0) % 65536 := by omega
  obtain ⟨words, hrun, -⟩ := @iterate_nackStep missing e 65536 0
    ⟨-1, e, missing.length, 0, []⟩ he rfl hnd hlt hcur countP_offset_zero
  refine ⟨words, hrun, fun hexp => ?_⟩
  -- the first round opens a block for the expected number
  have hmem : e ∈ missing := hexp.resolve_left fun hnil => hemp (by rw [hnil, length_nil])
  obtain ⟨s, hstep, hcur', hleft', -⟩ := @nackStep_next missing e 0
    ⟨-1, e, missing.length, 0, []⟩ he (by decide) hnd hlt hcur countP_offset_zero hemp
  have hask : Asked missing e 1 s := by
    have hs : s = ⟨0, (seqnoAfter e).toNat, missing.length - 1, 0 ||| e <<< 16, []⟩ := by
      simp only [nackStep, if_neg hemp, if_pos hmem] at hstep
      exact (Sum.inl.inj (Option.some.inj hstep)).symm
    rw [hs, zero_or]
    refine ⟨⟨0, by decide, rfl, ?_⟩, fun x => ?_⟩
    · rw [shiftLeft_eq, ← hcur]
      exact Nat.mul_div_cancel e (by decide)
    simp only [nil_append, flatMap_singleton, mem_nackRequests_shiftLeft]
    constructor
    · rintro rfl
      refine ⟨hmem, ?_⟩
      unfold seqnoOffset
      omega
    · rintro ⟨hx, hoff⟩
      have hxlt := hlt x hx
      unfold seqnoOffset at hoff
      omega
  obtain ⟨words', hrun', hasks⟩ := iterate_nackStep 65535 he (by decide) hnd hlt hcur' hleft'
  rw [iterate_next hstep, hrun'] at hrun
  rw [← Option.some.inj hrun]
  exact hasks hask

/-! ## How many numbers are asked for -/

def NackState.asked (s : NackState) : ℕ := ((s.words ++ [s.fci]).flatMap nackRequests).length

lemma length_nackRequests (fci : ℕ) :
    (nackRequests fci).length = ((Finset.range 16).filter fun i => fci.testBit i).card + 1 := by
  simp [nackRequests, Finset.filter, Multiset.range]

lemma length_nackRequests_shiftLeft (n : ℕ) : (nackRequests (n <<< 16)).length = 1 := by
  rw [length_nackRequests, Nat.add_eq_right, Finset.card_eq_zero, Finset.filter_eq_empty_iff]
  intro i hi
  rw [testBit_shiftLeft, decide_eq_false (by simpa using hi)]
  exact Bool.false_ne_true

lemma length_nackRequests_or {fci i : ℕ} (hi : i < 16) (hfree : fci.testBit i = false) :
    (nackRequests (fci ||| 1 <<< i)).length = (nackRequests fci).length + 1 := by
  have hins : ((Finset.range 16).filter fun j => (fci ||| 1 <<< i).testBit j) =
      insert i ((Finset.range 16).filter fun j => fci.testBit j) := by
    simp only [one_shiftLeft]
    grind
  rw [length_nackRequests, length_nackRequests, hins, Finset.card_insert_of_notMem (by simp [hfree])]

/-- The bits from the current one on are not yet used. -/
def NackState.Free (s : NackState) : Prop :=
  0 ≤ s.blpIndex ∧ ∀ i : ℕ, i < 16 → s.blpIndex ≤ i → s.fci.testBit i = false

lemma NackState.Free.add {s : NackState} (h : s.Free) :
    (s.add (s.blpIndex + 1)).Free ∧ (s.add (s.blpIndex + 1)).asked = s.asked + 1 := by
  obtain ⟨hidx, hfree⟩ := h
  unfold NackState.add NackState.asked
  split_ifs with hlong hzero
  · refine ⟨⟨le_rfl, fun i hi _ => ?_⟩, ?_⟩
    · rw [testBit_shiftLeft, decide_eq_false (by omega), Bool.false_and]
    · rw [flatMap_append, length_append, flatMap_singleton, length_nackRequests_shiftLeft]
  · omega
  refine ⟨⟨by simp only; omega, fun i hi hle => ?_⟩, ?_⟩
  · simp only at hle
    rw [testBit_or, one_shiftLeft, testBit_two_pow, hfree i hi (by omega), Bool.false_or, decide_eq_false_iff_not]
    omega
  · rw [flatMap_append, flatMap_append, length_append, length_append, flatMap_singleton, flatMap_singleton,
      length_nackRequests_or (by omega) (hfree _ (by omega) (by omega)), Nat.add_assoc]

/-- Every missing number is asked for once. Induction on the rounds. -/
lemma iterate_asked (k : ℕ) {s : NackState} (h : s.Free) (hrun : iterate (nackStep missing) k s = some words) :
    (words.flatMap nackRequests).length = s.asked + s.remainingMissingSeqno := by
  induction k generalizing s with
  | zero => exact absurd hrun (by simp [Lib.iterate])
  | succ k ih =>
    by_cases hzero : s.remainingMissingSeqno = 0
    · rw [iterate_done (by rw [nackStep, if_pos hzero])] at hrun
      rw [← Option.some.inj hrun, hzero]
      rfl
    by_cases hmem : s.currentSeqno ∈ missing
    · rw [iterate_next (by rw [nackStep, if_neg hzero, if_pos hmem])] at hrun
      refine (ih ?_ hrun).trans ?_
      · exact h.add.1
      · have hask := h.add.2
        simp only [NackState.asked] at hask ⊢
        omega
    rw [iterate_next (by rw [nackStep, if_neg hzero, if_neg hmem])] at hrun
    refine (ih ?_ hrun).trans rfl
    exact ⟨by have := h.1; dsimp only; omega, fun i hi hle => h.2 i hi (by dsimp only at hle; omega)⟩

lemma length_le_flatMap_nackRequests (words : List ℕ) : words.length ≤ (words.flatMap nackRequests).length := by
  induction words with
  | nil => exact le_rfl
  | cons fci words ih =>
    rw [flatMap_cons, length_append, length_cons, length_nackRequests]
    omega

/-- **The blocks and the vector.** The loop ends, and the blocks ask for each missing number exactly
once, with no more blocks than numbers, exactly when the vector is empty or has the expected number.
Otherwise the first block is read as one for 0. -/
theorem rtcpGenerateNack_roundTrip_iff (he : e < 65536) (hnodup : missing.Nodup)
    (hlt : ∀ x ∈ missing, x < 65536) :
    ∃ words, rtcpGenerateNack e missing = some words ∧
      ((words.flatMap nackRequests).Perm missing ∧ words.length ≤ missing.length ↔ missing = [] ∨ e ∈ missing) := by
  obtain ⟨words, hwds, hsame⟩ := rtcpGenerateNack_requests he hnodup hlt
  refine ⟨words, hwds, ?_⟩
  rw [rtcpGenerateNack] at hwds
  split_ifs at hwds with hemp
  · simp [← Option.some.inj hwds, length_eq_zero_iff.mp hemp]
  rw [Int.toNat_natCast] at hwds
  have hne : missing ≠ [] := fun hnil => hemp (by rw [hnil, length_nil])
  by_cases hmem : e ∈ missing
  · rw [iterate_next (by rw [nackStep, if_neg hemp, if_pos hmem])] at hwds
    have hfree : ∀ i : ℕ, i < 16 → (0 : ℤ) ≤ i → (0 ||| e <<< 16).testBit i = false := by
      intro i hi _
      simp [hi]
    have hlen : (words.flatMap nackRequests).length = missing.length := by
      rw [iterate_asked _ ⟨le_rfl, hfree⟩ hwds]
      change (([] ++ [0 ||| e <<< 16]).flatMap nackRequests).length + (missing.length - 1) = _
      rw [nil_append, flatMap_singleton, zero_or, length_nackRequests_shiftLeft]
      omega
    have hperm := (subperm_of_subset hnodup fun x hx => (hsame (.inr hmem) x).mpr hx).perm_of_length_le hlen.le
    exact ⟨fun _ => .inr hmem, fun _ => ⟨hperm.symm, hlen ▸ length_le_flatMap_nackRequests words⟩⟩
  · rw [iterate_next (by rw [nackStep, if_neg hemp, if_neg hmem])] at hwds
    have hlen := iterate_asked _ ⟨le_rfl, fun i _ _ => zero_testBit i⟩ hwds
    refine ⟨fun h => ?_, fun h => absurd h (by simp [hne, hmem])⟩
    rw [h.1.length_eq] at hlen
    simp [NackState.asked, nackRequests] at hlen

theorem rtcpGenerateNack_roundTrip_iff_wraps :
    ∃ words, rtcpGenerateNack 65534 [0, 20, 65534] = some words ∧
      ((words.flatMap nackRequests).Perm [0, 20, 65534] ∧ words.length ≤ 3) := by
  obtain ⟨words, hwds, hiff⟩ :=
    @rtcpGenerateNack_roundTrip_iff [0, 20, 65534] 65534 (by decide) (by decide) (by decide)
  exact ⟨words, hwds, hiff.mpr (by decide)⟩

/-- The packet 12 is missing when 10 is expected: the block is read as asking for 0 and 2. -/
theorem rtcpGenerateNack_asks_zero :
    (rtcpGenerateNack 10 [12]).map (fun words => words.flatMap nackRequests) = some [0, 2] := by
  decide

end Rounds

end Telephony.Rtp
