import Telephony.Http.Chunked

/-!
# A body stays in its buffer

The size of a chunk is what the client says, up to 2^31 - 1. It is added to the number of bytes that
are there, as an `int`, before the sum is compared with the limit and with the size of the buffer: a
sum of 2^31 starts again at the lowest negative number, and both checks pass.
-/

namespace Telephony.Http

open Lib List

/-! ## Numbers -/

lemma hexDigit_lt {c : UInt8} {digit : ℕ} (h : hexDigit c = some digit) : digit < 16 := by
  unfold hexDigit at h
  split_ifs at h with hdecimal hlower hupper
  · have hle : c.toNat ≤ 57 := hdecimal.2
    cases h
    omega
  · have hle : c.toNat ≤ 102 := hlower.2
    cases h
    omega
  · have hle : c.toNat ≤ 70 := hupper.2
    cases h
    omega

lemma int32_shift_lt (value : ℤ) {digit : ℕ} (h : digit < 16) : int32 (value * 16) + digit < 2 ^ 31 := by
  unfold int32
  rw [Int.bmod_def]
  omega

lemma skipExtension_lt {value : ℤ} (h : value < 2 ^ 31) (s : List UInt8) : skipExtension value s < 2 ^ 31 := by
  unfold skipExtension
  split_ifs
  · exact h
  · decide

lemma atohLoop_lt {value : ℤ} (h : value < 2 ^ 31) (s : List UInt8) : atohLoop value s < 2 ^ 31 := by
  induction s generalizing value with
  | nil => exact show (-1 : ℤ) < 2 ^ 31 by decide
  | cons c s ih =>
    unfold atohLoop
    split_ifs with hend hext
    · exact h
    · exact skipExtension_lt h s
    · split
      · rename_i digit hdig
        exact ih (int32_shift_lt value (hexDigit_lt hdig))
      · decide

lemma chunkedAtoh_lt (s : List UInt8) : chunkedAtoh s < 2 ^ 31 := by
  unfold chunkedAtoh
  split
  · decide
  · split_ifs
    · decide
    · exact atohLoop_lt (by decide) _

lemma chunkLength_lt {line : List UInt8} {n : ℕ} (h : chunkLength line = some n) : n < 2 ^ 31 := by
  have hlt := chunkedAtoh_lt (cString line)
  unfold chunkLength at h
  split_ifs at h with hnil hneg
  cases h
  omega

/-! ## The buffer -/

def Access.Inside (a : Access) : Prop := 0 ≤ a.offset ∧ a.offset + a.count ≤ a.bufsize

instance (a : Access) : Decidable a.Inside := inferInstanceAs (Decidable (_ ∧ _))

structure Collecting.Fits (s : Collecting) : Prop where
  total : s.contentLength = s.sizes.sum
  room : s.contentLength < s.bufsize
  limit : s.contentLength ≤ maxContentLength
  low : 250 ≤ s.bufsize
  high : s.bufsize ≤ 2 * maxContentLength
  inside : ∀ a ∈ s.accesses, a.Inside

variable {s s' s₁ : Collecting} {c c' : Conn} {n : ℕ} {status : Status} {bufsize wanted : ℤ}

lemma Collecting.Fits.nonneg (h : s.Fits) : 0 ≤ s.contentLength := by
  rw [h.total]
  exact Int.natCast_nonneg _

lemma Collecting.sized_sum (s : Collecting) (n : ℕ) : (s.sized n).sizes.sum = s.sizes.sum + n := by
  simp [sized]

lemma enlarge_spec (hlow : 250 ≤ bufsize) (hsml : bufsize ≤ wanted) (hlim : wanted ≤ maxContentLength) :
    ∃ b, enlarge wanted bufsize = some b ∧ wanted < b ∧ b ≤ 2 * wanted := by
  have hmax : maxContentLength = 40960 := rfl
  have hrnd : ∀ b, 250 ≤ b ∧ b ≤ wanted →
      (∃ b', enlargeStep wanted b = some (.inl b') ∧ (250 ≤ b' ∧ b' ≤ wanted) ∧
        (wanted - b').toNat < (wanted - b).toNat) ∨
      ∃ b', enlargeStep wanted b = some (.inr b') ∧ wanted < b' ∧ b' ≤ 2 * wanted := by
    rintro b ⟨hb, hle⟩
    have hdouble : int32 (b * 2) = b * 2 := int32_of_lt (by omega) (by omega)
    unfold enlargeStep
    rw [hdouble]
    split_ifs with hmore
    · exact .inl ⟨b * 2, rfl, ⟨by omega, hmore⟩, by omega⟩
    · exact .inr ⟨b * 2, rfl, by omega, by omega⟩
  obtain ⟨b, hpost, henough⟩ := iterate_total hrnd (s := bufsize) ⟨hlow, hsml⟩
  exact ⟨b, henough _ (by omega), hpost⟩

lemma Collecting.Fits.insure (h : s.Fits) (hlim : s.contentLength + n ≤ maxContentLength) :
    (s.sized n).insure n = .error .enomem ∨
      ∃ bufsize allocs, (s.sized n).insure n = .ok { s.sized n with bufsize := bufsize, allocs := allocs } ∧
        s.contentLength + n < bufsize ∧ 250 ≤ bufsize ∧ bufsize ≤ 2 * maxContentLength := by
  have hmax : maxContentLength = 40960 := rfl
  have hlow := h.low
  have hhigh := h.high
  have hnn := h.nonneg
  have hsum : int32 (s.contentLength + n) = s.contentLength + n := int32_of_lt (by omega) (by omega)
  have hsum' : int32 ((s.sized n).contentLength + n) = s.contentLength + n := hsum
  unfold Collecting.insure
  rw [hsum']
  by_cases hroom : s.contentLength + n < (s.sized n).bufsize
  · rw [if_pos hroom]
    exact .inr ⟨s.bufsize, s.allocs, rfl, hroom, hlow, hhigh⟩
  have hsml : s.bufsize ≤ s.contentLength + n := Int.not_lt.mp hroom
  obtain ⟨b, hb, hwide, htwice⟩ := enlarge_spec hlow hsml hlim
  have hb' : enlarge (s.contentLength + n) (s.sized n).bufsize = some b := hb
  rw [hb']
  split_ifs
  · exact .inr ⟨b, _, rfl, hwide, by omega, by omega⟩
  · exact .inl rfl

lemma Collecting.insure_same (h : s.insure n = .ok s₁) : s₁.accesses = s.accesses ∧ s₁.sizes = s.sizes := by
  unfold Collecting.insure at h
  split_ifs at h with hroom hmemo
  · cases h
    exact ⟨rfl, rfl⟩
  · split at h
    · cases h
    · cases h
      exact ⟨rfl, rfl⟩
  · split at h <;> cases h

lemma Collecting.Fits.insure_overflow (h : s.Fits) (hn : n < 2 ^ 31) (hbig : 2 ^ 31 ≤ s.contentLength + n) :
    (s.sized n).insure n = .ok (s.sized n) := by
  have hmax : maxContentLength = 40960 := rfl
  have hlow := h.low
  have hlim := h.limit
  have hneg : int32 ((s.sized n).contentLength + n) < 0 := int32_neg hbig (by change s.contentLength + n < _; omega)
  unfold Collecting.insure
  rw [if_pos]
  exact Int.lt_of_lt_of_le hneg (Int.le_trans (by decide) hlow)

/-! ## The data -/

lemma bodyReadContents_range (offset bufsize : ℤ) (length : ℕ) (c : Conn) :
    ∀ a ∈ (bodyReadContents offset bufsize length c).accesses,
      offset ≤ a.offset ∧ a.offset + a.count = offset + length ∧ a.bufsize = bufsize := by
  fun_induction bodyReadContents offset bufsize length c with
  | case1 => simp
  | case2 offset length c hzero b bytes c₁ hread rest ih =>
    have hle := (Conn.read_takeBytes hread (by simp)).2
    intro a ha
    rcases mem_cons.mp ha with rfl | ha
    · exact ⟨Int.le_refl _, rfl, rfl⟩
    · obtain ⟨hoff, hend, hbsz⟩ := ih a ha
      exact ⟨by omega, by omega, hbsz⟩
  | case3 offset length c hzero r c₁ hne hread =>
    intro a ha
    obtain rfl := mem_singleton.mp ha
    exact ⟨Int.le_refl _, rfl, rfl⟩

lemma bodyReadContents_first (offset bufsize : ℤ) (c : Conn) (hn : 0 < n) :
    ⟨offset, n, bufsize⟩ ∈ (bodyReadContents offset bufsize n c).accesses := by
  unfold bodyReadContents
  rw [if_neg (by omega)]
  split
  · exact mem_cons_self
  · exact mem_singleton_self _

/-! ## One round -/

def Status.Bounded (s : Collecting) : Status → Prop
  | .failed failure =>
    failure ≠ .hang ∧ (maxContentLength < s.sizes.sum → failure = .efbig) ∧ ∀ a ∈ s.accesses, a.Inside
  | _ => s.Fits

lemma Collecting.Fits.received (h : s.Fits) (allocs : List Bool) (hroom : s.contentLength + n < bufsize) (c : Conn) :
    ∀ a ∈ (Collecting.received { s.sized n with bufsize := bufsize, allocs := allocs }
      (bodyReadContents s.contentLength bufsize n c)).accesses, a.Inside := by
  intro a ha
  have hnn := h.nonneg
  rcases mem_append.mp ha with ha | ha
  · exact h.inside a ha
  · obtain ⟨hoff, hend, hbsz⟩ := bodyReadContents_range s.contentLength bufsize n c a ha
    exact ⟨by omega, by omega⟩

lemma getChunk_bounded (hfits : s.Fits) (h : getChunk s c = (s', c', status)) :
    (s'.sizes.sum < 2 ^ 31 ∧ status.Bounded s') ∨ (2 ^ 31 ≤ s'.sizes.sum ∧ ∃ a ∈ s'.accesses, ¬ a.Inside) := by
  have hmax : maxContentLength = 40960 := rfl
  have htot := hfits.total
  have hlim := hfits.limit
  unfold getChunk at h
  dsimp only at h
  split at h
  · cases h
    exact .inl ⟨by omega, by simp, fun hbig => by omega, hfits.inside⟩
  rename_i n hsize
  have hn : n < 2 ^ 31 := chunkLength_lt hsize
  have hszd := s.sized_sum n
  split_ifs at h with hzero hlong
  · cases h
    subst hzero
    refine .inl ⟨by omega, ?_⟩
    exact { hfits with total := by rw [hszd]; exact htot, limit := hlim }
  · cases h
    rcases Int.lt_or_le (s.contentLength + n) (2 ^ 31) with hsml | hbig
    · exact .inl ⟨by omega, by simp, fun _ => rfl, hfits.inside⟩
    · have hneg : int32 (s.contentLength + n) < 0 := int32_neg hbig (by omega)
      omega
  rcases Int.lt_or_le (s.contentLength + n) (2 ^ 31) with hsml | hbig
  · rw [int32_of_lt (by omega) hsml, Int.not_lt] at hlong
    rcases hfits.insure hlong with hinsu | ⟨bufsize, allocs, hinsu, hroom, hlow, hhigh⟩
    · rw [hinsu] at h
      cases h
      exact .inl ⟨by omega, by simp, fun hover => by omega, hfits.inside⟩
    rw [hinsu] at h
    have hin := hfits.received allocs hroom (bodyGetChunkLength c).conn
    have hrcv : ∀ t : Transfer, (Collecting.received { s.sized n with bufsize := bufsize, allocs := allocs }
        t).sizes.sum = s.sizes.sum + n := fun _ => hszd
    dsimp only at h
    split_ifs at h with hdone
    · split at h
      · cases h
        exact .inl ⟨by rw [hrcv]; omega, by simp, fun hover => by rw [hrcv] at hover; omega, hin⟩
      · cases h
        have hsum : int32 (s.contentLength + n) = s.contentLength + n := int32_of_lt (by omega) hsml
        refine .inl ⟨lt_of_le_of_lt (le_of_eq hszd) (by omega), ?_⟩
        constructor
        · exact hsum.trans (by rw [htot]; exact (congrArg Nat.cast hszd).symm)
        · exact Int.lt_of_le_of_lt (Int.le_of_eq hsum) hroom
        · exact Int.le_trans (Int.le_of_eq hsum) hlong
        · exact hlow
        · exact hhigh
        · exact hin
    · cases h
      exact .inl ⟨by rw [hrcv]; omega, by simp, fun hover => by rw [hrcv] at hover; omega, hin⟩
  · rw [hfits.insure_overflow hn hbig] at h
    have hfst := bodyReadContents_first s.contentLength s.bufsize (bodyGetChunkLength c).conn
      (Nat.pos_of_ne_zero hzero)
    have hhigh := hfits.high
    have hwild : ¬ (⟨s.contentLength, n, s.bufsize⟩ : Access).Inside := by
      rintro ⟨-, hend⟩
      change s.contentLength + n ≤ s.bufsize at hend
      omega
    have hsum : 2 ^ 31 ≤ (s.sized n).sizes.sum := by omega
    dsimp only at h
    split_ifs at h with hdone <;> try split at h
    all_goals
      cases h
      exact .inr ⟨hsum, _, mem_append_right _ hfst, hwild⟩

/-! ## All rounds -/

lemma getChunk_grows (h : getChunk s c = (s', c', status)) :
    s.accesses ⊆ s'.accesses ∧ s.sizes.sum ≤ s'.sizes.sum := by
  unfold getChunk at h
  dsimp only at h
  split at h
  · cases h
    exact ⟨List.Subset.refl _, le_refl _⟩
  rename_i n hsize
  have hszd : s.sizes.sum ≤ (s.sized n).sizes.sum := by
    rw [s.sized_sum n]
    exact Nat.le_add_right _ _
  split_ifs at h with hzero hlong <;> try split at h
  any_goals
    cases h
    exact ⟨List.Subset.refl _, hszd⟩
  rename_i s₁ hinsu
  obtain ⟨hacc, hszs⟩ := Collecting.insure_same hinsu
  have hsum : s.sizes.sum ≤ s₁.sizes.sum := hszs ▸ hszd
  have hsubset : s.accesses ⊆ (s₁.received (bodyReadContents s₁.contentLength s₁.bufsize n
      (bodyGetChunkLength c).conn)).accesses :=
    fun a ha => mem_append_left _ (hacc ▸ ha)
  split_ifs at h with hdone <;> try split at h
  all_goals
    cases h
    exact ⟨hsubset, hsum⟩

lemma getChunks_grows (s : Collecting) (c : Conn) :
    s.accesses ⊆ (getChunks s c).1.accesses ∧ s.sizes.sum ≤ (getChunks s c).1.sizes.sum := by
  fun_induction getChunks s c with
  | case1 s c s₁ c₁ hrnd ih =>
    obtain ⟨hacc, hszs⟩ := getChunk_grows hrnd
    exact ⟨List.Subset.trans hacc ih.1, le_trans hszs ih.2⟩
  | case2 s c hend => exact getChunk_grows rfl

lemma getChunks_ne_more (s : Collecting) (c : Conn) : (getChunks s c).2.2 ≠ .more := by
  fun_induction getChunks s c with
  | case1 s c s₁ c₁ hrnd ih => exact ih
  | case2 s c hend => exact fun hmore => hend _ _ (Prod.ext rfl (Prod.ext rfl hmore))

lemma getChunks_bounded (hfits : s.Fits) (c : Conn) :
    ((getChunks s c).1.sizes.sum < 2 ^ 31 ∧ (getChunks s c).2.2.Bounded (getChunks s c).1) ∨
      (2 ^ 31 ≤ (getChunks s c).1.sizes.sum ∧ ∃ a ∈ (getChunks s c).1.accesses, ¬ a.Inside) := by
  fun_induction getChunks s c with
  | case1 s c s₁ c₁ hrnd ih =>
    rcases getChunk_bounded hfits hrnd with ⟨-, hfits'⟩ | ⟨hsum, a, ha, hwild⟩
    · exact ih hfits'
    · obtain ⟨hacc, hszs⟩ := getChunks_grows s₁ c₁
      exact .inr ⟨le_trans hsum hszs, a, hacc ha, hwild⟩
  | case2 s c hend => exact getChunk_bounded hfits rfl

/-! ## The whole function -/

/-- Every read into the buffer and the zero behind the text are inside the buffer, the doubling
ends, and a body that is too large is rejected as such. -/
structure Getting.Safe (g : Getting) : Prop where
  inside : ∀ a ∈ g.accesses, a.Inside
  ends : g.result ≠ .error .hang
  rejects : maxContentLength < g.sizes.sum → g.result = .error .efbig

lemma Collecting.initial_fits (world : Surroundings) : (Collecting.initial world).Fits where
  total := rfl
  room := show (0 : ℤ) < 250 by decide
  limit := show (0 : ℤ) ≤ maxContentLength by decide
  low := Int.le_refl 250
  high := show (250 : ℤ) ≤ 2 * maxContentLength by decide
  inside := nofun

lemma Getting.safe_of_untouched {g : Getting} (hszs : g.sizes = []) (hacc : g.accesses = [])
    (hends : g.result ≠ .error .hang) : g.Safe where
  inside := fun a ha => absurd (hacc ▸ ha) not_mem_nil
  ends := hends
  rejects := fun hbig => by
    rw [hszs] at hbig
    cases hbig

section

variable (request : Request) (world : Surroundings) (c : Conn)

lemma getChunked_safe : ((getChunked request world c).sizes.sum < 2 ^ 31 ∧ (getChunked request world c).Safe) ∨
      (2 ^ 31 ≤ (getChunked request world c).sizes.sum ∧ ¬ (getChunked request world c).Safe) := by
  have hbdd := getChunks_bounded (Collecting.initial_fits world) c
  have hmore := getChunks_ne_more (Collecting.initial world) c
  unfold getChunked
  split_ifs with hmemo
  · split
    · rename_i s₁ c₁ line hloop
      rw [hloop] at hbdd
      rcases hbdd with ⟨hsum, hfits⟩ | ⟨hsum, a, ha, hwild⟩
      · have hfits : s₁.Fits := hfits
        have hlim := hfits.limit
        have htot := hfits.total
        split
        · exact .inl ⟨hsum, hfits.inside, by simp, fun hbig => by dsimp only at hbig; omega⟩
        refine .inl ⟨hsum, fun a ha => ?_, by simp, fun hbig => by dsimp only at hbig; omega⟩
        rcases mem_append.mp ha with ha | ha
        · exact hfits.inside a ha
        · obtain rfl := mem_singleton.mp ha
          exact ⟨hfits.nonneg, hfits.room⟩
      · split
        · exact .inr ⟨hsum, fun hsafe => hwild (hsafe.inside a ha)⟩
        · exact .inr ⟨hsum, fun hsafe => hwild (hsafe.inside a (mem_append_left _ ha))⟩
    · rename_i s₁ c₁ failure hloop
      rw [hloop] at hbdd
      rcases hbdd with ⟨hsum, hends, hrejects, hin⟩ | ⟨hsum, a, ha, hwild⟩
      · refine .inl ⟨hsum, hin, fun herror => hends ?_, fun hbig => by rw [hrejects hbig]⟩
        injection herror
      · exact .inr ⟨hsum, fun hsafe => hwild (hsafe.inside a ha)⟩
    · rename_i s₁ c₁ hloop
      rw [hloop] at hmore
      exact absurd rfl hmore
  · exact .inl ⟨show ([] : List ℕ).sum < 2 ^ 31 by decide, Getting.safe_of_untouched rfl rfl (by simp)⟩

lemma getCounted_safe (hpos : 0 < request.bodyLength) :
    (getCounted request world c).sizes = [] ∧ (getCounted request world c).Safe := by
  have hnone : ¬ maxContentLength < (([] : List ℕ).sum : ℤ) := by decide
  unfold getCounted
  dsimp only
  split_ifs with hlong hmemo hdone
  · exact ⟨rfl, Getting.safe_of_untouched rfl rfl (by simp)⟩
  · refine ⟨rfl, fun a ha => ?_, by simp, fun hbig => absurd hbig hnone⟩
    rcases mem_append.mp ha with ha | ha
    · obtain ⟨hoff, hend, hbsz⟩ := bodyReadContents_range _ _ _ _ a ha
      exact ⟨hoff, by omega⟩
    · obtain rfl := mem_singleton.mp ha
      exact ⟨hpos.le, Int.le_refl _⟩
  · refine ⟨rfl, fun a ha => ?_, by simp, fun hbig => absurd hbig hnone⟩
    obtain ⟨hoff, hend, hbsz⟩ := bodyReadContents_range _ _ _ _ a ha
    exact ⟨hoff, by omega⟩
  · exact ⟨rfl, Getting.safe_of_untouched rfl rfl (by simp)⟩

end

/-- **A body stays in its buffer** just when the sizes that the client gives come to less than
2^31. -/
theorem getContents_safe_iff (request : Request) (world : Surroundings) (c : Conn) :
    (getContents request world c).Safe ↔ (getContents request world c).sizes.sum < 2 ^ 31 := by
  unfold getContents
  split_ifs with hnone hcd
  · exact ⟨fun _ => show ([] : List ℕ).sum < 2 ^ 31 by decide,
      fun _ => Getting.safe_of_untouched rfl rfl (by simp)⟩
  · obtain ⟨hszs, hsafe⟩ := getCounted_safe { request with bodyRead := true } world c hcd
    rw [hszs]
    exact ⟨fun _ => by decide, fun _ => hsafe⟩
  · rcases getChunked_safe { request with bodyRead := true } world c with ⟨hsum, hsafe⟩ | ⟨hsum, hsafe⟩
    · exact ⟨fun _ => hsum, fun _ => hsafe⟩
    · exact ⟨fun h => absurd h hsafe, fun h => absurd h (not_lt.mpr hsum)⟩

def Request.chunked : Request := ⟨true, false, false, -1⟩

/-- A chunk of one byte and the size 7fffffff: the second read asks for 2^31 - 1 bytes behind the
first of 250. -/
theorem getContents_not_safe :
    ¬ (getContents .chunked ⟨[], fun _ => 0, []⟩
      ⟨[], [.data [49, 13, 10, 65, 13, 10, 55, 102, 102, 102, 102, 102, 102, 102, 13, 10, 66]]⟩).Safe := by
  intro hsafe
  have hread : (⟨1, 2 ^ 31 - 1, 250⟩ : Access) ∈ (getContents .chunked ⟨[], fun _ => 0, []⟩
      ⟨[], [.data [49, 13, 10, 65, 13, 10, 55, 102, 102, 102, 102, 102, 102, 102, 13, 10, 66]]⟩).accesses := by
    decide +kernel
  exact absurd (hsafe.inside _ hread) (by decide)

end Telephony.Http
