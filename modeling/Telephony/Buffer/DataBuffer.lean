import Telephony.Lib.Runs
import Telephony.Lib.Word

/-!
# The data buffer

`main/data_buffer.c` keeps a bounded number of payloads in a list sorted by position, and a few
unused list entries in a cache. A step that follows a null pointer has no result (`none`).

`size_t` has 64 bits. `ast_data_buffer_cache_adjust` and `ast_data_buffer_resize` put a difference
of two sizes into an `int`, which keeps its lowest 32 bits.
-/

namespace Telephony.Buffer

open Lib List Option

/-! ## Data model -/

/-- A data buffer. An entry of the cache has no payload, but still its last position. `freed` are
the payloads that were given to the callback `free_fn`.
Source: `struct ast_data_buffer`, `struct data_buffer_payload_entry` -/
structure DataBuffer (β : Type) where
  payloads : List (ℕ × β)
  cachedPayloads : List ℕ
  count : ℕ
  max : ℕ
  cacheCount : ℕ
  freed : List β
  deriving DecidableEq, Repr

def cachedPayloadMax : ℕ := 5

section Operations

variable {β : Type}

/-! ## Operations -/

/-- Source: `ast_data_buffer_cache_adjust` ("Add payloads to the") -/
def DataBuffer.fillCache (space : ℕ) : ℕ → DataBuffer β → DataBuffer β
  | 0, self => self
  | n + 1, self =>
    if self.cacheCount < cachedPayloadMax ∧ self.cacheCount < space then
      fillCache space n
        { self with
          cachedPayloads := self.cachedPayloads ++ [2 ^ 64 - 1]
          cacheCount := self.cacheCount + 1 }
    else self

/-- Remove entries from the head of the cache until it has `space` of them. The result is the rest
of the cache and its new counter.
Source: `ast_data_buffer_cache_adjust` ("Remove payloads from the cache") -/
def drainCache (space : ℕ) : List ℕ → ℕ → List ℕ × ℕ
  | [], cacheCount => ([], cacheCount)
  | e :: cache, cacheCount =>
    if space < cacheCount then drainCache space cache (sizeSub cacheCount 1) else (e :: cache, cacheCount)

def DataBuffer.cacheAdjust (self : DataBuffer β) : DataBuffer β :=
  let bufferSpace := toSize (toInt (sizeSub self.max self.count))
  if self.cacheCount = bufferSpace then self
  else if self.cacheCount < bufferSpace then self.fillCache bufferSpace cachedPayloadMax
  else
    let rest := drainCache bufferSpace self.cachedPayloads self.cacheCount
    { self with cachedPayloads := rest.1, cacheCount := rest.2 }

def DataBuffer.alloc (size : ℕ) : DataBuffer β := DataBuffer.cacheAdjust ⟨[], [], 0, size, 0, []⟩

/-- Take payloads from the head as long as `remove` is not zero: what is taken, and the rest.
Source: `ast_data_buffer_resize` -/
def removeHeads : ℤ → List (ℕ × β) → List (ℕ × β) × List (ℕ × β)
  | _, [] => ([], [])
  | remove, e :: payloads =>
    if remove ≠ 0 then
      let rest := removeHeads (remove - 1) payloads
      (e :: rest.1, rest.2)
    else ([], e :: payloads)

def DataBuffer.resize (self : DataBuffer β) (size : ℕ) : DataBuffer β :=
  if self.max = size then self
  else
    let shrunk :=
      if size < self.max then
        let split := removeHeads (toInt (self.max - size)) self.payloads
        { self with
          payloads := split.2
          count := sizeSub self.count split.1.length
          freed := self.freed ++ split.1.map Prod.snd }
      else self
    { shrunk with max := size }.cacheAdjust

/-- Put an entry at its place. There is no result when the position is taken.
Source: `ast_data_buffer_put` ("Given the position find") -/
def insertPayload (pos : ℕ) (payload : β) : List (ℕ × β) → Option (List (ℕ × β))
  | [] => some [(pos, payload)]
  | e :: payloads =>
    if e.1 = pos then none
    else if pos < e.1 then some ((pos, payload) :: e :: payloads)
    else (insertPayload pos payload payloads).map (e :: ·)

/-- Make an entry available: the head of a full buffer, or one from the cache.
Source: `ast_data_buffer_put` -/
def DataBuffer.takeEntry (self : DataBuffer β) : Option (DataBuffer β) :=
  if self.count = self.max then
    match self.payloads with
    | [] => none
    | head :: payloads =>
      some { self with
        payloads := payloads
        count := sizeSub self.count 1
        freed := self.freed ++ [head.2] }
  else
    let self := if self.cacheCount = 0 then self.cacheAdjust else self
    match self.cachedPayloads with
    | [] => none
    | _ :: cache => some { self with cachedPayloads := cache, cacheCount := sizeSub self.cacheCount 1 }

def DataBuffer.put (self : DataBuffer β) (pos : ℕ) (payload : β) : Option (Bool × DataBuffer β) :=
  self.takeEntry.map fun self =>
    match insertPayload pos payload self.payloads with
    | none => (false, self)
    | some payloads => (true, { self with payloads := payloads, count := self.count + 1 })

def DataBuffer.get (self : DataBuffer β) (pos : ℕ) : Option β :=
  (self.payloads.find? fun e => e.1 = pos).map Prod.snd

def DataBuffer.freeBufferPayload (self : DataBuffer β) (pos : ℕ) : DataBuffer β :=
  let self := { self with count := sizeSub self.count 1 }
  if self.cacheCount < cachedPayloadMax ∧ self.cacheCount < sizeSub self.max self.count then
    { self with
      cachedPayloads := self.cachedPayloads ++ [pos]
      cacheCount := self.cacheCount + 1 }
  else self

def DataBuffer.remove (self : DataBuffer β) (pos : ℕ) : Option β × DataBuffer β :=
  match self.payloads.find? fun e => e.1 = pos with
  | none => (none, self)
  | some e =>
    (some e.2,
      { self with payloads := self.payloads.eraseP fun e => e.1 = pos }.freeBufferPayload e.1)

def DataBuffer.removeHead (self : DataBuffer β) : Option (Option β × DataBuffer β) :=
  if 0 < self.count then
    match self.payloads with
    | [] => none
    | e :: payloads => some (some e.2, { self with payloads := payloads }.freeBufferPayload e.1)
  else some (none, self)

/-! ## Runs -/

/-- Source: `include/asterisk/data_buffer.h` -/
inductive DataBufferOp (β : Type)
  | put (pos : ℕ) (payload : β)
  | remove (pos : ℕ)
  | removeHead
  | resize (size : ℕ)
  deriving DecidableEq, Repr

def dataBufferStep (self : DataBuffer β) : DataBufferOp β → Option (DataBuffer β)
  | .put pos payload => (self.put pos payload).map Prod.snd
  | .remove pos => some (self.remove pos).2
  | .removeHead => self.removeHead.map Prod.snd
  | .resize size => some (self.resize size)

def dataBufferRun (ops : List (DataBufferOp β)) (self : DataBuffer β) : Option (DataBuffer β) :=
  ops.foldlM dataBufferStep self

/-! ## The cache -/

structure SameData (c c' : DataBuffer β) : Prop where
  payloads : c'.payloads = c.payloads
  count : c'.count = c.count
  max : c'.max = c.max
  freed : c'.freed = c.freed

variable {space size cacheCount : ℕ} {self s : DataBuffer β} {l : List (ℕ × β)} {op : DataBufferOp β}

lemma fillCache_same (space n : ℕ) : SameData self (self.fillCache space n) := by
  induction n generalizing self with
  | zero => exact ⟨rfl, rfl, rfl, rfl⟩
  | succ n ih =>
    unfold DataBuffer.fillCache
    split_ifs
    · exact ⟨ih.payloads, ih.count, ih.max, ih.freed⟩
    · exact ⟨rfl, rfl, rfl, rfl⟩

lemma cacheAdjust_same (self : DataBuffer β) : SameData self self.cacheAdjust := by
  unfold DataBuffer.cacheAdjust
  dsimp only
  split_ifs
  · exact ⟨rfl, rfl, rfl, rfl⟩
  · exact fillCache_same _ _
  · exact ⟨rfl, rfl, rfl, rfl⟩

/-- Filling the cache. Induction on the rounds that are left; there are enough of them. -/
lemma fillCache_spec (n : ℕ) (hle : self.cacheCount ≤ min cachedPayloadMax space)
    (hn : min cachedPayloadMax space ≤ self.cacheCount + n)
    (hlen : self.cachedPayloads.length = self.cacheCount) :
    (self.fillCache space n).cacheCount = min cachedPayloadMax space ∧
      (self.fillCache space n).cachedPayloads.length = min cachedPayloadMax space := by
  induction n generalizing self with
  | zero => exact ⟨by simp only [DataBuffer.fillCache]; omega, by simp only [DataBuffer.fillCache]; omega⟩
  | succ n ih =>
    unfold DataBuffer.fillCache
    split_ifs with hroom
    · have hlen' : (self.cachedPayloads ++ [2 ^ 64 - 1]).length = self.cacheCount + 1 := by
        rw [length_append, hlen, length_singleton]
      have hle' : self.cacheCount + 1 ≤ min cachedPayloadMax space := by omega
      have hn' : min cachedPayloadMax space ≤ self.cacheCount + 1 + n := by omega
      exact ih hle' hn' hlen'
    · exact ⟨by omega, by omega⟩

lemma drainCache_spec (cache : List ℕ) (hle : space ≤ cacheCount) (hlt : cacheCount < 2 ^ 64)
    (hlen : cache.length = cacheCount) :
    (drainCache space cache cacheCount).1.length = space ∧ (drainCache space cache cacheCount).2 = space := by
  induction cache generalizing cacheCount with
  | nil =>
    rw [length_nil] at hlen
    exact ⟨by simp only [drainCache, length_nil]; omega, by simp only [drainCache]; omega⟩
  | cons e cache ih =>
    rw [length_cons] at hlen
    unfold drainCache
    split_ifs with hmore
    · have hsub : sizeSub cacheCount 1 = cacheCount - 1 := sizeSub_of_le (by omega) hlt
      exact ih (by omega) (by omega) (by omega)
    · exact ⟨by rw [length_cons]; omega, by omega⟩

lemma cacheAdjust_spec (hle : self.count ≤ self.max) (hmax : self.max < 2 ^ 32)
    (hca : self.cacheCount ≤ cachedPayloadMax) (hlen : self.cachedPayloads.length = self.cacheCount) :
    self.cacheAdjust.cacheCount = min cachedPayloadMax (self.max - self.count) ∧
      self.cacheAdjust.cachedPayloads.length = self.cacheAdjust.cacheCount := by
  have hfive : cachedPayloadMax = 5 := rfl
  have hspc := toSize_toInt (n := sizeSub self.max self.count) (by rw [sizeSub_of_le hle (by omega)]; omega)
  rw [sizeSub_of_le hle (by omega)] at hspc
  unfold DataBuffer.cacheAdjust
  rw [sizeSub_of_le hle (by omega)]
  set space := toSize (toInt (self.max - self.count)) with hset
  have hmin : min cachedPayloadMax space = min cachedPayloadMax (self.max - self.count) := by omega
  dsimp only
  split_ifs with heq hlt
  · exact ⟨by omega, hlen⟩
  · have hlow : self.cacheCount ≤ min cachedPayloadMax space := by omega
    obtain ⟨hcnt, hleng⟩ := fillCache_spec cachedPayloadMax hlow (by omega) hlen
    exact ⟨by rw [hcnt, hmin], by rw [hcnt, hleng]⟩
  · have hhigh : space ≤ self.cacheCount := by omega
    obtain ⟨hleng, hcnt⟩ := drainCache_spec self.cachedPayloads hhigh (by omega) hlen
    exact ⟨by simp only [hcnt]; omega, by simp [hcnt, hleng]⟩

/-! ## The list of payloads -/

def Increasing (l : List (ℕ × β)) : Prop := l.Pairwise fun a b => a.1 < b.1

/-- **A new payload** stands at its place, unless its position is taken. Induction on the list. -/
lemma insertPayload_spec {pos : ℕ} {payload : β} (h : Increasing l) :
    (insertPayload pos payload l = none ∧ pos ∈ l.map Prod.fst) ∨
      ∃ l', insertPayload pos payload l = some l' ∧ pos ∉ l.map Prod.fst ∧ Increasing l' ∧
        l'.Perm ((pos, payload) :: l) := by
  induction l with
  | nil => exact .inr ⟨_, rfl, by simp, pairwise_singleton _ _, List.Perm.refl _⟩
  | cons e l ih =>
    obtain ⟨hhead, htail⟩ := pairwise_cons.mp h
    unfold insertPayload
    by_cases heq : e.1 = pos
    · exact .inl ⟨if_pos heq, by simp [heq]⟩
    rw [if_neg heq]
    by_cases hlt : pos < e.1
    · rw [if_pos hlt]
      refine .inr ⟨_, rfl, ?_, ?_, List.Perm.refl _⟩
      · intro hmem
        rcases mem_cons.mp hmem with hpos | hmem
        · exact heq hpos.symm
        · obtain ⟨x, hx, rfl⟩ := mem_map.mp hmem
          exact absurd (hhead x hx) (by omega)
      · refine pairwise_cons.mpr ⟨fun x hx => ?_, h⟩
        rcases mem_cons.mp hx with rfl | hx
        · exact hlt
        · exact hlt.trans (hhead x hx)
    rw [if_neg hlt]
    rcases ih htail with ⟨hnone, hmem⟩ | ⟨l', hsome, hnot, hinc, hperm⟩
    · exact .inl ⟨by rw [hnone, map_none], mem_cons_of_mem _ hmem⟩
    refine .inr ⟨e :: l', by rw [hsome, map_some], ?_, ?_, ?_⟩
    · intro hmem
      rcases mem_cons.mp hmem with hpos | hmem
      · exact heq hpos.symm
      · exact hnot hmem
    · refine pairwise_cons.mpr ⟨fun x hx => ?_, hinc⟩
      rcases mem_cons.mp (hperm.mem_iff.mp hx) with rfl | hx
      · omega
      · exact hhead x hx
    · exact (hperm.cons e).trans (List.Perm.swap _ _ _)

/-- Taking payloads from the head: all of them, or as many as asked for. Induction on the list. -/
lemma removeHeads_spec (remove : ℤ) (l : List (ℕ × β)) :
    ∃ j, removeHeads remove l = (l.take j, l.drop j) ∧
      (j = l.length ∧ (remove < 0 ∨ l.length ≤ remove) ∨ (j : ℤ) = remove) ∧ j ≤ l.length := by
  induction l generalizing remove with
  | nil => exact ⟨0, rfl, .inl ⟨rfl, lt_or_ge remove 0⟩, le_rfl⟩
  | cons e l ih =>
    by_cases hzero : remove = 0
    · exact ⟨0, by simp [removeHeads, hzero], .inr (by simp [hzero]), Nat.zero_le _⟩
    obtain ⟨j, hj, hcnt, hle⟩ := ih (remove - 1)
    refine ⟨j + 1, by simp [removeHeads, hzero, hj], ?_, by simpa using hle⟩
    rw [length_cons]
    omega

/-! ## Valid buffers -/

structure DataBuffer.Valid (c : DataBuffer β) : Prop where
  increasing : Increasing c.payloads
  count_eq : c.payloads.length = c.count
  count_le : c.count ≤ c.max
  cacheCount_eq : c.cachedPayloads.length = c.cacheCount
  cacheCount_le : c.cacheCount ≤ min cachedPayloadMax (c.max - c.count)

lemma valid_cacheAdjust (hinc : Increasing self.payloads) (hcnt : self.payloads.length = self.count)
    (hle : self.count ≤ self.max) (hmax : self.max < 2 ^ 32) (hca : self.cacheCount ≤ cachedPayloadMax)
    (hlen : self.cachedPayloads.length = self.cacheCount) : self.cacheAdjust.Valid := by
  obtain ⟨hfull, hleng⟩ := cacheAdjust_spec hle hmax hca hlen
  have hsame := cacheAdjust_same self
  refine ⟨?_, ?_, ?_, hleng, ?_⟩
  · rwa [hsame.payloads]
  · rw [hsame.payloads, hsame.count, hcnt]
  · rwa [hsame.count, hsame.max]
  · rw [hfull, hsame.count, hsame.max]

lemma alloc_valid (hsize : size < 2 ^ 32) :
    (DataBuffer.alloc size : DataBuffer β).Valid ∧ (DataBuffer.alloc size : DataBuffer β).max = size := by
  exact ⟨valid_cacheAdjust List.Pairwise.nil rfl (Nat.zero_le _) hsize (Nat.zero_le _) rfl, (cacheAdjust_same _).max⟩

section Valid

variable (h : self.Valid) (hmax : self.max < 2 ^ 32)

include h hmax

lemma DataBuffer.Valid.takeEntry (hpos : 0 < self.max) :
    ∃ s, self.takeEntry = some s ∧ Increasing s.payloads ∧ s.payloads.length = s.count ∧
      s.count < s.max ∧ s.max = self.max ∧ s.cachedPayloads.length = s.cacheCount ∧
      s.cacheCount ≤ min cachedPayloadMax (s.max - (s.count + 1)) ∧
      (self.count < self.max → s.payloads = self.payloads) := by
  have hfive : cachedPayloadMax = 5 := rfl
  have hcnt := h.count_eq
  have hle := h.count_le
  have hca := h.cacheCount_le
  unfold DataBuffer.takeEntry
  by_cases hfull : self.count = self.max
  · rw [if_pos hfull]
    cases hlist : self.payloads with
    | nil =>
      rw [hlist, length_nil] at hcnt
      omega
    | cons head payloads =>
      have hinc := h.increasing
      rw [hlist] at hinc hcnt
      rw [length_cons] at hcnt
      have hsub : sizeSub self.count 1 = self.count - 1 := sizeSub_of_le (by omega) (by omega)
      refine ⟨_, rfl, (pairwise_cons.mp hinc).2, ?_, ?_, rfl, h.cacheCount_eq, ?_, fun hlt => ?_⟩
      · simp only [hsub]
        omega
      · simp only [hsub]
        omega
      · simp only [hsub]
        omega
      · omega
  rw [if_neg hfull]
  -- either way the cache has an entry now
  obtain ⟨s, hs, hsame, hlen, hlow, hhigh⟩ : ∃ s : DataBuffer β,
      (if self.cacheCount = 0 then self.cacheAdjust else self) = s ∧ SameData self s ∧
        s.cachedPayloads.length = s.cacheCount ∧ 0 < s.cacheCount ∧
        s.cacheCount ≤ min cachedPayloadMax (self.max - self.count) := by
    split_ifs with hemp
    · obtain ⟨hcnt', hlen'⟩ := cacheAdjust_spec hle hmax (by omega) h.cacheCount_eq
      exact ⟨_, rfl, cacheAdjust_same _, hlen', by omega, hcnt'.le⟩
    · exact ⟨_, rfl, ⟨rfl, rfl, rfl, rfl⟩, h.cacheCount_eq, by omega, hca⟩
  simp only [hs]
  cases hlist : s.cachedPayloads with
  | nil =>
    rw [hlist, length_nil] at hlen
    omega
  | cons e cache =>
    rw [hlist, length_cons] at hlen
    have hsub : sizeSub s.cacheCount 1 = s.cacheCount - 1 := sizeSub_of_le (by omega) (by omega)
    refine ⟨_, rfl, ?_, ?_, ?_, hsame.max, ?_, ?_, fun _ => hsame.payloads⟩
    · simp only [hsame.payloads]
      exact h.increasing
    · simp only [hsame.payloads, hsame.count]
      exact hcnt
    · simp only [hsame.count, hsame.max]
      omega
    · simp only [hsub]
      omega
    · simp only [hsame.count, hsame.max]
      omega

lemma DataBuffer.Valid.put (hpos : 0 < self.max) (pos : ℕ) (payload : β) :
    ∃ ok s, self.put pos payload = some (ok, s) ∧ s.Valid ∧ s.max = self.max ∧
      (self.count < self.max →
        (pos ∈ self.payloads.map Prod.fst ∧ ok = false ∧ s.payloads = self.payloads) ∨
        (pos ∉ self.payloads.map Prod.fst ∧ ok = true ∧ s.payloads.Perm ((pos, payload) :: self.payloads))) := by
  obtain ⟨s, htake, hinc, hcnt, hlt, hsmax, hlen, hca, hkeep⟩ := h.takeEntry hmax hpos
  rw [DataBuffer.put, htake, map_some]
  rcases @insertPayload_spec _ _ pos payload hinc with
    ⟨hnone, hmem⟩ | ⟨l', hsome, hnot, hinc', hperm⟩
  · refine ⟨false, s, by rw [hnone], ⟨hinc, hcnt, hlt.le, hlen, by omega⟩, hsmax, fun hroom => ?_⟩
    rw [hkeep hroom] at hmem
    exact .inl ⟨hmem, rfl, hkeep hroom⟩
  have hleng : l'.length = s.count + 1 := by rw [hperm.length_eq, length_cons, hcnt]
  refine ⟨true, { s with payloads := l', count := s.count + 1 }, by rw [hsome],
    ⟨hinc', hleng, hlt, hlen, hca⟩, hsmax, fun hroom => ?_⟩
  rw [hkeep hroom] at hnot hperm
  exact .inr ⟨hnot, rfl, hperm⟩

lemma DataBuffer.Valid.freeBufferPayload (hsub : l.Sublist self.payloads)
    (hlen : l.length + 1 = self.count) (pos : ℕ) :
    ({ self with payloads := l }.freeBufferPayload pos).Valid ∧
      ({ self with payloads := l }.freeBufferPayload pos).max = self.max ∧
      ({ self with payloads := l }.freeBufferPayload pos).payloads = l := by
  have hle := h.count_le
  have hca := h.cacheCount_le
  have hcnt : sizeSub self.count 1 = self.count - 1 := sizeSub_of_le (by omega) (by omega)
  have hspc : sizeSub self.max (self.count - 1) = self.max - (self.count - 1) :=
    sizeSub_of_le (by omega) (by omega)
  unfold DataBuffer.freeBufferPayload
  simp only [hcnt, hspc]
  split_ifs with hroom
  · refine ⟨⟨h.increasing.sublist hsub, ?_, ?_, ?_, ?_⟩, rfl, rfl⟩
    · simp only
      omega
    · simp only
      omega
    · rw [length_append, h.cacheCount_eq, length_singleton]
    · simp only
      omega
  · refine ⟨⟨h.increasing.sublist hsub, ?_, ?_, h.cacheCount_eq, ?_⟩, rfl, rfl⟩
    all_goals
      simp only
      omega

lemma DataBuffer.Valid.remove (pos : ℕ) :
    (self.remove pos).2.Valid ∧ (self.remove pos).2.max = self.max ∧
      (self.remove pos).1 = self.get pos ∧
      (self.remove pos).2.payloads = self.payloads.eraseP fun e => e.1 = pos := by
  unfold DataBuffer.remove DataBuffer.get
  cases hfind : self.payloads.find? fun e => e.1 = pos with
  | none =>
    refine ⟨h, rfl, rfl, (eraseP_of_forall_not fun e he => ?_).symm⟩
    simpa using find?_eq_none.mp hfind e he
  | some e =>
    have hmem := mem_of_find?_eq_some hfind
    have hpos := find?_some hfind
    have hlen := length_eraseP_of_mem (p := fun e => decide (e.1 = pos)) hmem hpos
    have hpositive := length_pos_of_mem hmem
    have hcnt := h.count_eq
    obtain ⟨hval, hmax', hlist⟩ := h.freeBufferPayload hmax eraseP_sublist (by rw [hlen]; omega) e.1
    exact ⟨hval, hmax', rfl, hlist⟩

lemma DataBuffer.Valid.removeHead : ∃ res s, self.removeHead = some (res, s) ∧ s.Valid ∧ s.max = self.max := by
  have hcnt := h.count_eq
  unfold DataBuffer.removeHead
  split_ifs with hpos
  · cases hlist : self.payloads with
    | nil =>
      rw [hlist, length_nil] at hcnt
      omega
    | cons e payloads =>
      rw [hlist] at hcnt
      obtain ⟨hval, hmax', -⟩ := h.freeBufferPayload hmax (hlist ▸ sublist_cons_self e payloads) hcnt e.1
      exact ⟨some e.2, _, rfl, hval, hmax'⟩
  · exact ⟨none, self, rfl, h, rfl⟩

lemma DataBuffer.Valid.resize (hsize : size < 2 ^ 32) :
    (self.resize size).Valid ∧ (self.resize size).max = size ∧
      (self.max ≤ size → (self.resize size).payloads = self.payloads) := by
  have hcnt := h.count_eq
  have hle := h.count_le
  have hca := h.cacheCount_le
  unfold DataBuffer.resize
  by_cases hsame : self.max = size
  · rw [if_pos hsame]
    exact ⟨h, hsame, fun _ => rfl⟩
  rw [if_neg hsame]
  by_cases hless : size < self.max
  · simp only [if_pos hless]
    obtain ⟨j, hspl, hj, hjle⟩ := removeHeads_spec (toInt (self.max - size)) self.payloads
    simp only [hspl]
    -- what remains fits: all payloads are taken when the difference turned negative
    have hremain : self.payloads.length - j ≤ size := by
      rcases hj with hall | hsome
      · omega
      · unfold toInt int32 at hsome
        rw [Int.bmod_def] at hsome
        split_ifs at hsome <;> omega
    have hsub : sizeSub self.count (self.payloads.take j).length = self.count - j := by
      rw [length_take, Nat.min_eq_left hjle, sizeSub_of_le (by omega) (by omega)]
    rw [hsub]
    have hlen : (self.payloads.drop j).length = self.count - j := by rw [length_drop, hcnt]
    refine ⟨valid_cacheAdjust (h.increasing.sublist (drop_sublist _ _)) hlen
      (by simp only; omega) hsize (by simp only; omega) h.cacheCount_eq, (cacheAdjust_same _).max,
      fun hge => ?_⟩
    omega
  · simp only [if_neg hless]
    exact ⟨valid_cacheAdjust h.increasing hcnt (by simp only; omega) hsize (by simp only; omega)
      h.cacheCount_eq, (cacheAdjust_same _).max, fun _ => (cacheAdjust_same _).payloads⟩

end Valid

/-! ## Every run -/

def DataBufferOp.SizeOk : DataBufferOp β → Prop
  | .resize size => 1 ≤ size ∧ size < 2 ^ 32
  | _ => True

lemma dataBufferStep_valid (h : self.Valid) (hpos : 0 < self.max) (hmax : self.max < 2 ^ 32) (hop : op.SizeOk) :
    ∃ s, dataBufferStep self op = some s ∧ s.Valid ∧ 0 < s.max ∧ s.max < 2 ^ 32 := by
  cases op with
  | put pos payload =>
    obtain ⟨ok, s, hput, hval, hsmax, -⟩ := h.put hmax hpos pos payload
    exact ⟨s, by rw [dataBufferStep, hput, map_some], hval, by omega, by omega⟩
  | remove pos =>
    obtain ⟨hval, hsmax, -⟩ := h.remove hmax pos
    exact ⟨_, rfl, hval, by omega, by omega⟩
  | removeHead =>
    obtain ⟨res, s, hrem, hval, hsmax⟩ := h.removeHead hmax
    exact ⟨s, by rw [dataBufferStep, hrem, map_some], hval, by omega, by omega⟩
  | resize size =>
    obtain ⟨hval, hsmax, -⟩ := h.resize hmax hop.2
    exact ⟨_, rfl, hval, by rw [hsmax]; exact hop.1, by rw [hsmax]; exact hop.2⟩

lemma dataBufferRun_alloc (hpos : 1 ≤ size) (hsize : size < 2 ^ 32) (ops : List (DataBufferOp β))
    (hops : ∀ op ∈ ops, op.SizeOk) :
    ∃ s, dataBufferRun ops (DataBuffer.alloc size) = some s ∧ s.Valid ∧ 0 < s.max ∧ s.max < 2 ^ 32 := by
  obtain ⟨hval, hmax⟩ := alloc_valid hsize
  exact foldlM_total (fun op hop s h => dataBufferStep_valid h.1 h.2.1 h.2.2 (hops op hop))
    ⟨hval, by rw [hmax]; exact hpos, by rw [hmax]; exact hsize⟩

/-- **The data buffer in every run.** Any operations on a new buffer succeed and leave it valid, as
long as every size is at least one and below 2^32. -/
theorem dataBufferRun_valid {size : ℕ} (hpos : 1 ≤ size) (hsize : size < 2 ^ 32)
    (ops : List (DataBufferOp β)) (hops : ∀ op ∈ ops, op.SizeOk) :
    ∃ s, dataBufferRun ops (DataBuffer.alloc size) = some s ∧ s.Valid := by
  obtain ⟨s, hrun, hval, -⟩ := dataBufferRun_alloc hpos hsize ops hops
  exact ⟨s, hrun, hval⟩

/-- A run with an eviction, a duplicate, a removal and a smaller size. -/
theorem dataBufferRun_valid_evicts :
    dataBufferRun [.put 3 'a', .put 1 'b', .put 2 'c', .put 3 'd', .resize 4, .put 7 'e', .remove 3,
        .resize 1] (DataBuffer.alloc 2) =
      some ⟨[], [3], 0, 1, 1, ['b', 'c', 'e']⟩ ∧
    ∃ s, dataBufferRun [.put 3 'a', .put 1 'b', .put 2 'c', .put 3 'd', .resize 4, .put 7 'e', .remove 3,
        .resize 1] (DataBuffer.alloc 2) = some s ∧ s.Valid := by
  refine ⟨by decide, dataBufferRun_valid (by decide) (by decide) _ ?_⟩
  simp [DataBufferOp.SizeOk]

/-- **A buffer of 2^32 payloads** has an empty cache, because the space that is left is taken for
zero, and the first put follows a null pointer. -/
theorem dataBufferRun_null : dataBufferRun [.put 0 'a'] (DataBuffer.alloc (2 ^ 32)) = none := by
  decide

/-! ## Rejected puts and smaller sizes

The lemmas on the payloads hold with every size; the cache plays no part in them. -/

lemma alloc_payloads (size : ℕ) : (DataBuffer.alloc size : DataBuffer β).payloads = [] :=
  (cacheAdjust_same _).payloads

lemma takeEntry_of_full (hfull : self.count = self.max)
    (htake : self.takeEntry = some s) : ∃ head, self.payloads = head :: s.payloads := by
  rw [DataBuffer.takeEntry, if_pos hfull] at htake
  cases hlist : self.payloads with
  | nil => simp [hlist] at htake
  | cons head payloads =>
    rw [hlist] at htake
    obtain rfl := Option.some.inj htake
    exact ⟨head, rfl⟩

lemma takeEntry_of_room (hroom : self.count ≠ self.max)
    (htake : self.takeEntry = some s) : s.payloads = self.payloads ∧ s.count = self.count := by
  rw [DataBuffer.takeEntry, if_neg hroom] at htake
  have hsame : SameData self (if self.cacheCount = 0 then self.cacheAdjust else self) := by
    split_ifs
    · exact cacheAdjust_same self
    · exact ⟨rfl, rfl, rfl, rfl⟩
  revert htake
  dsimp only
  split
  · exact fun htake => absurd htake (by simp)
  · intro htake
    obtain rfl := Option.some.inj htake
    exact ⟨hsame.payloads, hsame.count⟩

lemma takeEntry_suffix (htake : self.takeEntry = some s) : s.payloads <:+ self.payloads := by
  by_cases hfull : self.count = self.max
  · obtain ⟨head, hlist⟩ := takeEntry_of_full hfull htake
    exact hlist ▸ suffix_cons head _
  · exact (takeEntry_of_room hfull htake).1 ▸ suffix_refl _

lemma resize_payloads (self : DataBuffer β) (size : ℕ) :
    ∃ j ≤ self.payloads.length, (self.resize size).payloads = self.payloads.drop j ∧
      (self.max ≤ size → j = 0) ∧
      (size < self.max → j = self.payloads.length ∧
          (toInt (self.max - size) < 0 ∨ self.payloads.length ≤ toInt (self.max - size)) ∨
        (j : ℤ) = toInt (self.max - size)) := by
  unfold DataBuffer.resize
  by_cases hsame : self.max = size
  · exact ⟨0, Nat.zero_le _, by rw [if_pos hsame]; rfl, fun _ => rfl, by omega⟩
  rw [if_neg hsame]
  by_cases hless : size < self.max
  · obtain ⟨j, hspl, hj, hle⟩ := removeHeads_spec (toInt (self.max - size)) self.payloads
    simp only [if_pos hless, hspl]
    exact ⟨j, hle, (cacheAdjust_same _).payloads, by omega, fun _ => hj⟩
  · simp only [if_neg hless]
    exact ⟨0, Nat.zero_le _, (cacheAdjust_same _).payloads, fun _ => rfl, by omega⟩

lemma put_payloads {pos : ℕ} {payload : β} {ok : Bool} (h : Increasing self.payloads)
    (hput : self.put pos payload = some (ok, s)) :
    Increasing s.payloads ∧ ∃ l, l <:+ self.payloads ∧
      if ok then s.payloads.Perm ((pos, payload) :: l) else s.payloads = l := by
  obtain ⟨c, htake, hc⟩ := map_eq_some_iff.mp hput
  have hsuf := takeEntry_suffix htake
  have hinc := h.sublist hsuf.sublist
  rcases @insertPayload_spec _ _ pos payload hinc with ⟨hnone, -⟩ | ⟨l', hsome, -, hinc', hperm⟩
  · rw [hnone] at hc
    cases hc
    exact ⟨hinc, _, hsuf, rfl⟩
  · rw [hsome] at hc
    cases hc
    exact ⟨hinc', _, hsuf, hperm⟩

/-- The payloads that stay when the next one comes: the head of a full buffer goes away.
Source: `ast_data_buffer_put` ("If the data buffer has reached its maximum size") -/
def DataBuffer.remaining (self : DataBuffer β) : List (ℕ × β) :=
  if self.count = self.max then self.payloads.tail else self.payloads

/-- A put is not accepted when the position is taken or there is no entry. -/
lemma put_refused_iff {pos : ℕ} (h : Increasing self.payloads) (payload : β) :
    (∀ s, self.put pos payload ≠ some (true, s)) ↔
      pos ∈ self.remaining.map Prod.fst ∨ self.takeEntry = none := by
  cases htake : self.takeEntry with
  | none => simp [DataBuffer.put, htake]
  | some c =>
    have hrem : self.remaining = c.payloads := by
      unfold DataBuffer.remaining
      split_ifs with hfull
      · obtain ⟨head, hlist⟩ := takeEntry_of_full hfull htake
        rw [hlist, tail_cons]
      · exact (takeEntry_of_room hfull htake).1.symm
    have hinc := h.sublist (takeEntry_suffix htake).sublist
    simp only [DataBuffer.put, htake, map_some, hrem, reduceCtorEq, or_false]
    rcases @insertPayload_spec _ _ pos payload hinc with ⟨hnone, hmem⟩ | ⟨l', hsome, hnot, -⟩
    · simp [hnone, hmem]
    · simp [hsome, hnot]

/-- **A put at a position that is taken**, in every run with sizes of at least one and below 2^32,
is reported and leaves the payloads and their number as they were exactly when the buffer is not
full: a full buffer first drops its head. -/
theorem put_taken_iff (hpos : 1 ≤ size) (hsize : size < 2 ^ 32) {ops : List (DataBufferOp β)}
    (hops : ∀ op ∈ ops, op.SizeOk) (hrun : dataBufferRun ops (DataBuffer.alloc size) = some self) {pos : ℕ}
    (hmem : pos ∈ self.payloads.map Prod.fst) (payload : β) :
    (∃ s, self.put pos payload = some (false, s) ∧ s.payloads = self.payloads ∧ s.count = self.count) ↔
      self.count ≠ self.max := by
  obtain ⟨s', hrun', hval, hpos', hmax⟩ := dataBufferRun_alloc hpos hsize ops hops
  obtain rfl := Option.some.inj (hrun.symm.trans hrun')
  constructor
  · rintro ⟨s, hput, hpays, -⟩ hfull
    obtain ⟨c, htake, hc⟩ := map_eq_some_iff.mp hput
    obtain ⟨head, hlist⟩ := takeEntry_of_full hfull htake
    -- the head is gone, and a rejected put does not bring it back
    cases hput : insertPayload pos payload c.payloads with
    | none =>
      rw [hput] at hc
      obtain ⟨-, rfl⟩ := Prod.mk.inj hc
      simp [hlist] at hpays
    | some l' => simp [hput] at hc
  · intro hroom
    obtain ⟨ok, s, hput, hval', -, hcases⟩ := hval.put hmax hpos' pos payload
    rcases hcases (lt_of_le_of_ne hval.count_le hroom) with ⟨-, rfl, hpays⟩ | ⟨hnot, -, -⟩
    · exact ⟨s, hput, hpays, by rw [← hval'.count_eq, hpays, hval.count_eq]⟩
    · exact absurd hmem hnot

theorem put_taken_iff_room :
    ∃ s, DataBuffer.put ⟨[(1, 'a'), (2, 'b')], [2 ^ 64 - 1], 2, 3, 1, []⟩ 1 'c' = some (false, s) ∧
      s.payloads = [(1, 'a'), (2, 'b')] ∧ s.count = 2 :=
  (@put_taken_iff _ 3 _ (by decide) (by decide) [.put 2 'b', .put 1 'a'] (by simp [DataBufferOp.SizeOk])
    (by decide) 1 (by decide) 'c').mpr (by decide)

/-- A full buffer of two loses the payload at 1 when the position 2 is put again. -/
theorem put_taken_drops_head :
    (dataBufferRun [.put 1 'a', .put 2 'b'] (DataBuffer.alloc 2)).bind (fun s => s.put 2 'c') =
      some (false, ⟨[(2, 'b')], [], 1, 2, 0, ['a']⟩) := by
  decide

/-- **A new size** keeps exactly the payloads that still fit when it is no smaller and all of them
fit, when there are none, or when the difference of the sizes, as an `int`, is the number of those
that do not fit. -/
theorem resize_keeps_iff (self : DataBuffer β) {size : ℕ} (hsize : 1 ≤ size) :
    (self.resize size).payloads = self.payloads.drop (self.payloads.length - size) ↔
      if self.max ≤ size then self.payloads.length ≤ size
      else self.payloads = [] ∨ toInt (self.max - size) = (self.payloads.length - size : ℕ) := by
  obtain ⟨j, hj, hpays, hgrow, hshr⟩ := resize_payloads self size
  have hdrop : self.payloads.drop j = self.payloads.drop (self.payloads.length - size) ↔
      j = self.payloads.length - size := by
    refine ⟨fun heq => ?_, fun heq => by rw [heq]⟩
    have hlen := congrArg length heq
    rw [length_drop, length_drop] at hlen
    omega
  rw [hpays, hdrop, ← length_eq_zero_iff]
  split_ifs with hle <;> omega

theorem resize_keeps_iff_full : (DataBuffer.resize ⟨[(1, 'a'), (2, 'b')], [], 2, 2, 0, []⟩ 1).payloads = [(2, 'b')] :=
  (resize_keeps_iff _ le_rfl).mpr (by decide)

/-- Two payloads in a buffer of four: with the new size three one of them is dropped. -/
theorem resize_drops_fitting :
    (dataBufferRun [.put 1 'a', .put 2 'b', .resize 3] (DataBuffer.alloc 4)).map DataBuffer.payloads =
      some [(2, 'b')] := by
  decide

/-- In every run, what a new size keeps are the payloads with the highest positions. -/
theorem resize_keeps_highest (hpos : 1 ≤ size) (hsize : size < 2 ^ 32) {ops : List (DataBufferOp β)}
    (hops : ∀ op ∈ ops, op.SizeOk) (hrun : dataBufferRun ops (DataBuffer.alloc size) = some self) (newSize : ℕ) :
    ∀ e ∈ self.payloads, e ∉ (self.resize newSize).payloads →
      ∀ f ∈ (self.resize newSize).payloads, e.1 < f.1 := by
  obtain ⟨s', hrun', hval, -⟩ := dataBufferRun_alloc hpos hsize ops hops
  obtain rfl := Option.some.inj (hrun.symm.trans hrun')
  obtain ⟨j, -, hpays, -⟩ := resize_payloads self newSize
  have hinc := hval.increasing
  intro e he hnot f hf
  rw [hpays] at hnot hf
  rw [Increasing, ← take_append_drop j self.payloads, pairwise_append] at hinc
  rw [← take_append_drop j self.payloads, mem_append] at he
  exact hinc.2.2 e (he.resolve_right hnot) f hf

end Operations

end Telephony.Buffer
