import Telephony.Lib.Runs
import Telephony.StringFields.Texts

/-!
# String fields read back what was stored

The four ways to claim space round the used part of a pool in different ways:
`__ast_string_field_ptr_grow` adds the bytes that a field needs, the others round up to an even
number. When a field that is set grows by an odd number, an odd number of bytes is left, and a text
that is built just into this space rounds the used part over the end of the pool. A field that is
the last one of an embedded pool must not leave it while another pool is the head: the pool would be
freed, although it is a part of the block of its structure.
-/

set_option linter.unusedSectionVars false

namespace Telephony.StringFields

open Lib List Function Nat

section Sound

variable {ι : Type} [Fintype ι] [DecidableEq ι]

/-! ## What an operation does -/

def Op.text : Op ι → Option CString
  | .set _ data => data
  | .build _ text => some text
  | .reset => none

namespace Storage

/-- The number of bytes that are allocated for the field of an operation, if it does not stay in its
place. -/
def moved (self : Storage ι) : Op ι → Option ℕ
  | .set _ none => none
  | .set i (some data) =>
    if data.bytes = [] ∨ data.length + 1 ≤ self.arena.allocation (self.fields i) ∨
      (self.arena.ptrGrow (data.length + 1) (self.fields i)).isSome then none
    else some (data.length + 1)
  | .build i text =>
    if text.bytes = [] ∨ text.length + 1 ≤ self.available i then none else some (text.length + 1)
  | .reset => none

def released (self : Storage ι) : Op ι → FieldPtr
  | .set i data =>
    if (data.getD .empty).bytes = [] ∨ (self.moved (.set i data)).isSome then self.fields i else .empty
  | .build i text =>
    if text.bytes = [] ∨ (self.moved (.build i text)).isSome then self.fields i else .empty
  | .reset => .empty

def behind (self : Storage ι) (op : Op ι) : List Pool :=
  match self.moved op with
  | none => self.arena.prev
  | some n => self.arena.behind n

/-- By how much the used part of the head pool goes up for a text that is built in place. -/
def taken (self : Storage ι) : Op ι → ℕ
  | .build i text =>
    if text.bytes = [] ∨ self.available i < text.length + 1 then 0
    else
      match self.fields i with
      | .empty => makeRoomFor (text.length + 1) allocationAlign
      | .at a => alignFor (text.length + 1 - self.arena.allocation (.at a)) allocationAlign
  | _ => 0

/-- The text is shorter than 65535 bytes, and the heap has a block for a new pool. -/
def Ordinary (self : Storage ι) (c : Call ι) : Prop :=
  (∀ text ∈ c.op.text, text.length < 65535) ∧ ∀ n ∈ self.moved c.op, (self.arena.allocSpace c.heap n).isSome = true

def Careful (self : Storage ι) (c : Call ι) : Prop :=
  self.arena.head.used + self.taken c.op ≤ self.arena.head.size ∧
    ∀ p ∈ self.behind c.op, self.arena.embedded = some p.base → ¬ self.arena.LastOf p (self.released c.op)

instance (self : Storage ι) (c : Call ι) : Decidable (self.Ordinary c) := by
  unfold Ordinary
  infer_instance

instance (self : Storage ι) (c : Call ι) : Decidable (self.Careful c) := by
  unfold Careful
  infer_instance

/-- Source: `ast_string_field_init`, `ast_calloc_with_stringfields` -/
def Starts (self : Storage ι) : Prop :=
  (∃ heap mem needed, 0 < needed ∧ Storage.init ι heap mem needed = some self) ∨
    ∃ heap mem structSize poolSize, Storage.callocWithStringfields ι heap mem structSize poolSize = some self

/-- No pool is filled over its end, and the fields lie in the pools, apart from each other. -/
structure Sound (storage : Storage ι) : Prop where
  used_le : ∀ p ∈ storage.arena.chain, p.used ≤ p.size
  inside : ∀ i a, storage.fields i = .at a → ∃ p ∈ storage.arena.chain, p.base ≤ a ∧
    a + storage.arena.allocation (.at a) ≤ p.base + p.size
  disjoint : ∀ i j a b, i ≠ j → storage.fields i = .at a → storage.fields j = .at b →
    a + storage.arena.allocation (.at a) ≤ b ∨ b + storage.arena.allocation (.at b) ≤ a

/-- The active bytes of a pool are those of the fields in it, so that it is given up with its last
field only. -/
structure Accounts (storage : Storage ι) : Prop where
  active : ∀ p ∈ storage.arena.chain, p.active = ∑ i, p.share (storage.arena.slot (storage.fields i))
  alone : ∀ p ∈ storage.arena.chain, ∀ i a, storage.fields i = .at a → p.Contains a →
    sizeSub p.active (storage.arena.allocation (.at a)) = 0 →
    ∀ j b, j ≠ i → storage.fields j = .at b → ¬ p.Contains b

end Storage

/-! ## Fields as owners -/

def owners (fields : ι → FieldPtr) : Option ι → FieldPtr
  | none => .empty
  | some i => fields i

variable {fields : ι → FieldPtr} {i : ι}

section

variable (fields : ι → FieldPtr) (i : ι) (ptr : FieldPtr)

lemma owners_update : owners (update fields i ptr) = update (owners fields) (some i) ptr := by
  funext j
  cases j with
  | none => rfl
  | some j =>
    by_cases hji : j = i
    · subst hji
      simp [owners]
    · simp [owners, hji]

lemma owners_moved : update (update (owners fields) none ptr) (some i) .empty ∘ Equiv.swap none (some i) =
      owners (update fields i ptr) := by
  funext j
  rw [comp_apply]
  cases j with
  | none => simp [owners]
  | some j =>
    by_cases hji : j = i
    · subst hji
      simp [owners]
    · rw [Equiv.swap_apply_of_ne_of_ne (by simp) (by simpa using hji)]
      simp [owners, hji]

end

lemma owners_slot {arena : Arena} {a : ℕ} (hi : fields i = .at a) :
    arena.slot (owners fields (some i)) = some ⟨a, arena.allocation (.at a)⟩ :=
  Arena.slot_at (k := some i) hi

structure Storage.Inv (storage : Storage ι) (stored : ι → CString) : Prop where
  arena : storage.arena.Inv (owners storage.fields)
  reads : ∀ i, storage.arena.Reads (storage.fields i) (stored i)

variable {self : Storage ι} {stored : ι → CString} {text : CString} {heap : Heap} {a n : ℕ}

namespace Storage

lemma Inv.sound (h : self.Inv stored) : self.Sound := by
  refine ⟨fun p hp => (h.arena.layout.ok p hp).used_le, ?_, ?_⟩
  · intro i a hi
    obtain ⟨p, hp, hlow, hhigh, -⟩ := h.arena.holds (k := some i) hi
    have := (h.arena.layout.ok p hp).used_le
    dsimp only at hlow hhigh
    exact ⟨p, hp, by omega, by omega⟩
  · intro i j a b hne hi hj
    have hap := h.arena.layout.disjoint (some i) (some j) _ _ (by simpa using hne) (owners_slot hi) (owners_slot hj)
    unfold Slot.Apart at hap
    dsimp only at hap
    omega

lemma Inv.accounts (h : self.Inv stored) : self.Accounts := by
  have hact : ∀ p ∈ self.arena.chain, p.active = ∑ i, p.share (self.arena.slot (self.fields i)) := by
    intro p hp
    rw [(h.arena.layout.ok p hp).active, Fintype.sum_option]
    exact zero_add _
  refine ⟨hact, ?_⟩
  intro p hp i a hi hin hzero j b hj hjb hjin
  -- both shares are a part of the sum, and the other one is not empty
  have hpair : p.share (self.arena.slot (self.fields i)) + p.share (self.arena.slot (self.fields j)) ≤ p.active := by
    rw [hact p hp]
    have hsum := Finset.sum_pair (f := fun i => p.share (self.arena.slot (self.fields i))) hj.symm
    exact hsum.symm.trans_le (Finset.sum_le_sum_of_subset (Finset.subset_univ _))
  have hsize := (h.arena.layout.ok p hp).used_le
  have hle := (h.arena.layout.ok p hp).active_le
  have hhigh := (h.arena.layout.ok p hp).high
  have hpos := (h.arena.layout.holds (k := some j) hp (owners_slot hjb) hjin).2.2
  rw [hi, hjb, Arena.slot, Arena.slot, Pool.share_of_contains hin, Pool.share_of_contains hjin] at hpair
  unfold sizeSub at hzero
  dsimp only at hpair hpos
  omega

lemma Inv.value (h : self.Inv stored) (i : ι) : self.value i = some (stored i).bytes := by
  have hrds := h.reads i
  unfold Storage.value
  cases hi : self.fields i with
  | empty =>
    rw [hi] at hrds
    rw [show (stored i).bytes = [] from hrds]
  | «at» a =>
    rw [hi] at hrds
    have hlt : self.arena.allocation (.at a) < 2 ^ 16 := Memory.load16_lt
    exact Memory.readString_of_spells (stored i).nonzero hrds.2 (Nat.lt_trans hrds.1 hlt)

variable {arena next grown : Arena} {ptr : FieldPtr}

lemma Inv.of_reads (har : arena.Inv (owners fields)) (hself : arena.Reads (fields i) text)
    (hoth : ∀ j ≠ i, arena.Reads (fields j) (stored j)) :
    Storage.Inv ⟨arena, fields⟩ (update stored i text) := by
  refine ⟨har, fun j => ?_⟩
  by_cases hji : j = i
  · subst hji
    rwa [update_self]
  · rw [update_of_ne hji]
    exact hoth j hji

lemma Inv.of_stored (har : arena.Inv (owners (update fields i ptr)))
    (hself : arena.Reads ptr text) (hoth : ∀ j ≠ i, arena.Reads (fields j) (stored j)) :
    Storage.Inv ⟨arena, update fields i ptr⟩ (update stored i text) := by
  refine Inv.of_reads har (by rw [update_self]; exact hself) fun j hji => ?_
  rw [update_of_ne hji]
  exact hoth j hji

/-! ## Clearing -/

section

variable (har : arena.Inv (owners fields))
include har

lemma clear_inv (hoth : ∀ j ≠ i, arena.Reads (fields j) (stored j)) (htext : text.bytes = [])
    (hsafe : ∀ p ∈ arena.prev, arena.embedded = some p.base → ¬ arena.LastOf p (fields i)) :
    ∃ next, (Storage.mk arena fields).clear i = some next ∧ next.Inv (update stored i text) := by
  obtain ⟨released, hrel, hinv, hmem⟩ := har.releaseActive (some i) hsafe
  refine ⟨⟨released, update fields i .empty⟩, ?_, ?_⟩
  · unfold clear
    rw [show arena.releaseActive (fields i) = some released from hrel]
    rfl
  · refine Inv.of_stored (by rw [owners_update]; exact hinv) htext fun j hji => ?_
    exact har.reads_of_same (k := some j) (fun _ _ x _ => by rw [hmem]) (hoth j hji)

/-! ## Moving -/

lemma allocSpace_put (hsht : text.length < 65535) (hal : arena.allocSpace heap (text.length + 1) = some (next, a)) :
    (next.put a text).Inv (update (owners fields) none (.at a)) ∧
      (next.put a text).Reads (.at a) text ∧ arena.Keeps next.mem (owners fields) ∧
      arena.Keeps (next.put a text).mem (owners fields) := by
  obtain ⟨hinv, hkp, hroom, -, -⟩ := har.allocSpace (k := none) rfl (succ_pos _) (by omega) hal
  obtain ⟨hput, hrds, hoth⟩ := hinv.put (k := none) text (update_self _ _ _) (by rw [hroom]; exact lt_succ_self _)
  refine ⟨hput, hrds, hkp, ?_⟩
  intro k t hk x hx
  have hne : k ≠ none := by
    rintro rfl
    cases hk
  rw [← hkp k t hk x hx]
  refine hoth k hne t ?_ x hx
  rwa [update_of_ne hne, har.slot_of_keeps hkp k rfl]

lemma moved_inv (hoth : ∀ j ≠ i, arena.Reads (fields j) (stored j))
    (hsht : text.length < 65535) (hal : arena.allocSpace heap (text.length + 1) = some (next, a))
    (hsafe : ∀ p ∈ arena.behind (text.length + 1), arena.embedded = some p.base → ¬ arena.LastOf p (fields i)) :
    ∃ released, (next.put a text).releaseActive (fields i) = some released ∧
      Storage.Inv ⟨released, update fields i (.at a)⟩ (update stored i text) := by
  obtain ⟨-, -, -, hemb, hprev⟩ :=
    har.allocSpace (k := none) rfl (succ_pos _) (by omega) hal
  obtain ⟨hput, hrds, -, hkp⟩ := allocSpace_put har hsht hal
  have hfld : update (owners fields) none (.at a) (some i) = fields i :=
    update_of_ne (by simp) _ _
  have hsame : (next.put a text).allocation (fields i) = arena.allocation (fields i) :=
    Arena.allocation_eq_of_slot (har.slot_of_keeps hkp (some i) rfl)
  obtain ⟨released, hrel, hinv, hmem⟩ := hput.releaseActive (some i) (by
    intro p hp hb
    rw [hfld, Arena.lastOf_congr hsame]
    exact hsafe p (hprev ▸ hp) (hemb ▸ hb))
  refine ⟨released, hrel, Inv.of_stored ?_ (hrds.of_mem hmem) fun j hji => ?_⟩
  · rw [← owners_moved]
    exact hinv.comp_equiv _
  · have hrds' : (next.put a text).Reads (fields j) (stored j) :=
      har.reads_of_same (k := some j) (hkp _) (hoth j hji)
    exact hrds'.of_mem hmem

end

lemma releaseActive_put (hsame : (arena.put a text).allocation ptr = arena.allocation ptr) :
    (arena.put a text).releaseActive ptr = (arena.releaseActive ptr).map fun released => released.put a text := by
  cases ptr with
  | empty => rfl
  | «at» b =>
    simp only [Arena.releaseActive, hsame]
    by_cases hhead : arena.head.Contains b
    · rw [if_pos (by exact hhead), if_pos hhead]
      rfl
    · rw [if_neg (by exact hhead), if_neg hhead, Option.map_map]
      rfl

/-! ## Setting -/

lemma put_inv (hi : self.fields i = .at a) (har : arena.Inv (owners self.fields))
    (hoth : ∀ j ≠ i, arena.Reads (self.fields j) (stored j)) (hfit : text.length < arena.allocation (.at a)) :
    Storage.Inv ⟨arena.put a text, self.fields⟩ (update stored i text) := by
  obtain ⟨hput, hrds, hsame⟩ := har.put (k := some i) text hi hfit
  refine Inv.of_reads hput (by rw [hi]; exact hrds) fun j hji => ?_
  exact har.reads_of_same (k := some j) (hsame (some j) (by simpa using hji)) (hoth j hji)

section

variable (h : self.Inv stored)
include h

lemma ptrGrow_inv (hi : self.fields i = .at a) (hneeds : self.arena.allocation (.at a) < n) (hn : n < 2 ^ 16)
    (hgrow : self.arena.ptrGrow n (.at a) = some grown) :
    grown.Inv (owners self.fields) ∧ grown.allocation (.at a) = n ∧
      ∀ j ≠ i, grown.Reads (self.fields j) (stored j) := by
  simp only [Arena.ptrGrow] at hgrow
  split_ifs at hgrow with hlast hspc
  cases hgrow
  have hlast : self.arena.lastAlloc = some a := not_not.mp hlast
  rw [h.arena.space_eq] at hspc
  have hfit : self.arena.allocation (.at a) + (n - self.arena.allocation (.at a)) = n := by omega
  refine ⟨h.arena.extend (k := some i) hi hlast (by omega) le_rfl (by omega), ?_, fun j hji => ?_⟩
  · rw [Arena.extend_allocation (by omega), hfit]
  · refine h.arena.reads_of_same (k := some j) (fun t ht x hx => ?_) (h.reads j)
    exact h.arena.extend_same (k := some i) hi (by simpa using hji) ht hx

lemma ptrSet_inv (data : Option CString)
    (hord : self.Ordinary ⟨.set i data, heap⟩) (hcar : self.Careful ⟨.set i data, heap⟩) :
    ∃ next res, self.ptrSet heap i data = some (next, res) ∧ next.Inv (update stored i (data.getD .empty)) := by
  obtain ⟨hsht, hsvd⟩ := hord
  obtain ⟨-, hsafe⟩ := hcar
  dsimp only at hsvd hsafe
  have hoth : ∀ j ≠ i, self.arena.Reads (self.fields j) (stored j) := fun j _ => h.reads j
  have hclr : (data.getD .empty).bytes = [] → ∃ next, self.clear i = some next ∧
      next.Inv (update stored i (data.getD .empty)) := by
    intro hemp
    have hrel : self.released (.set i data) = self.fields i := if_pos (.inl hemp)
    have hmv : self.moved (.set i data) = none := by
      cases data with
      | none => rfl
      | some data => exact if_pos (.inl hemp)
    rw [behind, hmv, hrel] at hsafe
    exact clear_inv h.arena hoth hemp hsafe
  cases data with
  | none =>
    obtain ⟨next, hnext, hinv⟩ := hclr rfl
    exact ⟨next, 0, by rw [ptrSet, hnext]; rfl, hinv⟩
  | some data =>
    have hlen : data.length < 65535 := hsht data rfl
    simp only [ptrSet]
    by_cases hemp : data.bytes = []
    · obtain ⟨next, hnext, hinv⟩ := hclr hemp
      exact ⟨next, 0, by rw [if_pos hemp, hnext]; rfl, hinv⟩
    rw [if_neg hemp]
    by_cases hown : data.length + 1 ≤ self.arena.allocation (self.fields i)
    · rw [if_pos hown]
      cases hi : self.fields i with
      | empty =>
        rw [hi] at hown
        exact absurd hown (not_succ_le_zero _)
      | «at» a =>
        rw [hi] at hown
        exact ⟨_, 0, rfl, put_inv hi h.arena hoth hown⟩
    rw [if_neg hown]
    by_cases hgrow : (self.arena.ptrGrow (data.length + 1) (self.fields i)).isSome
    · obtain ⟨grown, hgrw⟩ := Option.isSome_iff_exists.mp hgrow
      cases hi : self.fields i with
      | empty =>
        rw [hi] at hgrw
        cases hgrw
      | «at» a =>
        rw [hi] at hgrw hown
        obtain ⟨hinv, hal, hrds⟩ := ptrGrow_inv h hi (by omega) (by omega) hgrw
        rw [hgrw]
        exact ⟨_, 0, rfl, put_inv hi hinv hrds (by rw [hal]; exact lt_succ_self _)⟩
    have hmv : self.moved (.set i (some data)) = some (data.length + 1) :=
      if_neg (by simp only [not_or]; exact ⟨hemp, hown, hgrow⟩)
    have hrel : self.released (.set i (some data)) = self.fields i :=
      if_pos (.inr (by rw [hmv]; rfl))
    rw [hmv] at hsvd
    rw [behind, hmv, hrel] at hsafe
    obtain ⟨⟨next, a⟩, hal⟩ := Option.isSome_iff_exists.mp (hsvd _ rfl)
    obtain ⟨released, hrele, hinv⟩ := moved_inv h.arena hoth hlen hal hsafe
    obtain ⟨-, -, hkp, hkp'⟩ := allocSpace_put h.arena hlen hal
    have hsame : (next.put a data).allocation (self.fields i) = next.allocation (self.fields i) := by
      have h₁ : next.slot (self.fields i) = self.arena.slot (self.fields i) :=
        h.arena.slot_of_keeps hkp (some i) rfl
      have h₂ : (next.put a data).slot (self.fields i) = self.arena.slot (self.fields i) :=
        h.arena.slot_of_keeps hkp' (some i) rfl
      exact Arena.allocation_eq_of_slot (h₂.trans h₁.symm)
    rw [releaseActive_put hsame] at hrele
    obtain ⟨before, hbef, rfl⟩ := Option.map_eq_some_iff.mp hrele
    rw [Option.not_isSome_iff_eq_none.mp hgrow]
    refine ⟨_, 0, ?_, hinv⟩
    rw [hal]
    dsimp only
    rw [hbef]
    rfl

/-! ## Building -/

lemma Inv.available_le (hi : self.fields i = .at a) : self.available i ≤ self.arena.allocation (.at a) ∨
      self.arena.lastAlloc = some a ∧ a + self.available i ≤ self.arena.head.base + self.arena.head.size := by
  unfold available
  rw [hi]
  dsimp only
  split_ifs with hlast
  · obtain ⟨hfnd, -⟩ := h.arena.top (some i) _ (owners_slot hi) hlast
    have hh := h.arena.layout.holds mem_cons_self (owners_slot hi) hfnd
    have hused := (h.arena.layout.ok _ mem_cons_self).used_le
    have hspc := h.arena.space_eq
    unfold Pool.Holds at hh
    dsimp only at hh
    exact .inr ⟨hlast, by omega⟩
  · exact .inl le_rfl

lemma printed_inv (i : ι) (text : CString) :
    (self.arena.print (self.target i) (self.available i) text).Inv (owners self.fields) ∧
      (self.arena.print (self.target i) (self.available i) text).allocation (self.fields i) =
        self.arena.allocation (self.fields i) ∧
      ∀ j ≠ i, (self.arena.print (self.target i) (self.available i) text).Reads (self.fields j) (stored j) := by
  cases hi : self.fields i with
  | empty =>
    have htgt : self.target i = self.arena.head.base + self.arena.head.used + allocationAlign := by
      rw [target, hi]
    have hfit : self.available i = 0 ∨
        self.arena.head.used + allocationAlign + self.available i ≤ self.arena.head.size := by
      have hspc := h.arena.space_eq
      unfold available
      rw [hi]
      dsimp only
      split_ifs <;> omega
    rw [htgt]
    have hkp := h.arena.print_free text hfit
    refine ⟨?_, rfl, fun j _ => h.arena.reads_of_same (k := some j) (hkp _) (h.reads j)⟩
    rw [Arena.print_arena]
    exact h.arena.of_keeps hkp
  | «at» a =>
    have htgt : self.target i = a := by rw [target, hi]
    rw [htgt]
    obtain ⟨hinv, hal, hsame⟩ := h.arena.print_own (k := some i) text hi (h.available_le hi)
    exact ⟨hinv, hal, fun j hji =>
      h.arena.reads_of_same (k := some j) (hsame (some j) (by simpa using hji)) (h.reads j)⟩

end

lemma claim_inv (har : arena.Inv (owners fields)) (hi : fields i = .empty)
    (hoth : ∀ j ≠ i, arena.Reads (fields j) (stored j)) (hsht : text.length < 65535)
    (hsp : arena.mem.Spells (arena.head.base + arena.head.used + allocationAlign) text.bytes)
    (hroom : arena.head.used + makeRoomFor (text.length + 1) allocationAlign ≤ arena.head.size) :
    Storage.Inv ⟨arena.claim (text.length + 1),
        update fields i (.at (arena.head.base + arena.head.used + allocationAlign))⟩
      (update stored i text) := by
  refine Inv.of_stored ?_ ⟨?_, hsp.congr fun x hlow _ => ?_⟩ fun j hji => ?_
  · rw [owners_update]
    exact har.claim (k := some i) hi (succ_pos _) (by omega) hroom
  · rw [Arena.claim_allocation (by omega)]
    exact lt_succ_self _
  · refine Memory.store16_of_outside (Or.inr ?_)
    unfold allocationAlign at *
    omega
  · exact har.reads_of_same (k := some j) (har.claim_keeps hroom (some j)) (hoth j hji)

lemma extend_inv (har : arena.Inv (owners fields)) (hi : fields i = .at a)
    (hlast : arena.lastAlloc = some a) (hoth : ∀ j ≠ i, arena.Reads (fields j) (stored j))
    (hsht : text.length < 65535) (hsp : arena.mem.Spells a text.bytes)
    (hneeds : arena.allocation (.at a) < text.length + 1)
    (hroom : arena.head.used + alignFor (text.length + 1 - arena.allocation (.at a)) allocationAlign ≤ arena.head.size) :
    Storage.Inv ⟨arena.extend a (text.length + 1 - arena.allocation (.at a))
        (alignFor (text.length + 1 - arena.allocation (.at a)) allocationAlign), fields⟩
      (update stored i text) := by
  have hfit : arena.allocation (.at a) + (text.length + 1 - arena.allocation (.at a)) = text.length + 1 := by
    omega
  have hlow := (har.two_le (k := some i) hi).1
  refine Inv.of_reads ?_ ?_ fun j hji => ?_
  · exact har.extend (k := some i) hi hlast hroom (Arena.le_alignFor _) (by omega)
  · rw [hi]
    refine ⟨?_, hsp.congr fun x hx _ => Memory.store16_of_outside (Or.inr ?_)⟩
    · rw [Arena.extend_allocation (by omega), hfit]
      exact lt_succ_self _
    · unfold allocationAlign at *
      omega
  · refine har.reads_of_same (k := some j) (fun t ht x hx => ?_) (hoth j hji)
    exact har.extend_same (k := some i) hi (by simpa using hji) ht hx

lemma ptrBuild_inv (h : self.Inv stored) (hord : self.Ordinary ⟨.build i text, heap⟩)
    (hcar : self.Careful ⟨.build i text, heap⟩) :
    ∃ next, self.ptrBuild heap i text = some next ∧ next.Inv (update stored i text) := by
  obtain ⟨hsht, hsvd⟩ := hord
  obtain ⟨hroom, hsafe⟩ := hcar
  have hlen : text.length < 65535 := hsht text rfl
  obtain ⟨hinv, hal, hoth⟩ := printed_inv h i text
  simp only [ptrBuild]
  have hprt := Arena.print_arena self.arena (self.target i) (self.available i) text
  generalize hp : self.arena.print (self.target i) (self.available i) text = printed at *
  have hhead : printed.head = self.arena.head := by rw [hprt]
  have hlastAlloc : printed.lastAlloc = self.arena.lastAlloc := by rw [hprt]
  by_cases hemp : text.bytes = []
  · have hmv : self.moved (.build i text) = none := if_pos (.inl hemp)
    have hrel : self.released (.build i text) = self.fields i := if_pos (.inl hemp)
    rw [behind, hmv, hrel] at hsafe
    rw [if_pos hemp]
    refine clear_inv hinv hoth hemp fun p hp hb => ?_
    rw [hprt] at hp hb
    rw [Arena.lastOf_congr hal]
    exact hsafe p hp hb
  rw [if_neg hemp]
  by_cases hsml : self.available i < text.length + 1
  · have hmv : self.moved (.build i text) = some (text.length + 1) :=
      if_neg (by simp only [not_or]; exact ⟨hemp, by omega⟩)
    have hrel : self.released (.build i text) = self.fields i := if_pos (.inr (by rw [hmv]; rfl))
    rw [hmv] at hsvd
    rw [behind, hmv, hrel] at hsafe
    have hsome : (printed.allocSpace heap (text.length + 1)).isSome := by
      rw [hprt, Arena.allocSpace_isSome_congr]
      exact hsvd _ rfl
    obtain ⟨⟨next, a⟩, hal'⟩ := Option.isSome_iff_exists.mp hsome
    obtain ⟨released, hrele, hnext⟩ := moved_inv hinv hoth hlen hal' (by
      intro p hp hb
      rw [hprt] at hp hb
      rw [Arena.lastOf_congr hal]
      exact hsafe p hp hb)
    rw [if_pos hsml, hal']
    refine ⟨_, ?_, hnext⟩
    dsimp only
    rw [hrele]
    rfl
  rw [if_neg hsml]
  have hput : printed = self.arena.put (self.target i) text := by rw [← hp, Arena.print_eq_put (by omega)]
  have hsp : printed.mem.Spells (self.target i) text.bytes := by
    rw [hput]
    exact Memory.spells_write
  have htk : self.taken (.build i text) = match self.fields i with
      | .empty => makeRoomFor (text.length + 1) allocationAlign
      | .at a => alignFor (text.length + 1 - self.arena.allocation (.at a)) allocationAlign :=
    if_neg (by simp only [not_or]; exact ⟨hemp, hsml⟩)
  rw [htk] at hroom
  cases hi : self.fields i with
  | empty =>
    rw [hi] at hroom
    have htgt : self.target i = printed.head.base + printed.head.used + allocationAlign := by
      rw [target, hi, hhead]
    rw [htgt]
    rw [htgt] at hsp
    exact ⟨_, rfl, claim_inv hinv hi hoth hlen hsp (by rw [hhead]; exact hroom)⟩
  | «at» a =>
    rw [hi] at hroom hal
    have htgt : self.target i = a := by rw [target, hi]
    rw [htgt] at hsp ⊢
    rw [if_neg (by simp)]
    by_cases hown : printed.allocation (.at a) < text.length + 1
    · have hlast : self.arena.lastAlloc = some a := by
        rcases h.available_le hi with hle | ⟨hlast, -⟩
        · omega
        · exact hlast
      rw [if_pos hown]
      refine ⟨_, rfl, extend_inv hinv hi (hlastAlloc.trans hlast) hoth hlen hsp hown ?_⟩
      rwa [hhead, hal]
    · rw [if_neg hown]
      exact ⟨_, rfl, Inv.of_reads hinv (hi ▸ ⟨by omega, hsp⟩) hoth⟩

/-! ## Whole runs -/

lemma step_inv (h : self.Inv stored) (c : Call ι) (hord : self.Ordinary c) (hcar : self.Careful c) :
    ∃ next, self.step c = some next ∧ next.Inv (c.op.store stored) := by
  obtain ⟨op, heap⟩ := c
  cases op with
  | set i data =>
    obtain ⟨next, res, hset, hinv⟩ := ptrSet_inv h data hord hcar
    exact ⟨next, by simp only [step, hset]; rfl, hinv⟩
  | build i text => exact ptrBuild_inv h hord hcar
  | reset =>
    obtain ⟨arena, hreset, hinv⟩ := h.arena.reset
    refine ⟨⟨arena, fun _ => .empty⟩, by simp only [step, Storage.reset, hreset]; rfl, ?_, fun _ => rfl⟩
    have howners : (owners fun _ : ι => FieldPtr.empty) = fun _ => .empty := by
      funext j
      cases j <;> rfl
    rwa [howners]

/-- A sequence of operations. Induction on the sequence, with the texts stored so far. -/
lemma run_inv (h : self.Inv stored) (calls : List (Call ι))
    (hord : Each Storage.step Ordinary self calls) (hcar : Each Storage.step Careful self calls) :
    ∃ s, Storage.run calls self = some s ∧ s.Inv (calls.foldl (fun stored c => c.op.store stored) stored) := by
  induction calls generalizing self stored with
  | nil => exact ⟨self, rfl, h⟩
  | cons c calls ih =>
    obtain ⟨next, hstep, hinv⟩ := step_inv h c hord.1 hcar.1
    obtain ⟨s, hrun, hs⟩ := ih hinv (hord.2 next hstep) (hcar.2 next hstep)
    exact ⟨s, by rw [Storage.run, List.foldlM_cons, hstep]; exact hrun, hs⟩

lemma inv_of_fresh {mem : Memory} {p : Pool} {embedded : Option ℕ} (hpos : 0 < p.size)
    (hlow : poolHeader ≤ p.base) (hhigh : p.base + p.size ≤ 2 ^ 63) (hused : p.used = 0)
    (hact : p.active = 0) (hemb : ∀ b, embedded = some b → p.base = b) :
    Storage.Inv (ι := ι) ⟨⟨mem, p, [], none, embedded⟩, fun _ => .empty⟩ fun _ => .empty := by
  have howners : ∀ j, owners (fun _ : ι => FieldPtr.empty) j = .empty := fun j => by cases j <;> rfl
  have hslot : (fun j => Arena.slot ⟨mem, p, [], none, embedded⟩ (owners (fun _ : ι => FieldPtr.empty) j)) =
      fun _ => none := by
    funext j
    rw [howners]
    rfl
  refine ⟨⟨?_, ?_, ?_⟩, fun _ => rfl⟩
  · rw [hslot]
    exact Layout.single hpos hlow hhigh hused hact
  · intro k t hk
    dsimp only at hk
    rw [howners] at hk
    cases hk
  · intro b hb
    exact ⟨p, mem_cons_self, hemb b hb⟩

lemma Starts.inv (h : self.Starts) : self.Inv fun _ => .empty := by
  rcases h with ⟨heap, mem, needed, -, hinit⟩ | ⟨heap, mem, structSize, poolSize, hinit⟩
  all_goals
    obtain ⟨pool, hpool, rfl⟩ := Option.map_eq_some_iff.mp hinit
    have hbel := heap.below hpool
    have hsize := Arena.lt_optimalAllocSize (Nat.le_trans (le_add_left _ _) hbel)
    exact inv_of_fresh (by dsimp only; omega) (le_add_left _ _) (by dsimp only; omega) rfl rfl (by simp)

end Storage

/-- **String field storage is sound** in every state of a run with texts shorter than 65535 bytes
for which the heap has memory, as long as a text that is built in place rounds up inside its pool
and no operation frees the embedded pool. -/
theorem run_sound {start : Storage ι} (hstart : start.Starts) (calls : List (Call ι))
    (hordinary : Each Storage.step Storage.Ordinary start calls) (hcareful : Each Storage.step Storage.Careful start calls) (k : ℕ) :
    ∃ s, Storage.run (calls.take k) start = some s ∧ s.Sound ∧
      ∀ i, s.value i = some (lastStored (calls.take k) i).bytes := by
  obtain ⟨s, hrun, hinv⟩ := Storage.run_inv hstart.inv (calls.take k) (hordinary.take k) (hcareful.take k)
  exact ⟨s, hrun, hinv.sound, hinv.value⟩

/-- **Pools are freed only when unused**: under the same conditions, the active bytes of every pool
are those of the fields in it, in every state of a run. -/
theorem run_accounts {start : Storage ι} (hstart : start.Starts) (calls : List (Call ι))
    (hordinary : Each Storage.step Storage.Ordinary start calls) (hcareful : Each Storage.step Storage.Careful start calls) (k : ℕ) :
    ∃ s, Storage.run (calls.take k) start = some s ∧ s.Accounts := by
  obtain ⟨s, hrun, hinv⟩ := Storage.run_inv hstart.inv (calls.take k) (hordinary.take k) (hcareful.take k)
  exact ⟨s, hrun, hinv.accounts⟩

end Sound

/-! ## Runs of a structure with two fields -/

def CString.line (n : ℕ) : CString :=
  ⟨List.replicate n 97, fun h => by simpa using eq_of_mem_replicate h⟩

def plenty : Heap := Heap.upTo (2 ^ 40) (by decide)

def twoFields : Storage (Fin 2) :=
  ⟨⟨Memory.zero (fun _ => 0) 0 208, ⟨32, 176, 0, 0⟩, [], none, none⟩, fun _ => .empty⟩

lemma twoFields_starts : twoFields.Starts := by
  refine .inl ⟨plenty, fun _ => 0, 1, Nat.one_pos, ?_⟩
  have hsize : optimalAllocSize (poolHeader + 1) = 208 := by decide +kernel
  simp only [Storage.init, hsize]
  rfl

def twoEmbedded : Storage (Fin 2) :=
  ⟨⟨Memory.zero (fun _ => 0) 0 464, ⟨96, 368, 0, 0⟩, [], none, some 96⟩, fun _ => .empty⟩

lemma twoEmbedded_starts : twoEmbedded.Starts := by
  refine .inr ⟨plenty, fun _ => 0, 64, 32, ?_⟩
  have hsize : optimalAllocSize (64 + (poolHeader + 32)) = 464 := by decide +kernel
  simp only [Storage.callocWithStringfields, hsize]
  rfl

/-- A field is set and grows by one byte, the other one is built behind it and grows too, the first
one moves to a new pool and is cleared, and all is reset. -/
def mixedCalls : List (Call (Fin 2)) :=
  [⟨.set 0 (some (.line 1)), plenty⟩, ⟨.set 0 (some (.line 2)), plenty⟩, ⟨.build 1 (.line 3), plenty⟩,
    ⟨.build 1 (.line 6), plenty⟩, ⟨.set 0 (some (.line 200)), plenty⟩, ⟨.build 0 .empty, plenty⟩,
    ⟨.reset, plenty⟩]

/-- The state in which the first field has moved. -/
theorem run_sound_mixed :
    Each Storage.step Storage.Ordinary twoFields mixedCalls ∧
      ∃ s, Storage.run (mixedCalls.take 5) twoFields = some s ∧ s.Sound ∧
        ∀ i, s.value i = some (lastStored (mixedCalls.take 5) i).bytes := by
  have hord : Each Storage.step Storage.Ordinary twoFields mixedCalls := by decide +kernel
  exact ⟨hord, run_sound twoFields_starts mixedCalls hord (by decide +kernel) 5⟩

theorem run_accounts_mixed : ∃ s, Storage.run (mixedCalls.take 5) twoFields = some s ∧ s.Accounts :=
  run_accounts twoFields_starts mixedCalls (by decide +kernel) (by decide +kernel) 5

def roundedCalls : List (Call (Fin 2)) :=
  [⟨.set 0 (some (.line 1)), plenty⟩, ⟨.set 0 (some (.line 2)), plenty⟩, ⟨.build 1 (.line 168), plenty⟩]

/-- A field is cleared that is alone in its pool, behind the pool of the other one. -/
def embeddedCalls : List (Call (Fin 2)) :=
  [⟨.set 0 (some (.line 1)), plenty⟩, ⟨.set 1 (some (.line 400)), plenty⟩, ⟨.set 0 none, plenty⟩]

/-- Of 176 bytes 5 are in use. For the text of 168 characters that is built into the rest, 172 bytes
are counted: 177 bytes are in use. And an embedded pool is freed when its only field is cleared. -/
theorem run_not_sound :
    (twoFields.Starts ∧ Each Storage.step Storage.Ordinary twoFields roundedCalls ∧
      ∃ s, Storage.run roundedCalls twoFields = some s ∧ ¬ s.Sound) ∧
    (twoEmbedded.Starts ∧ Each Storage.step Storage.Ordinary twoEmbedded embeddedCalls ∧
      (Storage.run embeddedCalls twoEmbedded).isNone) := by
  refine ⟨⟨twoFields_starts, by decide +kernel, ?_⟩, twoEmbedded_starts, by decide +kernel, by decide +kernel⟩
  have hfull : (Storage.run roundedCalls twoFields).map (fun s => (s.arena.head.size, s.arena.head.used)) =
      some (176, 177) := by decide +kernel
  obtain ⟨s, hrun, hs⟩ := Option.map_eq_some_iff.mp hfull
  obtain ⟨hsize, hused⟩ := Prod.mk.inj hs
  refine ⟨s, hrun, fun hsnd => ?_⟩
  have := hsnd.used_le s.arena.head mem_cons_self
  omega

/-- One more text goes behind the end of the overfull pool, which counts its 6 bytes. -/
theorem run_not_accounts :
    twoFields.Starts ∧ Each Storage.step Storage.Ordinary twoFields (roundedCalls ++ [⟨.set 0 (some (.line 5)), plenty⟩]) ∧
      ∃ s, Storage.run (roundedCalls ++ [⟨.set 0 (some (.line 5)), plenty⟩]) twoFields = some s ∧ ¬ s.Accounts := by
  refine ⟨twoFields_starts, by decide +kernel, ?_⟩
  have hcnt : (Storage.run (roundedCalls ++ [⟨.set 0 (some (.line 5)), plenty⟩]) twoFields).map (fun s =>
      (s.arena.head.active, ∑ i, s.arena.head.share (s.arena.slot (s.fields i)))) = some (175, 169) := by
    decide +kernel
  obtain ⟨s, hrun, hs⟩ := Option.map_eq_some_iff.mp hcnt
  obtain ⟨hact, hsum⟩ := Prod.mk.inj hs
  refine ⟨s, hrun, fun h => ?_⟩
  have := h.active s.arena.head mem_cons_self
  omega

end Telephony.StringFields
