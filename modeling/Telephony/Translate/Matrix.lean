import Mathlib.Algebra.Order.BigOperators.Group.Finset
import Mathlib.Data.Fintype.BigOperators
import Mathlib.Data.PNat.Defs
import Telephony.Lib.Chains
import Telephony.Lib.Loop
import Telephony.Lib.Runs

/-!
# The translation matrix

`main/translate.c` keeps a matrix with the next translator on the way from each codec to each other
one. It is built again whenever the list of translators changes: `direct` picks a translator for
each pair of codecs, and then sums over a codec in between replace what is more expensive, until
nothing changes. The costs are `uint32_t`.

The first pass takes a translator in place of another one for the same codecs when its table cost
*or* its computational cost is less, so one with a smaller table cost may be replaced.
-/

namespace Telephony.Translate

open Lib List Function Option

/-! ## Data model -/

structure Translator (n : ℕ) where
  src : Fin n
  dst : Fin n
  tableCost : ℕ
  compCost : ℕ
  active : Bool
  table_pos : 0 < tableCost
  table_lt : tableCost < 2 ^ 31
  comp_pos : 0 < compCost
  deriving DecidableEq

structure TranslatorPath (n : ℕ) where
  step : Option (Translator n)
  tableCost : ℕ
  compCost : ℕ
  multistep : Bool
  deriving DecidableEq

abbrev Matrix (n : ℕ) := Fin n → Fin n → TranslatorPath n

variable {n c : ℕ}

/-! ## The code -/

def Matrix.clear : Matrix n := fun _ _ => ⟨none, 0, 0, false⟩

def Matrix.set (m : Matrix n) (x z : Fin n) (p : TranslatorPath n) : Matrix n :=
  fun a b => if a = x ∧ b = z then p else m a b

/-- The translators with the computational costs that are measured for `samples`, if they are; `cost
i` is what is measured for the translator at position `i` of the list.
Source: `matrix_rebuild` (`generate_computational_cost`) -/
def measured (samples : Option (ℕ → ℕ+)) (ts : List (Translator n)) : List (Translator n) :=
  match samples with
  | none => ts
  | some cost => ts.mapIdx fun i t =>
    if t.active then { t with compCost := cost i, comp_pos := (cost i).pos } else t

/-- Source: `matrix_rebuild` ("first, compute all direct costs") -/
def directStep (m : Matrix n) (t : Translator n) : Matrix n :=
  if t.active = false then m
  else
    let picked := m.set t.src t.dst ⟨some t, t.tableCost, t.compCost, (m t.src t.dst).multistep⟩
    match (m t.src t.dst).step with
    | none => picked
    | some u => if t.tableCost < u.tableCost ∨ t.compCost < u.compCost then picked else m

/-- Source: `matrix_rebuild` -/
def direct (ts : List (Translator n)) : Matrix n := ts.foldl directStep Matrix.clear

/-- The cost over a codec in between, as a `uint32_t`: the `int` that it is put into is compared
with one.
Source: `matrix_rebuild` -/
def newTableCost (m : Matrix n) (x y z : Fin n) : ℕ := ((m x y).tableCost + (m y z).tableCost) % 2 ^ 32

def Joins (m : Matrix n) (x y z : Fin n) : Prop :=
  x ≠ y ∧ ¬ (z = x ∨ z = y) ∧ (m x y).step.isSome ∧ (m y z).step.isSome

instance (m : Matrix n) (x y z : Fin n) : Decidable (Joins m x y z) :=
  inferInstanceAs (Decidable (_ ∧ _ ∧ _ ∧ _))

def Improves (m : Matrix n) (x y z : Fin n) : Prop :=
  Joins m x y z ∧ ((m x z).step = none ∨ newTableCost m x y z < (m x z).tableCost)

instance (m : Matrix n) (x y z : Fin n) : Decidable (Improves m x y z) :=
  inferInstanceAs (Decidable (_ ∧ _))

def wayOver (m : Matrix n) (x y z : Fin n) : TranslatorPath n :=
  { m x z with step := (m x y).step, tableCost := newTableCost m x y z, multistep := true }

/-- The innermost body of the loops, with the number of changes.
Source: `matrix_rebuild` -/
def relax (s : Matrix n × ℕ) (t : Fin n × Fin n × Fin n) : Matrix n × ℕ :=
  let (x, y, z) := t
  if Improves s.1 x y z then (s.1.set x z (wayOver s.1 x y z), s.2 + 1) else s

def triples (n : ℕ) : List (Fin n × Fin n × Fin n) :=
  (List.finRange n).flatMap fun x => (List.finRange n).flatMap fun y => (List.finRange n).map fun z => (x, y, z)

def pass (m : Matrix n) : Matrix n × ℕ := (triples n).foldl relax (m, 0)

def round (m : Matrix n) : Option (Matrix n ⊕ Matrix n) :=
  if (pass m).2 = 0 then some (.inr (pass m).1) else some (.inl (pass m).1)

def matrixRebuild (ts : List (Translator n)) (samples : Option (ℕ → ℕ+)) (fuel : ℕ) : Option (Matrix n) :=
  iterate round fuel (direct (measured samples ts))

def registerTranslator (ts : List (Translator n)) (t : Translator n) : List (Translator n) :=
  let after := fun u : Translator n => u.src = t.src ∧ u.dst = t.dst ∧ t.compCost < u.compCost
  if ts.any after then ts.takeWhile (fun u => ¬ after u) ++ t :: ts.dropWhile (fun u => ¬ after u) else t :: ts

/-! ## What the matrix is for -/

def Active (ts : List (Translator n)) (x z : Fin n) (c : ℕ) : Prop :=
  ∃ t ∈ ts, t.active = true ∧ t.src = x ∧ t.dst = z ∧ t.tableCost = c

structure Optimal (ts : List (Translator n)) (m : Matrix n) : Prop where
  set_iff : ∀ x z, x ≠ z → ((m x z).step.isSome ↔ ∃ c, Chain (Active ts) x z c)
  least : ∀ x z, x ≠ z → (m x z).step.isSome →
    Chain (Active ts) x z (m x z).tableCost ∧ ∀ c, Chain (Active ts) x z c → (m x z).tableCost ≤ c
  tie : ∀ x z t, x ≠ z → (m x z).step = some t → (m x z).multistep = false →
    t.src = x ∧ t.dst = z ∧ t.tableCost = (m x z).tableCost ∧
      ∀ u ∈ ts, u.active = true → u.src = x → u.dst = z → u.tableCost = t.tableCost → t.compCost ≤ u.compCost

/-- One of the two costs is less. -/
def Translator.Undercuts (t u : Translator n) : Prop := t.tableCost < u.tableCost ∨ t.compCost < u.compCost

instance (t u : Translator n) : Decidable (t.Undercuts u) := inferInstanceAs (Decidable (_ ∨ _))

/-- The first translator of a list that none behind it undercuts. -/
def lasting : List (Translator n) → Option (Translator n)
  | [] => none
  | t :: ts => if ∀ u ∈ ts, ¬u.Undercuts t then some t else lasting ts

def serving (ts : List (Translator n)) (x z : Fin n) : List (Translator n) :=
  ts.filter fun t => t.active = true ∧ t.src = x ∧ t.dst = z

/-- Some translator from `x` to `z` has this table cost, and of all from `x` to `z` it is the first
one in the list that none behind it undercuts. -/
def Picked (ts : List (Translator n)) (x z : Fin n) (c : ℕ) : Prop :=
  ∃ t, lasting (serving ts x z) = some t ∧ t.tableCost = c

/-- For each translator there is a chain of picked ones that costs no more; and where no such chain
is cheaper than the picked translator itself, no other one of its table cost has a smaller
computational cost. -/
structure PicksWell (ts : List (Translator n)) : Prop where
  cost : ∀ t ∈ ts, t.active = true → t.src ≠ t.dst → ∃ c ≤ t.tableCost, Chain (Picked ts) t.src t.dst c
  tie : ∀ x z t, x ≠ z → lasting (serving ts x z) = some t → (∀ c, Chain (Picked ts) x z c → t.tableCost ≤ c) →
    ∀ u ∈ ts, u.active = true → u.src = x → u.dst = z → u.tableCost = t.tableCost → t.compCost ≤ u.compCost

/-! ## Sums in the range of `int` -/

abbrev PassBelow : Matrix n × ℕ → List (Fin n × Fin n × Fin n) → Prop :=
  Each (total relax) fun s (x, y, z) => Joins s.1 x y z → (s.1 x y).tableCost + (s.1 y z).tableCost < 2 ^ 31

def SumsBelow (m : Matrix n) : Prop := ∀ k, PassBelow ((fun m => (pass m).1)^[k] m, 0) (triples n)

/-! ## The first pass -/

variable {ts : List (Translator n)} {m : Matrix n} {x y z : Fin n} {t u : Translator n}

lemma Matrix.set_self (m : Matrix n) (x z : Fin n) (p : TranslatorPath n) : m.set x z p x z = p := by
  simp [Matrix.set]

lemma Matrix.set_of_ne (m : Matrix n) (p : TranslatorPath n) {a b : Fin n} (h : ¬ (a = x ∧ b = z)) :
    m.set x z p a b = m a b := by
  simp [Matrix.set, if_neg h]

structure Seeded (ts : List (Translator n)) (m : Matrix n) : Prop where
  entry : ∀ x z t, (m x z).step = some t →
    t ∈ ts ∧ t.active = true ∧ t.src = x ∧ t.dst = z ∧ (m x z).tableCost = t.tableCost
  single : ∀ x z, (m x z).multistep = false
  all : ∀ t ∈ ts, t.active = true → (m t.src t.dst).step.isSome

lemma directStep_eq (m : Matrix n) (t : Translator n) :
    directStep m t = m ∧ (t.active = true → ∃ u, (m t.src t.dst).step = some u ∧
        u.tableCost ≤ t.tableCost ∧ u.compCost ≤ t.compCost) ∨
      t.active = true ∧
        directStep m t = m.set t.src t.dst ⟨some t, t.tableCost, t.compCost, (m t.src t.dst).multistep⟩ ∧
        ∀ u, (m t.src t.dst).step = some u → t.tableCost < u.tableCost ∨ t.compCost < u.compCost := by
  unfold directStep
  cases hact : t.active with
  | false => exact .inl ⟨if_pos rfl, fun h => Bool.noConfusion h⟩
  | true =>
    cases hstep : (m t.src t.dst).step with
    | none => exact .inr ⟨rfl, rfl, by simp⟩
    | some u =>
      by_cases hless : t.tableCost < u.tableCost ∨ t.compCost < u.compCost
      · refine .inr ⟨rfl, if_pos hless, fun v hv => ?_⟩
        cases hv
        exact hless
      · exact .inl ⟨if_neg hless, fun _ => ⟨u, rfl, by omega, by omega⟩⟩

lemma Seeded.directStep (h : Seeded ts m) (t : Translator n) : Seeded (ts ++ [t]) (directStep m t) := by
  rcases directStep_eq m t with ⟨heq, hkeep⟩ | ⟨hact, heq, -⟩
  · rw [heq]
    refine ⟨fun x z u hu => ?_, h.single, fun u hu hact => ?_⟩
    · obtain ⟨hmem, hrest⟩ := h.entry x z u hu
      exact ⟨mem_append_left _ hmem, hrest⟩
    · rcases mem_append.mp hu with hu | hu
      · exact h.all u hu hact
      · obtain rfl := mem_singleton.mp hu
        obtain ⟨v, hv, -⟩ := hkeep hact
        rw [hv]
        rfl
  rw [heq]
  refine ⟨fun x z u hu => ?_, fun x z => ?_, fun u hu hu' => ?_⟩
  · by_cases hpl : x = t.src ∧ z = t.dst
    · obtain ⟨rfl, rfl⟩ := hpl
      rw [Matrix.set_self] at hu ⊢
      cases hu
      exact ⟨by simp, hact, rfl, rfl, rfl⟩
    · rw [Matrix.set_of_ne _ _ hpl] at hu ⊢
      obtain ⟨hmem, hrest⟩ := h.entry x z u hu
      exact ⟨mem_append_left _ hmem, hrest⟩
  · by_cases hpl : x = t.src ∧ z = t.dst
    · obtain ⟨rfl, rfl⟩ := hpl
      rw [Matrix.set_self]
      exact h.single t.src t.dst
    · rw [Matrix.set_of_ne _ _ hpl]
      exact h.single x z
  · by_cases hpl : u.src = t.src ∧ u.dst = t.dst
    · rw [hpl.1, hpl.2, Matrix.set_self]
      rfl
    · rw [Matrix.set_of_ne _ _ hpl]
      rcases mem_append.mp hu with hu | hu
      · exact h.all u hu hu'
      · exact absurd (by rw [mem_singleton.mp hu]; exact ⟨rfl, rfl⟩) hpl

lemma direct_append (ts : List (Translator n)) (t : Translator n) :
    direct (ts ++ [t]) = directStep (direct ts) t := by
  simp [direct]

/-- **The first pass** has an entry for each active translator. Induction on the list from its
end. -/
lemma direct_seeded (ts : List (Translator n)) : Seeded ts (direct ts) := by
  induction ts using List.reverseRecOn with
  | nil =>
    refine ⟨fun x z t ht => ?_, fun x z => rfl, fun t ht => ?_⟩
    · cases ht
    · cases ht
  | append_singleton ts t ih =>
    rw [direct_append]
    exact ih.directStep t

/-- The choice between the translator that was picked and a new one.
Source: `matrix_rebuild` ("This new translator is the best choice if any of the below are true.") -/
def better (picked : Option (Translator n)) (t : Translator n) : Option (Translator n) :=
  match picked with
  | none => some t
  | some u => if t.Undercuts u then some t else some u

lemma directStep_step (m : Matrix n) (t : Translator n) (x z : Fin n) :
    (directStep m t x z).step =
      if t.active = true ∧ t.src = x ∧ t.dst = z then better (m x z).step t else (m x z).step := by
  rcases directStep_eq m t with ⟨heq, hkeep⟩ | ⟨hact, heq, hless⟩
  · rw [heq]
    split_ifs with hserves
    · obtain ⟨hact, rfl, rfl⟩ := hserves
      obtain ⟨u, hu, htable, hcomp⟩ := hkeep hact
      rw [hu, better, if_neg (by rw [Translator.Undercuts]; omega)]
    · rfl
  rw [heq]
  by_cases hpl : x = t.src ∧ z = t.dst
  · obtain ⟨rfl, rfl⟩ := hpl
    rw [Matrix.set_self, if_pos ⟨hact, rfl, rfl⟩]
    cases hstep : (m t.src t.dst).step with
    | none => rfl
    | some u => exact (if_pos (hless u hstep)).symm
  · rw [Matrix.set_of_ne _ _ hpl, if_neg fun hserves => hpl ⟨hserves.2.1.symm, hserves.2.2.symm⟩]

/-- The translator picked so far stays, or it is the choice among the others. Induction on these. -/
lemma foldl_better (u : Translator n) (l : List (Translator n)) :
    l.foldl better (some u) = if ∀ t ∈ l, ¬t.Undercuts u then some u else lasting l := by
  induction l generalizing u with
  | nil => simp
  | cons t l ih =>
    rw [foldl_cons, better]
    by_cases ht : t.Undercuts u
    · have hnone : ¬∀ v ∈ t :: l, ¬v.Undercuts u := fun hnone => hnone t mem_cons_self ht
      rw [if_pos ht, ih, if_neg hnone, lasting]
    rw [if_neg ht, ih, lasting]
    simp only [forall_mem_cons, ht, not_false_eq_true, true_and]
    split_ifs with hu ht'
    · rfl
    · -- what undercuts the picked translator undercuts the new one, which is no better
      refine absurd (fun v hv hvu => ht' v hv ?_) hu
      simp only [Translator.Undercuts] at ht hvu ⊢
      omega
    · rfl

lemma direct_step (ts : List (Translator n)) (x z : Fin n) : (direct ts x z).step = lasting (serving ts x z) := by
  have hfold : ∀ m : Matrix n, (ts.foldl directStep m x z).step = (serving ts x z).foldl better (m x z).step := by
    induction ts with
    | nil => exact fun m => rfl
    | cons t ts ih =>
      intro m
      rw [foldl_cons, ih, directStep_step]
      by_cases ht : t.active = true ∧ t.src = x ∧ t.dst = z
      · rw [if_pos ht, serving, serving, filter_cons_of_pos (by simpa using ht), foldl_cons]
      · rw [if_neg ht, serving, serving, filter_cons_of_neg (by simpa using ht)]
  rw [direct, hfold]
  cases serving ts x z with
  | nil => rfl
  | cons t l =>
    rw [foldl_cons, lasting]
    exact foldl_better t l

lemma Picked.active (h : Picked ts x z c) : Active ts x z c := by
  obtain ⟨t, ht, rfl⟩ := h
  rw [← direct_step] at ht
  obtain ⟨hmem, hact, hsrc, hdst, -⟩ := (direct_seeded ts).entry x z t ht
  exact ⟨t, hmem, hact, hsrc, hdst, rfl⟩

/-! ## Relaxation -/

structure Inv (ts : List (Translator n)) (m : Matrix n) : Prop where
  sound : ∀ x z, (m x z).step.isSome → Chain (Picked ts) x z (m x z).tableCost
  seed : ∀ x z t, (direct ts x z).step = some t → (m x z).step.isSome ∧ (m x z).tableCost ≤ t.tableCost
  kept : ∀ x z, (m x z).multistep = false → m x z = direct ts x z
  cheaper : ∀ x z t, (m x z).multistep = true → (direct ts x z).step = some t → (m x z).tableCost < t.tableCost

lemma direct_inv (ts : List (Translator n)) : Inv ts (direct ts) := by
  have hseeded := direct_seeded ts
  refine ⟨fun x z hset => ?_, fun x z t ht => ?_, fun x z _ => rfl, fun x z t hmul => ?_⟩
  · obtain ⟨t, ht⟩ := isSome_iff_exists.mp hset
    exact .one ⟨t, direct_step ts x z ▸ ht, (hseeded.entry x z t ht).2.2.2.2.symm⟩
  · exact ⟨by rw [ht]; rfl, le_of_eq (hseeded.entry x z t ht).2.2.2.2⟩
  · rw [hseeded.single] at hmul
    cases hmul

lemma Inv.relax (h : Inv ts m) (k : ℕ) (x y z : Fin n)
    (hsum : Joins m x y z → (m x y).tableCost + (m y z).tableCost < 2 ^ 31) :
    Inv ts (relax (m, k) (x, y, z)).1 := by
  simp only [Translate.relax]
  split_ifs with himp
  · dsimp only
    obtain ⟨hjoins, hchp⟩ := himp
    have hlt := hsum hjoins
    have hnew : newTableCost m x y z = (m x y).tableCost + (m y z).tableCost :=
      Nat.mod_eq_of_lt (by omega)
    obtain ⟨-, -, hxy, hyz⟩ := hjoins
    have hchn := (h.sound x y hxy).append (h.sound y z hyz)
    rw [← hnew] at hchn
    -- the new entry is less than the picked one
    have hless : ∀ t, (direct ts x z).step = some t → newTableCost m x y z < t.tableCost := by
      intro t ht
      obtain ⟨hset, hle⟩ := h.seed x z t ht
      rcases hchp with hnone | hchp
      · rw [hnone] at hset
        cases hset
      · omega
    refine ⟨fun a b hset => ?_, fun a b t ht => ?_, fun a b hmul => ?_, fun a b t hmul ht => ?_⟩
    all_goals by_cases hpl : a = x ∧ b = z
    · obtain ⟨rfl, rfl⟩ := hpl
      rwa [Matrix.set_self]
    · rw [Matrix.set_of_ne _ _ hpl] at hset ⊢
      exact h.sound a b hset
    · obtain ⟨rfl, rfl⟩ := hpl
      rw [Matrix.set_self]
      exact ⟨hxy, (hless t ht).le⟩
    · rw [Matrix.set_of_ne _ _ hpl]
      exact h.seed a b t ht
    · obtain ⟨rfl, rfl⟩ := hpl
      rw [Matrix.set_self] at hmul
      cases hmul
    · rw [Matrix.set_of_ne _ _ hpl] at hmul ⊢
      exact h.kept a b hmul
    · obtain ⟨rfl, rfl⟩ := hpl
      rw [Matrix.set_self]
      exact hless t ht
    · rw [Matrix.set_of_ne _ _ hpl] at hmul ⊢
      exact h.cheaper a b t hmul ht
  · exact h

/-- A property of matrices that is kept as long as the sums stay in range. -/
def Kept (P : Matrix n → Prop) : Prop :=
  ∀ m k x y z, P m → (Joins m x y z → (m x y).tableCost + (m y z).tableCost < 2 ^ 31) → P (relax (m, k) (x, y, z)).1

lemma inv_kept (ts : List (Translator n)) : Kept (Inv ts) := fun _ k x y z h hsum => h.relax k x y z hsum

variable {P : Matrix n → Prop}

lemma Kept.foldl_relax (hkept : Kept P) {s : Matrix n × ℕ} (h : P s.1) (l : List (Fin n × Fin n × Fin n))
    (hsums : PassBelow s l) : P (l.foldl Translate.relax s).1 :=
  hsums.foldl_inv (I := fun s => P s.1) (fun (x, y, z) _ s h hsum => hkept s.1 s.2 x y z h hsum) h

/-! ## Termination -/

def TranslatorPath.weight (p : TranslatorPath n) : ℕ := if p.step = none then 2 ^ 32 else p.tableCost

def Matrix.weight (m : Matrix n) : ℕ := ∑ x, ∑ z, (m x z).weight

lemma Matrix.weight_set_lt (m : Matrix n) {p : TranslatorPath n} (h : p.weight < (m x z).weight) :
    (m.set x z p).weight < m.weight := by
  have hle : ∀ a b, (m.set x z p a b).weight ≤ (m a b).weight := by
    intro a b
    by_cases hpl : a = x ∧ b = z
    · obtain ⟨rfl, rfl⟩ := hpl
      rw [Matrix.set_self]
      exact h.le
    · rw [Matrix.set_of_ne _ _ hpl]
  refine Finset.sum_lt_sum (fun a _ => Finset.sum_le_sum fun b _ => hle a b) ⟨x, Finset.mem_univ x, ?_⟩
  refine Finset.sum_lt_sum (fun b _ => hle x b) ⟨z, Finset.mem_univ z, ?_⟩
  rwa [Matrix.set_self]

lemma relax_weight (s : Matrix n × ℕ) (t : Fin n × Fin n × Fin n) :
    (relax s t).1.weight + (relax s t).2 ≤ s.1.weight + s.2 := by
  obtain ⟨x, y, z⟩ := t
  simp only [relax]
  split_ifs with himp
  · obtain ⟨⟨-, -, hxy, -⟩, hchp⟩ := himp
    have hmod : newTableCost s.1 x y z < 2 ^ 32 := Nat.mod_lt _ (by decide)
    have hset : (s.1 x y).step ≠ none := isSome_iff_ne_none.mp hxy
    have hover : (wayOver s.1 x y z).weight = newTableCost s.1 x y z := if_neg hset
    have hless : (wayOver s.1 x y z).weight < (s.1 x z).weight := by
      rw [hover, TranslatorPath.weight]
      split_ifs with hnone
      · exact hmod
      · exact hchp.resolve_left hnone
    have hlt := s.1.weight_set_lt hless
    dsimp only
    omega
  · exact le_rfl

lemma foldl_relax_weight (l : List (Fin n × Fin n × Fin n)) (s : Matrix n × ℕ) :
    (l.foldl relax s).1.weight + (l.foldl relax s).2 ≤ s.1.weight + s.2 := by
  induction l generalizing s with
  | nil => exact le_rfl
  | cons t l ih => exact le_trans (ih (relax s t)) (relax_weight s t)

lemma relax_count_le (s : Matrix n × ℕ) (t : Fin n × Fin n × Fin n) : s.2 ≤ (relax s t).2 := by
  simp only [relax]
  split_ifs
  · exact Nat.le_succ _
  · exact le_rfl

section

variable (l : List (Fin n × Fin n × Fin n)) (s : Matrix n × ℕ)

lemma foldl_relax_count_le : s.2 ≤ (l.foldl relax s).2 := by
  induction l generalizing s with
  | nil => exact le_rfl
  | cons t l ih => exact le_trans (relax_count_le s t) (ih (relax s t))

lemma foldl_relax_unchanged (h : (l.foldl relax s).2 = s.2) :
    (l.foldl relax s).1 = s.1 ∧ ∀ x y z, (x, y, z) ∈ l → ¬ Improves s.1 x y z := by
  induction l generalizing s with
  | nil => exact ⟨rfl, fun x y z hmem => by cases hmem⟩
  | cons t l ih =>
    obtain ⟨x, y, z⟩ := t
    have hrest := foldl_relax_count_le l (relax s (x, y, z))
    by_cases himp : Improves s.1 x y z
    · have hcnt : (relax s (x, y, z)).2 = s.2 + 1 := by simp [relax, if_pos himp]
      rw [foldl_cons] at h
      omega
    have hsame : relax s (x, y, z) = s := by simp [relax, if_neg himp]
    rw [foldl_cons, hsame] at h ⊢
    obtain ⟨heq, hnone⟩ := ih s h
    refine ⟨heq, fun a b c hmem => ?_⟩
    rcases mem_cons.mp hmem with hhead | hmem
    · cases hhead
      exact himp
    · exact hnone a b c hmem

end

lemma mem_triples (x y z : Fin n) : (x, y, z) ∈ triples n := by
  simp [triples]

def Stable (m : Matrix n) : Prop := ∀ x y z, ¬ Improves m x y z

lemma Kept.round_cases (hkept : Kept P) (m : Matrix n) (h : P m ∧ SumsBelow m) :
    (∃ m', round m = some (.inl m') ∧ (P m' ∧ SumsBelow m') ∧ m'.weight < m.weight) ∨
      ∃ m', round m = some (.inr m') ∧ P m' ∧ Stable m' := by
  obtain ⟨hinv, hsums⟩ := h
  have hpass : P (pass m).1 := hkept.foldl_relax (s := (m, 0)) hinv (triples n) (hsums 0)
  by_cases hcnt : (pass m).2 = 0
  · obtain ⟨hsame, hnone⟩ := foldl_relax_unchanged (triples n) (m, 0) hcnt
    refine .inr ⟨_, if_pos hcnt, hpass, fun x y z => ?_⟩
    rw [show (pass m).1 = m from hsame]
    exact hnone x y z (mem_triples x y z)
  refine .inl ⟨_, if_neg hcnt, ⟨hpass, fun k => hsums (k + 1)⟩, ?_⟩
  have hweight : (pass m).1.weight + (pass m).2 ≤ m.weight + 0 := foldl_relax_weight (triples n) (m, 0)
  omega

lemma direct_weight_le (ts : List (Translator n)) : (direct ts).weight ≤ n * n * 2 ^ 32 := by
  have hent : ∀ x z, (direct ts x z).weight ≤ 2 ^ 32 := by
    intro x z
    unfold TranslatorPath.weight
    cases hstep : (direct ts x z).step with
    | none => exact le_of_eq (if_pos rfl)
    | some t =>
      rw [if_neg (by simp), ((direct_seeded ts).entry x z t hstep).2.2.2.2]
      have := t.table_lt
      omega
  calc (direct ts).weight ≤ ∑ _x : Fin n, ∑ _z : Fin n, 2 ^ 32 :=
        Finset.sum_le_sum fun x _ => Finset.sum_le_sum fun z _ => hent x z
    _ = n * n * 2 ^ 32 := by
        simp [Nat.mul_assoc]

lemma Kept.matrixRebuild_ends (hkept : Kept P) (ts : List (Translator n)) (samples : Option (ℕ → ℕ+))
    (h : P (direct (measured samples ts))) (hsums : SumsBelow (direct (measured samples ts))) :
    ∃ m, (P m ∧ Stable m) ∧ ∀ fuel, n * n * 2 ^ 32 < fuel → matrixRebuild ts samples fuel = some m := by
  obtain ⟨m, hm, hrun⟩ := iterate_total hkept.round_cases ⟨h, hsums⟩
  refine ⟨m, hm, fun fuel hfuel => hrun fuel ?_⟩
  exact lt_of_le_of_lt (direct_weight_le _) hfuel

/-! ## What it ends with -/

def Matrix.table (m : Matrix n) (x z : Fin n) : Option ℕ := (m x z).step.map fun _ => (m x z).tableCost

lemma Matrix.table_eq_some : m.table x z = some c ↔ (m x z).step.isSome ∧ (m x z).tableCost = c := by
  unfold Matrix.table
  cases (m x z).step <;> simp

lemma Inv.least (h : Inv ts m) (hstb : Stable m) (hne : x ≠ z) :
    ((m x z).step.isSome ↔ ∃ c, Chain (Picked ts) x z c) ∧
      ((m x z).step.isSome → ∀ c, Chain (Picked ts) x z c → (m x z).tableCost ≤ c) := by
  have hsnd : ∀ x z a, x ≠ z → m.table x z = some a → Chain (Picked ts) x z a := by
    intro x z a _ ha
    obtain ⟨hset, rfl⟩ := Matrix.table_eq_some.mp ha
    exact h.sound x z hset
  have hedge : ∀ x z c, x ≠ z → Picked ts x z c → ∃ a ≤ c, m.table x z = some a := by
    rintro x z c _ ⟨t, ht, rfl⟩
    obtain ⟨hset, hle⟩ := h.seed x z t ((direct_step ts x z).trans ht)
    exact ⟨_, hle, Matrix.table_eq_some.mpr ⟨hset, rfl⟩⟩
  have hcl : ∀ x y z a b, x ≠ y → y ≠ z → x ≠ z → m.table x y = some a → m.table y z = some b →
      ∃ c ≤ a + b, m.table x z = some c := by
    intro x y z a b hxy hyz hxz ha hb
    obtain ⟨hfst, rfl⟩ := Matrix.table_eq_some.mp ha
    obtain ⟨hsec, rfl⟩ := Matrix.table_eq_some.mp hb
    have hnot := hstb x y z
    simp only [Improves, not_and_or, not_or, not_lt] at hnot
    have hjoins : Joins m x y z := ⟨hxy, by simp [Ne.symm hxz, Ne.symm hyz], hfst, hsec⟩
    obtain ⟨hset, hle⟩ := hnot.resolve_left (not_not.mpr hjoins)
    refine ⟨_, le_trans hle (Nat.mod_le _ _), Matrix.table_eq_some.mpr ⟨?_, rfl⟩⟩
    exact isSome_iff_ne_none.mpr hset
  have hleast := least_of_closed hsnd hedge hcl hne
  have hsome : (m.table x z).isSome = (m x z).step.isSome := by simp [Matrix.table]
  rw [hsome] at hleast
  exact ⟨hleast.1, fun hset => (hleast.2 _ (Matrix.table_eq_some.mpr ⟨hset, rfl⟩)).2⟩

lemma Inv.optimal_iff (h : Inv ts m) (hstb : Stable m) : Optimal ts m ↔ PicksWell ts := by
  have hacti : ∀ {x z c}, Chain (Picked ts) x z c → Chain (Active ts) x z c :=
    fun hchn => hchn.mono fun _ _ _ => Picked.active
  constructor
  · intro hopt
    refine ⟨fun t ht hact hne => ?_, fun x z t hne ht hleast u hu hact hsrc hdst hcost => ?_⟩
    · have hchn : Chain (Active ts) t.src t.dst t.tableCost := .one ⟨t, ht, hact, rfl, rfl, rfl⟩
      have hset := (hopt.set_iff t.src t.dst hne).mpr ⟨_, hchn⟩
      exact ⟨_, (hopt.least t.src t.dst hne hset).2 _ hchn, h.sound _ _ hset⟩
    rw [← direct_step] at ht
    have hset := (h.seed x z t ht).1
    have hsgl : (m x z).multistep = false := by
      cases hmul : (m x z).multistep with
      | false => rfl
      | true =>
        have hlt := h.cheaper x z t hmul ht
        have hge := hleast _ (h.sound x z hset)
        omega
    have hstep : (m x z).step = some t := by rw [h.kept x z hsgl, ht]
    exact (hopt.tie x z t hne hstep hsgl).2.2.2 u hu hact hsrc hdst hcost
  · intro hpicks
    have hrpl : ∀ {x z c}, x ≠ z → Chain (Active ts) x z c → ∃ c' ≤ c, Chain (Picked ts) x z c' := by
      intro x z c hne hchn
      refine hchn.replace ?_ hne
      rintro x z c hne ⟨t, ht, hact, rfl, rfl, rfl⟩
      exact hpicks.cost t ht hact hne
    refine ⟨fun x z hne => ?_, fun x z hne hset => ?_, fun x z t hne hstep hsgl => ?_⟩
    · rw [(h.least hstb hne).1]
      constructor
      · rintro ⟨c, hchn⟩
        exact ⟨c, hacti hchn⟩
      · rintro ⟨c, hchn⟩
        obtain ⟨c', -, hchn'⟩ := hrpl hne hchn
        exact ⟨c', hchn'⟩
    · refine ⟨hacti (h.sound x z hset), fun c hchn => ?_⟩
      obtain ⟨c', hle, hchn'⟩ := hrpl hne hchn
      exact le_trans ((h.least hstb hne).2 hset c' hchn') hle
    · have hkept := h.kept x z hsgl
      have hdirect : (direct ts x z).step = some t := by rw [← hkept, hstep]
      obtain ⟨-, -, hsrc, hdst, hcost⟩ := (direct_seeded ts).entry x z t hdirect
      rw [← hkept] at hcost
      refine ⟨hsrc, hdst, hcost.symm, ?_⟩
      refine hpicks.tie x z t hne (direct_step ts x z ▸ hdirect) fun c hchn => ?_
      rw [← hcost]
      exact (h.least hstb hne).2 (by rw [hstep]; rfl) c hchn

/-- **The translation matrix is optimal** just if the list has its translators in an order that
picks well, for all translators and all costs whose sums stay below 2^31. -/
theorem matrixRebuild_optimal_iff (ts : List (Translator n)) (samples : Option (ℕ → ℕ+))
    (hsums : SumsBelow (direct (measured samples ts))) :
    (∃ m, (∀ fuel, n * n * 2 ^ 32 < fuel → matrixRebuild ts samples fuel = some m) ∧
        Optimal (measured samples ts) m) ↔
      PicksWell (measured samples ts) := by
  obtain ⟨m, ⟨hinv, hstb⟩, hrun⟩ := (inv_kept _).matrixRebuild_ends ts samples (direct_inv _) hsums
  rw [exists_result_iff (Nat.lt_succ_self _) hrun]
  exact hinv.optimal_iff hstb

lemma sumsBelow_of_stable (hfst : PassBelow (m, 0) (triples n))
    (hsec : PassBelow ((pass m).1, 0) (triples n)) (hstb : (pass (pass m).1).1 = (pass m).1) :
    SumsBelow m := by
  intro k
  cases k with
  | zero => exact hfst
  | succ k =>
    rwa [iterate_succ_apply, iterate_fixed hstb]

/-! ## Costs that agree -/

/-- A translator with the smaller table cost has no larger computational cost, where two lead from
one codec to another. -/
def CostsAgree (ts : List (Translator n)) : Prop :=
  ∀ t ∈ ts, ∀ u ∈ ts, t.active = true → u.active = true → t.src = u.src → t.dst = u.dst →
    t.tableCost < u.tableCost → t.compCost ≤ u.compCost

/-- Then the lasting translator has the least table cost, and the least computational cost among
those of its table cost. Induction on the list. -/
lemma lasting_best {l : List (Translator n)} (hagr : ∀ t ∈ l, ∀ u ∈ l, t.tableCost < u.tableCost → t.compCost ≤ u.compCost)
    (hu : lasting l = some u) (ht : t ∈ l) :
    u.tableCost ≤ t.tableCost ∧ (t.tableCost = u.tableCost → u.compCost ≤ t.compCost) := by
  induction l generalizing t with
  | nil => cases ht
  | cons v l ih =>
    have hrest : ∀ t ∈ l, ∀ u ∈ l, t.tableCost < u.tableCost → t.compCost ≤ u.compCost := fun a ha b hb =>
      hagr a (mem_cons_of_mem _ ha) b (mem_cons_of_mem _ hb)
    rw [lasting] at hu
    split_ifs at hu with hlast
    · cases hu
      rcases mem_cons.mp ht with rfl | ht
      · exact ⟨le_rfl, fun _ => le_rfl⟩
      · have hnot := hlast t ht
        simp only [Translator.Undercuts] at hnot
        omega
    rcases mem_cons.mp ht with rfl | ht
    · -- one behind it undercuts it, and the lasting one is no worse than that
      simp only [not_forall, not_not] at hlast
      obtain ⟨w, hw, hless⟩ := hlast
      have hwu := ih hrest hu hw
      have htw := hagr t mem_cons_self w (mem_cons_of_mem _ hw)
      simp only [Translator.Undercuts] at hless
      omega
    · exact ih hrest hu ht

lemma CostsAgree.picksWell (hagr : CostsAgree ts) : PicksWell ts := by
  have hbest : ∀ {t u}, t ∈ ts → t.active = true → lasting (serving ts t.src t.dst) = some u →
      u.tableCost ≤ t.tableCost ∧ (t.tableCost = u.tableCost → u.compCost ≤ t.compCost) := by
    intro t u ht hact hu
    refine lasting_best (fun a ha b hb => ?_) hu (by simpa [serving, hact] using ht)
    simp only [serving, mem_filter, decide_eq_true_eq] at ha hb
    obtain ⟨ha, hact, hsrc, hdst⟩ := ha
    obtain ⟨hb, hact', hsrc', hdst'⟩ := hb
    exact hagr a ha b hb hact hact' (hsrc.trans hsrc'.symm) (hdst.trans hdst'.symm)
  refine ⟨fun t ht hact _ => ?_, fun x z t _ hpicked _ u hu hact hsrc hdst hcost => ?_⟩
  · obtain ⟨u, hu⟩ := isSome_iff_exists.mp ((direct_seeded ts).all t ht hact)
    rw [direct_step] at hu
    exact ⟨u.tableCost, (hbest ht hact hu).1, .one ⟨u, hu, rfl⟩⟩
  · rw [← hsrc, ← hdst] at hpicked
    exact (hbest hu hact hpicked).2 hcost

/-! ## Three codecs -/

def translator (src dst : Fin 3) (tableCost compCost : ℕ+) (h : (tableCost : ℕ) < 2 ^ 31) : Translator 3 :=
  ⟨src, dst, tableCost, compCost, true, tableCost.pos, h, compCost.pos⟩

/-- The cheaper one of the two translators from the first codec to the second one has the smaller
computational cost too. -/
def agreeing : List (Translator 3) :=
  [translator 0 1 8 9 (by decide), translator 0 1 6 5 (by decide), translator 1 2 7 4 (by decide),
    translator 0 2 20 1 (by decide)]

lemma agreeing_sumsBelow : SumsBelow (direct (measured none agreeing)) := by
  refine sumsBelow_of_stable ?_ ?_ ?_
  all_goals decide

/-- The way from the first to the third codec is the one over the second. -/
theorem matrixRebuild_optimal_iff_agreeing :
    ∃ m, (∀ fuel, 3 * 3 * 2 ^ 32 < fuel → matrixRebuild agreeing none fuel = some m) ∧
      Optimal (measured none agreeing) m := by
  have hagr : CostsAgree (measured none agreeing) := by
    unfold CostsAgree
    decide
  exact (matrixRebuild_optimal_iff agreeing none agreeing_sumsBelow).mpr hagr.picksWell

/-- The second translator from the first codec to the second one has the smaller table cost, but it
takes more time, and the other one takes its place.
Source: `__ast_register_translator`, `matrix_rebuild` -/
def disagreeing : List (Translator 3) :=
  [translator 0 1 8 5 (by decide), translator 0 1 6 9 (by decide)].foldl registerTranslator []

/-- The table cost in the matrix is 8, although there is a translator of table cost 6. -/
theorem matrixRebuild_not_optimal :
    SumsBelow (direct (measured none disagreeing)) ∧
      ∃ m, (∀ fuel, 0 < fuel → matrixRebuild disagreeing none fuel = some m) ∧ ¬ Optimal disagreeing m := by
  have hpass : pass (direct disagreeing) = (direct disagreeing, 0) := by decide
  have hbel : PassBelow (direct disagreeing, 0) (triples 3) := by decide
  refine ⟨?_, direct disagreeing, fun fuel hfuel => ?_, fun hopt => ?_⟩
  · refine sumsBelow_of_stable (m := direct disagreeing) hbel ?_ ?_
    · exact hbel
    · rw [hpass, hpass]
  · have hrnd : round (direct disagreeing) = some (.inr (direct disagreeing)) := by rfl
    exact iterate_mono (iterate_done hrnd 0) hfuel
  · have hcost : (direct disagreeing 0 1).step.isSome = true ∧ (direct disagreeing 0 1).tableCost = 8 := by
      decide
    have hact : Active disagreeing 0 1 6 := by
      refine ⟨translator 0 1 6 9 (by decide), ?_, rfl, rfl, rfl, rfl⟩
      decide
    have hle := (hopt.least 0 1 (by decide) hcost.1).2 6 (.one hact)
    omega

end Telephony.Translate
