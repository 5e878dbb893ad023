import Mathlib.Algebra.Ring.Nat
import Telephony.Translate.Matrix

/-!
# Following a translation path

`ast_translator_build_path` asks the matrix for the first translator on the way, then for the first
one from where that leads, and so on. Each entry was written with the start of a chain of its cost,
and in a stable matrix the next entry costs no more than the rest of that chain.
-/

namespace Telephony.Translate

open Lib List

variable {n : ℕ} {ts : List (Translator n)} {m : Matrix n} {x z : Fin n}

/-- The translators that a path is built of; `none` if there is no translator, or if the rounds are
used up.
Source: `ast_translator_build_path` -/
def buildPath (m : Matrix n) (dst : Fin n) : ℕ → Fin n → Option (List (Translator n))
  | 0, _ => none
  | fuel + 1, src =>
    if src = dst then some []
    else
      match (m src dst).step with
      | none => none
      | some t => (buildPath m dst fuel t.dst).map (t :: ·)

/-- The translators lead from one codec to another. -/
def Leads (x z : Fin n) : List (Translator n) → Prop
  | [] => x = z
  | t :: path => t.src = x ∧ Leads t.dst z path

/-- Each entry has the first translator of a chain that costs no more than the entry. -/
def Headed (ts : List (Translator n)) (m : Matrix n) : Prop :=
  ∀ x z t, (m x z).step = some t → t.src = x ∧
    (t.dst = z ∧ t.tableCost ≤ (m x z).tableCost ∨
      ∃ c, Chain (Picked ts) t.dst z c ∧ t.tableCost + c ≤ (m x z).tableCost)

lemma direct_headed (ts : List (Translator n)) : Headed ts (direct ts) := by
  intro x z t ht
  obtain ⟨-, -, hsrc, hdst, hcost⟩ := (direct_seeded ts).entry x z t ht
  exact ⟨hsrc, .inl ⟨hdst, hcost.ge⟩⟩

lemma headed_kept (ts : List (Translator n)) : Kept fun m => Inv ts m ∧ Headed ts m := by
  rintro m k x y z ⟨hinv, hheaded⟩ hsum
  refine ⟨hinv.relax k x y z hsum, ?_⟩
  simp only [relax]
  split_ifs with himp
  · intro a b t ht
    dsimp only at ht ⊢
    by_cases hpl : a = x ∧ b = z
    · obtain ⟨rfl, rfl⟩ := hpl
      have hlt := hsum himp.1
      obtain ⟨-, -, -, hyz⟩ := himp.1
      rw [Matrix.set_self] at ht ⊢
      have hnew : (wayOver m a y b).tableCost = (m a y).tableCost + (m y b).tableCost :=
        Nat.mod_eq_of_lt (by omega)
      rw [hnew]
      obtain ⟨hsrc, ⟨rfl, hle⟩ | ⟨c, hchn, hle⟩⟩ := hheaded a y t ht
      · exact ⟨hsrc, .inr ⟨_, hinv.sound _ b hyz, by omega⟩⟩
      · exact ⟨hsrc, .inr ⟨_, hchn.append (hinv.sound y b hyz), by omega⟩⟩
    · rw [Matrix.set_of_ne _ _ hpl] at ht ⊢
      exact hheaded a b t ht
  · exact hheaded

/-- In a stable matrix the entry behind the first translator is set and costs less. -/
lemma Headed.next (h : Headed ts m) (hinv : Inv ts m) (hstb : Stable m) {t : Translator n}
    (ht : (m x z).step = some t) :
    t.src = x ∧ (t.dst = z ∧ t.tableCost ≤ (m x z).tableCost ∨
      t.dst ≠ z ∧ (m t.dst z).step.isSome ∧ t.tableCost + (m t.dst z).tableCost ≤ (m x z).tableCost) := by
  obtain ⟨hsrc, hrest⟩ := h x z t ht
  refine ⟨hsrc, ?_⟩
  by_cases hdst : t.dst = z
  · refine .inl ⟨hdst, ?_⟩
    obtain ⟨-, hle⟩ | ⟨c, -, hle⟩ := hrest
    · exact hle
    · omega
  obtain ⟨hz, -⟩ | ⟨c, hchn, hle⟩ := hrest
  · exact absurd hz hdst
  obtain ⟨hiff, hleast⟩ := hinv.least hstb hdst
  have hset := hiff.mpr ⟨c, hchn⟩
  have := hleast hset c hchn
  exact .inr ⟨hdst, hset, by omega⟩

/-- With enough rounds, the loop builds a path from `x` to `z`. -/
def Builds (m : Matrix n) (x z : Fin n) (path : List (Translator n)) : Prop :=
  (∀ fuel, (m x z).tableCost + 1 < fuel → buildPath m z fuel x = some path) ∧ Leads x z path

/-- Induction on the cost, which each translator makes less. -/
lemma Headed.follow (h : Headed ts m) (hinv : Inv ts m) (hstb : Stable m) {x : Fin n}
    (hset : (m x z).step.isSome) :
    ∃ path, Builds m x z path ∧
      (x :: path.map Translator.dst).Nodup ∧ (path.map Translator.tableCost).sum ≤ (m x z).tableCost ∧
      ∀ v ∈ path.map Translator.dst, v = z ∨ (m v z).tableCost < (m x z).tableCost := by
  by_cases hxz : x = z
  · refine ⟨[], ⟨fun fuel hfuel => ?_, hxz⟩, by simp, by simp, by simp⟩
    obtain _ | fuel := fuel
    · omega
    · exact if_pos hxz
  obtain ⟨t, ht⟩ := Option.isSome_iff_exists.mp hset
  have hpos := t.table_pos
  have hbuild : ∀ fuel, buildPath m z (fuel + 1) x = (buildPath m z fuel t.dst).map (t :: ·) := by
    intro fuel
    rw [buildPath, if_neg hxz, ht]
  obtain ⟨hsrc, ⟨rfl, hle⟩ | ⟨hdst, hnext, hle⟩⟩ := h.next hinv hstb ht
  · refine ⟨[t], ⟨fun fuel hfuel => ?_, hsrc, rfl⟩, by simpa using hxz, by simpa using hle, by simp⟩
    obtain _ | _ | fuel := fuel
    · omega
    · omega
    · rw [hbuild, buildPath, if_pos rfl]
      rfl
  obtain ⟨path, ⟨hrun, hleads⟩, hnd, hsum, hless⟩ := h.follow hinv hstb hnext
  have hchp : ∀ v ∈ t.dst :: path.map Translator.dst, v = z ∨ (m v z).tableCost < (m x z).tableCost := by
    intro v hv
    rcases mem_cons.mp hv with rfl | hv
    · exact .inr (by omega)
    · exact (hless v hv).imp_right fun hlt => by omega
  refine ⟨t :: path, ⟨fun fuel hfuel => ?_, hsrc, hleads⟩, ?_, ?_, hchp⟩
  · obtain _ | fuel := fuel
    · omega
    · rw [hbuild, hrun fuel (by omega)]
      rfl
  · refine nodup_cons.mpr ⟨fun hx => ?_, hnd⟩
    rcases hchp x hx with rfl | hlt
    · exact hxz rfl
    · omega
  · rw [map_cons, sum_cons]
    omega
termination_by (m x z).tableCost

/-- From each entry that is set the loop comes to the destination, over no codec twice, with steps
that cost no more than the entry. -/
def Followable (m : Matrix n) : Prop :=
  ∀ x z, (m x z).step.isSome →
    ∃ path, Builds m x z path ∧
      (x :: path.map Translator.dst).Nodup ∧ (path.map Translator.tableCost).sum ≤ (m x z).tableCost

/-- **Translation paths are followed to their end**, for all translators and all costs whose sums
stay below 2^31. -/
theorem buildPath_ends (ts : List (Translator n)) (samples : Option (ℕ → ℕ+))
    (hsums : SumsBelow (direct (measured samples ts))) :
    ∃ m, (∀ fuel, n * n * 2 ^ 32 < fuel → matrixRebuild ts samples fuel = some m) ∧ Followable m := by
  obtain ⟨m, ⟨⟨hinv, hheaded⟩, hstb⟩, hrun⟩ :=
    (headed_kept _).matrixRebuild_ends ts samples ⟨direct_inv _, direct_headed _⟩ hsums
  refine ⟨m, hrun, fun x z hset => ?_⟩
  obtain ⟨path, hpath, hnd, hsum, -⟩ := hheaded.follow hinv hstb hset
  exact ⟨path, hpath, hnd, hsum⟩

theorem buildPath_ends_agreeing :
    ∃ m, (∀ fuel, 3 * 3 * 2 ^ 32 < fuel → matrixRebuild agreeing none fuel = some m) ∧ Followable m :=
  buildPath_ends agreeing none agreeing_sumsBelow

/-- Where a chain of the translators picked for their codecs leads, a path is built that costs no
more. -/
def Cheapest (ts : List (Translator n)) (m : Matrix n) : Prop :=
  ∀ x z, x ≠ z → ∀ c, Chain (Picked ts) x z c →
    ∃ path, Builds m x z path ∧ (path.map Translator.tableCost).sum ≤ c

/-- **Translation paths are cheapest** among the chains of picked translators. -/
theorem buildPath_cheapest (ts : List (Translator n)) (samples : Option (ℕ → ℕ+))
    (hsums : SumsBelow (direct (measured samples ts))) :
    ∃ m, (∀ fuel, n * n * 2 ^ 32 < fuel → matrixRebuild ts samples fuel = some m) ∧
      Cheapest (measured samples ts) m := by
  obtain ⟨m, ⟨⟨hinv, hheaded⟩, hstb⟩, hrun⟩ :=
    (headed_kept _).matrixRebuild_ends ts samples ⟨direct_inv _, direct_headed _⟩ hsums
  refine ⟨m, hrun, fun x z hne c hchn => ?_⟩
  obtain ⟨hiff, hleast⟩ := hinv.least hstb hne
  have hset := hiff.mpr ⟨c, hchn⟩
  obtain ⟨path, hpath, -, hsum, -⟩ := hheaded.follow hinv hstb hset
  exact ⟨path, hpath, hsum.trans (hleast hset c hchn)⟩

theorem buildPath_cheapest_agreeing : ∃ m, (∀ fuel, 3 * 3 * 2 ^ 32 < fuel → matrixRebuild agreeing none fuel = some m) ∧
    Cheapest (measured none agreeing) m :=
  buildPath_cheapest agreeing none agreeing_sumsBelow

end Telephony.Translate
