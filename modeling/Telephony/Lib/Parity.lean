import Mathlib.Data.List.Basic

/-!
# Recovering one erased value from a parity

A parity is the combination of a family of values under a commutative, associative operation for
which every element is its own inverse (exclusive or, for words). Combining the parity with all
values but one gives the missing one.
-/

namespace Telephony.Lib

open List

section Parity

variable {ι β : Type*} (op : β → β → β) (e : β)

def parity (f : ι → β) (l : List ι) : β := l.foldl (fun b i => op b (f i)) e

lemma parity_congr {f g : ι → β} {l : List ι} (h : ∀ i ∈ l, f i = g i) : parity op e f l = parity op e g l :=
  foldl_ext _ _ _ fun b i hi => by rw [h i hi]

variable [Std.Associative op] [Std.LawfulIdentity op e]

lemma foldl_eq_op_parity (f : ι → β) (l : List ι) (a : β) :
    l.foldl (fun b i => op b (f i)) a = op a (parity op e f l) := by
  induction l generalizing a with
  | nil => exact (Std.LawfulRightIdentity.right_id a).symm
  | cons i l ih =>
    have hassoc : ∀ a b c, op (op a b) c = op a (op b c) := Std.Associative.assoc
    have hleft : ∀ b, op e b = b := Std.LawfulLeftIdentity.left_id
    simp only [parity, foldl_cons]
    rw [ih, ih (op e (f i)), hassoc, hleft]

lemma parity_append (f : ι → β) (l l' : List ι) :
    parity op e f (l ++ l') = op (parity op e f l) (parity op e f l') := by
  rw [parity, foldl_append, foldl_eq_op_parity]
  rfl

lemma parity_cons (f : ι → β) (i : ι) (l : List ι) : parity op e f (i :: l) = op (f i) (parity op e f l) := by
  have hleft : ∀ b, op e b = b := Std.LawfulLeftIdentity.left_id
  rw [parity, foldl_cons, foldl_eq_op_parity, hleft]

variable [Std.Commutative op]

lemma foldl_parity_recover (hinv : ∀ b, op b b = e) {f g : ι → β} {pre post : List ι} {w : ι}
    (hg : ∀ i ∈ pre ++ post, g i = f i) (hw : g w = e) :
    (pre ++ w :: post).foldl (fun b i => op b (g i)) (parity op e f (pre ++ w :: post)) = f w := by
  have hpre : parity op e g pre = parity op e f pre :=
    parity_congr op e fun i hi => hg i (mem_append_left _ hi)
  have hpost : parity op e g post = parity op e f post :=
    parity_congr op e fun i hi => hg i (mem_append_right _ hi)
  have hleft : ∀ b, op e b = b := Std.LawfulLeftIdentity.left_id
  have hrt : ∀ b, op b e = b := Std.LawfulRightIdentity.right_id
  rw [foldl_eq_op_parity, parity_append, parity_append, parity_cons, parity_cons, hpre, hpost, hw, hleft]
  generalize parity op e f pre = a
  generalize parity op e f post = b
  calc op (op a (op (f w) b)) (op a b)
      = op (f w) (op (op a a) (op b b)) := by ac_rfl
    _ = f w := by rw [hinv, hinv, hinv, hrt]

end Parity

end Telephony.Lib
