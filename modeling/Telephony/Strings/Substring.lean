import Telephony.Strings.Formatted

/-!
# Strings with parts of a text

The calls that copy a part of a text keep a place to write, a budget and a length, and extend the
buffer on the way. They go wrong in four ways: a call that sets the text counts on from the old
length; a byte and the backslash before it are written when there is room for one of them only; the
last byte that a budget pays for is replaced by the zero, but stays in the length; and a buffer of
one byte ends a copy with backslashes before it starts.
-/

namespace Telephony.Strings

open Lib List

/-! ## What is copied -/

variable {c : UInt8} {maxsrc : ℕ} {escapecommas : Bool} {k' : Copier}

lemma portion_cons (hc : c ≠ 0) (hmax : maxsrc ≠ 0) (src : List UInt8) :
    portion (c :: src) maxsrc = c :: portion src (maxsrc - 1) := by
  obtain ⟨m, rfl⟩ := Nat.exists_eq_succ_of_ne_zero hmax
  unfold portion
  rw [takeWhile_cons_of_pos (by simpa using hc)]
  rfl

lemma portion_nil (h : c = 0 ∨ maxsrc = 0) (src : List UInt8) : portion (c :: src) maxsrc = [] := by
  unfold portion
  rcases h with rfl | rfl
  · rw [takeWhile_cons_of_neg (by decide), take_nil]
  · exact take_zero

lemma escape_cons (escapecommas : Bool) (c : UInt8) (src : List UInt8) :
    escape escapecommas (c :: src) = piece escapecommas c ++ escape escapecommas src := flatMap_cons

lemma piece_of_special (h : escapecommas = true ∧ special c = true) : piece escapecommas c = [92, c] := if_pos h

lemma piece_of_plain (h : ¬ (escapecommas = true ∧ special c = true)) : piece escapecommas c = [c] := if_neg h

/-! ## Between two bytes -/

structure Placed (k : Copier) (text : List UInt8) : Prop where
  begins : k.exec.buf.str.slice 0 text.length = text
  nonzero : 0 ∉ text
  ptr : k.ptr = text.length
  used : k.exec.buf.used = text.length
  small : k.exec.buf.len + sizeofAstStr < 2 ^ 63
  inside : ∀ w ∈ k.exec.touched, w.Inside

structure Copying (dynamic escapecommas : Bool) (k : Copier) (text rest : List UInt8) : Prop extends
    Placed k text where
  room : k.ptr < k.exec.buf.len
  budget : 0 < k.maxLen
  next : escapecommas = true → k.maxLen ≠ 1 → ∀ c ∈ rest.head?, special c = true → k.ptr + 1 < k.exec.buf.len
  spare : dynamic = false → ∀ front c, front ++ [c] <+: rest →
    ((escape escapecommas front).length + (piece escapecommas c).length : ℤ) = k.maxLen →
    (escapecommas = true → special c = true) → (k.exec.buf.len : ℤ) ≤ k.ptr + k.maxLen + 3
  whole : dynamic = true → escapecommas = true → rest ≠ [] → k.maxLen ≠ 1
  wide : dynamic = true → escapecommas = true → rest ≠ [] → 2 ≤ k.exec.buf.len

variable {a : Allocator} {dynamic escapecommas : Bool} {k : Copier} {text rest : List UInt8} {c : UInt8}

lemma Placed.put (h : Placed k text) (hc : c ≠ 0) (hroom : k.ptr < k.exec.buf.len) :
    Placed (k.put c) (text ++ [c]) := by
  have hsml := h.small
  have hptr := h.ptr
  have hstr : (k.put c).exec.buf.str = k.exec.buf.str.write text.length [c] := hptr ▸ write_str (by omega) _
  refine ⟨?_, ?_, ?_, ?_, h.small, write_inside h.inside hroom⟩
  · rw [hstr, length_append, Memory.slice_write_append, h.begins]
  · intro hmem
    rcases mem_append.mp hmem with hmem | hmem
    · exact h.nonzero hmem
    · exact hc (mem_singleton.mp hmem).symm
  · rw [length_append, ← hptr]
    rfl
  · rw [length_append, ← h.used]
    rfl

lemma Placed.putEscaped (h : Placed k text) (hc : c ≠ 0)
    (hroom : k.ptr + (piece escapecommas c).length ≤ k.exec.buf.len) :
    Placed (k.putEscaped escapecommas c) (text ++ piece escapecommas c) ∧
      (k.putEscaped escapecommas c).maxLen = k.maxLen - (piece escapecommas c).length ∧
      (k.putEscaped escapecommas c).exec.buf.len = k.exec.buf.len ∧
      (k.putEscaped escapecommas c).exec.failed = k.exec.failed := by
  unfold Copier.putEscaped
  split_ifs with hspc
  · rw [piece_of_special hspc] at hroom ⊢
    simp only [length_cons] at hroom
    have hfst := h.put (c := 92) (by decide) (by omega)
    have hboth := hfst.put hc (show k.ptr + 1 < k.exec.buf.len by omega)
    rw [append_assoc] at hboth
    refine ⟨hboth, ?_, rfl, rfl⟩
    change k.maxLen - 1 - 1 = k.maxLen - 2
    omega
  · rw [piece_of_plain hspc] at hroom ⊢
    exact ⟨h.put hc hroom, rfl, rfl, rfl⟩

section

variable (h : Copying dynamic escapecommas k text (c :: rest)) (hgo : escapecommas = false ∨ k.maxLen - 1 ≠ 0)
include h hgo

lemma Copying.piece_fits : k.ptr + (piece escapecommas c).length ≤ k.exec.buf.len ∧
      ((piece escapecommas c).length : ℤ) ≤ k.maxLen := by
  have hroom := h.room
  have hbudget := h.budget
  by_cases hspc : escapecommas = true ∧ special c = true
  · have hone : k.maxLen ≠ 1 := by
      rcases hgo with hpln | hone
      · exact absurd hspc.1 (by rw [hpln]; decide)
      · omega
    have hnext := h.next hspc.1 hone c rfl hspc.2
    rw [piece_of_special hspc]
    simp only [length_cons, length_nil]
    omega
  · rw [piece_of_plain hspc]
    simp only [length_cons, length_nil]
    omega

lemma Copying.goOn (hpld : Placed k' (text ++ piece escapecommas c))
    (hmax : k'.maxLen = k.maxLen - (piece escapecommas c).length) (hlen : k'.exec.buf.len = k.exec.buf.len)
    (htgt : ¬ k'.Tight dynamic escapecommas) :
    Copying dynamic escapecommas k' (text ++ piece escapecommas c) rest := by
  have hfits := (h.piece_fits hgo).2
  have hptr : k'.ptr = k.ptr + (piece escapecommas c).length := by rw [hpld.ptr, length_append, h.ptr]
  unfold Copier.Tight at htgt
  push Not at htgt
  obtain ⟨hroom, hdyn⟩ := htgt
  have hspr : dynamic = false → ∀ front c', front ++ [c'] <+: rest →
      ((escape escapecommas front).length + (piece escapecommas c').length : ℤ) = k'.maxLen →
      (escapecommas = true → special c' = true) → (k'.exec.buf.len : ℤ) ≤ k'.ptr + k'.maxLen + 3 := by
    intro hstc front c' hpre hsum hlast
    have hbef := h.spare hstc (c :: front) c' (prefix_cons_inj c |>.mpr hpre)
      (by rw [escape_cons, length_append]; omega) hlast
    omega
  refine ⟨hpld, by omega, ?_, fun _ _ _ _ _ => by omega, hspr, fun hd he _ => ?_, fun _ _ _ => by omega⟩
  · by_contra hzero
    have hnone : k'.maxLen = 0 := by omega
    cases dynamic with
    | true => exact (hdyn rfl).1 hnone
    | false =>
      -- the budget is used up by this byte: then the buffer is too, and is extended
      have hend := h.spare rfl [] c ⟨rest, rfl⟩ (by simp only [escape, flatMap_nil, length_nil]; omega) ?_
      · omega
      · intro he
        by_contra hpln
        have hone : (piece escapecommas c).length = 1 := by
          rw [piece_of_plain fun hboth => hpln hboth.2]
          rfl
        rcases hgo with hno | hno
        · rw [he] at hno
          cases hno
        · omega
  · have hone := (hdyn hd).2 he
    omega

end

lemma Copying.extend (a : Allocator) (h : Copying dynamic escapecommas k text (c :: rest))
    (hgo : escapecommas = false ∨ k.maxLen - 1 ≠ 0) (hpld : Placed k' (text ++ piece escapecommas c))
    (hlen : k'.exec.buf.len = k.exec.buf.len) (htgt : k'.Tight dynamic escapecommas)
    (hsml : k'.exec.buf.len * 2 + sizeofAstStr < 2 ^ 63) :
    Copying dynamic escapecommas
      ⟨{ k'.exec with buf := k'.exec.buf.realloc a (k'.exec.buf.len * 2) }, k'.ptr, toSsize k'.exec.buf.len⟩
      (text ++ piece escapecommas c) rest := by
  have hroom := h.room
  have hfits := (h.piece_fits hgo).1
  have hptr : k'.ptr = k.ptr + (piece escapecommas c).length := by rw [hpld.ptr, length_append, h.ptr]
  have hleng : (text ++ piece escapecommas c).length = k'.ptr := hpld.ptr.symm
  have hsize : toSsize k'.exec.buf.len = k'.exec.buf.len := toSsize_natCast (by omega)
  rw [hsize]
  refine ⟨{ hpld with begins := ?_, small := hsml }, ?_, ?_, ?_, ?_, ?_, ?_⟩
  · refine (Memory.slice_congr fun i hi => ?_).trans hpld.begins
    exact if_pos (by omega)
  · change k'.ptr < k'.exec.buf.len * 2
    omega
  · change (0 : ℤ) < k'.exec.buf.len
    omega
  · intro he hone c' hc' hspc
    change k'.ptr + 1 < k'.exec.buf.len * 2
    change (k'.exec.buf.len : ℤ) ≠ 1 at hone
    omega
  · intro hstc front c' hpre hsum hlast
    change ((k'.exec.buf.len * 2 : ℕ) : ℤ) ≤ k'.ptr + k'.exec.buf.len + 3
    rcases htgt with hend | ⟨hdyn, -⟩
    · omega
    · rw [hstc] at hdyn
      cases hdyn
  · intro hd he hrest
    have hwide := h.wide hd he (cons_ne_nil _ _)
    change (k'.exec.buf.len : ℤ) ≠ 1
    omega
  · intro hd he hrest
    change 2 ≤ k'.exec.buf.len * 2
    omega

/-! ## All bytes -/

lemma copyLoop_spec (a : Allocator) (src : List UInt8) (maxsrc : ℕ)
    (h : Copying dynamic escapecommas k text (portion src maxsrc))
    (hgr : (copyLoop a dynamic escapecommas src maxsrc k).exec.failed = false) :
    ∃ copied left, portion src maxsrc = copied ++ left ∧ (dynamic = true → left = []) ∧
      Copying dynamic escapecommas (copyLoop a dynamic escapecommas src maxsrc k) (text ++ escape escapecommas copied)
        left := by
  induction src generalizing maxsrc k text with
  | nil => exact ⟨[], [], by simp [portion], fun _ => rfl, by simpa [portion, escape, copyLoop] using h⟩
  | cons c src ih =>
    unfold copyLoop at hgr ⊢
    by_cases hend : c = 0 ∨ maxsrc = 0
    · -- the end of the source
      rw [if_neg (by tauto)]
      rw [portion_nil hend] at h ⊢
      exact ⟨[], [], rfl, fun _ => rfl, by simpa [escape] using h⟩
    push Not at hend
    obtain ⟨hc, hmax⟩ := hend
    rw [portion_cons hc hmax] at h ⊢
    by_cases hgo : escapecommas = false ∨ k.maxLen - 1 ≠ 0
    · have hbudget := h.budget
      rw [if_pos ⟨hc, hmax, by omega, hgo⟩] at hgr ⊢
      obtain ⟨hpld, hmaxLen, hlen, hflag⟩ := h.toPlaced.putEscaped hc (h.piece_fits hgo).1
      have hall : ∀ copied, text ++ piece escapecommas c ++ escape escapecommas copied =
          text ++ escape escapecommas (c :: copied) := fun copied => by
        rw [escape_cons, append_assoc]
      by_cases htgt : (k.putEscaped escapecommas c).Tight dynamic escapecommas
      · rw [if_pos htgt] at hgr ⊢
        have hsml := hpld.small
        have hroom := h.room
        unfold sizeofAstStr at hsml
        have hdouble : (k.putEscaped escapecommas c).exec.buf.len * 2 % 2 ^ 64 =
            (k.putEscaped escapecommas c).exec.buf.len * 2 := Nat.mod_eq_of_lt (by omega)
        rw [hdouble] at hgr ⊢
        rcases makeSpace_cases a (k.putEscaped escapecommas c).exec
          (show _ < (k.putEscaped escapecommas c).exec.buf.len * 2 by omega) with ⟨hmade, hlim⟩ | hmade
        · rw [hmade] at hgr ⊢
          have hfits : (k.putEscaped escapecommas c).exec.buf.len * 2 + sizeofAstStr < 2 ^ 63 := by
            unfold sizeofAstStr at hlim ⊢
            omega
          obtain ⟨copied, left, hspl, hwh, hcopy⟩ :=
            ih _ (h.extend a hgo hpld hlen htgt hfits) hgr
          exact ⟨c :: copied, left, by rw [hspl]; rfl, hwh, hall copied ▸ hcopy⟩
        · rw [hmade] at hgr
          cases hgr
      · rw [if_neg htgt] at hgr ⊢
        obtain ⟨copied, left, hspl, hwh, hcopy⟩ :=
          ih _ (h.goOn hgo hpld hmaxLen hlen htgt) hgr
        exact ⟨c :: copied, left, by rw [hspl]; rfl, hwh, hall copied ▸ hcopy⟩
    · -- the budget does not pay for a byte with its backslash
      rw [if_neg (by tauto)]
      refine ⟨[], c :: portion src (maxsrc - 1), rfl, fun hd => ?_, by simpa [escape] using h⟩
      push Not at hgo
      have hone := h.whole hd (by simpa using hgo.1) (cons_ne_nil _ _)
      omega

/-! ## A call -/

def AstStr.startOf (s : AstStr) (append : Bool) : ℕ := if append then s.used else 0

def AstStr.budgetOf (s : AstStr) (maxLen : ℤ) : ℤ := if maxLen < 1 then s.len else maxLen

/-- A call that sets the text finds none; there is room for the first byte with its backslash; if
the budget is spent on a part of the source, then not before the end of the buffer is near; and a
copy with backslashes and without a budget finds more than one byte. -/
structure Spares (s : AstStr) (append escapecommas : Bool) (maxLen : ℤ) (source : List UInt8) : Prop where
  unset : append = true ∨ s.used = 0
  pair : escapecommas = true → s.budgetOf maxLen ≠ 1 → ∀ c ∈ source.head?, special c = true →
    s.startOf append + 1 < s.len
  spent : maxLen ≠ 0 → ∀ front c, front ++ [c] <+: source →
    ((escape escapecommas front).length + (piece escapecommas c).length : ℤ) = s.budgetOf maxLen →
    (escapecommas = true → special c = true) → (s.len : ℤ) ≤ s.startOf append + s.budgetOf maxLen + 3
  single : maxLen = 0 → escapecommas = true → source ≠ [] → s.len ≠ 1

variable {s : AstStr} {t t' : List UInt8} {append : Bool} {maxLen : ℤ} {src : List UInt8} {maxsrc : ℕ}

lemma AstStr.Holds.copying (h : s.Holds t) (hsps : Spares s append escapecommas maxLen (portion src maxsrc)) :
    Copying (maxLen = 0) escapecommas ⟨s.enter, s.startOf append, s.budgetOf maxLen⟩ (kept append t)
      (portion src maxsrc) := by
  have hroom := h.room
  have hused := h.used
  have hsta : s.startOf append = (kept append t).length := by
    cases append with
    | false => rfl
    | true => exact hused
  have hkept := kept_length_le append t
  have hbudget : 0 < s.budgetOf maxLen ∧ (maxLen = 0 → s.budgetOf maxLen = s.len) := by
    unfold AstStr.budgetOf
    split_ifs with hnone
    · exact ⟨by omega, fun _ => rfl⟩
    · exact ⟨by omega, fun hzero => by omega⟩
  refine ⟨⟨(h.ready append).begins, h.kept_nonzero append, hsta, ?_, h.small, (h.ready append).inside⟩, ?_,
    hbudget.1, hsps.pair, fun hstc => hsps.spent (of_decide_eq_false hstc), fun hdyn he hrest => ?_,
    fun hdyn he hrest => ?_⟩
  · rcases hsps.unset with rfl | hemp
    · exact hused
    · change s.used = (kept append t).length
      omega
  · change s.startOf append < s.len
    omega
  · have hzero := of_decide_eq_true hdyn
    have hsgl := hsps.single hzero he hrest
    change s.budgetOf maxLen ≠ 1
    omega
  · have hsgl := hsps.single (of_decide_eq_true hdyn) he hrest
    change 2 ≤ s.len
    omega

lemma strHelper2_spec (a : Allocator) (h : s.Holds t)
    (hsps : Spares s append escapecommas maxLen (portion src maxsrc))
    (hgr : (strHelper2 a append escapecommas maxLen src maxsrc s).failed = false) :
    ∃ copied, (maxLen = 0 → copied = portion src maxsrc) ∧
      (strHelper2 a append escapecommas maxLen src maxsrc s).buf.Holds
        (kept append t ++ escape escapecommas copied) ∧
      ∀ w ∈ (strHelper2 a append escapecommas maxLen src maxsrc s).touched, w.Inside := by
  have hsml := h.small
  have hsize : toSsize s.len = s.len := toSsize_natCast (by omega)
  obtain ⟨k, hk, hres⟩ : ∃ k, k = copyLoop a (maxLen = 0) escapecommas src maxsrc
        ⟨s.enter, s.startOf append, s.budgetOf maxLen⟩ ∧
      strHelper2 a append escapecommas maxLen src maxsrc s =
        k.exec.write (if k.maxLen = 0 then (k.ptr : ℤ) - 1 else k.ptr) [0] := by
    refine ⟨_, rfl, ?_⟩
    unfold strHelper2
    rw [hsize]
    rfl
  rw [hres] at hgr ⊢
  obtain ⟨copied, left, hspl, hwh, hcopy⟩ :=
    copyLoop_spec a src maxsrc (h.copying hsps) (by rw [← hk]; exact hgr)
  rw [← hk] at hcopy
  have hbudget := hcopy.budget
  have hroom := hcopy.room
  have hptr := hcopy.ptr
  have hksmall := hcopy.small
  rw [if_neg (by omega)]
  refine ⟨copied, fun hzero => ?_, { hcopy with spells := ?_, room := ?_ }, write_inside hcopy.inside hroom⟩
  · rw [hspl, hwh (decide_eq_true hzero), append_nil]
  · have hstr : (k.exec.write k.ptr [0]).buf.str =
        k.exec.buf.str.write (kept append t ++ escape escapecommas copied).length [0] :=
      hptr ▸ write_str (by omega) _
    rw [Memory.spells_iff_slice, hstr]
    exact Memory.slice_write_append.trans (by rw [hcopy.begins])
  · change (kept append t ++ escape escapecommas copied).length < k.exec.buf.len
    omega

/-! ## Sequences of calls -/

def Op.Spared (s : AstStr) : Op → Prop
  | .format append _ text => 0 ∉ text ∧ s.startOf append + text.length < 2 ^ 30
  | .substr append escapecommas maxLen src maxsrc => Spares s append escapecommas maxLen (portion src maxsrc)
  | op => op.Shortens

/-- A call writes inside the buffer, the length that is noted is that of the text, and without a
limit this is the text that is intended. -/
structure CopySound (s : AstStr) (call : Call) (e : Exec) : Prop where
  inside : ∀ w ∈ e.touched, w.Inside
  used : e.buf.contents.map List.length = some e.buf.used
  contents : call.op.maxLen = 0 → ∃ t, s.contents = some t ∧ e.buf.contents = some (call.op.intended t)

def Served (s : AstStr) (call : Call) : Prop :=
  call.op.Spared s ∧ ∀ e, step s call = some e → e.failed = false

variable {call : Call}

lemma CopySound.of_holds {e : Exec} (h : s.Holds t) (hin : ∀ w ∈ e.touched, w.Inside)
    (hh : e.buf.Holds t') (hwh : call.op.maxLen = 0 → t' = call.op.intended t) : CopySound s call e where
  inside := hin
  used := by rw [hh.contents, hh.used]; rfl
  contents := fun hzero => ⟨t, h.contents, by rw [hh.contents, hwh hzero]⟩

lemma CopySound.of_shorter (h : s.Holds t) (hop : call.op.Shortens) :
    ∃ e, step s call = some e ∧ CopySound s call e ∧ ∃ t', e.buf.Holds t' := by
  obtain ⟨e, hstep, -, -, hh, hin⟩ := step_shorter h hop
  exact ⟨e, hstep, .of_holds h hin hh fun _ => rfl, _, hh⟩

lemma step_copied (h : s.Holds t) (hsvd : Served s call) :
    ∃ e, step s call = some e ∧ CopySound s call e ∧ ∃ t', e.buf.Holds t' := by
  obtain ⟨hspd, hgr⟩ := hsvd
  obtain ⟨op, a⟩ := call
  cases op with
  | format append maxLen text =>
    have hlen : s.startOf append = (kept append t).length := by
      cases append with
      | false => rfl
      | true => exact h.used
    have htot : s.startOf append + text.length < 2 ^ 30 := hspd.2
    obtain ⟨e, hstep, hlv⟩ := strHelper_spec a append maxLen h hspd.1 (by omega)
    refine ⟨e, hstep, .of_holds h hlv.inside hlv.holds fun hzero => ?_, _, hlv.holds⟩
    have hroom := hlv.whole hzero (hgr e hstep)
    exact take_of_length_le (by rw [length_append]; omega)
  | substr append escapecommas maxLen src maxsrc =>
    obtain ⟨copied, hwh, hh, hin⟩ := strHelper2_spec a h hspd (hgr _ rfl)
    exact ⟨_, rfl, .of_holds h hin hh fun hzero => by rw [hwh hzero]; rfl, _, hh⟩
  | reset | truncate len | trimBlanks => exact CopySound.of_shorter h hspd

/-- **Copied strings are sound**: in every sequence of calls that are spared and get the memory they
ask for, each call ends and does what it is to do. -/
theorem copies_sound (s : AstStr) (t : List UInt8) (h : s.Holds t) (calls : List Call)
    (hserved : Each next Served s calls) :
    Each next (fun s call => ∃ e, step s call = some e ∧ CopySound s call e) s calls := by
  refine hserved.imp_of_inv (I := fun s => ∃ t, s.Holds t) ?_ ⟨t, h⟩
  rintro s call ⟨t, h⟩ hcall
  obtain ⟨e, hstep, hsnd, hh⟩ := step_copied h hcall
  refine ⟨⟨e, hstep, hsnd⟩, fun s' hnext => ?_⟩
  rw [next, hstep] at hnext
  cases hnext
  exact hh

/-- `a,b` with a backslash before the comma, then `cd`. -/
theorem copies_sound_comma :
    Each next (fun s call => ∃ e, step s call = some e ∧ CopySound s call e) (.create 16 .malloc fun _ => 7)
      [⟨.substr true true 0 [97, 44, 98] 3, .generous fun _ => 7⟩,
        ⟨.substr true false (-1) [99, 100] 2, .generous fun _ => 7⟩] := by
  refine copies_sound _ [] (AstStr.create_holds _ _ (by decide) (by decide)) _ ⟨⟨?_, ?_⟩, fun s hs => ⟨⟨?_, ?_⟩, ?_⟩⟩
  · refine ⟨.inl rfl, fun _ _ c hc hspc => ?_, fun hne => absurd rfl hne, fun _ _ _ => by decide⟩
    cases hc
    cases hspc
  · rintro e he
    obtain rfl := Option.some.inj he
    decide
  · refine ⟨.inl rfl, nofun, fun _ _ _ _ _ _ => ?_, fun hzero => ?_⟩
    · rw [AstStr.budgetOf]
      omega
    · cases hzero
  · rintro e he
    obtain rfl := Option.some.inj hs
    obtain rfl := Option.some.inj he
    decide
  · exact fun _ _ => trivial

/-- A buffer of four bytes that is full, then a comma: the backslash is the last byte, the comma is
behind it. -/
theorem copies_not_sound :
    ¬ Each next (fun s call => ∃ e, step s call = some e ∧ CopySound s call e) (.create 4 .malloc fun _ => 7)
      [⟨.format false (-1) [97, 98, 99], .generous fun _ => 7⟩, ⟨.substr true true 0 [44] 1, .generous fun _ => 7⟩] := by
  rintro ⟨-, hrest⟩
  have htouched : ((step (.create 4 .malloc fun _ => 7)
      ⟨.format false (-1) [97, 98, 99], .generous fun _ => 7⟩).map fun e =>
        (strHelper2 (.generous fun _ => 7) true true 0 [44] 1 e.buf).touched) =
          some [⟨3, 1, 4⟩, ⟨4, 1, 4⟩, ⟨5, 1, 8⟩] := by
    decide +kernel
  obtain ⟨e, he, hcomma⟩ := Option.map_eq_some_iff.mp htouched
  obtain ⟨⟨e', hstep, hsnd⟩, -⟩ := hrest e.buf (by rw [next, he]; rfl)
  obtain rfl := Option.some.inj hstep
  exact absurd (hsnd.inside ⟨4, 1, 4⟩ (by rw [hcomma]; decide)) (by decide)

end Telephony.Strings
