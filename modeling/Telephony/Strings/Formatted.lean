import Telephony.Strings.DynamicString

/-!
# Strings with formatted text

The calls that format a text try once, and when the text does not fit they grow the buffer and try
again. What they leave is the text that is wanted, cut to the buffer.
-/

namespace Telephony.Strings

open Lib List Nat Int

variable {n newLen m : ℕ} {len : ℤ}

/-! ## Writing -/

section Writing

variable {e : Exec} {s : AstStr} {t bytes : List UInt8}

lemma write_str {n : ℕ} (h : n < 2 ^ 64) (bytes : List UInt8) :
    (e.write n bytes).buf.str = e.buf.str.write n bytes := by
  unfold Exec.write
  rw [toSize_natCast h]

lemma write_inside (h : ∀ w ∈ e.touched, w.Inside) {n : ℕ}
    (hroom : n + bytes.length ≤ e.buf.len) : ∀ w ∈ (e.write n bytes).touched, w.Inside := by
  intro w hw
  rcases mem_append.mp hw with hw | hw
  · exact h w hw
  obtain rfl := mem_singleton.mp hw
  refine ⟨natCast_nonneg _, ?_⟩
  change (n : ℤ) + bytes.length ≤ e.buf.len
  omega

lemma kept_length_le (append : Bool) (t : List UInt8) : (kept append t).length ≤ t.length := by
  cases append with
  | false => exact zero_le _
  | true => exact le_rfl

lemma AstStr.Holds.kept_nonzero (h : s.Holds t) (append : Bool) : 0 ∉ kept append t := by
  cases append with
  | false => exact not_mem_nil
  | true => exact h.nonzero

end Writing

/-! ## One try -/

section Rounds

variable {a : Allocator} {e : Exec} {s : AstStr} {base text t : List UInt8} {maxLen : ℤ}

structure Ready (e : Exec) (base : List UInt8) : Prop where
  begins : e.buf.str.slice 0 base.length = base
  room : base.length < e.buf.len
  small : e.buf.len + sizeofAstStr < 2 ^ 63
  inside : ∀ w ∈ e.touched, w.Inside

lemma Ready.lt (h : Ready e base) : e.buf.len < 2 ^ 63 := by
  have hsml := h.small
  omega

def Exec.print (e : Exec) (base text : List UInt8) : Exec :=
  e.write base.length (text.take (e.buf.len - base.length - 1) ++ [0])

lemma take_base_append (h : base.length < e.buf.len) :
    (base ++ text).take (e.buf.len - 1) = base ++ text.take (e.buf.len - base.length - 1) := by
  rw [take_append, take_of_length_le (by omega)]
  congr 2
  omega

section

variable (h : Ready e base)
include h

lemma Ready.vsnprintf (htext : text.length < 2 ^ 31) :
    e.vsnprintf base.length (sizeSub e.buf.len (toSize base.length)) text =
      ((text.length : ℤ), e.print base text) := by
  have hroom := h.room
  have hlt := h.lt
  have hsize : sizeSub e.buf.len (toSize base.length) = e.buf.len - base.length := by
    rw [toSize_natCast (by omega), sizeSub_of_le hroom.le (by omega)]
  unfold Exec.vsnprintf
  rw [if_neg (by omega), hsize, if_neg (by omega)]
  rfl

lemma print_str : (e.print base text).buf.str =
    e.buf.str.write base.length (text.take (e.buf.len - base.length - 1) ++ [0]) := by
  have hroom := h.room
  have hlt := h.lt
  exact write_str (by omega) _

lemma Ready.print_spells : (e.print base text).buf.str.Spells 0 ((base ++ text).take (e.buf.len - 1)) := by
  rw [take_base_append h.room, Memory.spells_iff_slice, print_str h]
  have hlen : (base ++ text.take (e.buf.len - base.length - 1)).length + 1 =
      base.length + (text.take (e.buf.len - base.length - 1) ++ [0]).length := by
    simp only [length_append, length_singleton]
    omega
  rw [hlen, Memory.slice_write_append, h.begins, append_assoc]

lemma Ready.print : Ready (e.print base text) base where
  begins := by rw [print_str h, Memory.slice_write_behind, h.begins]
  room := h.room
  small := h.small
  inside := by
    have hroom := h.room
    refine write_inside h.inside ?_
    simp only [length_append, length_take, length_singleton]
    omega

end

lemma makeSpace_cases (a : Allocator) (e : Exec) (hbig : e.buf.len < newLen) :
    (e.makeSpace a newLen = (true, { e with buf := e.buf.realloc a newLen }) ∧
        (newLen + sizeofAstStr) % 2 ^ 64 < 2 ^ 63) ∨
      e.makeSpace a newLen = (false, { e with failed := true }) := by
  unfold Exec.makeSpace
  rw [if_neg (Nat.not_le.mpr hbig)]
  split_ifs with hstack hgrant
  · exact .inr rfl
  · exact .inl ⟨rfl, a.limit _ hgrant⟩
  · exact .inr rfl

lemma Ready.realloc (h : Ready e base) (a : Allocator) (hbig : e.buf.len < newLen)
    (hsml : newLen + sizeofAstStr < 2 ^ 63) : Ready { e with buf := e.buf.realloc a newLen } base where
  begins := by
    have hroom := h.room
    refine (Memory.slice_congr fun i hi => ?_).trans h.begins
    exact if_pos (by omega)
  room := Nat.lt_trans h.room hbig
  small := hsml
  inside := h.inside

def Ends (maxLen : ℤ) (need len : ℕ) : Prop := need ≤ len ∨ (maxLen ≠ 0 ∧ toSize maxLen ≤ len)

lemma wantedSize_spec {need len : ℕ} (hneed : need ≤ 2 ^ 30) (hmax : 0 ≤ maxLen) (h : ¬ Ends maxLen need len) :
    ∃ newLen : ℕ, toSize (wantedSize maxLen need) = newLen ∧ len < newLen ∧ newLen < 2 ^ 31 ∧
      Ends maxLen need newLen ∧ (0 < maxLen → newLen ≤ maxLen) ∧ (maxLen = 0 → need ≤ newLen) := by
  unfold Ends at h
  push Not at h
  obtain ⟨hbig, hcap⟩ := h
  unfold wantedSize
  split_ifs with hzero hcut
  · have hquarter : (need : ℤ).tdiv 4 = ((need / 4 : ℕ) : ℤ) := by
      rw [tdiv_eq_ediv_of_nonneg (by omega)]
      omega
    refine ⟨need + (16 + need / 4), ?_, by omega, by omega, .inl (by omega), fun hpos => by omega, fun _ => by omega⟩
    rw [int32_of_lt (by omega) (by omega)]
    unfold toSize
    omega
  · obtain ⟨m, rfl⟩ := eq_ofNat_of_zero_le hmax
    have hm := hcap hzero
    rw [toSize_natCast (by omega)] at hm
    refine ⟨m, ?_, hm, by omega, .inr ⟨hzero, ?_⟩, fun _ => Int.le_refl _, fun h => absurd h hzero⟩
    · rw [int32_of_lt (by omega) (by omega), toSize_natCast (by omega)]
    · rw [toSize_natCast (by omega)]
  · exact ⟨need, toSize_natCast (by omega), hbig, by omega, .inl le_rfl, fun _ => by omega,
      fun h => absurd h hzero⟩

section

variable (a : Allocator) (h : Ready e base) (htot : base.length + text.length < 2 ^ 30)
include h htot

lemma helperRound_printed : (Ends maxLen (base.length + text.length + 1) e.buf.len →
      helperRound a base.length maxLen text e = some (.inr ⟨e.print base text, text.length, text.length⟩)) ∧
    (¬ Ends maxLen (base.length + text.length + 1) e.buf.len → ∀ made,
      (e.print base text).makeSpace a (toSize (wantedSize maxLen ((base.length + text.length + 1 : ℕ) : ℤ))) = made →
      helperRound a base.length maxLen text e =
        if made.1 then some (.inl made.2) else some (.inr ⟨made.2, -1, text.length⟩)) := by
  have hneed : int32 ((base.length : ℤ) + text.length + 1) = ((base.length + text.length + 1 : ℕ) : ℤ) := by
    rw [int32_of_lt (by omega) (by omega)]
    omega
  unfold helperRound
  rw [h.vsnprintf (by omega)]
  dsimp only
  rw [hneed, toSize_natCast (by omega)]
  exact ⟨fun hends => if_pos hends, fun hends made hmade => hmade ▸ if_neg hends⟩

lemma helperRound_cases (hmax : 0 ≤ maxLen) (hends : ¬ Ends maxLen (base.length + text.length + 1) e.buf.len) :
    (∃ e', helperRound a base.length maxLen text e = some (.inl e') ∧ Ready e' base ∧ e.buf.len < e'.buf.len ∧
      Ends maxLen (base.length + text.length + 1) e'.buf.len ∧ (0 < maxLen → e'.buf.len ≤ maxLen) ∧
      (maxLen = 0 → base.length + text.length < e'.buf.len)) ∨
    helperRound a base.length maxLen text e =
      some (.inr ⟨{ e.print base text with failed := true }, -1, text.length⟩) := by
  obtain ⟨newLen, hwanted, hbig, hsml, hends', hcap, hall⟩ := wantedSize_spec (by omega) hmax hends
  have hrnd := (helperRound_printed a h htot).2 hends
  rw [hwanted] at hrnd
  rcases makeSpace_cases a (e.print base text) hbig with ⟨hmade, -⟩ | hmade
  · refine .inl ⟨{ e.print base text with buf := (e.print base text).buf.realloc a newLen }, ?_, ?_, hbig, hends',
      hcap, hall⟩
    · exact (hrnd _ hmade).trans (if_pos rfl)
    · exact h.print.realloc a hbig (by unfold sizeofAstStr; omega)
  · exact .inr ((hrnd _ hmade).trans (if_neg Bool.false_ne_true))

end

/-! ## A call -/

lemma AstStr.Holds.ready (h : s.Holds t) (append : Bool) : Ready s.enter (kept append t) where
  begins := by
    cases append with
    | false => rfl
    | true =>
      have hsl := congrArg (List.take t.length) (Memory.spells_iff_slice.mp h.spells)
      rwa [Memory.slice_take (le_succ _), take_left'] at hsl
      rfl
  room := by
    have hroom := h.room
    cases append with
    | false => exact lt_of_le_of_lt (zero_le _) hroom
    | true => exact hroom
  small := h.small
  inside := nofun

/-- What a call leaves that has kept `base`: this and the text, cut to a buffer that is as large as
it may be. -/
structure Leaves (s : AstStr) (base text : List UInt8) (maxLen : ℤ) (e : Exec) : Prop where
  holds : e.buf.Holds ((base ++ text).take (e.buf.len - 1))
  inside : ∀ w ∈ e.touched, w.Inside
  limited : 0 < maxLen → (e.buf.len : ℤ) ≤ max (s.len : ℤ) maxLen
  fixed : maxLen < 0 → e.buf.len = s.len
  whole : maxLen = 0 → e.failed = false → base.length + text.length < e.buf.len

lemma Ready.leaves (h : Ready e base) (hzero : 0 ∉ base ++ text) (htot : base.length + text.length < 2 ^ 30)
    (hsp : e.buf.str.Spells 0 ((base ++ text).take (e.buf.len - 1))) (res : ℤ)
    (hlimited : 0 < maxLen → (e.buf.len : ℤ) ≤ max (s.len : ℤ) maxLen) (hfixed : maxLen < 0 → e.buf.len = s.len)
    (hwh : maxLen = 0 → e.failed = false → base.length + text.length < e.buf.len) :
    Leaves s base text maxLen ((Formatted.mk e res text.length).close base.length) := by
  have hroom := h.room
  have hlt := h.lt
  have htake : ((base ++ text).take (e.buf.len - 1)).length = min (e.buf.len - 1) (base.length + text.length) := by
    rw [length_take, length_append]
  obtain ⟨used, hused, hclose⟩ : ∃ used, used = ((base ++ text).take (e.buf.len - 1)).length ∧
      (Formatted.mk e res text.length).close base.length = (e.setUsed used).write used [0] := by
    refine ⟨_, rfl, ?_⟩
    have hsum : toSize (int32 ((base.length : ℤ) + text.length)) = base.length + text.length := by
      rw [int32_of_lt (by omega) (by omega)]
      unfold toSize
      omega
    unfold Formatted.close
    dsimp only
    rw [hsum, htake, sizeSub_of_le (by omega) (by omega)]
    split_ifs with hcut
    · rw [Nat.min_eq_left (by omega)]
    · rw [Nat.min_eq_right (by omega)]
  rw [hclose]
  refine ⟨⟨?_, ?_, hused, ?_, h.small⟩, ?_, hlimited, hfixed, hwh⟩
  · have hstr : ((e.setUsed used).write used [0]).buf.str = e.buf.str.write used [0] := write_str (by omega) _
    refine hsp.congr fun x _ hx => ?_
    rw [hstr]
    by_cases hat : x = used
    · have hend := hsp used (by omega)
      have hwr : e.buf.str.write used [0] (used + 0) = 0 := Memory.write_of_inside (by decide)
      rw [Nat.zero_add, getD_eq_default _ _ (by omega)] at hend
      rwa [hat, hend]
    · exact Memory.write_of_outside (by omega)
  · exact fun hmem => hzero (mem_of_mem_take hmem)
  · change ((base ++ text).take (e.buf.len - 1)).length < e.buf.len
    omega
  · refine write_inside (e := e.setUsed used) h.inside ?_
    change used + 1 ≤ e.buf.len
    omega

lemma AstStr.Holds.offset (h : s.Holds t) (append : Bool) (hsht : (kept append t).length < 2 ^ 31) :
    (if append = true ∧ s.len ≠ 0 then toInt s.used else 0) = ((kept append t).length : ℤ) := by
  have hroom := h.room
  cases append with
  | false => rfl
  | true =>
    rw [if_pos ⟨rfl, by omega⟩, h.used]
    exact toInt_of_lt hsht

lemma limit_cases (hpos : 0 < s.len) (hlt : s.len < 2 ^ 63) (maxLen : ℤ) (need : ℕ) :
    (0 ≤ maxLen ∧ (if maxLen < 0 then toSsize s.len else maxLen) = maxLen) ∨
      (maxLen < 0 ∧ Ends (if maxLen < 0 then toSsize s.len else maxLen) need s.len) := by
  split_ifs with hneg
  · refine .inr ⟨hneg, .inr ⟨?_, ?_⟩⟩
    · exact toSsize_ne_zero hpos (by omega)
    · exact le_of_eq (toSize_toSsize (by omega))
  · exact .inl ⟨Int.not_lt.mp hneg, rfl⟩

lemma strHelper_spec (a : Allocator) (append : Bool) (maxLen : ℤ) (h : s.Holds t) (hzero : 0 ∉ text)
    (htot : (kept append t).length + text.length < 2 ^ 30) :
    ∃ e, strHelper a append maxLen text s = some e ∧ Leaves s (kept append t) text maxLen e := by
  have hrdy := h.ready append
  have hroom := h.room
  have hnonzero : 0 ∉ kept append t ++ text := by
    rw [mem_append, not_or]
    exact ⟨h.kept_nonzero append, hzero⟩
  have hlim := limit_cases (s := s) (by omega) hrdy.lt maxLen ((kept append t).length + text.length + 1)
  unfold strHelper
  dsimp only
  rw [h.offset append (by omega)]
  generalize (if maxLen < 0 then toSsize s.len else maxLen) = limit at hlim ⊢
  by_cases hends : Ends limit ((kept append t).length + text.length + 1) s.enter.buf.len
  · -- the first try ends the loop
    rw [iterate_done ((helperRound_printed a hrdy htot).1 hends)]
    refine ⟨_, rfl, hrdy.print.leaves hnonzero htot hrdy.print_spells text.length (fun _ => le_max_left _ _)
      (fun _ => rfl) fun hm _ => ?_⟩
    rcases hlim with ⟨-, rfl⟩ | ⟨hneg, -⟩
    · rcases hends with hfits | ⟨hne, -⟩
      · exact hfits
      · exact absurd hm hne
    · exact absurd hm (Int.ne_of_lt hneg)
  obtain ⟨hpos, rfl⟩ : 0 ≤ maxLen ∧ limit = maxLen := hlim.resolve_right fun hneg => hends hneg.2
  rcases helperRound_cases a hrdy htot hpos hends with ⟨e', hrnd, hrdy', hgrw, hends', hcap, hall⟩ | hrnd
  · -- the second one does
    rw [iterate_next hrnd, iterate_done ((helperRound_printed a hrdy' htot).1 hends')]
    exact ⟨_, rfl, hrdy'.print.leaves hnonzero htot hrdy'.print_spells text.length
      (fun hm => (hcap hm).trans (le_max_right _ _)) (fun hm => absurd hm (Int.not_lt.mpr hpos)) fun hm _ => hall hm⟩
  -- the buffer cannot grow
  rw [iterate_done hrnd]
  have hfailed : Ready { s.enter.print (kept append t) text with failed := true } (kept append t) :=
    { hrdy.print with }
  exact ⟨_, rfl, hfailed.leaves hnonzero htot hrdy.print_spells (-1) (fun _ => le_max_left _ _)
    (fun _ => rfl) fun _ hgr => absurd hgr.symm Bool.false_ne_true⟩

end Rounds

/-! ## Cutting off -/

section Cuts

variable {e : Exec} {s : AstStr} {t : List UInt8}

def Exec.cut (e : Exec) (n : ℕ) : Exec := (e.setUsed n).write n [0]

lemma cut_str {n : ℕ} (h : n < 2 ^ 64) : (e.cut n).buf.str = e.buf.str.write n [0] := by
  exact write_str h _

lemma AstStr.Holds.cut (h : e.buf.Holds t) {n : ℕ} (hn : n ≤ t.length) : (e.cut n).buf.Holds (t.take n) := by
  have hroom := h.room
  have hsml := h.small
  have hlen : (t.take n).length = n := by rw [length_take, Nat.min_eq_left hn]
  refine ⟨fun k hk => ?_, fun hmem => h.nonzero (mem_of_mem_take hmem), hlen.symm, ?_, h.small⟩
  · rw [hlen] at hk
    rw [cut_str (by omega), Nat.zero_add]
    rcases Nat.lt_or_eq_of_le hk with hlt | rfl
    · have hsame := h.spells k (by omega)
      rw [Nat.zero_add] at hsame
      rw [Memory.write_of_outside (.inl hlt), hsame, getD_eq_getElem _ _ (by omega),
        getD_eq_getElem _ _ (by omega), getElem_take]
    · rw [getD_eq_default _ _ (by omega)]
      exact Memory.write_of_inside (i := 0) (by decide)
  · rw [hlen]
    exact lt_of_le_of_lt hn hroom

lemma cut_inside (h : e.buf.Holds t) {n : ℕ} (hn : n ≤ t.length) (hin : ∀ w ∈ e.touched, w.Inside) :
    ∀ w ∈ (e.cut n).touched, w.Inside := by
  have hroom := h.room
  refine write_inside (e := e.setUsed n) hin ?_
  change n + 1 ≤ e.buf.len
  omega

lemma trimLoop_spec (n : ℕ) (h : e.buf.Holds t) (hn : t.length = n) (hin : ∀ w ∈ e.touched, w.Inside) :
    (trimLoop n e).buf.Holds (t.rdropWhile (· < 33)) ∧ (trimLoop n e).buf.len = e.buf.len ∧
      ∀ w ∈ (trimLoop n e).touched, w.Inside := by
  induction n generalizing e t with
  | zero =>
    obtain rfl := eq_nil_of_length_eq_zero hn
    exact ⟨h, rfl, hin⟩
  | succ n ih =>
    obtain ⟨front, c, rfl⟩ : ∃ front c, t = front ++ [c] := by
      rcases eq_nil_or_concat t with rfl | ⟨front, c, rfl⟩
      · cases hn
      · exact ⟨front, c, concat_eq_append⟩
    rw [length_append, length_singleton, Nat.add_left_inj] at hn
    have hlast : e.buf.str n = c := by
      have hspell := h.spells n (by simp [hn])
      rw [Nat.zero_add] at hspell
      rw [hspell, ← hn]
      simp
    unfold trimLoop
    rw [hlast, rdropWhile_concat]
    split_ifs with hbl hkeep hkeep
    · have hcut := h.cut (n := n) (by simp [hn])
      rw [← hn, take_left' rfl, hn] at hcut
      exact ih hcut hn (cut_inside h (by simp [hn]) hin)
    · exact absurd (decide_eq_true hbl) hkeep
    · exact absurd (of_decide_eq_true hkeep) hbl
    · exact ⟨h, rfl, hin⟩

end Cuts

/-! ## Sequences of calls -/

def Op.Shortens : Op → Prop
  | .reset => True
  | .truncate len => -2 ^ 63 ≤ len ∧ len < 0
  | .trimBlanks => True
  | _ => False

def Op.Formats : Op → Prop
  | .format _ _ text => 0 ∉ text
  | op => op.Shortens

def Op.added : Op → ℕ
  | .format _ _ text => text.length
  | _ => 0

/-- What a call is to do: it writes inside the buffer, leaves the text that is intended, cut to the
buffer, and grows the buffer no further than it may. -/
structure FormatSound (s : AstStr) (call : Call) (e : Exec) : Prop where
  inside : ∀ w ∈ e.touched, w.Inside
  contents : ∃ t, s.contents = some t ∧ e.buf.contents = some ((call.op.intended t).take (e.buf.len - 1))
  used : e.buf.contents.map List.length = some e.buf.used
  room : e.buf.used < e.buf.len
  limited : 0 < call.op.maxLen → (e.buf.len : ℤ) ≤ max (s.len : ℤ) call.op.maxLen
  fixed : call.op.maxLen < 0 → e.buf.len = s.len

variable {s : AstStr} {t : List UInt8} {call : Call}

lemma intended_truncate (hneg : len < 0) :
    Op.intended t (.truncate len) = t.take (t.length - len.natAbs) := if_pos hneg

section

variable (h : s.Holds t)
include h

lemma FormatSound.of_holds {e : Exec} (hin : ∀ w ∈ e.touched, w.Inside)
    (hh : e.buf.Holds ((call.op.intended t).take (e.buf.len - 1)))
    (hlimited : 0 < call.op.maxLen → (e.buf.len : ℤ) ≤ max (s.len : ℤ) call.op.maxLen)
    (hfixed : call.op.maxLen < 0 → e.buf.len = s.len) : FormatSound s call e where
  inside := hin
  contents := ⟨t, h.contents, hh.contents⟩
  used := by rw [hh.contents, hh.used]; rfl
  room := by rw [hh.used]; exact hh.room
  limited := hlimited
  fixed := hfixed

lemma truncate_spec (hlow : -2 ^ 63 ≤ len) (hneg : len < 0) : truncate len s = s.enter.cut (t.length - len.natAbs) := by
  have hroom := h.room
  have hsml := h.small
  have hused := h.used
  have hcnt : toSize (-len) = len.natAbs := by
    unfold toSize
    omega
  unfold truncate Exec.cut
  split_ifs with hall
  · rw [show t.length - len.natAbs = 0 by omega]
  · have hrest : (s.used + toSize len) % 2 ^ 64 = t.length - len.natAbs := by
      unfold toSize
      omega
    rw [hrest]

lemma step_shorter (hop : call.op.Shortens) :
    ∃ e, step s call = some e ∧ e.buf.len = s.len ∧ call.op.maxLen = -1 ∧ e.buf.Holds (call.op.intended t) ∧
      ∀ w ∈ e.touched, w.Inside := by
  have hnone : ∀ w ∈ s.enter.touched, w.Inside := nofun
  obtain ⟨op, a⟩ := call
  cases op with
  | format append maxLen text => cases hop
  | substr append escapecommas maxLen src maxsrc => cases hop
  | reset =>
    have hcut : reset s = s.enter.cut 0 := if_pos (Nat.ne_of_gt (lt_of_le_of_lt (zero_le _) h.room))
    refine ⟨reset s, rfl, ?_⟩
    rw [hcut]
    exact ⟨rfl, rfl, h.cut (zero_le _), cut_inside h (zero_le _) hnone⟩
  | truncate len =>
    refine ⟨truncate len s, rfl, ?_⟩
    rw [truncate_spec h hop.1 hop.2, intended_truncate hop.2]
    exact ⟨rfl, rfl, h.cut (sub_le _ _), cut_inside h (sub_le _ _) hnone⟩
  | trimBlanks =>
    obtain ⟨hh, hlen, hin⟩ := trimLoop_spec s.used (e := s.enter) h h.used.symm hnone
    exact ⟨trimBlanks s, rfl, hlen, rfl, hh, hin⟩

lemma FormatSound.of_shorter (hop : call.op.Shortens) : ∃ e, step s call = some e ∧ FormatSound s call e ∧
      e.buf.Holds ((call.op.intended t).take (e.buf.len - 1)) := by
  obtain ⟨e, hstep, hlen, hmax, hh, hin⟩ := step_shorter h hop
  have hroom := hh.room
  have htake : (call.op.intended t).take (e.buf.len - 1) = call.op.intended t :=
    take_of_length_le (by omega)
  refine ⟨e, hstep, .of_holds h hin (htake.symm ▸ hh) (fun hpos => ?_) (fun _ => hlen), htake.symm ▸ hh⟩
  rw [hmax] at hpos
  cases hpos

lemma step_formatted (hop : call.op.Formats) (htot : t.length + call.op.added < 2 ^ 30) :
    ∃ e, step s call = some e ∧ FormatSound s call e ∧ e.buf.Holds ((call.op.intended t).take (e.buf.len - 1)) := by
  obtain ⟨op, a⟩ := call
  cases op with
  | format append maxLen text =>
    have hkept := kept_length_le append t
    have htot' : t.length + text.length < 2 ^ 30 := htot
    obtain ⟨e, hstep, hlv⟩ := strHelper_spec a append maxLen h hop (by omega)
    exact ⟨e, hstep, .of_holds h hlv.inside hlv.holds hlv.limited hlv.fixed, hlv.holds⟩
  | substr append escapecommas maxLen src maxsrc => cases hop
  | reset | truncate len | trimBlanks => exact FormatSound.of_shorter h hop

end

lemma intended_length_le (hop : call.op.Formats) : (call.op.intended t).length ≤ t.length + call.op.added := by
  obtain ⟨op, a⟩ := call
  cases op with
  | format append maxLen text =>
    cases append with
    | false => exact le_add_left _ _
    | true => exact le_of_eq length_append
  | substr append escapecommas maxLen src maxsrc => cases hop
  | reset => exact zero_le _
  | truncate len =>
    rw [intended_truncate hop.2]
    exact length_take_le' _ _
  | trimBlanks => exact ( rdropWhile_prefix _ _).length_le

/-- **Formatted strings are sound**: every call of a sequence ends and does what it is to do, as
long as the texts come to less than 2^30 bytes. Induction on the calls. -/
theorem formatted_sound (s : AstStr) (t : List UInt8) (h : s.Holds t) (calls : List Call)
    (hops : ∀ call ∈ calls, call.op.Formats)
    (htotal : t.length + (calls.map fun call => call.op.added).sum < 2 ^ 30) :
    Each next (fun s call => ∃ e, step s call = some e ∧ FormatSound s call e) s calls := by
  induction calls generalizing s t with
  | nil => trivial
  | cons call calls ih =>
    rw [map_cons, sum_cons] at htotal
    have hop := hops call mem_cons_self
    obtain ⟨e, hstep, hsnd, hh⟩ := step_formatted h hop (by omega)
    refine ⟨⟨e, hstep, hsnd⟩, fun s' hnext => ?_⟩
    rw [next, hstep] at hnext
    cases hnext
    refine ih e.buf _ hh (fun call' hmem => hops call' (mem_cons_of_mem _ hmem)) ?_
    have hlen := intended_length_le (t := t) hop
    have htake := length_take_le' (e.buf.len - 1) (call.op.intended t)
    omega

def Allocator.generous (fresh : Memory) : Allocator := ⟨fun n => n < 2 ^ 63, fresh, fun _ h => of_decide_eq_true h⟩

/-- A string of four bytes that is written, grows, is cut off and trimmed. -/
theorem formatted_sound_small :
    Each next (fun s call => ∃ e, step s call = some e ∧ FormatSound s call e) (.create 4 .malloc fun _ => 7)
      [⟨.format false 0 [97, 98, 99, 100], .generous fun _ => 7⟩, ⟨.format true 8 [32, 32], .generous fun _ => 7⟩,
        ⟨.truncate (-1), .generous fun _ => 7⟩, ⟨.trimBlanks, .generous fun _ => 7⟩] := by
  refine formatted_sound _ [] (AstStr.create_holds _ _ (by decide) (by decide)) _ ?_ (by decide)
  intro call hmem
  simp only [mem_cons, not_mem_nil, or_false] at hmem
  rcases hmem with rfl | rfl | rfl | rfl
  · exact show (0 : UInt8) ∉ [97, 98, 99, 100] by decide
  · exact show (0 : UInt8) ∉ [32, 32] by decide
  · exact ⟨by decide, by decide⟩
  · trivial

end Telephony.Strings
