import Mathlib.Data.List.Sort
import Telephony.Jitter.AdaptiveRuns

/-!
# The delay history of the adaptive jitter buffer

`history_put` keeps the last 500 delays in a ring, and `history_calc_maxbuf` sorts the 20 largest
and the 20 smallest of them into two buffers. A resync empties the ring, but not the buffers. The
delays recorded since the last resync are carried along beside the buffer (`recordedRun`).
-/

namespace Telephony.Jitter.Adaptive

open List Option

/-! ## The first values of a sorted list -/

section Extremes

lemma rel_getLastD {r : ℤ → ℤ → Prop} [Std.Total r] {x : ℤ} {l : List ℤ} (h : l.Pairwise r) (hx : x ∈ l) :
    r x (l.getLastD 0) := by
  obtain ⟨init, last, rfl⟩ := (eq_nil_or_concat' l).resolve_left (ne_nil_of_mem hx)
  rw [getLastD_concat]
  rcases mem_append.mp hx with hx | hx
  · exact (pairwise_append.mp h).2.2 x hx last mem_cons_self
  · rw [mem_singleton.mp hx]
    exact (Std.Total.total last last).elim id id

variable {r : ℤ → ℤ → Prop} [DecidableRel r] {g : ℤ → ℤ → Bool} {k : ℕ} {x sentinel : ℤ} {l l' : List ℤ}

def extremes (r : ℤ → ℤ → Prop) [DecidableRel r] (k : ℕ) (l : List ℤ) : List ℤ := (l.insertionSort r).take k

lemma insertExtreme_eq_or_mem (g : ℤ → ℤ → Bool) (x : ℤ) (l : List ℤ) :
    insertExtreme g x l = l ∨ x ∈ insertExtreme g x l := by
  induction l with
  | nil => exact .inl rfl
  | cons b bs ih =>
    rw [insertExtreme]
    split_ifs
    · exact .inr (by simp)
    · exact ih.imp (congrArg _) (mem_cons_of_mem _)

lemma insertExtreme_of_not (h : ∀ y ∈ l, g x y = false) : insertExtreme g x l = l := by
  induction l with
  | nil => rfl
  | cons b bs ih =>
    rw [forall_mem_cons] at h
    rw [insertExtreme, h.1, if_neg Bool.false_ne_true, ih h.2]

variable [Std.Total r] [Std.Antisymm r] (hg : ∀ a b, g a b = true ↔ ¬r b a)

include hg in
/-- Induction on the values kept so far; `l'` are those that did not get in. -/
lemma insertExtreme_eq_take (h : (l ++ l').Pairwise r) :
    insertExtreme g x l = ((l ++ l').orderedInsert r x).take l.length := by
  induction l with
  | nil => rfl
  | cons b bs ih =>
    obtain ⟨hb, hsrt⟩ := pairwise_cons.mp h
    rw [insertExtreme, cons_append, orderedInsert_cons, length_cons]
    by_cases hbx : r b x
    · rw [if_neg (by rw [hg]; exact not_not.mpr hbx), ih hsrt]
      split_ifs with hxb
      · obtain rfl := Std.Antisymm.antisymm _ _ hxb hbx
        rw [take_succ_cons]
        cases hrest : bs ++ l' with
        | nil => rfl
        | cons c cs => rw [orderedInsert_cons, if_pos (hb c (by simp [hrest]))]
      · rw [take_succ_cons]
    · have hxb := (Std.Total.total b x).resolve_left hbx
      rw [if_pos ((hg x b).mpr hbx), if_pos hxb, dropLast_eq_take, length_cons, length_cons,
        Nat.add_sub_cancel, ← cons_append, ← cons_append, take_append_of_le_length (by simp)]

variable [IsTrans ℤ r]

include hg in
lemma extremes_cons (hk : k ≤ l.length) : extremes r k (x :: l) = insertExtreme g x (extremes r k l) := by
  have hspl := take_append_drop k (l.insertionSort r)
  have htake := @insertExtreme_eq_take r _ g x _ ((l.insertionSort r).drop k) _ _ hg
    (hspl.symm ▸ pairwise_insertionSort r l)
  rw [extremes, insertionSort_cons, extremes, htake, hspl, length_take, length_insertionSort, Nat.min_eq_left hk]

lemma extremes_perm (h : l ~ l') : extremes r k l = extremes r k l' := by
  have hperm := (perm_insertionSort r l).trans (h.trans (perm_insertionSort r l').symm)
  rw [extremes, hperm.eq_of_pairwise' (pairwise_insertionSort r l) (pairwise_insertionSort r l'), extremes]

include hg in
lemma foldl_insertExtreme (ds : List ℤ) (hk : k ≤ l.length) :
    ds.foldl (fun buf toins => insertExtreme g toins buf) (extremes r k l) = extremes r k (ds ++ l) := by
  induction ds generalizing l with
  | nil => rfl
  | cons d ds ih =>
    rw [foldl_cons, ← extremes_cons hg hk, ih (hk.trans (Nat.le_succ _)), extremes_perm perm_middle, cons_append]

include hg in
/-- A value that is not better than the last one kept does not get in. -/
lemma extremes_cons_of_rel (hk : k ≤ l.length)
    (hx : r ((extremes r k l).getLastD 0) x) : extremes r k (x :: l) = extremes r k l := by
  have hsrt := (pairwise_insertionSort r l).sublist (take_sublist k _)
  rw [extremes_cons hg hk, insertExtreme_of_not fun y hy => ?_]
  rw [← Bool.not_eq_true, hg, not_not]
  exact trans_of r (rel_getLastD hsrt hy) hx

include hg in
/-- A value that is worse than the last one kept is not missed. -/
lemma extremes_of_cons (hk : k ≤ l.length)
    (hx : ¬r x ((extremes r k (x :: l)).getLastD 0)) : extremes r k l = extremes r k (x :: l) := by
  have hsrt := (pairwise_insertionSort r (x :: l)).sublist (take_sublist k _)
  rcases insertExtreme_eq_or_mem g x (extremes r k l) with heq | hmem
  · rw [extremes_cons hg hk, heq]
  · rw [← extremes_cons hg hk] at hmem
    exact absurd (rel_getLastD hsrt hmem) hx

/-! ## The buffers -/

/-- The 20 values that come first among the delays, filled up with a sentinel. -/
def padded (r : ℤ → ℤ → Prop) [DecidableRel r] (sentinel : ℤ) (delays : List ℤ) : List ℤ :=
  extremes r jbHistoryMaxbufSz (delays ++ replicate jbHistoryMaxbufSz sentinel)

include hg in
lemma calc_eq_padded (sentinel : ℤ) (delays : List ℤ) :
    delays.foldl (fun buf toins => insertExtreme g toins buf) (replicate jbHistoryMaxbufSz sentinel) =
      padded r sentinel delays := by
  have hrefl : r sentinel sentinel := (Std.Total.total sentinel sentinel).elim id id
  have hsta : extremes r jbHistoryMaxbufSz (replicate jbHistoryMaxbufSz sentinel) =
      replicate jbHistoryMaxbufSz sentinel := by
    rw [extremes, (pairwise_replicate.mpr (.inr hrefl)).insertionSort_eq]
    rfl
  rw [← hsta, foldl_insertExtreme hg _ (by simp), padded]

include hg in
lemma padded_append (hx : r ((padded r sentinel l).getLastD 0) x) :
    padded r sentinel (l ++ [x]) = padded r sentinel l := by
  rw [padded, append_assoc, singleton_append, extremes_perm perm_middle]
  exact extremes_cons_of_rel hg (by simp) hx

include hg in
lemma padded_tail (hx : ¬r x ((padded r sentinel (x :: l)).getLastD 0)) :
    padded r sentinel l = padded r sentinel (x :: l) :=
  extremes_of_cons hg (by simp) hx

end Extremes

/-- The last 500 of the recorded delays. -/
def window (recorded : List ℤ) : List ℤ := recorded.drop (recorded.length - jbHistorySz)

/-- Source: `history_calc_maxbuf` -/
def maxOf (recorded : List ℤ) : List ℤ := padded (· ≥ ·) jbLongmin (window recorded)

def minOf (recorded : List ℤ) : List ℤ := padded (· ≤ ·) jbLongmax (window recorded)

/-! ## What a run records -/

section Runs

variable {δ : Type} {jb jb' : Jitterbuf δ} {recorded recorded' : List ℤ} {type : JbFrameType}
  {ts delay now ms sentinel : ℤ} {res : JbResult δ} {data : δ}

/-- The delay changes so much that the frame is dropped or the buffer resynchronised.
Source: `check_resync` (`labs(*delay - jb->info.last_delay) > threshold`) -/
def Jitterbuf.Jumps (jb : Jitterbuf δ) (delay : ℤ) : Prop :=
  jb.info.conf.resyncThreshold ≠ -1 ∧
    2 * jb.info.jitter + jb.info.conf.resyncThreshold < |delay - jb.info.lastDelay|

instance (jb : Jitterbuf δ) (delay : ℤ) : Decidable (jb.Jumps delay) := inferInstanceAs (Decidable (_ ∧ _))

/-- The delays recorded since the last resync, after one more call. A frame that is not dropped
although its delay jumps is the one that resynchronises.
Source: `jb_put` (`check_resync`, `history_put`) -/
def recordedAfter (jb : Jitterbuf δ) (recorded : List ℤ) : JbOp δ → List ℤ
  | .put _ type _ ts now =>
    let delay := now - (ts - jb.info.resyncOffset)
    match checkResync jb ts now type delay with
    | some (some delay', _) =>
      (if jb.Jumps delay then [] else recorded) ++ if type = .voice ∧ 0 < ts then [delay'] else []
    | _ => recorded
  | _ => recorded

def recordedRun : Jitterbuf δ → List ℤ → List (JbOp δ) → Option (Jitterbuf δ × List ℤ)
  | jb, recorded, [] => some (jb, recorded)
  | jb, recorded, op :: ops =>
    (jbStep jb op).bind fun out => recordedRun out.2 (recordedAfter jb recorded op) ops

/-- The ring has the last delays, and the buffers, while they are valid, the largest and
smallest. -/
structure Cached (jb : Jitterbuf δ) (recorded : List ℤ) : Prop where
  histPtr : jb.histPtr = recorded.length
  slots : ∀ i (hi : i < recorded.length), recorded.length ≤ i + jbHistorySz →
    jb.history (i % jbHistorySz) = recorded[i]
  maxbuf : jb.histMaxbufValid = true → jb.histMaxbuf = maxOf recorded
  minbuf : jb.histMaxbufValid = true → jb.histMinbuf = minOf recorded

def Jitterbuf.memory (jb : Jitterbuf δ) : (ℕ → ℤ) × ℕ × List ℤ × List ℤ × Bool :=
  (jb.history, jb.histPtr, jb.histMaxbuf, jb.histMinbuf, jb.histMaxbufValid)

lemma window_append (delay : ℤ) :
    window (recorded ++ [delay]) = window recorded ++ [delay] ∨
      ∃ (hlt : recorded.length - jbHistorySz < recorded.length) (rest : List ℤ),
        jbHistorySz ≤ recorded.length ∧ window recorded = recorded[recorded.length - jbHistorySz] :: rest ∧
        window (recorded ++ [delay]) = rest ++ [delay] := by
  have hsz : jbHistorySz = 500 := rfl
  unfold window
  rw [length_append, length_singleton, drop_append_of_le_length (by omega)]
  by_cases hfull : jbHistorySz ≤ recorded.length
  · refine .inr ⟨by omega, _, hfull, drop_eq_getElem_cons (by omega), ?_⟩
    rw [Nat.sub_add_comm hfull]
  · rw [Nat.sub_eq_zero_of_le (by omega), Nat.sub_eq_zero_of_le (by omega)]
    exact .inl rfl

/-- Neither the new delay nor the one it replaces gets among the extreme ones. -/
lemma padded_window {r : ℤ → ℤ → Prop} [DecidableRel r] [Std.Total r] [IsTrans ℤ r] [Std.Antisymm r]
    {g : ℤ → ℤ → Bool} (hg : ∀ a b, g a b = true ↔ ¬r b a)
    (hdelay : r ((padded r sentinel (window recorded)).getLastD 0) delay)
    (hkck : ∀ hlt : recorded.length - jbHistorySz < recorded.length, jbHistorySz ≤ recorded.length →
      ¬r recorded[recorded.length - jbHistorySz] ((padded r sentinel (window recorded)).getLastD 0)) :
    padded r sentinel (window (recorded ++ [delay])) = padded r sentinel (window recorded) := by
  rcases @window_append recorded delay with hnew | ⟨hlt, rest, hfull, hold, hnew⟩
  · rw [hnew]
    exact padded_append hg hdelay
  have hkck := hkck hlt hfull
  rw [hold] at hdelay hkck ⊢
  rw [← padded_tail hg hkck] at hdelay ⊢
  rw [hnew]
  exact padded_append hg hdelay

section

variable (h : Cached jb recorded)
include h

lemma Cached.of_memory (hsame : jb'.memory = jb.memory) : Cached jb' recorded := by
  simp only [Jitterbuf.memory, Prod.mk.injEq] at hsame
  obtain ⟨hhistory, hptr, hmax, hmin, hval⟩ := hsame
  exact ⟨hptr ▸ h.histPtr, hhistory ▸ h.slots, hmax ▸ hval ▸ h.maxbuf, hmin ▸ hval ▸ h.minbuf⟩

lemma Cached.delays : jb.delays = window recorded := by
  have hptr := h.histPtr
  have hsta : (if jbHistorySz < jb.histPtr then jb.histPtr - jbHistorySz else 0) = recorded.length - jbHistorySz := by
    split_ifs <;> omega
  rw [Jitterbuf.delays, hsta, window]
  refine ext_getElem (by simp [hptr]) fun i hi _ => ?_
  rw [length_map, length_range'] at hi
  simp only [getElem_map, getElem_range', getElem_drop, Nat.one_mul]
  exact h.slots _ (by omega) (by omega)

lemma Cached.not_invalidates (hval : (jb.histMaxbufValid && !jb.invalidates (jb.histPtr + 1) delay
      (jb.history (jb.histPtr % jbHistorySz))) = true) :
    jb.histMaxbufValid = true ∧ (minOf recorded).getLastD 0 ≤ delay ∧ (maxOf recorded).getLastD 0 ≥ delay ∧
      ∀ hlt : recorded.length - jbHistorySz < recorded.length, jbHistorySz ≤ recorded.length →
        ¬recorded[recorded.length - jbHistorySz] ≤ (minOf recorded).getLastD 0 ∧
        ¬recorded[recorded.length - jbHistorySz] ≥ (maxOf recorded).getLastD 0 := by
  simp only [Bool.and_eq_true, Bool.not_eq_true', Jitterbuf.invalidates, Bool.or_eq_false_iff,
    decide_eq_false_iff_not, not_lt] at hval
  obtain ⟨hval, ⟨⟨⟨-, hmin⟩, hmax⟩, hkmin⟩, hkmax⟩ := hval
  rw [h.maxbuf hval] at hmax hkmax
  rw [h.minbuf hval] at hmin hkmin
  refine ⟨hval, hmin, hmax, fun hlt hfull => ?_⟩
  rw [h.histPtr, Nat.mod_eq_sub_mod hfull, h.slots _ hlt (by omega)] at hkmin hkmax
  exact ⟨hkmin, hkmax⟩

lemma Cached.historyPut (hts : 0 < ts) (delay : ℤ) : Cached (historyPut jb ts delay) (recorded ++ [delay]) := by
  have hptr := h.histPtr
  have hsz : jbHistorySz = 500 := rfl
  rw [Adaptive.historyPut, if_neg (not_le.mpr hts)]
  refine ⟨by simp [hptr], fun i hi hle => ?_, fun hval => ?_, fun hval => ?_⟩
  · rw [length_append, length_singleton] at hi hle
    simp only [hptr]
    by_cases hlast : i = recorded.length
    · simp [hlast]
    · rw [Function.update_of_ne (by rw [hsz] at hle ⊢; omega), h.slots i (by omega) (by omega), getElem_append_left]
  · obtain ⟨hval, -, hmax, hkck⟩ := h.not_invalidates hval
    exact (h.maxbuf hval).trans (padded_window (g := fun a b => decide (b < a)) (by simp) hmax
      fun hlt hfull => (hkck hlt hfull).2).symm
  · obtain ⟨hval, hmin, -, hkck⟩ := h.not_invalidates hval
    exact (h.minbuf hval).trans (padded_window (g := fun a b => decide (a < b)) (by simp) hmin
      fun hlt hfull => (hkck hlt hfull).1).symm

lemma Cached.historyCalcMaxbuf : Cached (historyCalcMaxbuf jb) recorded ∧
    (recorded ≠ [] → (Adaptive.historyCalcMaxbuf jb).histMaxbufValid = true) := by
  have hptr := h.histPtr
  rw [Adaptive.historyCalcMaxbuf]
  split_ifs with hzero
  · exact ⟨h, fun hne => absurd (length_eq_zero_iff.mp (hptr ▸ hzero)) hne⟩
  refine ⟨⟨hptr, h.slots, fun _ => ?_, fun _ => ?_⟩, fun _ => rfl⟩
  · simp only [h.delays]
    exact calc_eq_padded (r := (· ≥ ·)) (by simp) jbLongmin _
  · simp only [h.delays]
    exact calc_eq_padded (r := (· ≤ ·)) (by simp) jbLongmax _

end

/-- The buffer that `historyGet` reads its numbers from. -/
lemma historyGet_memory (jb : Jitterbuf δ) :
    (historyGet jb).memory = (if jb.histMaxbufValid then jb else historyCalcMaxbuf jb).memory := rfl

lemma Cached.historyGet (h : Cached jb recorded) : Cached (historyGet jb) recorded ∧
    (recorded ≠ [] → (Adaptive.historyGet jb).histMaxbufValid = true) := by
  by_cases hval : jb.histMaxbufValid = true
  · have hsame : (Adaptive.historyGet jb).memory = jb.memory := by rw [historyGet_memory, if_pos hval]
    exact ⟨h.of_memory hsame, fun _ => (congrArg (fun m => m.2.2.2.2) hsame).trans hval⟩
  have hsame : (Adaptive.historyGet jb).memory = (Adaptive.historyCalcMaxbuf jb).memory := by
    rw [historyGet_memory, if_neg hval]
  obtain ⟨hcalc, hval'⟩ := h.historyCalcMaxbuf
  exact ⟨hcalc.of_memory hsame, fun hne => (congrArg (fun m => m.2.2.2.2) hsame).trans (hval' hne)⟩

/-! ## The calls -/

/-- What `check_resync` does to the history: nothing, or, when a frame whose delay jumps is kept, a
resync. -/
lemma checkResync_memory {d : Option ℤ} (h : checkResync jb ts now type delay = some (d, jb')) :
    (d.isSome → ¬jb.Jumps delay) ∧ jb'.memory = jb.memory ∨
      jb.Jumps delay ∧ d.isSome ∧ jb'.histPtr = 0 ∧ jb'.histMaxbufValid = false := by
  obtain ⟨last, -, h⟩ := bind_eq_some_iff.mp h
  obtain ⟨next, -, h⟩ := bind_eq_some_iff.mp h
  dsimp only at h
  split_ifs at h with hfull hoff hjump hsync <;> cases h
  · exact .inl ⟨nofun, rfl⟩
  · exact .inl ⟨fun _ hj => hj.1 hoff, rfl⟩
  · exact .inr ⟨⟨hoff, hjump⟩, rfl, rfl, rfl⟩
  · exact .inl ⟨nofun, rfl⟩
  · exact .inl ⟨fun _ hj => hjump hj.2, rfl⟩

lemma queuePut_memory {head : Bool} (h : queuePut jb data type ms ts = some (head, jb')) : jb'.memory = jb.memory := by
  obtain ⟨⟨hd, ooo, store⟩, -, h⟩ := bind_eq_some_iff.mp h
  cases h
  rfl

lemma queueGetCore_memory {all : Bool} {frame : Option (JbFrame δ)}
    (h : queueGetCore jb ts all = some (frame, jb')) : jb'.memory = jb.memory := by
  obtain ⟨⟨a, store⟩, -, h⟩ := bind_eq_some_iff.mp h
  cases a <;> cases h <;> rfl

lemma jbGet_memory {interpl : ℤ} (h : jbGet jb now interpl = some (res, jb')) :
    jb'.memory = (historyGet jb).memory := by
  unfold jbGet at h
  split_ifs at h
  · obtain ⟨last, -, h⟩ := bind_eq_some_iff.mp h
    obtain ⟨next, -, h⟩ := bind_eq_some_iff.mp h
    split_ifs at h
    · cases h
      rfl
    · obtain ⟨⟨frame, jb₁⟩, hget, h⟩ := bind_eq_some_iff.mp h
      cases h
      exact (@queueGetCore_memory _ (prepareGet jb) _ _ _ _ hget :)
  · obtain ⟨⟨frame, jb₁⟩, hget, h⟩ := bind_eq_some_iff.mp h
    have hsame := queueGetCore_memory hget
    cases frame <;> cases h <;> exact hsame

lemma jbGetall_memory (h : jbGetall jb = some (res, jb')) : jb'.memory = jb.memory := by
  obtain ⟨⟨frame, jb₁⟩, hget, h⟩ := bind_eq_some_iff.mp h
  cases frame <;> cases h <;> exact queueGetCore_memory hget

lemma Cached.put (h : Cached jb recorded) {code : JbPutCode} (hput : jbPut jb data type ms ts now = some (code, jb')) :
    Cached jb' (recordedAfter jb recorded (.put data type ms ts now)) := by
  obtain ⟨⟨d, jb₁⟩, hchk, hput⟩ := bind_eq_some_iff.mp hput
  rw [recordedAfter, hchk]
  cases d with
  | none =>
    cases hput
    rcases checkResync_memory hchk with ⟨-, hsame⟩ | ⟨-, hsome, -⟩
    · exact h.of_memory hsame
    · cases hsome
  | some delay =>
    have hcached : Cached jb₁ (if jb.Jumps (now - (ts - jb.info.resyncOffset)) then [] else recorded) := by
      rcases checkResync_memory hchk with ⟨hkeep, hsame⟩ | ⟨hjump, -, hzero, hval⟩
      · rw [if_neg (hkeep rfl)]
        exact h.of_memory hsame
      · rw [if_pos hjump]
        exact ⟨hzero, by simp, by simp [hval], by simp [hval]⟩
    obtain ⟨⟨head, jb₂⟩, hque, hput⟩ := bind_eq_some_iff.mp hput
    cases hput
    have hsame := queuePut_memory hque
    by_cases hvoice : type = .voice
    · simp only [hvoice, true_and] at hsame ⊢
      by_cases hts : 0 < ts
      · rw [if_pos hts]
        exact (hcached.historyPut hts delay).of_memory hsame
      rw [if_neg hts, append_nil]
      rw [Adaptive.historyPut, if_pos (not_lt.mp hts)] at hsame
      exact hcached.of_memory hsame
    · simp only [hvoice, false_and, if_false, append_nil] at hsame ⊢
      exact hcached.of_memory hsame

lemma Cached.step (h : Cached jb recorded) {op : JbOp δ} {event : JbEvent δ}
    (hstep : jbStep jb op = some (event, jb')) : Cached jb' (recordedAfter jb recorded op) := by
  cases op with
  | put data type ms ts now =>
    obtain ⟨out, hput, heq⟩ := map_eq_some_iff.mp hstep
    cases heq
    exact h.put hput
  | get now interpl =>
    obtain ⟨out, hget, heq⟩ := map_eq_some_iff.mp hstep
    cases heq
    exact h.historyGet.1.of_memory (jbGet_memory hget)
  | getall =>
    obtain ⟨out, hget, heq⟩ := map_eq_some_iff.mp hstep
    cases heq
    exact h.of_memory (jbGetall_memory hget)

lemma Cached.run (h : Cached jb recorded) (ops : List (JbOp δ))
    (hrun : recordedRun jb recorded ops = some (jb', recorded')) : Cached jb' recorded' := by
  induction ops generalizing jb recorded with
  | nil =>
    cases hrun
    exact h
  | cons op ops ih =>
    obtain ⟨out, hstep, hrest⟩ := bind_eq_some_iff.mp hrun
    exact ih (h.step hstep) hrest

lemma cached_new [Inhabited δ] (conf : JbConf) : Cached (jbSetconf (jbNew : Jitterbuf δ) conf) [] :=
  ⟨rfl, by simp, nofun, nofun⟩

variable [Inhabited δ]

/-- **The buffers of extreme delays.** In every run, whenever they are valid, they are the 20
largest and the 20 smallest, in order and filled up with sentinels, of the last 500 delays recorded
since the last resync, as `history_calc_maxbuf` would make them now. -/
theorem recordedRun_cached (conf : JbConf) (ops : List (JbOp δ))
    (hrun : recordedRun (jbSetconf jbNew conf) [] ops = some (jb, recorded))
    (hvalid : jb.histMaxbufValid = true) :
    jb.histPtr = recorded.length ∧ jb.histMaxbuf = maxOf recorded ∧ jb.histMinbuf = minOf recorded ∧
      jb.histMaxbuf = (historyCalcMaxbuf jb).histMaxbuf ∧ jb.histMinbuf = (historyCalcMaxbuf jb).histMinbuf := by
  have h := (cached_new conf).run ops hrun
  obtain ⟨hcalc, -⟩ := h.historyCalcMaxbuf
  have hvalid' : (historyCalcMaxbuf jb).histMaxbufValid = true := by
    rw [historyCalcMaxbuf]
    split_ifs <;> [exact hvalid; rfl]
  have hmax := h.maxbuf hvalid
  have hmin := h.minbuf hvalid
  exact ⟨h.histPtr, hmax, hmin, hmax.trans (hcalc.maxbuf hvalid').symm, hmin.trans (hcalc.minbuf hvalid').symm⟩

/-- 502 voice frames: the ring of delays goes around. -/
def longCall : List (JbOp ℕ) :=
  (range 502).flatMap fun i => [.put i .voice 20 (20 * i + 20) (20 * i + 1020 + i % 7), .getall]

lemma recordedRun_longCall :
    ∃ jb recorded, recordedRun (jbSetconf jbNew ⟨1000, 1000, 0, 40⟩) [] (longCall ++ [.get 11000 20]) =
      some (jb, recorded) ∧ jb.histMaxbufValid = true ∧ jb.histPtr = 502 := by
  obtain ⟨out, hrun, hout⟩ := (any_eq_true _ _).mp (by decide +kernel :
    (recordedRun (jbSetconf jbNew ⟨1000, 1000, 0, 40⟩) [] (longCall ++ [.get 11000 20])).any fun out =>
      out.1.histMaxbufValid = true ∧ out.1.histPtr = 502)
  exact ⟨out.1, out.2, hrun, of_decide_eq_true hout⟩

/-- The delays of a long call. -/
theorem recordedRun_cached_longCall : ∃ (jb : Jitterbuf ℕ) (recorded : List ℤ), recorded.length = 502 ∧
    jb.histMaxbuf = maxOf recorded ∧ jb.histMinbuf = minOf recorded := by
  obtain ⟨jb, recorded, hrun, hval, hptr⟩ := recordedRun_longCall
  obtain ⟨hlen, hmax, hmin, -⟩ := recordedRun_cached _ _ hrun hval
  exact ⟨jb, recorded, hlen.symm.trans hptr, hmax, hmin⟩

/-! ## The statistics -/

/-- The smallest delay and the jitter, from the delays since the last resync.
Source: `history_get` -/
def statistics (recorded : List ℤ) : ℤ × ℤ :=
  let idx := min (min recorded.length jbHistorySz * jbHistoryDroppct / 100) (jbHistoryMaxbufSz - 1)
  let min := (minOf recorded).getD idx 0
  if recorded = [] then (0, 0) else (min, (maxOf recorded).getD idx 0 - min)

/-- **A resync forgets the past** exactly when a delay has been recorded after it, or both buffers
start with zero anyway: with an empty history they are not calculated again, and still read. -/
theorem recordedRun_statistics_iff (conf : JbConf) (ops : List (JbOp δ))
    (hrun : recordedRun (jbSetconf jbNew conf) [] ops = some (jb, recorded)) :
    ((historyGet jb).info.min, (historyGet jb).info.jitter) = statistics recorded ↔
      (recorded = [] → jb.histMinbuf.getD 0 0 = 0 ∧ jb.histMaxbuf.getD 0 0 = 0) := by
  have h := (cached_new conf).run ops hrun
  have hcnt : (if jb.histPtr < jbHistorySz then jb.histPtr else jbHistorySz) = min recorded.length jbHistorySz := by
    rw [h.histPtr]
    split_ifs <;> omega
  obtain ⟨hget, hval⟩ := h.historyGet
  have hptr := hget.histPtr.trans h.histPtr.symm
  set idx := min (min recorded.length jbHistorySz * jbHistoryDroppct / 100) (jbHistoryMaxbufSz - 1) with hidx
  have hinfo : ((historyGet jb).info.min, (historyGet jb).info.jitter) =
      ((historyGet jb).histMinbuf.getD idx 0,
        (historyGet jb).histMaxbuf.getD idx 0 - (historyGet jb).histMinbuf.getD idx 0) := by
    rw [hidx, ← hcnt, ← hptr]
    rfl
  rw [hinfo, statistics]
  by_cases hnone : recorded = []
  · have hptr0 : jb.histPtr = 0 := by rw [h.histPtr, hnone, length_nil]
    have hsame : (historyGet jb).histMinbuf = jb.histMinbuf ∧ (historyGet jb).histMaxbuf = jb.histMaxbuf := by
      simp [historyGet, historyCalcMaxbuf, if_pos hptr0]
    have hzero : idx = 0 := by simp [hidx, hnone]
    rw [if_pos hnone, hsame.1, hsame.2, hzero, Prod.mk.injEq]
    refine ⟨fun heq _ => ⟨heq.1, by omega⟩, fun heq => ?_⟩
    obtain ⟨hmin, hmax⟩ := heq hnone
    exact ⟨hmin, by omega⟩
  · rw [if_neg hnone, hget.minbuf (hval hnone), hget.maxbuf (hval hnone)]
    exact iff_of_true rfl fun heq => absurd heq hnone

/-- The delays of a long call. -/
theorem recordedRun_statistics_iff_longCall : ∃ (jb : Jitterbuf ℕ) (recorded : List ℤ), recorded.length = 502 ∧
    ((historyGet jb).info.min, (historyGet jb).info.jitter) = statistics recorded := by
  obtain ⟨jb, recorded, hrun, -, hptr⟩ := recordedRun_longCall
  have hlen : recorded.length = 502 := ((cached_new _).run _ hrun).histPtr.symm.trans hptr
  exact ⟨jb, recorded, hlen, (recordedRun_statistics_iff _ _ hrun).mpr fun hnil => by simp [hnil] at hlen⟩

/-- A resync by a control frame after voice with a delay of 1000: nothing has been recorded since,
and the smallest delay is still read as 1000. -/
theorem recordedRun_reads_stale :
    (recordedRun (jbSetconf (jbNew : Jitterbuf ℕ) ⟨1000, 1000, 0, 40⟩) []
      [.put 0 .voice 20 20 1020, .get 1020 20, .put 1 .control 0 20 9000]).map (fun out =>
        (out.2, (historyGet out.1).info.min)) = some ([], 1000) := by
  decide

end Runs

end Telephony.Jitter.Adaptive
