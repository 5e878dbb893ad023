import Telephony.Lib.Runs

/-!
# The frame smoother

Frames of any size are fed and frames of one size are read. A frame that has this size is kept
beside the buffer and is returned as it is; nobody else changes it until then. A copy that leaves
`data` or `framedata` has no result. Lengths are `int` in the source: sizes are less than `2 ^ 31`
and frames so short that `s->len + f->datalen` is too. Delivery times are left out.

`smootherRun_fifo` says that the smoother is a queue of bytes, and `smootherReconfigure_keeps_iff`
when a new size keeps what is in it.
-/

namespace Telephony.Audio

open Lib List

/-- Source: `SMOOTHER_SIZE` -/
def smootherSize : ℕ := 8000

/-- Source: `AST_MIN_OFFSET` -/
def minOffset : ℕ := 32

/-- Source: `ast_swapcopy_samples` -/
def swapSamples : List UInt8 → List UInt8
  | a :: b :: rest => b :: a :: swapSamples rest
  | rest => rest

/-- A frame and the `swap` with which it is fed. -/
structure FedFrame (F : Type) where
  voice : Bool
  format : F
  offset : ℕ
  samples : ℕ
  payload : List UInt8
  swap : Bool
  datalen_eq : swap = true → payload.length = 2 * samples

lemma length_swapSamples (l : List UInt8) : (swapSamples l).length = l.length := by
  fun_induction swapSamples l with
  | case1 a b rest ih => simp [ih]
  | case2 => rfl

def swapIf (swap : Bool) (payload : List UInt8) : List UInt8 :=
  if swap then swapSamples payload else payload

lemma length_swapIf (swap : Bool) (l : List UInt8) : (swapIf swap l).length = l.length := by
  unfold swapIf
  split_ifs
  · exact length_swapSamples l
  · rfl

/-- The frame beside the buffer. One that was swapped has whole samples.
Source: `struct ast_smoother` (`opt`, `opt_needs_swap`) -/
structure KeptFrame where
  payload : List UInt8
  needsSwap : Bool
  even : needsSwap = true → 2 ∣ payload.length

/-- The frame is swapped in place and kept.
Source: `__ast_smoother_feed` ("Optimize by sending the frame we just got") -/
def FedFrame.keep {F : Type} (f : FedFrame F) : KeptFrame where
  payload := swapIf f.swap f.payload
  needsSwap := f.swap
  even hswap := by rw [length_swapIf, f.datalen_eq hswap]; exact Nat.dvd_mul_right ..

/-- `data` has the `len` bytes in use.
Source: `struct ast_smoother` -/
structure Smoother (F : Type) where
  size : ℕ
  format : Option F
  g729 : Bool
  opt : Option KeptFrame
  data : List UInt8

section Smoother

variable {F : Type}

/-- Source: `smoother_frame_feed` -/
def smootherFrameFeed (s : Smoother F) (payload : List UInt8) (swap : Bool) : Option (Smoother F) :=
  if s.g729 ∧ s.data.length % 10 ≠ 0 then some s
  else if s.data.length + payload.length ≤ smootherSize then
    some { s with data := s.data ++ swapIf swap payload }
  else none

/-- The frame is taken or not.
Source: `__ast_smoother_feed` -/
def smootherFeed [DecidableEq F] (s : Smoother F) (f : FedFrame F) : Option (Bool × Smoother F) :=
  if f.voice = false then some (false, s)
  else if s.format.any (· ≠ f.format) then some (false, s)
  else
    let s := { s with format := some f.format }
    if smootherSize < s.data.length + f.payload.length then some (false, s)
    else if (f.payload.length = s.size ∨ f.payload.length < 10 ∧ s.g729) ∧ s.opt = none ∧ s.data = [] ∧
        minOffset ≤ f.offset then
      some (true, { s with opt := some f.keep })
    else (smootherFrameFeed s f.payload f.swap).map (true, ·)

/-- Source: `ast_smoother_read` -/
def smootherRead (s : Smoother F) : Option (Option (List UInt8) × Smoother F) :=
  match s.opt with
  | some opt => some (some opt.payload, { s with opt := none })
  | none =>
    if s.data.length < s.size ∧ ¬ (s.g729 ∧ s.data.length % 10 ≠ 0) then some (none, s)
    else
      let len := min s.size s.data.length
      if len ≤ smootherSize then some (some (s.data.take len), { s with data := s.data.drop len }) else none

/-- Source: `ast_smoother_reconfigure` -/
def smootherReconfigure (s : Smoother F) (bytes : ℕ) : Option (Smoother F) :=
  if s.size = bytes then some s
  else
    match s.opt with
    | none => some { s with size := bytes }
    | some opt =>
      (smootherFrameFeed { s with size := bytes } opt.payload opt.needsSwap).map fun s => { s with opt := none }

/-- Source: `ast_smoother_new` -/
def smootherNew (size : ℕ) : Smoother F := ⟨size, none, false, none, []⟩

/-- What is still held, in the order in which it came. -/
def Smoother.pending (s : Smoother F) : List UInt8 := (s.opt.elim [] KeptFrame.payload) ++ s.data

inductive SmootherOp (F : Type)
  | feed (f : FedFrame F)
  | read

/-- A smoother, the bytes that it took and the payloads that it returned. -/
structure SmootherRun (F : Type) where
  smoother : Smoother F
  accepted : List UInt8 := []
  returned : List (List UInt8) := []

def smootherStep [DecidableEq F] (w : SmootherRun F) : SmootherOp F → Option (SmootherRun F)
  | .feed f => (smootherFeed w.smoother f).map fun r =>
    ⟨r.2, if r.1 then w.accepted ++ swapIf f.swap f.payload else w.accepted, w.returned⟩
  | .read => (smootherRead w.smoother).map fun r => ⟨r.2, w.accepted, w.returned ++ r.1.toList⟩

/-! ## First in, first out -/

structure SmootherRun.Fifo (size : ℕ) (w : SmootherRun F) : Prop where
  size_eq : w.smoother.size = size
  plain : w.smoother.g729 = false
  opt : ∀ opt, w.smoother.opt = some opt → opt.payload.length = size
  len : w.smoother.data.length ≤ smootherSize
  stream : w.returned.flatten ++ w.smoother.pending = w.accepted
  returned : ∀ payload ∈ w.returned, payload.length = size

variable [DecidableEq F] {size bytes : ℕ} {w : SmootherRun F}

lemma SmootherRun.Fifo.feed (h : w.Fifo size) (f : FedFrame F) :
    ∃ w', smootherStep w (.feed f) = some w' ∧ w'.Fifo size := by
  obtain ⟨hsize, hpln, hopt, hlen, hstr, hret⟩ := h
  rw [smootherStep, smootherFeed]
  dsimp only
  split_ifs with hvoice hformat hroom hsht
  · exact ⟨_, rfl, hsize, hpln, hopt, hlen, hstr, hret⟩
  · exact ⟨_, rfl, hsize, hpln, hopt, hlen, hstr, hret⟩
  · exact ⟨_, rfl, hsize, hpln, hopt, hlen, hstr, hret⟩
  · -- nothing is pending when the frame is kept
    obtain ⟨hfits, hnone, hemp, -⟩ := hsht
    refine ⟨_, rfl, hsize, hpln, ?_, hlen, ?_, hret⟩
    · rintro _ ⟨⟩
      rw [FedFrame.keep, length_swapIf]
      simpa [hpln, hsize] using hfits
    · simp only [Smoother.pending, hnone, hemp, Option.elim, append_nil] at hstr ⊢
      rw [if_pos trivial, hstr, FedFrame.keep]
  · rw [smootherFrameFeed, if_neg (by simp [hpln]), if_pos (not_lt.1 hroom)]
    refine ⟨_, rfl, hsize, hpln, hopt, ?_, ?_, hret⟩
    · simpa [length_swapIf] using hroom
    · simp only [Smoother.pending] at hstr ⊢
      rw [← hstr]
      simp

lemma SmootherRun.Fifo.read (h : w.Fifo size) : ∃ w', smootherStep w .read = some w' ∧ w'.Fifo size := by
  obtain ⟨hsize, hpln, hopt, hlen, hstr, hret⟩ := h
  rw [smootherStep, smootherRead]
  cases hheld : w.smoother.opt with
  | some opt =>
    refine ⟨_, rfl, hsize, hpln, nofun, hlen, ?_, ?_⟩
    · rw [← hstr]
      simp [Smoother.pending, hheld]
    · simpa [or_imp, forall_and] using ⟨hret, hopt opt hheld⟩
  | none =>
    dsimp only
    split_ifs with hfew hfits
    · refine ⟨_, rfl, hsize, hpln, hopt, hlen, ?_, ?_⟩
      · simpa using hstr
      · simpa using hret
    · have hsizele : size ≤ w.smoother.data.length := by simpa [hpln, hsize] using hfew
      refine ⟨_, rfl, hsize, hpln, nofun, ?_, ?_, ?_⟩
      · simp only [length_drop]
        omega
      · rw [← hstr]
        simp [Smoother.pending, hheld]
      · have hnew : (w.smoother.data.take size).length = size := by rw [length_take, Nat.min_eq_left hsizele]
        rw [hsize, forall_mem_append, Nat.min_eq_left hsizele]
        exact ⟨hret, forall_mem_singleton.mpr hnew⟩
    · exact absurd (Nat.le_trans (Nat.min_le_right _ _) hlen) hfits

/-- **The smoother is a queue of bytes**: whatever is fed and read, no copy leaves its array, what
was returned followed by what is held is what was taken, and every returned payload has the size of
the smoother. -/
theorem smootherRun_fifo (size : ℕ) (ops : List (SmootherOp F)) :
    ∃ w, ops.foldlM smootherStep { smoother := smootherNew size } = some w ∧
      w.returned.flatten ++ w.smoother.pending = w.accepted ∧ ∀ payload ∈ w.returned, payload.length = size := by
  have hsta : SmootherRun.Fifo size { smoother := (smootherNew size : Smoother F) } :=
    ⟨rfl, rfl, nofun, Nat.zero_le _, rfl, nofun⟩
  obtain ⟨w, hrun, h⟩ : ∃ w, ops.foldlM smootherStep { smoother := smootherNew size } = some w ∧ w.Fifo size := by
    refine foldlM_total (fun op _ w h => ?_) hsta
    cases op with
    | feed f => exact h.feed f
    | read => exact h.read
  exact ⟨w, hrun, h.stream, h.returned⟩

/-! ## A new size -/

def KeptFrame.shape (opt : KeptFrame) : ℕ × Bool := (opt.payload.length, opt.needsSwap)

/-- The same lengths and flags, with any bytes. -/
def Smoother.SameShape (s s' : Smoother F) : Prop :=
  s'.size = s.size ∧ s'.g729 = s.g729 ∧ s'.opt.map KeptFrame.shape = s.opt.map KeptFrame.shape ∧
    s'.data.length = s.data.length

def Smoother.Keeps (s : Smoother F) (bytes : ℕ) : Prop :=
  ∃ s', smootherReconfigure s bytes = some s' ∧ s'.pending = s.pending

omit [DecidableEq F] in
lemma Smoother.keeps_iff {s : Smoother F} {opt : KeptFrame} (hsize : s.size ≠ bytes) (hopt : s.opt = some opt) :
    s.Keeps bytes ↔ if s.g729 ∧ s.data.length % 10 ≠ 0 then opt.payload = []
      else s.data.length + opt.payload.length ≤ smootherSize ∧
        s.data ++ swapIf opt.needsSwap opt.payload = opt.payload ++ s.data := by
  rw [Keeps, smootherReconfigure, if_neg hsize]
  simp only [hopt, smootherFrameFeed]
  split_ifs with hdrop hroom
  · simp [pending, hopt]
  · simp [pending, hopt, hroom]
  · simp [hroom]

omit [DecidableEq F] in
/-- **Reconfiguring a smoother** keeps the pending bytes, whatever they are, just if the size stays,
or no frame is kept beside the buffer, or it can go to the end of the buffer: the buffer is empty
and the frame was not swapped. -/
theorem smootherReconfigure_keeps_iff (s : Smoother F) (hlen : s.data.length ≤ smootherSize) (bytes : ℕ) :
    (∀ s', s.SameShape s' → s'.Keeps bytes) ↔
      s.size = bytes ∨ ∀ opt, s.opt = some opt → s.data.length + opt.payload.length ≤ smootherSize ∧
        (opt.payload = [] ∨ s.data = [] ∧ opt.needsSwap = false) := by
  rw [or_iff_not_imp_left]
  constructor
  · rintro h hsize ⟨payload, swap, heven⟩ hopt
    have hself := (Smoother.keeps_iff hsize hopt).1 (h s ⟨rfl, rfl, rfl, rfl⟩)
    split_ifs at hself with hdrop
    · cases hself
      exact ⟨hlen, .inl rfl⟩
    refine ⟨hself.1, ?_⟩
    have hmv : ∀ p data, p.length = payload.length → data.length = s.data.length →
        data ++ swapIf swap p = p ++ data := by
      intro p data hp hdata
      have hkp := (Smoother.keeps_iff (s := { s with opt := some ⟨p, swap, hp ▸ heven⟩, data }) hsize rfl).1
        (h _ ⟨rfl, rfl, by simp [hopt, KeptFrame.shape, hp], hdata⟩)
      rw [if_neg (by simpa [hdata] using hdrop)] at hkp
      exact hkp.2
    -- the bytes of the frame and of the buffer are told apart by their first ones
    cases payload with
    | nil => exact .inl rfl
    | cons a rest =>
      cases hdata : s.data with
      | cons b data =>
        have := hmv (0 :: rest) (1 :: data) rfl (by simp [hdata])
        simp at this
      | nil =>
        refine .inr ⟨rfl, eq_false_of_ne_true fun hswap => ?_⟩
        cases rest with
        | nil => exact absurd (heven hswap) (by simp)
        | cons b rest =>
          have := hmv (0 :: 1 :: rest) [] rfl (by simp [hdata])
          exact absurd hswap (by simpa [swapIf, swapSamples] using this)
  · rintro h s' ⟨hsize, -, hopt, hdata⟩
    by_cases hsame : s.size = bytes
    · exact ⟨s', by simp [smootherReconfigure, hsize, hsame]⟩
    cases hopt' : s'.opt with
    | none => exact ⟨{ s' with size := bytes }, by simp [smootherReconfigure, hsize, hsame, hopt', Smoother.pending]⟩
    | some opt' =>
      rw [Smoother.keeps_iff (by rwa [hsize]) hopt']
      rw [hopt', Option.map_some, eq_comm, Option.map_eq_some_iff] at hopt
      obtain ⟨opt, hopt, heq⟩ := hopt
      obtain ⟨hleng, hswap⟩ := Prod.mk.inj heq
      obtain ⟨hroom, hmove⟩ := h hsame opt hopt
      rw [hleng, ← hdata] at hroom
      rw [← length_eq_zero_iff, ← length_eq_zero_iff, hleng, ← hdata, hswap] at hmove
      rcases hmove with hnil | ⟨hnil, hpln⟩
      · simp_all [swapIf, swapSamples]
      · rw [if_neg (by simp [hnil])]
        exact ⟨hroom, by simp [length_eq_zero_iff.1 hnil, swapIf, hpln]⟩

end Smoother

theorem smootherReconfigure_keeps_iff_empty :
    (⟨4, none, false, some ⟨[1, 2, 3, 4], false, nofun⟩, []⟩ : Smoother Unit).Keeps 2 :=
  (smootherReconfigure_keeps_iff ⟨4, none, false, some ⟨[1, 2, 3, 4], false, nofun⟩, []⟩ (Nat.zero_le _) 2).2
    (.inr fun _ h => by cases h; decide) _ ⟨rfl, rfl, rfl, rfl⟩

/-- A frame of 4 bytes is kept, 2 more bytes come, and the smoother is set to frames of 2 bytes: the
younger bytes come first. -/
theorem smootherReconfigure_younger_first :
    (do
      let s ← smootherFeed (smootherNew 4) ⟨true, (), 64, 4, [1, 2, 3, 4], false, nofun⟩
      let s ← smootherFeed s.2 ⟨true, (), 64, 2, [5, 6], false, nofun⟩
      let s' ← smootherReconfigure s.2 2
      some (s.2.pending, s'.pending)) = some ([1, 2, 3, 4, 5, 6], [5, 6, 1, 2, 3, 4]) := by
  decide

end Telephony.Audio
