import Telephony.Lib.Runs
import Telephony.Threadpool.Pool

/-!
# The containers of a thread pool

The containers say in which state a worker is; the worker thread itself knows better, and tells the
control thread with delay. This module relates the two.
-/

namespace Telephony.Threadpool

open Lib List Nat

/-! ## What a worker can be doing -/

inductive Loc where
  | idle | active | zombie | nowhere
  deriving DecidableEq, Repr

def WorkerPc.Busy (pc : WorkerPc) : Prop := pc = .active ∨ pc = .running ∨ pc = .spent

def WorkerPc.Left (st : WorkerState) (pc : WorkerPc) : Prop := pc = .dying st ∨ pc = .gone

inductive Fits (w : ℕ) : Loc → Worker → List ControlTask → Prop where
  | resting : Fits w .idle ⟨.alive, false, .idle⟩ []
  | timedOut {wk : Bool} {pc : WorkerPc} (h : pc.Left .dead) : Fits w .idle ⟨.dead, wk, pc⟩ [.idleDead w]
  | woken : Fits w .active ⟨.alive, true, .idle⟩ []
  | working {pc : WorkerPc} (h : pc.Busy) : Fits w .active ⟨.alive, false, pc⟩ []
  | rested : Fits w .active ⟨.alive, false, .idle⟩ [.activeIdle w]
  | restedOut {wk : Bool} {pc : WorkerPc} (h : pc.Left .dead) :
    Fits w .active ⟨.dead, wk, pc⟩ [.activeIdle w, .idleDead w]
  | doomed {pc : WorkerPc} (h : pc = .idle ∨ pc.Busy) : Fits w .zombie ⟨.zombie, true, pc⟩ []
  | leaving {wk : Bool} : Fits w .zombie ⟨.zombie, wk, .dying .zombie⟩ []
  | left {wk : Bool} : Fits w .zombie ⟨.zombie, wk, .gone⟩ [.zombieDead w]
  | dropped {wk : Bool} {pc : WorkerPc} (h : pc.Left .dead) : Fits w .nowhere ⟨.dead, wk, pc⟩ [.idleDead w]
  | killed : Fits w .nowhere ⟨.dead, true, .idle⟩ []
  | ended {wk : Bool} {pc : WorkerPc} (h : pc.Left .dead) : Fits w .nowhere ⟨.dead, wk, pc⟩ []

lemma Fits.busy {w : ℕ} {loc : Loc} {msgs : List ControlTask} {st : WorkerState} {wk : Bool} {pc pc' : WorkerPc}
    (h : Fits w loc ⟨st, wk, pc⟩ msgs) (hpc : pc.Busy) (hpc' : pc'.Busy) : Fits w loc ⟨st, wk, pc'⟩ msgs := by
  have hleft : ∀ st', ¬ pc.Left st' := by
    rintro st' (rfl | rfl)
    · simp [WorkerPc.Busy] at hpc
    · simp [WorkerPc.Busy] at hpc
  have hidle : pc ≠ .idle := by
    rintro rfl
    simp [WorkerPc.Busy] at hpc
  cases h with
  | resting | woken | rested | killed => exact absurd rfl hidle
  | timedOut h | restedOut h | dropped h | ended h => exact absurd h (hleft _)
  | working _ => exact .working hpc'
  | doomed _ => exact .doomed (.inr hpc')
  | leaving => exact absurd (.inl rfl) (hleft .zombie)
  | left => exact absurd (.inr rfl) (hleft .zombie)

namespace Pool

def about (p : Pool) (w : ℕ) : List ControlTask := p.control.filter (ControlTask.isAbout w)

/-- The record of a worker, the container that it is in, once, and the control tasks about it. -/
structure Stands (p : Pool) (w : ℕ) (loc : Loc) (r : Worker) (msgs : List ControlTask) : Prop where
  worker : p.workers[w]? = some r
  idle : p.idle.count w = if loc = .idle then 1 else 0
  active : p.active.count w = if loc = .active then 1 else 0
  zombie : p.zombie.count w = if loc = .zombie then 1 else 0
  about : p.about w = msgs

structure Inv (opts : Options) (p : Pool) : Prop where
  stands : ∀ w < p.workers.length, ∃ loc r msgs, p.Stands w loc r msgs ∧ Fits w loc r msgs ∧
    (w ∈ p.buried → loc = .nowhere ∧ msgs = [])
  known : ∀ w, p.workers.length ≤ w →
    p.active.count w = 0 ∧ p.idle.count w = 0 ∧ p.zombie.count w = 0 ∧ p.about w = [] ∧ w ∉ p.buried
  size : opts.maxSize ≠ 0 → p.active.length + p.idle.length ≤ opts.maxSize

lemma create_inv (opts : Options) : (create opts).Inv opts where
  stands := fun w hw => absurd hw (not_lt_zero w)
  known := fun w _ => by simp [create, about, ControlTask.isAbout]
  size := fun _ => zero_le _

/-! ## Steps that concern one worker -/

structure SameBut (w : ℕ) (p p' : Pool) : Prop where
  length : p'.workers.length = p.workers.length
  worker : ∀ v, v ≠ w → p'.workers[v]? = p.workers[v]?
  active : ∀ v, v ≠ w → p'.active.count v = p.active.count v
  idle : ∀ v, v ≠ w → p'.idle.count v = p.idle.count v
  zombie : ∀ v, v ≠ w → p'.zombie.count v = p.zombie.count v
  about : ∀ v, v ≠ w → p'.about v = p.about v
  buried : ∀ v, v ≠ w → (v ∈ p'.buried ↔ v ∈ p.buried)

section OneWorker

variable {opts : Options} {p p' : Pool} {w tasks : ℕ} {loc : Loc} {r : Worker} {msgs control : List ControlTask}

lemma Inv.congr {pushing : Bool} {pc : ControlPc} (h : p.Inv opts)
    (hab : ∀ w, control.filter (ControlTask.isAbout w) = p.about w) :
    Inv opts { p with tasks, pushing, control, pc } := by
  refine { h with stands := fun v hv => ?_, known := fun v hv => ?_ }
  · obtain ⟨loc, r, msgs, hstd, hfits, hbur⟩ := h.stands v hv
    exact ⟨loc, r, msgs, { hstd with about := (hab v).trans hstd.about }, hfits, hbur⟩
  · obtain ⟨hact, hidle, hzmb, hnone, hbur⟩ := h.known v hv
    exact ⟨hact, hidle, hzmb, (hab v).trans hnone, hbur⟩

lemma Inv.withPc (h : p.Inv opts) (pc : ControlPc) : Inv opts { p with pc := pc } :=
  h.congr fun _ => rfl

lemma Stands.refs_eq_zero_iff (h : p.Stands w loc r msgs) : p.refs w = 0 ↔ loc = .nowhere ∧ msgs = [] := by
  have hab : p.control.countP (ControlTask.isAbout w) = 0 ↔ msgs = [] := by
    rw [countP_eq_length_filter, length_eq_zero_iff]
    exact Eq.congr_left h.about
  unfold refs
  rw [Nat.add_eq_zero_iff, hab, h.active, h.idle, h.zombie]
  cases loc <;> simp

lemma Stands.mem_idle (h : p.Stands w loc r msgs) : w ∈ p.idle ↔ loc = .idle := by
  rw [← count_pos_iff, h.idle]
  cases loc <;> simp

lemma Stands.mem_active (h : p.Stands w loc r msgs) : w ∈ p.active ↔ loc = .active := by
  rw [← count_pos_iff, h.active]
  cases loc <;> simp

lemma getElem?_update (p : Pool) (w v : ℕ) (f : Worker → Worker) :
    (p.update w f).workers[v]? = if w = v then (p.workers[v]?).map f else p.workers[v]? := by
  simp only [update, getElem?_modify]
  split_ifs <;> simp

lemma update_self (hr : p.workers[w]? = some r) (f : Worker → Worker) : (p.update w f).workers[w]? = some (f r) := by
  rw [getElem?_update, if_pos rfl, hr]
  rfl

section

variable (h : p.Inv opts) (hw : w < p.workers.length) (hsame : SameBut w p p') (hstd : p'.Stands w loc r msgs)
  (hbur : w ∈ p'.buried → loc = .nowhere ∧ msgs = [])
  (hsize : p'.active.length + p'.idle.length ≤ p.active.length + p.idle.length)
include h hw hsame hstd hbur hsize

lemma Inv.change (hfits : Fits w loc r msgs) : p'.Inv opts := by
  refine ⟨fun v hv => ?_, fun v hv => ?_, fun hmax => Nat.le_trans hsize (h.size hmax)⟩
  · by_cases hvw : v = w
    · subst hvw
      exact ⟨loc, r, msgs, hstd, hfits, hbur⟩
    · rw [hsame.length] at hv
      obtain ⟨loc', r', msgs', hstd', hfits', hbur'⟩ := h.stands v hv
      refine ⟨loc', r', msgs', ⟨?_, ?_, ?_, ?_, ?_⟩, hfits', ?_⟩
      · rw [hsame.worker v hvw, hstd'.worker]
      · rw [hsame.idle v hvw, hstd'.idle]
      · rw [hsame.active v hvw, hstd'.active]
      · rw [hsame.zombie v hvw, hstd'.zombie]
      · rw [hsame.about v hvw, hstd'.about]
      · rwa [hsame.buried v hvw]
  · rw [hsame.length] at hv
    have hvw : v ≠ w := by omega
    rw [hsame.active v hvw, hsame.idle v hvw, hsame.zombie v hvw, hsame.about v hvw, hsame.buried v hvw]
    exact h.known v hv

lemma Inv.released
    (hfits : if loc = .nowhere ∧ msgs = [] then Fits w .nowhere (r.setState .dead) [] else Fits w loc r msgs)
    (next : ControlPc) : (p'.release w next).Inv opts := by
  unfold release
  by_cases hrefs : p'.refs w = 0
  · obtain ⟨rfl, rfl⟩ := hstd.refs_eq_zero_iff.mp hrefs
    rw [if_pos hrefs]
    refine Inv.withPc (p := p'.update w (Worker.setState .dead))
      (Inv.change h hw ?_ ?_ hbur hsize hfits) _
    · refine { hsame with length := ?_, worker := fun v hv => ?_ }
      · rw [← hsame.length]
        simp [update]
      · rw [getElem?_update, if_neg (Ne.symm hv), hsame.worker v hv]
    · exact { hstd with worker := update_self hstd.worker _ }
  · rw [if_neg (fun hnone => hrefs (hstd.refs_eq_zero_iff.mpr hnone))] at hfits
    rw [if_neg hrefs]
    exact Inv.withPc (Inv.change h hw hsame hstd hbur hsize hfits) _

end

lemma Inv.worker (h : p.Inv opts) (hr : p.workers[w]? = some r) :
    w < p.workers.length ∧ ∃ loc msgs, p.Stands w loc r msgs ∧ Fits w loc r msgs ∧
      (w ∈ p.buried → loc = .nowhere ∧ msgs = []) := by
  have hw : w < p.workers.length := (List.getElem?_eq_some_iff.mp hr).1
  obtain ⟨loc, r', msgs, hstd, hfits, hbur⟩ := h.stands w hw
  have hsame : r' = r := Option.some.inj (hstd.worker.symm.trans hr)
  subst hsame
  exact ⟨hw, loc, msgs, hstd, hfits, hbur⟩

lemma sameBut_update (p : Pool) (w : ℕ) (f : Worker → Worker) : SameBut w p (p.update w f) := by
  refine ⟨by simp [update], fun v hv => ?_, fun _ _ => rfl, fun _ _ => rfl, fun _ _ => rfl, fun _ _ => rfl,
    fun _ _ => Iff.rfl⟩
  rw [getElem?_update, if_neg (Ne.symm hv)]

variable {r' : Worker} {v choice : ℕ} {t : ControlTask} {rest : List ControlTask} {l : List ℕ}

lemma Inv.updated (h : p.Inv opts) (hr : p.workers[w]? = some r)
    (hfits : ∀ loc msgs, Fits w loc r msgs → Fits w loc r' msgs) : (p.update w fun _ => r').Inv opts := by
  obtain ⟨hw, loc, msgs, hstd, hold, hbur⟩ := h.worker hr
  exact h.change hw (sameBut_update p w _) { hstd with worker := update_self hr _ } hbur (Nat.le_refl _)
    (hfits loc msgs hold)

lemma isAbout_other (hv : v ≠ w) :
    (ControlTask.activeIdle w).isAbout v = false ∧ (ControlTask.zombieDead w).isAbout v = false ∧
      (ControlTask.idleDead w).isAbout v = false := by
  simp [ControlTask.isAbout, Ne.symm hv]

lemma about_enqueue (p : Pool) (t : ControlTask) (v : ℕ) :
    (p.enqueue t).about v = p.about v ++ if t.isAbout v then [t] else [] := by
  unfold about enqueue
  rw [filter_append, filter_cons]
  split_ifs <;> simp

lemma Inv.told (h : p.Inv opts) (hr : p.workers[w]? = some r) (hself : t.isAbout w = true)
    (hoth : ∀ v, v ≠ w → t.isAbout v = false)
    (hfits : ∀ loc msgs, Fits w loc r msgs → loc ≠ .nowhere ∧ Fits w loc r' (msgs ++ [t])) :
    ((p.update w fun _ => r').enqueue t).Inv opts := by
  obtain ⟨hw, loc, msgs, hstd, hold, hbur⟩ := h.worker hr
  obtain ⟨hloc, hnew⟩ := hfits loc msgs hold
  have hsame := sameBut_update p w fun _ => r'
  refine h.change hw { hsame with about := fun v hv => ?_ } { hstd with worker := update_self hr _, about := ?_ }
    (fun hb => absurd (hbur hb).1 hloc) (Nat.le_refl _) hnew
  · rw [about_enqueue, hoth v hv]
    exact append_nil _
  · rw [about_enqueue, hself]
    exact congrArg (· ++ [t]) hstd.about

lemma about_of_head (hctl : p.control = t :: rest) (hoth : t.isAbout v = false) :
    rest.filter (ControlTask.isAbout v) = p.about v := by
  unfold about
  rw [hctl, filter_cons, hoth]
  rfl

lemma count_append_other (hv : v ≠ w) : (l ++ [w]).count v = l.count v := by
  simp [Ne.symm hv]

lemma length_erase_mem (hw : w ∈ l) : (l.erase w).length + 1 = l.length := by
  have hpos := length_pos_of_mem hw
  rw [length_erase_of_mem hw]
  omega

lemma mem_of_first (hfst : first choice l = some w) : w ∈ l := by
  cases l with
  | nil => cases hfst
  | cons v l =>
    obtain rfl : (v :: l).getD choice v = w := Option.some.inj hfst
    rw [getD_eq_getElem?_getD]
    cases hget : (v :: l)[choice]? with
    | none => exact mem_cons_self
    | some u => exact mem_of_getElem? hget

/-! ## The threads of workers -/

variable (h : p.Inv opts)

include h

section

variable (w : ℕ)

lemma Inv.wake : (p.wake w).Inv opts := by
  unfold Pool.wake
  split
  · next st hr =>
    refine h.updated hr fun loc msgs hfits => ?_
    cases hfits with
    | woken => exact .working (.inl rfl)
    | doomed _ => exact .leaving
    | killed => exact .ended (.inl rfl)
    | timedOut hleft | restedOut hleft | dropped hleft | ended hleft => simp [WorkerPc.Left] at hleft
  · exact h

lemma Inv.timeout : (p.timeout opts w).Inv opts := by
  unfold Pool.timeout
  split
  · next st hr =>
    split_ifs
    · refine h.told hr (by simp [ControlTask.isAbout]) (fun v hv => (isAbout_other hv).2.2) ?_
      intro loc msgs hfits
      cases hfits with
      | resting => exact ⟨by simp, .timedOut (.inl rfl)⟩
      | rested => exact ⟨by simp, .restedOut (.inl rfl)⟩
      | working hbusy => simp [WorkerPc.Busy] at hbusy
      | timedOut hleft | restedOut hleft | dropped hleft | ended hleft => simp [WorkerPc.Left] at hleft
    · exact h
  · exact h

lemma Inv.pop : (p.pop w).Inv opts := by
  unfold Pool.pop
  split
  · next st wk hr =>
    split_ifs
    · exact h.updated hr fun loc msgs hfits => hfits.busy (.inl rfl) (.inr (.inr rfl))
    · refine Inv.congr (p := p.update w fun _ => ⟨st, wk, .running⟩) ?_ fun _ => rfl
      exact h.updated hr fun loc msgs hfits => hfits.busy (.inl rfl) (.inr (.inl rfl))
  · exact h

lemma Inv.finish : (p.finish w).Inv opts := by
  unfold Pool.finish
  split
  · next st wk hr =>
    refine h.updated hr fun loc msgs hfits => hfits.busy (.inr (.inl rfl)) ?_
    split_ifs
    · exact .inl rfl
    · exact .inr (.inr rfl)
  · exact h

lemma Inv.settle : (p.settle w).Inv opts := by
  unfold Pool.settle
  split
  · next wk hr =>
    split_ifs
    · exact h
    · refine h.told hr (by simp [ControlTask.isAbout]) (fun v hv => (isAbout_other hv).1) ?_
      intro loc msgs hfits
      cases hfits with
      | working _ => exact ⟨by simp, .rested⟩
  · next st wk hst hr =>
    refine h.updated hr fun loc msgs hfits => ?_
    cases hfits with
    | working _ => exact absurd rfl hst
    | doomed _ => exact .leaving
    | timedOut hleft | restedOut hleft | dropped hleft | ended hleft => simp [WorkerPc.Left] at hleft
  · exact h

lemma Inv.die : (p.die w).Inv opts := by
  unfold Pool.die
  split
  · next st wk hr =>
    split_ifs
    · exact h
    refine h.told hr (by simp [ControlTask.isAbout]) (fun v hv => (isAbout_other hv).2.1) ?_
    intro loc msgs hfits
    cases hfits with
    | leaving => exact ⟨by simp, .left⟩
    | working hpc | doomed hpc => simp [WorkerPc.Busy] at hpc
    | timedOut hleft | restedOut hleft | dropped hleft | ended hleft => simp [WorkerPc.Left] at hleft
  · next st wk saved hsaved hr =>
    refine h.updated hr fun loc msgs hfits => ?_
    cases hfits with
    | timedOut _ => exact .timedOut (.inr rfl)
    | restedOut _ => exact .restedOut (.inr rfl)
    | working hpc | doomed hpc => simp [WorkerPc.Busy] at hpc
    | leaving => exact absurd rfl hsaved
    | dropped _ => exact .dropped (.inr rfl)
    | ended _ => exact .ended (.inr rfl)
  · exact h

end

/-! ## The control thread -/

lemma Inv.head (hctl : p.control = t :: rest) (hself : t.isAbout w = true) :
    w < p.workers.length ∧ w ∉ p.buried ∧ ∃ loc r msgs, p.Stands w loc r (t :: msgs) ∧
      Fits w loc r (t :: msgs) ∧ rest.filter (ControlTask.isAbout w) = msgs := by
  have hab : p.about w = t :: rest.filter (ControlTask.isAbout w) := by
    unfold about
    rw [hctl, filter_cons, if_pos hself]
  have hw : w < p.workers.length := by
    by_contra hge
    have hnone := (h.known w (Nat.le_of_not_lt hge)).2.2.2.1
    rw [hab] at hnone
    cases hnone
  obtain ⟨loc, r, msgs, hstd, hfits, hbur⟩ := h.stands w hw
  obtain rfl : t :: rest.filter (ControlTask.isAbout w) = msgs := hab.symm.trans hstd.about
  exact ⟨hw, fun hb => absurd (hbur hb).2 (cons_ne_nil _ _), loc, r, _, hstd, hfits, rfl⟩

lemma Inv.activeIdle (hctl : p.control = .activeIdle w :: rest) (choice : ℕ) :
    (beginTask choice { p with control := rest } (.activeIdle w)).Inv opts := by
  obtain ⟨hw, hbur, loc, r, msgs, hstd, hfits, hrest⟩ := h.head hctl (decide_eq_true rfl)
  obtain rfl : loc = .active := by
    cases hfits <;> rfl
  have hact : w ∈ p.active := hstd.mem_active.mpr rfl
  refine @Inv.released opts p { p with control := rest, idle := p.idle ++ [w], active := p.active.erase w }
    w .idle r msgs h hw ?_ ?_ (fun hb => absurd hb hbur) ?_ ?_ .ready
  · exact ⟨rfl, fun _ _ => rfl, fun v hv => count_erase_of_ne hv, fun v hv => count_append_other hv,
      fun _ _ => rfl, fun v hv => about_of_head hctl (isAbout_other hv).1, fun _ _ => Iff.rfl⟩
  · exact ⟨hstd.worker, by simp [hstd.idle], by simp [hstd.active], hstd.zombie, hrest⟩
  · have hlen := length_erase_mem hact
    simp only [length_append, length_singleton]
    omega
  · cases hfits with
    | rested => exact .resting
    | restedOut hleft => exact .timedOut hleft

lemma Inv.zombieDead (hctl : p.control = .zombieDead w :: rest) (choice : ℕ) :
    (beginTask choice { p with control := rest } (.zombieDead w)).Inv opts := by
  obtain ⟨hw, hbur, loc, r, msgs, hstd, hfits, hrest⟩ := h.head hctl (decide_eq_true rfl)
  cases hfits with
  | left =>
    refine @Inv.released opts p
      { p with control := rest, zombie := p.zombie.erase w, buried := p.buried ++ [w] }
      w .nowhere _ [] h hw ?_ ⟨hstd.worker, hstd.idle, hstd.active, by simp [hstd.zombie], hrest⟩
      (fun _ => ⟨rfl, rfl⟩) (Nat.le_refl _) (.ended (.inr rfl)) .ready
    exact ⟨rfl, fun _ _ => rfl, fun _ _ => rfl, fun _ _ => rfl, fun v hv => count_erase_of_ne hv,
      fun v hv => about_of_head hctl (isAbout_other hv).2.1, fun v hv => by simp [hv]⟩

lemma Inv.idleDead (hctl : p.control = .idleDead w :: rest) (choice : ℕ) :
    (beginTask choice { p with control := rest } (.idleDead w)).Inv opts := by
  obtain ⟨hw, hbur, loc, r, msgs, hstd, hfits, hrest⟩ := h.head hctl (decide_eq_true rfl)
  have hended : Fits w .nowhere (r.setState .dead) [] ∧ msgs = [] ∧ loc ≠ .active ∧ loc ≠ .zombie := by
    cases hfits with
    | timedOut hleft | dropped hleft => exact ⟨.ended hleft, rfl, by simp, by simp⟩
  obtain ⟨hended, rfl, hact, hzmb⟩ := hended
  refine @Inv.released opts p { p with control := rest, idle := p.idle.erase w, buried := p.buried ++ [w] }
    w .nowhere r [] h hw ?_
    ⟨hstd.worker, by simp [hstd.idle]; split_ifs <;> rfl, by simp [hstd.active, hact], by simp [hstd.zombie, hzmb],
      hrest⟩ (fun _ => ⟨rfl, rfl⟩) (Nat.add_le_add_left length_erase_le _) hended .ready
  exact ⟨rfl, fun _ _ => rfl, fun _ _ => rfl, fun v hv => count_erase_of_ne hv, fun _ _ => rfl,
    fun v hv => about_of_head hctl (isAbout_other hv).2.2, fun v hv => by simp [hv]⟩

lemma Inv.of_active (hw : w ∈ p.active) : w < p.workers.length ∧ w ∉ p.buried ∧
    ∃ r msgs, p.Stands w .active r msgs ∧ Fits w .active r msgs := by
  have hlt : w < p.workers.length := by
    by_contra hge
    exact count_eq_zero.mp (h.known w (Nat.le_of_not_lt hge)).1 hw
  obtain ⟨loc, r, msgs, hstd, hfits, hbur⟩ := h.stands w hlt
  obtain rfl : loc = .active := hstd.mem_active.mp hw
  exact ⟨hlt, fun hb => Loc.noConfusion (hbur hb).1, r, msgs, hstd, hfits⟩

lemma Inv.of_idle (hw : w ∈ p.idle) : w < p.workers.length ∧ w ∉ p.buried ∧
    ∃ r msgs, p.Stands w .idle r msgs ∧ Fits w .idle r msgs := by
  have hlt : w < p.workers.length := by
    by_contra hge
    exact count_eq_zero.mp (h.known w (Nat.le_of_not_lt hge)).2.1 hw
  obtain ⟨loc, r, msgs, hstd, hfits, hbur⟩ := h.stands w hlt
  obtain rfl : loc = .idle := hstd.mem_idle.mp hw
  exact ⟨hlt, fun hb => Loc.noConfusion (hbur hb).1, r, msgs, hstd, hfits⟩

lemma Inv.activate (hw : w ∈ p.idle) (next : ControlPc) : (p.activate w next).Inv opts := by
  obtain ⟨hlt, hbur, r, msgs, hstd, hfits⟩ := h.of_idle hw
  have hlen := length_erase_mem hw
  have hsame := sameBut_update p w (Worker.setState .alive)
  have hr := update_self hstd.worker (Worker.setState .alive)
  unfold Pool.activate
  simp only [hstd.worker]
  cases hfits with
  | resting =>
    refine @Inv.released opts p
      { p.update w (Worker.setState .alive) with active := p.active ++ [w], idle := p.idle.erase w }
      w .active ⟨.alive, true, .idle⟩ [] h hlt ?_
      ⟨hr, by simp [hstd.idle], by simp [hstd.active], hstd.zombie, hstd.about⟩ (fun hb => absurd hb hbur) ?_ .woken next
    · exact { hsame with active := fun v hv => count_append_other hv, idle := fun v hv => count_erase_of_ne hv }
    · simp only [length_append, length_singleton]
      omega
  | @timedOut wk pc hleft =>
    refine @Inv.released opts p
      { p.update w (Worker.setState .alive) with
        active := (p.active ++ [w]).erase w, idle := p.idle.erase w }
      w .nowhere ⟨.dead, wk, pc⟩ [.idleDead w] h hlt ?_
      ⟨hr, by simp [hstd.idle], by simp [hstd.active], hstd.zombie, hstd.about⟩ (fun hb => absurd hb hbur) ?_
      (.dropped hleft) next
    · refine { hsame with active := fun v hv => ?_, idle := fun v hv => count_erase_of_ne hv }
      exact (count_erase_of_ne hv).trans (count_append_other hv)
    · have herase := @length_erase_mem w (p.active ++ [w]) (by simp)
      simp only [length_append, length_singleton] at herase ⊢
      omega

lemma Inv.kill (hw : w ∈ p.idle) (next : ControlPc) :
    (release { p with idle := p.idle.erase w } w next).Inv opts := by
  obtain ⟨hlt, hbur, r, msgs, hstd, hfits⟩ := h.of_idle hw
  have hfits : if msgs = [] then Fits w .nowhere (r.setState .dead) [] else Fits w .nowhere r msgs := by
    cases hfits with
    | resting => exact .killed
    | timedOut hleft => exact .dropped hleft
  refine @Inv.released opts p { p with idle := p.idle.erase w } w .nowhere r msgs h hlt ?_
    ⟨hstd.worker, by simp [hstd.idle], hstd.active, hstd.zombie, hstd.about⟩ (fun hb => absurd hb hbur)
    (Nat.add_le_add_left length_erase_le _) (by simpa using hfits) next
  exact ⟨rfl, fun _ _ => rfl, fun _ _ => rfl, fun v hv => count_erase_of_ne hv, fun _ _ => rfl, fun _ _ => rfl,
    fun _ _ => Iff.rfl⟩

lemma Inv.zombify (hw : w ∈ p.active) (htold : .activeIdle w ∉ p.control) (next : ControlPc) :
    Inv opts { p.update w (Worker.setState .zombie) with
      zombie := p.zombie ++ [w], active := p.active.erase w, pc := next } := by
  obtain ⟨hlt, hbur, r, msgs, hstd, hfits⟩ := h.of_active hw
  have hmsgs : .activeIdle w ∉ msgs := by
    rw [← hstd.about]
    exact fun hmem => htold (mem_of_mem_filter hmem)
  have hdoomed : Fits w .zombie (r.setState .zombie) [] ∧ msgs = [] := by
    cases hfits with
    | woken => exact ⟨.doomed (.inl rfl), rfl⟩
    | working hbusy => exact ⟨.doomed (.inr hbusy), rfl⟩
    | rested | restedOut _ => exact absurd (mem_cons_self) hmsgs
  obtain ⟨hdoomed, rfl⟩ := hdoomed
  have hsame := sameBut_update p w (Worker.setState .zombie)
  exact h.change hlt
    { hsame with active := fun v hv => count_erase_of_ne hv, zombie := fun v hv => count_append_other hv }
    ⟨update_self hstd.worker _, by exact hstd.idle, by simp [hstd.active], by simp [hstd.zombie], hstd.about⟩
    (fun hb => absurd hb hbur) (Nat.add_le_add_right length_erase_le _) hdoomed

lemma Inv.grow (delta : ℕ) (next : ControlPc) : (p.grow opts delta next).Inv opts := by
  unfold Pool.grow
  simp only
  obtain ⟨d, hd⟩ : ∃ d, d = if opts.maxSize ≠ 0 ∧ p.active.length + p.idle.length + delta > opts.maxSize then
    opts.maxSize - (p.active.length + p.idle.length) else delta := ⟨_, rfl⟩
  rw [← hd]
  have hnew : ∀ w, (range' p.workers.length d).count w =
      if p.workers.length ≤ w ∧ w < p.workers.length + d then 1 else 0 := by
    intro w
    rw [List.Nodup.count nodup_range']
    simp only [mem_range'_1]
  refine ⟨fun w hw => ?_, fun w hw => ?_, fun hmax => ?_⟩
  · by_cases hlt : w < p.workers.length
    · obtain ⟨loc, r, msgs, hstd, hfits, hbur⟩ := h.stands w hlt
      refine ⟨loc, r, msgs, { hstd with worker := ?_, idle := ?_ }, hfits, hbur⟩
      · rw [getElem?_append_left hlt, hstd.worker]
      · rw [count_append, hnew, if_neg (by omega), hstd.idle, Nat.add_zero]
    · have hge := Nat.le_of_not_lt hlt
      obtain ⟨hact, hidle, hzmb, hab, hbur⟩ := h.known w hge
      simp only [length_append, length_replicate] at hw
      refine ⟨.idle, fresh, [], ⟨?_, ?_, hact, hzmb, hab⟩, .resting, fun hb => absurd hb hbur⟩
      · rw [getElem?_append_right hge, getElem?_replicate_of_lt (by omega)]
      · rw [count_append, hnew, if_pos ⟨hge, hw⟩, hidle]
        rfl
  · simp only [length_append, length_replicate] at hw
    obtain ⟨hact, hidle, hrest⟩ := h.known w (by omega)
    refine ⟨hact, ?_, hrest⟩
    rw [count_append, hnew, if_neg (by omega), hidle]
  · have hsize := h.size hmax
    simp only [length_append, length_range']
    rw [hd]
    split_ifs <;> omega

lemma Inv.tail (hctl : p.control = t :: rest) (hoth : ∀ v, t.isAbout v = false) :
    Inv opts { p with control := rest } :=
  h.congr fun v => about_of_head hctl (hoth v)

lemma Inv.beginTask (hctl : p.control = t :: rest) (choice : ℕ) :
    (Pool.beginTask choice { p with control := rest } t).Inv opts := by
  cases t with
  | activeIdle w => exact h.activeIdle hctl choice
  | zombieDead w => exact h.zombieDead hctl choice
  | idleDead w => exact h.idleDead hctl choice
  | taskPushed =>
    have htail := h.tail hctl fun _ => rfl
    simp only [Pool.beginTask]
    split
    · exact htail.withPc _
    · next w hfst => exact htail.activate (mem_of_first hfst) _
  | setSize size =>
    have htail := h.tail hctl fun _ => rfl
    simp only [Pool.beginTask]
    split_ifs <;> exact htail.withPc _

end OneWorker

/-! ## Runs -/

/-- No worker is zombified by the action that has told that it goes idle, the control task about
this being still in the queue. -/
def punctual (p : Pool) : PoolAction → Bool
  | .control choice =>
    match p.pc, first choice p.active with
    | .zombifying (_ + 1), some w => .activeIdle w ∉ p.control
    | _, _ => true
  | _ => true

variable {opts : Options} {p : Pool}

lemma Inv.controlStep {choice : ℕ} (h : p.Inv opts) (hpun : p.punctual (.control choice) = true) :
    (p.controlStep opts choice).Inv opts := by
  unfold Pool.controlStep
  split
  · split
    · exact h
    · next t rest hctl => exact h.beginTask hctl choice
  · split_ifs
    · exact h.withPc _
    · exact h.grow _ _
    · exact h.withPc _
  · split
    · exact h.withPc _
    · next w hfst => exact h.activate (mem_of_first hfst) _
  · split
    · next w hfst => exact h.activate (mem_of_first hfst) _
    · split
      · exact h.withPc _
      · exact h.grow _ _
  · exact h.withPc _
  · split
    · exact h.withPc _
    · next w hfst => exact h.kill (mem_of_first hfst) _
  · exact h.withPc _
  · next n hpc =>
    split
    · exact h.withPc _
    · next w hfst =>
      refine h.zombify (mem_of_first hfst) ?_ _
      simpa [punctual, hpc, hfst] using hpun
  · split_ifs
    · exact h.withPc _
    · exact h

lemma Inv.step {a : PoolAction} (h : p.Inv opts) (hpun : p.punctual a = true) : (p.step opts a).Inv opts := by
  have henqueue : ∀ t : ControlTask, (∀ v, t.isAbout v = false) → ∀ v, (p.enqueue t).about v = p.about v := by
    intro t hoth v
    rw [about_enqueue, hoth v]
    exact append_nil _
  cases a with
  | push =>
    unfold Pool.step
    split_ifs
    · exact h
    · exact h.congr fun _ => rfl
  | notify =>
    unfold Pool.step
    split_ifs
    · exact h.congr (henqueue _ fun _ => rfl)
    · exact h
  | setSize size =>
    unfold Pool.step
    split_ifs
    · exact h
    · exact h.congr (henqueue _ fun _ => rfl)
  | wake w => exact h.wake w
  | timeout w => exact h.timeout w
  | pop w => exact h.pop w
  | finish w => exact h.finish w
  | settle w => exact h.settle w
  | die w => exact h.die w
  | control choice => exact h.controlStep hpun

/-- Every worker is in at most one container, a worker whose death notice was processed is neither
active nor idle, and the active and the idle workers are not more than allowed. -/
structure Tidy (opts : Options) (p : Pool) : Prop where
  active_idle : ∀ w ∈ p.active, w ∉ p.idle
  active_zombie : ∀ w ∈ p.active, w ∉ p.zombie
  idle_zombie : ∀ w ∈ p.idle, w ∉ p.zombie
  buried : ∀ w ∈ p.buried, w ∉ p.active ∧ w ∉ p.idle
  size : opts.maxSize ≠ 0 → p.active.length + p.idle.length ≤ opts.maxSize

instance (opts : Options) (p : Pool) : Decidable (p.Tidy opts) :=
  decidable_of_iff
    ((∀ w ∈ p.active, w ∉ p.idle) ∧ (∀ w ∈ p.active, w ∉ p.zombie) ∧ (∀ w ∈ p.idle, w ∉ p.zombie) ∧
      (∀ w ∈ p.buried, w ∉ p.active ∧ w ∉ p.idle) ∧
      (opts.maxSize ≠ 0 → p.active.length + p.idle.length ≤ opts.maxSize))
    ⟨fun ⟨h₁, h₂, h₃, h₄, h₅⟩ => ⟨h₁, h₂, h₃, h₄, h₅⟩, fun h => ⟨h.1, h.2, h.3, h.4, h.5⟩⟩

lemma Inv.tidy (h : p.Inv opts) : p.Tidy opts := by
  have hact : ∀ w ∈ p.active, w ∉ p.idle ∧ w ∉ p.zombie ∧ w ∉ p.buried := by
    intro w hw
    obtain ⟨-, hbur, r, msgs, hstd, -⟩ := h.of_active hw
    exact ⟨count_eq_zero.mp hstd.idle, count_eq_zero.mp hstd.zombie, hbur⟩
  have hidle : ∀ w ∈ p.idle, w ∉ p.zombie ∧ w ∉ p.buried := by
    intro w hw
    obtain ⟨-, hbur, r, msgs, hstd, -⟩ := h.of_idle hw
    exact ⟨count_eq_zero.mp hstd.zombie, hbur⟩
  exact ⟨fun w hw => (hact w hw).1, fun w hw => (hact w hw).2.1, fun w hw => (hidle w hw).1,
    fun w hb => ⟨fun hw => (hact w hw).2.2 hb, fun hw => (hidle w hw).2 hb⟩, h.size⟩

end Pool

/-- **The containers match the threads** in every state that a pool reaches, for all interleavings,
as long as no worker is zombified that has told that it goes idle. -/
theorem poolRun_tidy (opts : Options) (actions : List PoolAction)
    (h : Each (total (Pool.step opts)) (fun p a => p.punctual a) (Pool.create opts) actions) :
    ((Pool.create opts).run opts actions).Tidy opts :=
  Pool.Inv.tidy (h.foldl_inv (fun _ _ _ h hpun => h.step hpun) (Pool.create_inv opts))

/-- A worker is created, works, is zombified and dies. -/
theorem poolRun_tidy_zombie :
    (Pool.run ⟨false, 0, 1, 1⟩ (Pool.create ⟨false, 0, 1, 1⟩)
      [.control 0, .control 0, .control 0, .control 0, .wake 0, .setSize 0, .control 0, .control 0, .control 0,
        .pop 0, .settle 0, .die 0, .control 0, .control 0]).buried = [0] ∧
    (Pool.run ⟨false, 0, 1, 1⟩ (Pool.create ⟨false, 0, 1, 1⟩)
      [.control 0, .control 0, .control 0, .control 0, .wake 0, .setSize 0, .control 0, .control 0, .control 0,
        .pop 0, .settle 0, .die 0, .control 0, .control 0]).Tidy ⟨false, 0, 1, 1⟩ :=
  ⟨by decide, poolRun_tidy _ _ (by decide)⟩

/-- A worker has no task left when the size is set to 0 and then to 1. The first control task
zombifies it, the second one creates another worker, and then the worker is put into the idle
container too, where it stays when its death notice is processed. -/
theorem poolRun_not_tidy :
    let opts : Options := ⟨false, 0, 1, 1⟩
    let actions : List PoolAction :=
      [.control 0, .control 0, .control 0, .control 0, .wake 0, .pop 0, .setSize 0, .setSize 1, .settle 0,
        .control 0, .control 0, .control 0, .control 0, .control 0, .control 0, .control 0, .control 0, .control 0]
    let p := (Pool.create opts).run opts actions
    let p' := p.run opts [.wake 0, .die 0, .control 0]
    p.pc = .ready ∧ 0 ∈ p.idle ∧ 0 ∈ p.zombie ∧ opts.maxSize < p.active.length + p.idle.length ∧
      p'.pc = .ready ∧ 0 ∈ p'.buried ∧ 0 ∈ p'.idle ∧ ¬ p.Tidy opts ∧ ¬ p'.Tidy opts := by
  decide

end Telephony.Threadpool
