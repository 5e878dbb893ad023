import Mathlib.Data.List.Perm.Basic
import Mathlib.Data.List.Count
import Mathlib.Data.List.Nodup
import Telephony.Confbridge.States
import Telephony.Lib.Runs

/-!
# Who is in a conference

Users join and leave one after the other. The lists are to hold just the users who are present, the
counters their numbers, and the state is to follow from them.
-/

namespace Telephony.Confbridge

open Lib List Option

/-! ## Events -/

structure World where
  conf : Conference
  present : List User

inductive Event
  | join (user : User)
  | leave (user : User)
  deriving DecidableEq, Repr

namespace World

def start : World := ⟨⟨.empty, [], [], 0, 0, 0, fun _ => false⟩, []⟩

def step (w : World) : Event → World
  | .join user =>
    let conf := { w.conf with kicked := fun id => if id = user.id then false else w.conf.kicked id }
    ⟨(handleConfUserJoin conf user).getD conf, w.present ++ [user]⟩
  | .leave user => ⟨(handleConfUserLeave w.conf user).getD w.conf, w.present.erase user⟩

def run (w : World) (events : List Event) : World := events.foldl step w

def Possible (w : World) : Event → Prop
  | .join user => user.id ∉ w.present.map User.id
  | .leave user => user ∈ w.present

def Calm (w : World) : Event → Prop
  | .join _ => True
  | .leave user => user.profile.marked = true → (∃ u ∈ w.present.erase user, u.profile.marked = true) →
      ∀ u ∈ w.present.erase user, ¬ (u.profile.waitMarked = true ∧ u.profile.endMarkedAny = true)

instance (w : World) : DecidablePred w.Possible
  | .join _ => inferInstanceAs (Decidable (_ ∉ _))
  | .leave _ => inferInstanceAs (Decidable (_ ∈ _))

instance (w : World) : DecidablePred w.Calm
  | .join _ => isTrue trivial
  | .leave _ => inferInstanceAs (Decidable (_ → _ → _))

structure Sound (w : World) : Prop where
  activeusers : w.conf.activeusers = w.conf.active.length
  waitingusers : w.conf.waitingusers = w.conf.waiting.length
  markedusers : w.conf.markedusers = w.present.countP fun u => u.profile.marked
  members : (w.conf.active ++ w.conf.waiting).Perm w.present
  empty : w.conf.state = .empty ↔ w.present = []
  inactive : w.conf.state = .inactive ↔ w.present ≠ [] ∧ w.conf.active = []
  single : w.conf.state = .single ↔ w.conf.active.length = 1 ∧ ∀ u ∈ w.conf.active, u.profile.marked = false
  multi : w.conf.state = .multi ↔ 2 ≤ w.conf.active.length ∧ ∀ u ∈ w.conf.active, u.profile.marked = false
  marked : w.conf.state = .singleMarked ∨ w.conf.state = .multiMarked ↔ ∃ u ∈ w.conf.active, u.profile.marked = true
  handler : ∀ u ∈ w.present, (leaveHandler w.conf.state u).isSome

end World

/-! ## Lists and counters -/

structure Core (c : Conference) (present : List User) : Prop where
  members : (c.active ++ c.waiting).Perm present
  nodup : present.Nodup
  activeusers : c.activeusers = c.active.length
  waitingusers : c.waitingusers = c.waiting.length
  markedusers : c.markedusers = present.countP fun u => u.profile.marked

namespace Core

variable {c c' : Conference} {present : List User} {user : User} (h : Core c present) {marked : ℤ}

include h

lemma nodup_lists : (c.active ++ c.waiting).Nodup := h.members.nodup_iff.mpr h.nodup

lemma insert (hnew : user ∉ present)
    (hmbs : (c'.active ++ c'.waiting).Perm (c.active ++ c.waiting ++ [user]))
    (hact : c'.activeusers = c'.active.length) (hwai : c'.waitingusers = c'.waiting.length)
    (hmrk : c'.markedusers = c.markedusers + if user.profile.marked then 1 else 0) :
    Core c' (present ++ [user]) where
  members := hmbs.trans (h.members.append_right [user])
  nodup := (perm_append_singleton ..).nodup_iff.mpr (h.nodup.cons hnew)
  activeusers := hact
  waitingusers := hwai
  markedusers := by
    rw [hmrk, h.markedusers, countP_append, countP_singleton]
    split_ifs <;> simp

lemma delete (huser : user ∈ present)
    (hmbs : (c'.active ++ c'.waiting).Perm ((c.active ++ c.waiting).erase user))
    (hact : c'.activeusers = c'.active.length) (hwai : c'.waitingusers = c'.waiting.length)
    (hmrk : c'.markedusers = c.markedusers - if user.profile.marked then 1 else 0) :
    Core c' (present.erase user) where
  members := hmbs.trans (h.members.erase user)
  nodup := h.nodup.erase user
  activeusers := hact
  waitingusers := hwai
  markedusers := by
    have hcnt := perm_cons_erase huser |>.countP_eq fun u => u.profile.marked
    rw [countP_cons] at hcnt
    rw [hmrk, h.markedusers, hcnt]
    split_ifs <;> push_cast <;> omega

lemma move (hmbs : (c'.active ++ c'.waiting).Perm (c.active ++ c.waiting))
    (hact : c'.activeusers = c'.active.length) (hwai : c'.waitingusers = c'.waiting.length)
    (hmrk : c'.markedusers = c.markedusers) : Core c' present :=
  ⟨hmbs.trans h.members, h.nodup, hact, hwai, hmrk.trans h.markedusers⟩

section

variable (hnew : user ∉ present)
include hnew

lemma addActive (hmrk : marked = c.markedusers + if user.profile.marked then 1 else 0) :
    Core { c.addUserActive user with markedusers := marked } (present ++ [user]) := by
  refine h.insert hnew ?_ ?_ h.waitingusers hmrk
  · simp only [Conference.addUserActive, append_assoc]
    exact perm_append_comm.append_left c.active
  · simp [Conference.addUserActive, h.activeusers]

lemma addUserActive (hmrk : user.profile.marked = false) : Core (c.addUserActive user) (present ++ [user]) :=
  h.addActive hnew (by simp [hmrk])

lemma addUserMarked (hmrk : user.profile.marked = true) : Core (c.addUserMarked user) (present ++ [user]) :=
  h.addActive hnew (by simp [hmrk])

lemma addUserWaiting (hmrk : user.profile.marked = false) : Core (c.addUserWaiting user) (present ++ [user]) := by
  refine h.insert hnew ?_ h.activeusers ?_ (by simp [Conference.addUserWaiting, hmrk])
  · rw [Conference.addUserWaiting, append_assoc]
  · simp [Conference.addUserWaiting, h.waitingusers]

end

lemma setKicked (kicked : ℕ → Bool) : Core { c with kicked := kicked } present :=
  h.move (.refl _) h.activeusers h.waitingusers rfl

lemma mem_present : user ∈ present ↔ user ∈ c.active ∨ user ∈ c.waiting := by
  rw [← h.members.mem_iff, mem_append]

section

variable (huser : user ∈ c.active)
include huser

lemma removeActive (hmrk : marked = c.markedusers - if user.profile.marked then 1 else 0) :
    Core { c.removeUserActive user with markedusers := marked } (present.erase user) := by
  refine h.delete (h.mem_present.mpr (.inl huser)) ?_ ?_ h.waitingusers hmrk
  · rw [erase_append_left _ huser]
    exact List.Perm.refl _
  · have hpos := length_pos_of_mem huser
    simp only [Conference.removeUserActive, h.activeusers, length_erase_of_mem huser]
    omega

lemma removeUserActive (hmrk : user.profile.marked = false) : Core (c.removeUserActive user) (present.erase user) :=
  h.removeActive huser (by simp [hmrk])

lemma removeUserMarked (hmrk : user.profile.marked = true) : Core (c.removeUserMarked user) (present.erase user) :=
  h.removeActive huser (by simp [hmrk])

end

lemma removeUserWaiting (huser : user ∈ c.waiting) (hmrk : user.profile.marked = false) :
    Core (c.removeUserWaiting user) (present.erase user) := by
  have hnot : user ∉ c.active := fun hact => (nodup_append.mp h.nodup_lists).2.2 user hact user huser rfl
  have hpos := length_pos_of_mem huser
  refine h.delete (h.mem_present.mpr (.inr huser)) ?_ h.activeusers ?_ (by simp [Conference.removeUserWaiting, hmrk])
  · rw [erase_append_right _ hnot]
    exact List.Perm.refl _
  · simp only [Conference.removeUserWaiting, h.waitingusers, length_erase_of_mem huser]
    omega

end Core

/-! ## Changes of the state -/

namespace Conference

lemma foldl_activate (l : List User) (c : Conference) (h : c.waiting = l) :
    l.foldl activate c =
      { c with
        waiting := [], waitingusers := c.waitingusers - l.length, active := c.active ++ l
        activeusers := c.activeusers + l.length } := by
  induction l generalizing c with
  | nil =>
    rw [foldl_nil, append_nil, length_nil, Nat.cast_zero, Int.sub_zero, Int.add_zero, ← h]
  | cons u l ih =>
    have hnext : (c.activate u).waiting = l := by
      rw [activate, h]
      exact erase_cons_head ..
    rw [foldl_cons, ih _ hnext]
    simp only [activate, append_assoc, singleton_append, length_cons, mk.injEq, true_and, and_true]
    refine ⟨?_, ?_⟩ <;> push_cast <;> omega

lemma changeState_multiMarked (c : Conference) :
    c.changeState .multiMarked =
      { c with
        state := .multiMarked, waiting := [], waitingusers := c.waitingusers - c.waiting.length
        active := c.active ++ c.waiting, activeusers := c.activeusers + c.waiting.length } := by
  exact foldl_activate c.waiting { c with state := .multiMarked } rfl

lemma changeState_other (c : Conference) {newstate : State} (h : newstate ≠ .multiMarked) :
    c.changeState newstate = { c with state := newstate } := by
  exact if_neg h

end Conference

variable {c : Conference} {present : List User}

lemma Core.changeState (h : Core c present) (newstate : State) : Core (c.changeState newstate) present := by
  by_cases hmrk : newstate = .multiMarked
  · subst hmrk
    rw [Conference.changeState_multiMarked]
    refine h.move ?_ ?_ ?_ rfl
    · rw [append_nil]
    · simp [h.activeusers]
    · simp [h.waitingusers]
  · rw [Conference.changeState_other c hmrk]
    exact h.move (.refl _) h.activeusers h.waitingusers rfl

/-! ## The departure of a marked user -/

namespace MultiMarked

def moves (markedusers : ℤ) (kicked : Bool) (p : Profile) : Bool :=
  if 0 < markedusers ∧ !p.endMarkedAny then false
  else if (p.endMarked || p.endMarkedAny) && !kicked then p.waitMarked && (!p.marked || p.endMarkedAny)
  else p.waitMarked && !p.marked

lemma boot_eq (c : Conference) (user : User) :
    ∃ kicked, boot c user =
      { (if moves c.markedusers (c.kicked user.id) user.profile then c.deactivate user else c) with
        kicked := kicked } := by
  unfold boot moves
  by_cases hskip : 0 < c.markedusers ∧ !user.profile.endMarkedAny
  · simp only [if_pos hskip]
    exact ⟨c.kicked, rfl⟩
  simp only [if_neg hskip]
  by_cases hkick : ((user.profile.endMarked || user.profile.endMarkedAny) && !c.kicked user.id) = true
  · simp only [if_pos hkick]
    exact ⟨_, rfl⟩
  · simp only [if_neg hkick]
    exact ⟨_, rfl⟩

/-- The loop, when it does not matter who has been kicked. Induction on the users that are left;
`kept` are those that have stayed. -/
lemma foldl_boot (moved : User → Bool) (l kept : List User) (c : Conference) (hact : c.active = kept ++ l)
    (hnd : (kept ++ l).Nodup)
    (hmvs : ∀ u ∈ l, ∀ kicked, moves c.markedusers kicked u.profile = moved u) :
    ∃ kicked, l.foldl boot c =
      { c with
        active := kept ++ l.filter (fun u => !moved u), waiting := c.waiting ++ l.filter moved
        activeusers := c.activeusers - (l.filter moved).length
        waitingusers := c.waitingusers + (l.filter moved).length, kicked := kicked } := by
  induction l generalizing kept c with
  | nil => exact ⟨c.kicked, by simp [← hact]⟩
  | cons u l ih =>
    obtain ⟨kicked, hboot⟩ := boot_eq c u
    rw [hmvs u (mem_cons_self ..)] at hboot
    have hmvs' : ∀ v ∈ l, ∀ k, moves c.markedusers k v.profile = moved v :=
      fun v hv => hmvs v (mem_cons_of_mem _ hv)
    have hnot : u ∉ kept := fun hu => (nodup_append.mp hnd).2.2 u hu u (mem_cons_self ..) rfl
    rw [foldl_cons, hboot]
    cases hmv : moved u with
    | true =>
      have hgone : (c.active.erase u) = kept ++ l := by rw [hact, erase_append_right _ hnot, erase_cons_head]
      have hrest : (kept ++ l).Nodup := hgone ▸ (hact ▸ hnd : c.active.Nodup).erase u
      obtain ⟨kicked', hloop⟩ := ih kept { c.deactivate u with kicked := kicked } hgone hrest hmvs'
      refine ⟨kicked', ?_⟩
      simp only [if_true]
      rw [hloop]
      simp only [Conference.deactivate, filter_cons, hmv, Bool.not_true, if_true, Bool.false_eq_true, if_false,
        length_cons, append_assoc, singleton_append, Conference.mk.injEq, true_and, and_true]
      refine ⟨?_, ?_⟩ <;> push_cast <;> omega
    | false =>
      have hgone : c.active = (kept ++ [u]) ++ l := by rw [hact, append_assoc, singleton_append]
      have hrest : ((kept ++ [u]) ++ l).Nodup := by
        rwa [append_assoc]
      obtain ⟨kicked', hloop⟩ := ih (kept ++ [u]) { c with kicked := kicked } hgone hrest hmvs'
      simp only [Bool.false_eq_true, if_false]
      rw [hloop]
      simp [hmv]

end MultiMarked

/-! ## The lists by the state -/

def User.Plain (u : User) : Prop := u.profile.marked = false ∧ u.profile.waitMarked = false

def User.Waits (u : User) : Prop := u.profile.marked = false ∧ u.profile.waitMarked = true

def Quiet (c : Conference) : Prop := (∀ u ∈ c.active, u.Plain) ∧ ∀ u ∈ c.waiting, u.Waits

def ShapeAt : State → Conference → Prop
  | .empty, c => c.active = [] ∧ c.waiting = []
  | .inactive, c => c.active = [] ∧ c.waiting ≠ [] ∧ Quiet c
  | .single, c => c.active.length = 1 ∧ Quiet c
  | .multi, c => 2 ≤ c.active.length ∧ Quiet c
  | .singleMarked, c => c.active.length = 1 ∧ c.waiting = [] ∧ ∃ u ∈ c.active, u.profile.marked = true
  | .multiMarked, c => 2 ≤ c.active.length ∧ c.waiting = [] ∧ ∃ u ∈ c.active, u.profile.marked = true

abbrev StateMarked (c : Conference) : Prop := c.state = .singleMarked ∨ c.state = .multiMarked

abbrev HasMarked (c : Conference) : Prop := ∃ u ∈ c.active, u.profile.marked = true

def Shape (c : Conference) : Prop := ShapeAt c.state c

structure Inv (w : World) : Prop where
  core : Core w.conf w.present
  shape : Shape w.conf

namespace Shape

variable {c : Conference} {state : State}

lemma at_state (h : Shape c) (hst : c.state = state) : ShapeAt state c := hst ▸ h

lemma of_state (hst : c.state = state) (h : ShapeAt state c) : Shape c := by
  rwa [Shape, hst]

lemma setKicked (h : Shape c) (kicked : ℕ → Bool) : Shape { c with kicked := kicked } := by
  obtain ⟨state, _⟩ := c
  cases state <;> exact h

lemma toMultiMarked (hlen : 2 ≤ c.active.length + c.waiting.length)
    (hmrk : HasMarked c) : Shape (c.changeState .multiMarked) := by
  obtain ⟨u, hu, hum⟩ := hmrk
  rw [Conference.changeState_multiMarked]
  exact ⟨by rw [length_append]; exact hlen, rfl, u, mem_append_left _ hu, hum⟩

lemma changeState (h : ShapeAt state c) : Shape (c.changeState state) := by
  by_cases hst : state = .multiMarked
  · subst hst
    exact toMultiMarked (Nat.le_add_right_of_le h.1) h.2.2
  · rw [Conference.changeState_other c hst]
    cases state <;> exact h

end Shape

namespace Quiet

variable {c : Conference} {user : User}

lemma addUserActive (h : Quiet c) (huser : user.Plain) : Quiet (c.addUserActive user) :=
  ⟨forall_mem_append.mpr ⟨h.1, forall_mem_singleton.mpr huser⟩, h.2⟩

lemma addUserWaiting (h : Quiet c) (huser : user.Waits) : Quiet (c.addUserWaiting user) :=
  ⟨h.1, forall_mem_append.mpr ⟨h.2, forall_mem_singleton.mpr huser⟩⟩

lemma removeUserActive (h : Quiet c) (user : User) : Quiet (c.removeUserActive user) :=
  ⟨fun u hu => h.1 u (mem_of_mem_erase hu), h.2⟩

lemma removeUserWaiting (h : Quiet c) (user : User) : Quiet (c.removeUserWaiting user) :=
  ⟨h.1, fun u hu => h.2 u (mem_of_mem_erase hu)⟩

end Quiet

/-! ## Joining -/

section Join

variable {c : Conference} {present : List User} {user : User} {state : State}

def Leaves (result : Option Conference) (present : List User) : Prop :=
  ∃ c, result = some c ∧ Core c present ∧ Shape c

lemma Leaves.to (h : Core c present) (hshp : ShapeAt state c) : Leaves (some (c.changeState state)) present :=
  ⟨_, rfl, h.changeState _, .changeState hshp⟩

lemma Leaves.toMultiMarked (h : Core c present) (hlen : 2 ≤ c.active.length + c.waiting.length)
    (hmrk : HasMarked c) : Leaves (some (c.changeState .multiMarked)) present :=
  ⟨_, rfl, h.changeState _, .toMultiMarked hlen hmrk⟩

lemma Leaves.stay (h : Core c present) (hst : c.state = state) (hshp : ShapeAt state c) : Leaves (some c) present :=
  ⟨c, rfl, h, .of_state hst hshp⟩

lemma addUserActive_length (c : Conference) (user : User) : (c.addUserActive user).active.length = c.active.length + 1 := by
  simp [Conference.addUserActive]

lemma addUserMarked_length (c : Conference) (user : User) : (c.addUserMarked user).active.length = c.active.length + 1 := by
  simp [Conference.addUserMarked]

lemma addUserMarked_marked (hmrk : user.profile.marked = true) : HasMarked (c.addUserMarked user) :=
  ⟨user, mem_append_right _ (mem_singleton_self _), hmrk⟩

lemma addUserActive_marked (h : HasMarked c) : HasMarked (c.addUserActive user) := by
  obtain ⟨u, hu, hmrk⟩ := h
  exact ⟨u, mem_append_left _ hu, hmrk⟩

lemma Shape.quiet (hshp : Shape c) (hst : ¬ StateMarked c) : Quiet c := by
  cases hcase : c.state with
  | empty =>
    obtain ⟨hnone, hnob⟩ := hshp.at_state hcase
    exact ⟨by simp [hnone], by simp [hnob]⟩
  | inactive => exact (hshp.at_state hcase).2.2
  | single | multi => exact (hshp.at_state hcase).2
  | singleMarked | multiMarked => simp [StateMarked, hcase] at hst

variable (h : Core c present) (hshp : Shape c) (hnew : user ∉ present)

include h hshp hnew

lemma join_marked (hmrk : user.profile.marked = true) : Leaves (handleConfUserJoin c user) (present ++ [user]) := by
  have hcore := h.addUserMarked hnew hmrk
  have hact := addUserMarked_marked (c := c) hmrk
  have hlen := addUserMarked_length c user
  have hwai : (c.addUserMarked user).waiting = c.waiting := rfl
  unfold handleConfUserJoin joinHandler
  simp only [hmrk]
  cases hst : c.state with
  | empty =>
    obtain ⟨hnone, hnob⟩ := hshp.at_state hst
    rw [hnone] at hlen
    exact .to hcore ⟨hlen, hnob, hact⟩
  | inactive =>
    have hpos := length_pos_of_ne_nil (hshp.at_state hst).2.1
    exact .toMultiMarked hcore (by rw [hwai]; omega) hact
  | single | multi | singleMarked =>
    have hsome := (hshp.at_state hst).1
    exact .toMultiMarked hcore (by omega) hact
  | multiMarked =>
    obtain ⟨hmany, hnob, -⟩ := hshp.at_state hst
    exact (Leaves.stay hcore hst ⟨by omega, hnob, hact⟩ :)

lemma join_beside_marked (huser : user.profile.marked = false) (hst : StateMarked c) :
    Leaves (handleConfUserJoin c user) (present ++ [user]) := by
  have hcore := h.addUserActive hnew huser
  have hlen := addUserActive_length c user
  unfold handleConfUserJoin joinHandler
  simp only [huser, Bool.false_eq_true, if_false]
  rcases hst with hst | hst
  · obtain ⟨hone, -, hmrk⟩ := hshp.at_state hst
    rw [hst]
    split_ifs <;> exact .toMultiMarked hcore (by omega) (addUserActive_marked hmrk)
  · obtain ⟨hmany, hnob, hmrk⟩ := hshp.at_state hst
    rw [hst]
    split_ifs <;> exact (Leaves.stay hcore hst ⟨by omega, hnob, addUserActive_marked hmrk⟩ :)

lemma join_plain (huser : user.Plain) (hbes : ¬ StateMarked c) :
    Leaves (handleConfUserJoin c user) (present ++ [user]) := by
  have hcore := h.addUserActive hnew huser.1
  have hlen := addUserActive_length c user
  have hqt := (hshp.quiet hbes).addUserActive huser
  unfold handleConfUserJoin joinHandler
  simp only [huser.1, huser.2]
  cases hst : c.state with
  | empty | inactive =>
    rw [(hshp.at_state hst).1] at hlen
    exact .to hcore ⟨hlen, hqt⟩
  | single =>
    have hone := (hshp.at_state hst).1
    exact .to hcore ⟨by omega, hqt⟩
  | multi =>
    have hmany := (hshp.at_state hst).1
    exact (Leaves.stay hcore hst ⟨by omega, hqt⟩ :)
  | singleMarked | multiMarked => simp [StateMarked, hst] at hbes

lemma join_waits (huser : user.Waits) (hbes : ¬ StateMarked c) :
    Leaves (handleConfUserJoin c user) (present ++ [user]) := by
  have hcore := h.addUserWaiting hnew huser.1
  have hwai : (c.addUserWaiting user).waiting ≠ [] := by simp [Conference.addUserWaiting]
  have hqt := (hshp.quiet hbes).addUserWaiting huser
  unfold handleConfUserJoin joinHandler
  simp only [huser.1, huser.2]
  cases hst : c.state with
  | empty => exact .to hcore ⟨(hshp.at_state hst).1, hwai, hqt⟩
  | inactive => exact .stay hcore hst ⟨(hshp.at_state hst).1, hwai, hqt⟩
  | single | multi => exact .stay hcore hst ⟨(hshp.at_state hst).1, hqt⟩
  | singleMarked | multiMarked => simp [StateMarked, hst] at hbes

lemma join_leaves : Leaves (handleConfUserJoin c user) (present ++ [user]) := by
  cases hmrk : user.profile.marked with
  | true => exact join_marked h hshp hnew hmrk
  | false =>
    by_cases hbes : StateMarked c
    · exact join_beside_marked h hshp hnew hmrk hbes
    cases hwait : user.profile.waitMarked with
    | true => exact join_waits h hshp hnew ⟨hmrk, hwait⟩ hbes
    | false => exact join_plain h hshp hnew ⟨hmrk, hwait⟩ hbes

end Join

/-! ## Leaving -/

section Leave

variable {c : Conference} {present : List User} {user : User}

section Present

variable (h : Core c present) (huser : user ∈ present)

include h huser

lemma Quiet.unmarked (hqt : Quiet c) : user.profile.marked = false := by
  rcases h.mem_present.mp huser with hact | hwai
  · exact (hqt.1 user hact).1
  · exact (hqt.2 user hwai).1

lemma Quiet.mem_active (hqt : Quiet c) (hpln : user.Plain) : user ∈ c.active := by
  rcases h.mem_present.mp huser with hact | hwai
  · exact hact
  · have hwait := (hqt.2 user hwai).2
    rw [hpln.2] at hwait
    cases hwait

lemma Quiet.mem_waiting (hqt : Quiet c) (hwts : user.Waits) : user ∈ c.waiting := by
  rcases h.mem_present.mp huser with hact | hwai
  · have hpln := (hqt.1 user hact).2
    rw [hwts.2] at hpln
    cases hpln
  · exact hwai

lemma mem_active_of_nil (hnob : c.waiting = []) : user ∈ c.active := by
  simpa [hnob] using h.mem_present.mp huser

lemma Shape.not_empty (hshp : Shape c) : c.state ≠ .empty := by
  intro hst
  obtain ⟨hnone, hnob⟩ := hshp.at_state hst
  have hmem := mem_active_of_nil h huser hnob
  rw [hnone] at hmem
  cases hmem

lemma singleMarked_marked (hshp : ShapeAt .singleMarked c) : c.active = [user] ∧ user.profile.marked = true := by
  obtain ⟨hone, hnob, u, hu, hmrk⟩ := hshp
  obtain ⟨v, hv⟩ := length_eq_one_iff.mp hone
  have hmem := mem_active_of_nil h huser hnob
  rw [hv] at hu hmem
  obtain rfl := mem_singleton.mp hu
  obtain rfl := mem_singleton.mp hmem
  exact ⟨hv, hmrk⟩

end Present

lemma removeUserActive_length (h : user ∈ c.active) :
    (c.removeUserActive user).active.length + 1 = c.active.length := by
  have hpos := length_pos_of_mem h
  simp only [Conference.removeUserActive]
  rw [length_erase_of_mem h]
  omega

section Unmarked

variable (h : Core c present) (huser : user ∈ present) (hshp : Shape c)

include h huser hshp

lemma leave_beside_marked (hunm : user.profile.marked = false) (hst : StateMarked c) :
    Leaves (handleConfUserLeave c user) (present.erase user) := by
  rcases hst with hst | hst
  · have hmrk := (singleMarked_marked h huser (hshp.at_state hst)).2
    rw [hunm] at hmrk
    cases hmrk
  obtain ⟨hmany, hnob, u, hu, hmrk⟩ := hshp.at_state hst
  have hmem := mem_active_of_nil h huser hnob
  have hlen := removeUserActive_length hmem
  have hcore := h.removeUserActive hmem hunm
  have hact : HasMarked (c.removeUserActive user) := by
    refine ⟨u, (mem_erase_of_ne ?_).mpr hu, hmrk⟩
    rintro rfl
    rw [hunm] at hmrk
    cases hmrk
  have hleave : handleConfUserLeave c user = some (MultiMarked.leaveActive c user) := by
    unfold handleConfUserLeave leaveHandler
    simp only [hunm, hst, Bool.false_eq_true, if_false]
    split_ifs <;> rfl
  rw [hleave]
  unfold MultiMarked.leaveActive
  dsimp only
  rw [hcore.activeusers]
  split_ifs with hone
  · exact .to hcore ⟨by omega, hnob, hact⟩
  · exact .stay hcore hst ⟨by omega, hnob, hact⟩

lemma leave_plain (hpln : user.Plain) (hbes : ¬ StateMarked c) :
    Leaves (handleConfUserLeave c user) (present.erase user) := by
  have hmem := (hshp.quiet hbes).mem_active h huser hpln
  have hqt := (hshp.quiet hbes).removeUserActive user
  have hcore := h.removeUserActive hmem hpln.1
  have hlen := removeUserActive_length hmem
  unfold handleConfUserLeave leaveHandler
  simp only [hpln.1, hpln.2, Bool.false_eq_true, if_false]
  cases hst : c.state with
  | empty | inactive =>
    rw [(hshp.at_state hst).1] at hmem
    cases hmem
  | single =>
    have hone := (hshp.at_state hst).1
    have hnone : (c.removeUserActive user).active = [] := length_eq_zero_iff.mp (by omega)
    simp only [State.table, Single.table, map_some, Single.leaveUnmarked, hcore.waitingusers]
    split_ifs with hwai
    · exact .to hcore ⟨hnone, ne_nil_of_length_pos (by omega), hqt⟩
    · exact .to hcore ⟨hnone, length_eq_zero_iff.mp (by omega)⟩
  | multi =>
    have hmany := (hshp.at_state hst).1
    simp only [State.table, Multi.table, map_some, Multi.leaveUnmarked, hcore.activeusers]
    split_ifs with hone
    · exact .to hcore ⟨by omega, hqt⟩
    · exact .stay hcore hst ⟨by omega, hqt⟩
  | singleMarked | multiMarked => simp [StateMarked, hst] at hbes

lemma leave_waits (hwts : user.Waits) (hbes : ¬ StateMarked c) :
    Leaves (handleConfUserLeave c user) (present.erase user) := by
  have hmem := (hshp.quiet hbes).mem_waiting h huser hwts
  have hqt := (hshp.quiet hbes).removeUserWaiting user
  have hcore := h.removeUserWaiting hmem hwts.1
  unfold handleConfUserLeave leaveHandler
  simp only [hwts.1, hwts.2, Bool.false_eq_true, if_false, if_true]
  cases hst : c.state with
  | empty =>
    rw [(hshp.at_state hst).2] at hmem
    cases hmem
  | inactive =>
    have hnone := (hshp.at_state hst).1
    simp only [State.table, Inactive.table, map_some, Inactive.leaveWaitmarked, defaultLeaveWaitmarked,
      hcore.waitingusers]
    split_ifs with hwai
    · exact .to hcore ⟨hnone, length_eq_zero_iff.mp (by omega)⟩
    · exact .stay hcore hst ⟨hnone, ne_nil_of_length_pos (by omega), hqt⟩
  | single | multi => exact .stay hcore hst ⟨(hshp.at_state hst).1, hqt⟩
  | singleMarked | multiMarked => simp [StateMarked, hst] at hbes

end Unmarked

lemma settle_quiet (h : Core c present) (hqt : Quiet c) (hzero : c.markedusers = 0) :
    Leaves (some (MultiMarked.settle c)) present := by
  have hact := h.activeusers
  have hwai := h.waitingusers
  unfold MultiMarked.settle
  split_ifs with hnone hnob hone
  · exact .to h ⟨length_eq_zero_iff.mp (by omega), length_eq_zero_iff.mp (by omega)⟩
  · exact .to h ⟨length_eq_zero_iff.mp (by omega), ne_nil_of_length_pos (by omega), hqt⟩
  · exact .to h ⟨by omega, hqt⟩
  · exact .to h ⟨by omega, hqt⟩

lemma settle_marked (h : Core c present) (hst : c.state = .multiMarked) (hnob : c.waiting = [])
    (hmrk : HasMarked c) : Leaves (some (MultiMarked.settle c)) present := by
  have hact := h.activeusers
  have hwai := h.waitingusers
  have hcnt := h.markedusers
  obtain ⟨u, hu, hum⟩ := hmrk
  have hpos : 0 < present.countP fun u => u.profile.marked :=
    countP_pos_iff.mpr ⟨u, h.mem_present.mpr (.inl hu), hum⟩
  have hle : present.countP (fun u => u.profile.marked) ≤ c.active.length := by
    rw [← h.members.countP_eq, hnob, append_nil]
    exact countP_le_length
  rw [hnob] at hwai
  unfold MultiMarked.settle
  rw [if_neg (by omega)]
  by_cases hone : c.activeusers = 1
  · rw [if_pos hone, if_neg (by omega), if_pos ⟨by omega, hwai⟩]
    exact .to h ⟨by omega, hnob, u, hu, hum⟩
  · rw [if_neg hone, if_neg (by omega)]
    exact .stay h hst ⟨by omega, hnob, u, hu, hum⟩

lemma boot_core (moved : User → Bool) (h : Core c present) (hnob : c.waiting = [])
    (hmvs : ∀ u ∈ c.active, ∀ kicked, MultiMarked.moves c.markedusers kicked u.profile = moved u) :
    Core (c.active.foldl MultiMarked.boot c) present ∧
      (c.active.foldl MultiMarked.boot c).state = c.state ∧
      (c.active.foldl MultiMarked.boot c).markedusers = c.markedusers ∧
      (c.active.foldl MultiMarked.boot c).active = c.active.filter (fun u => !moved u) ∧
      (c.active.foldl MultiMarked.boot c).waiting = c.active.filter moved := by
  have hnd : c.active.Nodup := (nodup_append.mp h.nodup_lists).1
  obtain ⟨kicked, hloop⟩ := MultiMarked.foldl_boot moved c.active [] c rfl hnd hmvs
  have hperm : (c.active.filter (fun u => !moved u) ++ c.active.filter moved).Perm c.active :=
    perm_append_comm.trans (filter_append_perm moved c.active)
  have hlen := hperm.length_eq
  rw [length_append] at hlen
  rw [hloop, hnob]
  refine ⟨h.move ?_ ?_ ?_ rfl, rfl, rfl, rfl, rfl⟩
  · rwa [hnob, append_nil]
  · simp only [nil_append, h.activeusers]
    omega
  · simp only [nil_append, h.waitingusers, hnob, length_nil]
    omega

section

variable (h : Core c present)
include h

lemma settle_boot_beside (hst : c.state = .multiMarked) (hnob : c.waiting = [])
    (hoth : ∃ u ∈ present, u.profile.marked = true)
    (hcalm : ∀ u ∈ present, ¬ (u.profile.waitMarked = true ∧ u.profile.endMarkedAny = true)) :
    Leaves (some (MultiMarked.settle (c.active.foldl MultiMarked.boot c))) present := by
  obtain ⟨v, hv, hvm⟩ := hoth
  have hpos : 0 < c.markedusers := by
    have hcnt := countP_pos_iff (p := fun u : User => u.profile.marked) |>.mpr ⟨v, hv, hvm⟩
    have hmarkedusers := h.markedusers
    omega
  have hmvs : ∀ u ∈ c.active, ∀ kicked, MultiMarked.moves c.markedusers kicked u.profile = false := by
    intro u hu kicked
    have hnot := hcalm u (h.mem_present.mpr (.inl hu))
    unfold MultiMarked.moves
    cases hany : u.profile.endMarkedAny with
    | false => rw [if_pos ⟨hpos, rfl⟩]
    | true =>
      have hwait : u.profile.waitMarked = false := Bool.eq_false_of_not_eq_true fun hwait => hnot ⟨hwait, hany⟩
      simp [hwait]
  obtain ⟨hcore, hst', -, hact, hwai⟩ := boot_core (fun _ => false) h hnob hmvs
  refine settle_marked hcore (hst'.trans hst) ?_ ⟨v, ?_, hvm⟩
  · rw [hwai, filter_false]
  · rw [hact]
    simpa using mem_active_of_nil h hv hnob

lemma settle_boot_last (hnob : c.waiting = []) (hoth : ¬ ∃ u ∈ present, u.profile.marked = true) :
    Leaves (some (MultiMarked.settle (c.active.foldl MultiMarked.boot c))) present := by
  have hunm : ∀ u ∈ c.active, u.profile.marked = false := by
    intro u hu
    exact Bool.eq_false_of_not_eq_true fun hum => hoth ⟨u, h.mem_present.mpr (.inl hu), hum⟩
  have hzero : c.markedusers = 0 := by
    have hcnt : present.countP (fun u => u.profile.marked) = 0 :=
      countP_eq_zero.mpr fun u hu hum => hoth ⟨u, hu, hum⟩
    have hmarkedusers := h.markedusers
    omega
  have hmvs : ∀ u ∈ c.active, ∀ kicked, MultiMarked.moves c.markedusers kicked u.profile = u.profile.waitMarked := by
    intro u hu kicked
    unfold MultiMarked.moves
    rw [if_neg (by omega), hunm u hu]
    simp
  obtain ⟨hcore, -, hcnt, hact, hwai⟩ := boot_core (fun u => u.profile.waitMarked) h hnob hmvs
  refine settle_quiet hcore ⟨?_, ?_⟩ (hcnt.trans hzero)
  · intro u hu
    rw [hact, mem_filter] at hu
    exact ⟨hunm u hu.1, by simpa using hu.2⟩
  · intro u hu
    rw [hwai, mem_filter] at hu
    exact ⟨hunm u hu.1, hu.2⟩

lemma leave_marked (huser : user ∈ present) (hshp : Shape c) (hmrk : user.profile.marked = true)
    (hcalm : (∃ u ∈ present.erase user, u.profile.marked = true) →
      ∀ u ∈ present.erase user, ¬ (u.profile.waitMarked = true ∧ u.profile.endMarkedAny = true)) :
    Leaves (handleConfUserLeave c user) (present.erase user) := by
  have hst : StateMarked c := by
    by_contra hst
    have hunm := (hshp.quiet hst).unmarked h huser
    rw [hmrk] at hunm
    cases hunm
  unfold handleConfUserLeave leaveHandler
  simp only [hmrk]
  rcases hst with hst | hst
  · obtain ⟨hone, -⟩ := singleMarked_marked h huser (hshp.at_state hst)
    have hcore := h.removeUserMarked (hone ▸ mem_singleton_self _) hmrk
    rw [hst]
    exact .to hcore ⟨by simp [Conference.removeUserMarked, hone], (hshp.at_state hst).2.1⟩
  obtain ⟨-, hnob, -⟩ := hshp.at_state hst
  have hcore := h.removeUserMarked (mem_active_of_nil h huser hnob) hmrk
  rw [hst]
  by_cases hoth : ∃ u ∈ present.erase user, u.profile.marked = true
  · exact settle_boot_beside hcore hst hnob hoth (hcalm hoth)
  · exact settle_boot_last hcore hnob hoth

lemma leave_leaves (huser : user ∈ present) (hshp : Shape c)
    (hcalm : user.profile.marked = true → (∃ u ∈ present.erase user, u.profile.marked = true) →
      ∀ u ∈ present.erase user, ¬ (u.profile.waitMarked = true ∧ u.profile.endMarkedAny = true)) :
    Leaves (handleConfUserLeave c user) (present.erase user) := by
  cases hmrk : user.profile.marked with
  | true => exact leave_marked h huser hshp hmrk (hcalm hmrk)
  | false =>
    by_cases hbes : StateMarked c
    · exact leave_beside_marked h huser hshp hmrk hbes
    cases hwait : user.profile.waitMarked with
    | true => exact leave_waits h huser hshp ⟨hmrk, hwait⟩ hbes
    | false => exact leave_plain h huser hshp ⟨hmrk, hwait⟩ hbes

end

end Leave

/-! ## Runs -/

lemma Shape.handler {user : User} (h : Core c present) (hshp : Shape c) (huser : user ∈ present) :
    (leaveHandler c.state user).isSome := by
  unfold leaveHandler
  cases hst : c.state with
  | empty => exact absurd hst (hshp.not_empty h huser)
  | inactive =>
    obtain ⟨hnone, -, hqt⟩ := hshp.at_state hst
    have hwai : user ∈ c.waiting := by
      have hmem := h.mem_present.mp huser
      simpa [hnone] using hmem
    obtain ⟨hmrk, hwait⟩ := hqt.2 user hwai
    simp [hmrk, hwait, State.table, Inactive.table]
  | single | multi =>
    have hmrk := (hshp.at_state hst).2.unmarked h huser
    rw [hmrk]
    cases user.profile.waitMarked <;> rfl
  | singleMarked =>
    have hmrk := (singleMarked_marked h huser (hshp.at_state hst)).2
    rw [hmrk]
    rfl
  | multiMarked => cases user.profile.marked <;> cases user.profile.waitMarked <;> rfl

lemma Quiet.none_marked (h : Quiet c) :
    (∀ u ∈ c.active, u.profile.marked = false) ∧ ¬ HasMarked c := by
  refine ⟨fun u hu => (h.1 u hu).1, ?_⟩
  rintro ⟨u, hu, hmrk⟩
  rw [(h.1 u hu).1] at hmrk
  cases hmrk

lemma Shape.state_iff (hshp : Shape c) :
    (c.state = .empty ↔ c.active = [] ∧ c.waiting = []) ∧
      (c.state = .inactive ↔ ¬ (c.active = [] ∧ c.waiting = []) ∧ c.active = []) ∧
      (c.state = .single ↔ c.active.length = 1 ∧ ∀ u ∈ c.active, u.profile.marked = false) ∧
      (c.state = .multi ↔ 2 ≤ c.active.length ∧ ∀ u ∈ c.active, u.profile.marked = false) ∧
      (c.state = .singleMarked ∨ c.state = .multiMarked ↔ HasMarked c) := by
  have hne : 1 ≤ c.active.length → c.active ≠ [] := fun hpos => ne_nil_of_length_pos hpos
  cases hst : c.state with
  | empty =>
    obtain ⟨hnone, hnob⟩ := hshp.at_state hst
    simp [hnone, hnob]
  | inactive =>
    obtain ⟨hnone, hnob, -⟩ := hshp.at_state hst
    simp [hnone, hnob]
  | single =>
    obtain ⟨hone, hqt⟩ := hshp.at_state hst
    obtain ⟨hall, hnot⟩ := hqt.none_marked
    have hsome := hne (by omega)
    exact ⟨by simp [hsome], by simp [hsome], ⟨fun _ => ⟨hone, hall⟩, fun _ => rfl⟩, by simp [hone], by simp [hnot]⟩
  | multi =>
    obtain ⟨hmany, hqt⟩ := hshp.at_state hst
    obtain ⟨hall, hnot⟩ := hqt.none_marked
    have hsome := hne (by omega)
    have htwo : c.active.length ≠ 1 := by omega
    exact ⟨by simp [hsome], by simp [hsome], by simp [htwo], ⟨fun _ => ⟨hmany, hall⟩, fun _ => rfl⟩, by simp [hnot]⟩
  | singleMarked | multiMarked =>
    obtain ⟨hsome, -, hexists⟩ := hshp.at_state hst
    simp [hne (by omega), hexists]

namespace World

variable {w : World}

lemma start_inv : Inv start := by
  constructor
  · exact ⟨List.Perm.refl _, nodup_nil, rfl, rfl, rfl⟩
  · exact ⟨rfl, rfl⟩

lemma step_inv (h : Inv w) {e : Event} (hposs : w.Possible e) (hcalm : w.Calm e) : Inv (w.step e) := by
  cases e with
  | join user =>
    have hnew : user ∉ w.present := fun huser => hposs (mem_map_of_mem huser)
    obtain ⟨c, hres, hcore', hshp'⟩ := join_leaves
      (h.core.setKicked fun id => if id = user.id then false else w.conf.kicked id) (h.shape.setKicked _) hnew
    have hstep : w.step (.join user) = ⟨c, w.present ++ [user]⟩ := by simp only [step, hres, getD_some]
    rw [hstep]
    exact ⟨hcore', hshp'⟩
  | leave user =>
    obtain ⟨c, hres, hcore', hshp'⟩ := leave_leaves h.core hposs h.shape hcalm
    have hstep : w.step (.leave user) = ⟨c, w.present.erase user⟩ := by simp [step, hres]
    rw [hstep]
    exact ⟨hcore', hshp'⟩

lemma Sound.of_inv (h : Inv w) : w.Sound := by
  have hpresent : w.present = [] ↔ w.conf.active = [] ∧ w.conf.waiting = [] := by
    rw [← append_eq_nil_iff]
    constructor
    · intro hnil
      exact List.Perm.eq_nil (hnil ▸ h.core.members)
    · intro hnil
      exact List.Perm.nil_eq (hnil ▸ h.core.members) |>.symm
  obtain ⟨hemp, hinactive, hsgl, hmul, hmrk⟩ := h.shape.state_iff
  exact
    { activeusers := h.core.activeusers
      waitingusers := h.core.waitingusers
      markedusers := h.core.markedusers
      members := h.core.members
      empty := by rw [hemp, hpresent]
      inactive := by rw [hinactive, Ne, hpresent]
      single := hsgl
      multi := hmul
      marked := hmrk
      handler := fun u hu => h.shape.handler h.core hu }

/-- **Whole runs**: as long as every event is possible and calm, what is to hold holds after
each. -/
theorem membershipRun_sound (events : List Event)
    (hpossible : Each (total step) Possible start events) (hcalm : Each (total step) Calm start events) :
    ∀ before after, events = before ++ after → (start.run before).Sound := by
  rintro before after rfl
  have hinv : Inv (start.run before) :=
    (hpossible.and hcalm).of_append.foldl_inv (fun _ _ _ h hop => step_inv h hop.1 hop.2) start_inv
  exact Sound.of_inv hinv

/-! ### Two leaders and a listener -/

def leader (id : ℕ) : User := ⟨id, ⟨true, false, false, false⟩⟩

/-- Waits for a leader; is to be removed when the last leader has left, or any leader. -/
def listener (any : Bool) : User := ⟨3, ⟨false, true, true, any⟩⟩

/-- The listener is removed with the last leader. -/
theorem membershipRun_sound_listener :
    (start.run [.join (listener false), .join (leader 1), .join (leader 2), .leave (leader 1), .leave (leader 2),
      .leave (listener false)]).Sound :=
  membershipRun_sound _ (by decide) (by decide) _ [] (append_nil _).symm

/-- The listener is removed when the first leader leaves: it goes to the waiting list, and when it
leaves it is looked for in the other one. -/
theorem membershipRun_not_sound :
    Each (total step) Possible start [.join (leader 1), .join (leader 2), .join (listener true), .leave (leader 1),
        .leave (listener true)] ∧
      ¬ (start.run [.join (leader 1), .join (leader 2), .join (listener true), .leave (leader 1),
        .leave (listener true)]).Sound := by
  refine ⟨by decide, fun hsnd => ?_⟩
  have hmbs := hsnd.members.length_eq
  revert hmbs
  decide

end World

end Telephony.Confbridge
