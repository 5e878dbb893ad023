import Mathlib.Algebra.Order.Ring.Int
import Mathlib.Data.List.Basic

/-!
# The states of a conference

`apps/app_confbridge.c` keeps the users of a conference in two lists, with counters beside them, and
calls a handler of the current state when a user joins or leaves; `none` is a missing handler. The
six states are in `apps/confbridge/conf_state_*.c`. Sounds, music on hold, muting and device states
are left out: they do not change the lists, the counters or the state.
-/

namespace Telephony.Confbridge

/-! ## Data model -/

/-- Source: `USER_OPT_MARKEDUSER`, `USER_OPT_WAITMARKED`, `USER_OPT_ENDMARKED`,
`USER_OPT_ENDMARKEDANY` -/
structure Profile where
  marked : Bool
  waitMarked : Bool
  endMarked : Bool
  endMarkedAny : Bool
  deriving DecidableEq, Repr

structure User where
  id : ℕ
  profile : Profile
  deriving DecidableEq, Repr

/-- Source: `STATE_EMPTY`, `STATE_INACTIVE`, `STATE_SINGLE`, `STATE_MULTI`, `STATE_SINGLE_MARKED`,
`STATE_MULTI_MARKED` -/
inductive State
  | empty
  | inactive
  | single
  | multi
  | singleMarked
  | multiMarked
  deriving DecidableEq, Repr

structure Conference where
  state : State
  active : List User
  waiting : List User
  activeusers : ℤ
  waitingusers : ℤ
  markedusers : ℤ
  kicked : ℕ → Bool

namespace Conference

variable (c : Conference) (user : User)

/-! ## The lists -/

def addUserActive : Conference := { c with active := c.active ++ [user], activeusers := c.activeusers + 1 }

def addUserMarked : Conference :=
  { c with active := c.active ++ [user], activeusers := c.activeusers + 1, markedusers := c.markedusers + 1 }

def addUserWaiting : Conference := { c with waiting := c.waiting ++ [user], waitingusers := c.waitingusers + 1 }

def removeUserActive : Conference := { c with active := c.active.erase user, activeusers := c.activeusers - 1 }

def removeUserMarked : Conference :=
  { c with active := c.active.erase user, activeusers := c.activeusers - 1, markedusers := c.markedusers - 1 }

def removeUserWaiting : Conference := { c with waiting := c.waiting.erase user, waitingusers := c.waitingusers - 1 }

/-- Source: `transition_to_marked` -/
def activate : Conference :=
  { c with
    waiting := c.waiting.erase user, waitingusers := c.waitingusers - 1
    active := c.active ++ [user], activeusers := c.activeusers + 1 }

/-- Source: `leave_marked` of `conf_state_multi_marked.c` -/
def deactivate : Conference :=
  { c with
    active := c.active.erase user, activeusers := c.activeusers - 1
    waiting := c.waiting ++ [user], waitingusers := c.waitingusers + 1 }

def transitionToMarked : Conference := c.waiting.foldl activate c

def changeState (newstate : State) : Conference :=
  let c := { c with state := newstate }
  if newstate = .multiMarked then c.transitionToMarked else c

end Conference

/-! ## The handlers -/

/-- Source: `conference_event_fn` -/
abbrev Handler := Conference → User → Conference

/-- Source: `struct confbridge_state` -/
structure Table where
  joinUnmarked : Option Handler := none
  joinWaitmarked : Option Handler := none
  joinMarked : Option Handler := none
  leaveUnmarked : Option Handler := none
  leaveWaitmarked : Option Handler := none
  leaveMarked : Option Handler := none

def defaultJoinWaitmarked : Handler := fun c user => c.addUserWaiting user

def defaultLeaveWaitmarked : Handler := fun c user => c.removeUserWaiting user

/-! Source: `conf_state_empty.c` -/

namespace Empty

def joinUnmarked : Handler := fun c user => (c.addUserActive user).changeState .single

def joinWaitmarked : Handler := fun c user => (defaultJoinWaitmarked c user).changeState .inactive

def joinMarked : Handler := fun c user => (c.addUserMarked user).changeState .singleMarked

def table : Table where
  joinUnmarked := some joinUnmarked
  joinWaitmarked := some joinWaitmarked
  joinMarked := some joinMarked

end Empty

/-! Source: `conf_state_inactive.c` -/

namespace Inactive

def joinUnmarked : Handler := fun c user => (c.addUserActive user).changeState .single

def joinMarked : Handler := fun c user => (c.addUserMarked user).changeState .multiMarked

def leaveWaitmarked : Handler := fun c user =>
  let c := defaultLeaveWaitmarked c user
  if c.waitingusers = 0 then c.changeState .empty else c

def table : Table where
  joinUnmarked := some joinUnmarked
  joinWaitmarked := some defaultJoinWaitmarked
  joinMarked := some joinMarked
  leaveWaitmarked := some leaveWaitmarked

end Inactive

/-! Source: `conf_state_single.c` -/

namespace Single

def joinUnmarked : Handler := fun c user => (c.addUserActive user).changeState .multi

def joinMarked : Handler := fun c user => (c.addUserMarked user).changeState .multiMarked

def leaveUnmarked : Handler := fun c user =>
  let c := c.removeUserActive user
  if c.waitingusers ≠ 0 then c.changeState .inactive else c.changeState .empty

def table : Table where
  joinUnmarked := some joinUnmarked
  joinWaitmarked := some defaultJoinWaitmarked
  joinMarked := some joinMarked
  leaveUnmarked := some leaveUnmarked
  leaveWaitmarked := some defaultLeaveWaitmarked

end Single

/-! Source: `conf_state_multi.c` -/

namespace Multi

def joinUnmarked : Handler := fun c user => c.addUserActive user

def joinMarked : Handler := fun c user => (c.addUserMarked user).changeState .multiMarked

def leaveUnmarked : Handler := fun c user =>
  let c := c.removeUserActive user
  if c.activeusers = 1 then c.changeState .single else c

def table : Table where
  joinUnmarked := some joinUnmarked
  joinWaitmarked := some defaultJoinWaitmarked
  joinMarked := some joinMarked
  leaveUnmarked := some leaveUnmarked
  leaveWaitmarked := some defaultLeaveWaitmarked

end Multi

/-! Source: `conf_state_single_marked.c` -/

namespace SingleMarked

def joinActive : Handler := fun c user => (c.addUserActive user).changeState .multiMarked

def joinMarked : Handler := fun c user => (c.addUserMarked user).changeState .multiMarked

def leaveMarked : Handler := fun c user => (c.removeUserMarked user).changeState .empty

def table : Table where
  joinUnmarked := some joinActive
  joinWaitmarked := some joinActive
  joinMarked := some joinMarked
  leaveMarked := some leaveMarked

end SingleMarked

/-! Source: `conf_state_multi_marked.c` -/

namespace MultiMarked

def joinActive : Handler := fun c user => c.addUserActive user

def joinMarked : Handler := fun c user => c.addUserMarked user

def leaveActive : Handler := fun c user =>
  let c := c.removeUserActive user
  if c.activeusers = 1 then c.changeState .singleMarked else c

def boot (c : Conference) (user : User) : Conference :=
  let p := user.profile
  if 0 < c.markedusers ∧ !p.endMarkedAny then c
  else if (p.endMarked || p.endMarkedAny) && !c.kicked user.id then
    let c := if p.waitMarked && (!p.marked || p.endMarkedAny) then c.deactivate user else c
    { c with kicked := fun id => if id = user.id then true else c.kicked id }
  else if p.waitMarked && !p.marked then c.deactivate user
  else c

def settle (c : Conference) : Conference :=
  if c.activeusers = 0 then if c.waitingusers = 0 then c.changeState .empty else c.changeState .inactive
  else if c.activeusers = 1 then
    if c.markedusers = 0 then c.changeState .single
    else if c.markedusers = 1 ∧ c.waitingusers = 0 then c.changeState .singleMarked
    else c
  else if c.markedusers = 0 then c.changeState .multi
  else c

def leaveMarked : Handler := fun c user =>
  let c := c.removeUserMarked user
  settle (c.active.foldl boot c)

def table : Table where
  joinUnmarked := some joinActive
  joinWaitmarked := some joinActive
  joinMarked := some joinMarked
  leaveUnmarked := some leaveActive
  leaveWaitmarked := some leaveActive
  leaveMarked := some leaveMarked

end MultiMarked

def State.table : State → Table
  | .empty => Empty.table
  | .inactive => Inactive.table
  | .single => Single.table
  | .multi => Multi.table
  | .singleMarked => SingleMarked.table
  | .multiMarked => MultiMarked.table

/-- Source: `handle_conf_user_join` -/
def joinHandler (state : State) (user : User) : Option Handler :=
  if user.profile.marked then state.table.joinMarked
  else if user.profile.waitMarked then state.table.joinWaitmarked
  else state.table.joinUnmarked

/-- Source: `handle_conf_user_leave` -/
def leaveHandler (state : State) (user : User) : Option Handler :=
  if user.profile.marked then state.table.leaveMarked
  else if user.profile.waitMarked then state.table.leaveWaitmarked
  else state.table.leaveUnmarked

def handleConfUserJoin (c : Conference) (user : User) : Option Conference :=
  (joinHandler c.state user).map fun handler => handler c user

def handleConfUserLeave (c : Conference) (user : User) : Option Conference :=
  (leaveHandler c.state user).map fun handler => handler c user

end Telephony.Confbridge
