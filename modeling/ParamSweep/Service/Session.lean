import ParamSweep.Line.Intake
import ParamSweep.Service.Pool

/-!
# Sessions

A session serves one connection. Its reader takes the inbound items in order and queues one
slot for each: a reply that is known at once, or the ticket of a job. Its writer takes the
slots in order and waits for each until its reply is known, so replies leave in the order of
their requests whenever the jobs end.

A writer may be unable to write more than a number of replies. The write after that ends the
writer: slots still queued and slots queued later are lost, and nobody waits for their jobs any
more. The reader goes on all the same.
-/

namespace ParamSweep

/-- The place of one reply in the order of a session. -/
inductive Slot
  | ready (reply : Reply)
  | awaiting (ticket : Nat)
  deriving Repr

/-- The state of one connection: what is still to be read and how reading will end, why it
ended, the slots to be written, and what was written. -/
structure Session where
  incoming : List Inbound
  ending : CloseReason
  closed : Option CloseReason := none
  slots : List Slot := []
  written : Array Reply := #[]
  capacity : Option Nat := none
  severed : Bool := false
  deriving Repr

namespace Slot

variable {J : Type}

/-- The reply for a slot, once it is known. -/
def reply? (pool : Pool J) : Slot → Option Reply
  | ready reply => some reply
  | awaiting ticket =>
    match pool.fate ticket with
    | .answered reply => some reply
    | .dropped => some (.ofFault (.service .dropped))
    | .pending | .abandoned => none

/-- The pool after nobody waits for a slot any more. -/
def lose (pool : Pool J) : Slot → Pool J
  | ready _ => pool
  | awaiting ticket => pool.abandon ticket

end Slot

namespace Session

/-- The session of a connection with a given intake, whose writer manages at most `capacity`
replies. -/
def ofIntake (intake : Intake) (capacity : Option Nat) : Session :=
  { incoming := intake.items.map (·.2), ending := intake.reason, capacity }

/-- Whether the writer can write one more reply. -/
def hasRoom (session : Session) : Bool := session.capacity.all (session.written.size < ·)

/-- Whether nothing more can happen in a session. -/
def isOver (session : Session) : Bool :=
  session.closed.isSome && (session.severed || session.slots.isEmpty)

/-- The slot for an inbound item, whether the item ends the session, and the pool with the
item's job, if it has one. -/
def slotFor (pool : Pool Job) (item : Inbound) : Slot × Option CloseReason × Pool Job :=
  match Dispatch.ofInbound item with
  | .reply reply => (.ready reply, none, pool)
  | .quit reply => (.ready reply, some .quit, pool)
  | .submit job =>
    match pool.submit? job with
    | some (ticket, pool) => (.awaiting ticket, none, pool)
    | none => (.ready (.ofFault (.service .poolClosed)), none, pool)

/-- The reader takes the next item, or finds that there is none and closes. -/
def read? (session : Session) (pool : Pool Job) : Option (Session × Pool Job) :=
  match session.closed, session.incoming with
  | some _, _ => none
  | none, [] => some ({ session with closed := some session.ending }, pool)
  | none, item :: incoming =>
    let (slot, closed, pool) := slotFor pool item
    let session := { session with incoming, closed }
    if session.severed then
      some (session, slot.lose pool)
    else
      some ({ session with slots := session.slots ++ [slot] }, pool)

/-- The writer writes the reply of the first slot, or ends if it cannot write any more. -/
def write? (session : Session) (pool : Pool Job) : Option (Session × Pool Job) :=
  match session.slots with
  | [] => none
  | slot :: slots =>
    (slot.reply? pool).map fun reply =>
      if session.hasRoom then
        ({ session with slots, written := session.written.push reply }, pool)
      else
        ({ session with slots := [], severed := true }, session.slots.foldl Slot.lose pool)

end Session

end ParamSweep
