import ParamSweep.Duration
import ParamSweep.Line.Decoder

/-!
# The intake of a connection

A feed is what the other side of a connection does: chunks of bytes, each some time after the
one before, and then an end. The intake is what the service makes of it: the inbound items,
each at its instant, and the reason and instant at which reading ends.

Reading is patient for a fixed time after the last item, or after the start while there was
none. Bytes that complete no item do not prolong it. What arrives exactly when patience ends
is still taken. Whether anybody answers the items plays no part in the intake.
-/

namespace ParamSweep

/-- Why a connection is closed. -/
inductive CloseReason
  | quit
  | peerClosed
  | idle (patience : Duration)
  | readFailed (reason : String)
  deriving DecidableEq, Repr

/-- The text of a reason, as it is logged. -/
def CloseReason.text : CloseReason → String
  | quit => "client quit"
  | peerClosed => "peer closed"
  | idle patience => "idle for " ++ patience.text
  | readFailed reason => "read failed: Line codec error: " ++ reason

/-- A chunk of bytes, and how long after the chunk before it arrives. -/
structure Arrival where
  delay : Duration
  bytes : List UInt8
  deriving Repr

/-- What comes after the last chunk. -/
inductive FeedEnd
  | closed
  | silence
  | failure (reason : String)
  deriving DecidableEq, Repr

/-- What the other side of a connection does. -/
structure Feed where
  arrivals : List Arrival
  ending : FeedEnd
  deriving Repr

/-- The items taken from a feed, each with its instant, and the end of reading. -/
structure Intake where
  items : List (Duration × Inbound)
  reason : CloseReason
  closedAt : Duration
  deriving Repr

namespace Intake

/-- The intake with more items in front, all taken at one instant. -/
def after (intake : Intake) (instant : Duration) (items : List Inbound) : Intake :=
  { intake with items := items.map (instant, ·) ++ intake.items }

/-- The intake once all chunks have arrived, the last at `now`. -/
def atEnd (patience now deadline : Duration) (decoder : Line.Decoder) : FeedEnd → Intake
  | .closed =>
    { items := decoder.finish.1.map (now, ·), reason := .peerClosed, closedAt := now }
  | .silence => { items := [], reason := .idle patience, closedAt := deadline }
  | .failure reason => { items := [], reason := .readFailed reason, closedAt := now }

/-- The intake from `now` on, with patience until `deadline`. -/
def onwards (patience : Duration) (ending : FeedEnd) :
    (now deadline : Duration) → Line.Decoder → List Arrival → Intake
  | now, deadline, decoder, [] => atEnd patience now deadline decoder ending
  | now, deadline, decoder, arrival :: arrivals =>
    let instant := now.add arrival.delay
    if deadline.nanoseconds < instant.nanoseconds then
      { items := [], reason := .idle patience, closedAt := deadline }
    else
      let (items, decoder) := decoder.receive arrival.bytes
      let deadline := if items.isEmpty then deadline else instant.add patience
      (Intake.onwards patience ending instant deadline decoder arrivals).after instant items

/-- What is taken from a feed. -/
def ofFeed (limit : Nat) (patience : Duration) (feed : Feed) : Intake :=
  Intake.onwards patience feed.ending .zero patience { limit } feed.arrivals

end Intake

end ParamSweep
