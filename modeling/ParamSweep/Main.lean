import ParamSweep.Line.Intake
import ParamSweep.Dispatch
import ParamSweep.Settings.Basic
import Std.Async.System
import Std.Async.TCP
import Std.Async.Timer
import Std.Sync.Channel
import Std.Sync.Mutex

/-!
# The service on a socket

The outermost layer: a listener, a thread for the reader and one for the writer of every
connection, and a thread for every worker. It moves bytes, jobs and replies; what they mean is
decided by the pure modules. The port is the only argument; the number of workers can be given
in the environment, and is the number of processors otherwise.
-/

namespace ParamSweep.Server

open Std.Async
open Std.Net (SocketAddress IPv4Addr IPv6Addr)

/-- Overrides the number of workers. -/
def workersVariable : String := "GRIDCALC_WORKER_THREADS"

instance : Nonempty Outcome := ⟨.crashed .unexplained⟩

/-- A job, the instant at which its line was read, and where its outcome is to be left. -/
structure Order where
  job : Job
  received : Nat
  outcome : IO.Promise Outcome

/-- What all connections share. -/
structure Desk where
  orders : Std.CloseableChannel Order
  timings : Std.Mutex Timings
  settings : Settings

/-- Runs an action on a thread of its own. -/
def spawn {α : Type} (act : IO α) : IO (Task (Except IO.Error α)) :=
  IO.asTask act Task.Priority.dedicated

/-- The time that has passed since an instant of the clock. -/
def since (started : Nat) : IO Duration := return ⟨(← IO.monoNanosNow) - started⟩

/-- Changes the timings and yields what the change found. -/
def withTimings {α : Type} (desk : Desk) (change : Timings → α × Timings) : IO α :=
  desk.timings.atomically do
    let (result, timings) := change (← get)
    set timings
    return result

/-- Runs one job and measures it: a sweep from its start, a statistic from the moment at which
its line was read. -/
def perform (desk : Desk) (order : Order) : IO Outcome := do
  match order.job with
  | .sweep wanted =>
    let started ← IO.monoNanosNow
    let result ← IO.lazyPure fun _ => wanted.run
    let elapsed ← since started
    withTimings desk (Job.endSweep result elapsed)
  | .statistic wanted =>
    let elapsed ← since order.received
    withTimings desk (Job.endStatistic wanted elapsed)

/-- Takes orders as long as there may be any. -/
partial def work (desk : Desk) : IO Unit := do
  match ← IO.wait (← desk.orders.recv) with
  | none => return
  | some order =>
    order.outcome.resolve (← perform desk order)
    work desk

/-- Submits a job and yields its reply in time. -/
def submit (desk : Desk) (job : Job) (received : Nat) : IO (Task Reply) := do
  let outcome ← IO.Promise.new
  if ← desk.orders.trySend { job, received, outcome } then
    return outcome.result?.map fun
      | some ended => ended.reply
      | none => .ofFault (.service .dropped)
  else
    return Task.pure (.ofFault (.service .poolClosed))

/-- What a reader hears next. -/
inductive Heard
  | chunk (bytes : List UInt8)
  | ended
  | silence
  | failed (reason : String)

/-- Waits for bytes, but not longer than some milliseconds. -/
def listen (client : TCP.Socket.Client) (milliseconds : Nat) : IO Heard :=
  try
    Async.block do
      let alarm ← Selector.sleep (.ofNat milliseconds)
      Selectable.one #[
        .case (client.recvSelector 65536) fun
          | some bytes => return .chunk bytes.toList
          | none => return .ended,
        .case alarm fun _ => return .silence]
  catch error => return .failed error.toString

/-- Writes the replies of a connection in their order. -/
partial def write (client : TCP.Socket.Client) (replies : Std.CloseableChannel (Task Reply)) :
    IO Unit := do
  match ← IO.wait (← replies.recv) with
  | none => Async.block client.shutdown
  | some reply =>
    let line := (← IO.wait reply).text ++ "\n"
    Async.block (client.send line.toUTF8)
    write client replies

/-- Answers items in order; tells whether one of them ended the connection. -/
def answer (desk : Desk) (replies : Std.CloseableChannel (Task Reply)) :
    List Inbound → IO Bool
  | [] => return false
  | item :: items => do
    let received ← IO.monoNanosNow
    match Dispatch.ofInbound item with
    | .reply reply =>
      discard <| replies.trySend (Task.pure reply)
      answer desk replies items
    | .submit job =>
      discard <| replies.trySend (← submit desk job received)
      answer desk replies items
    | .quit reply =>
      discard <| replies.trySend (Task.pure reply)
      return true

/-- Reads a connection until it closes. Patience runs from `since`, an instant in
milliseconds. -/
partial def read (desk : Desk) (client : TCP.Socket.Client)
    (replies : Std.CloseableChannel (Task Reply)) (decoder : Line.Decoder) (since : Nat) :
    IO CloseReason := do
  let patience := desk.settings.idleTimeout
  match ← listen client (since + patience.milliseconds - (← IO.monoMsNow)) with
  | .silence => return .idle patience
  | .failed reason => return .readFailed reason
  | .ended => return if ← answer desk replies decoder.finish.1 then .quit else .peerClosed
  | .chunk bytes =>
    let (items, decoder) := decoder.receive bytes
    if ← answer desk replies items then
      return .quit
    else
      let now ← IO.monoMsNow
      read desk client replies decoder (if items.isEmpty then since else now)

/-- Serves one connection. -/
def serve (desk : Desk) (client : TCP.Socket.Client) : IO Unit := do
  let replies ← Std.CloseableChannel.new
  let writer ← spawn (write client replies)
  let reason ← read desk client replies { limit := desk.settings.lineLimit } (← IO.monoMsNow)
  discard <| (replies.close).toBaseIO
  match ← IO.wait writer with
  | .ok () => pure ()
  | .error error => IO.eprintln ("reply writer failed: " ++ error.toString)
  IO.eprintln ("connection closed: " ++ reason.text)

/-- Accepts connections for ever, each on a thread of its own. -/
partial def accept (desk : Desk) (server : TCP.Socket.Server) : IO Unit := do
  try
    let client ← Async.block server.accept
    discard <| spawn (serve desk client)
  catch error => IO.eprintln ("accept failed: " ++ error.toString)
  accept desk server

/-- The address to listen on, if it has as many parts as its version asks for. -/
def socketAddress? (settings : Settings) : Option SocketAddress :=
  let port := settings.port.toUInt16
  match settings.address with
  | .v4 [a, b, c, d] =>
    some (.v4 { addr := IPv4Addr.ofParts a.toUInt8 b.toUInt8 c.toUInt8 d.toUInt8, port })
  | .v6 [a, b, c, d, e, f, g, h] =>
    let addr := IPv6Addr.ofParts a.toUInt16 b.toUInt16 c.toUInt16 d.toUInt16 e.toUInt16 f.toUInt16
      g.toUInt16 h.toUInt16
    some (.v6 { addr, port })
  | _ => none

/-- Starts the workers and serves connections. -/
def run (settings : Settings) : IO UInt32 := do
  match settings.validate with
  | .error fault =>
    IO.eprintln fault.message
    return 1
  | .ok () =>
    let some address := socketAddress? settings
      | throw (.userError ("no address: " ++ settings.endpoint))
    let server ← TCP.Socket.Server.mk
    server.bind address
    server.listen 128
    IO.eprintln ("listening on " ++ settings.endpoint)
    let desk : Desk :=
      { orders := ← Std.CloseableChannel.new, timings := ← Std.Mutex.new {}, settings }
    for _ in [0:settings.workers] do
      discard <| spawn (work desk)
    accept desk server
    return 0

/-- The number of processors, zero if it is not known. -/
def processors : IO Nat :=
  try return (← System.getCPUInfo).size catch _ => return 0

/-- The settings that the arguments ask for. -/
def settingsOf? (workers : Nat) (arguments : List String) : Option Settings :=
  match arguments with
  | [] => some { workers }
  | [port] => (Settings.portOfText? port).map fun port => { workers, port }
  | _ => none

end ParamSweep.Server

/-- Serves sweeps on a port, 9000 unless another is given. -/
def main (arguments : List String) : IO UInt32 := do
  let asked ← IO.getEnv ParamSweep.Server.workersVariable
  let workers := ParamSweep.Settings.workersFrom asked (← ParamSweep.Server.processors)
  match ParamSweep.Server.settingsOf? workers arguments with
  | some settings => ParamSweep.Server.run settings
  | none =>
    IO.eprintln "usage: param-sweep [PORT]"
    return 2
