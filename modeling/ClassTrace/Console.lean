import ClassTrace.Fault
import ClassTrace.Log

/-!
What a program shows: texts written to its two channels and log records, in one order. What stands
behind a channel may refuse a write, with any error.
-/
namespace ClassTrace

inductive Channel where
  | out
  | err
deriving DecidableEq, Repr

inductive Output where
  | text (channel : Channel) (bytes : Bytes)
  | log (record : LogRecord)
deriving DecidableEq, Repr

/-- What stands behind a channel. `answers` has what the next writes are answered with: nothing if
they are accepted, else an error. Once there are no more answers, `room` is how many writes are
still accepted, if there is a limit, and `refusal` the answer to each one after that. -/
structure Writer where
  answers : List (Option OutsideError) := []
  room : Option Nat := none
  refusal : OutsideError := { message := [] }
deriving DecidableEq, Repr

namespace Writer

def next (w : Writer) : Option OutsideError × Writer :=
  match w.answers with
  | answer :: answers => (answer, { w with answers })
  | [] => match w.room with
    | none => (none, w)
    | some 0 => (some w.refusal, w)
    | some (n + 1) => (none, { w with room := some n })

/-- What is accepted of writes that are made one after the other up to the first that is refused,
and the error of that one. -/
def send : Writer → List Bytes → Bytes × Option OutsideError
  | _, [] => ([], none)
  | w, bytes :: rest => match w.next with
    | (none, w) => (bytes ++ (w.send rest).1, (w.send rest).2)
    | (some e, _) => ([], some e)

end Writer

structure Console where
  shown : Array Output := #[]
  out : Writer := {}
  err : Writer := {}
deriving DecidableEq, Repr

abbrev ConsoleM := EStateM OutsideError Console

namespace Console

def add (o : Output) (c : Console) : Console := { c with shown := c.shown.push o }

def writer (c : Console) : Channel → Writer
  | .out => c.out
  | .err => c.err

def setWriter (w : Writer) (c : Console) : Channel → Console
  | .out => { c with out := w }
  | .err => { c with err := w }

/-- A refused write shows nothing. -/
def write (channel : Channel) (bytes : Bytes) : ConsoleM Unit := fun c =>
  match (c.writer channel).next with
  | (none, w) => .ok () ((c.setWriter w channel).add (.text channel bytes))
  | (some e, w) => .error e (c.setWriter w channel)

def tryWrite (channel : Channel) (bytes : Bytes) (c : Console) : Console :=
  match write channel bytes c with
  | .ok _ c => c
  | .error _ c => c

def textOf (channel : Channel) (shown : Array Output) : Bytes :=
  shown.toList.flatMap fun o => match o with
    | .text ch bytes => if ch = channel then bytes else []
    | .log _ => []

def logsOf (shown : Array Output) : List LogRecord :=
  shown.toList.filterMap fun o => match o with
    | .text _ _ => none
    | .log r => some r

end Console

/-- A stream that prints on a channel, in a color given by display attributes if there is one. -/
structure PrintStream where
  channel : Channel
  color : Option (List Nat)
deriving DecidableEq, Repr

namespace PrintStream

def attributes (codes : List Nat) : Bytes :=
  "\x1b[" ++ Bytes.join ";" (codes.map fun n : Nat => Bytes.decimal n) ++ "m"

/-- A colored text stands between the sequence for its color and a reset, each a write of its own;
only a refusal of the text itself counts. -/
def print (s : PrintStream) (colorEnabled : Bool) (text : Bytes) : ConsoleM Unit :=
  match s.color with
  | none => Console.write s.channel text
  | some codes =>
    if colorEnabled then fun c =>
      match Console.write s.channel text (Console.tryWrite s.channel (attributes codes) c) with
      | .ok _ c => .ok () (Console.tryWrite s.channel (attributes [0]) c)
      | .error e c => .error e (Console.tryWrite s.channel (attributes [0]) c)
    else Console.write s.channel text

/-- The end of the line is a write of its own, without color. -/
def println (s : PrintStream) (colorEnabled : Bool) (text : Bytes) : ConsoleM Unit := do
  s.print colorEnabled text
  Console.write s.channel "\n"

def className : Bytes := "java/io/PrintStream"

end PrintStream

end ClassTrace
