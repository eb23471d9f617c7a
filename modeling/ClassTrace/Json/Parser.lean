import ClassTrace.Json
import ClassTrace.Json.Problem
import ClassTrace.Number.Literal

/-!
Reading JSON. A text is one value with blanks around it. Bytes of a string that are not UTF-8, and
escaped surrogates without a partner, are read as the replacement character. The first thing that
is wrong with a text is reported.
-/
namespace ClassTrace.JsonValue

abbrev Reader (α : Type) := Bytes → Except JsonProblem (α × Bytes)

def isBlank (b : UInt8) : Bool := b = 32 || b = 9 || b = 10 || b = 13

def skipBlanks (input : Bytes) : Bytes := input.dropWhile isBlank

def isDigit (b : UInt8) : Bool := '0'.toUInt8 ≤ b && b ≤ '9'.toUInt8

def digitsOf (bytes : Bytes) : List Nat := bytes.map fun b => b.toNat - '0'.toNat

def unexpected (place : JsonPlace) (input : Bytes) : JsonProblem :=
  if input.isEmpty then .ended else .character input place

def readDigits : Reader (List Nat) := fun input =>
  match input.takeWhile isDigit with
  | [] => .error (unexpected .number input)
  | digits => .ok (digitsOf digits, input.dropWhile isDigit)

def ofDigits (digits : List Nat) : Nat := digits.foldl (fun n d => n * 10 + d) 0

def readWhole : Reader Nat := fun input =>
  match input with
  | b :: rest =>
    if b = '0'.toUInt8 then .ok (0, rest)
    else (readDigits input).map fun (digits, rest) => (ofDigits digits, rest)
  | [] => .error .ended

def readFraction : Reader (Option (List Nat)) := fun input =>
  match input with
  | b :: rest =>
    if b = '.'.toUInt8 then (readDigits rest).map fun (digits, rest) => (some digits, rest)
    else .ok (none, input)
  | [] => .ok (none, [])

def readSign (input : Bytes) : Bool × Bytes :=
  match input with
  | s :: rest =>
    if s = '-'.toUInt8 then (true, rest) else if s = '+'.toUInt8 then (false, rest)
    else (false, input)
  | [] => (false, [])

def readExponent : Reader (Option Int) := fun input =>
  match input with
  | b :: rest =>
    if b = 'e'.toUInt8 || b = 'E'.toUInt8 then
      let (negative, digits) := readSign rest
      (readDigits digits).map fun (ds, rest) =>
        let n : Int := ofDigits ds
        (some (if negative then -n else n), rest)
    else .ok (none, input)
  | [] => .ok (none, [])

def readNumber : Reader JsonNumber := fun input => do
  let (negative, rest) : Bool × Bytes := match input with
    | [] => (false, [])
    | b :: rest => if b = '-'.toUInt8 then (true, rest) else (false, input)
  let (whole, rest) ← readWhole rest
  let (fraction, rest) ← readFraction rest
  let (exponent, rest) ← readExponent rest
  return (⟨input.take (input.length - rest.length), negative, whole, fraction, exponent⟩, rest)

def hexDigit? (b : UInt8) : Option Nat := (Literal.digit? b).filter (· < 16)

def unit? (a b c d : UInt8) : Option Nat := do
  return (((← hexDigit? a) * 16 + (← hexDigit? b)) * 16 + (← hexDigit? c)) * 16 + (← hexDigit? d)

def pair? (high low : Nat) : Option Char :=
  if 0xD800 ≤ high ∧ high < 0xDC00 ∧ 0xDC00 ≤ low ∧ low < 0xE000 then
    some (Char.ofNat (0x10000 + (high - 0xD800) * 1024 + (low - 0xDC00)))
  else none

/-- The character of an escaped unit that is no part of a pair. -/
def loneChar (unit : Nat) : Char := if unit.isValidChar then Char.ofNat unit else Utf8.replacement

def escaped? (letter : UInt8) : Option UInt8 :=
  match letter.toNat with
  | 34 => some 34
  | 47 => some 47
  | 92 => some 92
  | 98 => some 8
  | 102 => some 12
  | 110 => some 10
  | 114 => some 13
  | 116 => some 9
  | _ => none

/-- The low surrogate escaped at the start of the input, if a pair with the given one. -/
def partner? (high : Nat) : Bytes → Option Char
  | s :: u :: a :: b :: c :: d :: _ => do
    if s = '\\'.toUInt8 && u = 'u'.toUInt8 then pair? high (← unit? a b c d) else none
  | _ => none

/-- The problem of an escape by number whose digits are `after`: it breaks off, or has a digit
that is none. -/
def badUnit (after : Bytes) : JsonProblem :=
  if after.length < 4 && after.all fun b => (hexDigit? b).isSome then .ended
  else .escape ("\\u" ++ after.take 4)

/-- The rest of a string, up to its closing quote. `skip` bytes belong to an escape already read,
and `done` has what came before, the last byte first. -/
def readText : (skip : Nat) → (done : Bytes) → Reader Bytes
  | _, _, [] => .error .ended
  | skip + 1, done, _ :: rest => readText skip done rest
  | 0, done, b :: rest =>
    if b = '"'.toUInt8 then .ok (Utf8.repaired done.reverse, rest)
    else if b < 0x20 then .error (.character (b :: rest) .text)
    else if b ≠ '\\'.toUInt8 then readText 0 (b :: done) rest
    else match rest with
      | [] => .error .ended
      | letter :: after =>
        if letter = 'u'.toUInt8 then
          match after with
          | p :: q :: r :: s :: more => match unit? p q r s with
            | none => .error (badUnit after)
            | some unit => match partner? unit more with
              | some c => readText 11 ((Bytes.ofChar c).reverse ++ done) rest
              | none => readText 5 ((Bytes.ofChar (loneChar unit)).reverse ++ done) rest
          | _ => .error (badUnit after)
        else match escaped? letter with
          | some e => readText 1 (e :: done) rest
          | none => .error (.escape [b, letter])

/-- The rest of a fixed word, of which the input should go on with `expected`. -/
def readWord (word : Bytes) (value : JsonValue) : (expected : Bytes) → Reader JsonValue
  | [], rest => .ok (value, rest)
  | _ :: _, [] => .error .ended
  | e :: expected, b :: rest =>
    if b = e then readWord word value expected rest
    else .error (.character (b :: rest) (.word word e))

def readMark (mark : UInt8) (place : JsonPlace) : Reader Unit := fun input =>
  match skipBlanks input with
  | [] => .error .ended
  | b :: rest => if b = mark then .ok ((), rest) else .error (.character (b :: rest) place)

def readName : Reader Bytes := fun input => do
  let ((), rest) ← readMark '"'.toUInt8 .name input
  let (name, rest) ← readText 0 [] rest
  let ((), rest) ← readMark ':'.toUInt8 .afterName rest
  return (name, rest)

def readSeparator (closing : UInt8) (place : JsonPlace) : Reader Bool := fun input =>
  match skipBlanks input with
  | [] => .error .ended
  | b :: rest =>
    if b = ','.toUInt8 then .ok (true, rest)
    else if b = closing then .ok (false, rest)
    else .error (.character (b :: rest) place)

def closesAtOnce (closing : UInt8) (input : Bytes) : Option Bytes :=
  match skipBlanks input with
  | [] => none
  | b :: rest => if b = closing then some rest else none

mutual

/-- Reads a value. Lists and objects may be nested `depth` deep. Every call either consumes a byte
or is followed by one that does, so the fuel need only be twice the length of the input. -/
def readValue : (fuel depth : Nat) → Reader JsonValue
  | 0, _, _ => .error .ended
  | fuel + 1, depth, input =>
    match skipBlanks input with
    | [] => .error .ended
    | b :: rest =>
      if b = '"'.toUInt8 then (readText 0 [] rest).map fun (t, rest) => (.text t, rest)
      else if b = 'n'.toUInt8 then readWord "null" .null "ull" rest
      else if b = 't'.toUInt8 then readWord "true" (.bool true) "rue" rest
      else if b = 'f'.toUInt8 then readWord "false" (.bool false) "alse" rest
      else if b = '['.toUInt8 then
        match depth with
        | 0 => .error .tooDeep
        | depth + 1 => match closesAtOnce ']'.toUInt8 rest with
          | some rest => .ok (.list [], rest)
          | none => readItems fuel depth [] rest
      else if b = 0x7B then
        match depth with
        | 0 => .error .tooDeep
        | depth + 1 => match closesAtOnce 0x7D rest with
          | some rest => .ok (.object [], rest)
          | none => readFields fuel depth [] rest
      else if b = '-'.toUInt8 || isDigit b then
        (readNumber (b :: rest)).map fun (n, rest) => (.number n, rest)
      else .error (.character (b :: rest) .value)

/-- Reads the items of a list; `done` has those before, the last one first. -/
def readItems : (fuel depth : Nat) → (done : List JsonValue) → Reader JsonValue
  | 0, _, _, _ => .error .ended
  | fuel + 1, depth, done, input =>
    match readValue fuel depth input with
    | .error e => .error e
    | .ok (item, rest) => match readSeparator ']'.toUInt8 .afterItem rest with
      | .error e => .error e
      | .ok (true, rest) => readItems fuel depth (item :: done) rest
      | .ok (false, rest) => .ok (.list (item :: done).reverse, rest)

def readFields : (fuel depth : Nat) → (done : List (Bytes × JsonValue)) → Reader JsonValue
  | 0, _, _, _ => .error .ended
  | fuel + 1, depth, done, input =>
    match readName input with
    | .error e => .error e
    | .ok (name, rest) => match readValue fuel depth rest with
      | .error e => .error e
      | .ok (value, rest) => match readSeparator 0x7D .afterField rest with
        | .error e => .error e
        | .ok (true, rest) => readFields fuel depth ((name, value) :: done) rest
        | .ok (false, rest) => .ok (.object ((name, value) :: done).reverse, rest)

end

def maxDepth : Nat := 10000

def parse (input : Bytes) : Except JsonProblem JsonValue := do
  let (value, rest) ← readValue (2 * input.length + 1) maxDepth input
  match skipBlanks rest with
  | [] => return value
  | rest => throw (.character rest .afterAll)

end ClassTrace.JsonValue
