import ClassTrace.Number.Shortest
import ClassTrace.Text.Bytes

/-!
The text of a floating point number: the shortest decimal that reads back. It is written out from
a thousandth up to ten million, with a digit on each side of the point, and with an exponent
elsewhere. Settings and messages have it written out whatever its size.
-/
namespace ClassTrace.FloatText

def zeros (n : Nat) : Bytes := List.replicate n '0'.toUInt8

def positional (d : Shortest.Decimal) : Bytes :=
  let digits := Bytes.decimal d.digits
  if d.point ≤ 0 then "0." ++ zeros (-d.point).toNat ++ digits
  else
    let whole := d.point.toNat
    if d.count ≤ whole then digits ++ zeros (whole - d.count) ++ ".0"
    else digits.take whole ++ "." ++ digits.drop whole

def withExponent (d : Shortest.Decimal) : Bytes :=
  let digits := Bytes.decimal d.digits
  let fraction : Bytes := if d.count ≤ 1 then "0" else digits.drop 1
  digits.take 1 ++ "." ++ fraction ++ "E" ++ Bytes.decimal (d.point - 1)

/-- The least and the first too large magnitude that are written out. -/
def isPositional (x : Float) : Bool := 1e-3 ≤ x && x < 1e7

def ofReading (l : Binary.Layout) (magnitude : Float) : Binary.Reading → Bytes
  | .nan => "NaN"
  | .infinite negative => if negative then "-Infinity" else "Infinity"
  | .finite number =>
    let sign : Bytes := if number.negative then "-" else ""
    if number.mantissa = 0 then sign ++ "0.0"
    else
      let d := Shortest.decimal l number.mantissa number.power
      sign ++ if isPositional magnitude then positional d else withExponent d

def ofDouble (x : Float) : Bytes := ofReading Binary.double x.abs (Binary.readDouble x)

def ofSingle (x : Float32) : Bytes := ofReading Binary.single x.toFloat.abs (Binary.readSingle x)

/-- The number written out without an exponent, and without a point if it is whole. -/
def writtenOut (x : Float) : Bytes :=
  match Binary.readDouble x with
  | .nan => "NaN"
  | .infinite negative => if negative then "-Inf" else "+Inf"
  | .finite number =>
    let sign : Bytes := if number.negative then "-" else ""
    if number.mantissa = 0 then sign ++ "0"
    else
      let d := Shortest.decimal Binary.double number.mantissa number.power
      sign ++ Bytes.dropSuffix ".0" (positional d)

end ClassTrace.FloatText
