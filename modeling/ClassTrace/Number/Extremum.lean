/-!
The lesser and the greater of two doubles. An infinity that beats every number wins even over a
NaN, a NaN wins over the rest, and a negative zero is less than a positive one.
-/
namespace ClassTrace.Extremum

def infinity : Float := 1.0 / 0.0

def nan : Float := 0.0 / 0.0

def isNegative (x : Float) : Bool := 0x8000000000000000 ≤ x.toBits

def lesser (x y : Float) : Float :=
  if x == -infinity || y == -infinity then -infinity
  else if x.isNaN || y.isNaN then nan
  else if x == 0 && y == 0 then if isNegative x then x else y
  else if x < y then x else y

def greater (x y : Float) : Float :=
  if x == infinity || y == infinity then infinity
  else if x.isNaN || y.isNaN then nan
  else if x == 0 && y == 0 then if isNegative x then y else x
  else if x > y then x else y

end ClassTrace.Extremum
