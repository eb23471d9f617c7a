import ClassTrace.Frame

/-!
The instructions that shuffle the operand stack. Where a form looks at the category of a value it
is to keep a long or a double whole.
-/
namespace ClassTrace

namespace Frame

def pushAll : List Value → FrameM Unit
  | [] => pure ()
  | v :: rest => do
    push v
    pushAll rest

def pop1 : FrameM Unit := do
  let v ← pop
  if v.isWide then throw (.splitWide .pop)

def pop2 : FrameM Unit := do
  let v1 ← pop
  if !v1.isWide then
    let v2 ← pop
    if v2.isWide then throw (.splitWide .pop2)

def dupX2 : FrameM Unit := do
  let v1 ← pop
  let v2 ← pop
  if v2.isWide then pushAll [v1, v2, v1]
  else
    let v3 ← pop
    pushAll [v1, v3, v2, v1]

def dup2 : FrameM Unit := do
  let v1 ← pop
  if v1.isWide then pushAll [v1, v1]
  else
    let v2 ← pop
    pushAll [v2, v1, v2, v1]

def dup2X1 : FrameM Unit := do
  let v1 ← pop
  let v2 ← pop
  if v1.isWide then pushAll [v1, v2, v1]
  else
    let v3 ← pop
    pushAll [v2, v1, v3, v2, v1]

def dup2X2 : FrameM Unit := do
  let v1 ← pop
  let v2 ← pop
  if v1.isWide && v2.isWide then pushAll [v1, v2, v1]
  else
    let v3 ← pop
    if v1.isWide then pushAll [v1, v3, v2, v1]
    else if v3.isWide then pushAll [v2, v1, v3, v2, v1]
    else
      let v4 ← pop
      pushAll [v2, v1, v4, v3, v2, v1]

def dup : FrameM Unit := do
  let v ← peek 0
  if v.isWide then throw (.splitWide .dup)
  push v

def dupX1 : FrameM Unit := do
  let v1 ← pop
  let v2 ← pop
  if v1.isWide || v2.isWide then throw (.splitWide .dupX1)
  pushAll [v1, v2, v1]

def swap : FrameM Unit := do
  let v1 ← pop
  let v2 ← pop
  if v1.isWide || v2.isWide then throw (.splitWide .swap)
  pushAll [v1, v2]

end Frame

def Shuffle.run : Shuffle → FrameM Unit
  | .pop => Frame.pop1
  | .pop2 => Frame.pop2
  | .dup => Frame.dup
  | .dupX1 => Frame.dupX1
  | .dupX2 => Frame.dupX2
  | .dup2 => Frame.dup2
  | .dup2X1 => Frame.dup2X1
  | .dup2X2 => Frame.dup2X2
  | .swap => Frame.swap

end ClassTrace
