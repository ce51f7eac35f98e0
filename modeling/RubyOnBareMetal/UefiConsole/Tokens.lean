import Mathlib.Algebra.Group.Nat.Defs
import RubyOnBareMetal.UefiConsole.Parser

namespace RubyOnBareMetal.UefiConsole

open Foundation

/-!
# What a stream of tokens means

The reference for the parser: a well formed stream is a list of tokens, and
each is interpreted on its own.  Only the attribute that the firmware keeps
connects one token with the next.
-/

/-! ## Parameters -/

/-- The number that decimal digits denote. -/
def decimal (digits : List UInt8) : Nat :=
  digits.foldl (fun number c => number * 10 + (c.toNat - 0x30)) 0

/-- The parameters of a body, as lists of digits. -/
def pieces (body : List UInt8) : List (List UInt8) :=
  (body.filter fun c => !isSkipped c).splitOn semicolon

/-- The number of a parameter, if it is not empty. -/
def number? (digits : List UInt8) : Option Nat :=
  if digits = [] then none else some (decimal digits)

/-- The parameters of a body. -/
def parameters (body : List UInt8) : List (Option Nat) :=
  (pieces body).map number?

/-- The parameter at an index; one that is not there is missing. -/
def parameter (params : List (Option Nat)) (index : Nat) : Option Nat :=
  params.getD index none

/-! ## Tokens -/

/-- A control sequence with at most eight parameters below `2 ^ 31`. -/
structure ControlSequence where
  body : List UInt8
  final : UInt8
  bodyBytes :
    ∀ c ∈ body, isDigit c ∨ c = semicolon ∨ isSkipped c
  finalByte : isFinal final
  fewParameters : (pieces body).length ≤ 8
  smallParameters : ∀ digits ∈ pieces body, decimal digits < 2 ^ 31

/-- A plain byte, an escape with one byte, or a control sequence. -/
inductive Token where
  | plain (c : UInt8) (notEscape : c ≠ escapeByte)
  | escape (c : UInt8) (notBracket : c ≠ bracket)
  | control (sequence : ControlSequence)

/-- The bytes of a token. -/
def Token.encode : Token → List UInt8
  | .plain c _ => [c]
  | .escape c _ => [escapeByte, c]
  | .control sequence =>
      escapeByte :: bracket :: (sequence.body ++ [sequence.final])

/-! ## Interpretation -/

/-- A coordinate, counted from one unless it is missing or zero. -/
def coordinate (params : List (Option Nat)) (index : Nat) : Nat :=
  max 1 ((parameter params index).getD 1)

/-- The attribute after one SGR parameter. -/
def sgr (attr : UInt64) (p : Nat) : UInt64 :=
  if p = 0 then
    0x07
  else if 30 ≤ p ∧ p ≤ 37 then
    (attr &&& 0xF0) ||| UInt64.ofNat (p - 30)
  else if 90 ≤ p ∧ p ≤ 97 then
    (attr &&& 0xF0) ||| UInt64.ofNat (p - 90 + 8)
  else if 40 ≤ p ∧ p ≤ 47 then
    (attr &&& 0x0F) ||| (UInt64.ofNat (p - 40) <<< (4 : UInt64))
  else if 100 ≤ p ∧ p ≤ 107 then
    (attr &&& 0x0F) ||| (UInt64.ofNat (p - 100 + 8) <<< (4 : UInt64))
  else
    attr

/-- The firmware call of a control sequence. -/
def controlCalls
    (out : TextOutput)
    (params : List (Option Nat))
    (final : UInt8) :
    List FirmwareCall :=
  if final = finalCup ∨ final = finalHvp then
    [.setCursorPosition
      (UInt64.ofNat (coordinate params 1 - 1))
      (UInt64.ofNat (coordinate params 0 - 1))]
  else if final = finalEd then
    if (parameter params 0).getD 0 = 2 then [.clearScreen] else []
  else if final = finalSgr then
    [.setAttribute
      ((params.map (Option.getD · 0)).foldl sgr out.currentAttribute)]
  else
    []

/-- The output protocol after a firmware call. -/
def TextOutput.after (out : TextOutput) : FirmwareCall → TextOutput
  | .setAttribute attr => out.storeAttribute attr
  | _ => out

/-- The calls of one token, with nothing but the protocol to go by. -/
def Token.calls (out : TextOutput) : Token → List FirmwareCall
  | .plain c _ =>
      if c = 0x0A then
        [.outputString [0x0D, 0x0A, 0]]
      else
        [.outputString [c.toUInt16, 0]]
  | .escape _ _ => []
  | .control sequence =>
      controlCalls out (parameters sequence.body) sequence.final

/-- Tokens interpreted one by one; without a protocol nothing happens. -/
def interpreter :
    Machine (Option TextOutput) Token (List FirmwareCall) where
  step out? token :=
    match out? with
    | none => ([], none)
    | some out =>
        (token.calls out, some ((token.calls out).foldl .after out))
  admits _ _ := True

end RubyOnBareMetal.UefiConsole
