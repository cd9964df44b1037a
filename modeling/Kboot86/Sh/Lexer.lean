import Kboot86.Sh.Token

/-!
# The lexer

`lexer.c` over a line that ends with a NUL. A pointer into the line is the list
of the characters from there to the NUL; the empty list is a pointer to the NUL
itself. A loop that moves on from the NUL inspects a character beyond the line:
the fault `overrun`, after which nothing is known of what is read.
-/

namespace Kboot86.Sh

inductive Fault where
  | overrun
deriving DecidableEq

def curChar : List UInt8 → UInt8
  | [] => 0
  | c :: _ => c

def moveForward (forward : List UInt8) : List UInt8 := forward.tail

def charIsSkippable (c : UInt8) : Bool := ' '.toUInt8 == c

def charIsAlpha (c : UInt8) : Bool :=
  decide ('a'.toUInt8 ≤ c ∧ c ≤ 'z'.toUInt8) || decide ('A'.toUInt8 ≤ c ∧ c ≤ 'Z'.toUInt8) ||
    '_'.toUInt8 == c

def charIsDigit (c : UInt8) : Bool := decide ('0'.toUInt8 ≤ c ∧ c ≤ '9'.toUInt8)

def charIsHex (c : UInt8) : Bool :=
  charIsDigit c || decide ('a'.toUInt8 ≤ c ∧ c ≤ 'f'.toUInt8) ||
    decide ('A'.toUInt8 ≤ c ∧ c ≤ 'F'.toUInt8)

def charIsAlphanum (c : UInt8) : Bool := charIsAlpha c || charIsDigit c

/-- `_is_valid16`, the same test as `_char_is_hex`. -/
def isValid16 (c : UInt8) : Bool :=
  decide ('0'.toUInt8 ≤ c ∧ c ≤ '9'.toUInt8) || decide ('a'.toUInt8 ≤ c ∧ c ≤ 'f'.toUInt8) ||
    decide ('A'.toUInt8 ≤ c ∧ c ≤ 'F'.toUInt8)

/-! ### Loops -/

def advanceWhile (p : UInt8 → Bool) : List UInt8 → Except Fault (List UInt8)
  | [] => if p 0 then .error .overrun else .ok []
  | c :: rest => if p c then advanceWhile p rest else .ok (c :: rest)

/-- `do move_forward while (p(cur_char))`. -/
def doAdvanceWhile (p : UInt8 → Bool) : List UInt8 → Except Fault (List UInt8)
  | [] => .error .overrun
  | _ :: rest => advanceWhile p rest

def lexemeOf (start stop : List UInt8) : List UInt8 := start.take (start.length - stop.length)

/-! ### The kinds of tokens

Each function is given `begin`, where `forward` is as well, and returns the
token and `forward`. -/

def processEoi (start : List UInt8) : Except Fault (Token × List UInt8) := .ok (.eoi, start)

def processIdentifier (start : List UInt8) : Except Fault (Token × List UInt8) := do
  let forward ← doAdvanceWhile charIsAlphanum start
  pure (tokenSetIdentifier (lexemeOf start forward), forward)

def processLuinteger (start : List UInt8) : Except Fault (Token × List UInt8) :=
  if '0'.toUInt8 == curChar start then
    let next := curChar (moveForward start)
    if 'x'.toUInt8 == next || 'X'.toUInt8 == next then
      let digits := moveForward (moveForward start)
      if !charIsHex (curChar digits) then pure (.error .wrongNum, digits)
      else do
        let forward ← doAdvanceWhile isValid16 digits
        pure (tokenSetLuinteger16 (lexemeOf digits forward), forward)
    else do
      let forward ← doAdvanceWhile isValid16 start
      pure (tokenSetLuinteger8 (lexemeOf start forward), forward)
  else do
    let forward ← doAdvanceWhile isValid16 start
    pure (tokenSetLuinteger10 (lexemeOf start forward), forward)

def processVariable (start : List UInt8) : Except Fault (Token × List UInt8) := do
  let forward ← doAdvanceWhile charIsAlphanum start
  pure (tokenSetVariable (lexemeOf start forward), forward)

/-- The loop stops at a delimiter only, not at the NUL. -/
def processString (start : List UInt8) : Except Fault (Token × List UInt8) := do
  let forward ← doAdvanceWhile (delimiterStr != ·) start
  pure (tokenSetLstring (lexemeOf (moveForward start) forward), moveForward forward)

/-- The loop stops at a space only, not at the NUL. -/
def processUnknown (start : List UInt8) : Except Fault (Token × List UInt8) := do
  let forward ← doAdvanceWhile (' '.toUInt8 != ·) start
  pure (.unknown, forward)

/-! ### The lexer -/

structure Lexer where
  start : List UInt8
  forward : List UInt8
  eoiReached : Bool
  token : Token
  tokenAvailable : Bool
deriving DecidableEq

def lexerInit (line : List UInt8) : Lexer where
  start := line
  forward := line
  tokenAvailable := false
  eoiReached := false
  token := .void

def processToken (c : UInt8) : List UInt8 → Except Fault (Token × List UInt8) :=
  if c = 0 then processEoi
  else if c = sigilStrVar ∨ c = sigilIntVar ∨ c = sigilBoolVar then processVariable
  else if c = delimiterStr then processString
  else if charIsAlpha c then processIdentifier
  else if charIsDigit c then processLuinteger
  else processUnknown

def lexerProcess (lx : Lexer) : Except Fault Lexer :=
  if lx.eoiReached then pure lx
  else do
    let start ← advanceWhile charIsSkippable lx.forward
    let (token, forward) ← processToken (curChar start) start
    pure
      { start := start
        forward := forward
        eoiReached := curChar start == 0
        token := token
        tokenAvailable := true }

def lexerHasToken (lx : Lexer) : Bool := lx.tokenAvailable

def lexerGetToken (lx : Lexer) : Token × Lexer := (lx.token, { lx with tokenAvailable := false })

end Kboot86.Sh
