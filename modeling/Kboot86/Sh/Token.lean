import Mathlib.Logic.Basic

/-!
# Tokens

The tokens of the shell, from `token.c`. A lexeme is the list of its
characters; a character that is negative as a `char` belongs to no class of
characters, as here the bytes from 128 on.
-/

namespace Kboot86.Sh

inductive TokenError where
  | generic
  | numStrTooLong
  | strTooLong
  | numStrTooShort
  | wrongNum
deriving DecidableEq

inductive Token where
  | void
  | error (errCode : TokenError)
  | unknown
  | identifier (str : List UInt8)
  | variable (str : List UInt8)
  | lstring (str : List UInt8)
  | luinteger (integer : UInt32)
  | eoi
deriving DecidableEq

namespace Token

def isVoid (t : Token) : Bool := t == .void

def isError : Token → Bool
  | .error _ => true
  | _ => false

def isUnknown (t : Token) : Bool := t == .unknown

def isEoi (t : Token) : Bool := t == .eoi

def isIdentifier : Token → Bool
  | .identifier _ => true
  | _ => false

def isVariable : Token → Bool
  | .variable _ => true
  | _ => false

def isLstring : Token → Bool
  | .lstring _ => true
  | _ => false

def isLuinteger : Token → Bool
  | .luinteger _ => true
  | _ => false

end Token

def sigilStrVar : UInt8 := '$'.toUInt8

def sigilIntVar : UInt8 := '%'.toUInt8

def sigilBoolVar : UInt8 := '.'.toUInt8

def delimiterStr : UInt8 := '!'.toUInt8

def tokenStrLenMax : Nat := 15

/-- `_set_strlex`: a token of the kind `set` with the lexeme in it. -/
def setStrlex (set : List UInt8 → Token) (lexeme : List UInt8) : Token :=
  if lexeme.length > tokenStrLenMax then .error .strTooLong else set lexeme

def tokenSetIdentifier (lexeme : List UInt8) : Token := setStrlex .identifier lexeme

def tokenSetVariable (lexeme : List UInt8) : Token := setStrlex .variable lexeme

def tokenSetLstring (lexeme : List UInt8) : Token := setStrlex .lstring lexeme

/-! ### Numbers -/

def char2int8 (c : UInt8) : Option UInt32 :=
  if '0'.toUInt8 ≤ c ∧ c ≤ '7'.toUInt8 then some (c - '0'.toUInt8).toUInt32 else none

def char2int10 (c : UInt8) : Option UInt32 :=
  if '0'.toUInt8 ≤ c ∧ c ≤ '9'.toUInt8 then some (c - '0'.toUInt8).toUInt32 else none

def char2int16 (c : UInt8) : Option UInt32 :=
  if '0'.toUInt8 ≤ c ∧ c ≤ '9'.toUInt8 then some (c - '0'.toUInt8).toUInt32
  else if 'a'.toUInt8 ≤ c ∧ c ≤ 'f'.toUInt8 then some (10 + (c - 'a'.toUInt8).toUInt32)
  else if 'A'.toUInt8 ≤ c ∧ c ≤ 'F'.toUInt8 then some (10 + (c - 'A'.toUInt8).toUInt32)
  else none

/-- The loop of `_set_luinteger`, over the digits from the last one to the
first. -/
def setLuintegerLoop (base : UInt32) (converter : UInt8 → Option UInt32) :
    List UInt8 → UInt32 → UInt32 → Token
  | [], number, _ => .luinteger number
  | c :: rest, number, factor =>
      match converter c with
      | none => .error .wrongNum
      | some digit =>
          setLuintegerLoop base converter rest (number + digit * factor) (factor * base)

def setLuinteger (lenMax : Nat) (base : UInt32) (converter : UInt8 → Option UInt32)
    (lexeme : List UInt8) : Token :=
  if lexeme.length > lenMax then .error .numStrTooLong
  else setLuintegerLoop base converter lexeme.reverse 0 1

def tokenSetLuinteger8 (lexeme : List UInt8) : Token := setLuinteger (10 + 1) 8 char2int8 lexeme

def tokenSetLuinteger10 (lexeme : List UInt8) : Token := setLuinteger 9 10 char2int10 lexeme

def tokenSetLuinteger16 (lexeme : List UInt8) : Token := setLuinteger 8 16 char2int16 lexeme

end Kboot86.Sh
