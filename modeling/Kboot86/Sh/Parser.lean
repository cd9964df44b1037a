import Kboot86.Sh.Lexer

/-!
# The parser

`parser_do` of `parser.c`: at most four tokens of a line, the last of which has
to be the end of the input.
-/

namespace Kboot86.Sh

def syntaxVecLen : Nat := 4

inductive ErrCode where
  | tooManyTokens
  | errorToken
  | unknownToken
  | internal
deriving DecidableEq

def ErrCode.str : ErrCode → String
  | .tooManyTokens => "the given line contains too many elements"
  | .errorToken => "error token"
  | .unknownToken => "unknown token"
  | .internal => "internal error"

/-- The loop of `parser_do`, with `n` places of the vector to go, and the test
after it. -/
def parserLoop : Nat → Nat → Lexer → Token → List Token →
    Except Fault (Except ErrCode (List Token))
  | 0, _, _, token, vec => if !token.isEoi then pure (.error .tooManyTokens) else pure (.ok vec)
  | n + 1, vecIdx, lx, _, vec => do
      let lx ← lexerProcess lx
      if !lexerHasToken lx then pure (.error .internal)
      else
        let (token, lx) := lexerGetToken lx
        if token.isError then pure (.error .errorToken)
        else if token.isUnknown then pure (.error .unknownToken)
        else
          let vec := vec.set vecIdx token
          if token.isEoi then pure (.ok vec)
          else parserLoop n (vecIdx + 1) lx token vec

def parserDo (str : Option (List UInt8)) : Except Fault (Except ErrCode (List Token)) :=
  match str with
  | none => pure (.error .internal)
  | some line =>
      parserLoop syntaxVecLen 0 (lexerInit line) .void (List.replicate syntaxVecLen .void)

/-- The number of tokens before the end of the input, -1 as a 32-bit value when
the vector has none. -/
def parserDataLen (vec : List Token) : Nat :=
  ((List.range syntaxVecLen).find? fun i => (vec.getD i .void).isEoi).getD 0xffffffff

end Kboot86.Sh
