import Kboot86.Sh.Parser
import Kboot86.Sh.VarTable

/-!
# The shell

`shell.c` and `commands.h`: what `shell_do` does with a line that it got, to the
table of variables and by calls of the functions in its table of commands. What
the commands print, and what `ataid`, `mbr`, `vid` and `ls` read from the drive,
is left out.
-/

namespace Kboot86.Sh

def chars (s : String) : List UInt8 := s.toList.map Char.toUInt8

inductive CmdFunc where
  | lscmd
  | help
  | set
  | «show»
  | vars
  | ataid
  | mbr
  | vid
  | ls
deriving DecidableEq

structure CmdTableEntry where
  name : List UInt8
  arity : Nat
  cmdFunc : CmdFunc
deriving DecidableEq

def cmdTable : List CmdTableEntry :=
  [{ name := chars "lscmd", arity := 0, cmdFunc := .lscmd },
    { name := chars "help", arity := 1, cmdFunc := .help },
    { name := chars "set", arity := 2, cmdFunc := .set },
    { name := chars "show", arity := 1, cmdFunc := .show },
    { name := chars "vars", arity := 0, cmdFunc := .vars },
    { name := chars "ataid", arity := 0, cmdFunc := .ataid },
    { name := chars "mbr", arity := 0, cmdFunc := .mbr },
    { name := chars "vid", arity := 0, cmdFunc := .vid },
    { name := chars "ls", arity := 0, cmdFunc := .ls }]

def getCmdEntry (name : List UInt8) : Option CmdTableEntry :=
  cmdTable.find? fun cte => strcmp name cte.name == 0

/-! ### The commands

Each takes the table of variables to the table it leaves and the code it
returns. -/

def cmdDisplay (t : VarTable) : VarTable × Int := (t, 0)

def cmdLscmd : VarTable → VarTable × Int := cmdDisplay

def cmdHelp (cmdName : Token) (t : VarTable) : VarTable × Int :=
  if !cmdName.isIdentifier then (t, 1)
  else match getCmdEntry cmdName.str with
    | none => (t, 1)
    | some _ => (t, 0)

def cmdSet (varName value : Token) (t : VarTable) : VarTable × Int :=
  let (t, code) := varSetEntry t varName value
  if code ≠ 0 then (t, 1) else (t, 0)

def cmdShow (varName : Token) (t : VarTable) : VarTable × Int :=
  match varGetEntry t varName with
  | none => (t, 1)
  | some _ => (t, 0)

def displayVar (_ : VarEntry) : Int := 0

def varForeach (doFunc : VarEntry → Int) (t : VarTable) : Int :=
  if (List.finRange tableLen).any fun i => (t i).used && doFunc (t i) != 0 then 1 else 0

def cmdVars (t : VarTable) : VarTable × Int := (t, varForeach displayVar t)

def cmdAtaid : VarTable → VarTable × Int := cmdDisplay

def cmdMbr : VarTable → VarTable × Int := cmdDisplay

def cmdVid : VarTable → VarTable × Int := cmdDisplay

def cmdLs : VarTable → VarTable × Int := cmdDisplay

/-! ### The call of a command -/

/-- What stops the shell: a read past the end of the line, or a function that is
called with another number of arguments than it has parameters. -/
inductive ShellFault where
  | lexer (e : Fault)
  | wrongType
deriving DecidableEq

structure Call where
  cmdFunc : CmdFunc
  args : List Token
deriving DecidableEq

def CmdFunc.arity : CmdFunc → Nat
  | .help => 1
  | .set => 2
  | .show => 1
  | _ => 0

def Call.run (c : Call) (t : VarTable) : Except ShellFault (VarTable × Int) :=
  match c.cmdFunc, c.args with
  | .lscmd, [] => .ok (cmdLscmd t)
  | .help, [cmdName] => .ok (cmdHelp cmdName t)
  | .set, [varName, value] => .ok (cmdSet varName value t)
  | .show, [varName] => .ok (cmdShow varName t)
  | .vars, [] => .ok (cmdVars t)
  | .ataid, [] => .ok (cmdAtaid t)
  | .mbr, [] => .ok (cmdMbr t)
  | .vid, [] => .ok (cmdVid t)
  | .ls, [] => .ok (cmdLs t)
  | _, _ => .error .wrongType

def callCmd (cmdFunc : CmdFunc) (arity : Nat) (tokens : List Token) : Option Call :=
  match arity with
  | 0 => some ⟨cmdFunc, []⟩
  | 1 => some ⟨cmdFunc, [tokens.getD 1 .void]⟩
  | 2 => some ⟨cmdFunc, [tokens.getD 1 .void, tokens.getD 2 .void]⟩
  | _ => none

/-! ### The loop of the shell -/

/-- What the shell does after a line: which message it prints, or the code of
the command. -/
inductive Reply where
  | syntaxError (errCode : ErrCode)
  | blank
  | notIdentifier
  | noCommand (name : List UInt8)
  | wrongArity (cte : CmdTableEntry)
  | done (code : Int)

structure Outcome where
  table : VarTable
  reply : Reply
  call : Option Call

def lineOf (buf : List UInt8) : List UInt8 := buf.takeWhile (· != 0)

/-- One turn of the loop of `shell_do`, with the line in the buffer. The length
without the command is taken as a 32-bit value. -/
def shellDo (t : VarTable) (buf : List UInt8) : Except ShellFault Outcome :=
  match parserDo (some (lineOf buf)) with
  | .error e => .error (.lexer e)
  | .ok (.error errCode) => .ok ⟨t, .syntaxError errCode, none⟩
  | .ok (.ok vec) =>
      let first := vec.getD 0 .void
      if first.isEoi then .ok ⟨t, .blank, none⟩
      else if !first.isIdentifier then .ok ⟨t, .notIdentifier, none⟩
      else match getCmdEntry first.str with
        | none => .ok ⟨t, .noCommand first.str, none⟩
        | some cte =>
            if cte.arity ≠ (parserDataLen vec + 0xffffffff) % 0x100000000 then do
              let call : Call := ⟨.help, [first]⟩
              let (t, _) ← call.run t
              return ⟨t, .wrongArity cte, some call⟩
            else match callCmd cte.cmdFunc cte.arity vec with
              | none => .ok ⟨t, .done 1, none⟩
              | some call => do
                  let (t, code) ← call.run t
                  return ⟨t, .done code, some call⟩

/-- The lines that the shell processes, with a table that no variable was ever
set in. The lexer stays within each of them. -/
def shellSystem : System VarTable (List UInt8) where
  init t := ∀ i, (t i).used = false
  step t buf t' := ScansClosed syntaxVecLen (lineOf buf) ∧ ∃ o, shellDo t buf = .ok o ∧ t' = o.table

end Kboot86.Sh
