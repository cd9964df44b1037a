import Kboot86.Lib.Kstdio.Format
import Kboot86.Sh.Effect

/-!
# What the shell prints

The calls of `kprintf` that `shell_do` and its commands make for a line, in
their order, without the prompt. What `ataid`, `mbr`, `vid` and `ls` print
comes from the drive, and is not known here.

`show` takes the argument as a string, whatever it is. Of a number it prints
the bytes up to the first that is zero; when none is, it goes on in a part of
the token that the lexer has not written, and nothing is known of what it
prints.
-/

namespace Kboot86.Sh

open Kstdio

structure Print where
  format : String
  args : List Arg

/-- What the call leaves in the buffer, before the NUL. -/
def Print.text (p : Print) : Option (List UInt8) := kvsprintf (Kstdio.text p.format) p.args

def printBufSize : Nat := 1024

/-! ### The table of commands -/

def CmdFunc.description : CmdFunc → String
  | .lscmd => "display the list of all the commands"
  | .help => "display the help for the given command"
  | .set => "sets a variable to the given value"
  | .show => "shows the value of a variable"
  | .vars => "displays all defined variables and their values"
  | .ataid => "displays ATA IDENTIFY command"
  | .mbr => "dsiplays MBR information"
  | .vid => "displays FAT16 Volume ID"
  | .ls => "list FAT16 root's directory"

def CmdFunc.usage : CmdFunc → String
  | .lscmd => "lscmd"
  | .help => "help set"
  | .set => "set %var 113\n\tset $var !hello world!\n\tset .var 1"
  | .show => "show $var"
  | .vars => "vars"
  | .ataid => "ataid"
  | .mbr => "mbr"
  | .vid => "vid"
  | .ls => "ls"

def displayCmdName (cte : CmdTableEntry) : List Print := [⟨"%s\n", [.str cte.name]⟩]

/-! ### The commands -/

def lscmdOutput : List Print := cmdTable.flatMap displayCmdName

def helpOutput (cmdName : Token) : List Print :=
  if !cmdName.isIdentifier then [⟨"wrong parameters, not a command name\n", []⟩]
  else match getCmdEntry cmdName.str with
    | none => [⟨"no command with the name \"%s\"\n", [.str cmdName.str]⟩]
    | some cte =>
        [⟨"%s", [.str cte.name]⟩,
          ⟨" - %s\n", [.str (Kstdio.text cte.cmdFunc.description)]⟩,
          ⟨"usage:\n\t%s\n", [.str (Kstdio.text cte.cmdFunc.usage)]⟩]

def numberBytes (n : UInt32) : List UInt8 :=
  [n.toUInt8, (n >>> 8).toUInt8, (n >>> 16).toUInt8, (n >>> 24).toUInt8]

/-- The member `str` of a token as a string, `none` when its end is in a part
that was not written. -/
def Token.cString : Token → Option (List UInt8)
  | .identifier str => some str
  | .variable str => some str
  | .lstring str => some str
  | .luinteger n => if 0 ∈ numberBytes n then some ((numberBytes n).takeWhile (· != 0)) else none
  | _ => none

def showOutput (t : VarTable) (varName : Token) : Option (List Print) :=
  match varGetEntry t varName with
  | none => varName.cString.map fun s => [⟨"no variable with the name \"%s\"\n", [.str s]⟩]
  | some _ => some []

def typeStrOf (type : Int) : String :=
  if type = typeStr then "str "
  else if type = typeInt then "int "
  else if type = typeBool then "bool"
  else "?"

def VarEntry.valuePrint (ve : VarEntry) : Print :=
  if ve.type = typeStr then ⟨"\"%s\"", [.str ve.strVal]⟩
  else if ve.type = typeInt then ⟨"0x%x", [.word ve.intVal]⟩
  else if ve.type = typeBool then
    ⟨"%s", [.str (Kstdio.text (if ve.boolVal ≠ 0 then "true" else "false"))]⟩
  else ⟨"???", []⟩

def displayVarOutput (ve : VarEntry) : List Print :=
  [⟨"%s(%s)\t", [.str ve.name, .str (Kstdio.text (typeStrOf ve.type))]⟩, ve.valuePrint, ⟨"\n", []⟩]

def varsOutput (t : VarTable) : List Print :=
  (List.finRange tableLen).flatMap fun i => if (t i).used then displayVarOutput (t i) else []

/-- What a command prints, `none` when that is not known. -/
def Call.output (c : Call) (t : VarTable) : Option (List Print) :=
  match c.cmdFunc, c.args with
  | .lscmd, [] => some lscmdOutput
  | .help, [cmdName] => some (helpOutput cmdName)
  | .set, [_, _] => some []
  | .show, [varName] => showOutput t varName
  | .vars, [] => some (varsOutput t)
  | _, _ => none

/-! ### The loop of the shell -/

def errorOutput (first : Token) (code : Int) : List Print :=
  if code ≠ 0 then [⟨"command \"%s\" error\n", [.str first.str]⟩] else []

def shellOutput (t : VarTable) (buf : List UInt8) : Except ShellFault (Option (List Print)) :=
  match parserDo (some (lineOf buf)) with
  | .error e => .error (.lexer e)
  | .ok (.error errCode) =>
      .ok (some [⟨"syntax error: ", []⟩, ⟨"%s\n", [.str (Kstdio.text errCode.str)]⟩])
  | .ok (.ok vec) =>
      let first := vec.getD 0 .void
      if first.isEoi then .ok (some [])
      else if !first.isIdentifier then
        .ok (some [⟨"semantic error: ", []⟩, ⟨"first word must be an identifier\n", []⟩])
      else match getCmdEntry first.str with
        | none => .ok (some [⟨"no command \"%s\" found\n", [.str first.str]⟩])
        | some cte =>
            if cte.arity ≠ (parserDataLen vec + 0xffffffff) % 0x100000000 then
              .ok (some (⟨"command \"%s\" takes %d parameter(s)\n",
                [.str cte.name, .word (UInt32.ofNat cte.arity)]⟩ :: helpOutput first))
            else match callCmd cte.cmdFunc cte.arity vec with
              | none => .ok (some (errorOutput first 1))
              | some call => do
                  let (_, code) ← call.run t
                  return (call.output t).map fun prints => prints ++ errorOutput first code

/-! ### Where an entry comes from -/

/-- The line is `set` with a variable and a literal, and this is the entry that
it writes. -/
def WrittenBy (line : List UInt8) (r : VarEntry) : Prop :=
  ∃ (var : List UInt8) (z : Lexeme) (type : Int) (name : List UInt8),
    Split line [.identifier (chars "set"), .variable var, z] ∧ (Lexeme.variable var).Valid ∧
      z.Valid ∧ (Token.variable var).Names type name ∧ KindFits type z.token ∧
      ∃ vte : VarEntry, vte.used = true ∧ vte.name = name ∧ r = vte.setValue type z.token

theorem LineEffect.entry {line : List UInt8} {t t' : VarTable} (h : LineEffect line t t')
    (i : Fin tableLen) : t' i = t i ∨ WrittenBy line (t' i) := by
  rcases h with rfl | ⟨y, z, hsplit, hvalidy, hvalidz, hy, rfl⟩
  · exact .inl rfl
  rcases varSetEntry_cases t z.token hy with ⟨-, heq⟩ | ⟨-, type, name, j, r, hnames, hw, heq⟩
  · exact .inl (congrFun (congrArg Prod.fst heq) i)
  obtain ⟨var, rfl⟩ := exists_variable_of_names hnames
  rw [heq]
  dsimp only
  by_cases hij : i = j
  · rw [hij, Function.update_self]
    exact .inr ⟨var, z, type, name, hsplit, hvalidy, hvalidz, hnames, hw.kindFits, hw.value⟩
  · exact .inl (Function.update_of_ne hij _ _)

theorem writtenBy_of_run {bufs : List (List UInt8)} {t : VarTable}
    (hrun : shellSystem.Run bufs t) (i : Fin tableLen) (hi : (t i).used = true) :
    ∃ buf ∈ bufs, WrittenBy (lineOf buf) (t i) := by
  refine hrun.history (P := fun bufs t => ∀ i, (t i).used = true →
    ∃ buf ∈ bufs, WrittenBy (lineOf buf) (t i)) ?_ ?_ i hi
  · intro t hfree i hi
    rw [hfree i] at hi
    cases hi
  · rintro bufs t buf t' ih ⟨hbounds, o, ho, rfl⟩ i hi
    obtain ⟨o', ho', hfine⟩ := shellDo_spec t hbounds
    obtain rfl := Except.ok.inj (ho.symm.trans ho')
    rcases hfine.table.entry i with hsame | hwritten
    · rw [hsame] at hi ⊢
      obtain ⟨buf', hbuf', hw⟩ := ih i hi
      exact ⟨buf', List.mem_append_left _ hbuf', hw⟩
    · exact ⟨buf, List.mem_append_right _ (List.mem_singleton_self buf), hwritten⟩

section

variable {line : List UInt8} {r : VarEntry}

theorem setValue_name (vte : VarEntry) (type : Int) (val : Token) :
    (vte.setValue type val).name = vte.name := by
  unfold VarEntry.setValue
  split_ifs <;> rfl

theorem setValue_type (vte : VarEntry) (type : Int) (val : Token) :
    (vte.setValue type val).type = type := by
  unfold VarEntry.setValue
  split_ifs <;> rfl

theorem WrittenBy.type_cases (h : WrittenBy line r) :
    r.type = typeStr ∨ r.type = typeInt ∨ r.type = typeBool := by
  obtain ⟨var, z, type, name, -, -, -, hnames, -, vte, -, -, rfl⟩ := h
  rw [setValue_type]
  cases hnames with
  | str => exact .inl rfl
  | int => exact .inr (.inl rfl)
  | bool => exact .inr (.inr rfl)

theorem Names.eq_cons {var : List UInt8} {type : Int} {name : List UInt8}
    (h : (Token.variable var).Names type name) : ∃ c, var = c :: name := by
  cases h <;> exact ⟨_, rfl⟩

theorem WrittenBy.name_length (h : WrittenBy line r) : r.name.length < 15 := by
  obtain ⟨var, z, type, name, -, hvar, -, hnames, -, vte, -, rfl, rfl⟩ := h
  obtain ⟨c, rfl⟩ := Names.eq_cons hnames
  rw [setValue_name]
  exact hvar

theorem WrittenBy.strVal_length (h : WrittenBy line r) (hstr : r.type = typeStr) :
    r.strVal.length ≤ 15 := by
  obtain ⟨var, z, type, name, -, -, -, -, -, vte, -, -, rfl⟩ := h
  rw [setValue_type] at hstr
  rw [VarEntry.setValue, if_pos hstr]
  exact List.length_take_le _ _

end

/-! ### Every text fits the buffer -/

def Print.Fits (p : Print) : Prop := ∃ s, p.text = some s ∧ s.length < printBufSize

section

variable {t : VarTable}

theorem fits_of_plain {format : String} {args : List Arg}
    (hplain : ∃ s, plainText (Kstdio.text format) args = some s)
    (hroom : (Kstdio.text format).length + (args.map Arg.room).sum < printBufSize) :
    Print.Fits ⟨format, args⟩ := by
  rcases hplain with ⟨s, hs⟩
  exact ⟨s, kvsprintf_plainText hs, lt_of_le_of_lt (plainText_length_le hs) hroom⟩

/-- What the length of a name or of another string of the shell is bounded by. -/
def strRoom : Nat := 64

/-- A call with one string, between characters that stand for themselves. -/
theorem fits_str {format : String} {s : List UInt8}
    (hplain : ∃ s', plainText (Kstdio.text format) [.str s] = some s')
    (hformat : (Kstdio.text format).length ≤ strRoom) (hs : s.length ≤ strRoom) :
    Print.Fits ⟨format, [.str s]⟩ := by
  refine fits_of_plain hplain ?_
  have hroom : ([Arg.str s].map Arg.room).sum = s.length := rfl
  rw [hroom]
  rw [strRoom] at hformat hs
  rw [printBufSize]
  omega

theorem name_of_show {cte : CmdTableEntry} (h : cte ∈ cmdTable) (hshow : cte.cmdFunc = .show) :
    cte.name = chars "show" := by
  revert cte
  decide

theorem name_length {cte : CmdTableEntry} (h : cte ∈ cmdTable) : cte.name.length ≤ strRoom := by
  revert cte
  decide

theorem description_length (f : CmdFunc) : (Kstdio.text f.description).length ≤ strRoom := by
  cases f <;> decide

theorem usage_length (f : CmdFunc) : (Kstdio.text f.usage).length ≤ strRoom := by
  cases f <;> decide

theorem lscmdOutput_fits : ∀ p ∈ lscmdOutput, p.Fits := by
  intro p hp
  obtain ⟨cte, hcte, hp⟩ := List.mem_flatMap.mp hp
  obtain rfl := List.mem_singleton.mp hp
  exact fits_str ⟨_, rfl⟩ (by decide) (name_length hcte)

theorem helpOutput_fits {cmdName : Token} (hname : cmdName.str.length ≤ strRoom) :
    ∀ p ∈ helpOutput cmdName, p.Fits := by
  intro p hp
  unfold helpOutput at hp
  split at hp
  · obtain rfl := List.mem_singleton.mp hp
    exact fits_of_plain ⟨_, rfl⟩ (by decide)
  split at hp
  · obtain rfl := List.mem_singleton.mp hp
    exact fits_str ⟨_, rfl⟩ (by decide) hname
  · next cte hcte =>
    have hmem := (mem_of_getCmdEntry hcte).1
    simp only [List.mem_cons, List.not_mem_nil, or_false] at hp
    rcases hp with rfl | rfl | rfl
    · exact fits_str ⟨_, rfl⟩ (by decide) (name_length hmem)
    · exact fits_str ⟨_, rfl⟩ (by decide) (description_length _)
    · exact fits_str ⟨_, rfl⟩ (by decide) (usage_length _)

theorem typeStrOf_length (type : Int) : (Kstdio.text (typeStrOf type)).length ≤ 4 := by
  unfold typeStrOf
  split_ifs <;> decide

theorem displayVarOutput_fits {line : List UInt8} {ve : VarEntry} (h : WrittenBy line ve) :
    ∀ p ∈ displayVarOutput ve, p.Fits := by
  intro p hp
  simp only [displayVarOutput, List.mem_cons, List.not_mem_nil, or_false] at hp
  rcases hp with rfl | rfl | rfl
  · refine fits_of_plain ⟨_, rfl⟩ ?_
    have hname := h.name_length
    have htype := typeStrOf_length ve.type
    have hroom : ([Arg.str ve.name, Arg.str (Kstdio.text (typeStrOf ve.type))].map Arg.room).sum =
        ve.name.length + ((Kstdio.text (typeStrOf ve.type)).length + 0) := rfl
    have hformat : (Kstdio.text "%s(%s)\t").length = 7 := by decide
    rw [hroom, hformat, printBufSize]
    omega
  · unfold VarEntry.valuePrint
    by_cases hstr : ve.type = typeStr
    · rw [if_pos hstr]
      exact fits_str ⟨_, rfl⟩ (by decide) (Nat.le_trans (h.strVal_length hstr) (by decide))
    rw [if_neg hstr]
    by_cases hint : ve.type = typeInt
    · rw [if_pos hint]
      have hroom : (Kstdio.text "0x%x").length + (11 + 0) < printBufSize := by decide
      exact fits_of_plain ⟨_, rfl⟩ hroom
    rw [if_neg hint]
    by_cases hbool : ve.type = typeBool
    · rw [if_pos hbool]
      refine fits_str ⟨_, rfl⟩ (by decide) ?_
      split <;> decide
    · rw [if_neg hbool]
      exact fits_of_plain ⟨_, rfl⟩ (by decide)
  · exact fits_of_plain ⟨_, rfl⟩ (by decide)

theorem varsOutput_fits {bufs : List (List UInt8)} (hrun : shellSystem.Run bufs t) :
    ∀ p ∈ varsOutput t, p.Fits := by
  intro p hp
  obtain ⟨i, -, hp⟩ := List.mem_flatMap.mp hp
  split at hp
  · next hused =>
    obtain ⟨buf, -, hwritten⟩ := writtenBy_of_run hrun i hused
    exact displayVarOutput_fits hwritten p hp
  · cases hp

theorem cString_length {x : Lexeme} (hx : x.Valid) {s : List UInt8}
    (hs : x.token.cString = some s) : s.length ≤ strRoom := by
  have hfifteen : 15 ≤ strRoom := by decide
  cases x with
  | identifier text => rw [← Option.some.inj hs]; exact Nat.le_trans hx hfifteen
  | «variable» text => rw [← Option.some.inj hs]; exact Nat.le_trans hx hfifteen
  | string inside => rw [← Option.some.inj hs]; exact Nat.le_trans hx hfifteen
  | number text =>
      rw [Lexeme.token, Token.cString] at hs
      split at hs
      · rw [← Option.some.inj hs]
        have hle := (List.takeWhile_prefix (l := numberBytes (UInt32.ofNat
          (Lexeme.numberValue text))) (· != 0)).length_le
        exact Nat.le_trans hle (by decide : 4 ≤ strRoom)
      · cases hs
  | unknown text => exact hx.elim

theorem str_length {x : Lexeme} (hx : x.Valid) : x.token.str.length ≤ strRoom := by
  have hfifteen : 15 ≤ strRoom := by decide
  cases x with
  | identifier text => exact Nat.le_trans hx hfifteen
  | «variable» text => exact Nat.le_trans hx hfifteen
  | string inside => exact Nat.le_trans hx hfifteen
  | number text => exact Nat.zero_le _
  | unknown text => exact hx.elim

theorem errorOutput_fits {first : Token} (hname : first.str.length ≤ strRoom) (code : Int) :
    ∀ p ∈ errorOutput first code, p.Fits := by
  intro p hp
  unfold errorOutput at hp
  split at hp
  · obtain rfl := List.mem_singleton.mp hp
    exact fits_str ⟨_, rfl⟩ (by decide) hname
  · cases hp

theorem syntaxError_fits (errCode : ErrCode) :
    ∀ p ∈ ([⟨"syntax error: ", []⟩, ⟨"%s\n", [.str (Kstdio.text errCode.str)]⟩] : List Print),
      p.Fits := by
  have hmessage : (Kstdio.text errCode.str).length ≤ strRoom := by cases errCode <;> decide
  intro p hp
  rcases List.mem_pair.mp hp with rfl | rfl
  · exact fits_of_plain ⟨_, rfl⟩ (by decide)
  · exact fits_str ⟨_, rfl⟩ (by decide) hmessage

theorem semanticError_fits :
    ∀ p ∈ ([⟨"semantic error: ", []⟩, ⟨"first word must be an identifier\n", []⟩] : List Print),
      p.Fits := by
  intro p hp
  rcases List.mem_pair.mp hp with rfl | rfl <;> exact fits_of_plain ⟨_, rfl⟩ (by decide)

theorem arityError_fits {cte : CmdTableEntry} (hmem : cte ∈ cmdTable) :
    Print.Fits ⟨"command \"%s\" takes %d parameter(s)\n",
      [.str cte.name, .word (UInt32.ofNat cte.arity)]⟩ := by
  refine fits_of_plain ⟨_, rfl⟩ ?_
  have hlength := name_length hmem
  have hroom : ([Arg.str cte.name, .word (UInt32.ofNat cte.arity)].map Arg.room).sum =
      cte.name.length + (11 + 0) := rfl
  have hformat : (Kstdio.text "command \"%s\" takes %d parameter(s)\n").length ≤ strRoom := by
    decide
  rw [strRoom] at hformat hlength
  rw [hroom, printBufSize]
  omega

def UnknownShow (line : List UInt8) : Prop :=
  ∃ text, Split line [.identifier (chars "show"), .number text] ∧
    (Lexeme.number text).Valid ∧ 0 ∉ numberBytes (UInt32.ofNat (Lexeme.numberValue text))

/-- The commands that print what the drive holds. -/
def driveCommands : List (List UInt8) := [chars "ataid", chars "mbr", chars "vid", chars "ls"]

def DriveCommand (line : List UInt8) : Prop :=
  ∃ name ∈ driveCommands, Split line [.identifier name]

def CmdFunc.ofDrive : CmdFunc → Bool
  | .ataid | .mbr | .vid | .ls => true
  | _ => false

theorem name_of_drive {cte : CmdTableEntry} (h : cte ∈ cmdTable)
    (hdrive : cte.cmdFunc.ofDrive = true) : cte.name ∈ driveCommands := by
  revert cte
  decide

theorem showOutput_eq_none {x : Lexeme} (hx : x.Valid) (h : showOutput t x.token = none) :
    ∃ text, x = .number text ∧ 0 ∉ numberBytes (UInt32.ofNat (Lexeme.numberValue text)) := by
  unfold showOutput at h
  split at h
  · have hnone := Option.map_eq_none_iff.mp h
    cases x with
    | number text =>
        refine ⟨text, rfl, fun hmem => ?_⟩
        rw [Lexeme.token, Token.cString, if_pos hmem] at hnone
        cases hnone
    | unknown text => exact hx.elim
    | _ => cases hnone
  · cases h

theorem showOutput_fits {x : Lexeme} (hx : x.Valid) {prints : List Print}
    (h : showOutput t x.token = some prints) : ∀ p ∈ prints, p.Fits := by
  intro p hp
  unfold showOutput at h
  split at h
  · obtain ⟨s, hs, rfl⟩ := Option.map_eq_some_iff.mp h
    obtain rfl := List.mem_singleton.mp hp
    exact fits_str ⟨_, rfl⟩ (by decide) (cString_length hx hs)
  · rw [← Option.some.inj h] at hp
    cases hp

/-- Texts that are known and fit. -/
theorem fits_of_known {unknown : Prop} {prints : List Print} (h : ∀ p ∈ prints, p.Fits) :
    (some prints = none → unknown) ∧
      ∀ prints', some prints = some prints' → ∀ p ∈ prints', p.Fits :=
  ⟨fun hnone => (Option.some_ne_none _ hnone).elim, fun _ hsome => Option.some.inj hsome ▸ h⟩

theorem callOutput_spec {bufs : List (List UInt8)} (hrun : shellSystem.Run bufs t)
    {cmdFunc : CmdFunc} {rest : List Lexeme} (harity : rest.length = cmdFunc.arity)
    (hvalid : ∀ x ∈ rest, x.Valid) :
    (Call.output ⟨cmdFunc, rest.map Lexeme.token⟩ t = none →
      (cmdFunc = .show ∧ ∃ text, rest = [.number text] ∧
        0 ∉ numberBytes (UInt32.ofNat (Lexeme.numberValue text))) ∨
      cmdFunc.ofDrive = true ∧ rest = []) ∧
    ∀ prints, Call.output ⟨cmdFunc, rest.map Lexeme.token⟩ t = some prints →
      ∀ p ∈ prints, p.Fits := by
  cases cmdFunc with
  | lscmd =>
      obtain rfl := List.eq_nil_of_length_eq_zero harity
      exact fits_of_known lscmdOutput_fits
  | help =>
      obtain ⟨x, rfl⟩ := List.length_eq_one_iff.mp harity
      exact fits_of_known (helpOutput_fits (str_length (hvalid x (List.mem_singleton_self x))))
  | set =>
      obtain ⟨x, y, rfl⟩ := List.length_eq_two.mp harity
      exact fits_of_known (List.forall_mem_nil _)
  | «show» =>
      obtain ⟨x, rfl⟩ := List.length_eq_one_iff.mp harity
      have hx := hvalid x (List.mem_singleton_self x)
      refine ⟨fun h => .inl ⟨rfl, ?_⟩, fun prints h => showOutput_fits hx h⟩
      obtain ⟨text, rfl, hbytes⟩ := showOutput_eq_none hx h
      exact ⟨text, rfl, hbytes⟩
  | vars =>
      obtain rfl := List.eq_nil_of_length_eq_zero harity
      exact fits_of_known (varsOutput_fits hrun)
  | _ =>
      obtain rfl := List.eq_nil_of_length_eq_zero harity
      exact ⟨fun _ => .inr ⟨rfl, rfl⟩, fun prints h => absurd h (Option.some_ne_none prints).symm⟩

theorem parserDo_of_split {line : List UInt8} {lxs : List Lexeme} (hnul : 0 ∉ line)
    (hsplit : Split line lxs) (hlen : lxs.length ≤ 3) (hvalid : ∀ x ∈ lxs, x.Valid) :
    parserDo (some line) = .ok (.ok (syntaxVec lxs)) :=
  (parserLoop_split syntaxVecLen [] (lexerInit line) .void lxs rfl hnul hsplit).1
    (Nat.lt_succ_of_le hlen) hvalid

theorem shellOutput_call {buf text : List UInt8} {rest : List Lexeme}
    (hsplit : Split (lineOf buf) (.identifier text :: rest)) (hlen : rest.length ≤ 2)
    (hvalid : ∀ x ∈ Lexeme.identifier text :: rest, x.Valid) {cte : CmdTableEntry}
    (hcte : getCmdEntry text = some cte) (harity : cte.arity = rest.length) :
    ∃ code, shellOutput t buf = .ok ((Call.output ⟨cte.cmdFunc, rest.map Lexeme.token⟩ t).map
      fun prints => prints ++ errorOutput (.identifier text) code) := by
  have hnul := nul_notMem_lineOf buf
  have hthree := Nat.succ_le_succ hlen
  obtain ⟨t', code, hcall, -⟩ := fine_of_call hnul hsplit hvalid hcte harity t
  have hfirst : (syntaxVec (Lexeme.identifier text :: rest)).getD 0 .void = .identifier text := rfl
  have hstr : (Token.identifier text).str = text := rfl
  refine ⟨code, ?_⟩
  unfold shellOutput
  rw [parserDo_of_split hnul hsplit hthree hvalid]
  dsimp only
  rw [hfirst, hstr, hcte, syntaxVec_args hthree hvalid]
  dsimp only
  rw [if_neg (not_not.mpr harity), harity, callCmd_syntaxVec cte.cmdFunc _ hlen]
  dsimp only
  rw [hcall]
  rfl

theorem getCmdEntry_show : getCmdEntry (chars "show") = some ⟨chars "show", 1, .show⟩ := by decide

theorem shellOutput_unknownShow {buf : List UInt8} (h : UnknownShow (lineOf buf)) :
    shellOutput t buf = .ok none := by
  rcases h with ⟨text, hsplit, hvalid, hbytes⟩
  have hall : ∀ x ∈ [Lexeme.identifier (chars "show"), .number text], x.Valid := by
    simp only [List.forall_mem_cons, List.not_mem_nil, false_implies, implies_true, and_true]
    exact ⟨(by decide : (chars "show").length ≤ 15), hvalid⟩
  have hshow : Call.output ⟨.show, [(Lexeme.number text).token]⟩ t = none := by
    have hstr : (Lexeme.number text).token.cString = none := if_neg hbytes
    have hget : varGetEntry t (Lexeme.number text).token = none := rfl
    change showOutput t (Lexeme.number text).token = none
    unfold showOutput
    rw [hget, hstr]
    rfl
  obtain ⟨code, hcode⟩ := shellOutput_call hsplit (Nat.le_succ 1) hall getCmdEntry_show rfl
  rw [hcode, List.map_singleton, hshow]
  rfl

theorem ofDrive_of_mem {name : List UInt8} (h : name ∈ driveCommands) :
    ∃ cte, getCmdEntry name = some cte ∧ cte.cmdFunc.ofDrive = true ∧ cte.arity = 0 ∧
      name.length ≤ 15 := by
  simp only [driveCommands, List.mem_cons, List.not_mem_nil, or_false] at h
  rcases h with rfl | rfl | rfl | rfl <;> exact ⟨_, rfl, rfl, rfl, by decide⟩

theorem shellOutput_driveCommand {buf : List UInt8} (h : DriveCommand (lineOf buf)) :
    shellOutput t buf = .ok none := by
  obtain ⟨name, hname, hsplit⟩ := h
  obtain ⟨cte, hcte, hdrive, harity, hlen⟩ := ofDrive_of_mem hname
  have hnone : Call.output ⟨cte.cmdFunc, []⟩ t = none := by
    cases hfunc : cte.cmdFunc with
    | lscmd | help | set | «show» | vars => rw [hfunc] at hdrive; cases hdrive
    | ataid | mbr | vid | ls => rfl
  obtain ⟨code, hcode⟩ := shellOutput_call hsplit (Nat.zero_le 2)
    (List.forall_mem_singleton.mpr hlen) hcte harity
  rw [hcode, List.map_nil, hnone]
  rfl

/-- In every run of lines that the lexer stays within, what is printed for one
more such line is known unless it is `show` with a number none of whose four
bytes is zero, or one of the four commands that print what the drive holds; and
then every call of `kprintf` finds the arguments that its format takes and
leaves a text that fits the buffer. -/
theorem shellOutput_fits {bufs : List (List UInt8)} (hrun : shellSystem.Run bufs t)
    {buf : List UInt8} (hbounds : ScansClosed syntaxVecLen (lineOf buf)) :
    ∃ r, shellOutput t buf = .ok r ∧
      (r = none ↔ UnknownShow (lineOf buf) ∨ DriveCommand (lineOf buf)) ∧
      ∀ prints, r = some prints → ∀ p ∈ prints, p.Fits := by
  have hnul := nul_notMem_lineOf buf
  suffices h : ∃ r, shellOutput t buf = .ok r ∧
      (r = none → UnknownShow (lineOf buf) ∨ DriveCommand (lineOf buf)) ∧
      ∀ prints, r = some prints → ∀ p ∈ prints, p.Fits by
    obtain ⟨r, hr, hnone, hfits⟩ := h
    refine ⟨r, hr, ⟨hnone, fun hunknown => ?_⟩, hfits⟩
    rcases hunknown with hshow | hdrive
    · exact Except.ok.inj (hr.symm.trans (shellOutput_unknownShow hshow))
    · exact Except.ok.inj (hr.symm.trans (shellOutput_driveCommand hdrive))
  obtain ⟨r, hr⟩ : ∃ r, parserDo (some (lineOf buf)) = .ok r :=
    (parserLoop_isOk_iff syntaxVecLen 0 (lexerInit (lineOf buf)) .void _ rfl hnul).mpr hbounds
  cases r with
  | error errCode =>
      rw [shellOutput, hr]
      exact ⟨_, rfl, fits_of_known (syntaxError_fits errCode)⟩
  | ok vec =>
  obtain ⟨lxs, hsplit, hlen, hvalid, rfl⟩ := split_of_parserDo hnul hr
  cases lxs with
  | nil =>
      rw [shellOutput, hr]
      exact ⟨_, rfl, fits_of_known (List.forall_mem_nil _)⟩
  | cons x rest =>
  have hx := hvalid x List.mem_cons_self
  have hrest : rest.length ≤ 2 := Nat.le_of_succ_le_succ hlen
  have hfirst : (syntaxVec (x :: rest)).getD 0 .void = x.token := rfl
  cases hident : x.token.isIdentifier with
  | false =>
      rw [shellOutput, hr]
      dsimp only
      rw [hfirst, hx.token_kind.2.2, hident]
      exact ⟨_, rfl, fits_of_known semanticError_fits⟩
  | true =>
  obtain ⟨text, rfl⟩ := isIdentifier_token hident
  have hname := str_length hx
  have hstr : (Lexeme.identifier text).token.str = text := rfl
  cases hcte : getCmdEntry text with
  | none =>
      rw [shellOutput, hr]
      dsimp only
      rw [hfirst, hx.token_kind.2.2, hident, hstr, hcte]
      exact ⟨_, rfl, fits_of_known (List.forall_mem_singleton.mpr
        (fits_str ⟨_, rfl⟩ (by decide) hname))⟩
  | some cte =>
  obtain ⟨hmem, hcmd⟩ := mem_of_getCmdEntry hcte
  by_cases harity : cte.arity = rest.length
  · have hfunc : rest.length = cte.cmdFunc.arity := by rw [← harity, arity_of_mem hmem]
    obtain ⟨code, hcode⟩ := shellOutput_call hsplit hrest hvalid hcte harity
    obtain ⟨hnone, hfits⟩ := callOutput_spec hrun hfunc (List.forall_mem_cons.mp hvalid).2
    refine ⟨_, hcode, fun h => ?_, fun prints h p hp => ?_⟩
    · rcases hnone (Option.map_eq_none_iff.mp h) with ⟨hshow, arg, rfl, hbytes⟩ | ⟨hdrive, rfl⟩
      · have htext : text = chars "show" := hcmd.symm.trans (name_of_show hmem hshow)
        rw [htext] at hsplit hvalid
        exact .inl ⟨arg, hsplit, hvalid _ (List.mem_cons_of_mem _ List.mem_cons_self), hbytes⟩
      · exact .inr ⟨text, hcmd ▸ name_of_drive hmem hdrive, hsplit⟩
    · obtain ⟨prints', hprints', rfl⟩ := Option.map_eq_some_iff.mp h
      rcases List.mem_append.mp hp with hp | hp
      · exact hfits prints' hprints' p hp
      · exact errorOutput_fits hname code p hp
  · rw [shellOutput, hr]
    dsimp only
    rw [hfirst, hx.token_kind.2.2, hident, hstr, hcte, syntaxVec_args hlen hvalid]
    dsimp only
    rw [if_neg Bool.false_ne_true, Bool.not_true, if_neg Bool.false_ne_true, if_pos harity]
    exact ⟨_, rfl, fits_of_known (List.forall_mem_cons.mpr
      ⟨arityError_fits hmem, helpOutput_fits hname⟩)⟩

end

/-- `show 999999999`, a number without a zero byte, as the first line. -/
theorem shellOutput_fits_show :
    ∃ r, shellOutput (fun _ => ⟨[], false, 0, 0, [], 0⟩) (chars "show 999999999") = .ok r ∧
      (r = none ↔ UnknownShow (lineOf (chars "show 999999999")) ∨
        DriveCommand (lineOf (chars "show 999999999"))) ∧
      ∀ prints, r = some prints → ∀ p ∈ prints, p.Fits := by
  have hrun : shellSystem.Run [] (fun _ => ⟨[], false, 0, 0, [], 0⟩) := .init fun _ => rfl
  exact shellOutput_fits hrun (by decide)

end Kboot86.Sh
