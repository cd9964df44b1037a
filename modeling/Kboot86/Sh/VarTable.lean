import Kboot86.Foundation.Slots
import Kboot86.Foundation.Transition
import Kboot86.Lib.String
import Kboot86.Sh.Bounds

/-!
# The variables of the shell

`var_table.c`: a table of eight entries in which strings, numbers and booleans
have name spaces of their own. An entry is found by its type and name; a new
one is the first that is not used, marked as used before it is filled.
-/

namespace Kboot86.Sh

def tableLen : Nat := 8

def varNameStrLenMax : Nat := tokenStrLenMax

def varValStrLenMax : Nat := 15

def typeStr : Int := 1

def typeInt : Int := 2

def typeBool : Int := 4

/-- An entry, `var_entry_t`. The boolean is the byte that is stored for it. -/
structure VarEntry where
  name : List UInt8
  used : Bool
  type : Int
  intVal : UInt32
  strVal : List UInt8
  boolVal : UInt8
deriving DecidableEq

abbrev VarTable := Fin tableLen → VarEntry

def initEntry (vte : VarEntry) : VarEntry := { vte with used := false }

def varTableInit (t : VarTable) : VarTable := fun i => initEntry (t i)

def getEntry (t : VarTable) (name : List UInt8) (type : Int) : Option (Fin tableLen) :=
  (List.finRange tableLen).find? fun i =>
    (t i).used && type == (t i).type && strcmp (t i).name name == 0

def getFreeEntry (t : VarTable) : VarTable × Option (Fin tableLen) :=
  match (List.finRange tableLen).find? fun i => !(t i).used with
  | some i => (Function.update t i { t i with used := true }, some i)
  | none => (t, none)

/-- The type that the sigil of a variable tells, `none` for -1. -/
def getVariableTokenType (varName : List UInt8) : Option Int :=
  if curChar varName = sigilStrVar then some typeStr
  else if curChar varName = sigilIntVar then some typeInt
  else if curChar varName = sigilBoolVar then some typeBool
  else none

def VarEntry.setName (vte : VarEntry) (name : List UInt8) : VarEntry :=
  { vte with name := name.take varNameStrLenMax }

def Token.str : Token → List UInt8
  | .identifier str => str
  | .variable str => str
  | .lstring str => str
  | _ => []

def Token.integer : Token → UInt32
  | .luinteger integer => integer
  | _ => 0

/-- The type and the value, by the type. A boolean takes the low byte of the
number, the one that the member of the union lies on. -/
def VarEntry.setValue (vte : VarEntry) (type : Int) (val : Token) : VarEntry :=
  if type = typeStr then { vte with type := type, strVal := val.str.take varValStrLenMax }
  else if type = typeInt then { vte with type := type, intVal := val.integer }
  else if type = typeBool then { vte with type := type, boolVal := val.integer.toUInt8 }
  else { vte with type := type }

def valueFits (type : Int) (val : Token) : Bool :=
  if type = typeStr then val.isLstring
  else if type = typeInt ∨ type = typeBool then val.isLuinteger
  else true

def varSetEntry (t : VarTable) (varName val : Token) : VarTable × Int :=
  match varName with
  | .variable str =>
      match getVariableTokenType str with
      | none => (t, 1)
      | some type =>
          if !valueFits type val then (t, 1)
          else match getEntry t str.tail type with
            | some i => (Function.update t i ((t i).setValue type val), 0)
            | none =>
                match getFreeEntry t with
                | (t, none) => (t, 1)
                | (t, some i) =>
                    (Function.update t i (((t i).setName str.tail).setValue type val), 0)
  | _ => (t, 1)

def varGetEntry (t : VarTable) (varName : Token) : Option (Fin tableLen) :=
  match varName with
  | .variable str =>
      match getVariableTokenType str with
      | none => none
      | some type => getEntry t str.tail type
  | _ => none

def varSystem : System VarTable (Token × Token) where
  init t := ∃ t₀, t = varTableInit t₀
  step t op t' := t' = (varSetEntry t op.1 op.2).1

/-! ### The tokens of the lexer -/

/-- What the lexer can have come to on a line. -/
inductive LexerReaches (line : List UInt8) : Lexer → Prop
  | init : LexerReaches line (lexerInit line)
  | process {lx lx' : Lexer} :
      LexerReaches line lx → lexerProcess lx = .ok lx' → LexerReaches line lx'
  | getToken {lx : Lexer} : LexerReaches line lx → LexerReaches line (lexerGetToken lx).2

def FromLexer (token : Token) : Prop :=
  ∃ line lx, 0 ∉ line ∧ LexerReaches line lx ∧ lx.token = token

/-- The texts of a token fit its buffer and hold no NUL, and a variable starts
with a sigil. -/
def Token.WellFormed : Token → Prop
  | .identifier str => str.length ≤ 15 ∧ 0 ∉ str
  | .variable str => str.length ≤ 15 ∧ 0 ∉ str ∧
      (curChar str = sigilStrVar ∨ curChar str = sigilIntVar ∨ curChar str = sigilBoolVar)
  | .lstring str => str.length ≤ 15 ∧ 0 ∉ str
  | _ => True

theorem setStrlex_wellFormed {set : List UInt8 → Token} {lexeme : List UInt8}
    (h : lexeme.length ≤ 15 → (set lexeme).WellFormed) : (setStrlex set lexeme).WellFormed := by
  rw [setStrlex, tokenStrLenMax]
  split
  · trivial
  · exact h (by omega)

theorem setLuintegerLoop_wellFormed (base : UInt32) (converter : UInt8 → Option UInt32) :
    ∀ (l : List UInt8) (number factor : UInt32),
      (setLuintegerLoop base converter l number factor).WellFormed
  | [], _, _ => trivial
  | c :: rest, number, factor => by
      rw [setLuintegerLoop]
      cases converter c with
      | none => trivial
      | some digit => exact setLuintegerLoop_wellFormed base converter rest _ _

theorem setLuinteger_wellFormed (lenMax : Nat) (base : UInt32)
    (converter : UInt8 → Option UInt32) (lexeme : List UInt8) :
    (setLuinteger lenMax base converter lexeme).WellFormed := by
  rw [setLuinteger]
  split
  · trivial
  · exact setLuintegerLoop_wellFormed base converter _ _ _

theorem munch_wellFormed {s : List UInt8} (hnul : 0 ∉ s) : (munch s).1.WellFormed := by
  cases s with
  | nil => trivial
  | cons c rest =>
      have hrun : ∀ p, 0 ∉ c :: rest.takeWhile p := fun p h => by
        rcases List.mem_cons.mp h with h | h
        · exact hnul (h ▸ List.mem_cons_self)
        · exact hnul (List.mem_cons_of_mem c ((List.takeWhile_prefix p).subset h))
      rw [munch]
      split
      next hsigil => exact setStrlex_wellFormed fun hlen => ⟨hlen, hrun _, hsigil⟩
      split
      · exact setStrlex_wellFormed fun hlen =>
          ⟨hlen, fun h => hrun _ (List.mem_cons_of_mem c h)⟩
      split
      · exact setStrlex_wellFormed fun hlen => ⟨hlen, hrun _⟩
      split
      · rw [munchNumber]
        split
        · split
          · split
            · trivial
            · exact setLuinteger_wellFormed _ _ _ _
          · exact setLuinteger_wellFormed _ _ _ _
        · exact setLuinteger_wellFormed _ _ _ _
      · trivial

/-- The lexer goes on within the line, and its token is well formed. -/
theorem LexerReaches.spec {line : List UInt8} (hnul : 0 ∉ line) {lx : Lexer}
    (h : LexerReaches line lx) : 0 ∉ lx.forward ∧ lx.token.WellFormed := by
  induction h with
  | init => exact ⟨hnul, trivial⟩
  | getToken _ ih => exact ih
  | @process lx lx' _ hlx ih =>
      cases heoi : lx.eoiReached with
      | true =>
          rw [lexerProcess, heoi] at hlx
          obtain rfl := Except.ok.inj hlx
          exact ih
      | false =>
          have hdrop : 0 ∉ lx.forward.dropWhile charIsSkippable :=
            fun h => ih.1 ((List.dropWhile_suffix _).subset h)
          rw [lexerProcess_eq heoi ih.1] at hlx
          split at hlx
          · obtain rfl := Except.ok.inj hlx
            exact ⟨fun h => hdrop ((munch_suffix _).subset h), munch_wellFormed hdrop⟩
          · cases hlx

theorem FromLexer.wellFormed {token : Token} (h : FromLexer token) : token.WellFormed := by
  rcases h with ⟨line, lx, hnul, hreach, rfl⟩
  exact (hreach.spec hnul).2

end Kboot86.Sh
