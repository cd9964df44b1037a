import Kboot86.Sh.Accept
import Kboot86.Sh.Shell
import Kboot86.Sh.VarMap

/-!
# What a line does

The shell changes the table of variables only on a line that sets a variable,
and then only the entry of this variable. A function is called with as many
tokens as its entry in the table of commands tells, all of which come from the
line.
-/

namespace Kboot86.Sh

def Lexeme.IsValue (type : Int) : Lexeme → Prop
  | .string _ => type = typeStr
  | .number _ => type = typeInt ∨ type = typeBool
  | _ => False

/-- The line is the word `set`, the variable of this type and name and a literal
of the kind that its sigil takes. -/
def SetLine (line : List UInt8) (type : Int) (name : List UInt8) : Prop :=
  ∃ var lit, Split line [.identifier (chars "set"), .variable var, lit] ∧
    (Lexeme.variable var).Valid ∧ (Token.variable var).Names type name ∧
    lit.Valid ∧ lit.IsValue type

/-- At most one entry is changed, that with the key or one that was free and now
has it. -/
def ChangesOnly (t t' : VarTable) (k : Int × List UInt8) : Prop :=
  ∃ i r, t' = Function.update t i r ∧ r.key = some k ∧
    ((t i).key = some k ∨ (t i).used = false)

/-- The call passes as many tokens as the table of commands tells, and each of
them is a token of the line. -/
def Call.Good (call : Call) : Prop :=
  (∃ cte ∈ cmdTable, cte.cmdFunc = call.cmdFunc ∧ call.args.length = cte.arity) ∧
    ∀ a ∈ call.args, a.isVoid = false ∧ a.isError = false ∧ a.isUnknown = false ∧ a.isEoi = false

/-! ### The table of commands -/

theorem arity_of_mem {cte : CmdTableEntry} (h : cte ∈ cmdTable) :
    cte.arity = cte.cmdFunc.arity := by
  revert cte
  decide

theorem name_of_set {cte : CmdTableEntry} (h : cte ∈ cmdTable) (hset : cte.cmdFunc = .set) :
    cte.name = chars "set" := by
  revert cte
  decide

theorem mem_of_getCmdEntry {name : List UInt8} {cte : CmdTableEntry}
    (h : getCmdEntry name = some cte) : cte ∈ cmdTable ∧ cte.name = name := by
  have hname := List.find?_some h
  rw [beq_iff_eq, strcmp_eq_zero_iff] at hname
  exact ⟨List.mem_of_find?_eq_some h, hname.symm⟩

/-! ### Calls -/

theorem cmdSet_table (varName value : Token) (t : VarTable) :
    (cmdSet varName value t).1 = (varSetEntry t varName value).1 := by
  rw [cmdSet]
  dsimp only
  split
  · rfl
  · rfl

theorem cmdHelp_table (cmdName : Token) (t : VarTable) : (cmdHelp cmdName t).1 = t := by
  rw [cmdHelp]
  split
  · rfl
  split
  · rfl
  · rfl

theorem cmdShow_table (varName : Token) (t : VarTable) : (cmdShow varName t).1 = t := by
  rw [cmdShow]
  split
  · rfl
  · rfl

/-- With as many arguments as it has parameters a function returns, and only
`set` can change the table. -/
theorem Call.run_of_arity {c : Call} (h : c.args.length = c.cmdFunc.arity) (t : VarTable) :
    ∃ t' code, c.run t = .ok (t', code) ∧
      (t' = t ∨ ∃ varName value, c = ⟨.set, [varName, value]⟩ ∧
        t' = (varSetEntry t varName value).1) := by
  rcases c with ⟨cmdFunc, args⟩
  cases cmdFunc with
  | set =>
      obtain ⟨varName, value, rfl⟩ := List.length_eq_two.mp h
      exact ⟨_, _, rfl, .inr ⟨varName, value, rfl, cmdSet_table varName value t⟩⟩
  | help =>
      obtain ⟨cmdName, rfl⟩ := List.length_eq_one_iff.mp h
      exact ⟨_, _, rfl, .inl (cmdHelp_table cmdName t)⟩
  | «show» =>
      obtain ⟨varName, rfl⟩ := List.length_eq_one_iff.mp h
      exact ⟨_, _, rfl, .inl (cmdShow_table varName t)⟩
  | _ =>
      obtain rfl := List.eq_nil_of_length_eq_zero h
      exact ⟨t, _, rfl, .inl rfl⟩

theorem Lexeme.Valid.token_not_void {x : Lexeme} (h : x.Valid) : x.token.isVoid = false := by
  cases x with
  | unknown text => exact h.elim
  | _ => rfl

theorem good_of_valid {cte : CmdTableEntry} (hcte : cte ∈ cmdTable) {lxs : List Lexeme}
    (hlen : lxs.length = cte.arity) (hvalid : ∀ x ∈ lxs, x.Valid) :
    Call.Good ⟨cte.cmdFunc, lxs.map Lexeme.token⟩ := by
  refine ⟨⟨cte, hcte, rfl, by rw [List.length_map, hlen]⟩, fun a ha => ?_⟩
  obtain ⟨x, hx, rfl⟩ := List.mem_map.mp ha
  exact ⟨(hvalid x hx).token_not_void, (hvalid x hx).token_kind⟩

theorem callCmd_syntaxVec (cmdFunc : CmdFunc) (x : Lexeme) {rest : List Lexeme}
    (hlen : rest.length ≤ 2) :
    callCmd cmdFunc rest.length (syntaxVec (x :: rest)) =
      some ⟨cmdFunc, rest.map Lexeme.token⟩ := by
  cases rest with
  | nil => rfl
  | cons y rest =>
      cases rest with
      | nil => rfl
      | cons z rest =>
          obtain rfl : rest = [] := by
            rw [List.length_cons, List.length_cons] at hlen
            exact List.eq_nil_of_length_eq_zero (by omega)
          rfl

/-! ### The line -/

theorem Split.wellFormed {line : List UInt8} {lxs : List Lexeme} (h : Split line lxs)
    (hnul : 0 ∉ line) (hvalid : ∀ x ∈ lxs, x.Valid) : ∀ x ∈ lxs, x.token.WellFormed := by
  induction h with
  | nil _ => exact fun x hx => by cases hx
  | @cons gap rest x lxs _ hx _ ih =>
      have hnul' : 0 ∉ x.text ++ rest := fun h => hnul (List.mem_append_right _ h)
      have hrest := ih (fun h => hnul' (List.mem_append_right _ h)) fun y hy =>
        hvalid y (List.mem_cons_of_mem _ hy)
      obtain ⟨tok, hmunch, htok, -⟩ := munch_lexeme hx
      have hwf := munch_wellFormed hnul'
      rw [hmunch, htok (hvalid x List.mem_cons_self)] at hwf
      exact List.forall_mem_cons.mpr ⟨hwf, hrest⟩

theorem nul_notMem_lineOf (buf : List UInt8) : 0 ∉ lineOf buf := by
  intro h
  have hne := List.mem_takeWhile_imp h
  rw [bne_self_eq_false] at hne
  cases hne

def LineEffect (line : List UInt8) (t t' : VarTable) : Prop :=
  t' = t ∨ ∃ y z : Lexeme, Split line [.identifier (chars "set"), y, z] ∧ y.Valid ∧ z.Valid ∧
    y.token.WellFormed ∧ t' = (varSetEntry t y.token z.token).1

theorem isIdentifier_token {x : Lexeme} (h : x.token.isIdentifier = true) :
    ∃ text, x = .identifier text := by
  cases x with
  | identifier text => exact ⟨text, rfl⟩
  | _ => cases h

structure Outcome.Fine (o : Outcome) (line : List UInt8) (t : VarTable) : Prop where
  calls : ∀ call, o.call = some call → call.Good
  table : LineEffect line t o.table
  refused : (∀ code, o.reply ≠ .done code) → o.table = t

theorem fine_of_no_call (line : List UInt8) (t : VarTable) (reply : Reply) :
    Outcome.Fine ⟨t, reply, none⟩ line t :=
  { calls := fun _ h => by cases h
    table := .inl rfl
    refused := fun _ => rfl }

theorem fine_of_help (line : List UInt8) {x : Lexeme} (hx : x.Valid) (t : VarTable)
    (reply : Reply) : Outcome.Fine ⟨t, reply, some ⟨.help, [x.token]⟩⟩ line t := by
  refine ⟨fun call h => ?_, .inl rfl, fun _ => rfl⟩
  obtain rfl := Option.some.inj h
  have hmem : ⟨chars "help", 1, .help⟩ ∈ cmdTable := by decide
  have hvalid : ∀ y ∈ [x], y.Valid := fun y hy => by rwa [List.mem_singleton.mp hy]
  exact good_of_valid hmem rfl hvalid

theorem fine_of_call {line text : List UInt8} {rest : List Lexeme} (hnul : 0 ∉ line)
    (hsplit : Split line (.identifier text :: rest))
    (hvalid : ∀ x ∈ Lexeme.identifier text :: rest, x.Valid)
    {cte : CmdTableEntry} (hcte : getCmdEntry text = some cte) (harity : cte.arity = rest.length)
    (t : VarTable) :
    ∃ t' code, Call.run ⟨cte.cmdFunc, rest.map Lexeme.token⟩ t = .ok (t', code) ∧
      Outcome.Fine ⟨t', .done code, some ⟨cte.cmdFunc, rest.map Lexeme.token⟩⟩ line t := by
  obtain ⟨hmem, hname⟩ := mem_of_getCmdEntry hcte
  have hlen : (rest.map Lexeme.token).length = cte.cmdFunc.arity := by
    rw [List.length_map, ← harity, arity_of_mem hmem]
  have hgood := good_of_valid hmem harity.symm (List.forall_mem_cons.mp hvalid).2
  obtain ⟨t', code, hrun, htable⟩ := Call.run_of_arity (c := ⟨cte.cmdFunc, _⟩) hlen t
  refine ⟨t', code, hrun, ⟨fun call h => ?_, ?_, fun h => absurd rfl (h code)⟩⟩
  · obtain rfl := Option.some.inj h
    exact hgood
  rcases htable with rfl | ⟨varName, value, hcall, rfl⟩
  · exact .inl rfl
  obtain ⟨hset, hmap⟩ := Call.mk.inj hcall
  have htext : text = chars "set" := hname.symm.trans (name_of_set hmem hset)
  have htwo : rest.length = 2 := by
    rw [← harity, arity_of_mem hmem, hset]
    rfl
  obtain ⟨y, z, rfl⟩ := List.length_eq_two.mp htwo
  obtain ⟨rfl, hz⟩ := List.cons.inj hmap
  obtain ⟨rfl, -⟩ := List.cons.inj hz
  have hmemy : y ∈ [.identifier text, y, z] := List.mem_cons_of_mem _ List.mem_cons_self
  have hmemz : z ∈ [.identifier text, y, z] := by simp
  have hy := hsplit.wellFormed hnul hvalid y hmemy
  rw [htext] at hsplit
  exact .inr ⟨y, z, hsplit, hvalid y hmemy, hvalid z hmemz, hy, rfl⟩

theorem syntaxVec_args {x : Lexeme} {rest : List Lexeme} (hlen : (x :: rest).length ≤ 3)
    (hvalid : ∀ y ∈ x :: rest, y.Valid) :
    (parserDataLen (syntaxVec (x :: rest)) + 0xffffffff) % 0x100000000 = rest.length := by
  have hrest : rest.length ≤ 2 := Nat.le_of_succ_le_succ hlen
  rw [syntaxVec_dataLen hlen hvalid, List.length_cons]
  omega

/-- The shell gets through a line that the lexer stays within. -/
theorem shellDo_spec (t : VarTable) {buf : List UInt8}
    (hbounds : ScansClosed syntaxVecLen (lineOf buf)) :
    ∃ o, shellDo t buf = .ok o ∧ o.Fine (lineOf buf) t := by
  have hnul := nul_notMem_lineOf buf
  obtain ⟨r, hr⟩ : ∃ r, parserDo (some (lineOf buf)) = .ok r :=
    (parserLoop_isOk_iff syntaxVecLen 0 (lexerInit (lineOf buf)) .void _ rfl hnul).mpr hbounds
  rw [shellDo, hr]
  cases r with
  | error errCode => exact ⟨_, rfl, fine_of_no_call _ t _⟩
  | ok vec =>
  obtain ⟨lxs, hsplit, hlen, hvalid, rfl⟩ := split_of_parserDo hnul hr
  cases lxs with
  | nil => exact ⟨_, rfl, fine_of_no_call _ t _⟩
  | cons x rest =>
  have hx := hvalid x List.mem_cons_self
  have hrest : rest.length ≤ 2 := Nat.le_of_succ_le_succ hlen
  have hfirst : (syntaxVec (x :: rest)).getD 0 .void = x.token := rfl
  dsimp only
  rw [hfirst, hx.token_kind.2.2, syntaxVec_args hlen hvalid]
  cases hident : x.token.isIdentifier with
  | false => exact ⟨_, rfl, fine_of_no_call _ t _⟩
  | true =>
  obtain ⟨text, rfl⟩ := isIdentifier_token hident
  cases hcte : getCmdEntry (Lexeme.identifier text).token.str with
  | none => exact ⟨_, rfl, fine_of_no_call _ t _⟩
  | some cte =>
  rw [if_neg Bool.false_ne_true, Bool.not_true, if_neg Bool.false_ne_true]
  by_cases harity : cte.arity = rest.length
  · obtain ⟨t', code, hrun, hfine⟩ := fine_of_call hnul hsplit hvalid hcte harity t
    refine ⟨_, ?_, hfine⟩
    dsimp only
    rw [if_neg (not_not.mpr harity), harity, callCmd_syntaxVec cte.cmdFunc _ hrest]
    dsimp only
    rw [hrun]
    rfl
  · have hrun : (⟨.help, [(Lexeme.identifier text).token]⟩ : Call).run t =
        .ok (t, (cmdHelp (Lexeme.identifier text).token t).2) :=
      congrArg Except.ok (Prod.ext (cmdHelp_table _ t) rfl)
    refine ⟨_, ?_, fine_of_help (lineOf buf) hx t (.wrongArity cte)⟩
    dsimp only
    rw [if_pos harity, hrun]
    rfl

/-! ### A line that sets a variable -/

theorem Lexeme.isValue_of_kindFits {z : Lexeme} {type : Int} (h : KindFits type z.token) :
    z.IsValue type := by
  cases z with
  | string inside =>
      rcases h with ⟨htype, -⟩ | ⟨-, hno⟩
      · exact htype
      · cases hno
  | number text =>
      rcases h with ⟨-, hno⟩ | ⟨htype, -⟩
      · cases hno
      · exact htype
  | _ =>
      rcases h with ⟨-, hno⟩ | ⟨-, hno⟩
      · cases hno
      · cases hno

theorem exists_variable_of_names {y : Lexeme} {type : Int} {name : List UInt8}
    (h : y.token.Names type name) : ∃ text, y = .variable text := by
  cases y with
  | «variable» text => exact ⟨text, rfl⟩
  | _ => cases h

theorem LineEffect.changes {line : List UInt8} {t t' : VarTable} (h : LineEffect line t t')
    (hdistinct : Slots.Distinct VarEntry.key t) (hne : t' ≠ t) :
    ∃ type name, SetLine line type name ∧ ChangesOnly t t' (type, name) ∧
      ∀ k, k ≠ (type, name) → Slots.get VarEntry.key t' k = Slots.get VarEntry.key t k := by
  rcases h with rfl | ⟨y, z, hsplit, hvalidy, hvalidz, hy, rfl⟩
  · exact absurd rfl hne
  rcases varSetEntry_cases t z.token hy with ⟨-, heq⟩ | ⟨-, type, name, i, r, hnames, hw, heq⟩
  · rw [heq] at hne
    exact absurd rfl hne
  obtain ⟨var, rfl⟩ := exists_variable_of_names hnames
  rw [heq]
  have hvalue := Lexeme.isValue_of_kindFits hw.kindFits
  refine ⟨type, name, ⟨var, z, hsplit, hvalidy, hnames, hvalidz, hvalue⟩,
    ⟨i, r, rfl, hw.key, ?_⟩, fun k hk => ?_⟩
  · exact hw.fits.imp_right fun hfree => (VarEntry.key_eq_none_iff _).mp hfree.1
  · rw [hdistinct.get_update hw.fits hw.key, Function.update_of_ne hk]

/-! ### Runs -/

theorem LineEffect.distinct {line : List UInt8} {t t' : VarTable} (h : LineEffect line t t')
    (hdistinct : Slots.Distinct VarEntry.key t) : Slots.Distinct VarEntry.key t' := by
  rcases h with rfl | ⟨y, z, -, -, -, hy, rfl⟩
  · exact hdistinct
  · exact varSetEntry_distinct hdistinct z.token hy

theorem distinct_of_lines {bufs : List (List UInt8)} {t : VarTable}
    (hrun : shellSystem.Run bufs t) : Slots.Distinct VarEntry.key t := by
  refine hrun.invariant ?_ ?_
  · intro t hfree i j k hi
    rw [VarEntry.key, hfree i] at hi
    cases hi
  · rintro t buf t' hdistinct ⟨hbounds, o, ho, rfl⟩
    obtain ⟨o', ho', hfine⟩ := shellDo_spec t hbounds
    obtain rfl := Except.ok.inj (ho.symm.trans ho')
    exact hfine.table.distinct hdistinct

/-- After any lines that the lexer stays within, the shell gets through one more
such line. It changes the table only when the line is `set` with a variable and
a literal of the kind of its sigil, and then only the entry of this variable;
it calls a function only with as many tokens as its arity tells, none of them
void, an error, unknown or the end of the input. -/
theorem shellDo_correct {bufs : List (List UInt8)} {t : VarTable} (hrun : shellSystem.Run bufs t)
    {buf : List UInt8} (hbounds : ScansClosed syntaxVecLen (lineOf buf)) :
    ∃ o, shellDo t buf = .ok o ∧
      (o.table ≠ t → ∃ type name, SetLine (lineOf buf) type name ∧
        ChangesOnly t o.table (type, name) ∧
        ∀ k, k ≠ (type, name) →
          Slots.get VarEntry.key o.table k = Slots.get VarEntry.key t k) ∧
      ((∀ type name, ¬ SetLine (lineOf buf) type name) → o.table = t) ∧
      ((∀ code, o.reply ≠ .done code) → o.table = t) ∧
      ∀ call, o.call = some call →
        (∃ cte ∈ cmdTable, cte.cmdFunc = call.cmdFunc ∧ call.args.length = cte.arity) ∧
        ∀ a ∈ call.args,
          a.isVoid = false ∧ a.isError = false ∧ a.isUnknown = false ∧ a.isEoi = false := by
  obtain ⟨o, ho, hfine⟩ := shellDo_spec t hbounds
  have hchanges := hfine.table.changes (distinct_of_lines hrun)
  refine ⟨o, ho, hchanges, fun hno => ?_, hfine.refused, hfine.calls⟩
  by_contra hne
  obtain ⟨type, name, hset, -⟩ := hchanges hne
  exact hno type name hset

/-- `set %a 1` as the first line. -/
theorem shellDo_correct_set :
    ∃ o type name, shellDo (fun _ => ⟨[], false, 0, 0, [], 0⟩) (chars "set %a 1") = .ok o ∧
      SetLine (chars "set %a 1") type name := by
  have hrun : shellSystem.Run [] (fun _ => ⟨[], false, 0, 0, [], 0⟩) := .init fun _ => rfl
  have hbounds : ScansClosed syntaxVecLen (lineOf (chars "set %a 1")) := by decide
  obtain ⟨o, ho, hset, -⟩ := shellDo_correct hrun hbounds
  have hused : (shellDo (fun _ => ⟨[], false, 0, 0, [], 0⟩) (chars "set %a 1")).toOption.map
      (fun o => (o.table ⟨0, by decide⟩).used) = some true := by decide
  have hne : o.table ≠ fun _ => ⟨[], false, 0, 0, [], 0⟩ := by
    intro htable
    rw [ho, Except.toOption, Option.map_some, htable] at hused
    cases hused
  obtain ⟨type, name, hline, -⟩ := hset hne
  exact ⟨o, type, name, ho, hline⟩

end Kboot86.Sh
