import Kboot86.Sh.VarMap

/-!
# The value of a variable is the one that was set last

A value goes from the token to the entry by a copy that depends on the type.
Strings and numbers arrive as they are. For a boolean the copy reads a member
of the union that the lexer does not write: it takes the lowest byte of the
number, which is zero for some numbers that are not.
-/

namespace Kboot86.Sh

def Holds (type : Int) (vte : VarEntry) (val : Token) : Prop :=
  (type = typeStr → vte.strVal = val.str) ∧ (type = typeInt → vte.intVal = val.integer) ∧
    (type = typeBool → (vte.boolVal ≠ 0 ↔ val.integer ≠ 0))

def LastSet (ops : List (Token × Token)) (type : Int) (name : List UInt8) (val : Token) : Prop :=
  ∃ pre varName post, ops = pre ++ (varName, val) :: post ∧ varName.Names type name ∧
    ∀ op ∈ post, ¬ op.1.Names type name

/-- The text of the token is what its buffer can hold: 15 characters and the
NUL behind them. -/
def Token.Fits (token : Token) : Prop := token.str.length ≤ tokenStrLenMax ∧ 0 ∉ token.str

def Sets (t : VarTable) (op : Token × Token) : Prop :=
  op.1.Fits ∧ op.2.Fits ∧ (varSetEntry t op.1 op.2).2 = 0

variable {t : VarTable} {varName val : Token} {type : Int} {name : List UInt8}
  {ops : List (Token × Token)}

theorem Token.Fits.wellFormed (h : varName.Fits) (hcode : (varSetEntry t varName val).2 = 0) :
    varName.WellFormed := by
  cases varName with
  | «variable» str =>
      refine ⟨h.1, h.2, ?_⟩
      by_contra hno
      obtain ⟨hstr, hrest⟩ := not_or.mp hno
      obtain ⟨hint, hbool⟩ := not_or.mp hrest
      have htype : getVariableTokenType str = none := by
        rw [getVariableTokenType, if_neg hstr, if_neg hint, if_neg hbool]
      rw [varSetEntry, htype] at hcode
      cases hcode
  | _ => cases hcode

/-- What `var_set_entry` writes is the literal, but for a number of which only
the lowest byte is zero. -/
theorem holds_setValue_iff (vte : VarEntry) (hval : val.Fits) (type : Int) :
    Holds type (vte.setValue type val) val ↔
      (type = typeBool → val.integer = 0 ∨ val.integer.toUInt8 ≠ 0) := by
  unfold Holds VarEntry.setValue
  by_cases hstr : type = typeStr
  · subst hstr
    have htake : val.str.take varValStrLenMax = val.str := List.take_of_length_le hval.1
    simp [htake, typeStr, typeInt, typeBool]
  by_cases hint : type = typeInt
  · subst hint
    simp [typeStr, typeInt, typeBool]
  by_cases hbool : type = typeBool
  · subst hbool
    simp only [if_neg hstr, if_neg hint, if_pos, forall_const]
    have hzero : val.integer = 0 → val.integer.toUInt8 = 0 := fun h => by rw [h]; rfl
    constructor
    · rintro ⟨-, -, hiff⟩
      by_cases hint : val.integer = 0
      · exact .inl hint
      · exact .inr (hiff.mpr hint)
    · intro h
      refine ⟨fun h => absurd h hstr, fun h => absurd h hint, fun hne h0 => hne (hzero h0), ?_⟩
      exact fun hne => h.resolve_left hne
  · simp [hstr, hint, hbool]

/-! ### The last call -/

theorem lastSet_snoc {op : Token × Token} (h : LastSet (ops ++ [op]) type name val) :
    op.1.Names type name ∧ val = op.2 ∨
      ¬ op.1.Names type name ∧ LastSet ops type name val := by
  rcases h with ⟨pre, varName, post, heq, hnames, hpost⟩
  rcases List.eq_nil_or_concat post with rfl | ⟨post', last, rfl⟩
  · obtain ⟨-, hop⟩ := List.append_inj' heq rfl
    obtain rfl := List.singleton_inj.mp hop
    exact .inl ⟨hnames, rfl⟩
  · have hsnoc : ops ++ [op] = (pre ++ (varName, val) :: post') ++ [last] := by
      simpa using heq
    obtain ⟨hops, hop⟩ := List.append_inj' hsnoc rfl
    obtain rfl := List.singleton_inj.mp hop
    exact .inr ⟨hpost op (by simp), pre, varName, post', hops, hnames, fun op' hop' =>
      hpost op' (by simp [hop'])⟩

/-- After successful calls the map has, for each variable that was set, an
entry with the value of the last one. -/
theorem get_of_lastSet (hrun : (varSystem.restrict Sets).Run ops t) :
    Slots.Distinct VarEntry.key t ∧ ∀ type name val, LastSet ops type name val →
      val.Fits ∧ ∃ vte : VarEntry,
        Slots.get VarEntry.key t (type, name) = some (vte.setValue type val) := by
  refine hrun.history (P := fun ops t => Slots.Distinct VarEntry.key t ∧
    ∀ type name val, LastSet ops type name val → val.Fits ∧ ∃ vte : VarEntry,
      Slots.get VarEntry.key t (type, name) = some (vte.setValue type val)) ?_ ?_
  · rintro _ ⟨t₀, rfl⟩
    refine ⟨distinct_varTableInit t₀, fun type name val h => ?_⟩
    rcases h with ⟨pre, varName, post, heq, -, -⟩
    exact absurd heq (by simp)
  · rintro ops t op t' ⟨hdistinct, hlast⟩ ⟨⟨hfits, hval, hcode⟩, rfl⟩
    have hname := hfits.wellFormed hcode
    refine ⟨varSetEntry_distinct hdistinct op.2 hname, fun type name val h => ?_⟩
    obtain ⟨type', name', r, hnames', ⟨vte, -, -, rfl⟩, -, hget⟩ :=
      varSetEntry_get hdistinct hname hcode
    rw [hget]
    rcases lastSet_snoc h with ⟨hnames, rfl⟩ | ⟨hother, h⟩
    · obtain ⟨rfl, rfl⟩ := hnames.functional hnames'
      exact ⟨hval, vte, Function.update_self _ _ _⟩
    · have hne : (type, name) ≠ (type', name') := by
        intro heq
        obtain ⟨rfl, rfl⟩ := Prod.mk.inj heq
        exact hother hnames'
      rw [Function.update_of_ne hne]
      exact hlast type name val h

theorem Token.Names.varGetEntry_eq (h : varName.Names type name) (t : VarTable) :
    varGetEntry t varName = Slots.find VarEntry.key t (type, name) := by
  rw [← getEntry_eq_find]
  cases h <;> rfl

/-- In every run of successful calls, `var_get_entry` returns for a variable
that was set an entry with the literal of the last call, unless the variable is
a boolean and the literal a number other than 0 whose lowest byte is 0. -/
theorem varGetEntry_holds_iff (hrun : (varSystem.restrict Sets).Run ops t)
    (hnames : varName.Names type name) (hlast : LastSet ops type name val) :
    (∃ i, varGetEntry t varName = some i ∧ (t i).key = some (type, name) ∧
      Holds type (t i) val) ↔
      (type = typeBool → val.integer = 0 ∨ val.integer.toUInt8 ≠ 0) := by
  obtain ⟨-, hget⟩ := get_of_lastSet hrun
  obtain ⟨hval, vte, hvte⟩ := hget type name val hlast
  obtain ⟨i, hfind, hi⟩ := Option.map_eq_some_iff.mp hvte
  rw [hnames.varGetEntry_eq, hfind, ← holds_setValue_iff vte hval, ← hi]
  constructor
  · rintro ⟨j, hj, -, hholds⟩
    rwa [← Option.some.inj hj] at hholds
  · intro hholds
    exact ⟨i, rfl, Slots.key_of_find hfind, hholds⟩

/-! ### The boolean `.b` -/

/-- `.b` can be set to any number. -/
theorem run_set_bool (n : UInt32) :
    ∃ t, (varSystem.restrict Sets).Run [(.variable [46, 98], .luinteger n)] t := by
  have hname : (Token.variable [46, 98]).Fits := ⟨by decide, by decide⟩
  have hval : (Token.luinteger n).Fits := ⟨Nat.zero_le _, List.not_mem_nil⟩
  have hrun : (varSystem.restrict Sets).Run ([] ++ [(.variable [46, 98], .luinteger n)])
      (varSetEntry (varTableInit fun _ => ⟨[], false, 0, 0, [], 0⟩) (.variable [46, 98])
        (.luinteger n)).1 := .snoc (.init ⟨_, rfl⟩) ⟨⟨hname, hval, rfl⟩, rfl⟩
  exact ⟨_, hrun⟩

theorem lastSet_bool (n : UInt32) :
    LastSet [(.variable [46, 98], .luinteger n)] typeBool [98] (.luinteger n) :=
  ⟨[], _, [], rfl, .bool [98], by simp⟩

theorem varGetEntry_holds_one :
    ∃ t, (varSystem.restrict Sets).Run [(.variable [46, 98], .luinteger 1)] t ∧
      ∃ i, varGetEntry t (.variable [46, 98]) = some i ∧ (t i).key = some (typeBool, [98]) ∧
        Holds typeBool (t i) (.luinteger 1) := by
  obtain ⟨t, hrun⟩ := run_set_bool 1
  exact ⟨t, hrun, (varGetEntry_holds_iff hrun (.bool [98]) (lastSet_bool 1)).mpr
    fun _ => .inr (by decide)⟩

/-- After `set .b 256` the boolean is false. -/
theorem varGetEntry_holds_256 :
    ∃ t, (varSystem.restrict Sets).Run [(.variable [46, 98], .luinteger 256)] t ∧
      ¬ ∃ i, varGetEntry t (.variable [46, 98]) = some i ∧ (t i).key = some (typeBool, [98]) ∧
        Holds typeBool (t i) (.luinteger 256) := by
  obtain ⟨t, hrun⟩ := run_set_bool 256
  refine ⟨t, hrun, ?_⟩
  rintro ⟨i, hi, -, hholds⟩
  obtain ⟨hval, vte, hvte⟩ := (get_of_lastSet hrun).2 _ _ _ (lastSet_bool 256)
  obtain ⟨j, hfind, hj⟩ := Option.map_eq_some_iff.mp hvte
  have hfound : varGetEntry t (.variable [46, 98]) = some j :=
    ((Token.Names.bool [98]).varGetEntry_eq t).trans hfind
  have hij : i = j := Option.some.inj (hi.symm.trans hfound)
  rw [hij, hj, holds_setValue_iff vte hval] at hholds
  exact absurd (hholds rfl) (by decide)

end Kboot86.Sh
