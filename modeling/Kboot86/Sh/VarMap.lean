import Kboot86.Sh.VarTable

/-!
# The table of variables as a map

The key of a used entry is its type and name. Over the calls of `var_set_entry`
no two used entries have the same key, so the table is a map from keys to
entries; a call that succeeds changes the map at one key, and any other call
changes nothing.
-/

namespace Kboot86.Sh

def VarEntry.key (vte : VarEntry) : Option (Int × List UInt8) :=
  if vte.used then some (vte.type, vte.name) else none

inductive Token.Names : Token → Int → List UInt8 → Prop
  | str (name : List UInt8) : Names (.variable (sigilStrVar :: name)) typeStr name
  | int (name : List UInt8) : Names (.variable (sigilIntVar :: name)) typeInt name
  | bool (name : List UInt8) : Names (.variable (sigilBoolVar :: name)) typeBool name

/-- A string is a value for a string variable, a number for the other two. -/
def KindFits (type : Int) (val : Token) : Prop :=
  type = typeStr ∧ val.isLstring = true ∨
    (type = typeInt ∨ type = typeBool) ∧ val.isLuinteger = true

variable {t : VarTable} {varName val : Token} {type : Int} {name : List UInt8}

theorem VarEntry.key_eq_some_iff (vte : VarEntry) :
    vte.key = some (type, name) ↔ vte.used = true ∧ vte.type = type ∧ vte.name = name := by
  rw [VarEntry.key]
  cases vte.used with
  | false => simp
  | true => simp

theorem VarEntry.key_eq_none_iff (vte : VarEntry) : vte.key = none ↔ vte.used = false := by
  rw [VarEntry.key]
  cases vte.used with
  | false => simp
  | true => simp

theorem getEntry_eq_find (t : VarTable) (name : List UInt8) (type : Int) :
    getEntry t name type = Slots.find VarEntry.key t (type, name) := by
  rw [getEntry, Slots.find]
  congr 1
  funext i
  rw [Bool.eq_iff_iff, decide_eq_true_iff, VarEntry.key_eq_some_iff, Bool.and_eq_true,
    Bool.and_eq_true, beq_iff_eq, beq_iff_eq, strcmp_eq_zero_iff, and_assoc, eq_comm (a := type)]

theorem Token.Names.functional {type' : Int} {name' : List UInt8} (h : varName.Names type name)
    (h' : varName.Names type' name') : type' = type ∧ name' = name := by
  cases h <;> cases h' <;> exact ⟨rfl, rfl⟩

/-- A variable of the lexer has a type, that of its sigil, and the rest of it is
the name. -/
theorem Token.WellFormed.names {str : List UInt8} (h : (Token.variable str).WellFormed) :
    ∃ type, getVariableTokenType str = some type ∧
      (Token.variable str).Names type str.tail ∧ str.tail.length < 15 := by
  rcases h with ⟨hlen, -, hsigil⟩
  cases str with
  | nil => rcases hsigil with h | h | h <;> cases h
  | cons c name =>
      rw [List.length_cons] at hlen
      rcases hsigil with rfl | rfl | rfl
      · exact ⟨typeStr, rfl, .str name, hlen⟩
      · exact ⟨typeInt, rfl, .int name, hlen⟩
      · exact ⟨typeBool, rfl, .bool name, hlen⟩

theorem Token.Names.valueFits_iff (h : varName.Names type name) (val : Token) :
    valueFits type val = true ↔ KindFits type val := by
  cases h with
  | str => simp [valueFits, KindFits, typeStr, typeInt, typeBool]
  | int => simp [valueFits, KindFits, typeStr, typeInt, typeBool]
  | bool => simp [valueFits, KindFits, typeStr, typeInt, typeBool]

/-! ### The entry that is written -/

theorem VarEntry.key_setValue (vte : VarEntry) (type : Int) (val : Token) :
    (vte.setValue type val).key = if vte.used then some (type, vte.name) else none := by
  rw [VarEntry.setValue]
  split
  · rfl
  split
  · rfl
  split
  · rfl
  · rfl

def newEntry (vte : VarEntry) (name : List UInt8) : VarEntry :=
  ({ vte with used := true } : VarEntry).setName name

theorem key_newEntry (vte : VarEntry) (val : Token) (hname : name.length ≤ 15) :
    ((newEntry vte name).setValue type val).key = some (type, name) := by
  rw [VarEntry.key_setValue]
  have htake : (newEntry vte name).name = name := List.take_of_length_le hname
  rw [htake]
  rfl

theorem getFreeEntry_eq (t : VarTable) :
    (∃ i, (t i).used = false ∧
      getFreeEntry t = (Function.update t i { t i with used := true }, some i)) ∨
    ((∀ i, (t i).used = true) ∧ getFreeEntry t = (t, none)) := by
  cases hfind : (List.finRange tableLen).find? fun i => !(t i).used with
  | some i =>
      have hi := List.find?_some hfind
      rw [Bool.not_eq_true'] at hi
      refine .inl ⟨i, hi, ?_⟩
      rw [getFreeEntry, hfind]
  | none =>
      refine .inr ⟨fun i => ?_, ?_⟩
      · have hi := List.find?_eq_none.mp hfind i (List.mem_finRange i)
        rwa [Bool.not_eq_true', Bool.not_eq_false] at hi
      · rw [getFreeEntry, hfind]

def Refused (t : VarTable) (varName val : Token) : Prop :=
  varName.isVariable = false ∨
    ∃ type name, varName.Names type name ∧
      (¬ KindFits type val ∨
        (∀ i, (t i).key ≠ some (type, name)) ∧ ∀ i, (t i).used = true)

theorem Token.Names.not_refused (hnames : varName.Names type name) (hkind : KindFits type val)
    {i : Fin tableLen} (hi : (t i).key = some (type, name) ∨ (t i).used = false) :
    ¬ Refused t varName val := by
  rintro (hno | ⟨type', name', hnames', hwhy⟩)
  · cases hnames with
    | str => cases hno
    | int => cases hno
    | bool => cases hno
  obtain ⟨rfl, rfl⟩ := hnames.functional hnames'
  rcases hwhy with hunfit | ⟨habsent, hfull⟩
  · exact hunfit hkind
  rcases hi with hi | hi
  · exact habsent i hi
  · rw [hfull i] at hi
    cases hi

/-- The call writes the entry `r` with the key `k` to the slot `i`, which has
this key already or is free. -/
structure Writes (t : VarTable) (val : Token) (k : Int × List UInt8) (i : Fin tableLen)
    (r : VarEntry) : Prop where
  kindFits : KindFits k.1 val
  fits : Slots.Fits VarEntry.key t i k
  key : r.key = some k
  value : ∃ vte : VarEntry, vte.used = true ∧ vte.name = k.2 ∧ r = vte.setValue k.1 val

theorem varSetEntry_cases (t : VarTable) (val : Token) (hname : varName.WellFormed) :
    (Refused t varName val ∧ varSetEntry t varName val = (t, 1)) ∨
    (¬ Refused t varName val ∧ ∃ type name i r, varName.Names type name ∧
      Writes t val (type, name) i r ∧
      varSetEntry t varName val = (Function.update t i r, 0)) := by
  cases varName with
  | «variable» str =>
      obtain ⟨type, htype, hnames, hlen⟩ := hname.names
      rw [varSetEntry, htype]
      dsimp only
      by_cases hfits : valueFits type val = true
      swap
      · have hunfit : ¬ KindFits type val := fun h => hfits ((hnames.valueFits_iff val).mpr h)
        refine .inl ⟨.inr ⟨type, _, hnames, .inl hunfit⟩, ?_⟩
        rw [Bool.eq_false_iff.mpr hfits]
        rfl
      have hkind := (hnames.valueFits_iff val).mp hfits
      rw [hfits, getEntry_eq_find]
      cases hfind : Slots.find VarEntry.key t (type, str.tail) with
      | some i =>
          have hkey := Slots.key_of_find hfind
          obtain ⟨hused, -, hn⟩ := (VarEntry.key_eq_some_iff _).mp hkey
          refine .inr ⟨hnames.not_refused hkind (.inl hkey), type, _, i, _, hnames,
            ⟨hkind, .inl hkey, ?_, t i, hused, hn, rfl⟩, rfl⟩
          rw [VarEntry.key_setValue, hused, hn]
          rfl
      | none =>
          have habsent := Slots.find_eq_none_iff.mp hfind
          rcases getFreeEntry_eq t with ⟨i, hfree, heq⟩ | ⟨hfull, heq⟩
          · refine .inr ⟨hnames.not_refused hkind (.inr hfree), type, _, i,
              (newEntry (t i) str.tail).setValue type val, hnames,
              ⟨hkind, .inr ⟨(VarEntry.key_eq_none_iff _).mpr hfree, hfind⟩,
                key_newEntry (t i) val hlen.le, newEntry (t i) str.tail, rfl,
                List.take_of_length_le hlen.le, rfl⟩, ?_⟩
            rw [heq]
            dsimp only
            rw [Function.update_idem, Function.update_self]
            rfl
          · refine .inl ⟨.inr ⟨type, _, hnames, .inr ⟨habsent, hfull⟩⟩, ?_⟩
            rw [heq]
            rfl
  | _ => exact .inl ⟨.inl rfl, rfl⟩

/-! ### The map after a call -/

theorem distinct_varTableInit (t : VarTable) : Slots.Distinct VarEntry.key (varTableInit t) := by
  intro i j k hi
  cases hi

theorem varSetEntry_distinct (h : Slots.Distinct VarEntry.key t) (val : Token)
    (hname : varName.WellFormed) :
    Slots.Distinct VarEntry.key (varSetEntry t varName val).1 := by
  rcases varSetEntry_cases t val hname with ⟨-, heq⟩ | ⟨-, type, name, i, r, -, hw, heq⟩
  · rwa [heq]
  · rw [heq]
    exact h.update hw.fits hw.key

theorem varSetEntry_get (h : Slots.Distinct VarEntry.key t) (hname : varName.WellFormed)
    (hcode : (varSetEntry t varName val).2 = 0) :
    ∃ type name r, varName.Names type name ∧
      (∃ vte : VarEntry, vte.used = true ∧ vte.name = name ∧ r = vte.setValue type val) ∧
      KindFits type val ∧
      Slots.get VarEntry.key (varSetEntry t varName val).1 =
        Function.update (Slots.get VarEntry.key t) (type, name) (some r) := by
  rcases varSetEntry_cases t val hname with ⟨-, heq⟩ | ⟨-, type, name, i, r, hnames, hw, heq⟩
  · rw [heq] at hcode
    cases hcode
  · rw [heq]
    exact ⟨type, name, r, hnames, hw.value, hw.kindFits, h.get_update hw.fits hw.key⟩

theorem varSetEntry_used (val : Token) (hname : varName.WellFormed) (i : Fin tableLen)
    (hi : (t i).used = true) : ((varSetEntry t varName val).1 i).used = true := by
  rcases varSetEntry_cases t val hname with ⟨-, heq⟩ | ⟨-, type, name, j, r, -, hw, heq⟩
  · rwa [heq]
  · rw [heq]
    dsimp only
    by_cases hij : i = j
    · rw [hij, Function.update_self]
      exact ((VarEntry.key_eq_some_iff r).mp hw.key).1
    · rwa [Function.update_of_ne hij]

/-- Over any calls with names of the lexer the used entries have distinct
keys. -/
theorem distinct_of_run {ops : List (Token × Token)} (hrun : varSystem.Run ops t)
    (hops : ∀ op ∈ ops, FromLexer op.1) : Slots.Distinct VarEntry.key t := by
  refine (hrun.restrict (G := fun op => FromLexer op.1) hops).invariant ?_ ?_
  · rintro _ ⟨t₀, rfl⟩
    exact distinct_varTableInit t₀
  · rintro t op _ hdistinct ⟨hop, rfl⟩
    exact varSetEntry_distinct hdistinct op.2 hop.wellFormed

/-- After any calls of `var_set_entry` with names of the lexer, no two used
entries have the same type and name; one more call keeps the used entries used,
returns 1 exactly when it has a reason to, and then leaves the table as it is,
and otherwise leaves every other variable as it is. -/
theorem varSetEntry_correct {ops : List (Token × Token)} (hrun : varSystem.Run ops t)
    (hops : ∀ op ∈ ops, FromLexer op.1) (hname : FromLexer varName) (val : Token) :
    (∀ i j, (t i).used = true → (t j).used = true → (t i).type = (t j).type →
      (t i).name = (t j).name → i = j) ∧
    (∀ i, (t i).used = true → ((varSetEntry t varName val).1 i).used = true) ∧
    ((varSetEntry t varName val).2 = 0 ∨ (varSetEntry t varName val).2 = 1) ∧
    ((varSetEntry t varName val).2 = 1 ↔
      varName.isVariable = false ∨
      (∃ type name, varName.Names type name ∧ ¬ KindFits type val) ∨
      ∃ type name, varName.Names type name ∧
        (∀ i, ¬ ((t i).used = true ∧ (t i).type = type ∧ (t i).name = name)) ∧
        ∀ i, (t i).used = true) ∧
    ((varSetEntry t varName val).2 = 1 → (varSetEntry t varName val).1 = t) ∧
    ((varSetEntry t varName val).2 = 0 → ∃ type name, varName.Names type name ∧
      ∀ k, k ≠ (type, name) →
        Slots.get VarEntry.key (varSetEntry t varName val).1 k = Slots.get VarEntry.key t k) := by
  have hdistinct := distinct_of_run hrun hops
  have hrefused : Refused t varName val ↔ varName.isVariable = false ∨
      (∃ type name, varName.Names type name ∧ ¬ KindFits type val) ∨
      ∃ type name, varName.Names type name ∧
        (∀ i, ¬ ((t i).used = true ∧ (t i).type = type ∧ (t i).name = name)) ∧
        ∀ i, (t i).used = true := by
    simp only [Refused, ne_eq, VarEntry.key_eq_some_iff, and_or_left, exists_or]
  refine ⟨?_, varSetEntry_used val hname.wellFormed, ?_, ?_, ?_, fun hcode => ?_⟩
  · intro i j hi hj htype hn
    exact hdistinct i j _ ((VarEntry.key_eq_some_iff _).mpr ⟨hi, htype, hn⟩)
      ((VarEntry.key_eq_some_iff _).mpr ⟨hj, rfl, rfl⟩)
  · rcases varSetEntry_cases t val hname.wellFormed with ⟨-, heq⟩ | ⟨-, _, _, _, _, -, -, heq⟩
    · exact .inr (by rw [heq])
    · exact .inl (by rw [heq])
  · rw [← hrefused]
    rcases varSetEntry_cases t val hname.wellFormed with ⟨hr, heq⟩ | ⟨hr, _, _, _, _, -, -, heq⟩
    · exact iff_of_true (by rw [heq]) hr
    · rw [heq]
      exact iff_of_false Int.zero_ne_one hr
  · intro hcode
    rcases varSetEntry_cases t val hname.wellFormed with ⟨-, heq⟩ | ⟨-, _, _, _, _, -, -, heq⟩
    · rw [heq]
    · rw [heq] at hcode
      cases hcode
  · obtain ⟨type, name, r, hnames, -, -, hget⟩ := varSetEntry_get hdistinct hname.wellFormed hcode
    refine ⟨type, name, hnames, fun k hk => ?_⟩
    rw [hget, Function.update_of_ne hk]

/-- `%a` is set to 1 and `$a` is then refused a number. -/
theorem varSetEntry_correct_refused :
    ∃ t, varSystem.Run [(.variable [37, 97], .luinteger 1)] t ∧
      (varSetEntry t (.variable [36, 97]) (.luinteger 1)).1 = t := by
  have hop : FromLexer (.variable [37, 97]) :=
    ⟨[37, 97], _, by decide, .process .init rfl, rfl⟩
  have hname : FromLexer (.variable [36, 97]) :=
    ⟨[36, 97], _, by decide, .process .init rfl, rfl⟩
  have hrun : varSystem.Run ([] ++ [(Token.variable [37, 97], Token.luinteger 1)])
      (varSetEntry (varTableInit fun _ => ⟨[], false, 0, 0, [], 0⟩) (.variable [37, 97])
        (.luinteger 1)).1 := .snoc (.init ⟨_, rfl⟩) rfl
  obtain ⟨-, -, -, hcode, hkeep, -⟩ := varSetEntry_correct hrun
    (fun op hmem => by rw [List.mem_singleton.mp hmem]; exact hop) hname (.luinteger 1)
  refine ⟨_, hrun, hkeep (hcode.mpr (.inr (.inl ⟨typeStr, [97], .str [97], ?_⟩)))⟩
  rw [KindFits]
  decide

end Kboot86.Sh
