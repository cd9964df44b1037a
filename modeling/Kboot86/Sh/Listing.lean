import Kboot86.Sh.Output

/-!
# The listing of the variables

`vars` prints a line for each used entry. What it prints can be read back: the
name ends at the first parenthesis and the value at the end of the line, since
names consist of letters and digits and a string that comes from one line holds
no newline. The value of a number is shown as a numeral that the shell itself
reads, so the line that sets the variable to what was shown restores it.
-/

namespace Kboot86.Sh

open Kstdio

def newline : UInt8 := '\n'.toUInt8

/-- A value as it is shown. Of a boolean only whether it is set can be seen. -/
inductive ShownValue where
  | str (s : List UInt8)
  | int (n : UInt32)
  | bool (b : Bool)
deriving DecidableEq

structure Shown where
  type : Int
  name : List UInt8
  value : ShownValue
deriving DecidableEq

def VarEntry.shown (ve : VarEntry) : Shown where
  type := ve.type
  name := ve.name
  value :=
    if ve.type = typeStr then .str ve.strVal
    else if ve.type = typeInt then .int ve.intVal
    else .bool (ve.boolVal != 0)

def usedEntries (t : VarTable) : List VarEntry :=
  ((List.finRange tableLen).filter fun i => (t i).used).map t

def printed : List Print → Option (List UInt8)
  | [] => some []
  | p :: prints => p.text.bind fun s => (printed prints).map (s ++ ·)

/-! ### The line of an entry -/

def VarEntry.valueText (ve : VarEntry) : List UInt8 :=
  if ve.type = typeStr then '"'.toUInt8 :: (ve.strVal ++ ['"'.toUInt8])
  else if ve.type = typeInt then Kstdio.text "0x" ++ hexadecimal ve.intVal
  else if ve.type = typeBool then Kstdio.text (if ve.boolVal ≠ 0 then "true" else "false")
  else Kstdio.text "???"

def entryLine (ve : VarEntry) : List UInt8 :=
  ve.name ++ '('.toUInt8 :: (Kstdio.text (typeStrOf ve.type) ++ (Kstdio.text ")\t" ++ ve.valueText))

def readLine (line : List UInt8) : Option Shown :=
  let name := line.takeWhile (· != '('.toUInt8)
  let rest := (line.dropWhile (· != '('.toUInt8)).tail
  let value := rest.drop 6
  if rest.take 4 = Kstdio.text "str " then some ⟨typeStr, name, .str value.tail.dropLast⟩
  else if rest.take 4 = Kstdio.text "int " then
    some ⟨typeInt, name, .int (UInt32.ofNat (readDigits true 16 (value.drop 2)))⟩
  else if rest.take 4 = Kstdio.text "bool" then
    some ⟨typeBool, name, .bool (value == Kstdio.text "true")⟩
  else none

def readVars (out : List UInt8) : List Shown := (out.splitOn newline).filterMap readLine

theorem printed_append {ps qs : List Print} {s s' : List UInt8} (hs : printed ps = some s)
    (hs' : printed qs = some s') : printed (ps ++ qs) = some (s ++ s') := by
  induction ps generalizing s with
  | nil =>
      obtain rfl := Option.some.inj hs
      exact hs'
  | cons p ps ih =>
      obtain ⟨a, ha, hrest⟩ := Option.bind_eq_some_iff.mp hs
      obtain ⟨b, hb, rfl⟩ := Option.map_eq_some_iff.mp hrest
      rw [List.cons_append, printed, ha, Option.bind_some, ih hb, Option.map_some,
        List.append_assoc]

theorem printed_flatMap {α : Type} {f : α → List Print} {g : α → List UInt8} {l : List α}
    (h : ∀ a ∈ l, printed (f a) = some (g a)) : printed (l.flatMap f) = some (l.flatMap g) := by
  induction l with
  | nil => rfl
  | cons a l ih =>
      rw [List.flatMap_cons, List.flatMap_cons]
      exact printed_append (h a List.mem_cons_self)
        (ih fun b hb => h b (List.mem_cons_of_mem _ hb))

theorem text_of_plain {format : String} {args : List Arg} {s : List UInt8}
    (h : plainText (Kstdio.text format) args = some s) : Print.text ⟨format, args⟩ = some s :=
  kvsprintf_plainText h

theorem valuePrint_text (ve : VarEntry) : ve.valuePrint.text = some ve.valueText := by
  unfold VarEntry.valuePrint VarEntry.valueText
  by_cases hstr : ve.type = typeStr
  · rw [if_pos hstr, if_pos hstr]
    exact text_of_plain rfl
  rw [if_neg hstr, if_neg hstr]
  by_cases hint : ve.type = typeInt
  · rw [if_pos hint, if_pos hint]
    have hplain : plainText (Kstdio.text "0x%x") [.word ve.intVal] =
        some (Kstdio.text "0x" ++ (hexadecimal ve.intVal ++ [])) := rfl
    rw [List.append_nil] at hplain
    exact text_of_plain hplain
  rw [if_neg hint, if_neg hint]
  by_cases hbool : ve.type = typeBool
  · rw [if_pos hbool, if_pos hbool]
    have hplain : ∀ s, plainText (Kstdio.text "%s") [.str s] = some (s ++ []) := fun _ => rfl
    refine text_of_plain ((hplain _).trans ?_)
    rw [List.append_nil]
  · rw [if_neg hbool, if_neg hbool]
    exact text_of_plain rfl

theorem displayVarOutput_printed (ve : VarEntry) :
    printed (displayVarOutput ve) = some (entryLine ve ++ [newline]) := by
  have hname : Print.text ⟨"%s(%s)\t", [.str ve.name, .str (Kstdio.text (typeStrOf ve.type))]⟩ =
      some (ve.name ++ '('.toUInt8 :: (Kstdio.text (typeStrOf ve.type) ++ Kstdio.text ")\t")) :=
    text_of_plain rfl
  have hnewline : Print.text ⟨"\n", []⟩ = some [newline] := text_of_plain rfl
  unfold displayVarOutput printed printed printed printed
  rw [hname, Option.bind_some, valuePrint_text, Option.bind_some, hnewline, Option.bind_some]
  simp [entryLine]

/-! ### What an entry of a run looks like -/

section

variable {line : List UInt8} {r ve : VarEntry}

theorem Split.endsAt {lxs : List Lexeme} (h : Split line lxs) {x : Lexeme} (hx : x ∈ lxs) :
    ∃ rest, x.EndsAt rest := by
  induction h with
  | nil _ => cases hx
  | @cons gap rest y lxs _ hy _ ih =>
      rcases List.mem_cons.mp hx with rfl | hx
      · exact ⟨rest, hy⟩
      · exact ih hx

theorem Split.text_subset {lxs : List Lexeme} (h : Split line lxs) {x : Lexeme} (hx : x ∈ lxs) :
    x.text ⊆ line := by
  induction h with
  | nil _ => cases hx
  | @cons gap rest y lxs _ _ _ ih =>
      intro c hc
      refine List.mem_append_right _ ?_
      rcases List.mem_cons.mp hx with rfl | hx
      · exact List.mem_append_left _ hc
      · exact List.mem_append_right _ (ih hx hc)

theorem WrittenBy.name_alphanum (h : WrittenBy line r) : ∀ c ∈ r.name, charIsAlphanum c = true := by
  obtain ⟨var, z, type, name, hsplit, -, -, hnames, -, vte, -, rfl, rfl⟩ := h
  obtain ⟨c, rfl⟩ := Names.eq_cons hnames
  obtain ⟨rest, c', cs, heq, -, hcs, -⟩ := hsplit.endsAt (x := .variable _)
    (List.mem_cons_of_mem _ List.mem_cons_self)
  rw [setValue_name, (List.cons.inj heq).2]
  exact hcs

theorem WrittenBy.strVal_subset (h : WrittenBy line r) (hstr : r.type = typeStr) :
    r.strVal ⊆ line := by
  obtain ⟨var, z, type, name, hsplit, -, -, hnames, hkind, vte, -, -, rfl⟩ := h
  rw [setValue_type] at hstr
  subst hstr
  have hz : z ∈ [Lexeme.identifier (chars "set"), .variable var, z] := by simp
  rcases hkind with ⟨-, hlstring⟩ | ⟨hother, -⟩
  · cases z with
    | string inside =>
        have hsub := hsplit.text_subset hz
        intro c hc
        rw [VarEntry.setValue, if_pos rfl] at hc
        refine hsub (List.mem_cons_of_mem _ (List.mem_append_left _ ?_))
        exact List.mem_of_mem_take hc
    | _ => cases hlstring
  · rcases hother with h | h <;> cases h

theorem hexadecimal_isHex (w : UInt32) : ∀ c ∈ hexadecimal w, charIsHex c = true := by
  have htable : ∀ d < 16, charIsHex ((digitTable true).getD d 0) = true := by decide
  intro c hc
  unfold hexadecimal digitsOf at hc
  split at hc
  · obtain rfl := List.mem_singleton.mp hc
    decide
  · obtain ⟨d, hd, rfl⟩ := List.mem_map.mp (List.mem_reverse.mp hc)
    exact htable d (Nat.digits_lt_base (by decide) hd)

theorem newline_notMem_entryLine (h : WrittenBy line ve) (hline : newline ∉ line) :
    newline ∉ entryLine ve := by
  have hname : newline ∉ ve.name := by
    intro hmem
    have halnum := h.name_alphanum _ hmem
    revert halnum
    decide
  have htype : newline ∉ Kstdio.text (typeStrOf ve.type) := by
    unfold typeStrOf
    split_ifs <;> decide
  have hvalue : newline ∉ ve.valueText := by
    unfold VarEntry.valueText
    by_cases hstr : ve.type = typeStr
    · rw [if_pos hstr]
      have hsub : newline ∉ ve.strVal := fun hmem => hline (h.strVal_subset hstr hmem)
      simp only [List.mem_cons, List.mem_append, List.not_mem_nil, or_false, not_or]
      exact ⟨by decide, hsub, by decide⟩
    rw [if_neg hstr]
    by_cases hint : ve.type = typeInt
    · rw [if_pos hint, List.mem_append]
      rintro (hmem | hmem)
      · revert hmem
        decide
      · have hhex := hexadecimal_isHex _ _ hmem
        revert hhex
        decide
    · rw [if_neg hint]
      split_ifs <;> decide
  have hclose : newline ∉ Kstdio.text ")\t" := by decide
  simp only [entryLine, List.mem_append, List.mem_cons, not_or]
  exact ⟨hname, by decide, htype, hclose, hvalue⟩

theorem take_tag {tag : List UInt8} (htag : tag.length = 4) (value : List UInt8) :
    (tag ++ (Kstdio.text ")\t" ++ value)).take 4 = tag := List.take_left' htag

theorem drop_tag {tag : List UInt8} (htag : tag.length = 4) (value : List UInt8) :
    (tag ++ (Kstdio.text ")\t" ++ value)).drop 6 = value := by
  rw [← List.append_assoc]
  refine List.drop_left' ?_
  rw [List.length_append, htag]
  rfl

theorem readDigits_hexadecimal (w : UInt32) :
    UInt32.ofNat (readDigits true 16 (hexadecimal w)) = w := by
  rw [hexadecimal, readDigits_digitsOf true _ (by decide), UInt32.ofNat_toNat]

/-- The line of an entry shows its type, its name and its value. -/
theorem readLine_entryLine (h : WrittenBy line ve) : readLine (entryLine ve) = some ve.shown := by
  have hname : ∀ c ∈ ve.name, (c != '('.toUInt8) = true := by
    intro c hc
    rw [bne_iff_ne]
    rintro rfl
    have halnum := h.name_alphanum _ hc
    revert halnum
    decide
  have htake : (entryLine ve).takeWhile (· != '('.toUInt8) = ve.name :=
    takeWhile_run hname (by simp)
  have hdrop : (entryLine ve).dropWhile (· != '('.toUInt8) =
      '('.toUInt8 :: (Kstdio.text (typeStrOf ve.type) ++ (Kstdio.text ")\t" ++ ve.valueText)) :=
    dropWhile_run hname (by simp)
  unfold readLine
  dsimp only
  rw [htake, hdrop, List.tail_cons]
  unfold VarEntry.shown
  rcases h.type_cases with htype | htype | htype
  · have hvalue : ve.valueText = '"'.toUInt8 :: (ve.strVal ++ ['"'.toUInt8]) := if_pos htype
    rw [hvalue, htype, take_tag (by decide), drop_tag (by decide), if_pos (by decide), if_pos rfl,
      List.tail_cons, List.dropLast_concat]
  · have hvalue : ve.valueText = Kstdio.text "0x" ++ hexadecimal ve.intVal := by
      rw [VarEntry.valueText, htype, if_neg (by decide), if_pos rfl]
    have hdigits : (Kstdio.text "0x" ++ hexadecimal ve.intVal).drop 2 = hexadecimal ve.intVal :=
      List.drop_left' rfl
    rw [hvalue, htype, take_tag (by decide), drop_tag (by decide), if_neg (by decide),
      if_pos (by decide), if_neg (by decide), if_pos rfl, hdigits, readDigits_hexadecimal]
  · have hvalue : ve.valueText = Kstdio.text (if ve.boolVal ≠ 0 then "true" else "false") := by
      rw [VarEntry.valueText, htype, if_neg (by decide), if_neg (by decide), if_pos rfl]
    have htrue : (Kstdio.text (if ve.boolVal ≠ 0 then "true" else "false") == Kstdio.text "true") =
        (ve.boolVal != 0) := by
      by_cases hzero : ve.boolVal = 0
      · rw [if_neg (not_not.mpr hzero), hzero]
        decide
      · rw [if_pos hzero, beq_self_eq_true]
        exact (bne_iff_ne.mpr hzero).symm
    rw [hvalue, htype, take_tag (by decide), drop_tag (by decide), htrue, if_neg (by decide),
      if_neg (by decide), if_pos (by decide), if_neg (by decide), if_neg (by decide)]

theorem readVars_entries {l : List VarEntry}
    (h : ∀ ve ∈ l, readLine (entryLine ve) = some ve.shown ∧ newline ∉ entryLine ve) :
    readVars (l.flatMap fun ve => entryLine ve ++ [newline]) = l.map VarEntry.shown := by
  have hend : readVars [] = [] := by decide
  induction l with
  | nil => exact hend
  | cons ve l ih =>
      obtain ⟨hread, hline⟩ := h ve List.mem_cons_self
      have hrest := ih fun ve' hve' => h ve' (List.mem_cons_of_mem _ hve')
      unfold readVars at hrest ⊢
      rw [List.flatMap_cons, List.append_assoc, List.singleton_append,
        List.splitOn_append_cons_self_of_not_mem hline, List.filterMap_cons_some hread, hrest,
        List.map_cons]

end

/-- Every used entry comes from a line without a newline. -/
theorem writtenBy_of_clean {bufs : List (List UInt8)} {t : VarTable}
    (hrun : (shellSystem.restrict fun _ buf => newline ∉ lineOf buf).Run bufs t) (i : Fin tableLen)
    (hi : (t i).used = true) : ∃ buf, newline ∉ lineOf buf ∧ WrittenBy (lineOf buf) (t i) := by
  have hclean : ∀ buf ∈ bufs, newline ∉ lineOf buf := by
    refine hrun.history (P := fun bufs _ => ∀ buf ∈ bufs, newline ∉ lineOf buf) ?_ ?_
    · exact fun _ _ buf hbuf => by cases hbuf
    · rintro bufs _ buf _ ih ⟨hnew, -⟩ buf' hbuf'
      rcases List.mem_append.mp hbuf' with hbuf' | hbuf'
      · exact ih buf' hbuf'
      · rwa [List.mem_singleton.mp hbuf']
  obtain ⟨buf, hbuf, hw⟩ := writtenBy_of_run hrun.of_restrict i hi
  exact ⟨buf, hclean buf hbuf, hw⟩

theorem varsOutput_eq (t : VarTable) :
    varsOutput t = (usedEntries t).flatMap displayVarOutput := by
  unfold varsOutput usedEntries
  rw [List.flatMap_map]
  induction List.finRange tableLen with
  | nil => rfl
  | cons i l ih =>
      rw [List.flatMap_cons, ih]
      cases hused : (t i).used with
      | true =>
          rw [if_pos rfl, List.filter_cons_of_pos (p := fun i => (t i).used) hused,
            List.flatMap_cons]
      | false =>
          rw [if_neg Bool.false_ne_true,
            List.filter_cons_of_neg (p := fun i => (t i).used) (by simp [hused]), List.nil_append]

theorem usedEntries_nodup {t : VarTable} (h : Slots.Distinct VarEntry.key t) :
    ((usedEntries t).map fun ve => (ve.type, ve.name)).Nodup := by
  unfold usedEntries
  rw [List.map_map]
  refine (List.nodup_finRange tableLen).filter _ |>.map_on ?_
  intro i hi j hj heq
  have hused : ∀ k, k ∈ (List.finRange tableLen).filter (fun i => (t i).used) →
      (t k).key = some ((t k).type, (t k).name) := fun k hk =>
    (VarEntry.key_eq_some_iff _).mpr ⟨(List.mem_filter.mp hk).2, rfl, rfl⟩
  have hkey := hused i hi
  rw [show ((t i).type, (t i).name) = ((t j).type, (t j).name) from heq] at hkey
  exact h i j _ hkey (hused j hj)

/-- After any lines without a newline, what `vars` prints can be read back: it
shows each used entry once, with its type, its name and its value, in the order
of the table, and no two with the same type and name. -/
theorem vars_readable {bufs : List (List UInt8)} {t : VarTable}
    (hrun : (shellSystem.restrict fun _ buf => newline ∉ lineOf buf).Run bufs t) :
    ∃ out, printed (varsOutput t) = some out ∧ readVars out = (usedEntries t).map VarEntry.shown ∧
      ((readVars out).map fun s => (s.type, s.name)).Nodup := by
  have hread : ∀ ve ∈ usedEntries t,
      readLine (entryLine ve) = some ve.shown ∧ newline ∉ entryLine ve := by
    intro ve hve
    obtain ⟨i, hi, rfl⟩ := List.mem_map.mp hve
    obtain ⟨buf, hline, hw⟩ := writtenBy_of_clean hrun i (List.mem_filter.mp hi).2
    exact ⟨readLine_entryLine hw, newline_notMem_entryLine hw hline⟩
  refine ⟨(usedEntries t).flatMap fun ve => entryLine ve ++ [newline], ?_, readVars_entries hread,
    ?_⟩
  · rw [varsOutput_eq]
    exact printed_flatMap fun ve _ => displayVarOutput_printed ve
  · rw [readVars_entries hread, List.map_map]
    exact usedEntries_nodup (distinct_of_lines hrun.of_restrict)

/-- `set %a 1` and then the listing. -/
theorem vars_readable_set :
    ∃ t out, printed (varsOutput t) = some out ∧
      readVars out = (usedEntries t).map VarEntry.shown ∧
      ((readVars out).map fun s => (s.type, s.name)).Nodup := by
  have hline : newline ∉ lineOf (chars "set %a 1") := by decide
  have hbounds : ScansClosed syntaxVecLen (lineOf (chars "set %a 1")) := by decide
  obtain ⟨o, ho, -⟩ := shellDo_spec (fun _ => ⟨[], false, 0, 0, [], 0⟩) hbounds
  have hrun : (shellSystem.restrict fun _ buf => newline ∉ lineOf buf).Run
      ([] ++ [chars "set %a 1"]) o.table :=
    .snoc (.init fun _ => rfl) ⟨hline, hbounds, o, ho, rfl⟩
  exact ⟨o.table, vars_readable hrun⟩

/-! ### Setting a number to what is shown -/

theorem positional_hexadecimal (w : UInt32) : positional 16 (hexadecimal w) = w.toNat := by
  have htable : ∀ d < 16, digitValue ((digitTable true).getD d 0) = d := by decide
  unfold hexadecimal digitsOf positional
  by_cases hzero : w.toNat = 0
  · rw [if_pos hzero, hzero]
    rfl
  have hdigits : ((Nat.digits 16 w.toNat).map fun d => (digitTable true).getD d 0).map digitValue =
      Nat.digits 16 w.toNat := by
    rw [List.map_map]
    conv_rhs => rw [← List.map_id (Nat.digits 16 w.toNat)]
    exact List.map_congr_left fun d hd => htable d (Nat.digits_lt_base (by decide) hd)
  rw [if_neg hzero, List.map_reverse, List.reverse_reverse, hdigits, Nat.ofDigits_digits]

theorem numberLexeme (w : UInt32) :
    (Lexeme.number (Kstdio.text "0x" ++ hexadecimal w)).Valid ∧
      (Lexeme.number (Kstdio.text "0x" ++ hexadecimal w)).EndsAt [] ∧
      (Lexeme.number (Kstdio.text "0x" ++ hexadecimal w)).token = .luinteger w := by
  have hhex : HexText (Kstdio.text "0x" ++ hexadecimal w) (hexadecimal w) :=
    ⟨'x'.toUInt8, rfl, by decide, hexadecimal_isHex w⟩
  refine ⟨.inl ⟨hexadecimal w, hhex, ?_, hexadecimal_length_le w⟩,
    .inl ⟨⟨_, hhex⟩, fun a ha => by cases ha⟩, ?_⟩
  · exact digitsOf_length_pos true 16 w.toNat
  · have hvalue : Lexeme.numberValue (Kstdio.text "0x" ++ hexadecimal w) =
        positional 16 (hexadecimal w) := rfl
    rw [Lexeme.token, hvalue, positional_hexadecimal, UInt32.ofNat_toNat]

def setNumberLine (name value : List UInt8) : List UInt8 :=
  chars "set " ++ (sigilIntVar :: name ++ ' '.toUInt8 :: value)

theorem split_setNumberLine {name : List UInt8} (hname : ∀ c ∈ name, charIsAlphanum c = true)
    (w : UInt32) :
    Split (setNumberLine name (Kstdio.text "0x" ++ hexadecimal w))
      [.identifier (chars "set"), .variable (sigilIntVar :: name),
        .number (Kstdio.text "0x" ++ hexadecimal w)] := by
  have hgap : ∀ a ∈ [' '.toUInt8], a = ' '.toUInt8 := fun a ha => List.mem_singleton.mp ha
  have hspace : charIsAlphanum ' '.toUInt8 = false := by decide
  have hletters : (chars "et").all charIsAlphanum = true := rfl
  have hset : (Lexeme.identifier (chars "set")).EndsAt
      ([' '.toUInt8] ++ ((Lexeme.variable (sigilIntVar :: name)).text ++
        ([' '.toUInt8] ++ ((Lexeme.number (Kstdio.text "0x" ++ hexadecimal w)).text ++ [])))) :=
    ⟨'s'.toUInt8, chars "et", rfl, by decide, List.all_eq_true.mp hletters, fun a ha => by
      rw [← Option.some.inj ha]; exact hspace⟩
  have hvar : (Lexeme.variable (sigilIntVar :: name)).EndsAt
      ([' '.toUInt8] ++ ((Lexeme.number (Kstdio.text "0x" ++ hexadecimal w)).text ++ [])) :=
    ⟨sigilIntVar, name, rfl, by decide, hname, fun a ha => by
      rw [← Option.some.inj ha]; exact hspace⟩
  have hnone : ∀ a ∈ ([] : List UInt8), a = ' '.toUInt8 := fun a ha => by cases ha
  have hsplit := Split.cons hnone hset
    (.cons hgap hvar (.cons hgap (numberLexeme w).2.1 (.nil fun a ha => by cases ha)))
  have hline : setNumberLine name (Kstdio.text "0x" ++ hexadecimal w) =
      [] ++ ((Lexeme.identifier (chars "set")).text ++
        ([' '.toUInt8] ++ ((Lexeme.variable (sigilIntVar :: name)).text ++
          ([' '.toUInt8] ++
            ((Lexeme.number (Kstdio.text "0x" ++ hexadecimal w)).text ++ []))))) := by
    simp [setNumberLine, Lexeme.text, chars]
  rw [hline]
  exact hsplit

theorem nul_notMem_setNumberLine {name : List UInt8} (hname : ∀ c ∈ name, charIsAlphanum c = true)
    (w : UInt32) : 0 ∉ setNumberLine name (Kstdio.text "0x" ++ hexadecimal w) := by
  simp only [setNumberLine, List.mem_append, List.mem_cons, not_or]
  refine ⟨by decide, ⟨by decide, fun h => ?_⟩, by decide, by decide, fun h => ?_⟩
  · have halnum := hname _ h
    revert halnum
    decide
  · have hhex := hexadecimal_isHex w _ h
    revert hhex
    decide

theorem getCmdEntry_set : getCmdEntry (chars "set") = some ⟨chars "set", 2, .set⟩ := by decide

theorem shellDo_setNumberLine {name : List UInt8} (hname : ∀ c ∈ name, charIsAlphanum c = true)
    (hlen : name.length < 15) (w : UInt32) (t : VarTable) :
    shellDo t (setNumberLine name (Kstdio.text "0x" ++ hexadecimal w)) =
      .ok ⟨(cmdSet (.variable (sigilIntVar :: name)) (.luinteger w) t).1,
        .done (cmdSet (.variable (sigilIntVar :: name)) (.luinteger w) t).2,
        some ⟨.set, [.variable (sigilIntVar :: name), .luinteger w]⟩⟩ := by
  have hnul := nul_notMem_setNumberLine hname w
  have hlineOf : lineOf (setNumberLine name (Kstdio.text "0x" ++ hexadecimal w)) =
      setNumberLine name (Kstdio.text "0x" ++ hexadecimal w) := by
    refine List.takeWhile_eq_self_iff.mpr fun c hc => ?_
    rw [bne_iff_ne]
    rintro rfl
    exact hnul hc
  have hvalid : ∀ x ∈ [Lexeme.identifier (chars "set"), .variable (sigilIntVar :: name),
      .number (Kstdio.text "0x" ++ hexadecimal w)], x.Valid := by
    simp only [List.forall_mem_cons, List.not_mem_nil, false_implies, implies_true, and_true]
    exact ⟨(by decide : (chars "set").length ≤ 15), hlen, (numberLexeme w).1⟩
  have hdo := parserDo_of_split hnul (split_setNumberLine hname w) (Nat.le_refl 3) hvalid
  have hcount := syntaxVec_dataLen (by exact Nat.le_refl 3) hvalid
  have hcall : callCmd .set 2 (syntaxVec [.identifier (chars "set"),
      .variable (sigilIntVar :: name), .number (Kstdio.text "0x" ++ hexadecimal w)]) =
      some ⟨.set, [.variable (sigilIntVar :: name),
        (Lexeme.number (Kstdio.text "0x" ++ hexadecimal w)).token]⟩ := rfl
  rw [(numberLexeme w).2.2] at hcall
  unfold shellDo
  rw [hlineOf, hdo]
  dsimp only
  have hfirst : (syntaxVec [Lexeme.identifier (chars "set"), .variable (sigilIntVar :: name),
      .number (Kstdio.text "0x" ++ hexadecimal w)]).getD 0 .void = .identifier (chars "set") := rfl
  have hstr : (Token.identifier (chars "set")).str = chars "set" := rfl
  rw [hfirst, hstr, getCmdEntry_set, hcount]
  dsimp only [List.length_cons, List.length_nil]
  rw [if_neg (by decide), if_neg (by decide), if_neg (by decide), hcall]
  rfl

/-- The value that `vars` shows for a number, entered again in this or another
session, gives the variable this number and changes no other variable, as long
as the table has an entry for the variable or a free one. -/
theorem set_shown_number {bufs bufs' : List (List UInt8)} {t t' : VarTable}
    (hrun : shellSystem.Run bufs t) (hrun' : shellSystem.Run bufs' t') {i : Fin tableLen}
    (hused : (t i).used = true) (htype : (t i).type = typeInt) {value : List UInt8}
    (hvalue : (t i).valuePrint.text = some value) {j : Fin tableLen}
    (hj : (t' j).key = some (typeInt, (t i).name) ∨ (t' j).used = false) :
    ∃ o ve, shellDo t' (setNumberLine (t i).name value) = .ok o ∧ o.reply = .done 0 ∧
      Slots.get VarEntry.key o.table = Function.update (Slots.get VarEntry.key t')
        (typeInt, (t i).name) (some ve) ∧ ve.shown = (t i).shown := by
  obtain ⟨buf, -, hw⟩ := writtenBy_of_run hrun i hused
  have hname := hw.name_alphanum
  rw [valuePrint_text] at hvalue
  have hshown : value = Kstdio.text "0x" ++ hexadecimal (t i).intVal := by
    rw [← Option.some.inj hvalue, VarEntry.valueText, htype, if_neg (by decide), if_pos rfl]
  subst hshown
  have hnames : (Token.variable (sigilIntVar :: (t i).name)).Names typeInt (t i).name := .int _
  have hkind : KindFits typeInt (.luinteger (t i).intVal) := .inr ⟨.inl rfl, rfl⟩
  have hwf : (Token.variable (sigilIntVar :: (t i).name)).WellFormed := by
    refine ⟨hw.name_length, fun h => ?_, .inr (.inl rfl)⟩
    rcases List.mem_cons.mp h with h | h
    · revert h
      decide
    · have halnum := hname _ h
      revert halnum
      decide
  have hcode : (varSetEntry t' (.variable (sigilIntVar :: (t i).name))
      (.luinteger (t i).intVal)).2 = 0 := by
    rcases varSetEntry_cases t' (.luinteger (t i).intVal) hwf with
      ⟨hno, -⟩ | ⟨-, _, _, _, _, -, -, heq⟩
    · exact absurd hno (hnames.not_refused hkind hj)
    · rw [heq]
  have hset : cmdSet (.variable (sigilIntVar :: (t i).name)) (.luinteger (t i).intVal) t' =
      ((varSetEntry t' (.variable (sigilIntVar :: (t i).name)) (.luinteger (t i).intVal)).1,
        0) := by
    unfold cmdSet
    rw [← Prod.eta (varSetEntry t' _ _), hcode]
    rfl
  obtain ⟨type, name, r, hnames', ⟨vte, -, rfl, rfl⟩, -, hget⟩ :=
    varSetEntry_get (distinct_of_lines hrun') hwf hcode
  obtain ⟨rfl, hnm⟩ := hnames.functional hnames'
  refine ⟨_, vte.setValue typeInt (.luinteger (t i).intVal),
    shellDo_setNumberLine hname hw.name_length _ t', ?_, ?_, ?_⟩
  · rw [hset]
  · rw [hset, hget, hnm]
  · unfold VarEntry.shown
    rw [setValue_type, setValue_name, hnm, htype]
    rfl

def freshTable : VarTable := fun _ => ⟨[], false, 0, 0, [], 0⟩

/-- The number of `set %a 1`, entered in another session. -/
theorem set_shown_number_sample :
    ∃ (t : VarTable) (i : Fin tableLen) (value : List UInt8) (o : Outcome) (ve : VarEntry),
      (t i).valuePrint.text = some value ∧
      shellDo freshTable (setNumberLine (t i).name value) = .ok o ∧ o.reply = .done 0 ∧
      Slots.get VarEntry.key o.table = Function.update (Slots.get VarEntry.key freshTable)
        (typeInt, (t i).name) (some ve) ∧ ve.shown = (t i).shown := by
  have hbounds : ScansClosed syntaxVecLen (lineOf (chars "set %a 1")) := by decide
  obtain ⟨o, ho, -⟩ := shellDo_spec freshTable hbounds
  have hrun : shellSystem.Run ([] ++ [chars "set %a 1"]) o.table :=
    .snoc (.init fun _ => rfl) ⟨hbounds, o, ho, rfl⟩
  have hentry : (shellDo freshTable (chars "set %a 1")).toOption.map
      (fun o => ((o.table ⟨0, by decide⟩).used, (o.table ⟨0, by decide⟩).type)) =
      some (true, typeInt) := by decide
  rw [ho, Except.toOption, Option.map_some] at hentry
  obtain ⟨hused, htype⟩ := Prod.mk.inj (Option.some.inj hentry)
  have hrun' : shellSystem.Run [] freshTable := .init fun _ => rfl
  have hfree : (freshTable ⟨0, by decide⟩).key = some (typeInt, (o.table ⟨0, by decide⟩).name) ∨
      (freshTable ⟨0, by decide⟩).used = false := .inr rfl
  obtain ⟨o', ve, h⟩ := set_shown_number hrun hrun' hused htype (valuePrint_text _) hfree
  exact ⟨o.table, _, _, o', ve, valuePrint_text _, h⟩

end Kboot86.Sh
