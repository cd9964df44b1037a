import Kboot86.Lib.Kstdio.Number

/-!
# Formats in pieces

Where a directive ends does not depend on the arguments. A format that does not
end inside a directive can therefore be continued by another one: the second
goes on with the arguments that the first has left.
-/

namespace Kboot86.Kstdio

/-! ### The conversion character of a directive -/

def skipWidth (fmt : List UInt8) : List UInt8 :=
  if isDigit (fmtChar fmt) then (skipAtoi fmt 0).2 else fmt

def skipPrecision (fmt : List UInt8) : List UInt8 :=
  if fmtChar fmt = '.'.toUInt8 then skipWidth fmt.tail else fmt

def skipLength (fmt : List UInt8) : List UInt8 :=
  if fmtChar fmt = 'h'.toUInt8 ∨ fmtChar fmt = 'l'.toUInt8 ∨ fmtChar fmt = 'L'.toUInt8 then fmt.tail
  else fmt

def conversion (fmt : List UInt8) : List UInt8 :=
  skipLength (skipPrecision (skipWidth (parseFlags fmt noFlags).2))

theorem fmtChar_append {f : List UInt8} (hf : f ≠ []) (g : List UInt8) :
    fmtChar (f ++ g) = fmtChar f := by
  cases f with
  | nil => exact absurd rfl hf
  | cons c f => rfl

theorem tail_append {f : List UInt8} (hf : f ≠ []) (g : List UInt8) :
    (f ++ g).tail = f.tail ++ g := by
  cases f with
  | nil => exact absurd rfl hf
  | cons c f => rfl

theorem parseFlags_append {f : List UInt8} {flags : Flags} (hf : (parseFlags f flags).2 ≠ [])
    (g : List UInt8) :
    parseFlags (f ++ g) flags = ((parseFlags f flags).1, (parseFlags f flags).2 ++ g) := by
  induction f generalizing flags with
  | nil => exact absurd rfl hf
  | cons c f ih =>
      rw [List.cons_append, parseFlags, parseFlags]
      rw [parseFlags] at hf
      cases hset : flags.set c with
      | none => rfl
      | some flags' =>
          rw [hset] at hf
          exact ih hf

theorem skipAtoi_append {f : List UInt8} {i : Int} (hf : (skipAtoi f i).2 ≠ []) (g : List UInt8) :
    skipAtoi (f ++ g) i = ((skipAtoi f i).1, (skipAtoi f i).2 ++ g) := by
  induction f generalizing i with
  | nil => exact absurd rfl hf
  | cons c f ih =>
      rw [List.cons_append, skipAtoi, skipAtoi]
      rw [skipAtoi] at hf
      by_cases hc : isDigit c = true
      · rw [if_pos hc] at hf ⊢
        rw [if_pos hc]
        exact ih hf
      · rw [if_neg hc, if_neg hc]
        rfl

theorem ne_nil_of_skipWidth {f : List UInt8} (h : skipWidth f ≠ []) : f ≠ [] := by
  rintro rfl
  exact h rfl

theorem ne_nil_of_skipPrecision {f : List UInt8} (h : skipPrecision f ≠ []) : f ≠ [] := by
  rintro rfl
  exact h rfl

theorem ne_nil_of_skipLength {f : List UInt8} (h : skipLength f ≠ []) : f ≠ [] := by
  rintro rfl
  exact h rfl

def Conv.continued (v : Conv) (g : List UInt8) : Conv := { v with fmt := v.fmt ++ g }

section

variable {v : Conv} {g : List UInt8}

theorem Conv.parseWidth_fmt {v' : Conv} (h : v.parseWidth = some v') :
    v'.fmt = skipWidth v.fmt := by
  unfold Conv.parseWidth at h
  unfold skipWidth
  by_cases hdigit : isDigit (fmtChar v.fmt) = true
  · rw [if_pos hdigit] at h ⊢
    rw [← Option.some.inj h]
  rw [if_neg hdigit] at h ⊢
  split at h
  · split at h
    · cases h
    · dsimp only at h
      split at h
      all_goals rw [← Option.some.inj h]
  · rw [← Option.some.inj h]

theorem Conv.parseWidth_continued (hv : skipWidth v.fmt ≠ []) :
    (v.continued g).parseWidth = v.parseWidth.map fun u => u.continued g := by
  have hchar := fmtChar_append (ne_nil_of_skipWidth hv) g
  unfold Conv.parseWidth
  rw [Conv.continued, hchar]
  unfold skipWidth at hv
  by_cases hdigit : isDigit (fmtChar v.fmt) = true
  · rw [if_pos hdigit] at hv
    rw [if_pos hdigit, if_pos hdigit, skipAtoi_append hv]
    rfl
  rw [if_neg hdigit, if_neg hdigit]
  by_cases hstar : fmtChar v.fmt = '*'.toUInt8
  · rw [if_pos hstar, if_pos hstar]
    cases hargs : nextWord v.args with
    | none => rfl
    | some p =>
        dsimp only
        by_cases hneg : p.1.toInt32.toInt < 0
        · rw [if_pos hneg, if_pos hneg]
          rfl
        · rw [if_neg hneg, if_neg hneg]
          rfl
  · rw [if_neg hstar, if_neg hstar]
    rfl

theorem Conv.parsePrecision_fmt {v' : Conv} (h : v.parsePrecision = some v') :
    v'.fmt = skipPrecision v.fmt := by
  unfold Conv.parsePrecision at h
  unfold skipPrecision
  by_cases hdot : fmtChar v.fmt = '.'.toUInt8
  · rw [if_pos hdot] at h ⊢
    obtain ⟨u, hu, rfl⟩ := Option.map_eq_some_iff.mp h
    have hfmt : u.fmt = skipWidth v.fmt.tail := by
      unfold skipWidth
      by_cases hdigit : isDigit (fmtChar v.fmt.tail) = true
      · rw [if_pos hdigit] at hu ⊢
        rw [← Option.some.inj hu]
      rw [if_neg hdigit] at hu ⊢
      split at hu
      · split at hu
        · cases hu
        · rw [← Option.some.inj hu]
      · rw [← Option.some.inj hu]
    rw [← hfmt]
    split <;> rfl
  · rw [if_neg hdot] at h ⊢
    rw [← Option.some.inj h]

theorem Conv.parsePrecision_continued (hv : skipPrecision v.fmt ≠ []) :
    (v.continued g).parsePrecision = v.parsePrecision.map fun u => u.continued g := by
  have hne := ne_nil_of_skipPrecision hv
  have hchar := fmtChar_append hne g
  unfold Conv.parsePrecision
  rw [Conv.continued, hchar]
  unfold skipPrecision at hv
  by_cases hdot : fmtChar v.fmt = '.'.toUInt8
  · rw [if_pos hdot] at hv
    rw [if_pos hdot, if_pos hdot, tail_append hne, Option.map_map]
    have hchar' := fmtChar_append (ne_nil_of_skipWidth hv) g
    dsimp only
    rw [hchar']
    unfold skipWidth at hv
    by_cases hdigit : isDigit (fmtChar v.fmt.tail) = true
    · rw [if_pos hdigit] at hv
      rw [if_pos hdigit, if_pos hdigit, skipAtoi_append hv, Option.map_some, Option.map_some]
      dsimp only [Function.comp_apply]
      split <;> rfl
    rw [if_neg hdigit, if_neg hdigit]
    by_cases hstar : fmtChar v.fmt.tail = '*'.toUInt8
    · rw [if_pos hstar, if_pos hstar]
      cases hargs : nextWord v.args with
      | none => rfl
      | some p =>
          dsimp only [Option.map_some, Function.comp_apply]
          split <;> rfl
    · rw [if_neg hstar, if_neg hstar, Option.map_some, Option.map_some]
      dsimp only [Function.comp_apply]
      split <;> rfl
  · rw [if_neg hdot, if_neg hdot]
    rfl

theorem Conv.skipQualifier_fmt (v : Conv) : v.skipQualifier.fmt = skipLength v.fmt := by
  unfold Conv.skipQualifier skipLength
  split <;> rfl

theorem Conv.skipQualifier_continued (hv : skipLength v.fmt ≠ []) :
    (v.continued g).skipQualifier = v.skipQualifier.continued g := by
  have hne := ne_nil_of_skipLength hv
  unfold Conv.skipQualifier
  rw [Conv.continued, fmtChar_append hne]
  split
  · rw [tail_append hne]
    rfl
  · rfl

end

/-- Where the conversion character is does not depend on the arguments. -/
theorem parseConv_fmt {fmt : List UInt8} {args : List Arg} {v : Conv}
    (h : parseConv fmt args = some v) : v.fmt = conversion fmt := by
  obtain ⟨u, hu, rfl⟩ := Option.map_eq_some_iff.mp h
  obtain ⟨w, hw, hu⟩ := Option.bind_eq_some_iff.mp hu
  rw [Conv.skipQualifier_fmt, Conv.parsePrecision_fmt hu, Conv.parseWidth_fmt hw]
  rfl

theorem parseConv_append {f : List UInt8} (hf : conversion f ≠ []) (g : List UInt8)
    (args : List Arg) :
    parseConv (f ++ g) args = (parseConv f args).map fun v => v.continued g := by
  have hprecision := ne_nil_of_skipLength hf
  have hwidth := ne_nil_of_skipPrecision hprecision
  have hflags := ne_nil_of_skipWidth hwidth
  unfold parseConv
  rw [parseFlags_append hflags]
  dsimp only
  set v : Conv := ⟨(parseFlags f noFlags).1, -1, -1, (parseFlags f noFlags).2, args⟩ with hv
  have hstart : (⟨(parseFlags f noFlags).1, -1, -1, (parseFlags f noFlags).2 ++ g, args⟩ : Conv) =
      v.continued g := rfl
  rw [hstart, Conv.parseWidth_continued hwidth]
  cases hw : v.parseWidth with
  | none => rfl
  | some w =>
      have hwfmt := Conv.parseWidth_fmt hw
      have hne : skipPrecision w.fmt ≠ [] := by rwa [hwfmt]
      rw [Option.map_some, Option.bind_some, Option.bind_some, Conv.parsePrecision_continued hne]
      cases hp : w.parsePrecision with
      | none => rfl
      | some p =>
          have hpfmt := Conv.parsePrecision_fmt hp
          rw [Option.map_some, Option.map_some, Option.map_some, Option.map_some,
            Conv.skipQualifier_continued (by rwa [hpfmt, hwfmt])]

/-! ### The conversion -/

section

variable {v : Conv} {g : List UInt8}

theorem ne_nil_of_fmtChar {f : List UInt8} (h : fmtChar f ≠ 0) : f ≠ [] := by
  rintro rfl
  exact h rfl

def leftOf (g : List UInt8) (r : Output × List UInt8 × List Arg) : Output × List UInt8 × List Arg :=
  (r.1, r.2.1 ++ g, r.2.2)

theorem Conv.putNumber_continued (hv : v.fmt ≠ []) (base : UInt32) (out : Output) :
    (v.continued g).putNumber base out = (v.putNumber base out).map (leftOf g) := by
  unfold Conv.putNumber
  rw [Conv.continued, tail_append hv]
  cases hargs : nextWord v.args with
  | none => rfl
  | some p =>
      dsimp only
      rw [Option.map_map]
      rfl

theorem Conv.putOther_continued (hv : fmtChar v.fmt ≠ 0) (out : Output) :
    (v.continued g).putOther out = leftOf g (v.putOther out) := by
  have hne := ne_nil_of_fmtChar hv
  unfold Conv.putOther
  rw [Conv.continued, fmtChar_append hne, tail_append hne]
  dsimp only
  rw [if_pos hv, if_pos hv]
  rfl

theorem Conv.convert_continued (hv : fmtChar v.fmt ≠ 0) (out : Output) :
    (v.continued g).convert out = (v.convert out).map (leftOf g) := by
  have hne := ne_nil_of_fmtChar hv
  have hnumber : ∀ u : Conv, u.fmt = v.fmt → ∀ base,
      (u.continued g).putNumber base out = (u.putNumber base out).map (leftOf g) :=
    fun u hu base => Conv.putNumber_continued (by rwa [hu]) base out
  have hchar : fmtChar (v.continued g).fmt = fmtChar v.fmt := fmtChar_append hne g
  have htail : (v.continued g).fmt.tail = v.fmt.tail ++ g := tail_append hne g
  unfold Conv.convert
  rw [hchar, htail]
  dsimp only
  by_cases hc : fmtChar v.fmt = 'c'.toUInt8
  · rw [if_pos hc, if_pos hc, Option.map_map]
    rfl
  rw [if_neg hc, if_neg hc]
  by_cases hs : fmtChar v.fmt = 's'.toUInt8
  · rw [if_pos hs, if_pos hs, Option.map_map]
    rfl
  rw [if_neg hs, if_neg hs]
  by_cases ho : fmtChar v.fmt = 'o'.toUInt8
  · rw [if_pos ho, if_pos ho]
    exact hnumber v rfl 8
  rw [if_neg ho, if_neg ho]
  by_cases hp : fmtChar v.fmt = 'p'.toUInt8
  · rw [if_pos hp, if_pos hp]
    by_cases hwidth : v.fieldWidth = -1
    · rw [if_pos hwidth]
      refine Eq.trans (if_pos hwidth) ?_
      exact hnumber { v with fieldWidth := 8, flags := { v.flags with zeropad := true } } rfl 16
    · rw [if_neg hwidth]
      refine Eq.trans (if_neg hwidth) ?_
      exact hnumber v rfl 16
  rw [if_neg hp, if_neg hp]
  by_cases hx : fmtChar v.fmt = 'x'.toUInt8
  · rw [if_pos hx, if_pos hx]
    exact hnumber { v with flags := { v.flags with small := true } } rfl 16
  rw [if_neg hx, if_neg hx]
  by_cases hX : fmtChar v.fmt = 'X'.toUInt8
  · rw [if_pos hX, if_pos hX]
    exact hnumber v rfl 16
  rw [if_neg hX, if_neg hX]
  by_cases hd : fmtChar v.fmt = 'd'.toUInt8 ∨ fmtChar v.fmt = 'i'.toUInt8
  · rw [if_pos hd, if_pos hd]
    exact hnumber { v with flags := { v.flags with sign := true } } rfl 10
  rw [if_neg hd, if_neg hd]
  by_cases hu : fmtChar v.fmt = 'u'.toUInt8
  · rw [if_pos hu, if_pos hu]
    exact hnumber v rfl 10
  rw [if_neg hu, if_neg hu]
  by_cases hn : fmtChar v.fmt = 'n'.toUInt8
  · rw [if_pos hn, if_pos hn, Option.map_map]
    rfl
  · rw [if_neg hn, if_neg hn, Option.map_some, Conv.putOther_continued hv]

end

/-! ### A format and another behind it -/

theorem skipWidth_length (fmt : List UInt8) : (skipWidth fmt).length ≤ fmt.length := by
  unfold skipWidth
  split
  · exact skipAtoi_length _ _
  · exact Nat.le_refl _

theorem skipPrecision_length (fmt : List UInt8) : (skipPrecision fmt).length ≤ fmt.length := by
  unfold skipPrecision
  split
  · exact Nat.le_trans (skipWidth_length _) (tail_length_le _)
  · exact Nat.le_refl _

theorem skipLength_length (fmt : List UInt8) : (skipLength fmt).length ≤ fmt.length := by
  unfold skipLength
  split
  · exact tail_length_le _
  · exact Nat.le_refl _

theorem conversion_length (fmt : List UInt8) : (conversion fmt).length ≤ fmt.length :=
  calc (conversion fmt).length
      ≤ (skipPrecision (skipWidth (parseFlags fmt noFlags).2)).length := skipLength_length _
    _ ≤ (skipWidth (parseFlags fmt noFlags).2).length := skipPrecision_length _
    _ ≤ (parseFlags fmt noFlags).2.length := skipWidth_length _
    _ ≤ fmt.length := parseFlags_length _ _

/-- The format does not end inside a directive. -/
def closed (fmt : List UInt8) : Bool :=
  match fmt with
  | [] => true
  | c :: fmt =>
      if c ≠ '%'.toUInt8 then closed fmt
      else fmtChar (conversion fmt) != 0 && closed (conversion fmt).tail
termination_by fmt.length
decreasing_by
  · exact Nat.lt_succ_self _
  · exact Nat.lt_succ_of_le (Nat.le_trans (tail_length_le _) (conversion_length _))

theorem directive_append {f : List UInt8} (hf : fmtChar (conversion f) ≠ 0) (g : List UInt8)
    (args : List Arg) (out : Output) :
    directive (f ++ g) args out = (directive f args out).map (leftOf g) := by
  unfold directive
  rw [parseConv_append (ne_nil_of_fmtChar hf)]
  cases hv : parseConv f args with
  | none => rfl
  | some v =>
      rw [Option.map_some, Option.bind_some, Option.bind_some]
      exact Conv.convert_continued (by rwa [parseConv_fmt hv]) out

/-- Behind a closed format another one goes on, with the arguments and the
output that the first has left. -/
theorem kvsprintfFrom_append {f : List UInt8} (hf : closed f = true) (g : List UInt8)
    (args : List Arg) (out : Output) :
    kvsprintfFrom (f ++ g) args out =
      (kvsprintfFrom f args out).bind fun r => kvsprintfFrom g r.2 r.1 := by
  induction hn : f.length using Nat.strong_induction_on generalizing f args out with
  | _ n ih =>
      subst hn
      cases f with
      | nil =>
          rw [List.nil_append, kvsprintfFrom.eq_def []]
          rfl
      | cons c f =>
          rw [List.cons_append, kvsprintfFrom.eq_def (c :: (f ++ g)), kvsprintfFrom.eq_def (c :: f)]
          rw [closed] at hf
          dsimp only
          by_cases hc : c ≠ '%'.toUInt8
          · rw [if_pos hc] at hf
            rw [if_pos hc, if_pos hc]
            exact ih f.length (Nat.lt_succ_self _) hf args _ rfl
          · rw [if_neg hc, Bool.and_eq_true, bne_iff_ne] at hf
            rw [if_neg hc, if_neg hc, directive_append hf.1]
            cases hd : directive f args out with
            | none => rfl
            | some r =>
                obtain ⟨v, hv, hconv⟩ := Option.bind_eq_some_iff.mp hd
                have hvfmt := parseConv_fmt hv
                have hfmt : r.2.1 = (conversion f).tail := by
                  rw [← hvfmt]
                  exact Conv.convert_fmt hconv (by rw [hvfmt]; exact hf.1)
                have hlt : r.2.1.length < (c :: f).length := by
                  rw [hfmt]
                  exact Nat.lt_succ_of_le
                    (Nat.le_trans (tail_length_le _) (conversion_length _))
                exact ih _ hlt (by rw [hfmt]; exact hf.2) r.2.2 r.1 rfl

/-! ### Plain formats -/

/-- A character of a plain format, or one of its directives `%s`, `%x` and
`%d`. -/
inductive Piece where
  | char (c : UInt8)
  | str
  | hex
  | dec
deriving DecidableEq

def decimal (w : UInt32) : List UInt8 :=
  (if w.toInt32.toInt < 0 then ['-'.toUInt8] else []) ++
    digitsOf false 10 w.toInt32.toInt.natAbs

def hexadecimal (w : UInt32) : List UInt8 := digitsOf true 16 w.toNat

def pieces : List UInt8 → Option (List Piece)
  | [] => some []
  | [c] => if c ≠ '%'.toUInt8 then some [.char c] else none
  | c :: d :: fmt =>
      if c ≠ '%'.toUInt8 then (pieces (d :: fmt)).map (.char c :: ·)
      else if d = 's'.toUInt8 then (pieces fmt).map (.str :: ·)
      else if d = 'x'.toUInt8 then (pieces fmt).map (.hex :: ·)
      else if d = 'd'.toUInt8 then (pieces fmt).map (.dec :: ·)
      else none

def Piece.render : Piece → List Arg → Option (List UInt8 × List Arg)
  | .char c, args => some ([c], args)
  | .str, args => nextStr args
  | .hex, args => (nextWord args).map fun a => (hexadecimal a.1, a.2)
  | .dec, args => (nextWord args).map fun a => (decimal a.1, a.2)

def render : List Piece → List Arg → Option (List UInt8)
  | [], _ => some []
  | p :: ps, args => (p.render args).bind fun r => (render ps r.2).map (r.1 ++ ·)

section

variable {c : UInt8} (fmt : List UInt8) (args : List Arg) (out : Output)

theorem parseConv_letter (hc : c = 's'.toUInt8 ∨ c = 'x'.toUInt8 ∨ c = 'd'.toUInt8) :
    parseConv (c :: fmt) args = some ⟨noFlags, -1, -1, c :: fmt, args⟩ := by
  rcases hc with rfl | rfl | rfl <;> rfl

theorem directive_s :
    directive ('s'.toUInt8 :: fmt) args out =
      (nextStr args).map fun a => (out.put a.1, fmt, a.2) := by
  have hput : ∀ s, (⟨noFlags, -1, -1, 's'.toUInt8 :: fmt, args⟩ : Conv).putStr s = s := by
    intro s
    simp [Conv.putStr, noFlags, padWhile_eq]
  rw [directive, parseConv_letter fmt args (.inl rfl), Option.bind_some]
  unfold Conv.convert
  dsimp only [fmtChar, List.headD_cons]
  rw [if_neg (by decide), if_pos rfl]
  simp only [hput]
  rfl

theorem directive_x :
    directive ('x'.toUInt8 :: fmt) args out =
      (nextWord args).map fun a => (out.put (hexadecimal a.1), fmt, a.2) := by
  have hnumber : ∀ w, number w 16 (-1) (-1) { noFlags with small := true } =
      some (hexadecimal w) := by
    intro w
    rw [number_eq _ _ _ (by decide), justify_of_nonpos _ (by decide)]
    simp [signText, prefixText, withPrecision, magnitude, noFlags, hexadecimal]
  rw [directive, parseConv_letter fmt args (.inr (.inl rfl)), Option.bind_some]
  unfold Conv.convert
  dsimp only [fmtChar, List.headD_cons]
  rw [if_neg (by decide), if_neg (by decide), if_neg (by decide), if_neg (by decide), if_pos rfl]
  unfold Conv.putNumber
  cases hargs : nextWord args with
  | none => rfl
  | some a =>
      dsimp only
      rw [hnumber]
      rfl

theorem directive_d :
    directive ('d'.toUInt8 :: fmt) args out =
      (nextWord args).map fun a => (out.put (decimal a.1), fmt, a.2) := by
  have hnumber : ∀ w, number w 10 (-1) (-1) { noFlags with sign := true } =
      some (decimal w) := by
    intro w
    rw [number_eq _ _ _ (by decide), justify_of_nonpos _ (by decide)]
    simp [signText, prefixText, withPrecision, magnitude, noFlags, decimal]
  rw [directive, parseConv_letter fmt args (.inr (.inr rfl)), Option.bind_some]
  unfold Conv.convert
  dsimp only [fmtChar, List.headD_cons]
  rw [if_neg (by decide), if_neg (by decide), if_neg (by decide), if_neg (by decide),
    if_neg (by decide), if_neg (by decide), if_pos (.inl rfl)]
  unfold Conv.putNumber
  cases hargs : nextWord args with
  | none => rfl
  | some a =>
      dsimp only
      rw [hnumber]
      rfl

theorem kvsprintfFrom_char (hc : c ≠ '%'.toUInt8) :
    kvsprintfFrom (c :: fmt) args out = kvsprintfFrom fmt args (out.put [c]) := by
  rw [kvsprintfFrom.eq_def]
  exact if_pos hc

theorem kvsprintfFrom_directive :
    kvsprintfFrom ('%'.toUInt8 :: fmt) args out =
      (directive fmt args out).bind fun r => kvsprintfFrom r.2.1 r.2.2 r.1 := by
  rw [kvsprintfFrom.eq_def]
  dsimp only
  rw [if_neg (not_not_intro rfl)]
  cases directive fmt args out with
  | none => rfl
  | some r => rfl

end

section

variable {c d : UInt8} {fmt : List UInt8} {ps : List Piece}

theorem pieces_cons (h : pieces (c :: fmt) = some ps) :
    c ≠ '%'.toUInt8 ∧ (∃ ps', pieces fmt = some ps' ∧ ps = .char c :: ps') ∨
    c = '%'.toUInt8 ∧ ∃ d fmt' ps', fmt = d :: fmt' ∧ pieces fmt' = some ps' ∧
      (d = 's'.toUInt8 ∧ ps = .str :: ps' ∨ d = 'x'.toUInt8 ∧ ps = .hex :: ps' ∨
        d = 'd'.toUInt8 ∧ ps = .dec :: ps') := by
  cases fmt with
  | nil =>
      rw [pieces] at h
      by_cases hc : c ≠ '%'.toUInt8
      · rw [if_pos hc] at h
        exact .inl ⟨hc, [], rfl, (Option.some.inj h).symm⟩
      · rw [if_neg hc] at h
        cases h
  | cons d fmt =>
      rw [pieces] at h
      by_cases hc : c ≠ '%'.toUInt8
      · rw [if_pos hc] at h
        obtain ⟨ps', hps, rfl⟩ := Option.map_eq_some_iff.mp h
        exact .inl ⟨hc, ps', hps, rfl⟩
      rw [if_neg hc] at h
      refine .inr ⟨not_not.mp hc, d, fmt, ?_⟩
      by_cases hs : d = 's'.toUInt8
      · rw [if_pos hs] at h
        obtain ⟨ps', hps, rfl⟩ := Option.map_eq_some_iff.mp h
        exact ⟨ps', rfl, hps, .inl ⟨hs, rfl⟩⟩
      rw [if_neg hs] at h
      by_cases hx : d = 'x'.toUInt8
      · rw [if_pos hx] at h
        obtain ⟨ps', hps, rfl⟩ := Option.map_eq_some_iff.mp h
        exact ⟨ps', rfl, hps, .inr (.inl ⟨hx, rfl⟩)⟩
      rw [if_neg hx] at h
      by_cases hd : d = 'd'.toUInt8
      · rw [if_pos hd] at h
        obtain ⟨ps', hps, rfl⟩ := Option.map_eq_some_iff.mp h
        exact ⟨ps', rfl, hps, .inr (.inr ⟨hd, rfl⟩)⟩
      · rw [if_neg hd] at h
        cases h

end

/-- Of a plain format `kvsprintf` writes the pieces one after another. -/
theorem kvsprintfFrom_pieces (fmt : List UInt8) {ps : List Piece} (h : pieces fmt = some ps)
    (args : List Arg) (out : Output) :
    (kvsprintfFrom fmt args out).map (fun r => r.1.str) = (render ps args).map (out.str ++ ·) := by
  induction hn : fmt.length using Nat.strong_induction_on generalizing fmt ps args out with
  | _ n ih =>
      subst hn
      cases fmt with
      | nil =>
          obtain rfl := Option.some.inj h
          rw [kvsprintfFrom.eq_def, render, Option.map_some, Option.map_some, List.append_nil]
      | cons c fmt =>
          rcases pieces_cons h with ⟨hc, ps', hps, rfl⟩ | ⟨rfl, d, fmt', ps', rfl, hps, hd⟩
          · rw [kvsprintfFrom_char fmt args out hc, ih _ (Nat.lt_succ_self _) fmt hps _ _ rfl,
              render, Piece.render, Option.bind_some, Option.map_map]
            congr 1
            funext s
            exact List.append_assoc _ _ _
          have hlt : fmt'.length < ('%'.toUInt8 :: d :: fmt').length := by
            rw [List.length_cons, List.length_cons]
            omega
          have hrest := fun args out => ih _ hlt fmt' hps args out rfl
          -- The three directives take one argument and put one text.
          have hstep : ∀ (p : Piece) (rest : List Piece), ps = p :: rest → rest = ps' →
              directive (d :: fmt') args out =
                (p.render args).map (fun a => (out.put a.1, fmt', a.2)) →
              (kvsprintfFrom ('%'.toUInt8 :: d :: fmt') args out).map (fun r => r.1.str) =
                (render ps args).map (out.str ++ ·) := by
            rintro p rest rfl rfl hdirective
            rw [kvsprintfFrom_directive, hdirective, render]
            cases p.render args with
            | none => rfl
            | some a =>
                rw [Option.map_some, Option.bind_some, Option.bind_some, hrest, Option.map_map]
                congr 1
                funext s
                exact List.append_assoc _ _ _
          rcases hd with ⟨rfl, hps⟩ | ⟨rfl, hps⟩ | ⟨rfl, hps⟩
          · exact hstep _ _ hps rfl (directive_s fmt' args out)
          · refine hstep _ _ hps rfl ((directive_x fmt' args out).trans ?_)
            rw [Piece.render, Option.map_map]
            rfl
          · refine hstep _ _ hps rfl ((directive_d fmt' args out).trans ?_)
            rw [Piece.render, Option.map_map]
            rfl

theorem kvsprintf_pieces {fmt : List UInt8} {ps : List Piece} (h : pieces fmt = some ps)
    (args : List Arg) : kvsprintf fmt args = render ps args := by
  have hfrom := kvsprintfFrom_pieces fmt h args ⟨[], []⟩
  rw [kvsprintf, hfrom]
  cases render ps args <;> rfl

def plainText (fmt : List UInt8) (args : List Arg) : Option (List UInt8) :=
  (pieces fmt).bind fun ps => render ps args

theorem kvsprintf_plainText {fmt : List UInt8} {args : List Arg} {s : List UInt8}
    (h : plainText fmt args = some s) : kvsprintf fmt args = some s := by
  obtain ⟨ps, hps, hs⟩ := Option.bind_eq_some_iff.mp h
  rw [kvsprintf_pieces hps, hs]

/-! ### How long the text of a plain format is -/

theorem hexadecimal_length_le (w : UInt32) : (hexadecimal w).length ≤ 8 :=
  digitsOf_length_le true (by decide) (by decide) (UInt32.toNat_lt w)

theorem decimal_length_le (w : UInt32) : (decimal w).length ≤ 11 := by
  have hlt : w.toInt32.toInt.natAbs < 10 ^ 10 := by
    have hmag := magnitude_lt w { noFlags with sign := true }
    rw [magnitude, if_pos rfl] at hmag
    omega
  have hdigits := digitsOf_length_le false (by decide) (by decide) hlt
  rw [decimal, List.length_append]
  split
  · rw [List.length_singleton]
    omega
  · rw [List.length_nil]
    omega

def Arg.room : Arg → Nat
  | .word _ => 11
  | .str s => s.length

theorem eq_of_nextWord {args : List Arg} {a : UInt32 × List Arg} (h : nextWord args = some a) :
    args = .word a.1 :: a.2 := by
  unfold nextWord at h
  split at h
  · rw [← Option.some.inj h]
  · cases h

theorem nextStr_room {args : List Arg} {a : List UInt8 × List Arg} (h : nextStr args = some a) :
    a.1.length + (a.2.map Arg.room).sum ≤ (args.map Arg.room).sum := by
  unfold nextStr at h
  split at h
  · rw [← Option.some.inj h, List.map_cons, List.sum_cons]
    exact Nat.le_refl _
  · rw [← Option.some.inj h, List.map_cons, List.sum_cons, List.length_nil]
    exact Nat.add_le_add_right (Nat.zero_le _) _
  · cases h

theorem Piece.render_length_le {p : Piece} {args : List Arg} {r : List UInt8 × List Arg}
    (h : p.render args = some r) :
    r.1.length + (r.2.map Arg.room).sum ≤ 1 + (args.map Arg.room).sum := by
  have hword : ∀ f : UInt32 → List UInt8, (∀ w, (f w).length ≤ 11) →
      ((nextWord args).map fun a => (f a.1, a.2)) = some r →
      r.1.length + (r.2.map Arg.room).sum ≤ 1 + (args.map Arg.room).sum := by
    intro f hf h
    obtain ⟨a, ha, rfl⟩ := Option.map_eq_some_iff.mp h
    obtain rfl := eq_of_nextWord ha
    have hlen := hf a.1
    have hroom : Arg.room (.word a.1) = 11 := rfl
    rw [List.map_cons, List.sum_cons, hroom]
    dsimp only
    omega
  cases p with
  | char c =>
      rw [← Option.some.inj h]
      exact Nat.le_refl _
  | str =>
      have hroom := nextStr_room h
      omega
  | hex =>
      exact hword hexadecimal (fun w => Nat.le_trans (hexadecimal_length_le w) (by decide)) h
  | dec => exact hword decimal decimal_length_le h

theorem render_length_le {ps : List Piece} {args : List Arg} {s : List UInt8}
    (h : render ps args = some s) : s.length ≤ ps.length + (args.map Arg.room).sum := by
  induction ps generalizing args s with
  | nil =>
      rw [← Option.some.inj h]
      exact Nat.zero_le _
  | cons p ps ih =>
      obtain ⟨r, hr, hs⟩ := Option.bind_eq_some_iff.mp h
      obtain ⟨s', hs', rfl⟩ := Option.map_eq_some_iff.mp hs
      have hfirst := Piece.render_length_le hr
      have hrest := ih hs'
      rw [List.length_append, List.length_cons]
      omega

theorem pieces_length (fmt : List UInt8) {ps : List Piece} (h : pieces fmt = some ps) :
    ps.length ≤ fmt.length := by
  induction hn : fmt.length using Nat.strong_induction_on generalizing fmt ps with
  | _ n ih =>
      subst hn
      cases fmt with
      | nil =>
          rw [← Option.some.inj h]
          exact Nat.le_refl _
      | cons c fmt =>
          rcases pieces_cons h with ⟨-, ps', hps, rfl⟩ | ⟨-, d, fmt', ps', rfl, hps, hd⟩
          · have hrest := ih _ (Nat.lt_succ_self _) fmt hps rfl
            rw [List.length_cons, List.length_cons]
            omega
          have hlt : fmt'.length < (c :: d :: fmt').length := by
            rw [List.length_cons, List.length_cons]
            omega
          have hrest := ih _ hlt fmt' hps rfl
          have hlen : ps.length = ps'.length + 1 := by
            rcases hd with ⟨-, rfl⟩ | ⟨-, rfl⟩ | ⟨-, rfl⟩ <;> rfl
          rw [hlen, List.length_cons, List.length_cons]
          omega

/-- The text is no longer than the format and the room of the arguments. -/
theorem plainText_length_le {fmt : List UInt8} {args : List Arg} {s : List UInt8}
    (h : plainText fmt args = some s) : s.length ≤ fmt.length + (args.map Arg.room).sum := by
  obtain ⟨ps, hps, hs⟩ := Option.bind_eq_some_iff.mp h
  have hcount := pieces_length fmt hps
  have hlen := render_length_le hs
  omega

theorem closed_of_pieces (fmt : List UInt8) {ps : List Piece} (h : pieces fmt = some ps) :
    closed fmt = true := by
  induction hn : fmt.length using Nat.strong_induction_on generalizing fmt ps with
  | _ n ih =>
      subst hn
      cases fmt with
      | nil => rw [closed]
      | cons c fmt =>
          rcases pieces_cons h with ⟨hc, ps', hps, -⟩ | ⟨rfl, d, fmt', ps', rfl, hps, hd⟩
          · rw [closed, if_pos hc]
            exact ih _ (Nat.lt_succ_self _) fmt hps rfl
          have hlt : fmt'.length < ('%'.toUInt8 :: d :: fmt').length := by
            rw [List.length_cons, List.length_cons]
            omega
          have hconv : conversion (d :: fmt') = d :: fmt' ∧ d ≠ 0 := by
            rcases hd with ⟨rfl, -⟩ | ⟨rfl, -⟩ | ⟨rfl, -⟩ <;> exact ⟨rfl, by decide⟩
          rw [closed, if_neg (not_not_intro rfl), hconv.1, Bool.and_eq_true, bne_iff_ne]
          exact ⟨hconv.2, ih _ hlt fmt' hps rfl⟩

/-- `%s(%s)\t` and then `0x%x`. -/
theorem kvsprintfFrom_append_sample :
    kvsprintfFrom (text "%s(%s)\t" ++ text "0x%x") [.str [97], .str [98], .word 255] ⟨[], []⟩ =
      (kvsprintfFrom (text "%s(%s)\t") [.str [97], .str [98], .word 255] ⟨[], []⟩).bind fun r =>
        kvsprintfFrom (text "0x%x") r.2 r.1 :=
  kvsprintfFrom_append (closed_of_pieces (text "%s(%s)\t") rfl) _ _ _

end Kboot86.Kstdio
