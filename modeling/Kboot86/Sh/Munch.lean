import Kboot86.Sh.Parser
import Mathlib.Data.List.TakeWhile

/-!
# Maximal munch

`munch` splits the first lexeme off a line by taking the longest run of
characters that belong to it. The functions of the lexer do the same, except
that the loops for a string and for characters that begin no token run over the
NUL when the character they look for does not come.
-/

namespace Kboot86.Sh

def beginsNoToken (c : UInt8) : Bool :=
  c != sigilStrVar && c != sigilIntVar && c != sigilBoolVar && c != delimiterStr &&
    !charIsAlpha c && !charIsDigit c

/-- What a line that does not start with a space needs for its first loop to
stop within the line. -/
def StartsClosed : List UInt8 → Prop
  | [] => True
  | c :: rest => (c = delimiterStr → delimiterStr ∈ rest) ∧
      (beginsNoToken c = true → ' '.toUInt8 ∈ rest)

instance : DecidablePred StartsClosed
  | [] => isTrue trivial
  | c :: rest => inferInstanceAs (Decidable ((c = delimiterStr → delimiterStr ∈ rest) ∧
      (beginsNoToken c = true → ' '.toUInt8 ∈ rest)))

def munchNumber (c : UInt8) (rest : List UInt8) : Token × List UInt8 :=
  if '0'.toUInt8 == c then
    if 'x'.toUInt8 == curChar rest || 'X'.toUInt8 == curChar rest then
      if !charIsHex (curChar rest.tail) then (.error .wrongNum, rest.tail)
      else (tokenSetLuinteger16 (rest.tail.takeWhile charIsHex), rest.tail.dropWhile charIsHex)
    else (tokenSetLuinteger8 (c :: rest.takeWhile charIsHex), rest.dropWhile charIsHex)
  else (tokenSetLuinteger10 (c :: rest.takeWhile charIsHex), rest.dropWhile charIsHex)

def munch : List UInt8 → Token × List UInt8
  | [] => (.eoi, [])
  | c :: rest =>
      if c = sigilStrVar ∨ c = sigilIntVar ∨ c = sigilBoolVar then
        (tokenSetVariable (c :: rest.takeWhile charIsAlphanum), rest.dropWhile charIsAlphanum)
      else if c = delimiterStr then
        (tokenSetLstring (rest.takeWhile (delimiterStr != ·)),
          (rest.dropWhile (delimiterStr != ·)).tail)
      else if charIsAlpha c then
        (tokenSetIdentifier (c :: rest.takeWhile charIsAlphanum), rest.dropWhile charIsAlphanum)
      else if charIsDigit c then munchNumber c rest
      else (.unknown, rest.dropWhile (' '.toUInt8 != ·))

/-! ### The loops -/

/-- A loop that the NUL stops takes the longest run. -/
theorem advanceWhile_eq {p : UInt8 → Bool} (h0 : p 0 = false) :
    ∀ s : List UInt8, advanceWhile p s = .ok (s.dropWhile p)
  | [] => by rw [advanceWhile, h0, List.dropWhile_nil]; rfl
  | c :: rest => by
      rw [advanceWhile, List.dropWhile_cons]
      cases hc : p c with
      | false => rfl
      | true => exact advanceWhile_eq h0 rest

/-- A loop that looks for a character stops within the line when the character
comes. -/
theorem advanceWhile_ne {a : UInt8} (ha : a ≠ 0) :
    ∀ s : List UInt8, advanceWhile (a != ·) s =
      if a ∈ s then .ok (s.dropWhile (a != ·)) else .error .overrun
  | [] => by simp [advanceWhile, ha]
  | c :: rest => by
      rw [advanceWhile, List.dropWhile_cons]
      by_cases hc : a = c
      · subst hc
        simp
      · have hp : (a != c) = true := by simpa using hc
        rw [if_pos hp, advanceWhile_ne ha rest]
        simp [hc]

theorem doAdvanceWhile_eq {p : UInt8 → Bool} (h0 : p 0 = false) (c : UInt8)
    (rest : List UInt8) : doAdvanceWhile p (c :: rest) = .ok (rest.dropWhile p) :=
  advanceWhile_eq h0 rest

theorem lexemeOf_append (run stop : List UInt8) : lexemeOf (run ++ stop) stop = run := by
  rw [lexemeOf, List.length_append, Nat.add_sub_cancel, List.take_left]

theorem lexemeOf_dropWhile (p : UInt8 → Bool) (s : List UInt8) :
    lexemeOf s (s.dropWhile p) = s.takeWhile p := by
  have h := lexemeOf_append (s.takeWhile p) (s.dropWhile p)
  rwa [List.takeWhile_append_dropWhile] at h

theorem lexemeOf_cons_dropWhile (p : UInt8 → Bool) (c : UInt8) (rest : List UInt8) :
    lexemeOf (c :: rest) (rest.dropWhile p) = c :: rest.takeWhile p := by
  have h := lexemeOf_append (c :: rest.takeWhile p) (rest.dropWhile p)
  rwa [List.cons_append, List.takeWhile_append_dropWhile] at h

theorem ok_bind {α β : Type} (a : α) (g : α → Except Fault β) : (Except.ok a >>= g) = g a := rfl

/-! ### The functions of the lexer -/

theorem isValid16_eq : isValid16 = charIsHex := rfl

theorem processIdentifier_eq (c : UInt8) (rest : List UInt8) :
    processIdentifier (c :: rest) = .ok (tokenSetIdentifier (c :: rest.takeWhile charIsAlphanum),
      rest.dropWhile charIsAlphanum) := by
  rw [processIdentifier, doAdvanceWhile_eq (by decide), ok_bind, lexemeOf_cons_dropWhile]
  rfl

theorem processVariable_eq (c : UInt8) (rest : List UInt8) :
    processVariable (c :: rest) = .ok (tokenSetVariable (c :: rest.takeWhile charIsAlphanum),
      rest.dropWhile charIsAlphanum) := by
  rw [processVariable, doAdvanceWhile_eq (by decide), ok_bind, lexemeOf_cons_dropWhile]
  rfl

theorem processString_eq (c : UInt8) (rest : List UInt8) :
    processString (c :: rest) = if delimiterStr ∈ rest then
      .ok (tokenSetLstring (rest.takeWhile (delimiterStr != ·)),
        (rest.dropWhile (delimiterStr != ·)).tail) else .error .overrun := by
  rw [processString, doAdvanceWhile, advanceWhile_ne (by decide)]
  by_cases h : delimiterStr ∈ rest
  · rw [if_pos h, if_pos h, ok_bind, moveForward, List.tail_cons, lexemeOf_dropWhile]
    rfl
  · rw [if_neg h, if_neg h]
    rfl

theorem processUnknown_eq (c : UInt8) (rest : List UInt8) :
    processUnknown (c :: rest) = if ' '.toUInt8 ∈ rest then
      .ok (.unknown, rest.dropWhile (' '.toUInt8 != ·)) else .error .overrun := by
  rw [processUnknown, doAdvanceWhile, advanceWhile_ne (by decide)]
  by_cases h : ' '.toUInt8 ∈ rest
  · rw [if_pos h, if_pos h]
    rfl
  · rw [if_neg h, if_neg h]
    rfl

/-- After the prefix `0x` there is a digit or the function stops at once. -/
theorem processLuinteger_eq (c : UInt8) (rest : List UInt8) :
    processLuinteger (c :: rest) = .ok (munchNumber c rest) := by
  have hhex : charIsHex 0 = false := by decide
  rw [processLuinteger, munchNumber, curChar, isValid16_eq]
  by_cases hzero : ('0'.toUInt8 == c) = true
  · rw [if_pos hzero, if_pos hzero]
    dsimp only [moveForward, List.tail_cons]
    by_cases hx : ('x'.toUInt8 == curChar rest || 'X'.toUInt8 == curChar rest) = true
    · rw [if_pos hx, if_pos hx]
      cases hdigits : rest.tail with
      | nil => rw [curChar, hhex]; rfl
      | cons a t =>
          cases ha : charIsHex a with
          | false => rw [curChar, ha]; rfl
          | true =>
              rw [curChar, ha, doAdvanceWhile_eq hhex, ok_bind, lexemeOf_cons_dropWhile,
                List.takeWhile_cons_of_pos ha, List.dropWhile_cons_of_pos ha]
              rfl
    · rw [if_neg hx, if_neg hx, doAdvanceWhile_eq hhex, ok_bind, lexemeOf_cons_dropWhile]
      rfl
  · rw [if_neg hzero, if_neg hzero, doAdvanceWhile_eq hhex, ok_bind, lexemeOf_cons_dropWhile]
    rfl

theorem startsClosed_of_token {c : UInt8} (hdelim : c ≠ delimiterStr)
    (hbegins : beginsNoToken c = false) (rest : List UInt8) : StartsClosed (c :: rest) :=
  ⟨fun h => absurd h hdelim, fun h => by rw [hbegins] at h; cases h⟩

theorem startsClosed_delimiter (rest : List UInt8) :
    StartsClosed (delimiterStr :: rest) ↔ delimiterStr ∈ rest :=
  ⟨fun h => h.1 rfl, fun h => ⟨fun _ => h, fun hno => absurd hno (by decide)⟩⟩

theorem startsClosed_of_unknown {c : UInt8} (hdelim : c ≠ delimiterStr)
    (hbegins : beginsNoToken c = true) (rest : List UInt8) :
    StartsClosed (c :: rest) ↔ ' '.toUInt8 ∈ rest :=
  ⟨fun h => h.2 hbegins, fun h => ⟨fun heq => absurd heq hdelim, fun _ => h⟩⟩

theorem processToken_eq {s : List UInt8} (hnul : 0 ∉ s) :
    processToken (curChar s) s = if StartsClosed s then .ok (munch s) else .error .overrun := by
  cases s with
  | nil => rfl
  | cons c rest =>
      have hc : c ≠ 0 := fun h => hnul (by simp [h])
      rw [processToken, curChar, if_neg hc, munch]
      by_cases hsigil : c = sigilStrVar ∨ c = sigilIntVar ∨ c = sigilBoolVar
      · have hclosed : StartsClosed (c :: rest) := by
          rcases hsigil with rfl | rfl | rfl <;>
            exact startsClosed_of_token (by decide) (by decide) rest
        rw [if_pos hsigil, if_pos hclosed, if_pos hsigil, processVariable_eq]
      rw [if_neg hsigil, if_neg hsigil]
      by_cases hdelim : c = delimiterStr
      · subst hdelim
        simp only [if_pos, startsClosed_delimiter, processString_eq]
      rw [if_neg hdelim, if_neg hdelim]
      by_cases halpha : charIsAlpha c = true
      · have hno : beginsNoToken c = false := by simp [beginsNoToken, halpha]
        rw [if_pos halpha, if_pos (startsClosed_of_token hdelim hno rest), if_pos halpha,
          processIdentifier_eq]
      rw [if_neg halpha, if_neg halpha]
      by_cases hdigit : charIsDigit c = true
      · have hno : beginsNoToken c = false := by simp [beginsNoToken, hdigit]
        rw [if_pos hdigit, if_pos (startsClosed_of_token hdelim hno rest), if_pos hdigit,
          processLuinteger_eq]
      have hbegins : beginsNoToken c = true := by
        simp only [not_or] at hsigil
        simp [beginsNoToken, hsigil, hdelim, halpha, hdigit]
      rw [if_neg hdigit, if_neg hdigit, processUnknown_eq]
      simp only [startsClosed_of_unknown hdelim hbegins]

theorem munchNumber_suffix (c : UInt8) (rest : List UInt8) : (munchNumber c rest).2 <:+ rest := by
  have hdigits := List.dropWhile_suffix (l := rest) charIsHex
  rw [munchNumber]
  split
  · split
    · split
      · exact List.tail_suffix rest
      · exact (List.dropWhile_suffix _).trans (List.tail_suffix rest)
    · exact hdigits
  · exact hdigits

theorem munch_suffix (s : List UInt8) : (munch s).2 <:+ s := by
  cases s with
  | nil => exact List.suffix_refl _
  | cons c rest =>
      refine List.IsSuffix.trans ?_ (List.suffix_cons c rest)
      rw [munch]
      split
      · exact List.dropWhile_suffix _
      split
      · exact (List.tail_suffix _).trans (List.dropWhile_suffix _)
      split
      · exact List.dropWhile_suffix _
      split
      · exact munchNumber_suffix c rest
      · exact List.dropWhile_suffix _

end Kboot86.Sh
