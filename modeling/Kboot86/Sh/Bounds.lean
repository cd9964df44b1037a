import Kboot86.Sh.Munch

/-!
# Does the lexer stay within the line?

`ScansClosed n line` says that of the first `n` tokens of the line, as far as
the parser asks for them, each starts with a loop that stops: an opened string
is closed, and a character that begins no token is followed by a space. The
parser stays within a line exactly when its first four tokens are so.
-/

namespace Kboot86.Sh

def Token.isLast (t : Token) : Bool := t.isError || t.isUnknown || t.isEoi

def ScansClosed : Nat → List UInt8 → Prop
  | 0, _ => True
  | n + 1, line =>
      let s := line.dropWhile charIsSkippable
      StartsClosed s ∧ ((munch s).1.isLast = false → ScansClosed n (munch s).2)

instance instDecidableScansClosed : ∀ n line, Decidable (ScansClosed n line)
  | 0, _ => isTrue trivial
  | n + 1, line =>
      have := instDecidableScansClosed n (munch (line.dropWhile charIsSkippable)).2
      inferInstanceAs (Decidable (StartsClosed (line.dropWhile charIsSkippable) ∧
        ((munch (line.dropWhile charIsSkippable)).1.isLast = false →
          ScansClosed n (munch (line.dropWhile charIsSkippable)).2)))

/-- One token, from a pointer into a line without a NUL in it. -/
theorem lexerProcess_eq {lx : Lexer} (heoi : lx.eoiReached = false) (hnul : 0 ∉ lx.forward) :
    lexerProcess lx =
      if StartsClosed (lx.forward.dropWhile charIsSkippable) then
        .ok
          { start := lx.forward.dropWhile charIsSkippable
            forward := (munch (lx.forward.dropWhile charIsSkippable)).2
            eoiReached := curChar (lx.forward.dropWhile charIsSkippable) == 0
            token := (munch (lx.forward.dropWhile charIsSkippable)).1
            tokenAvailable := true }
      else .error .overrun := by
  have hnul' : 0 ∉ lx.forward.dropWhile charIsSkippable :=
    fun h => hnul ((List.dropWhile_suffix _).subset h)
  rw [lexerProcess, heoi, if_neg (by simp), advanceWhile_eq (by decide), ok_bind,
    processToken_eq hnul']
  by_cases hclosed : StartsClosed (lx.forward.dropWhile charIsSkippable)
  · rw [if_pos hclosed, if_pos hclosed]
    rfl
  · rw [if_neg hclosed, if_neg hclosed]
    rfl

theorem curChar_ne_zero_of_not_eoi {s : List UInt8} (hnul : 0 ∉ s)
    (h : (munch s).1.isEoi = false) : (curChar s == 0) = false := by
  cases s with
  | nil => cases h
  | cons c rest =>
      have hc : c ≠ 0 := fun h => hnul (by simp [h])
      simpa [curChar] using hc

def afterToken (s : List UInt8) : Lexer where
  start := s
  forward := (munch s).2
  eoiReached := curChar s == 0
  token := (munch s).1
  tokenAvailable := false

theorem parserLoop_succ {lx : Lexer} (heoi : lx.eoiReached = false) (hnul : 0 ∉ lx.forward)
    {s : List UInt8} (hs : lx.forward.dropWhile charIsSkippable = s) (n idx : Nat) (token : Token)
    (vec : List Token) :
    parserLoop (n + 1) idx lx token vec =
      if StartsClosed s then
        if (munch s).1.isError then .ok (.error .errorToken)
        else if (munch s).1.isUnknown then .ok (.error .unknownToken)
        else if (munch s).1.isEoi then .ok (.ok (vec.set idx (munch s).1))
        else parserLoop n (idx + 1) (afterToken s) (munch s).1 (vec.set idx (munch s).1)
      else .error .overrun := by
  rw [parserLoop, lexerProcess_eq heoi hnul, hs]
  by_cases hclosed : StartsClosed s
  · rw [if_pos hclosed, if_pos hclosed]
    rfl
  · rw [if_neg hclosed, if_neg hclosed]
    rfl

/-- The loop of the parser returns exactly when the tokens it asks for start
with a loop that stops. -/
theorem parserLoop_isOk_iff :
    ∀ (n idx : Nat) (lx : Lexer) (token : Token) (vec : List Token), lx.eoiReached = false →
      0 ∉ lx.forward →
      ((∃ r, parserLoop n idx lx token vec = .ok r) ↔ ScansClosed n lx.forward)
  | 0, idx, lx, token, vec, _, _ => by
      refine ⟨fun _ => trivial, fun _ => ?_⟩
      rw [parserLoop]
      split
      · exact ⟨_, rfl⟩
      · exact ⟨_, rfl⟩
  | n + 1, idx, lx, token, vec, heoi, hnul => by
      generalize hs : lx.forward.dropWhile charIsSkippable = s
      have hnul' : 0 ∉ s := fun h => hnul ((List.dropWhile_suffix charIsSkippable).subset (hs ▸ h))
      rw [parserLoop_succ heoi hnul hs, ScansClosed, hs]
      by_cases hclosed : StartsClosed s
      · cases herror : (munch s).1.isError with
        | true => simp [hclosed, Token.isLast, herror]
        | false =>
            cases hunknown : (munch s).1.isUnknown with
            | true => simp [hclosed, Token.isLast, hunknown]
            | false =>
                cases hlast : (munch s).1.isEoi with
                | true => simp [hclosed, Token.isLast, hlast]
                | false =>
                    have hih := parserLoop_isOk_iff n (idx + 1) (afterToken s) (munch s).1
                      (vec.set idx (munch s).1) (curChar_ne_zero_of_not_eoi hnul' hlast)
                      fun h => hnul' ((munch_suffix s).subset h)
                    simpa [hclosed, Token.isLast, herror, hunknown, hlast, afterToken] using hih
      · rw [if_neg hclosed]
        refine ⟨?_, fun h => absurd h.1 hclosed⟩
        rintro ⟨r, hr⟩
        cases hr

/-- `parser_do` stays within a line exactly when the tokens that it asks for
start with a loop that stops within the line. -/
theorem parserDo_isOk_iff (line : List UInt8) (hnul : 0 ∉ line) :
    (∃ r, parserDo (some line) = .ok r) ↔ ScansClosed syntaxVecLen line :=
  parserLoop_isOk_iff syntaxVecLen 0 (lexerInit line) .void _ rfl hnul

/-- `set $a` and a number. -/
theorem parserDo_isOk_set : ∃ r, parserDo (some [115, 101, 116, 32, 36, 97, 32, 49]) = .ok r :=
  (parserDo_isOk_iff _ (by decide)).mpr (by decide)

/-- A line that opens a string and ends. -/
theorem parserDo_overrun_string : ¬ ∃ r, parserDo (some [33, 97]) = .ok r := by
  rintro ⟨r, hr⟩
  cases hr

end Kboot86.Sh
