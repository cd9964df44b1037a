import Kboot86.Sh.Lexeme

/-!
# Which lines the parser accepts

`Split line lxs` says that the line consists of the lexemes `lxs`, each as long
as it can be, with any number of spaces between them. A line can be split so
exactly as far as its strings are closed and its unknown runs end at a space.
The parser accepts a line that is split into at most three lexemes, all of them
valid, and gives their tokens.
-/

namespace Kboot86.Sh

/-- The line consists of the lexemes, with spaces between and around them. -/
inductive Split : List UInt8 → List Lexeme → Prop
  | nil {gap : List UInt8} : (∀ a ∈ gap, a = ' '.toUInt8) → Split gap []
  | cons {gap rest : List UInt8} {x : Lexeme} {lxs : List Lexeme} :
      (∀ a ∈ gap, a = ' '.toUInt8) → x.EndsAt rest → Split rest lxs →
      Split (gap ++ (x.text ++ rest)) (x :: lxs)

/-- The end `s` of the line is where a lexeme begins, or the end of the input. -/
inductive Begins (line : List UInt8) : List UInt8 → Prop
  | first : Begins line (line.dropWhile charIsSkippable)
  | next {x : Lexeme} {rest : List UInt8} :
      Begins line (x.text ++ rest) → x.EndsAt rest → Begins line (rest.dropWhile charIsSkippable)

/-- Each string that is opened is closed, and each run that starts with a
character that begins no token is followed by a space. -/
def LineClosed (line : List UInt8) : Prop := ∀ s, Begins line s → StartsClosed s

/-! ### A closed line is split into lexemes -/

theorem all_takeWhile (p : UInt8 → Bool) (l : List UInt8) : ∀ a ∈ l.takeWhile p, p a = true :=
  fun _ ha => List.mem_takeWhile_imp ha

theorem head_dropWhile (p : UInt8 → Bool) (l : List UInt8) :
    ∀ a ∈ (l.dropWhile p).head?, p a = false := by
  intro a ha
  have h := List.head?_dropWhile_not p l
  rw [Option.mem_def.mp ha] at h
  exact h

theorem run_of_first {first later : UInt8 → Bool} {c : UInt8} (hc : first c = true)
    (rest : List UInt8) : Run first later (c :: rest.takeWhile later) (rest.dropWhile later) :=
  ⟨c, _, rfl, hc, all_takeWhile later rest, head_dropWhile later rest⟩

theorem cons_takeWhile_append (p : UInt8 → Bool) (c : UInt8) (rest : List UInt8) :
    c :: rest = (c :: rest.takeWhile p) ++ rest.dropWhile p := by
  rw [List.cons_append, List.takeWhile_append_dropWhile]

theorem exists_number {c : UInt8} (hc : charIsDigit c = true) (rest : List UInt8) :
    ∃ text rest', c :: rest = text ++ rest' ∧ text ≠ [] ∧ (Lexeme.number text).EndsAt rest' := by
  by_cases hmark : c = '0'.toUInt8 ∧ ∃ m ∈ rest.head?, isHexMark m = true
  · rcases hmark with ⟨rfl, m, hm, hmark⟩
    cases rest with
    | nil => cases hm
    | cons a rest =>
        obtain rfl := Option.some.inj hm
        refine ⟨'0'.toUInt8 :: a :: rest.takeWhile charIsHex, rest.dropWhile charIsHex, ?_,
          List.cons_ne_nil _ _, .inl ⟨⟨_, a, rfl, hmark, all_takeWhile _ _⟩, head_dropWhile _ _⟩⟩
        rw [List.cons_append, ← cons_takeWhile_append]
  · refine ⟨_, _, cons_takeWhile_append charIsHex c rest, List.cons_ne_nil _ _,
      .inr ⟨run_of_first hc rest, ?_⟩⟩
    rintro ⟨htext, m, hm, hm'⟩
    obtain ⟨hzero, hnil⟩ := List.cons.inj htext
    have hrest : rest.dropWhile charIsHex = rest := by
      have happ := List.takeWhile_append_dropWhile (p := charIsHex) (l := rest)
      rwa [hnil, List.nil_append] at happ
    rw [hrest] at hm
    exact hmark ⟨hzero, m, hm, hm'⟩

theorem beginsNoToken_of {c : UInt8} (hsigil : isSigil c = false) (hdelim : c ≠ delimiterStr)
    (halpha : charIsAlpha c = false) (hdigit : charIsDigit c = false) :
    beginsNoToken c = true := by
  simp only [isSigil, Bool.or_eq_false_iff, beq_eq_false_iff_ne] at hsigil
  simp [beginsNoToken, hsigil, hdelim, halpha, hdigit]

theorem exists_lexeme {c : UInt8} {rest : List UInt8} (hclosed : StartsClosed (c :: rest))
    (hspace : c ≠ ' '.toUInt8) :
    ∃ x rest', c :: rest = Lexeme.text x ++ rest' ∧ x.text ≠ [] ∧ x.EndsAt rest' := by
  cases hsigil : isSigil c with
  | true =>
      exact ⟨.variable _, _, cons_takeWhile_append charIsAlphanum c rest, List.cons_ne_nil _ _,
        run_of_first hsigil rest⟩
  | false =>
  by_cases hdelim : c = delimiterStr
  · subst hdelim
    have hmem : delimiterStr ∈ rest := hclosed.1 rfl
    obtain ⟨before, after, hsplit, hbefore⟩ := List.eq_append_cons_of_mem hmem
    refine ⟨.string before, after, ?_, List.cons_ne_nil _ _, hbefore⟩
    rw [Lexeme.text, List.cons_append, List.append_assoc, List.singleton_append, hsplit]
  cases halpha : charIsAlpha c with
  | true =>
      exact ⟨.identifier _, _, cons_takeWhile_append charIsAlphanum c rest, List.cons_ne_nil _ _,
        run_of_first halpha rest⟩
  | false =>
  cases hdigit : charIsDigit c with
  | true =>
      obtain ⟨text, rest', heq, hne, hends⟩ := exists_number hdigit rest
      exact ⟨.number text, rest', heq, hne, hends⟩
  | false =>
      have hbegins := beginsNoToken_of hsigil hdelim halpha hdigit
      have hmem : ' '.toUInt8 ∈ rest := hclosed.2 hbegins
      refine ⟨.unknown _, _, cons_takeWhile_append (' '.toUInt8 != ·) c rest,
        List.cons_ne_nil _ _, run_of_first ?_ rest, ?_⟩
      · rw [hbegins, Bool.true_and, bne_iff_ne]
        exact hspace.symm
      · rw [ne_eq, List.dropWhile_eq_nil_iff]
        intro hall
        have hno := hall _ hmem
        rw [bne_self_eq_false] at hno
        cases hno

theorem ne_space_of_dropWhile {s rest : List UInt8} {c : UInt8}
    (h : s.dropWhile charIsSkippable = c :: rest) : c ≠ ' '.toUInt8 := by
  have hc := head_dropWhile charIsSkippable s c (by rw [h]; rfl)
  rintro rfl
  revert hc
  decide

theorem Split.gap {gap line : List UInt8} {lxs : List Lexeme} (hgap : ∀ a ∈ gap, a = ' '.toUInt8)
    (h : Split line lxs) : Split (gap ++ line) lxs := by
  cases h with
  | nil hline =>
      refine .nil fun a ha => ?_
      rcases List.mem_append.mp ha with ha | ha
      · exact hgap a ha
      · exact hline a ha
  | @cons gap' rest x lxs hgap' hx hrest =>
      rw [← List.append_assoc]
      refine .cons (fun a ha => ?_) hx hrest
      rcases List.mem_append.mp ha with ha | ha
      · exact hgap a ha
      · exact hgap' a ha

theorem Split.of_dropWhile {line : List UInt8} {lxs : List Lexeme}
    (h : Split (line.dropWhile charIsSkippable) lxs) : Split line lxs := by
  have hgap : ∀ a ∈ line.takeWhile charIsSkippable, a = ' '.toUInt8 := fun a ha =>
    (beq_iff_eq.mp (all_takeWhile _ _ a ha)).symm
  have hsplit := h.gap hgap
  rwa [List.takeWhile_append_dropWhile] at hsplit

theorem Split.of_dropWhile_nil {line : List UInt8} (h : line.dropWhile charIsSkippable = []) :
    Split line [] := by
  refine .of_dropWhile ?_
  rw [h]
  exact .nil fun a ha => by cases ha

theorem Split.of_dropWhile_cons {line rest : List UInt8} {x : Lexeme} {lxs : List Lexeme}
    (h : line.dropWhile charIsSkippable = x.text ++ rest) (hx : x.EndsAt rest)
    (hrest : Split rest lxs) : Split line (x :: lxs) := by
  refine .of_dropWhile ?_
  rw [h]
  have hcons : Split ([] ++ (x.text ++ rest)) (x :: lxs) := .cons (fun a ha => by cases ha) hx hrest
  exact hcons

/-- A closed line can be split from every place where a lexeme begins. -/
theorem LineClosed.split_from {line : List UInt8} (h : LineClosed line) :
    ∀ (n : Nat) (s : List UInt8), s.length ≤ n → Begins line (s.dropWhile charIsSkippable) →
      ∃ lxs, Split s lxs
  | n, s, hn, hs => by
      have hclosed := h _ hs
      cases hdrop : s.dropWhile charIsSkippable with
      | nil => exact ⟨[], .of_dropWhile_nil hdrop⟩
      | cons c rest =>
          rw [hdrop] at hclosed hs
          obtain ⟨x, rest', heq, hne, hends⟩ :=
            exists_lexeme hclosed (ne_space_of_dropWhile hdrop)
          rw [heq] at hs
          have hlen : rest'.length < s.length := by
            have hsuffix := (List.dropWhile_suffix (l := s) charIsSkippable).length_le
            have hpos := List.length_pos_iff.mpr hne
            rw [hdrop, heq, List.length_append] at hsuffix
            omega
          cases n with
          | zero => omega
          | succ n =>
              obtain ⟨lxs, hlxs⟩ := h.split_from n rest' (by omega) (hs.next hends)
              exact ⟨x :: lxs, .of_dropWhile_cons (hdrop.trans heq) hends hlxs⟩

theorem LineClosed.exists_split {line : List UInt8} (h : LineClosed line) :
    ∃ lxs, Split line lxs :=
  h.split_from line.length line (Nat.le_refl _) .first

/-! ### The parser on a line that is split -/

theorem endsAt_head {x : Lexeme} {rest : List UInt8} (h : x.EndsAt rest) :
    ∃ c t, x.text = c :: t ∧ c ≠ ' '.toUInt8 ∧ StartsClosed (x.text ++ rest) := by
  cases x with
  | identifier text =>
      rcases h with ⟨c, cs, rfl, hc, -⟩
      refine ⟨c, cs, rfl, ?_, startsClosed_of_token (not_delimiter_of _ hc (by decide)) ?_ _⟩
      · rintro rfl
        revert hc
        decide
      · simp [beginsNoToken, hc]
  | «variable» text =>
      rcases h with ⟨c, cs, rfl, hc, -⟩
      refine ⟨c, cs, rfl, ?_, startsClosed_of_token (not_delimiter_of _ hc (by decide)) ?_ _⟩
      · rintro rfl
        revert hc
        decide
      · simp only [isSigil, Bool.or_eq_true, beq_iff_eq] at hc
        rcases hc with (rfl | rfl) | rfl <;> decide
  | string inside =>
      refine ⟨delimiterStr, _, rfl, by decide, ?_⟩
      rw [Lexeme.text, List.cons_append, startsClosed_delimiter, List.append_assoc]
      exact List.mem_append_right _ List.mem_cons_self
  | number text =>
      obtain ⟨c, cs, rfl, hc⟩ : ∃ c cs, text = c :: cs ∧ charIsDigit c = true := by
        rcases h with ⟨⟨digits, m, htext, -⟩, -⟩ | ⟨⟨c, cs, htext, hc, -⟩, -⟩
        · exact ⟨_, _, htext, by decide⟩
        · exact ⟨c, cs, htext, hc⟩
      refine ⟨c, cs, rfl, ?_, startsClosed_of_token (not_delimiter_of _ hc (by decide)) ?_ _⟩
      · rintro rfl
        revert hc
        decide
      · simp [beginsNoToken, hc]
  | unknown text =>
      rcases h with ⟨⟨c, cs, rfl, hc, hcs, hrest⟩, hne⟩
      rw [Bool.and_eq_true, bne_iff_ne] at hc
      refine ⟨c, cs, rfl, hc.2.symm, ?_⟩
      have hdelim : c ≠ delimiterStr := not_delimiter_of _ hc.1 (by decide)
      rw [Lexeme.text, List.cons_append, startsClosed_of_unknown hdelim hc.1]
      cases rest with
      | nil => exact absurd rfl hne
      | cons a rest =>
          have ha := hrest a rfl
          rw [bne_eq_false_iff_eq] at ha
          rw [ha]
          exact List.mem_append_right _ List.mem_cons_self

theorem dropWhile_gap {gap : List UInt8} (hgap : ∀ a ∈ gap, a = ' '.toUInt8) {x : Lexeme}
    {rest : List UInt8} (hx : x.EndsAt rest) :
    (gap ++ (x.text ++ rest)).dropWhile charIsSkippable = x.text ++ rest := by
  obtain ⟨c, t, htext, hc, -⟩ := endsAt_head hx
  refine dropWhile_run (fun a ha => ?_) fun a ha => ?_
  · rw [hgap a ha]
    decide
  · rw [htext] at ha
    obtain rfl := Option.some.inj ha
    exact beq_eq_false_iff_ne.mpr hc.symm

theorem Lexeme.Valid.token_kind {x : Lexeme} (h : x.Valid) :
    x.token.isError = false ∧ x.token.isUnknown = false ∧ x.token.isEoi = false := by
  cases x with
  | unknown text => exact h.elim
  | _ => exact ⟨rfl, rfl, rfl⟩

def syntaxVec (lxs : List Lexeme) : List Token :=
  lxs.map Lexeme.token ++ .eoi :: List.replicate (3 - lxs.length) .void

theorem set_append_replicate (done : List Token) (n : Nat) (t : Token) :
    (done ++ List.replicate (n + 1) Token.void).set done.length t =
      (done ++ [t]) ++ List.replicate n Token.void := by
  rw [List.set_append_right _ _ (Nat.le_refl _), Nat.sub_self, List.replicate_succ,
    List.set_cons_zero, List.append_assoc, List.singleton_append]

theorem parserLoop_nil {lx : Lexer} (heoi : lx.eoiReached = false) (hnul : 0 ∉ lx.forward)
    (hs : lx.forward.dropWhile charIsSkippable = []) (n idx : Nat) (t : Token)
    (vec : List Token) : parserLoop (n + 1) idx lx t vec = .ok (.ok (vec.set idx .eoi)) := by
  rw [parserLoop_succ heoi hnul hs, if_pos (show StartsClosed [] from trivial)]
  rfl

theorem parserLoop_valid {lx : Lexer} (heoi : lx.eoiReached = false) (hnul : 0 ∉ lx.forward)
    {x : Lexeme} {rest : List UInt8}
    (hs : lx.forward.dropWhile charIsSkippable = x.text ++ rest) (hx : x.EndsAt rest)
    (hv : x.Valid) (n idx : Nat) (t : Token) (vec : List Token) :
    ∃ lx', lx'.eoiReached = false ∧ lx'.forward = rest ∧ 0 ∉ rest ∧
      parserLoop (n + 1) idx lx t vec =
        parserLoop n (idx + 1) lx' x.token (vec.set idx x.token) := by
  obtain ⟨c, tail, -, -, hclosed⟩ := endsAt_head hx
  obtain ⟨tok, hmunch, hvalid, -⟩ := munch_lexeme hx
  obtain ⟨herror, hunknown, hlast⟩ := hv.token_kind
  obtain rfl := hvalid hv
  have hnul' : 0 ∉ x.text ++ rest := fun h =>
    hnul ((List.dropWhile_suffix charIsSkippable).subset (by rwa [hs]))
  refine ⟨afterToken (x.text ++ rest), ?_, ?_, fun h => hnul' (List.mem_append_right _ h), ?_⟩
  · exact curChar_ne_zero_of_not_eoi hnul' (by rw [hmunch]; exact hlast)
  · rw [afterToken, hmunch]
  · rw [parserLoop_succ heoi hnul hs, if_pos hclosed, hmunch, herror, hunknown, hlast]
    rfl

theorem parserLoop_invalid {lx : Lexer} (heoi : lx.eoiReached = false) (hnul : 0 ∉ lx.forward)
    {x : Lexeme} {rest : List UInt8}
    (hs : lx.forward.dropWhile charIsSkippable = x.text ++ rest) (hx : x.EndsAt rest)
    (hv : ¬ x.Valid) (n idx : Nat) (t : Token) (vec : List Token) :
    ∃ e, parserLoop (n + 1) idx lx t vec = .ok (.error e) := by
  obtain ⟨c, tail, -, -, hclosed⟩ := endsAt_head hx
  obtain ⟨tok, hmunch, -, hinvalid⟩ := munch_lexeme hx
  have hrefused := hinvalid hv
  rw [Token.isRefused, Bool.or_eq_true] at hrefused
  rw [parserLoop_succ heoi hnul hs, if_pos hclosed, hmunch]
  by_cases herror : tok.isError = true
  · exact ⟨.errorToken, by rw [if_pos herror]⟩
  · exact ⟨.unknownToken, by rw [if_neg herror, if_pos (hrefused.resolve_left herror)]⟩

/-- The loop of the parser on a line that is split: with `n` places to go it
takes less than `n` lexemes, all of them valid, and refuses any others. -/
theorem parserLoop_split :
    ∀ (n : Nat) (done : List Token) (lx : Lexer) (t : Token) (lxs : List Lexeme),
      lx.eoiReached = false → 0 ∉ lx.forward → Split lx.forward lxs →
      (lxs.length < n → (∀ x ∈ lxs, x.Valid) →
        parserLoop n done.length lx t (done ++ List.replicate n .void) =
          .ok (.ok (done ++ lxs.map Lexeme.token ++
            .eoi :: List.replicate (n - 1 - lxs.length) .void))) ∧
      (¬ (lxs.length < n ∧ ∀ x ∈ lxs, x.Valid) → t.isEoi = false →
        ∃ e, parserLoop n done.length lx t (done ++ List.replicate n .void) = .ok (.error e))
  | 0, done, lx, t, lxs, _, _, _ => by
      refine ⟨fun h => absurd h (Nat.not_lt_zero _), fun _ ht => ⟨.tooManyTokens, ?_⟩⟩
      rw [parserLoop, ht]
      rfl
  | n + 1, done, lx, t, lxs, heoi, hnul, hsplit => by
      generalize hline : lx.forward = line at hsplit
      cases hsplit with
      | nil hgap =>
          have hdrop : lx.forward.dropWhile charIsSkippable = [] :=
            List.dropWhile_eq_nil_iff.mpr fun a ha => by
              rw [hgap a (hline ▸ ha)]
              decide
          refine ⟨fun _ _ => ?_, fun hno => absurd ⟨Nat.succ_pos n, fun x hx => by cases hx⟩ hno⟩
          rw [parserLoop_nil heoi hnul hdrop, set_append_replicate]
          simp
      | @cons gap rest x lxs hgap hx hrest =>
          have hs : lx.forward.dropWhile charIsSkippable = x.text ++ rest := by
            rw [hline, dropWhile_gap hgap hx]
          by_cases hv : x.Valid
          · obtain ⟨lx', heoi', rfl, hnul', hloop⟩ := parserLoop_valid heoi hnul hs hx hv n
              done.length t (done ++ List.replicate (n + 1) .void)
            have ih := parserLoop_split n (done ++ [x.token]) lx' x.token lxs heoi' hnul' hrest
            rw [List.length_append, List.length_singleton] at ih
            rw [hloop, set_append_replicate]
            constructor
            · intro hlen hall
              rw [List.length_cons] at hlen
              rw [ih.1 (by omega) fun y hy => hall y (List.mem_cons_of_mem _ hy)]
              have hcount : n + 1 - 1 - (lxs.length + 1) = n - 1 - lxs.length := by omega
              rw [List.map_cons, List.length_cons, hcount, List.append_assoc done,
                List.singleton_append]
            · intro hno ht
              refine ih.2 (fun h => hno ⟨?_, ?_⟩) hv.token_kind.2.2
              · rw [List.length_cons]
                exact Nat.succ_lt_succ h.1
              · exact List.forall_mem_cons.mpr ⟨hv, h.2⟩
          · exact ⟨fun _ hall => absurd (hall x List.mem_cons_self) hv,
              fun _ _ => parserLoop_invalid heoi hnul hs hx hv n _ t _⟩

/-! ### A line that is accepted is split -/

theorem split_of_parserLoop :
    ∀ (n idx : Nat) (lx : Lexer) (t : Token) (vec v : List Token), lx.eoiReached = false →
      0 ∉ lx.forward → t.isEoi = false → parserLoop n idx lx t vec = .ok (.ok v) →
      ∃ lxs, Split lx.forward lxs
  | 0, idx, lx, t, vec, v, _, _, ht, h => by
      rw [parserLoop, ht] at h
      cases h
  | n + 1, idx, lx, t, vec, v, heoi, hnul, ht, h => by
      cases hdrop : lx.forward.dropWhile charIsSkippable with
      | nil => exact ⟨[], .of_dropWhile_nil hdrop⟩
      | cons c rest =>
          by_cases hclosed : StartsClosed (c :: rest)
          swap
          · rw [parserLoop_succ heoi hnul hdrop, if_neg hclosed] at h
            cases h
          obtain ⟨x, rest', heq, -, hends⟩ :=
            exists_lexeme hclosed (ne_space_of_dropWhile hdrop)
          have hs := hdrop.trans heq
          by_cases hv : x.Valid
          · obtain ⟨lx', heoi', rfl, hnul', hloop⟩ :=
              parserLoop_valid heoi hnul hs hends hv n idx t vec
            obtain ⟨lxs, hlxs⟩ := split_of_parserLoop n (idx + 1) lx' x.token _ v heoi' hnul'
              hv.token_kind.2.2 (hloop.symm.trans h)
            exact ⟨x :: lxs, .of_dropWhile_cons hs hends hlxs⟩
          · obtain ⟨e, he⟩ := parserLoop_invalid heoi hnul hs hends hv n idx t vec
            have herr := he.symm.trans h
            cases herr

theorem split_of_parserDo {line : List UInt8} (hnul : 0 ∉ line) {vec : List Token}
    (h : parserDo (some line) = .ok (.ok vec)) :
    ∃ lxs, Split line lxs ∧ lxs.length ≤ 3 ∧ (∀ x ∈ lxs, x.Valid) ∧ vec = syntaxVec lxs := by
  obtain ⟨lxs, hsplit⟩ := split_of_parserLoop syntaxVecLen 0 (lexerInit line) .void _ vec rfl hnul
    rfl h
  have hloop := parserLoop_split syntaxVecLen [] (lexerInit line) .void lxs rfl hnul hsplit
  by_cases hgood : lxs.length < syntaxVecLen ∧ ∀ x ∈ lxs, x.Valid
  · have hdo := (hloop.1 hgood.1 hgood.2).symm.trans h
    exact ⟨lxs, hsplit, Nat.le_of_lt_succ hgood.1, hgood.2,
      (Except.ok.inj (Except.ok.inj hdo)).symm⟩
  · obtain ⟨e, he⟩ := hloop.2 hgood rfl
    have hdo := he.symm.trans h
    cases hdo

theorem syntaxVec_dataLen {lxs : List Lexeme} (hlen : lxs.length ≤ 3)
    (hvalid : ∀ x ∈ lxs, x.Valid) : parserDataLen (syntaxVec lxs) = lxs.length := by
  have hfind : (List.range syntaxVecLen).find?
      (fun i => ((syntaxVec lxs).getD i .void).isEoi) = some lxs.length := by
    refine List.find?_range_eq_some.mpr ⟨?_, ?_, fun i hi => ?_⟩
    · rw [syntaxVec, List.getD_eq_getElem?_getD, List.getElem?_append_right (by simp),
        List.length_map, Nat.sub_self]
      rfl
    · rw [List.mem_range, syntaxVecLen]
      omega
    · have hmem : lxs[i] ∈ lxs := List.getElem_mem hi
      rw [syntaxVec, List.getD_eq_getElem?_getD,
        List.getElem?_append_left (by rw [List.length_map]; exact hi), List.getElem?_map,
        List.getElem?_eq_getElem hi, Option.map_some, Option.getD_some,
        (hvalid _ hmem).token_kind.2.2]
      rfl
  rw [parserDataLen, hfind, Option.getD_some]

/-- On a closed line the parser returns a vector exactly when the line is split
into at most three lexemes that are all valid, and the vector holds their
tokens. -/
theorem parserDo_accepts_iff (line : List UInt8) (hnul : 0 ∉ line) (hclosed : LineClosed line) :
    (∃ r, parserDo (some line) = .ok r) ∧
    ((∃ vec, parserDo (some line) = .ok (.ok vec)) ↔
      ∃ lxs, Split line lxs ∧ lxs.length ≤ 3 ∧ ∀ x ∈ lxs, x.Valid) ∧
    ∀ lxs, Split line lxs → lxs.length ≤ 3 → (∀ x ∈ lxs, x.Valid) →
      parserDo (some line) = .ok (.ok (syntaxVec lxs)) ∧
        parserDataLen (syntaxVec lxs) = lxs.length := by
  have hloop := fun lxs => parserLoop_split syntaxVecLen [] (lexerInit line) .void lxs rfl hnul
  have haccept : ∀ lxs, Split line lxs → lxs.length ≤ 3 → (∀ x ∈ lxs, x.Valid) →
      parserDo (some line) = .ok (.ok (syntaxVec lxs)) := fun lxs hsplit hlen hvalid =>
    (hloop lxs hsplit).1 (by rw [syntaxVecLen]; omega) hvalid
  obtain ⟨lxs, hsplit⟩ := hclosed.exists_split
  by_cases hgood : lxs.length ≤ 3 ∧ ∀ x ∈ lxs, x.Valid
  · have hdo := haccept lxs hsplit hgood.1 hgood.2
    refine ⟨⟨_, hdo⟩, iff_of_true ⟨_, hdo⟩ ⟨lxs, hsplit, hgood⟩, fun l hl hlen hvalid =>
      ⟨haccept l hl hlen hvalid, syntaxVec_dataLen hlen hvalid⟩⟩
  · have hbad : ¬ (lxs.length < syntaxVecLen ∧ ∀ x ∈ lxs, x.Valid) := fun h =>
      hgood ⟨Nat.le_of_lt_succ h.1, h.2⟩
    obtain ⟨e, he⟩ := (hloop lxs hsplit).2 hbad rfl
    have hdo : parserDo (some line) = .ok (.error e) := he
    refine ⟨⟨_, hdo⟩, iff_of_false ?_ ?_, fun l hl hlen hvalid =>
      ⟨haccept l hl hlen hvalid, syntaxVec_dataLen hlen hvalid⟩⟩
    · rintro ⟨vec, hvec⟩
      rw [hdo] at hvec
      cases hvec
    · rintro ⟨l, hl, hlen, hvalid⟩
      have hok := haccept l hl hlen hvalid
      rw [hdo] at hok
      cases hok

theorem Begins.suffix {line s : List UInt8} (h : Begins line s) : s <:+ line := by
  induction h with
  | first => exact List.dropWhile_suffix _
  | next _ _ ih => exact (List.dropWhile_suffix _).trans ((List.suffix_append _ _).trans ih)

theorem lineClosed_of_chars {line : List UInt8}
    (h : line.all (fun c => c != delimiterStr && (c == ' '.toUInt8 || !beginsNoToken c)) = true) :
    LineClosed line := by
  intro s hs
  have hhead : ∀ a ∈ s.head?, charIsSkippable a = false := by
    cases hs with
    | first => exact head_dropWhile _ _
    | next _ _ => exact head_dropWhile _ _
  cases s with
  | nil => trivial
  | cons c rest =>
      have hmem := List.all_eq_true.mp h c (hs.suffix.subset List.mem_cons_self)
      rw [Bool.and_eq_true, bne_iff_ne, Bool.or_eq_true, beq_iff_eq, Bool.not_eq_true'] at hmem
      rcases hmem with ⟨hdelim, hc⟩
      have hspace : c ≠ ' '.toUInt8 := by
        rintro rfl
        have hno := hhead _ rfl
        revert hno
        decide
      exact startsClosed_of_token hdelim (hc.resolve_left hspace) rest

/-- `set $a 1` consists of at most three valid lexemes. -/
theorem parserDo_accepts_set :
    ∃ lxs, Split [115, 101, 116, 32, 36, 97, 32, 49] lxs ∧ lxs.length ≤ 3 ∧
      ∀ x ∈ lxs, x.Valid :=
  (parserDo_accepts_iff _ (by decide) (lineClosed_of_chars rfl)).2.1.mp ⟨_, rfl⟩

end Kboot86.Sh
