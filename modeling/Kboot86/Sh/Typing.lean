import Kboot86.Sh.Terminal

/-!
# The lines that can be entered

A line can be entered when it is short enough and made of printable characters
that some key gives. Of the characters that the lexer has a use for, no key
gives the underscore; all others can be typed, in any order.
-/

namespace Kboot86.Sh

open Keyboard GetLine Console

def isShellChar (c : UInt8) : Bool :=
  charIsAlphanum c || isSigil c || c == delimiterStr || charIsSkippable c

def onKeymap (c : UInt8) : Bool :=
  (List.range 0x3b).any fun n =>
    let key := UInt8.ofNat n
    keyOf key == key && !isModifier key && [false, true].any fun shift => keymapChar key shift == c

theorem shellChars_onKeymap : (List.range 256).all (fun n =>
    !isShellChar (UInt8.ofNat n) || UInt8.ofNat n == '_'.toUInt8 ||
      mapControl false (UInt8.ofNat n) == UInt8.ofNat n && onKeymap (UInt8.ofNat n)) = true := by
  decide +kernel

set_option maxRecDepth 2000 in
theorem keymap_no_underscore :
    ∀ e ∈ keymap, ∀ shift : Bool, (if shift then e.2 else e.1).toUInt8 ≠ '_'.toUInt8 := by
  intro e he
  rw [keymap, List.mem_append] at he
  rcases he with he | he
  · revert e
    decide
  · obtain rfl := List.eq_of_mem_replicate he
    decide

theorem mapControl_ne_underscore {ctrl : Bool} {c : UInt8} (hc : c ≠ '_'.toUInt8) :
    mapControl ctrl c ≠ '_'.toUInt8 := by
  rw [mapControl]
  split
  · split
    · decide
    · exact hc
  split
  · split
    · decide
    · exact hc
  split
  · decide
  · exact hc

theorem underscore_notMem_decode (cs : List UInt8) : '_'.toUInt8 ∉ decode cs := by
  induction cs using List.reverseRecOn with
  | nil => simp [decode, decodeFrom]
  | append_singleton cs c ih =>
      rw [decode_snoc, List.mem_append, Option.mem_toList, not_or]
      refine ⟨ih, fun h => ?_⟩
      rw [charAfter] at h
      split at h
      · cases h
      · dsimp only at h
        split at h
        · refine mapControl_ne_underscore ?_ (Option.some.inj h)
          have hmem : keymap.getD (keyOf c).toNat (nul, nul) ∈ keymap := by
            rw [List.getD_eq_getElem _ _ (keyOf_lt c)]
            exact List.getElem_mem _
          exact keymap_no_underscore _ hmem _
        · cases h

theorem printable_of_shellChar {c : UInt8} (hc : isShellChar c = true) : printable c = true := by
  refine (printable_iff c).mpr ⟨?_, ?_, ?_, ?_, ?_⟩
  all_goals
    rintro rfl
    revert hc
    decide

/-- The keys give every character of the shell but the underscore. -/
theorem shellChar_typeable {c : UInt8} (hc : isShellChar c = true) :
    (∃ cs, c ∈ decode cs) ↔ c ≠ '_'.toUInt8 := by
  constructor
  · rintro ⟨cs, h⟩ rfl
    exact underscore_notMem_decode cs h
  · intro hne
    have hall := List.all_eq_true.mp shellChars_onKeymap c.toNat (List.mem_range.mpr c.toNat_lt)
    rw [UInt8.ofNat_toNat, hc, Bool.not_true, Bool.false_or, Bool.or_eq_true, beq_iff_eq,
      Bool.and_eq_true, beq_iff_eq] at hall
    obtain ⟨hplain, hkey⟩ := hall.resolve_left hne
    obtain ⟨n, -, hkey⟩ := List.any_eq_true.mp hkey
    rw [Bool.and_eq_true, Bool.and_eq_true, beq_iff_eq, Bool.not_eq_true'] at hkey
    obtain ⟨⟨hkey, hmod⟩, hshift⟩ := hkey
    obtain ⟨shift, -, hchar⟩ := List.any_eq_true.mp hshift
    have hmap : mapControl false (keymapChar (UInt8.ofNat n) shift) = c := by
      rw [beq_iff_eq.mp hchar]
      exact hplain
    have hzero : c ≠ 0 := by
      rintro rfl
      revert hc
      decide
    have hstroke := isrRun_stroke hkey hmod hmap hzero
    rw [isrRun_decodes] at hstroke
    exact ⟨_, by rw [(Prod.mk.inj hstroke).2]; exact List.mem_singleton_self c⟩

/-! ### Lines -/

/-- The line fits the buffer of the console, and each of its characters is
printable and that of some key. -/
def Enterable (line : List UInt8) : Prop :=
  line.length ≤ 128 ∧ ∀ c ∈ line, printable c = true ∧ ∃ cs, c ∈ decode cs

theorem mem_typed {cs : List UInt8} :
    (∀ line ∈ (GetLine.typed cs).1, ∀ c ∈ line, printable c = true ∧ c ∈ cs) ∧
      ∀ c ∈ (GetLine.typed cs).2, printable c = true ∧ c ∈ cs := by
  induction cs using List.reverseRecOn with
  | nil => exact ⟨by simp [GetLine.typed], by simp [GetLine.typed]⟩
  | append_singleton cs a ih =>
      obtain ⟨hlines, hcur⟩ := ih
      have hmono : ∀ {c : UInt8}, printable c = true ∧ c ∈ cs →
          printable c = true ∧ c ∈ cs ++ [a] := fun h => ⟨h.1, List.mem_append_left _ h.2⟩
      rw [typed_snoc, typeKey]
      split
      · refine ⟨fun line hline c hc => ?_, by simp⟩
        rcases List.mem_append.mp hline with hline | hline
        · exact hmono (hlines line hline c hc)
        · exact hmono (hcur c (List.mem_singleton.mp hline ▸ hc))
      · refine ⟨fun line hline c hc => hmono (hlines line hline c hc), fun c hc => ?_⟩
        rw [edit] at hc
        split at hc
        · exact hmono (hcur c (List.mem_of_mem_dropLast hc))
        split at hc
        · cases hc
        split at hc
        · rename_i hadd
          rcases List.mem_append.mp hc with hc | hc
          · exact hmono (hcur c hc)
          · obtain rfl := List.mem_singleton.mp hc
            exact ⟨hadd.1, by simp⟩
        · exact hmono (hcur c hc)

theorem foldl_typeKey {lines : List (List UInt8)} {cur line : List UInt8}
    (hlen : (cur ++ line).length ≤ 128) (hprint : ∀ c ∈ line, printable c = true) :
    line.foldl typeKey (lines, cur) = (lines, cur ++ line) := by
  induction line generalizing cur with
  | nil => rw [List.append_nil]; rfl
  | cons c line ih =>
      obtain ⟨hnl, -, hkill, -, hdel⟩ := (printable_iff c).mp (hprint c (by simp))
      have hroom : cur.length < 128 := by
        rw [List.length_append, List.length_cons] at hlen
        omega
      have hedit : edit cur c = cur ++ [c] := by
        rw [edit, if_neg hdel, if_neg hkill, if_pos ⟨hprint c (by simp), hroom⟩]
      rw [List.foldl_cons, typeKey, if_neg hnl, hedit,
        ih (by rwa [List.append_assoc, List.singleton_append])
          fun a ha => hprint a (List.mem_cons_of_mem _ ha), List.append_assoc,
        List.singleton_append]

theorem typed_lines {lines : List (List UInt8)}
    (hlines : ∀ line ∈ lines, line.length ≤ 128 ∧ ∀ c ∈ line, printable c = true) :
    GetLine.typed (lines.flatMap (· ++ [0x0a])) = (lines, []) := by
  induction lines using List.reverseRecOn with
  | nil => rfl
  | append_singleton lines line ih =>
      obtain ⟨hlen, hprint⟩ := hlines line (by simp)
      have htyped := ih fun l hl => hlines l (List.mem_append_left _ hl)
      rw [GetLine.typed] at htyped
      rw [List.flatMap_append, List.flatMap_singleton, GetLine.typed, List.foldl_append, htyped,
        List.foldl_append, foldl_typeKey (by rwa [List.nil_append]) hprint]
      rfl

/-- Lines can be entered one after the other exactly when each of them can, and
a line of shell characters can when it has up to 128 and no underscore. -/
theorem enterable_iff :
    (∀ lines, (∃ cs, (GetLine.typed (decode cs)).1 = lines) ↔ ∀ line ∈ lines, Enterable line) ∧
      ∀ line, (∀ c ∈ line, isShellChar c = true) →
        (Enterable line ↔ line.length ≤ 128 ∧ '_'.toUInt8 ∉ line) := by
  constructor
  · intro lines
    constructor
    · rintro ⟨cs, rfl⟩ line hline
      refine ⟨((Terminal.plain_typed (decode_typeable cs)).1 line hline).1, fun c hc => ?_⟩
      obtain ⟨hprint, hmem⟩ := mem_typed.1 line hline c hc
      exact ⟨hprint, cs, hmem⟩
    · intro hlines
      have hchars : ∀ c ∈ lines.flatMap (· ++ [0x0a]), ∃ cs, c ∈ decode cs := by
        intro c hc
        obtain ⟨line, hline, hc⟩ := List.mem_flatMap.mp hc
        rcases List.mem_append.mp hc with hc | hc
        · exact ((hlines line hline).2 c hc).2
        · exact ⟨[0x1c], List.mem_singleton.mp hc ▸ by decide⟩
      obtain ⟨cs, hcs, -⟩ := exists_scancodes hchars
      refine ⟨cs, ?_⟩
      rw [hcs, typed_lines fun line hline =>
        ⟨(hlines line hline).1, fun c hc => ((hlines line hline).2 c hc).1⟩]
  · intro line hline
    constructor
    · rintro ⟨hlen, hchars⟩
      exact ⟨hlen, fun h => (shellChar_typeable (hline _ h)).mp (hchars _ h).2 rfl⟩
    · rintro ⟨hlen, hno⟩
      refine ⟨hlen, fun c hc => ?_⟩
      exact ⟨printable_of_shellChar (hline c hc),
        (shellChar_typeable (hline c hc)).mpr fun h => hno (h ▸ hc)⟩

end Kboot86.Sh
