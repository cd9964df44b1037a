import Mathlib.Data.UInt
import Mathlib.Data.List.GetD

/-!
# The keyboard

`keyboard.c` over the table of `keymap.h`. The ISR remembers which modifiers are
down and passes a character for every other key that is pressed. `decode` says
what this is for: which characters the scancodes type, by what was pressed and
released before, with no state but the scancodes themselves.
-/

namespace Kboot86

def lctrl : UInt8 := 0x1d
def lshift : UInt8 := 0x2a
def rshift : UInt8 := 0x36

structure Keyboard where
  shift : Bool
  rshift : Bool
  lshift : Bool
  ctrl : Bool
deriving DecidableEq

namespace Keyboard

def nul : Char := Char.ofNat 0
def grave : Char := Char.ofNat 96
def del : Char := Char.ofNat 127

/-- `_keymap`: the characters without and with shift, from scancode 0 on. -/
def keymap : List (Char × Char) :=
  [(nul, nul), (nul, nul), ('1', '!'), ('2', nul), ('3', nul), ('4', '$'), ('5', '%'), ('6', nul),
    ('7', nul), ('8', nul), ('9', nul), ('0', nul), (nul, nul), (nul, nul), (del, nul), (nul, nul),
    ('q', 'Q'), ('w', 'W'), ('e', 'E'), ('r', 'R'), ('t', 'T'), ('y', 'Y'), ('u', 'U'), ('i', 'I'),
    ('o', 'O'), ('p', 'P'), (grave, nul), ('+', nul), ('\n', nul), ('X', nul), ('a', 'A'),
    ('s', 'S'), ('d', 'D'), ('f', 'F'), ('g', 'G'), ('h', 'H'), ('j', 'J'), ('k', 'K'), ('l', 'L'),
    ('Y', nul), ('Y', nul), ('Y', nul), ('X', nul), ('Y', nul), ('z', 'Z'), ('x', 'X'), ('c', 'C'),
    ('v', 'V'), ('b', 'B'), ('n', 'N'), ('m', 'M'), (',', nul), ('.', nul), ('-', nul), ('X', nul),
    ('Z', nul), ('Z', nul), (' ', ' '), ('Z', nul)] ++ List.replicate 69 (nul, nul)

theorem length_keymap : keymap.length = 128 := by
  rw [keymap, List.length_append, List.length_replicate]
  rfl

def keyboardInit : Keyboard where
  shift := false
  rshift := false
  lshift := false
  ctrl := false

def keymapChar (scancode : UInt8) (shift : Bool) : UInt8 :=
  let chars := keymap.getD scancode.toNat (nul, nul)
  (if shift then chars.2 else chars.1).toUInt8

def mapControl (ctrl : Bool) (c : UInt8) : UInt8 :=
  if c = 'u'.toUInt8 then if ctrl then '\r'.toUInt8 else c
  else if c = 'l'.toUInt8 then if ctrl then 127 else c
  else if c = 127 then 0x08
  else c

/-- What stands at `keyboard_isr_end`, but for the end of the interrupt. -/
def isrEnd (k : Keyboard) : Keyboard := { k with shift := k.lshift || k.rshift }

/-- `keyboard_isr` on a scancode, with the character that it passes to
`console_put_ibuf`. -/
def keyboardIsr (k : Keyboard) (scancode : UInt8) : Keyboard × Option UInt8 :=
  let make := !(0x80 &&& scancode != 0)
  let scancode := scancode &&& 0x7f
  if scancode = lctrl then ({ k with ctrl := make }.isrEnd, none)
  else if scancode = Kboot86.lshift then ({ k with lshift := make }.isrEnd, none)
  else if scancode = Kboot86.rshift then ({ k with rshift := make }.isrEnd, none)
  else if !make then (k.isrEnd, none)
  else
    let c := mapControl k.ctrl (keymapChar scancode k.shift)
    (k.isrEnd, if c ≠ 0 then some c else none)

def isrRun (k : Keyboard) : List UInt8 → Keyboard × List UInt8
  | [] => (k, [])
  | c :: cs =>
      let r := k.keyboardIsr c
      let r' := isrRun r.1 cs
      (r'.1, r.2.toList ++ r'.2)

/-! ### What the scancodes say -/

def keyOf (c : UInt8) : UInt8 := c &&& 0x7f

def isMake (c : UInt8) : Bool := !(0x80 &&& c != 0)

def held (key : UInt8) (cs : List UInt8) : Bool :=
  cs.foldl (fun down c => if keyOf c = key then isMake c else down) false

def isModifier (key : UInt8) : Bool :=
  key == lctrl || key == Kboot86.lshift || key == Kboot86.rshift

def charAfter (cs : List UInt8) (c : UInt8) : Option UInt8 :=
  if isModifier (keyOf c) || !isMake c then none
  else
    let shifted := held Kboot86.lshift cs || held Kboot86.rshift cs
    let c := mapControl (held lctrl cs) (keymapChar (keyOf c) shifted)
    if c ≠ 0 then some c else none

/-- The characters of scancodes that come after `pre`. -/
def decodeFrom (pre : List UInt8) : List UInt8 → List UInt8
  | [] => []
  | c :: cs => (charAfter pre c).toList ++ decodeFrom (pre ++ [c]) cs

def decode (cs : List UInt8) : List UInt8 := decodeFrom [] cs

def ofScancodes (cs : List UInt8) : Keyboard where
  shift := held Kboot86.lshift cs || held Kboot86.rshift cs
  rshift := held Kboot86.rshift cs
  lshift := held Kboot86.lshift cs
  ctrl := held lctrl cs

theorem held_snoc (key : UInt8) (cs : List UInt8) (c : UInt8) :
    held key (cs ++ [c]) = if keyOf c = key then isMake c else held key cs := by
  rw [held, List.foldl_append]
  rfl

theorem decodeFrom_append (pre cs ds : List UInt8) :
    decodeFrom pre (cs ++ ds) = decodeFrom pre cs ++ decodeFrom (pre ++ cs) ds := by
  induction cs generalizing pre with
  | nil => rw [List.append_nil]; rfl
  | cons c cs ih =>
      rw [List.cons_append, decodeFrom, decodeFrom, ih, List.append_assoc, List.append_assoc,
        List.singleton_append]

theorem decode_snoc (cs : List UInt8) (c : UInt8) :
    decode (cs ++ [c]) = decode cs ++ (charAfter cs c).toList := by
  rw [decode, decodeFrom_append, decodeFrom, decodeFrom, List.append_nil]
  rfl

theorem keyboardIsr_ofScancodes (cs : List UInt8) (c : UInt8) :
    (ofScancodes cs).keyboardIsr c = (ofScancodes (cs ++ [c]), charAfter cs c) := by
  have hlr : Kboot86.lshift ≠ Kboot86.rshift := by decide
  have hlc : Kboot86.lshift ≠ lctrl := by decide
  have hrc : Kboot86.rshift ≠ lctrl := by decide
  by_cases hctrl : keyOf c = lctrl
  · have hmod : isModifier (keyOf c) = true := by rw [hctrl]; rfl
    rw [keyboardIsr, charAfter, hmod, ofScancodes, ofScancodes, held_snoc, held_snoc, held_snoc,
      if_neg (hctrl.trans_ne hlc.symm), if_neg (hctrl.trans_ne hrc.symm), if_pos hctrl]
    exact if_pos hctrl
  by_cases hleft : keyOf c = Kboot86.lshift
  · have hmod : isModifier (keyOf c) = true := by rw [hleft]; rfl
    rw [keyboardIsr, charAfter, hmod, ofScancodes, ofScancodes, held_snoc, held_snoc, held_snoc,
      if_pos hleft, if_neg (hleft.trans_ne hlr), if_neg hctrl]
    exact (if_neg hctrl).trans (if_pos hleft)
  by_cases hright : keyOf c = Kboot86.rshift
  · have hmod : isModifier (keyOf c) = true := by rw [hright]; rfl
    rw [keyboardIsr, charAfter, hmod, ofScancodes, ofScancodes, held_snoc, held_snoc, held_snoc,
      if_neg hleft, if_pos hright, if_neg hctrl]
    exact (if_neg hctrl).trans ((if_neg hleft).trans (if_pos hright))
  have hmod : isModifier (keyOf c) = false := by simp [isModifier, hctrl, hleft, hright]
  have hsame : ofScancodes (cs ++ [c]) = ofScancodes cs := by
    rw [ofScancodes, ofScancodes, held_snoc, held_snoc, held_snoc, if_neg hleft, if_neg hright,
      if_neg hctrl]
  rw [keyboardIsr, charAfter, hmod, hsame, Bool.false_or]
  refine (if_neg hctrl).trans ((if_neg hleft).trans ((if_neg hright).trans ?_))
  cases hmake : isMake c with
  | false => exact if_pos (by simpa [isMake] using hmake)
  | true => exact if_neg (by simpa [isMake] using hmake)

/-- The ISR keeps of the past what matters: after any scancodes it remembers the
modifiers that are down, and it has passed the characters that were typed. -/
theorem isrRun_decodes (cs : List UInt8) :
    isrRun keyboardInit cs = (ofScancodes cs, decode cs) := by
  have hfrom : ∀ pre cs, isrRun (ofScancodes pre) cs =
      (ofScancodes (pre ++ cs), decodeFrom pre cs) := by
    intro pre cs
    induction cs generalizing pre with
    | nil => rw [List.append_nil]; rfl
    | cons c cs ih =>
        rw [isrRun, keyboardIsr_ofScancodes]
        dsimp only
        rw [ih, List.append_assoc, List.singleton_append]
        rfl
  exact hfrom [] cs

/-! ### What can be typed -/

/-- The keymap is read within its bounds. -/
theorem keyOf_lt (c : UInt8) : (keyOf c).toNat < keymap.length := by
  rw [length_keymap, keyOf, UInt8.toNat_and]
  exact Nat.lt_of_le_of_lt Nat.and_le_right (by decide)

/-- A printable character, a newline, a line kill, an erasure or the key that
clears the screen. -/
def Typeable (c : UInt8) : Prop :=
  0x20 ≤ c ∧ c < 0x7f ∨ c = 0x0a ∨ c = 0x0d ∨ c = 0x08 ∨ c = 0x7f

instance (c : UInt8) : Decidable (Typeable c) :=
  inferInstanceAs (Decidable (0x20 ≤ c ∧ c < 0x7f ∨ c = 0x0a ∨ c = 0x0d ∨ c = 0x08 ∨ c = 0x7f))

set_option maxRecDepth 2000 in
theorem keymap_typeable : ∀ e ∈ keymap, ∀ shift : Bool,
    (if shift then e.2 else e.1).toUInt8 = 0 ∨ Typeable (if shift then e.2 else e.1).toUInt8 := by
  intro e he
  rw [keymap, List.mem_append] at he
  rcases he with he | he
  · revert e
    decide
  · obtain rfl := List.eq_of_mem_replicate he
    decide

theorem mapControl_typeable {c : UInt8} (hc : Typeable c) (ctrl : Bool) :
    Typeable (mapControl ctrl c) := by
  rw [mapControl]
  split
  · split
    · decide
    · exact hc
  split
  · split
    · decide
    · exact hc
  split
  · decide
  · exact hc

/-- Nothing else is typed: no null character, no tab and no character above 127. -/
theorem charAfter_typeable {cs : List UInt8} {c a : UInt8} (h : charAfter cs c = some a) :
    Typeable a := by
  rw [charAfter] at h
  split at h
  · cases h
  · dsimp only at h
    split at h
    · rename_i hne
      obtain rfl := Option.some.inj h
      have hmem : keymap.getD (keyOf c).toNat (nul, nul) ∈ keymap := by
        rw [List.getD_eq_getElem _ _ (keyOf_lt c)]
        exact List.getElem_mem _
      rcases keymap_typeable _ hmem (held Kboot86.lshift cs || held Kboot86.rshift cs) with hz | ht
      · have hzero : keymapChar (keyOf c) (held Kboot86.lshift cs || held Kboot86.rshift cs) = 0 :=
          hz
        rw [hzero] at hne
        exact absurd rfl hne
      · exact mapControl_typeable ht _
    · cases h

theorem decode_typeable (cs : List UInt8) : ∀ a ∈ decode cs, Typeable a := by
  induction cs using List.reverseRecOn with
  | nil => simp [decode, decodeFrom]
  | append_singleton cs c ih =>
      intro a ha
      rw [decode_snoc, List.mem_append, Option.mem_toList] at ha
      exact ha.elim (ih a) charAfter_typeable

/-! ### Everything that can be typed can be typed after everything -/

def press (shift ctrl : Bool) : List UInt8 :=
  (if shift then [Kboot86.lshift] else []) ++ if ctrl then [lctrl] else []

def release (shift ctrl : Bool) : List UInt8 :=
  (if shift then [Kboot86.lshift ||| 0x80] else []) ++ if ctrl then [lctrl ||| 0x80] else []

def stroke (shift ctrl : Bool) (key : UInt8) : List UInt8 :=
  press shift ctrl ++ ([key, key ||| 0x80] ++ release shift ctrl)

theorem isrRun_append (k : Keyboard) (cs ds : List UInt8) :
    isrRun k (cs ++ ds) = ((isrRun (isrRun k cs).1 ds).1,
      (isrRun k cs).2 ++ (isrRun (isrRun k cs).1 ds).2) := by
  induction cs generalizing k with
  | nil => rfl
  | cons c cs ih => rw [List.cons_append, isrRun, isrRun, ih, List.append_assoc]

theorem keyOf_keyOf (c : UInt8) : keyOf (keyOf c) = keyOf c := by
  rw [keyOf, keyOf, UInt8.and_assoc]
  rfl

theorem isMake_keyOf (c : UInt8) : isMake (keyOf c) = true := by
  have hzero : (0x80 : UInt8) &&& 0x7f = 0 := by decide
  rw [isMake, keyOf, UInt8.and_comm c, ← UInt8.and_assoc, hzero]
  simp

theorem keyOf_release (key : UInt8) : keyOf (key ||| 0x80) = keyOf key := by
  apply UInt8.toBitVec_inj.mp
  rw [keyOf, keyOf, UInt8.toBitVec_and, UInt8.toBitVec_or, BitVec.and_or_distrib_right]
  exact BitVec.or_zero

theorem isMake_release (key : UInt8) : isMake (key ||| 0x80) = false := by
  have hne : 0x80 &&& (key ||| 0x80) ≠ 0 := by
    intro hz
    have hbits := congrArg UInt8.toBitVec hz
    rw [UInt8.toBitVec_and, UInt8.toBitVec_or, BitVec.and_or_distrib_left] at hbits
    have hbit := congrArg (fun b => b.getLsbD 7) hbits
    simp at hbit
  rw [isMake]
  simpa using hne

/-- A key that is no modifier, while modifiers are down. -/
theorem keyboardIsr_key {k : Keyboard} (hshift : k.shift = (k.lshift || k.rshift)) {c : UInt8}
    (hmod : isModifier (keyOf c) = false) :
    k.keyboardIsr c = (k,
      if isMake c ∧ mapControl k.ctrl (keymapChar (keyOf c) k.shift) ≠ 0 then
        some (mapControl k.ctrl (keymapChar (keyOf c) k.shift)) else none) := by
  have hend : k.isrEnd = k := by rw [isrEnd, ← hshift]
  simp only [isModifier, Bool.or_eq_false_iff, beq_eq_false_iff_ne] at hmod
  obtain ⟨⟨hctrl, hleft⟩, hright⟩ := hmod
  rw [keyboardIsr, hend]
  refine (if_neg hctrl).trans ((if_neg hleft).trans ((if_neg hright).trans ?_))
  change (if (!isMake c) = true then (k, none) else (k, if _ then _ else _)) = _
  cases isMake c with
  | false => simp
  | true => simp [keyOf]

/-- A stroke types the character of the key and leaves nothing pressed. -/
theorem isrRun_stroke {key : UInt8} (hkey : keyOf key = key) (hmod : isModifier key = false)
    {shift ctrl : Bool} {a : UInt8} (ha : mapControl ctrl (keymapChar key shift) = a)
    (hne : a ≠ 0) : isrRun keyboardInit (stroke shift ctrl key) = (keyboardInit, [a]) := by
  let k : Keyboard := ⟨shift, false, shift, ctrl⟩
  have hk : k.shift = (k.lshift || k.rshift) := (Bool.or_false shift).symm
  have hpress : isrRun keyboardInit (press shift ctrl) = (k, []) := by
    cases shift <;> cases ctrl <;> rfl
  have hrelease : isrRun k (release shift ctrl) = (keyboardInit, []) := by
    cases shift <;> cases ctrl <;> rfl
  have hkeys : isrRun k [key, key ||| 0x80] = (k, [a]) := by
    have hmake : isMake key = true := hkey ▸ isMake_keyOf key
    have hbreak : keyOf (key ||| 0x80) = key := (keyOf_release key).trans hkey
    have hdown : k.keyboardIsr key = (k, some a) := by
      rw [keyboardIsr_key hk (by rwa [hkey]), hkey, ha, if_pos ⟨hmake, hne⟩]
    have hup : k.keyboardIsr (key ||| 0x80) = (k, none) := by
      rw [keyboardIsr_key hk (by rwa [hbreak]), isMake_release,
        if_neg fun h => Bool.false_ne_true h.1]
    rw [isrRun, isrRun, isrRun, hdown, hup]
    rfl
  rw [stroke, isrRun_append, isrRun_append, hpress, hkeys, hrelease]
  rfl

/-- A character that some scancodes type is that of a stroke. -/
theorem exists_stroke {a : UInt8} (ha : ∃ cs, a ∈ decode cs) :
    ∃ cs, isrRun keyboardInit cs = (keyboardInit, [a]) := by
  obtain ⟨cs, ha⟩ := ha
  induction cs using List.reverseRecOn with
  | nil => simp [decode, decodeFrom] at ha
  | append_singleton cs c ih =>
      rw [decode_snoc, List.mem_append, Option.mem_toList] at ha
      rcases ha with ha | ha
      · exact ih ha
      rw [charAfter] at ha
      split at ha
      · cases ha
      · rename_i hcond
        obtain ⟨hmod, -⟩ := Bool.or_eq_false_iff.mp (Bool.eq_false_iff.mpr hcond)
        dsimp only at ha
        split at ha
        · rename_i hne
          obtain rfl := Option.some.inj ha
          exact ⟨_, isrRun_stroke (keyOf_keyOf c) hmod rfl hne⟩
        · cases ha

/-- What can be typed at all can be typed after anything, with all keys released
before and behind. -/
theorem exists_scancodes {line : List UInt8} (hline : ∀ a ∈ line, ∃ cs, a ∈ decode cs) :
    ∃ cs, decode cs = line ∧ ofScancodes cs = keyboardInit := by
  have hrun : ∃ cs, isrRun keyboardInit cs = (keyboardInit, line) := by
    induction line with
    | nil => exact ⟨[], rfl⟩
    | cons a line ih =>
        obtain ⟨cs, hcs⟩ := ih fun b hb => hline b (List.mem_cons_of_mem _ hb)
        obtain ⟨ds, hds⟩ := exists_stroke (hline a (by simp))
        refine ⟨ds ++ cs, ?_⟩
        rw [isrRun_append, hds, hcs]
        rfl
  obtain ⟨cs, hcs⟩ := hrun
  rw [isrRun_decodes] at hcs
  obtain ⟨hstate, hdecode⟩ := Prod.mk.inj hcs
  exact ⟨cs, hdecode, hstate⟩

end Keyboard

end Kboot86
