import Kboot86.Drivers.Console.Output

/-!
# The attributes of the cells

A cell has the character in its low byte and the attribute in its high byte.
The character is widened with its sign, so a character from `0x80` on sets all
bits of the attribute.
-/

namespace Kboot86

def HasBytes (cell : UInt16) (c attr : UInt8) : Prop :=
  cell.toUInt8 = c ∧ (cell >>> 8).toUInt8 = attr

namespace Vga

def BsodRight (v : Vga) : Prop :=
  ∀ i : UInt16, i.toNat < vgaNumRows * vgaNumCols →
    HasBytes (v.vgaSetBsod.mem i) (v.mem i).toUInt8 attrWhiteOnBlue

theorem encodeCharAttr_high (c attr : UInt8) :
    (encodeCharAttr c attr >>> 8).toUInt8 = if c < 0x80 then attr else 0xff := by
  have hmsb : c.toBitVec.msb = true ↔ ¬ c < 0x80 := by
    rw [BitVec.msb_eq_decide, decide_eq_true_iff, UInt8.lt_iff_toNat_lt]
    exact Nat.not_lt.symm
  rw [encodeCharAttr, ← UInt8.toBitVec_inj]
  ext i hi
  have h16 : 8 + i < 16 := by omega
  have hin : i < 16 := by omega
  have hsign : (BitVec.signExtend 16 c.toBitVec)[8 + i] = c.toBitVec.msb := by
    rw [BitVec.getElem_signExtend, dif_neg (by omega)]
  by_cases hc : c < 0x80
  · have hlow : c.toBitVec.msb = false := Bool.eq_false_iff.mpr fun h => hmsb.mp h hc
    simp [hi, h16, hin, hsign, hlow, hc]
  · have hhigh := hmsb.mpr hc
    have hones : (255#8)[i] = true := by
      have hall : 255#8 = BitVec.allOnes 8 := rfl
      rw [hall, BitVec.getElem_allOnes]
    simp [hi, h16, hin, hsign, hhigh, hc, hones]

/-- The two bytes that are put together come back from a plain character, and
from any character under the attribute with all bits. -/
theorem hasBytes_encodeCharAttr (c attr : UInt8) :
    HasBytes (encodeCharAttr c attr) c attr ↔ attr = 0xff ∨ c < 0x80 := by
  rw [HasBytes, encodeCharAttr_toUInt8, encodeCharAttr_high]
  by_cases hc : c < 0x80
  · rw [if_pos hc]
    exact iff_of_true ⟨rfl, rfl⟩ (.inr hc)
  · rw [if_neg hc]
    constructor
    · exact fun h => .inl h.2.symm
    · exact fun h => ⟨rfl, (h.resolve_right hc).symm⟩

/-! ### The blue screen -/

def bsodCell (cell : UInt16) : UInt16 := encodeCharAttr (cell &&& 0xff).toUInt8 attrWhiteOnBlue

theorem mem_bsodColumnTo {x : UInt32} (hx : x.toNat < vgaNumCols) (v : Vga) {n : Nat}
    (hn : n ≤ vgaNumRows) (i : UInt16) :
    (v.bsodColumnTo x n).mem i =
      if i.toNat % 80 = x.toNat ∧ i.toNat / 80 < n then bsodCell (v.mem i) else v.mem i := by
  have hlt : x.toNat < 80 := hx
  induction n generalizing i with
  | zero => rw [if_neg (by omega), bsodColumnTo]
  | succ n ih =>
      have hrows : vgaNumRows < UInt32.size := by decide
      have hy : (UInt32.ofNat n).toNat = n := UInt32.toNat_ofNat_of_lt' (by omega)
      have hidx : (xy2idx x (UInt32.ofNat n)).toNat = n * 80 + x.toNat := by
        rw [xy2idx_toNat ⟨hx, by omega⟩, hy]
        rfl
      rw [bsodColumnTo]
      dsimp only
      by_cases hi : i = xy2idx x (UInt32.ofNat n)
      · rw [hi, Function.update_self, ih (by omega), hidx, if_neg (by omega), if_pos (by omega),
          bsodCell]
      · have hne : i.toNat ≠ n * 80 + x.toNat := fun heq =>
          hi (UInt16.toNat_inj.mp (heq.trans hidx.symm))
        rw [Function.update_of_ne hi, ih (by omega)]
        exact if_congr (by omega) rfl rfl

theorem mem_bsodTo (v : Vga) {n : Nat} (hn : n ≤ vgaNumCols) (i : UInt16) :
    (v.bsodTo n).mem i =
      if i.toNat % 80 < n ∧ i.toNat / 80 < 25 then bsodCell (v.mem i) else v.mem i := by
  induction n with
  | zero => rw [if_neg (by omega), bsodTo]
  | succ n ih =>
      have hcols : vgaNumCols < UInt32.size := by decide
      have hrows : vgaNumRows = 25 := rfl
      have hx : (UInt32.ofNat n).toNat = n := UInt32.toNat_ofNat_of_lt' (by omega)
      rw [bsodTo, mem_bsodColumnTo (by omega) _ (Nat.le_refl _), ih (by omega), hx, hrows]
      by_cases hcol : i.toNat % 80 = n ∧ i.toNat / 80 < 25
      · rw [if_pos hcol, if_neg (by omega), if_pos (by omega)]
      · rw [if_neg hcol]
        exact if_congr (by omega) rfl rfl

theorem mem_vgaSetBsod (v : Vga) (i : UInt16) :
    v.vgaSetBsod.mem i = if i.toNat < 2000 then bsodCell (v.mem i) else v.mem i := by
  have hcols : vgaNumCols = 80 := rfl
  rw [vgaSetBsod, mem_bsodTo v (Nat.le_refl _), hcols]
  exact if_congr (by omega) rfl rfl

theorem low_byte (cell : UInt16) : (cell &&& 0xff).toUInt8 = cell.toUInt8 := by
  rw [← UInt8.toNat_inj, UInt16.toNat_toUInt8, UInt16.toNat_toUInt8, UInt16.toNat_and]
  change (cell.toNat &&& 255) % 256 = _
  rw [Nat.and_two_pow_sub_one_eq_mod _ 8]
  exact Nat.mod_mod _ _

theorem bsodRight_iff (v : Vga) :
    v.BsodRight ↔ ∀ i : UInt16, i.toNat < vgaNumRows * vgaNumCols → (v.mem i).toUInt8 < 0x80 := by
  refine forall_congr' fun i => forall_congr' fun hi => ?_
  have hne : attrWhiteOnBlue ≠ 0xff := by decide
  have hlt : i.toNat < 2000 := hi
  rw [mem_vgaSetBsod, if_pos hlt, bsodCell, low_byte, hasBytes_encodeCharAttr]
  exact or_iff_right hne

end Vga

namespace Console

open Vga

def afterChars (s : Console) (pre : List UInt8) : Console :=
  pre.foldl (fun s c => (s.putc c true).1) s

/-- The cells of the characters `pre`, typed from the state `s` on, are those
that `cell` gives, as far as they have not been scrolled away: after `rows`
scrolls each of them is `rows` rows up. -/
def CellsOf (s s' : Console) (pre : List UInt8) (cell : UInt8 → UInt16 → Prop) : Prop :=
  ∃ rows, s.pos + pre.length = s'.pos + 80 * rows ∧
    ∀ k (hk : k < pre.length), 80 * rows ≤ s.pos + k →
      cell pre[k] (s'.vga.mem (UInt16.ofNat (s.pos + k - 80 * rows)))

/-- A call that prints `str` from the state `s` on and ends in `s'` puts every
character with the attribute `attr` into its cell: when it is stored, and as
long as it stays on the screen. -/
structure StoredWith (s s' : Console) (attr : UInt8) (str : List UInt8) : Prop where
  stored : ∀ pre c, pre ++ [c] <+: str →
    HasBytes (((s.afterChars pre).writec c (s.afterChars pre).attr).vga.mem
      (xy2idx (s.afterChars pre).cursX.toUInt32 (s.afterChars pre).cursY.toUInt32)) c attr
  kept : s.InRange → CellsOf s s' str fun c cell => HasBytes cell c attr

section

variable {s : Console} {c : UInt8}

theorem attr_lineFeed (s : Console) : s.lineFeed.attr = s.attr := by
  unfold lineFeed
  dsimp only
  split <;> rfl

theorem attr_cursForward (s : Console) : s.cursForward.attr = s.attr := by
  unfold cursForward
  dsimp only
  split
  · rw [attr_lineFeed]
  · rfl

theorem putc_eq (s : Console) (hc : printable c = true) :
    (s.putc c true).1 = (s.writec c s.attr).cursForward := by
  rw [putc_of_printable s hc]
  rfl

theorem putc_cells (hs : s.InRange) (hc : printable c = true) :
    ∃ rows, s.pos + 1 = (s.putc c true).1.pos + 80 * rows ∧
      ∀ j ≤ s.pos, 80 * rows ≤ j →
        (s.putc c true).1.vga.mem (UInt16.ofNat (j - 80 * rows)) =
          if j = s.pos then encodeCharAttr c s.attr else s.vga.mem (UInt16.ofNat j) := by
  have hin : (s.writec c s.attr).InRange := hs
  have hstay : (s.writec c s.attr).pos = s.pos := rfl
  have hlt : s.pos < 2000 := Console.pos_lt hs
  have hval : ∀ j ≤ s.pos, (UInt16.ofNat j).toNat = j := fun j hj =>
    UInt16.toNat_ofNat_of_lt' (show j < 65536 by omega)
  have hwritten : ∀ j ≤ s.pos, (s.writec c s.attr).vga.mem (UInt16.ofNat j) =
      if j = s.pos then encodeCharAttr c s.attr else s.vga.mem (UInt16.ofNat j) := fun j hj => by
    rw [mem_writec_cursor hs, hval j hj]
  rw [putc_eq s hc]
  rcases cursForward_advances hin with ⟨-, hpos, hvga⟩ | ⟨hend, hpos, hvga⟩
  · refine ⟨0, by omega, fun j hj _ => ?_⟩
    rw [hvga, Nat.mul_zero, Nat.sub_zero, hwritten j hj]
  · have hlast : s.pos + 1 = 2000 := hend
    have hup : (s.writec c s.attr).cursForward.pos = 1920 := by
      rw [hpos, hend]
      rfl
    refine ⟨1, by omega, fun j hj hle => ?_⟩
    have hback : j - 80 * 1 + 80 = j := by omega
    rw [hvga, mem_scrollDown, hval _ (by omega), if_pos (by omega), hback, hwritten j hj]

theorem afterChars_snoc (s : Console) (pre : List UInt8) (c : UInt8) :
    s.afterChars (pre ++ [c]) = ((s.afterChars pre).putc c true).1 :=
  List.foldl_append

theorem attr_afterChars (s : Console) {pre : List UInt8} (hpre : ∀ c ∈ pre, printable c = true) :
    (s.afterChars pre).attr = s.attr := by
  induction pre using List.reverseRecOn with
  | nil => rfl
  | append_singleton pre c ih =>
      have hc := hpre c (List.mem_append_right pre (List.mem_singleton_self c))
      rw [afterChars_snoc, putc_eq _ hc, attr_cursForward]
      exact ih fun c' hc' => hpre c' (List.mem_append_left _ hc')

theorem afterChars_cells (hs : s.InRange) {pre : List UInt8}
    (hpre : ∀ c ∈ pre, printable c = true) :
    (s.afterChars pre).InRange ∧
      CellsOf s (s.afterChars pre) pre fun c cell => cell = encodeCharAttr c s.attr := by
  induction pre using List.reverseRecOn with
  | nil => exact ⟨hs, 0, rfl, fun k hk => absurd hk (Nat.not_lt_zero k)⟩
  | append_singleton pre c ih =>
      have hc := hpre c (List.mem_append_right pre (List.mem_singleton_self c))
      have hbefore : ∀ c' ∈ pre, printable c' = true := fun c' hc' =>
        hpre c' (List.mem_append_left _ hc')
      obtain ⟨hin, rows, hpos, hcells⟩ := ih hbefore
      obtain ⟨more, hnext, hcell⟩ := putc_cells hin hc
      have hlen : (pre ++ [c]).length = pre.length + 1 := List.length_append
      rw [afterChars_snoc]
      refine ⟨?_, rows + more, by omega, fun k hk hle => ?_⟩
      · rw [putc_of_printable _ hc]
        exact inRange_putcOther hin c true
      · have hindex : s.pos + k - 80 * (rows + more) = s.pos + k - 80 * rows - 80 * more := by
          omega
        rw [hindex, hcell _ (by omega) (by omega)]
        by_cases hlast : k = pre.length
        · subst hlast
          rw [if_pos (by omega), List.getElem_concat_length rfl, attr_afterChars s hbefore]
        · rw [if_neg (by omega), List.getElem_append_left (by omega)]
          exact hcells k (by omega) (by omega)

theorem stored_cell (s : Console) {pre : List UInt8} (hpre : ∀ c ∈ pre, printable c = true)
    (c : UInt8) :
    ((s.afterChars pre).writec c (s.afterChars pre).attr).vga.mem
      (xy2idx (s.afterChars pre).cursX.toUInt32 (s.afterChars pre).cursY.toUInt32) =
        encodeCharAttr c s.attr := by
  rw [attr_afterChars s hpre, writec, vgaWritecAttrXy]
  dsimp only
  rw [Function.update_self]

/-- A call is right exactly when no character changes the attribute. -/
theorem storedWith_iff {s' : Console} {str : List UInt8} (hstr : ∀ c ∈ str, printable c = true)
    (hpos : s'.pos = (s.afterChars str).pos) (hmem : s'.vga.mem = (s.afterChars str).vga.mem) :
    StoredWith s s' s.attr str ↔ s.attr = 0xff ∨ ∀ c ∈ str, c < 0x80 := by
  have heach : (s.attr = 0xff ∨ ∀ c ∈ str, c < 0x80) ↔ ∀ c ∈ str, s.attr = 0xff ∨ c < 0x80 := by
    by_cases hattr : s.attr = 0xff
    · exact iff_of_true (.inl hattr) fun _ _ => .inl hattr
    · simp only [hattr, false_or]
  rw [heach]
  constructor
  · intro h c hc
    obtain ⟨pre, post, rfl⟩ := List.append_of_mem hc
    have hpre : pre ++ [c] <+: pre ++ c :: post := ⟨post, by rw [List.append_assoc]; rfl⟩
    have hstored := h.stored pre c hpre
    rw [stored_cell s fun c' hc' => hstr c' (List.mem_append_left _ hc')] at hstored
    exact (hasBytes_encodeCharAttr c s.attr).mp hstored
  · intro h
    refine ⟨fun pre c hpre => ?_, fun hs => ?_⟩
    · have hc : c ∈ str := hpre.subset (List.mem_append_right pre (List.mem_singleton_self c))
      rw [stored_cell s fun c' hc' => hstr c' (hpre.subset (List.mem_append_left _ hc'))]
      exact (hasBytes_encodeCharAttr c s.attr).mpr (h c hc)
    · obtain ⟨-, rows, hrows, hcells⟩ := afterChars_cells hs hstr
      refine ⟨rows, hpos ▸ hrows, fun k hk hle => ?_⟩
      rw [hmem, hcells k hk hle]
      exact (hasBytes_encodeCharAttr _ s.attr).mpr (h _ (List.getElem_mem hk))

end

/-- A character from `0x80` on spoils the attribute of its cell, on the screen
of `console_puts` unless the attribute in force has all bits, always in
`console_puts_err` and in `vga_set_bsod`. -/
theorem attributes_iff (s : Console) {str : List UInt8}
    (hstr : ∀ c ∈ str, c ≠ 0 ∧ printable c = true) (v : Vga) :
    (StoredWith s (s.consolePuts (some str)).1 s.attr str ↔
      s.attr = 0xff ∨ ∀ c ∈ str, c < 0x80) ∧
    (StoredWith { s with attr := attrRedOnBlue } (s.consolePutsErr (some str)).1 attrRedOnBlue str ↔
      ∀ c ∈ str, c < 0x80) ∧
    (v.BsodRight ↔
      ∀ i : UInt16, i.toNat < vgaNumRows * vgaNumCols → (v.mem i).toUInt8 < 0x80) := by
  have hall : str.takeWhile (· ≠ 0) = str :=
    List.takeWhile_eq_self_iff.mpr fun c hc => decide_eq_true (hstr c hc).1
  have hprint : ∀ c ∈ str, printable c = true := fun c hc => (hstr c hc).2
  have hputs : ∀ t : Console, (t.consolePuts (some str)).1 = (t.afterChars str).drawCursor :=
    fun t => by rw [consolePuts, putsChars, hall, afterChars]
  refine ⟨?_, ?_, v.bsodRight_iff⟩
  · rw [hputs]
    exact storedWith_iff hprint rfl rfl
  · have hne : attrRedOnBlue ≠ 0xff := by decide
    have hlast : (s.consolePutsErr (some str)).1.vga.mem =
        (({ s with attr := attrRedOnBlue } : Console).afterChars str).vga.mem := by
      rw [consolePutsErr, hputs]
      rfl
    have hpos : (s.consolePutsErr (some str)).1.pos =
        (({ s with attr := attrRedOnBlue } : Console).afterChars str).pos := by
      rw [consolePutsErr, hputs]
      rfl
    exact (storedWith_iff hprint hpos hlast).trans (or_iff_right hne)

theorem attributes_iff_sample :
    (StoredWith lastCells (lastCells.consolePuts (some [0x41, 0xe9])).1 lastCells.attr
        [0x41, 0xe9] ↔
      lastCells.attr = 0xff ∨ ∀ c ∈ ([0x41, 0xe9] : List UInt8), c < 0x80) ∧
    (StoredWith { lastCells with attr := attrRedOnBlue }
        (lastCells.consolePutsErr (some [0x41, 0xe9])).1 attrRedOnBlue [0x41, 0xe9] ↔
      ∀ c ∈ ([0x41, 0xe9] : List UInt8), c < 0x80) ∧
    (lastCells.vga.BsodRight ↔ ∀ i : UInt16, i.toNat < vgaNumRows * vgaNumCols →
      (lastCells.vga.mem i).toUInt8 < 0x80) :=
  attributes_iff lastCells (by simp [printable]) lastCells.vga

/-- The character `0xe9` in green on black gets the attribute `0xff`. -/
theorem attribute_spoiled :
    ¬ StoredWith lastCells (lastCells.consolePuts (some [0xe9])).1 lastCells.attr [0xe9] := by
  intro h
  have hcell := (hasBytes_encodeCharAttr 0xe9 attrGreenOnBlack).mp
    ⟨(h.stored [] 0xe9 (List.prefix_refl _)).1, (h.stored [] 0xe9 (List.prefix_refl _)).2⟩
  exact absurd hcell (by decide)

end Console

end Kboot86
