import Kboot86.Drivers.Fat16.Directory
import Mathlib.Data.List.GetD

/-!
# Is the entry that of the file name?

A valid 8.3 name has a base name of 1 to 8 characters and, after a dot, an
extension of at most 3; an entry holds both in upper case, each filled up with
spaces. `_dir_entry_is_filename` builds this form and compares it with
`strncmp`, which leaves out the last character of each part. It also takes the
empty name for the name of an entry of spaces.
-/

namespace Kboot86.Fat16

/-- The characters of a name: letters, digits, underscore and hyphen. -/
def NameChar (c : UInt8) : Prop :=
  (97 ≤ c.toNat ∧ c.toNat ≤ 122) ∨ (65 ≤ c.toNat ∧ c.toNat ≤ 90) ∨
    (48 ≤ c.toNat ∧ c.toNat ≤ 57) ∨ c.toNat = 95 ∨ c.toNat = 45

structure IsName83 (filename base ext : List UInt8) : Prop where
  split : filename = base ∧ ext = [] ∨ filename = base ++ '.'.toUInt8 :: ext
  base_pos : 0 < base.length
  base_le : base.length ≤ 8
  ext_le : ext.length ≤ 3
  chars : ∀ c ∈ base ++ ext, NameChar c

def padded (l : List UInt8) (k : Nat) : UInt8 := (l.map char2upcase).getD k ' '.toUInt8

def form83 (base ext : List UInt8) (k : Nat) : UInt8 :=
  if k < 8 then padded base k else padded ext (k - 8)

/-- The entry is taken for that of the file name exactly when it is. -/
def NameDecided (filename : List UInt8) (de : DirEntry) : Prop :=
  dirEntryIsFilename de filename = true ↔
    ∃ base ext, IsName83 filename base ext ∧ ∀ k < 11, form83 base ext k = de k

theorem charIsValid_iff (c : UInt8) : charIsValid c = true ↔ NameChar c := by
  simp only [charIsValid, NameChar, Bool.or_eq_true, decide_eq_true_eq, beq_iff_eq,
    UInt8.le_iff_toNat_le, ← UInt8.toNat_inj]
  change ((97 ≤ c.toNat ∧ c.toNat ≤ 122 ∨ 65 ≤ c.toNat ∧ c.toNat ≤ 90) ∨
    48 ≤ c.toNat ∧ c.toNat ≤ 57) ∨ 95 = c.toNat ∨ 45 = c.toNat ↔ _
  omega

theorem not_nameChar_dot : ¬ NameChar '.'.toUInt8 := by
  unfold NameChar
  decide

theorem char2upcase_ne_zero {c : UInt8} (h : NameChar c) : char2upcase c ≠ 0 := by
  unfold char2upcase
  split
  next hlower =>
    rw [UInt8.le_iff_toNat_le, UInt8.le_iff_toNat_le] at hlower
    have ha : 'a'.toUInt8.toNat = 97 := rfl
    have hz : 'z'.toUInt8.toNat = 122 := rfl
    have hsub : (c - 'a'.toUInt8).toNat = c.toNat - 97 :=
      UInt8.toNat_sub_of_le _ _ (UInt8.le_iff_toNat_le.mpr hlower.1)
    have hsum : ('A'.toUInt8 + (c - 'a'.toUInt8)).toNat = 65 + (c.toNat - 97) := by
      rw [UInt8.toNat_add, hsub, show 'A'.toUInt8.toNat = 65 from rfl]
      omega
    intro hzero
    rw [hzero, UInt8.toNat_zero] at hsum
    omega
  · rintro rfl
    revert h
    unfold NameChar
    decide

/-! ### The two loops -/

def writeUpcase : List UInt8 → Nat → (Nat → UInt8) → Nat → UInt8
  | [], _, dest => dest
  | c :: rest, j, dest => writeUpcase rest (j + 1) (Function.update dest j (char2upcase c))

theorem writeUpcase_apply (k : Nat) :
    ∀ (l : List UInt8) (j : Nat) (dest : Nat → UInt8),
      writeUpcase l j dest k =
        if j ≤ k then (l.map char2upcase).getD (k - j) (dest k) else dest k
  | [], j, dest => by simp [writeUpcase]
  | c :: rest, j, dest => by
      rw [writeUpcase, writeUpcase_apply k rest (j + 1)]
      rcases Nat.lt_trichotomy k j with hlt | heq | hgt
      · rw [if_neg (by omega), if_neg (by omega), Function.update_of_ne (by omega)]
      · subst heq
        rw [if_neg (by omega), if_pos (Nat.le_refl k), Function.update_self, Nat.sub_self]
        rfl
      · have hsub : k - j = k - (j + 1) + 1 := by omega
        rw [if_pos (by omega), if_pos (by omega), Function.update_of_ne (by omega), hsub]
        rfl

theorem writeUpcase_spaces (l : List UInt8) :
    writeUpcase l 0 (fun _ => ' '.toUInt8) = padded l := by
  funext k
  rw [writeUpcase_apply, if_pos (Nat.zero_le k), Nat.sub_zero]
  rfl

theorem copyExtension_eq :
    ∀ (l : List UInt8) (j : Nat) (dest : Nat → UInt8), j ≤ 3 →
      copyExtension l j dest =
        if l.all charIsValid ∧ j + l.length ≤ 3 then some (writeUpcase l j dest) else none
  | [], j, dest, hj => (if_pos ⟨rfl, hj⟩).symm
  | c :: rest, j, dest, hj => by
      rw [copyExtension, fileExtensionLen, List.all_cons, List.length_cons]
      by_cases hfull : j ≥ 3
      · rw [if_pos hfull, if_neg (by omega)]
      rw [if_neg hfull]
      cases hc : charIsValid c with
      | false => simp
      | true =>
          rw [if_neg (by simp), copyExtension_eq rest (j + 1) _ (by omega), Bool.true_and,
            writeUpcase, Nat.add_assoc, Nat.add_comm 1]

/-- The first loop takes a base name of at most 8 valid characters, up to the
end of the name. -/
theorem copyBasename_plain :
    ∀ (l : List UInt8) (i : Nat) (dest : Nat → UInt8), '.'.toUInt8 ∉ l → i ≤ 8 →
      copyBasename l i dest =
        if l.all charIsValid ∧ i + l.length ≤ 8 then some ([], writeUpcase l i dest) else none
  | [], i, dest, _, hi => (if_pos ⟨rfl, hi⟩).symm
  | c :: rest, i, dest, hdot, hi => by
      rw [List.mem_cons, not_or] at hdot
      rw [copyBasename, fileBasenameLen, if_neg (Ne.symm hdot.1), List.all_cons, List.length_cons]
      by_cases hfull : i ≥ 8
      · rw [if_pos hfull, if_neg (by omega)]
      rw [if_neg hfull]
      cases hc : charIsValid c with
      | false => simp
      | true =>
          rw [if_neg (by simp), copyBasename_plain rest (i + 1) _ hdot.2 (by omega),
            Bool.true_and, writeUpcase, Nat.add_assoc, Nat.add_comm 1]

/-- Up to a dot the base name must have a character. -/
theorem copyBasename_dotted (ext : List UInt8) :
    ∀ (l : List UInt8) (i : Nat) (dest : Nat → UInt8), '.'.toUInt8 ∉ l → i ≤ 8 →
      copyBasename (l ++ '.'.toUInt8 :: ext) i dest =
        if l.all charIsValid ∧ i + l.length ≤ 8 ∧ 0 < i + l.length then
          some (ext, writeUpcase l i dest)
        else none
  | [], i, dest, _, hi => by
      rw [List.nil_append, copyBasename, if_pos rfl]
      by_cases hzero : i = 0
      · rw [if_pos hzero, if_neg (by simp [hzero])]
      · rw [if_neg hzero, if_pos ⟨rfl, hi, Nat.pos_of_ne_zero hzero⟩]
        rfl
  | c :: rest, i, dest, hdot, hi => by
      rw [List.mem_cons, not_or] at hdot
      rw [List.cons_append, copyBasename, fileBasenameLen, if_neg (Ne.symm hdot.1),
        List.all_cons, List.length_cons]
      by_cases hfull : i ≥ 8
      · rw [if_pos hfull, if_neg (by omega)]
      rw [if_neg hfull]
      cases hc : charIsValid c with
      | false => simp
      | true =>
          rw [if_neg (by simp), copyBasename_dotted ext rest (i + 1) _ hdot.2 (by omega),
            Bool.true_and, writeUpcase, Nat.add_assoc, Nat.add_comm 1]

/-! ### The whole function -/

section

variable {filename base ext : List UInt8}

theorem all_charIsValid_iff (l : List UInt8) :
    l.all charIsValid = true ↔ ∀ c ∈ l, NameChar c := by
  simp only [List.all_eq_true, charIsValid_iff]

theorem IsName83.dot_notMem (h : IsName83 filename base ext) : '.'.toUInt8 ∉ base := fun hdot =>
  not_nameChar_dot (h.chars _ (List.mem_append_left ext hdot))

theorem IsName83.copyBasename (h : IsName83 filename base ext) :
    copyBasename filename 0 (fun _ => ' '.toUInt8) = some (ext, padded base) := by
  have hvalid : base.all charIsValid = true :=
    (all_charIsValid_iff base).mpr fun c hc => h.chars c (List.mem_append_left ext hc)
  have hpos := h.base_pos
  have hle := h.base_le
  rcases h.split with ⟨hname, hext⟩ | hname
  · rw [hname, copyBasename_plain base 0 _ h.dot_notMem (by omega),
      if_pos ⟨hvalid, by omega⟩, writeUpcase_spaces, hext]
  · rw [hname, copyBasename_dotted ext base 0 _ h.dot_notMem (by omega),
      if_pos ⟨hvalid, by omega, by omega⟩, writeUpcase_spaces]

theorem IsName83.copyExtension (h : IsName83 filename base ext) :
    copyExtension ext 0 (fun _ => ' '.toUInt8) = some (padded ext) := by
  have hvalid : ext.all charIsValid = true :=
    (all_charIsValid_iff ext).mpr fun c hc => h.chars c (List.mem_append_right base hc)
  have hle := h.ext_le
  rw [copyExtension_eq ext 0 _ (by omega), if_pos ⟨hvalid, by omega⟩, writeUpcase_spaces]

def Taken (filename base ext : List UInt8) : Prop :=
  IsName83 filename base ext ∨ filename = [] ∧ base = [] ∧ ext = []

/-- The base name that the first loop took is that of a valid name when the
second loop takes the rest. -/
theorem taken_of_copied {b e : Nat → UInt8}
    (hbase : copyBasename filename 0 (fun _ => ' '.toUInt8) = some (ext, b))
    (hext : copyExtension ext 0 (fun _ => ' '.toUInt8) = some e) :
    ∃ base, Taken filename base ext ∧ b = padded base ∧ e = padded ext := by
  rw [copyExtension_eq ext 0 _ (by omega)] at hext
  split at hext
  swap
  · cases hext
  next hok =>
  obtain rfl := Option.some.inj hext
  rcases hok with ⟨hvalid, hle⟩
  rw [all_charIsValid_iff] at hvalid
  by_cases hdot : '.'.toUInt8 ∈ filename
  · obtain ⟨l, r, rfl, hl⟩ := List.eq_append_cons_of_mem hdot
    rw [copyBasename_dotted r l 0 _ hl (by omega)] at hbase
    split at hbase
    swap
    · cases hbase
    next hok =>
    obtain ⟨rfl, rfl⟩ := Prod.mk.inj (Option.some.inj hbase)
    rcases hok with ⟨hchars, hlen, hpos⟩
    rw [all_charIsValid_iff] at hchars
    refine ⟨l, .inl ⟨.inr rfl, by omega, by omega, by omega, fun c hc => ?_⟩,
      writeUpcase_spaces l, writeUpcase_spaces r⟩
    exact (List.mem_append.mp hc).elim (hchars c) (hvalid c)
  · rw [copyBasename_plain filename 0 _ hdot (by omega)] at hbase
    split at hbase
    swap
    · cases hbase
    next hok =>
    obtain ⟨rfl, rfl⟩ := Prod.mk.inj (Option.some.inj hbase)
    rcases hok with ⟨hchars, hlen⟩
    rw [all_charIsValid_iff] at hchars
    refine ⟨filename, ?_, writeUpcase_spaces filename, writeUpcase_spaces []⟩
    cases filename with
    | nil => exact .inr ⟨rfl, rfl, rfl⟩
    | cons c rest =>
        refine .inl ⟨.inl ⟨rfl, rfl⟩, Nat.succ_pos _, by omega, by omega, fun x hx => ?_⟩
        rw [List.append_nil] at hx
        exact hchars x hx

theorem Taken.copied (h : Taken filename base ext) :
    Fat16.copyBasename filename 0 (fun _ => ' '.toUInt8) = some (ext, padded base) ∧
      Fat16.copyExtension ext 0 (fun _ => ' '.toUInt8) = some (padded ext) := by
  rcases h with h | ⟨rfl, rfl, rfl⟩
  · exact ⟨h.copyBasename, h.copyExtension⟩
  · exact ⟨rfl, rfl⟩

theorem Taken.chars (h : Taken filename base ext) : ∀ c ∈ base ++ ext, NameChar c := by
  rcases h with h | ⟨-, rfl, rfl⟩
  · exact h.chars
  · exact fun c hc => absurd hc List.not_mem_nil

theorem padded_ne_zero {l : List UInt8} (h : ∀ c ∈ l, NameChar c) (k : Nat) : padded l k ≠ 0 := by
  unfold padded
  by_cases hk : k < (l.map char2upcase).length
  · rw [List.getD_eq_getElem _ _ hk, List.getElem_map]
    exact char2upcase_ne_zero (h _ (List.getElem_mem _))
  · rw [List.getD_eq_default _ _ (Nat.le_of_not_lt hk)]
    decide

/-- The bytes that `strncmp` looks at agree: all but the last of each part. -/
def ComparedAgree (base ext : List UInt8) (de : DirEntry) : Prop :=
  ∀ k < 11, k ≠ 7 → k ≠ 10 → form83 base ext k = de k

theorem Taken.strncmp_iff (h : Taken filename base ext) (de : DirEntry) :
    (strncmp (padded base) de.basename fileBasenameLen == 0 &&
      strncmp (padded ext) de.extension fileExtensionLen == 0) = true ↔
      ComparedAgree base ext de := by
  have hbase : ∀ j < fileBasenameLen, padded base j ≠ 0 := fun j _ =>
    padded_ne_zero (fun c hc => h.chars c (List.mem_append_left ext hc)) j
  have hext : ∀ j < fileExtensionLen, padded ext j ≠ 0 := fun j _ =>
    padded_ne_zero (fun c hc => h.chars c (List.mem_append_right base hc)) j
  rw [Bool.and_eq_true, beq_iff_eq, beq_iff_eq, strncmp_eq_zero_iff hbase,
    strncmp_eq_zero_iff hext, fileBasenameLen, fileExtensionLen]
  constructor
  · rintro ⟨hb, he⟩ k hk h7 h10
    unfold form83
    split
    · exact hb k (by omega)
    · have hsum : 8 + (k - 8) = k := by omega
      rw [he (k - 8) (by omega), DirEntry.extension, hsum]
  · intro hagree
    refine ⟨fun j hj => ?_, fun j hj => ?_⟩
    · have hj' := hagree j (by omega) (by omega) (by omega)
      rwa [form83, if_pos (by omega)] at hj'
    · have hj' := hagree (8 + j) (by omega) (by omega) (by omega)
      rwa [form83, if_neg (by omega), Nat.add_sub_cancel_left] at hj'

/-- The function finds the entry for a name that it takes when the compared
bytes agree. -/
theorem dirEntryIsFilename_iff (de : DirEntry) (filename : List UInt8) :
    dirEntryIsFilename de filename = true ↔
      ∃ base ext, Taken filename base ext ∧ ComparedAgree base ext de := by
  constructor
  · intro h
    unfold dirEntryIsFilename at h
    split at h
    · cases h
    next ext b hb =>
    split at h
    · cases h
    next e he =>
    obtain ⟨base, htaken, rfl, rfl⟩ := taken_of_copied hb he
    exact ⟨base, ext, htaken, (htaken.strncmp_iff de).mp h⟩
  · rintro ⟨base, ext, htaken, hagree⟩
    obtain ⟨hb, he⟩ := htaken.copied
    simp only [dirEntryIsFilename, hb, he]
    exact (htaken.strncmp_iff de).mpr hagree

theorem IsName83.form83_eq {base' ext' : List UInt8} (h : IsName83 filename base ext)
    (h' : IsName83 filename base' ext') : form83 base ext = form83 base' ext' := by
  obtain ⟨hext, hbase⟩ := Prod.mk.inj (Option.some.inj (h.copyBasename.symm.trans h'.copyBasename))
  funext k
  rw [form83, form83, hext, hbase]

/-- The answer is right except for an empty name whose spaces agree with the
compared bytes of the entry, and for a valid name that agrees with the entry in
the compared bytes and not in byte 7 or byte 10. -/
theorem nameDecided_iff (filename : List UInt8) (de : DirEntry) :
    NameDecided filename de ↔
      (filename = [] → ∃ k < 11, k ≠ 7 ∧ k ≠ 10 ∧ de k ≠ ' '.toUInt8) ∧
      ∀ base ext, IsName83 filename base ext →
        (∀ k < 11, k ≠ 7 → k ≠ 10 → form83 base ext k = de k) →
        form83 base ext 7 = de 7 ∧ form83 base ext 10 = de 10 := by
  rw [NameDecided, dirEntryIsFilename_iff]
  constructor
  · intro h
    refine ⟨?_, fun base ext hname hagree => ?_⟩
    · rintro rfl
      by_contra hno
      have hspaces : ComparedAgree [] [] de := fun k hk h7 h10 => by
        have hk' : ¬ de k ≠ ' '.toUInt8 := fun hne => hno ⟨k, hk, h7, h10, hne⟩
        rw [not_not.mp hk', form83]
        split <;> rfl
      obtain ⟨base, ext, hname, -⟩ := h.mp ⟨[], [], .inr ⟨rfl, rfl, rfl⟩, hspaces⟩
      have hpos := hname.base_pos
      rcases hname.split with ⟨hnil, -⟩ | hnil
      · rw [← hnil] at hpos
        exact Nat.lt_irrefl 0 hpos
      · exact absurd hnil.symm (by simp)
    · obtain ⟨base', ext', hname', hall⟩ := h.mp ⟨base, ext, .inl hname, hagree⟩
      rw [hname.form83_eq hname']
      exact ⟨hall 7 (by omega), hall 10 (by omega)⟩
  · rintro ⟨hempty, hlast⟩
    constructor
    · rintro ⟨base, ext, hname | ⟨rfl, rfl, rfl⟩, hagree⟩
      · obtain ⟨h7, h10⟩ := hlast base ext hname hagree
        refine ⟨base, ext, hname, fun k hk => ?_⟩
        by_cases hk7 : k = 7
        · rw [hk7, h7]
        by_cases hk10 : k = 10
        · rw [hk10, h10]
        · exact hagree k hk hk7 hk10
      · obtain ⟨k, hk, h7, h10, hne⟩ := hempty rfl
        refine absurd ?_ hne
        rw [← hagree k hk h7 h10, form83]
        split <;> rfl
    · rintro ⟨base, ext, hname, hall⟩
      exact ⟨base, ext, .inl hname, fun k hk _ _ => hall k hk⟩

end

def entryOf (name : List UInt8) : DirEntry := fun k => name.getD k 0

/-- The file `kernel1` is taken to be the one of the entry `KERNEL1X`. -/
theorem nameDecided_kernel1 :
    ¬ NameDecided [107, 101, 114, 110, 101, 108, 49]
      (entryOf [75, 69, 82, 78, 69, 76, 49, 88, 32, 32, 32]) := by
  have hname : IsName83 [107, 101, 114, 110, 101, 108, 49] [107, 101, 114, 110, 101, 108, 49]
      [] :=
    ⟨.inl ⟨rfl, rfl⟩, by decide, by decide, by decide, (all_charIsValid_iff _).mp rfl⟩
  intro h
  obtain ⟨base, ext, hname', hall⟩ := h.mp rfl
  have h7 := hall 7 (by decide)
  rw [hname'.form83_eq hname] at h7
  revert h7
  decide

end Kboot86.Fat16
