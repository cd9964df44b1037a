import Kboot86.Foundation.Turns
import Kboot86.Lib.Elf32.Image

/-!
# A segment, turn by turn

`_map_progseg` reads the header, checks it and then runs two loops over the
bytes of the segment. Both loops do the same in each turn, but for where the
byte comes from: they open a page when the destination is the start of one,
fetch the byte and store it. `mapProgseg_eq` puts the two loops together, so
that what one turn does is all that has to be known of them.
-/

namespace Kboot86.Elf32

open Exec

theorem add_ofNat_add (a : UInt32) (k j : Nat) :
    a + UInt32.ofNat k + UInt32.ofNat j = a + UInt32.ofNat (k + j) := by
  rw [UInt32.add_assoc, ← UInt32.ofNat_add]

theorem toNat_add_ofNat_mod (a : UInt32) (k : Nat) :
    (a + UInt32.ofNat k).toNat = (a.toNat + k) % 2 ^ 32 := by
  rw [UInt32.toNat_add, UInt32.toNat_ofNat', Nat.add_mod_mod]

theorem toNat_add_ofNat {a : UInt32} {k : Nat} (hk : a.toNat + k < 2 ^ 32) :
    (a + UInt32.ofNat k).toNat = a.toNat + k := by
  rw [toNat_add_ofNat_mod, Nat.mod_eq_of_lt hk]

theorem mod_pageSize_iff (a : UInt32) : a % pageSize = 0 ↔ a.toNat % 4096 = 0 := by
  rw [← UInt32.toNat_inj, UInt32.toNat_mod]
  rfl

/-! ### The header -/

def readPhdr (L : Layout) (phdr : UInt32) : Loader Phdr := do
  let paddr ← loadWord L (phdr + pPaddr)
  let vaddr ← loadWord L (phdr + pVaddr)
  let offset ← loadWord L (phdr + pOffset)
  let filesz ← loadWord L (phdr + pFilesz)
  let memsz ← loadWord L (phdr + pMemsz)
  let flags ← loadWord L (phdr + pFlags)
  pure
    { type := ptLoad
      offset := offset
      vaddr := vaddr
      paddr := paddr
      filesz := filesz
      memsz := memsz
      flags := flags }

theorem mapProgsegBy_read (L : Layout) (paging : PagingCall) (img phdr : UInt32) :
    mapProgsegBy L paging img phdr = (do
      let h ← readPhdr L phdr
      let valid ← validProgseg h.paddr h.vaddr h.memsz
      if !valid then pure 1 else do
      let copied ← copyLoop L paging h.target.writable h.filesz.toNat h.vaddr (img + h.offset)
        h.paddr h.memsz
      match copied with
      | none => pure 1
      | some (dst, paddr, memsz) =>
          zeroLoop L paging h.target.writable memsz.toNat dst paddr) := by
  simp only [mapProgsegBy, readPhdr, progsegIsWritable, bind_assoc, pure_bind]
  rfl

theorem readPhdr_wp {L : Layout} {img : UInt32} {len : Nat} {file : Nat → UInt8} {s : State}
    (himg : ImageAt L s.mem img len file) {phdr : UInt32} {o : Nat}
    (hphdr : phdr.toNat = img.toNat + o) (ho : o + 32 ≤ len) :
    wp (readPhdr L phdr) s fun h s' =>
      h = { phdrAt file o with type := ptLoad } ∧ s'.mem = s.mem := by
  have hfits := himg.fits
  have hfield : ∀ k : UInt32, k.toNat + 3 < 32 → ∀ s1 : State, s1.mem = s.mem →
      wp (loadWord L (phdr + k)) s1 fun a s2 =>
        a = wordAt file (o + k.toNat) ∧ s2.mem = s.mem := by
    intro k hk s1 hs1
    have hva : (phdr + k).toNat = img.toNat + (o + k.toNat) := by
      rw [UInt32.toNat_add]
      omega
    rw [← hs1] at himg ⊢
    exact himg.loadWord_wp hva (by omega)
  apply wp_bind (hfield pPaddr (by decide) s rfl)
  rintro paddr s1 ⟨rfl, hs1⟩
  apply wp_bind (hfield pVaddr (by decide) s1 hs1)
  rintro vaddr s2 ⟨rfl, hs2⟩
  apply wp_bind (hfield pOffset (by decide) s2 hs2)
  rintro offset s3 ⟨rfl, hs3⟩
  apply wp_bind (hfield pFilesz (by decide) s3 hs3)
  rintro filesz s4 ⟨rfl, hs4⟩
  apply wp_bind (hfield pMemsz (by decide) s4 hs4)
  rintro memsz s5 ⟨rfl, hs5⟩
  apply wp_bind (hfield pFlags (by decide) s5 hs5)
  rintro flags s6 ⟨rfl, hs6⟩
  exact wp_pure ⟨rfl, hs6⟩

theorem validProgseg_iff (paddr vaddr memsz : UInt32) (s s' : State) :
    validProgseg paddr vaddr memsz s = .ok (true, s') ↔
      s' = s ∧ paddr.toNat % 1024 = 0 ∧ vaddr.toNat % 1024 = 0 ∧
        (paddr.toNat + memsz.toNat) % 2 ^ 32 ≤ kernelPaddrMax.toNat ∧
        (vaddr.toNat + memsz.toNat) % 2 ^ 32 ≤ kernelVaddrMax.toNat := by
  have hno : ∀ format addr, invalidProgseg format addr s ≠ .ok (true, s') := by
    rintro format addr h
    cases h
  rw [← isAddrPageAligned_iff, ← isAddrPageAligned_iff, ← UInt32.toNat_add, ← UInt32.toNat_add,
    ← UInt32.le_iff_toNat_le, ← UInt32.le_iff_toNat_le]
  unfold validProgseg isPaddrInValidRange isVaddrInValidRange
  cases hp : isAddrPageAligned paddr with
  | false => simp [hno]
  | true =>
  cases hv : isAddrPageAligned vaddr with
  | false => simp [hno]
  | true =>
  by_cases hpr : paddr + memsz > kernelPaddrMax
  · simp [hpr, hno]
  by_cases hvr : vaddr + memsz > kernelVaddrMax
  · simp [hpr, hvr, hno]
  · simp only [Bool.not_true, Bool.false_eq_true, ↓reduceIte, hpr, hvr]
    constructor
    · intro h
      cases h
      exact ⟨rfl, trivial, trivial, UInt32.not_lt.mp hpr, UInt32.not_lt.mp hvr⟩
    · rintro ⟨rfl, -⟩
      rfl

/-! ### The loops -/

/-- The turns of both loops. The counter of the second one wraps when there are
more bytes in the file than in memory. -/
def Phdr.turnCount (h : Phdr) : Nat := h.filesz.toNat + (h.memsz - h.filesz).toNat

section

variable (L : Layout) (paging : PagingCall) (img : UInt32) (h : Phdr)

def openPageBy (k : Nat) : Loader Bool :=
  mapAtPageStart paging
    (if k < h.filesz.toNat then "mapping a in-image-present failed"
      else "mapping of a to-be-zeroed page failed")
    (h.vaddr + UInt32.ofNat k) (h.paddr + UInt32.ofNat k) h.target.writable

def fetch (k : Nat) : Loader UInt8 :=
  if k < h.filesz.toNat then loadByte L (img + h.offset + UInt32.ofNat k) else pure 0

def turnBy (k : Nat) : Loader Bool := do
  let mapped ← openPageBy paging h k
  if !mapped then pure false else do
  let b ← fetch L img h k
  storeByte L (h.vaddr + UInt32.ofNat k) b
  pure true

theorem copyLoop_eq_turns :
    ∀ n k : Nat, k + n = h.filesz.toNat →
      (turns (turnBy L paging img h) k >>= fun ok =>
        if ok then copyLoop L paging h.target.writable n (h.vaddr + UInt32.ofNat k)
          (img + h.offset + UInt32.ofNat k) (h.paddr + UInt32.ofNat k) (h.memsz - UInt32.ofNat k)
        else pure none) =
      turns (turnBy L paging img h) h.filesz.toNat >>= fun ok =>
        pure (if ok then some (h.vaddr + h.filesz, h.paddr + h.filesz, h.memsz - h.filesz)
          else none)
  | 0, k, hk => by
      obtain rfl : k = h.filesz.toNat := hk
      rw [UInt32.ofNat_toNat]
      congr 1
      funext ok
      cases ok <;> rfl
  | n + 1, k, hk => by
      have hin : k < h.filesz.toNat := by omega
      have hsub : h.memsz - UInt32.ofNat k - 1 = h.memsz - UInt32.ofNat (k + 1) := by
        rw [UInt32.ofNat_add, show UInt32.ofNat 1 = 1 from rfl]
        grind
      have hnext : ∀ v : UInt32, v + UInt32.ofNat k + 1 = v + UInt32.ofNat (k + 1) := fun v =>
        add_ofNat_add v k 1
      rw [← copyLoop_eq_turns n (k + 1) (by omega), turns, bind_assoc]
      congr 1
      funext ok
      cases ok with
      | false => rfl
      | true =>
          simp only [↓reduceIte, copyLoop, turnBy, openPageBy, fetch, hin, bind_assoc]
          congr 1
          funext mapped
          cases mapped with
          | false => rfl
          | true =>
              simp only [Bool.not_true, Bool.false_eq_true, ↓reduceIte, bind_assoc, pure_bind,
                hnext, hsub]

theorem zeroLoop_eq_turns :
    ∀ n k : Nat, h.filesz.toNat ≤ k →
      (turns (turnBy L paging img h) k >>= fun ok =>
        if ok then zeroLoop L paging h.target.writable n (h.vaddr + UInt32.ofNat k)
          (h.paddr + UInt32.ofNat k)
        else pure 1) =
      turns (turnBy L paging img h) (k + n) >>= fun ok => pure (if ok then 0 else 1)
  | 0, k, _ => by
      congr 1
      funext ok
      cases ok <;> rfl
  | n + 1, k, hk => by
      have hin : ¬ k < h.filesz.toNat := by omega
      have hnext : ∀ v : UInt32, v + UInt32.ofNat k + 1 = v + UInt32.ofNat (k + 1) := fun v =>
        add_ofNat_add v k 1
      have hcount : k + (n + 1) = k + 1 + n := by omega
      rw [hcount, ← zeroLoop_eq_turns n (k + 1) (by omega), turns, bind_assoc]
      congr 1
      funext ok
      cases ok with
      | false => rfl
      | true =>
          simp only [↓reduceIte, zeroLoop, turnBy, openPageBy, fetch, hin, bind_assoc]
          congr 1
          funext mapped
          cases mapped with
          | false => rfl
          | true =>
              simp only [Bool.not_true, Bool.false_eq_true, ↓reduceIte, bind_assoc, pure_bind,
                hnext]

theorem loops_eq_turns :
    (copyLoop L paging h.target.writable h.filesz.toNat h.vaddr (img + h.offset) h.paddr
      h.memsz >>= fun copied => match copied with
        | none => pure 1
        | some (dst, paddr, memsz) => zeroLoop L paging h.target.writable memsz.toNat dst paddr) =
      turns (turnBy L paging img h) h.turnCount >>= fun ok =>
        pure (if ok then (0 : Int) else 1) := by
  have hcopy := copyLoop_eq_turns L paging img h h.filesz.toNat 0 (Nat.zero_add _)
  have hzero := zeroLoop_eq_turns L paging img h (h.memsz - h.filesz).toNat h.filesz.toNat
    (Nat.le_refl _)
  rw [UInt32.ofNat_toNat] at hzero
  simp only [turns, pure_bind, ↓reduceIte, show UInt32.ofNat 0 = 0 from rfl, UInt32.add_zero,
    UInt32.sub_zero] at hcopy
  rw [Phdr.turnCount, ← hzero, hcopy, bind_assoc]
  congr 1
  funext ok
  cases ok <;> rfl

/-- `_map_progseg` reads the header, checks it and runs the turns. -/
theorem mapProgsegBy_eq (phdr : UInt32) :
    mapProgsegBy L paging img phdr = (do
      let h ← readPhdr L phdr
      let valid ← validProgseg h.paddr h.vaddr h.memsz
      if !valid then pure 1 else do
      let ok ← turns (turnBy L paging img h) h.turnCount
      pure (if ok then 0 else 1)) := by
  rw [mapProgsegBy_read]
  congr 1
  funext h
  congr 1
  funext valid
  cases valid with
  | false => rfl
  | true => exact loops_eq_turns L paging img h

end

/-! ### One turn -/

section

variable {L : Layout} {paging : PagingCall} {img : UInt32} {h : Phdr} {k : Nat} {s s' : State}

theorem openPageBy_start (hpage : (h.vaddr + UInt32.ofNat k).toNat % 4096 = 0) :
    openPageBy paging h k s = .ok (true, s') ↔
      paging (h.vaddr + UInt32.ofNat k) (h.paddr + UInt32.ofNat k) h.target.writable s =
        .ok (0, s') := by
  unfold openPageBy mapAtPageStart
  rw [if_pos ((mod_pageSize_iff _).mpr hpage), bind_eq_ok]
  constructor
  · rintro ⟨rc, s1, hmap, hrest⟩
    split at hrest
    · obtain ⟨_, s2, -, hfalse⟩ := bind_eq_ok.mp hrest
      cases hfalse
    next hzero =>
      cases hrest
      rw [hmap, not_not.mp hzero]
  · intro hmap
    exact ⟨0, s', hmap, rfl⟩

theorem openPageBy_mid (hmid : (h.vaddr + UInt32.ofNat k).toNat % 4096 ≠ 0) :
    openPageBy paging h k = pure true := by
  unfold openPageBy mapAtPageStart
  rw [if_neg (mt (mod_pageSize_iff _).mp hmid)]

theorem turnBy_eq_ok :
    turnBy L paging img h k s = .ok (true, s') ↔
      ∃ s1 b s2, openPageBy paging h k s = .ok (true, s1) ∧ fetch L img h k s1 = .ok (b, s2) ∧
        storeByte L (h.vaddr + UInt32.ofNat k) b s2 = .ok ((), s') := by
  unfold turnBy
  rw [bind_eq_ok]
  constructor
  · rintro ⟨mapped, s1, hopen, hrest⟩
    cases mapped with
    | false => cases hrest
    | true =>
        obtain ⟨b, s2, hfetch, hrest⟩ := bind_eq_ok.mp hrest
        obtain ⟨u, s3, hstore, hpure⟩ := bind_eq_ok.mp hrest
        cases hpure
        exact ⟨s1, b, s2, hopen, hfetch, hstore⟩
  · rintro ⟨s1, b, s2, hopen, hfetch, hstore⟩
    refine ⟨true, s1, hopen, bind_eq_ok.mpr ⟨b, s2, hfetch, ?_⟩⟩
    exact bind_eq_ok.mpr ⟨(), s', hstore, rfl⟩

end

/-! ### Where the tables are mapped as they lie -/

section

variable (L : Layout) (img : UInt32) (h : Phdr)

def openPage (k : Nat) : Loader Bool := openPageBy (callPagingMap L) h k

def turn (k : Nat) : Loader Bool := turnBy L (callPagingMap L) img h k

theorem mapProgseg_eq (phdr : UInt32) :
    mapProgseg L img phdr = (do
      let h ← readPhdr L phdr
      let valid ← validProgseg h.paddr h.vaddr h.memsz
      if !valid then pure 1 else do
      let ok ← turns (turn L img h) h.turnCount
      pure (if ok then 0 else 1)) := mapProgsegBy_eq L (callPagingMap L) img phdr

end

/-! ### What a turn does to the memory -/

def openMem (L : Layout) (h : Phdr) (k : Nat) (m : Memory) : Memory :=
  if (h.vaddr + UInt32.ofNat k).toNat % 4096 = 0 then
    m.map L (h.vaddr + UInt32.ofNat k) (h.paddr + UInt32.ofNat k) h.target.writable
  else m

def Accepts (h : Phdr) (k : Nat) : Prop :=
  (h.vaddr + UInt32.ofNat k).toNat % 4096 = 0 →
    mapAccepts (h.vaddr + UInt32.ofNat k) (h.paddr + UInt32.ofNat k) = true

def FindsByte (L : Layout) (img : UInt32) (h : Phdr) (k : Nat) (m : Memory) : Prop :=
  k < h.filesz.toNat → (translate L m (img + h.offset + UInt32.ofNat k)).isSome = true

/-- Turn `k` has succeeded and led from `m` to `m'`. -/
structure Turned (L : Layout) (img : UInt32) (h : Phdr) (k : Nat) (m m' : Memory) : Prop where
  accepts : Accepts h k
  finds : FindsByte L img h k (openMem L h k m)
  stored : ∃ tr b, translate L (openMem L h k m) (h.vaddr + UInt32.ofNat k) = some tr ∧
    m' = (openMem L h k m).store8 L tr.paddr b

def Access.isStore : Access → Bool
  | .store _ => true
  | _ => false

def State.storeCount (s : State) : Nat := s.trace.countP Access.isStore

section

variable {L : Layout} {img : UInt32} {h : Phdr} {n : Nat}

theorem turnCount_of_le (hle : h.filesz.toNat ≤ h.memsz.toNat) :
    h.turnCount = h.memsz.toNat := by
  rw [Phdr.turnCount, UInt32.toNat_sub_of_le _ _ (UInt32.le_iff_toNat_le.mpr hle)]
  omega

theorem turnCount_of_lt (hlt : h.memsz.toNat < h.filesz.toNat) :
    h.turnCount = 2 ^ 32 + h.memsz.toNat := by
  have hfile := h.filesz.toNat_lt
  rw [Phdr.turnCount, UInt32.toNat_sub]
  omega

theorem openMem_inv {m : Memory} (hinv : PagingInv L m.tables) (k : Nat) :
    PagingInv L (openMem L h k m).tables := by
  unfold openMem
  split
  · exact hinv.map _ _ _
  · exact hinv

theorem openMem_tables {m m' : Memory} (htables : m.tables = m'.tables) (k : Nat) :
    (openMem L h k m).tables = (openMem L h k m').tables := by
  unfold openMem
  split
  · rw [Memory.map, Memory.map, htables]
  · exact htables

@[simp] theorem openMem_bytes (m : Memory) (k : Nat) : (openMem L h k m).bytes = m.bytes := by
  unfold openMem
  split <;> rfl

theorem openPage_wlp (k : Nat) (s : State) :
    wlp (openPage L h k) s fun ok s' => ok = true →
      Accepts h k ∧ s'.mem = openMem L h k s.mem ∧ s'.storeCount = s.storeCount := by
  rintro ok s' hrun rfl
  unfold openPage at hrun
  by_cases hpage : (h.vaddr + UInt32.ofNat k).toNat % 4096 = 0
  · have hmap := (openPageBy_start hpage).mp hrun
    obtain ⟨hcode, rfl⟩ := Prod.mk.inj (Except.ok.inj hmap)
    refine ⟨fun _ => mapAccepts_of_code hcode, ?_, ?_⟩
    · rw [openMem, if_pos hpage]
      rfl
    · simp [State.storeCount, Access.isStore]
  · rw [openPageBy_mid hpage] at hrun
    cases hrun
    rw [openMem, if_neg hpage]
    exact ⟨fun hzero => absurd hzero hpage, rfl, rfl⟩

theorem openPage_wp {k : Nat} (hacc : Accepts h k) (s : State) :
    wp (openPage L h k) s fun ok s' => ok = true ∧ s'.mem = openMem L h k s.mem := by
  unfold openPage openMem
  by_cases hpage : (h.vaddr + UInt32.ofNat k).toNat % 4096 = 0
  · have hcode := (pagingMap_code L s.mem.tables (h.vaddr + UInt32.ofNat k)
      (h.paddr + UInt32.ofNat k) h.target.writable).mpr (hacc hpage)
    have hcall : wp (callPagingMap L (h.vaddr + UInt32.ofNat k) (h.paddr + UInt32.ofNat k)
        h.target.writable) s fun rc s' => rc = 0 ∧ s'.mem = s.mem.map L _ _ _ :=
      ⟨_, _, rfl, hcode, rfl⟩
    obtain ⟨rc, s', hmap, rfl, hs'⟩ := hcall
    rw [if_pos hpage]
    exact ⟨true, s', (openPageBy_start hpage).mpr hmap, rfl, hs'⟩
  · rw [if_neg hpage, openPageBy_mid hpage]
    exact wp_pure ⟨rfl, rfl⟩

theorem fetch_wlp (k : Nat) (s : State) :
    wlp (fetch L img h k) s fun _ s' =>
      FindsByte L img h k s.mem ∧ s'.mem = s.mem ∧ s'.storeCount = s.storeCount := by
  intro b s' hrun
  unfold fetch at hrun
  split at hrun
  · unfold loadByte at hrun
    split at hrun
    · cases hrun
    next tr htr =>
      cases hrun
      refine ⟨fun _ => by rw [htr]; rfl, rfl, ?_⟩
      simp [State.storeCount, Access.isStore]
  next hno =>
    cases hrun
    exact ⟨fun hk => absurd hk hno, rfl, rfl⟩

/-- What a successful turn does once its page is open. -/
theorem turnBy_stored {paging : PagingCall} {k : Nat} {s s' : State}
    (hturn : turnBy L paging img h k s = .ok (true, s')) :
    ∃ s1, openPageBy paging h k s = .ok (true, s1) ∧ FindsByte L img h k s1.mem ∧
      (∃ tr b, translate L s1.mem (h.vaddr + UInt32.ofNat k) = some tr ∧
        s'.mem = s1.mem.store8 L tr.paddr b) ∧
      s'.storeCount = s1.storeCount + 1 := by
  obtain ⟨s1, b, s2, hopen, hfetch, hstore⟩ := turnBy_eq_ok.mp hturn
  obtain ⟨hfind, hs2, hcount⟩ := fetch_wlp k s1 b s2 hfetch
  unfold storeByte at hstore
  split at hstore
  · cases hstore
  next tr htr =>
    cases hstore
    rw [hs2] at htr
    refine ⟨s1, hopen, hfind, ⟨tr, b, htr, by rw [hs2]⟩, ?_⟩
    rw [← hcount]
    simp [State.storeCount, Access.isStore]

theorem turn_wlp (k : Nat) (s : State) :
    wlp (turn L img h k) s fun ok s' => ok = true →
      Turned L img h k s.mem s'.mem ∧ s'.storeCount = s.storeCount + 1 := by
  rintro ok s' hturn rfl
  obtain ⟨s1, hopen, hfind, hstored, hcount⟩ := turnBy_stored hturn
  obtain ⟨hacc, hs1, hcount1⟩ := openPage_wlp k s true s1 hopen rfl
  rw [hs1] at hfind hstored
  exact ⟨⟨hacc, hfind, hstored⟩, hcount1 ▸ hcount⟩

theorem turns_accepts {s s' : State} (hrun : turns (turn L img h) n s = .ok (true, s')) {k : Nat}
    (hk : k < n) : Accepts h k := by
  obtain ⟨s1, s2, -, hturn⟩ := turns_prefix hrun hk
  exact (turn_wlp k s1 true s2 hturn rfl).1.accepts

/-- No run goes once round the address space: the pages of `0x40000000` and
`0x80000000` cannot both be mapped. -/
theorem lt_of_accepts (hacc : ∀ k < n, Accepts h k) : n + 4096 < 2 ^ 32 := by
  by_contra hover
  have hv := h.vaddr.toNat_lt
  have hrefused : ∀ a : Nat, 0x1000000 ≤ a → a < 0xc0000000 → a % 4096 = 0 →
      n ≤ (2 ^ 32 - h.vaddr.toNat + a) % 2 ^ 32 := by
    intro a hlo hhi hmod
    by_contra hlt
    have haddr := toNat_add_ofNat_mod h.vaddr ((2 ^ 32 - h.vaddr.toNat + a) % 2 ^ 32)
    have hmap := hacc _ (Nat.lt_of_not_le hlt) (by omega)
    have hrange := ((mapAccepts_iff _ _).mp hmap).2.2.2
    omega
  have hfirst := hrefused 0x40000000 (by omega) (by omega) (by omega)
  have hsecond := hrefused 0x80000000 (by omega) (by omega) (by omega)
  omega

/-- A call whose loops come to their end has no more bytes in the file than in
memory. -/
theorem filesz_le_of_accepts (hacc : ∀ k < h.turnCount, Accepts h k) :
    h.filesz.toNat ≤ h.memsz.toNat := by
  by_contra hgt
  have hround := lt_of_accepts hacc
  rw [turnCount_of_lt (Nat.lt_of_not_le hgt)] at hround
  omega

end

end Kboot86.Elf32
