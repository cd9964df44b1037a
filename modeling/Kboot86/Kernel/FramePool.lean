import Kboot86.Kernel.Frame

/-!
# The frame allocator as a set of addresses

`allocated b` is the set of the frames whose bit is set. On it `frame_alloc`
adds the lowest frame that is missing and `frame_dealloc` takes one out:
`poolSystem` is an allocator that does just this, and every run of the bitmap
whose client releases only what it holds is a run of the pool.
-/

namespace Kboot86.Frame

def allocated (b : Bitmap) : Finset UInt32 := frames.filter fun p => bitAt b (frameNum p)

inductive FrameEvent where
  | alloc (paddr : UInt32)
  | dealloc (paddr : UInt32) (code : Int)

def frameSystem : System Bitmap FrameEvent where
  init b := ∀ i, b i = 0
  step b e b' :=
    match e with
    | .alloc r => frameAlloc b = (b', r)
    | .dealloc p c => frameDealloc b p = (b', c)

def IsLowestFree (s : Finset UInt32) (p : UInt32) : Prop :=
  p ∈ frames ∧ p ∉ s ∧ ∀ q ∈ frames, q < p → q ∈ s

def poolSystem : System (Finset UInt32) FrameEvent where
  init s := s = ∅
  step s e s' :=
    match e with
    | .alloc r => IsLowestFree s r ∧ s' = insert r s ∨ s = frames ∧ r = 0 ∧ s' = s
    | .dealloc p c => p ∈ s ∧ c = 0 ∧ s' = s.erase p

def heldStep (s : Finset UInt32) : FrameEvent → Finset UInt32
  | .alloc r => if r = 0 then s else insert r s
  | .dealloc p _ => s.erase p

def held (es : List FrameEvent) : Finset UInt32 := es.foldl heldStep ∅

def ClientOk (es : List FrameEvent) : Prop :=
  ∀ pre p c post, es = pre ++ .dealloc p c :: post → p ∈ held pre

theorem held_snoc (es : List FrameEvent) (e : FrameEvent) :
    held (es ++ [e]) = heldStep (held es) e := by
  rw [held, List.foldl_append]
  rfl

theorem ClientOk.of_snoc {es : List FrameEvent} {e : FrameEvent} (h : ClientOk (es ++ [e])) :
    ClientOk es := by
  intro pre p c post hes
  apply h pre p c (post ++ [e])
  rw [hes, List.append_assoc, List.cons_append]

theorem mem_allocated_iff (b : Bitmap) {n : Nat} (hn : n < 3072) :
    frameAddr n ∈ allocated b ↔ bitAt b n = true := by
  have hmem : frameAddr n ∈ frames := (mem_frames_iff _).mpr ⟨n, hn, rfl⟩
  rw [allocated, Finset.mem_filter, frameNum_frameAddr hn]
  exact and_iff_right hmem

/-- Two sets of frames are equal when they agree on the addresses of the
frames. -/
theorem frames_ext {s t : Finset UInt32} (hs : s ⊆ frames) (ht : t ⊆ frames)
    (h : ∀ n < 3072, frameAddr n ∈ s ↔ frameAddr n ∈ t) : s = t := by
  ext p
  constructor
  · intro hp
    obtain ⟨n, hn, rfl⟩ := (mem_frames_iff p).mp (hs hp)
    exact (h n hn).mp hp
  · intro hp
    obtain ⟨n, hn, rfl⟩ := (mem_frames_iff p).mp (ht hp)
    exact (h n hn).mpr hp

theorem allocated_subset (b : Bitmap) : allocated b ⊆ frames := Finset.filter_subset _ _

/-! ### The two calls on the bits -/

theorem frameAlloc_cases (b : Bitmap) :
    (∃ n < 3072, bitAt b n = false ∧ (∀ k < n, bitAt b k = true) ∧
      (frameAlloc b).2 = frameAddr n ∧
      ∀ k, bitAt (frameAlloc b).1 k = (bitAt b k || decide (k = n))) ∨
    ((∀ k < 3072, bitAt b k = true) ∧ frameAlloc b = (b, 0)) := by
  cases hfind : (List.finRange len).find? fun i => hasFreeFrame (b i) with
  | none =>
      have hall : ∀ i, b i = ~~~(0 : UInt32) := fun i => by
        have hno := List.find?_eq_none.mp hfind i (List.mem_finRange i)
        rwa [hasFreeFrame, bne_iff_ne, ne_eq, not_not] at hno
      have hbits := (all_full_iff b).mp hall
      refine .inr ⟨fun k hk => hbits k (by rw [len_eq]; omega), ?_⟩
      rw [frameAlloc, hfind]
  | some i =>
      obtain ⟨hfree, k, hk, hki, hbefore⟩ := List.find?_eq_some_iff_getElem.mp hfind
      rw [List.getElem_finRange] at hki
      have hfull : ∀ k < i, b k = ~~~(0 : UInt32) := fun m hm => by
        have hmk : m.val < k := by
          rw [← hki] at hm
          exact hm
        have hno := hbefore m.val hmk
        rw [List.getElem_finRange] at hno
        simpa [hasFreeFrame] using hno
      obtain ⟨hj, hclear, hset⟩ := getClearBitNum_spec hfree
      have hi : i.val < 96 := i.isLt
      refine .inl ⟨32 * i.val + getClearBitNum (b i), by omega, ?_,
        bitAt_least hj hfull hset, ?_, fun k => ?_⟩
      · rw [bitAt_mk b i hj, hclear]
      · rw [frameAlloc, hfind]
        exact idx2paddr_eq i.val hj
      · have hother : ∀ k < 32, k ≠ getClearBitNum (b i) →
            wordBit (setBit (b i) (getClearBitNum (b i))) k = wordBit (b i) k := fun k _ hne => by
          rw [wordBit_setBit _ hj, decide_eq_false hne, Bool.or_false]
        rw [frameAlloc, hfind]
        dsimp only
        rw [bitAt_update b i hj hother]
        by_cases hkn : k = 32 * i.val + getClearBitNum (b i)
        · rw [if_pos hkn, decide_eq_true hkn, Bool.or_true, wordBit_setBit _ hj, decide_eq_true rfl,
            Bool.or_true]
        · rw [if_neg hkn, decide_eq_false hkn, Bool.or_false]

/-- The addresses that `frame_dealloc` accepts: the alignment mask is `0x3ff`,
so any multiple of 1024 in a frame that is in use. -/
def DeallocAccepts (b : Bitmap) (p : UInt32) : Prop :=
  p.toNat % 1024 = 0 ∧ frameNum p < 3072 ∧ bitAt b (frameNum p) = true

theorem frameDealloc_cases (b : Bitmap) (p : UInt32) :
    (DeallocAccepts b p ∧ (frameDealloc b p).2 = 0 ∧
      ∀ k, bitAt (frameDealloc b p).1 k = (bitAt b k && !decide (k = frameNum p))) ∨
    (¬ DeallocAccepts b p ∧ frameDealloc b p = (b, 1)) := by
  have hmask : p &&& 0x3ff = 0 ↔ p.toNat % 1024 = 0 := by
    rw [← UInt32.toNat_inj, UInt32.toNat_and, ← Nat.and_two_pow_sub_one_eq_mod p.toNat 10]
    rfl
  have hmod : frameNum p % 32 < 32 := Nat.mod_lt _ (by omega)
  have hsplit : 32 * (frameNum p / 32) + frameNum p % 32 = frameNum p := by omega
  have hidx : paddr2idx p = (0, frameNum p / 32, frameNum p % 32) := rfl
  by_cases halign : p &&& 0x3ff = 0
  swap
  · refine .inr ⟨fun hacc => halign (hmask.mpr hacc.1), ?_⟩
    rw [frameDealloc, if_pos halign]
  by_cases hlen : frameNum p / 32 < len
  swap
  · refine .inr ⟨fun hacc => hlen ?_, ?_⟩
    · have hlt := hacc.2.1
      rw [len_eq]
      omega
    · rw [frameDealloc, if_neg (not_not.mpr halign), hidx]
      simp [hlen]
  have hbit : wordBit (b ⟨frameNum p / 32, hlen⟩) (frameNum p % 32) = bitAt b (frameNum p) := by
    rw [bitAt, dif_pos hlen]
  have hlt : frameNum p < 3072 := by
    rw [len_eq] at hlen
    omega
  cases hset : bitAt b (frameNum p) with
  | false =>
      refine .inr ⟨fun hacc => ?_, ?_⟩
      · have htrue := hacc.2.2
        rw [hset] at htrue
        cases htrue
      · rw [frameDealloc, if_neg (not_not.mpr halign), hidx]
        simp [hlen, isBitSet_eq _ hmod, hbit, hset]
  | true =>
      have heq : frameDealloc b p =
          (Function.update b ⟨frameNum p / 32, hlen⟩
            (clearBit (b ⟨frameNum p / 32, hlen⟩) (frameNum p % 32)), 0) := by
        rw [frameDealloc, if_neg (not_not.mpr halign), hidx]
        simp [hlen, isBitSet_eq _ hmod, hbit, hset]
      have hother : ∀ k < 32, k ≠ frameNum p % 32 →
          wordBit (clearBit (b ⟨frameNum p / 32, hlen⟩) (frameNum p % 32)) k =
            wordBit (b ⟨frameNum p / 32, hlen⟩) k := fun k hk hne => by
        rw [wordBit_clearBit _ hmod hk, decide_eq_false hne, Bool.not_false, Bool.and_true]
      refine .inl ⟨⟨hmask.mp halign, hlt, hset⟩, by rw [heq], fun k => ?_⟩
      rw [heq]
      dsimp only
      rw [bitAt_update b _ hmod hother, hsplit]
      by_cases hk : k = frameNum p
      · rw [if_pos hk, wordBit_clearBit _ hmod hmod, decide_eq_true rfl, decide_eq_true hk,
          Bool.not_true, Bool.and_false, Bool.and_false]
      · rw [if_neg hk, decide_eq_false hk, Bool.not_false, Bool.and_true]

/-! ### The two calls on the set -/

theorem frameAlloc_allocated (b : Bitmap) :
    (IsLowestFree (allocated b) (frameAlloc b).2 ∧
      allocated (frameAlloc b).1 = insert (frameAlloc b).2 (allocated b)) ∨
    (allocated b = frames ∧ frameAlloc b = (b, 0)) := by
  rcases frameAlloc_cases b with ⟨n, hn, hclear, hset, hret, hbits⟩ | ⟨hall, heq⟩
  · left
    have hmem : frameAddr n ∈ frames := (mem_frames_iff _).mpr ⟨n, hn, rfl⟩
    rw [hret]
    refine ⟨⟨hmem, ?_, fun q hq hlt => ?_⟩, ?_⟩
    · rw [mem_allocated_iff b hn, hclear]
      exact Bool.false_ne_true
    · obtain ⟨m, hm, rfl⟩ := (mem_frames_iff q).mp hq
      rw [UInt32.lt_iff_toNat_lt, frameAddr_toNat hm, frameAddr_toNat hn] at hlt
      exact (mem_allocated_iff b hm).mpr (hset m (by omega))
    · apply frames_ext (allocated_subset _) (Finset.insert_subset hmem (allocated_subset b))
      intro m hm
      rw [mem_allocated_iff _ hm, hbits, Finset.mem_insert, mem_allocated_iff b hm,
        frameAddr_inj hm hn, Bool.or_eq_true, decide_eq_true_iff, or_comm]
  · right
    refine ⟨frames_ext (allocated_subset b) (Finset.Subset.refl _) fun m hm => ?_, heq⟩
    rw [mem_allocated_iff b hm, hall m hm]
    exact iff_of_true rfl ((mem_frames_iff _).mpr ⟨m, hm, rfl⟩)

theorem frameDealloc_allocated {b : Bitmap} {p : UInt32} (hp : p ∈ allocated b) :
    (frameDealloc b p).2 = 0 ∧ allocated (frameDealloc b p).1 = (allocated b).erase p := by
  obtain ⟨n, hn, rfl⟩ := (mem_frames_iff p).mp (allocated_subset b hp)
  have haddr := frameAddr_toNat hn
  have hacc : DeallocAccepts b (frameAddr n) := by
    refine ⟨by omega, ?_, ?_⟩
    · rw [frameNum_frameAddr hn]
      exact hn
    · rw [frameNum_frameAddr hn]
      exact (mem_allocated_iff b hn).mp hp
  rcases frameDealloc_cases b (frameAddr n) with ⟨-, hcode, hbits⟩ | ⟨hno, -⟩
  · refine ⟨hcode, frames_ext (allocated_subset _) ?_ fun m hm => ?_⟩
    · exact (Finset.erase_subset _ _).trans (allocated_subset b)
    · rw [mem_allocated_iff _ hm, hbits, frameNum_frameAddr hn, Finset.mem_erase,
        mem_allocated_iff b hm, ne_eq, frameAddr_inj hm hn, Bool.and_eq_true, and_comm,
        Bool.not_eq_true', decide_eq_false_iff_not]
  · exact absurd hacc hno

/-! ### Runs -/

theorem allocated_init {b : Bitmap} (h : frameSystem.init b) : allocated b = ∅ := by
  refine Finset.filter_eq_empty_iff.mpr fun p hp => ?_
  obtain ⟨n, hn, rfl⟩ := (mem_frames_iff p).mp hp
  have hlt : n / 32 < len := by
    rw [len_eq]
    omega
  rw [frameNum_frameAddr hn, bitAt, dif_pos hlt, h, wordBit_zero]
  exact Bool.false_ne_true

/-- One call of a client that releases only what it holds is a step of the
pool, and the frames in use stay the ones the client holds. -/
theorem pool_step {es : List FrameEvent} {b b' : Bitmap} {e : FrameEvent}
    (hheld : allocated b = held es) (hclient : ClientOk (es ++ [e]))
    (hstep : frameSystem.step b e b') :
    poolSystem.step (held es) e (held (es ++ [e])) ∧ allocated b' = held (es ++ [e]) := by
  rw [held_snoc, ← hheld]
  cases e with
  | alloc r =>
      have hret : frameAlloc b = (b', r) := hstep
      rcases frameAlloc_allocated b with ⟨hlow, hset⟩ | ⟨hall, hfull⟩
      · rw [hret] at hlow hset
        have hne : r ≠ 0 := ne_zero_of_mem_frames hlow.1
        rw [heldStep, if_neg hne]
        exact ⟨.inl ⟨hlow, rfl⟩, hset⟩
      · rw [hret] at hfull
        obtain ⟨rfl, rfl⟩ := Prod.mk.inj hfull
        rw [heldStep, if_pos rfl]
        exact ⟨.inr ⟨hall, rfl, rfl⟩, rfl⟩
  | dealloc p c =>
      have hret : frameDealloc b p = (b', c) := hstep
      have hp : p ∈ allocated b := by
        rw [hheld]
        exact hclient es p c [] rfl
      obtain ⟨hcode, hset⟩ := frameDealloc_allocated hp
      rw [hret] at hcode hset
      exact ⟨⟨hp, hcode, rfl⟩, hset⟩

/-- Every run of the bitmap is a run of the pool. -/
theorem frame_refines_pool {es : List FrameEvent} {b : Bitmap} (hrun : frameSystem.Run es b)
    (hclient : ClientOk es) : poolSystem.Run es (held es) ∧ allocated b = held es := by
  induction hrun with
  | init hb => exact ⟨.init rfl, allocated_init hb⟩
  | snoc _ hstep ih =>
      obtain ⟨hpool, hheld⟩ := ih hclient.of_snoc
      obtain ⟨hpool', hheld'⟩ := pool_step hheld hclient hstep
      exact ⟨hpool.snoc hpool', hheld'⟩

/-- After every run of a client that releases only what it holds: what
`frame_alloc` returns is the lowest frame that nobody holds, or 0 when all 3072
are held, and `frame_dealloc` of a held frame frees that frame alone. -/
theorem frame_correct {es : List FrameEvent} {b : Bitmap} (hrun : frameSystem.Run es b)
    (hclient : ClientOk es) :
    allocated b = held es ∧
    ((frameAlloc b).2 ≠ 0 →
      ((frameAlloc b).2.toNat % 4096 = 0 ∧ 2 * 2 ^ 20 ≤ (frameAlloc b).2.toNat ∧
        (frameAlloc b).2.toNat < 14 * 2 ^ 20) ∧
      (frameAlloc b).2 ∉ held es ∧
      ∀ q : UInt32, q.toNat % 4096 = 0 → 2 * 2 ^ 20 ≤ q.toNat → q < (frameAlloc b).2 →
        q ∈ held es) ∧
    ((frameAlloc b).2 = 0 ↔ (held es).card = 3072) ∧
    ∀ p ∈ held es, (frameDealloc b p).2 = 0 ∧
      allocated (frameDealloc b p).1 = (held es).erase p := by
  have hheld := (frame_refines_pool hrun hclient).2
  have hsub := allocated_subset b
  rw [hheld] at hsub
  refine ⟨hheld, ?_, ?_, fun p hp => ?_⟩
  · intro hne
    rcases frameAlloc_allocated b with ⟨⟨hmem, hfree, hlow⟩, -⟩ | ⟨-, hfull⟩
    · rw [hheld] at hfree hlow
      have hrange := (mem_frames_iff_range _).mp hmem
      refine ⟨hrange, hfree, fun q hal hmin hlt => hlow q ?_ hlt⟩
      rw [UInt32.lt_iff_toNat_lt] at hlt
      exact (mem_frames_iff_range q).mpr ⟨hal, hmin, by omega⟩
    · rw [hfull] at hne
      exact absurd rfl hne
  · rcases frameAlloc_allocated b with ⟨⟨hmem, hfree, -⟩, -⟩ | ⟨hall, hfull⟩
    · rw [hheld] at hfree
      refine iff_of_false (ne_zero_of_mem_frames hmem) fun hcard => ?_
      have hframes : held es = frames :=
        Finset.eq_of_subset_of_card_le hsub (by rw [card_frames, hcard])
      rw [hframes] at hfree
      exact hfree hmem
    · rw [hheld] at hall
      rw [hfull, hall, card_frames]
      exact iff_of_true rfl rfl
  · rw [← hheld] at hp ⊢
    exact frameDealloc_allocated hp

theorem frameSystem_run_first : frameSystem.Run [.alloc 0x200000] (frameAlloc fun _ => 0).1 := by
  have hret : (frameAlloc fun _ => 0).2 = 0x200000 := rfl
  have hrun : frameSystem.Run ([] ++ [.alloc 0x200000]) (frameAlloc fun _ => 0).1 :=
    .snoc (.init fun _ => rfl) (Prod.ext rfl hret)
  exact hrun

def sampleEvents : List FrameEvent :=
  [.alloc 0x200000, .dealloc 0x200000 0, .alloc 0x200000]

theorem sampleEvents_clientOk : ClientOk sampleEvents := by
  intro pre p c post hes
  rcases pre with _ | ⟨e, _ | ⟨e', _ | ⟨e'', pre⟩⟩⟩
  · cases hes
  · obtain ⟨rfl, htail⟩ := List.cons.inj hes
    obtain ⟨hdealloc, -⟩ := List.cons.inj htail
    obtain ⟨rfl, -⟩ := FrameEvent.dealloc.inj hdealloc
    exact Finset.mem_singleton_self _
  · cases hes
  · cases pre <;> cases hes

theorem frame_correct_sample :
    ∃ b, frameSystem.Run sampleEvents b ∧ (frameDealloc b 0x200000).2 = 0 ∧
      allocated (frameDealloc b 0x200000).1 = ∅ := by
  have hrelease : frameSystem.step _ (.dealloc 0x200000 0) _ :=
    (Prod.ext rfl rfl : frameDealloc (frameAlloc fun _ => 0).1 0x200000 = (_, 0))
  have hagain : frameSystem.step _ (.alloc 0x200000) _ :=
    (Prod.ext rfl rfl : frameAlloc (frameDealloc (frameAlloc fun _ => 0).1 0x200000).1 =
      (_, 0x200000))
  have hrun : frameSystem.Run sampleEvents _ :=
    (frameSystem_run_first.snoc hrelease).snoc hagain
  have hheld : held sampleEvents = {0x200000} := rfl
  have hdealloc := (frame_correct hrun sampleEvents_clientOk).2.2.2 0x200000
  rw [hheld] at hdealloc
  obtain ⟨hzero, hset⟩ := hdealloc (Finset.mem_singleton_self _)
  exact ⟨_, hrun, hzero, by rw [hset]; rfl⟩

/-! ### Every address -/

def frameStart (p : UInt32) : UInt32 := UInt32.ofNat (p.toNat / 4096 * 4096)

theorem frameStart_toNat (p : UInt32) : (frameStart p).toNat = p.toNat / 4096 * 4096 := by
  have hp := p.toNat_lt
  exact UInt32.toNat_ofNat_of_lt' (show p.toNat / 4096 * 4096 < 2 ^ 32 by omega)

theorem frameStart_eq_self_iff (p : UInt32) : frameStart p = p ↔ p.toNat % 4096 = 0 := by
  rw [← UInt32.toNat_inj, frameStart_toNat]
  omega

/-- An address outside of the managed memory has no number of a frame: below
it, the subtraction wraps. -/
theorem frameStart_mem_frames_iff (p : UInt32) : frameStart p ∈ frames ↔ frameNum p < 3072 := by
  have hp := p.toNat_lt
  rw [mem_frames_iff_range, frameStart_toNat, frameNum, UInt32.toNat_div, UInt32.toNat_sub,
    show paddrMin.toNat = 2097152 from rfl, show pageSize.toNat = 4096 from rfl]
  omega

theorem frameNum_frameStart (p : UInt32) (h : frameNum p < 3072) :
    frameNum (frameStart p) = frameNum p := by
  have hp := p.toNat_lt
  revert h
  rw [frameNum, frameNum, UInt32.toNat_div, UInt32.toNat_sub, UInt32.toNat_div, UInt32.toNat_sub,
    frameStart_toNat, show paddrMin.toNat = 2097152 from rfl,
    show pageSize.toNat = 4096 from rfl]
  omega

theorem frameStart_mem_allocated_iff (b : Bitmap) (p : UInt32) :
    frameStart p ∈ allocated b ↔ frameNum p < 3072 ∧ bitAt b (frameNum p) = true := by
  rw [allocated, Finset.mem_filter, frameStart_mem_frames_iff]
  exact and_congr_right fun h => by rw [frameNum_frameStart p h]

theorem deallocAccepts_iff (b : Bitmap) (p : UInt32) :
    DeallocAccepts b p ↔ p.toNat % 1024 = 0 ∧ frameStart p ∈ allocated b := by
  rw [frameStart_mem_allocated_iff]
  rfl

/-- `frame_dealloc` releases the frames in use at their start addresses, and
refuses every other address. -/
structure DeallocExact (b : Bitmap) (p : UInt32) : Prop where
  accepts_iff : (frameDealloc b p).2 = 0 ↔ p ∈ allocated b
  clears : p ∈ allocated b → ∀ k,
    bitAt (frameDealloc b p).1 k = (bitAt b k && !decide (k = frameNum p))
  refuses : p ∉ allocated b → frameDealloc b p = (b, 1)

/-- In every state, whatever addresses were released before: `frame_dealloc` is
exact for an address unless this is a multiple of 1024 that lies in a frame in
use but is not its start. -/
theorem frame_dealloc_exact_iff (b : Bitmap) (p : UInt32) :
    DeallocExact b p ↔
      ¬ (p.toNat % 1024 = 0 ∧ p.toNat % 4096 ≠ 0 ∧ frameStart p ∈ allocated b) := by
  have haccepts := deallocAccepts_iff b p
  have hmem : p ∈ allocated b ↔ p.toNat % 4096 = 0 ∧ frameStart p ∈ allocated b := by
    constructor
    · intro hp
      have hself := (mem_frames_iff_range p).mp (allocated_subset b hp)
      rw [(frameStart_eq_self_iff p).mpr hself.1]
      exact ⟨hself.1, hp⟩
    · rintro ⟨halign, hp⟩
      rwa [(frameStart_eq_self_iff p).mpr halign] at hp
  constructor
  · rintro h ⟨hmask, halign, hframe⟩
    rcases frameDealloc_cases b p with ⟨-, hcode, -⟩ | ⟨hno, -⟩
    · exact halign (hmem.mp (h.accepts_iff.mp hcode)).1
    · exact hno (haccepts.mpr ⟨hmask, hframe⟩)
  · intro hcond
    have hiff : DeallocAccepts b p ↔ p ∈ allocated b := by
      rw [haccepts, hmem]
      refine ⟨fun h => ⟨?_, h.2⟩, fun h => ⟨by omega, h.2⟩⟩
      by_contra halign
      exact hcond ⟨h.1, halign, h.2⟩
    rcases frameDealloc_cases b p with ⟨hacc, hcode, hbits⟩ | ⟨hno, heq⟩
    · have hp := hiff.mp hacc
      exact ⟨iff_of_true hcode hp, fun _ => hbits, fun hnot => absurd hp hnot⟩
    · have hp := mt hiff.mpr hno
      refine ⟨iff_of_false (fun hcode => ?_) hp, fun h => absurd h hp, fun _ => heq⟩
      rw [heq] at hcode
      cases hcode

/-- 0x200400 lies in the first frame, and is accepted for it. -/
theorem frame_dealloc_inside_frame :
    ∃ b, frameSystem.Run [.alloc 0x200000] b ∧ (frameDealloc b 0x200400).2 = 0 ∧
      0x200400 ∉ allocated b ∧ ¬ DeallocExact b 0x200400 := by
  have hcode : (frameDealloc (frameAlloc fun _ => 0).1 0x200400).2 = 0 := rfl
  have hnot : 0x200400 ∉ allocated (frameAlloc fun _ => 0).1 := fun h => by
    have hrange := (mem_frames_iff_range _).mp (allocated_subset _ h)
    exact absurd hrange.1 (by decide)
  exact ⟨_, frameSystem_run_first, hcode, hnot, fun h => hnot (h.accepts_iff.mp hcode)⟩

end Kboot86.Frame
