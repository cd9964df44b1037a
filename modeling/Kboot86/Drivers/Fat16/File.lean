import Kboot86.Drivers.Fat16.RootDir

/-!
# A file of a volume

What it means, on the sectors of a partition alone, that a volume holds a file,
and that `fat16.c` then finds and loads it. The volume has its root directory
in whole clusters, and the file has one cluster or the root directory 8 of
them: other links are not followed to where they lead.
-/

namespace Kboot86.Fat16

/-- Entry `i` of the root directory, with the chain `c`, is that of the file
with these bytes. -/
structure IsFile (v : Vid) (part : Nat → Sector) (numSecs : Nat) (filename : List UInt8)
    (i : Nat) (c : Nat → UInt16) (len : Nat) (file : Nat → UInt8) : Prop where
  entry : IsEntryOf v part filename i
  first : ∀ j < i, ¬ IsEntryOf v part filename j
  size : (rootEntry v part i).size.toNat = len
  chain : FatChain v part numSecs (rootEntry v part i) c
  bytes : ∀ k < len, file k =
    part (dataSector v (c (k / v.clusterSize)) (k % v.clusterSize / sectorSize)) (k % sectorSize)

structure HoldsFile (v : Vid) (part : Nat → Sector) (numSecs : Nat) (filename : List UInt8)
    (len : Nat) (file : Nat → UInt8) : Prop where
  spc : 0 < v.sectorsPerCluster.toNat
  root : v.maxRootEntries.toNat * dirEntrySize % v.clusterSize = 0
  inside : dataStart v ≤ numSecs
  links : v.roots = 8 ∨ len ≤ v.clusterSize
  found : ∃ i c, IsFile v part numSecs filename i c len file

section

variable {d : Drive} {f : Volume} {part : Nat → Sector} {filename : List UInt8} {len : Nat}
  {file : Nat → UInt8}

theorem fat16Init_of_read {p : Nat} (hp : p < 4) {base : Sector}
    (h : readSector d { f with partitionNum := ⟨p, hp⟩ } 0 = some base) :
    (fat16Init d f p).2 = 0 ∧ (fat16Init d f p).1.partitionNum = ⟨p, hp⟩ ∧
      (fat16Init d f p).1.vid = initVid f.vid base := by
  rw [fat16Init, dif_pos hp]
  dsimp only
  rw [h]
  exact ⟨rfl, rfl, rfl⟩

theorem HoldsFile.rootdirFindEntry_eq {i : Nat} {c : Nat → UInt16}
    (h : HoldsFile f.vid part (d.partitionEntry f.partitionNum).numSecs.toNat filename len file)
    (hi : IsFile f.vid part (d.partitionEntry f.partitionNum).numSecs.toNat filename i c len file)
    (hf : f.Located) (hreads : Reads d f part) :
    rootdirFindEntry d f filename = .ok (some (rootEntry f.vid part i)) := by
  have hspec := findEntryFrom_spec (hreads.readsRoot h.inside) hf h.spc h.root filename
    f.vid.maxRootEntries.toNat 0 (Nat.zero_add _) (fun j hj => absurd hj (Nat.not_lt_zero j))
    fun j hj => absurd hj (Nat.not_lt_zero j)
  rcases hspec with ⟨k, hk, hleast, heq⟩ | ⟨hnone, -⟩
  · obtain rfl : i = k := Nat.le_antisymm (Nat.le_of_not_lt fun hlt => hi.first k hlt hk)
      (Nat.le_of_not_lt fun hlt => hleast i hlt hi.entry)
    exact heq
  · exact absurd hi.entry (hnone i)

/-- The file has its size, and is loaded into a buffer that is large enough. -/
theorem HoldsFile.loads
    (h : HoldsFile f.vid part (d.partitionEntry f.partitionNum).numSecs.toNat filename len file)
    (hf : f.Located) (hreads : Reads d f part) {bufSize : UInt32} (hfits : len ≤ bufSize.toNat)
    (hsmall : len < 2 ^ 31) (buf : Nat → UInt8) :
    fat16GetFileSize d f filename = .ok len ∧
      ∃ out, fat16Load d f filename buf bufSize = .ok ((len : Int), out) ∧
        ∀ k < len, out.buf k = file k := by
  obtain ⟨i, c, hi⟩ := h.found
  have hde := h.rootdirFindEntry_eq hi hf hreads
  have hmax : loadMax (rootEntry f.vid part i) bufSize = len := by
    rw [loadMax, hi.size]
    exact Nat.min_eq_left hfits
  have hchain : ∀ k, f.vid.clusterSize * k < loadMax (rootEntry f.vid part i) bufSize →
      chain d f (rootEntry f.vid part i).startingCluster k = some (c k) := fun k hk => by
    rw [hmax] at hk
    rcases h.links with height | hone
    · exact hi.chain.chain_eq hreads hf h.spc height k (by rwa [hi.size])
    · obtain rfl : k = 0 := by
        by_contra hk0
        have hmul := Nat.le_mul_of_pos_right f.vid.clusterSize (Nat.pos_of_ne_zero hk0)
        omega
      rw [chain, hi.chain.start]
  obtain ⟨out, hout, hbytes⟩ := hi.chain.loadsFile hreads hf h.root hde hchain
    (by rwa [hmax])
  rw [hmax] at hout hbytes
  refine ⟨?_, out, hout, fun k hk => (hbytes k hk).trans (hi.bytes k hk).symm⟩
  rw [fat16GetFileSize, hde, ok_bind]
  change Except.ok (toSsize (rootEntry f.vid part i).size.toNat) = _
  rw [hi.size, toSsize_of_lt hsmall]

end

end Kboot86.Fat16
