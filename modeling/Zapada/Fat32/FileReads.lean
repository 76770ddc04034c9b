import Zapada.Fat32.Reading

namespace Zapada.Fat32

open Foundation Storage Image

/-- A token inside its file, whose cache is good if there are bytes left to read. -/
structure Positioned (image : Memory) (clusters : List Nat) (token : Token) : Prop where
  inFile : (token.offset : Int) ≤ token.fileSize
  cached : (token.offset : Int) < token.fileSize → Cached image clusters token

@[simp] theorem Fat32Volume.setToken_self (volume : Fat32Volume) (t : Fin maxTokens) :
    volume.setToken t (volume.tokens t) = volume := by
  rw [setToken, Function.update_eq_self]

namespace FileAt

variable {volume : Fat32Volume} {image : Memory} {clusters : List Nat} {token : Token}

section

variable (fileAt : FileAt volume image firstCluster size clusters)

include fileAt

theorem clusterSize_eq : volume.clusterSize = clusterSize image := by
  rw [Fat32Volume.clusterSize, fileAt.mounted.bps, fileAt.mounted.spc, clusterSize]

/-- A round that has bytes to go copies some of them, and leaves the token inside a
cluster if there are still more. -/
theorem readRound_spec (offset : Nat) (buffer : Buffer) (unfinished : written < count)
    (inside : (token.offset + (count - written) : Nat) ≤ size)
    (cached : Cached image clusters token) (inCluster : token.offsetInCluster < clusterSize image) :
    ∃ token' buffer' wanted, 0 < wanted ∧ written + wanted ≤ count ∧
      volume.readRound offset count token buffer written =
        .goesOn token' buffer' (written + wanted) ∧
      Copies image clusters token token' buffer buffer' (offset + written) wanted ∧
      (written + wanted < count → token'.offsetInCluster < clusterSize image) := by
  obtain ⟨j, c, here, cluster, position, -⟩ := cached
  obtain ⟨low, -, -, -⟩ := fileAt.file.cluster c (List.mem_of_getElem? here)
  have valid : ¬ token.currentCluster < 2 := by omega
  have multiple : clusterSize image = 512 * sectorsPerCluster image := rfl
  obtain ⟨wanted, isWanted⟩ :
      ∃ wanted, wanted = min (count - written) (512 - token.offsetInCluster % 512) := ⟨_, rfl⟩
  obtain ⟨secBuf, sector, copied⟩ := fileAt.copies_sector here cluster position inCluster
    (show token.offsetInCluster % 512 + wanted ≤ 512 by omega) buffer (offset + written)
  simp only [Fat32Volume.readRound, if_neg valid, fileAt.mounted.bps, sector, ← isWanted,
    Fat32Volume.advance, fileAt.clusterSize_eq]
  split
  · rename_i full
    -- the bytes still wanted lie in the next cluster of the chain
    have ends : token.offset + wanted = (j + 1) * clusterSize image := by
      rw [Nat.succ_mul]
      omega
    have bound := fileAt.file.enough
    have more : (j + 1) * clusterSize image < clusters.length * clusterSize image := by
      omega
    have inChain : j + 1 < clusters.length := Nat.lt_of_mul_lt_mul_right more
    obtain ⟨d, next⟩ : ∃ d, clusters[j + 1]? = some d := ⟨_, List.getElem?_eq_getElem inChain⟩
    obtain ⟨-, high, -, -⟩ := fileAt.file.cluster d (List.mem_of_getElem? next)
    have notNegative : ¬ (d : Int) < 0 := by omega
    rw [cluster, fileAt.next_cluster here next, if_neg notNegative, isEoc_cluster high,
      if_neg Bool.false_ne_true]
    refine ⟨_, _, wanted, by omega, by omega, rfl, ?_, fun _ => Nat.zero_lt_of_lt inCluster⟩
    exact ⟨⟨⟨rfl, rfl, rfl, rfl⟩, rfl, copied.delivers.length, copied.delivers.bytes⟩,
      ⟨j + 1, d, next, rfl, by simpa using ends, Nat.zero_le _⟩⟩
  · rename_i notFull
    refine ⟨_, _, wanted, by omega, by omega, rfl, copied, fun more => ?_⟩
    simp only
    omega

/-- The loop copies all the bytes it is asked for, if it does not start at the end of
its cached cluster. -/
theorem readLoop_spec (offset count : Nat)
    (fuel : Nat) (token : Token) (buffer : Buffer) (written : Nat) (unfinished : written ≤ count)
    (enough : count - written ≤ fuel) (inside : (token.offset + (count - written) : Nat) ≤ size)
    (cached : Cached image clusters token)
    (inCluster : written < count → token.offsetInCluster < clusterSize image) :
    ∃ token' buffer', volume.readLoop offset count fuel token buffer written =
      ((count : Int), token', buffer') ∧
      Copies image clusters token token' buffer buffer' (offset + written) (count - written) := by
  induction fuel generalizing token buffer written with
  | zero =>
    obtain rfl : written = count := by omega
    refine ⟨token, buffer, rfl, ?_⟩
    rw [Nat.sub_self]
    exact ⟨.refl _ _ _, cached⟩
  | succ fuel ih =>
    simp only [Fat32Volume.readLoop]
    split
    · rename_i finished
      obtain rfl : written = count := by omega
      refine ⟨token, buffer, rfl, ?_⟩
      rw [Nat.sub_self]
      exact ⟨.refl _ _ _, cached⟩
    · rename_i more
      obtain ⟨middle, between, wanted, progress, fits, round, copied, within⟩ :=
        fileAt.readRound_spec offset buffer (Nat.lt_of_not_le more) inside cached
          (inCluster (Nat.lt_of_not_le more))
      have position := copied.delivers.offset
      obtain ⟨token', buffer', loop, copies⟩ := ih middle between (written + wanted) fits (by omega)
        (by omega) copied.cached within
      rw [round]
      refine ⟨token', buffer', loop, ?_⟩
      have rest : count - written = wanted + (count - (written + wanted)) := by omega
      rw [← Nat.add_assoc] at copies
      rw [rest]
      exact ⟨copied.delivers.trans copies.delivers, copies.cached⟩

end

/-- A read inside the buffer delivers the bytes at the token's offset, up to the end
of the file, and advances the token past them. -/
theorem read_spec (valid : volume.validToken fileToken = some t)
    (fileAt : FileAt volume image firstCluster (volume.tokens t).fileSize clusters)
    (positioned : Positioned image clusters (volume.tokens t))
    {offset count : Int} (low : 0 ≤ offset) (wanted : 0 ≤ count)
    (inBuffer : offset + count ≤ buffer.length)
    (inCluster : 0 < count → ((volume.tokens t).offset : Int) < (volume.tokens t).fileSize →
      (volume.tokens t).offsetInCluster < volume.clusterSize) : ∃ (got : Nat) (token' : Token)
      (buffer' : Buffer),
      (got : Int) = min count ((volume.tokens t).fileSize - (volume.tokens t).offset) ∧
      volume.read fileToken (some buffer) offset count =
        ((got : Int), some buffer', volume.setToken t token') ∧ Positioned image clusters token' ∧
      Delivers image clusters (volume.tokens t) token' buffer buffer' offset.toNat got := by
  have start := positioned.inFile
  have bounded := buffer.bounded
  have inArray : ¬ (offset < 0 ∨ count < 0 ∨ (buffer.length : Int) < int32 (offset + count)) := by
    rw [int32_of_range (by omega) (by omega)]
    omega
  simp only [Fat32Volume.read, valid, if_neg inArray]
  split
  · rename_i nothing
    refine ⟨0, volume.tokens t, buffer, by omega, ?_, positioned, .refl _ _ _⟩
    rw [Fat32Volume.setToken_self]
    rfl
  split
  · rename_i atEnd
    refine ⟨0, volume.tokens t, buffer, by omega, ?_, positioned, .refl _ _ _⟩
    rw [Fat32Volume.setToken_self]
    rfl
  · rename_i some_bytes before_end
    have cached := positioned.cached (by omega)
    obtain ⟨j, c, here, cluster, -, -⟩ := id cached
    obtain ⟨two, -, -, -⟩ := fileAt.file.cluster c (List.mem_of_getElem? here)
    obtain ⟨got, isGot⟩ : ∃ got : Nat,
        (got : Int) = min count ((volume.tokens t).fileSize - (volume.tokens t).offset) :=
      ⟨_, Int.toNat_of_nonneg (by omega)⟩
    have inside := inCluster (by omega) (by omega)
    rw [fileAt.clusterSize_eq] at inside
    obtain ⟨token', buffer', loop, copies⟩ := fileAt.readLoop_spec offset.toNat got got
      (volume.tokens t) buffer 0 (Nat.zero_le _) (Nat.le_refl _) (by omega) cached
      (fun _ => inside)
    rw [← isGot, Int.toNat_natCast, loop, if_neg (by omega)]
    refine ⟨got, token', buffer', rfl, rfl, ⟨?_, fun _ => copies.cached⟩, copies.delivers⟩
    rw [copies.delivers.offset, copies.delivers.same.fileSize]
    omega

/-- A seek to an offset in the file caches the cluster of that offset. -/
theorem seek_spec (valid : volume.validToken fileToken = some t)
    (fileAt : FileAt volume image (volume.tokens t).firstCluster
      (volume.tokens t).fileSize clusters)
    (low : 0 ≤ absoluteOffset) (inFile : absoluteOffset ≤ (volume.tokens t).fileSize) :
    ∃ token', volume.seek fileToken absoluteOffset = (StorageStatus.ok, volume.setToken t token') ∧
      SameFile (volume.tokens t) token' ∧ Positioned image clusters token' ∧
      (token'.offset : Int) = absoluteOffset ∧ (absoluteOffset < (volume.tokens t).fileSize →
        token'.offsetInCluster < volume.clusterSize) := by
  obtain ⟨position, rfl⟩ : ∃ position : Nat, absoluteOffset = position :=
    ⟨_, (Int.toNat_of_nonneg low).symm⟩
  have inRange : ¬ ((position : Int) < 0 ∨ (volume.tokens t).fileSize < position) := by omega
  simp only [Fat32Volume.seek, valid, if_neg inRange, Int.toNat_natCast]
  split
  · refine ⟨_, rfl, ⟨rfl, rfl, rfl, rfl⟩, ⟨?_, ?_⟩, ?_, ?_⟩ <;> simp only <;> omega
  split
  · refine ⟨_, rfl, ⟨rfl, rfl, rfl, rfl⟩, ⟨?_, ?_⟩, ?_, ?_⟩ <;> simp only <;> omega
  · rename_i some_bytes before_end
    have size : 0 < volume.clusterSize := by
      rw [fileAt.clusterSize_eq, clusterSize]
      have := fileAt.mounted.spcPositive
      omega
    have bound := fileAt.file.enough
    rw [← fileAt.clusterSize_eq] at bound
    have inChain : position / volume.clusterSize < clusters.length :=
      Nat.div_lt_of_lt_mul (by rw [Nat.mul_comm]; omega)
    obtain ⟨d, there⟩ : ∃ d, clusters[position / volume.clusterSize]? = some d :=
      ⟨_, List.getElem?_eq_getElem inChain⟩
    have head := fileAt.file.start (by omega)
    rw [List.head?_eq_getElem?, Option.map_eq_some_iff] at head
    obtain ⟨c, here, first⟩ := head
    have walk := fileAt.walkFat_eq here (by rw [Nat.zero_add]; exact there)
    rw [← Int.ofNat_eq_natCast, first] at walk
    rw [walk]
    refine ⟨_, rfl, ⟨rfl, rfl, rfl, rfl⟩, ⟨inFile, fun _ => ⟨_, d, there, rfl, ?_, ?_⟩⟩, rfl,
      fun _ => Nat.mod_lt _ size⟩
    · rw [← fileAt.clusterSize_eq]
      exact (Nat.div_add_mod' _ _).symm
    · rw [← fileAt.clusterSize_eq]
      exact (Nat.mod_lt _ size).le

end FileAt

end Zapada.Fat32
