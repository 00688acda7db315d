import UBootV210.Foundation.CyclicProbe
import UBootV210.Environment.HashTable

/-! # Probing the hash table

The probe loop of `hsearch_r` walks the cyclic index range with a stride that
is coprime to the prime table size. These lemmas say where the loop stops. -/

namespace UBootV210.Environment

/-! ## Hash values as walk parameters -/

variable {size : UInt32}

def firstIndex (size value : UInt32) : UInt32 := if value % size = 0 then 1 else value % size

theorem firstIndex_bounds (large : 2 ≤ size.toNat) (value : UInt32) :
    1 ≤ (firstIndex size value).toNat ∧ (firstIndex size value).toNat < size.toNat := by
  rw [firstIndex]
  split
  · exact ⟨by decide, large⟩
  · rename_i nonzero
    have positive : (value % size).toNat ≠ 0 := by
      intro zero
      exact nonzero (UInt32.toNat_inj.mp (by simpa using zero))
    have below : value.toNat % size.toNat < size.toNat := Nat.mod_lt _ (by omega)
    exact ⟨by omega, below⟩

theorem hashValue_bounds (large : 2 ≤ size.toNat) (key : CString) :
    1 ≤ (hashValue size key).toNat ∧ (hashValue size key).toNat < size.toNat :=
  firstIndex_bounds large _

theorem hashStride_bounds (large : 3 ≤ size.toNat) (hval : UInt32) :
    1 ≤ (hashStride size hval).toNat ∧ (hashStride size hval).toNat < size.toNat := by
  have small : (2 : UInt32) ≤ size := by
    exact Nat.le_of_succ_le large
  have sizeLt := size.toNat_lt
  have modulus : (size - 2).toNat = size.toNat - 2 := UInt32.toNat_sub_of_le _ _ small
  have below : hval.toNat % (size.toNat - 2) < size.toNat - 2 := Nat.mod_lt _ (by omega)
  have value : (hashStride size hval).toNat = 1 + hval.toNat % (size.toNat - 2) := by
    rw [hashStride, UInt32.toNat_add, UInt32.toNat_mod, modulus]
    apply Nat.mod_eq_of_lt
    have one : (1 : UInt32).toNat = 1 := rfl
    omega
  omega

variable {idx : UInt32}

theorem probeNext_toNat (strideLt : hval2.toNat < size.toNat) (upper : idx.toNat ≤ size.toNat) :
    (probeNext size hval2 idx).toNat = CyclicProbe.back size.toNat hval2.toNat idx.toNat := by
  have sizeLt := size.toNat_lt
  simp only [probeNext, CyclicProbe.back, UInt32.le_iff_toNat_le]
  split
  · -- The sum may wrap, but the final difference is again below `2 ^ 32`.
    rw [UInt32.toNat_sub, UInt32.toNat_add]
    omega
  · rename_i beyond
    apply UInt32.toNat_sub_of_le
    rw [UInt32.le_iff_toNat_le]
    omega

/-- The slot index that the search for `key` inspects after `count` steps. -/
def probeAt (size : UInt32) (key : CString) : Nat → UInt32
  | 0 => hashValue size key
  | count + 1 => probeNext size (hashStride size (hashValue size key)) (probeAt size key count)

def probeFrom (size hval : UInt32) : Nat → UInt32
  | 0 => hval
  | count + 1 => probeNext size (hashStride size hval) (probeFrom size hval count)

def HSearchData.slotAt (htab : HSearchData) (key : CString) (count : Nat) : Slot :=
  htab.table (probeAt htab.size key count).toNat

structure ValidSize (size : UInt32) : Prop where
  prime : size.toNat.Prime
  large : 3 ≤ size.toNat

variable {count : Nat}

namespace ValidSize

variable {size : UInt32}

theorem probeFrom_toNat (valid : ValidSize size) (lower : 1 ≤ hval.toNat)
    (upper : hval.toNat < size.toNat) :
    (probeFrom size hval count).toNat =
      CyclicProbe.position size.toNat (hashStride size hval).toNat hval.toNat count := by
  have stride := hashStride_bounds valid.large hval
  induction count with
  | zero => rfl
  | succ count induction =>
    have bounds := CyclicProbe.position_bounds stride.2.le stride.1 lower upper.le count
    rw [probeFrom, probeNext_toNat stride.2 (by omega), induction]
    rfl

theorem coprime_hashStride (valid : ValidSize size) (hval : UInt32) :
    Nat.Coprime size.toNat (hashStride size hval).toNat := by
  have stride := hashStride_bounds valid.large hval
  exact Nat.coprime_of_lt_prime (by omega) stride.2 valid.prime

/-- The walk from the first index of any value meets every index of the table exactly once
before it is back at its start. -/
theorem probeFrom_visits_once (valid : ValidSize size) (value : UInt32) :
    (∀ count, 1 ≤ (probeFrom size (firstIndex size value) count).toNat ∧
      (probeFrom size (firstIndex size value) count).toNat ≤ size.toNat) ∧
    (∀ index, 1 ≤ index → index ≤ size.toNat → ∃! count, count < size.toNat ∧
      (probeFrom size (firstIndex size value) count).toNat = index) ∧
    probeFrom size (firstIndex size value) size.toNat = firstIndex size value := by
  have start := firstIndex_bounds (Nat.le_of_succ_le valid.large) value
  have stride := hashStride_bounds valid.large (firstIndex size value)
  have coprime := valid.coprime_hashStride (firstIndex size value)
  simp only [← UInt32.toNat_inj, valid.probeFrom_toNat start.1 start.2]
  refine ⟨CyclicProbe.position_bounds stride.2.le stride.1 start.1 start.2.le, ?_,
    CyclicProbe.position_size stride.2.le stride.1 start.1 start.2.le⟩
  intro index lower upper
  obtain ⟨count, inside, reached⟩ := CyclicProbe.exists_position stride.2.le stride.1 coprime
    start.1 start.2.le lower upper
  refine ⟨count, ⟨inside, reached⟩, ?_⟩
  rintro other ⟨otherInside, otherReached⟩
  exact CyclicProbe.position_injOn stride.2.le coprime otherInside inside
    (otherReached.trans reached.symm)

theorem probeFrom_visits_once_five : ValidSize 5 ∧ (∀ index, 1 ≤ index → index ≤ 5 →
      ∃! count, count < 5 ∧ (probeFrom 5 (firstIndex 5 23) count).toNat = index) ∧
    probeFrom 5 (firstIndex 5 23) 5 = firstIndex 5 23 := by
  have five : ValidSize 5 := ⟨by change Nat.Prime 5; norm_num, by decide⟩
  exact ⟨five, (five.probeFrom_visits_once 23).2⟩

section

variable (valid : ValidSize size) (key : CString)
include valid key

theorem probeAt_toNat : (probeAt size key count).toNat = CyclicProbe.position size.toNat
        (hashStride size (hashValue size key)).toNat
        (hashValue size key).toNat count := by
  have hash := hashValue_bounds (Nat.le_of_succ_le valid.large) key
  have walk : probeAt size key count = probeFrom size (hashValue size key) count := by
    induction count with
    | zero => rfl
    | succ count induction => rw [probeAt, probeFrom, induction]
  rw [walk, valid.probeFrom_toNat hash.1 hash.2]

theorem probeAt_bounds (count : Nat) :
    1 ≤ (probeAt size key count).toNat ∧ (probeAt size key count).toNat ≤ size.toNat := by
  have hash := hashValue_bounds (Nat.le_of_succ_le valid.large) key
  have stride := hashStride_bounds valid.large (hashValue size key)
  rw [valid.probeAt_toNat]
  exact CyclicProbe.position_bounds stride.2.le stride.1 hash.1 hash.2.le count

theorem probeAt_injOn (leftLt : left < size.toNat) (rightLt : right < size.toNat)
    (equal : (probeAt size key left).toNat = (probeAt size key right).toNat) : left = right := by
  have stride := hashStride_bounds valid.large (hashValue size key)
  rw [valid.probeAt_toNat, valid.probeAt_toNat] at equal
  exact CyclicProbe.position_injOn stride.2.le (valid.coprime_hashStride _) leftLt rightLt equal

theorem probeAt_ne_first (positive : 0 < count) (countLt : count < size.toNat) :
    probeAt size key count ≠ hashValue size key := by
  intro equal
  have zero : count = 0 := valid.probeAt_injOn key countLt (by omega) (congrArg UInt32.toNat equal)
  omega

theorem probeAt_size : probeAt size key size.toNat = hashValue size key := by
  have hash := hashValue_bounds (Nat.le_of_succ_le valid.large) key
  have stride := hashStride_bounds valid.large (hashValue size key)
  apply UInt32.toNat_inj.mp
  rw [valid.probeAt_toNat]
  exact CyclicProbe.position_size stride.2.le stride.1 hash.1 hash.2.le

theorem exists_probeAt (lower : 1 ≤ index) (upper : index ≤ size.toNat) :
    ∃ count < size.toNat, (probeAt size key count).toNat = index := by
  have hash := hashValue_bounds (Nat.le_of_succ_le valid.large) key
  have stride := hashStride_bounds valid.large (hashValue size key)
  obtain ⟨count, countLt, reached⟩ := CyclicProbe.exists_position stride.2.le stride.1
    (valid.coprime_hashStride _) hash.1 hash.2.le lower upper
  exact ⟨count, countLt, (valid.probeAt_toNat key).trans reached⟩

end

end ValidSize

/-! ## Where the loop stops -/

/-- The comparison at `count` does not end the search: it neither finds the
key, nor faults, nor meets a slot that was never used. -/
structure Passes (htab : HSearchData) (key : CString) (count : Nat) : Prop where
  used : (htab.slotAt key count).used ≠ 0
  other : (htab.slotAt key count).used = (hashValue htab.size key).toNat →
    ∃ stored, (htab.slotAt key count).entry.key = some stored ∧ key ≠ stored

section

variable (hooks : Hooks) (allocation : Allocation) (item : Item) (action : Action)
  (htab : HSearchData) (flag : Int)

def hit (idx : UInt32) : HSearchReturn × HSearchData :=
  match action, item.data with
  | .enter, some value => overwriteEntry hooks allocation item.key value htab flag idx
  | _, _ => (.success idx.toNat idx, htab)

private def loopFrom (fuel count : Nat) : Exec ProbeExit :=
  probeLoop hooks allocation item action htab flag (hashValue htab.size item.key)
    (hashStride htab.size (hashValue htab.size item.key)) fuel
    (probeAt htab.size item.key count)

variable {htab}

theorem Passes.compare (passes : Passes htab item.key count) :
    compareAndOverwriteEntry hooks allocation item action htab flag
      (hashValue htab.size item.key) (probeAt htab.size item.key count) = .ok none := by
  simp only [compareAndOverwriteEntry]
  split
  · rename_i usedEq
    obtain ⟨stored, keyEq, different⟩ := passes.other usedEq
    rw [HSearchData.slotAt] at keyEq
    simp [keyEq, different]
  · rfl

theorem compare_hit (usedEq : (htab.table idx.toNat).used = (hashValue htab.size item.key).toNat)
    (keyEq : (htab.table idx.toNat).entry.key = some item.key) :
    compareAndOverwriteEntry hooks allocation item action htab flag
      (hashValue htab.size item.key) idx =
        .ok (some (hit hooks allocation item action htab flag idx)) := by
  simp only [compareAndOverwriteEntry, usedEq, keyEq, if_true, hit]
  cases action <;> cases item.data <;> rfl

theorem compare_free (large : 3 ≤ htab.size.toNat) (free : (htab.table idx.toNat).used = 0) :
    compareAndOverwriteEntry hooks allocation item action htab flag
      (hashValue htab.size item.key) idx = .ok none := by
  have hash := hashValue_bounds (Nat.le_of_succ_le large) item.key
  have different : ¬ ((0 : Int) = (hashValue htab.size item.key).toNat) := by omega
  simp [compareAndOverwriteEntry, free, different]

-- One turn of the loop, with its index named by its step count.
private theorem loopFrom_turn (valid : ValidSize htab.size) (inside : count + 1 < htab.size.toNat) :
    loopFrom hooks allocation item action htab flag (fuel + 1) count =
      match compareAndOverwriteEntry hooks allocation item action htab flag
        (hashValue htab.size item.key) (probeAt htab.size item.key (count + 1)) with
      | .error fault => .error fault
      | .ok (some result) => .ok (.returned result)
      | .ok none =>
        if (htab.slotAt item.key (count + 1)).used ≠ 0 then
          loopFrom hooks allocation item action htab flag fuel (count + 1)
        else
          .ok (.stopped (probeAt htab.size item.key (count + 1))) := by
  have notFirst := valid.probeAt_ne_first item.key (Nat.succ_pos count) inside
  unfold loopFrom
  rw [probeLoop]
  change (if probeAt htab.size item.key (count + 1) = _ then _ else _) = _
  rw [if_neg notFirst]
  rfl

private theorem loopFrom_pass (valid : ValidSize htab.size) (fuel : Nat)
    (inside : count + 1 < htab.size.toNat) (passes : Passes htab item.key (count + 1)) :
    loopFrom hooks allocation item action htab flag (fuel + 1) count =
      loopFrom hooks allocation item action htab flag fuel (count + 1) := by
  rw [loopFrom_turn hooks allocation item action flag valid inside,
    passes.compare hooks allocation item action flag]
  exact if_pos passes.used

private theorem loopFrom_passes (valid : ValidSize htab.size) (start distance fuel : Nat)
    (inside : start + distance < htab.size.toNat)
    (passes : ∀ count, start < count → count ≤ start + distance → Passes htab item.key count) :
    loopFrom hooks allocation item action htab flag (fuel + distance) start =
      loopFrom hooks allocation item action htab flag fuel (start + distance) := by
  induction distance generalizing fuel with
  | zero => rfl
  | succ distance induction =>
    have fuelEq : fuel + (distance + 1) = fuel + 1 + distance := by omega
    rw [fuelEq, induction (fuel + 1) (by omega)
      (fun count above below => passes count above (by omega))]
    exact loopFrom_pass hooks allocation item action flag valid fuel (by omega)
      (passes _ (by omega) (by omega))

private theorem probe_of_passes_first (passes : Passes htab item.key 0) :
    probe hooks allocation item action htab flag (hashValue htab.size item.key) =
      loopFrom hooks allocation item action htab flag htab.size.toNat 0 := by
  have compare := passes.compare hooks allocation item action flag
  have used := passes.used
  rw [HSearchData.slotAt] at used
  rw [probeAt] at compare used
  rw [probe, if_pos used, compare]
  rfl

-- Behind slots that it passes, the search does what the comparison of the next one says.
private theorem probe_reaches (valid : ValidSize htab.size) (inside : count < htab.size.toNat)
    (passes : ∀ earlier < count, Passes htab item.key earlier) :
    ∃ continued, probe hooks allocation item action htab flag (hashValue htab.size item.key) =
      match compareAndOverwriteEntry hooks allocation item action htab flag
        (hashValue htab.size item.key) (probeAt htab.size item.key count) with
      | .error fault => .error fault
      | .ok (some result) => .ok (.returned result)
      | .ok none =>
        if (htab.slotAt item.key count).used ≠ 0 then continued
        else .ok (.stopped (probeAt htab.size item.key count)) := by
  cases count with
  | zero =>
    by_cases used : (htab.table (hashValue htab.size item.key).toNat).used ≠ 0
    · rw [probe, if_pos used, HSearchData.slotAt, probeAt]
      simp only [if_pos used]
      exact ⟨_, rfl⟩
    · rw [probeAt, compare_free hooks allocation item action flag valid.large (not_not.mp used)]
      exact ⟨.error .diverges, by rw [probe, if_neg used, HSearchData.slotAt, probeAt, if_neg used]⟩
  | succ count =>
    have fuelEq : htab.size.toNat = htab.size.toNat - 1 - count + 1 + count := by omega
    rw [probe_of_passes_first hooks allocation item action flag (passes 0 (by omega)), fuelEq,
      loopFrom_passes hooks allocation item action flag valid 0 count _
      (by omega) (fun earlier _ _ => passes earlier (by omega)), Nat.zero_add,
      loopFrom_turn hooks allocation item action flag valid inside]
    exact ⟨_, rfl⟩

section

variable (valid : ValidSize htab.size) (inside : count < htab.size.toNat)
  (passes : ∀ earlier < count, Passes htab item.key earlier)
include valid inside passes

theorem probe_hit
    (usedEq : (htab.slotAt item.key count).used = (hashValue htab.size item.key).toNat)
    (keyEq : (htab.slotAt item.key count).entry.key = some item.key) :
    probe hooks allocation item action htab flag (hashValue htab.size item.key) =
      .ok (.returned (hit hooks allocation item action htab flag
        (probeAt htab.size item.key count))) := by
  obtain ⟨_, reached⟩ := probe_reaches hooks allocation item action flag valid inside passes
  rw [reached, compare_hit hooks allocation item action flag usedEq keyEq]

/-- A slot with the key's first index but without a key string is dereferenced. -/
theorem probe_nullPointer
    (usedEq : (htab.slotAt item.key count).used = (hashValue htab.size item.key).toNat)
    (keyEq : (htab.slotAt item.key count).entry.key = none) :
    probe hooks allocation item action htab flag (hashValue htab.size item.key) =
      .error .nullPointer := by
  obtain ⟨_, reached⟩ := probe_reaches hooks allocation item action flag valid inside passes
  rw [HSearchData.slotAt] at usedEq keyEq
  simp [reached, compareAndOverwriteEntry, usedEq, keyEq]

theorem probe_free (free : (htab.slotAt item.key count).used = 0) :
    probe hooks allocation item action htab flag (hashValue htab.size item.key) =
      .ok (.stopped (probeAt htab.size item.key count)) := by
  obtain ⟨_, reached⟩ := probe_reaches hooks allocation item action flag valid inside passes
  rw [reached, compare_free hooks allocation item action flag valid.large free]
  simp [free]

end

/-- Without a matching and without a never used slot the walk returns to the
first index and stops there. -/
theorem probe_exhausted (valid : ValidSize htab.size)
    (passes : ∀ count < htab.size.toNat, Passes htab item.key count) :
    probe hooks allocation item action htab flag (hashValue htab.size item.key) =
      .ok (.stopped (hashValue htab.size item.key)) := by
  have large := valid.large
  rw [probe_of_passes_first hooks allocation item action flag (passes 0 (by omega))]
  have fuelEq : htab.size.toNat = 1 + (htab.size.toNat - 1) := by omega
  rw [fuelEq, loopFrom_passes hooks allocation item action flag valid 0
    (htab.size.toNat - 1) 1 (by omega) (fun count _ _ => passes count (by omega))]
  have returned : probeNext htab.size (hashStride htab.size (hashValue htab.size item.key))
      (probeAt htab.size item.key (0 + (htab.size.toNat - 1))) = hashValue htab.size item.key := by
    have wrapped := valid.probeAt_size item.key
    rw [show htab.size.toNat = 0 + (htab.size.toNat - 1) + 1 by omega] at wrapped
    exact wrapped
  unfold loopFrom
  rw [probeLoop, returned]
  exact if_pos rfl

end

end UBootV210.Environment
