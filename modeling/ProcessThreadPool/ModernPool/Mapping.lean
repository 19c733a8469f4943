import ProcessThreadPool.LockfreeQueue.Fifo
import ProcessThreadPool.ModernPool.SharedMemory
import ProcessThreadPool.ModernPool.Task

/-!
# The size of the shared-memory mapping

`worker_create` maps the header of `shared_memory_t` and `queue_size` slots, and the queue
functions address slot `p` at `p * MAX_TASK_DATA_SIZE` behind the header. Each product is
one of 32-bit numbers and is widened to `size_t` afterwards, so it is taken modulo `2 ^ 32`.
The sizes that `pool_create` accepts are the powers of two up to `2 ^ 20`.
-/

namespace ProcessThreadPool

namespace ModernPool

open LockfreeQueue

/-- `pool_config_t`, as far as `validate_config` looks at it. -/
structure PoolConfig where
  minWorkers : UInt32
  maxWorkers : UInt32
  queueSize : UInt32
  deriving DecidableEq, Repr

/-- `MAX_WORKERS`. -/
def maxWorkers : UInt32 := 128

/-- `init_default_config`, with `DEFAULT_QUEUE_SIZE`. -/
def initDefaultConfig : PoolConfig where
  minWorkers := 2
  maxWorkers := 8
  queueSize := 4096

/-- `validate_config`. -/
def validateConfig (isPowerOf2 : UInt32 → Bool) (config : PoolConfig) : Bool :=
  if config.minWorkers = 0 ∨ config.minWorkers > maxWorkers then false
  else if config.maxWorkers < config.minWorkers ∨ config.maxWorkers > maxWorkers then false
  else if config.queueSize = 0 ∨ isPowerOf2 config.queueSize = false then false
  else true

/-- `pool_create` accepts the configuration: it is valid, and `queue_create` makes a queue
of that size. -/
def Accepted (isPowerOf2 : UInt32 → Bool) (nextPowerOf2 : UInt32 → UInt32)
    (config : PoolConfig) : Prop :=
  validateConfig isPowerOf2 config = true ∧
    (queueCreate (τ := Task) isPowerOf2 nextPowerOf2 true true config.queueSize).isSome = true

/-- `shared_mem_size` in `worker_create`. `header` is the size of `shared_memory_t`. -/
def sharedMemSize (header queueSize : UInt32) : UInt64 :=
  header.toUInt64 + (queueSize * UInt32.ofNat maxTaskDataSize).toUInt64

/-- The mapping holds the header and the slots, the slots of two positions do not overlap,
and each begins inside the mapping. -/
structure AddressesFit (header queueSize : UInt32) : Prop where
  mapped : header.toNat + queueSize.toNat * maxTaskDataSize ≤ (sharedMemSize header queueSize).toNat
  apart : ∀ p q, p < queueSize → q < queueSize → p ≠ q →
    slotOffset p + maxTaskDataSize ≤ slotOffset q ∨ slotOffset q + maxTaskDataSize ≤ slotOffset p
  inside : ∀ p, p < queueSize →
    header.toNat + slotOffset p < (sharedMemSize header queueSize).toNat

section

variable {isPowerOf2 : UInt32 → Bool} {nextPowerOf2 : UInt32 → UInt32} {config : PoolConfig}
variable {header queueSize : UInt32}

theorem accepted_size (hpow : PowerOfTwoFunctions isPowerOf2 nextPowerOf2)
    (h : Accepted isPowerOf2 nextPowerOf2 config) :
    ∃ k, k ≤ 20 ∧ config.queueSize.toNat = 2 ^ k := by
  obtain ⟨hvalid, hqueue⟩ := h
  rw [validateConfig] at hvalid
  split_ifs at hvalid with _ _ hsize
  rw [not_or, Bool.not_eq_false] at hsize
  obtain ⟨k, hk⟩ := (hpow.isPowerOf2_iff _).mp hsize.2
  refine ⟨k, ?_, hk⟩
  have hle : ¬config.queueSize > (1 : UInt32) <<< 20 := by
    intro hgt
    simp [queueCreate, hsize.1, hsize.2, hgt] at hqueue
  have hnat : config.queueSize.toNat ≤ 2 ^ 20 := UInt32.le_iff_toNat_le.mp (UInt32.not_lt.mp hle)
  rw [hk] at hnat
  exact (Nat.pow_le_pow_iff_right (by decide)).mp hnat

/-- The configuration that `pool_create` uses when it is given none is accepted. -/
theorem accepted_initDefaultConfig (hpow : PowerOfTwoFunctions isPowerOf2 nextPowerOf2) :
    Accepted isPowerOf2 nextPowerOf2 initDefaultConfig := by
  have hpower : isPowerOf2 4096 = true := (hpow.isPowerOf2_iff _).mpr ⟨12, rfl⟩
  constructor
  · simp [validateConfig, initDefaultConfig, maxWorkers, hpower]
  · obtain ⟨q, hq, -⟩ := queueCreate_two_pow (τ := Task) hpow (show 12 ≤ 20 by decide)
    exact Option.isSome_iff_exists.mpr ⟨q, hq⟩

/-- The sum in `size_t` does not wrap. -/
theorem toNat_sharedMemSize (header queueSize : UInt32) :
    (sharedMemSize header queueSize).toNat = header.toNat + slotOffset queueSize := by
  have hheader := UInt32.toNat_lt header
  have hoffset : slotOffset queueSize < 2 ^ 32 := UInt32.toNat_lt _
  rw [sharedMemSize, UInt64.toNat_add, UInt32.toNat_toUInt64, UInt32.toNat_toUInt64]
  rw [slotOffset] at hoffset ⊢
  omega

theorem AddressesFit.of_lt (h : queueSize.toNat < 2 ^ 16) : AddressesFit header queueSize := by
  have hslot : ∀ p, p < queueSize →
      p.toNat < queueSize.toNat ∧ slotOffset p = p.toNat * maxTaskDataSize := by
    intro p hp
    have hlt := UInt32.lt_iff_toNat_lt.mp hp
    exact ⟨hlt, slotOffset_eq (hlt.trans h)⟩
  constructor
  · rw [toNat_sharedMemSize, slotOffset_eq h]
  · intro p q hp hq hne
    have hval : p.toNat ≠ q.toNat := fun heq => hne (UInt32.toNat_inj.mp heq)
    rw [(hslot p hp).2, (hslot q hq).2, maxTaskDataSize]
    omega
  · intro p hp
    obtain ⟨hlt, hoffset⟩ := hslot p hp
    rw [toNat_sharedMemSize, slotOffset_eq h, hoffset, maxTaskDataSize]
    omega

/-- The addresses fit exactly for the sizes below `2 ^ 16`. From there on the product of 32
bits is smaller than the slots are. -/
theorem addressesFit_iff (header queueSize : UInt32) :
    AddressesFit header queueSize ↔ queueSize.toNat < 2 ^ 16 := by
  refine ⟨fun h => ?_, AddressesFit.of_lt⟩
  have hmapped := h.mapped
  have hoffset : slotOffset queueSize < 2 ^ 32 := UInt32.toNat_lt _
  rw [toNat_sharedMemSize, maxTaskDataSize] at hmapped
  omega

/-- With 65536 slots the product is zero: the header alone is mapped. -/
theorem addresses_overflow : ¬ ∀ (isPowerOf2 : UInt32 → Bool) (nextPowerOf2 : UInt32 → UInt32)
    (config : PoolConfig) (header : UInt32), PowerOfTwoFunctions isPowerOf2 nextPowerOf2 →
      Accepted isPowerOf2 nextPowerOf2 config → AddressesFit header config.queueSize := by
  intro hclaim
  have haccepted : Accepted isPowerOf2 nextPowerOf2 ⟨2, 8, 65536⟩ := by
    obtain ⟨q, hq, -⟩ := queueCreate_two_pow (τ := Task) powerOfTwoFunctions
      (show 16 ≤ 20 by decide)
    exact ⟨by decide, Option.isSome_iff_exists.mpr ⟨q, hq⟩⟩
  have hmapped := (hclaim _ _ _ 40 powerOfTwoFunctions haccepted).mapped
  exact absurd hmapped (by decide)

end

end ModernPool

end ProcessThreadPool
