import WasmAgent.Grant.Policy

/-!
# Token buckets and daily counters

Bucket state is kept in units, sixty thousand to a token, so that a bucket refills by
`per_minute` units in a millisecond.  Sums and products saturate at the end of `u64`; the
two operations that could panic, taking a token and dividing by the rate, are checked.
-/

namespace WasmAgent.Grant

open Option

/-- The largest `u64`. -/
def u64Max : ℕ := 0xFFFFFFFFFFFFFFFF

section Arithmetic

def saturatingSub (left right : UInt64) : UInt64 :=
  if right ≤ left then left - right else 0

def saturatingAdd (left right : UInt64) : UInt64 :=
  UInt64.ofNat (min (left.toNat + right.toNat) u64Max)

def saturatingMul (left right : UInt64) : UInt64 :=
  UInt64.ofNat (min (left.toNat * right.toNat) u64Max)

/-- `left - right`, which panics when it would wrap. -/
def checkedSub (left right : UInt64) : Option UInt64 :=
  if right ≤ left then some (left - right) else none

/-- The quotient rounded up, which panics for a divisor of zero. -/
def divCeil (left right : UInt64) : Option UInt64 :=
  if right = 0 then none
  else some (UInt64.ofNat ((left.toNat + right.toNat - 1) / right.toNat))

def lesser (left right : UInt64) : UInt64 :=
  if left ≤ right then left else right

@[simp]
theorem toNat_saturatingSub (left right : UInt64) :
    (saturatingSub left right).toNat = left.toNat - right.toNat := by
  rw [saturatingSub]
  split
  · next hle => exact UInt64.toNat_sub_of_le _ _ hle
  · next hlt =>
    rw [UInt64.le_iff_toNat_le, Nat.not_le] at hlt
    exact (Nat.sub_eq_zero_of_le (Nat.le_of_lt hlt)).symm

theorem toNat_ofNat_min (number : ℕ) :
    (UInt64.ofNat (min number u64Max)).toNat = min number u64Max := by
  apply UInt64.toNat_ofNat_of_lt'
  apply Nat.lt_of_le_of_lt (Nat.min_le_right _ _)
  decide

@[simp]
theorem toNat_saturatingAdd (left right : UInt64) :
    (saturatingAdd left right).toNat = min (left.toNat + right.toNat) u64Max :=
  toNat_ofNat_min _

@[simp]
theorem toNat_saturatingMul (left right : UInt64) :
    (saturatingMul left right).toNat = min (left.toNat * right.toNat) u64Max :=
  toNat_ofNat_min _

@[simp]
theorem toNat_lesser (left right : UInt64) :
    (lesser left right).toNat = min left.toNat right.toNat := by
  rw [lesser]
  split
  · next hle => exact (Nat.min_eq_left (UInt64.le_iff_toNat_le.mp hle)).symm
  · next hlt =>
    rw [UInt64.le_iff_toNat_le, Nat.not_le] at hlt
    exact (Nat.min_eq_right (Nat.le_of_lt hlt)).symm

end Arithmetic

def unitsPerToken : UInt64 := 60000

def dayMs : UInt64 := 86400000

def capacityUnits (rate : RateLimit) : UInt64 := saturatingMul rate.capacity unitsPerToken

def divisor (rate : RateLimit) : UInt64 :=
  (if rate.perMinute = 0 then 1 else rate.perMinute).toUInt64

def retryAfterMs? (units : UInt64) (rate : RateLimit) : Option UInt64 :=
  let missing := saturatingSub unitsPerToken (lesser units unitsPerToken)
  if missing = 0 then some 0 else divCeil missing (divisor rate)

/-- A fixed-capacity token bucket. -/
structure Bucket where
  units : UInt64
  lastMs : UInt64
  deriving DecidableEq

namespace Bucket

def full (rate : RateLimit) (now : UInt64) : Bucket := ⟨capacityUnits rate, now⟩

def available (bucket : Bucket) (rate : RateLimit) (now : UInt64) : UInt64 :=
  let elapsed := saturatingSub now bucket.lastMs
  let added := saturatingMul elapsed rate.perMinute.toUInt64
  lesser (saturatingAdd bucket.units added) (capacityUnits rate)

def refill (bucket : Bucket) (rate : RateLimit) (now : UInt64) : Bucket :=
  let refilled := if bucket.lastMs < now then ⟨bucket.available rate now, now⟩ else bucket
  { refilled with units := lesser refilled.units (capacityUnits rate) }

def tokens (bucket : Bucket) (rate : RateLimit) (now : UInt64) : UInt64 :=
  bucket.available rate now / unitsPerToken

def take? (bucket : Bucket) (rate : RateLimit) (now : UInt64) :
    Option (Bucket × Except UInt64 Unit) :=
  let bucket := bucket.refill rate now
  if unitsPerToken ≤ bucket.units then
    (checkedSub bucket.units unitsPerToken).map fun units => ({ bucket with units }, .ok ())
  else (retryAfterMs? bucket.units rate).map fun delay => (bucket, .error delay)

end Bucket

variable (rate : RateLimit)

theorem toNat_capacity_le : rate.capacity.toNat ≤ 0xFFFFFFFF := by
  rw [RateLimit.capacity, UInt32.toNat_toUInt64]
  exact Nat.le_of_lt_succ (UInt32.toNat_lt _)

@[simp]
theorem toNat_capacityUnits : (capacityUnits rate).toNat = rate.capacity.toNat * 60000 := by
  have hcap := toNat_capacity_le rate
  rw [capacityUnits, toNat_saturatingMul]
  apply Nat.min_eq_left
  change rate.capacity.toNat * 60000 ≤ 0xFFFFFFFFFFFFFFFF
  omega

theorem divisor_ne_zero : divisor rate ≠ 0 := by
  intro hzero
  have hnat := congrArg UInt64.toNat hzero
  rw [divisor, UInt32.toNat_toUInt64] at hnat
  split at hnat
  · cases hnat
  · next hmin => exact absurd (UInt32.toNat_inj.mp hnat) hmin

theorem retryAfterMs?_isSome (units : UInt64) (rate : RateLimit) :
    (retryAfterMs? units rate).isSome = true := by
  rw [retryAfterMs?]
  by_cases hmis : saturatingSub unitsPerToken (lesser units unitsPerToken) = 0
  · rw [if_pos hmis]
    rfl
  · rw [if_neg hmis, divCeil, if_neg (divisor_ne_zero rate)]
    rfl

variable (bucket : Bucket)

theorem Bucket.take?_isSome (rate : RateLimit) (now : UInt64) :
    (bucket.take? rate now).isSome = true := by
  rw [Bucket.take?]
  split
  · next hle =>
    rw [checkedSub, if_pos hle]
    rfl
  · rw [isSome_map]
    exact retryAfterMs?_isSome _ _

/-- Milliseconds until one token is available. -/
def retryAfterMs (units : UInt64) (rate : RateLimit) : UInt64 :=
  (retryAfterMs? units rate).get (retryAfterMs?_isSome units rate)

namespace Bucket

def take (bucket : Bucket) (rate : RateLimit) (now : UInt64) : Bucket × Except UInt64 Unit :=
  (bucket.take? rate now).get (bucket.take?_isSome rate now)

def retryAfterMs (bucket : Bucket) (rate : RateLimit) (now : UInt64) : UInt64 :=
  Grant.retryAfterMs (bucket.available rate now) rate

theorem toNat_available (rate : RateLimit) (now : UInt64) :
    (bucket.available rate now).toNat =
      min (bucket.units.toNat + (now.toNat - bucket.lastMs.toNat) * rate.perMinute.toNat)
        (rate.capacity.toNat * 60000) := by
  have hcap : rate.capacity.toNat * 60000 ≤ u64Max := by
    have hle := toNat_capacity_le rate
    change _ ≤ 0xFFFFFFFFFFFFFFFF
    omega
  rw [available, toNat_lesser, toNat_saturatingAdd, toNat_saturatingMul, toNat_saturatingSub,
    toNat_capacityUnits, UInt32.toNat_toUInt64]
  omega

theorem toNat_refill (rate : RateLimit) (now : UInt64) :
    (bucket.refill rate now).units.toNat = (bucket.available rate now).toNat ∧
      (bucket.refill rate now).lastMs.toNat = max bucket.lastMs.toNat now.toNat := by
  rw [refill]
  dsimp only
  split
  · next hltr =>
    rw [UInt64.lt_iff_toNat_lt] at hltr
    dsimp only
    rw [toNat_lesser, toNat_capacityUnits, toNat_available]
    omega
  rename_i hearl
  rw [UInt64.lt_iff_toNat_lt, Nat.not_lt] at hearl
  rw [toNat_lesser, toNat_capacityUnits, toNat_available, Nat.sub_eq_zero_of_le hearl,
    Nat.zero_mul, Nat.add_zero]
  omega

theorem tokens_pos_iff (rate : RateLimit) (now : UInt64) :
    0 < bucket.tokens rate now ↔ 60000 ≤ (bucket.available rate now).toNat := by
  rw [tokens, UInt64.lt_iff_toNat_lt, UInt64.toNat_div]
  change 0 < (bucket.available rate now).toNat / 60000 ↔ _
  omega

theorem take_of_tokens {bucket : Bucket} {rate : RateLimit} {now : UInt64}
    (htks : 60000 ≤ (bucket.available rate now).toNat) :
    (bucket.take rate now).1.units.toNat + 60000 = (bucket.available rate now).toNat ∧
      (bucket.take rate now).1.lastMs.toNat = max bucket.lastMs.toNat now.toNat := by
  obtain ⟨hunits, hlast⟩ := bucket.toNat_refill rate now
  have hle : unitsPerToken ≤ (bucket.refill rate now).units := by
    rw [UInt64.le_iff_toNat_le, hunits]
    exact htks
  have htake : bucket.take? rate now = some
      ({ bucket.refill rate now with units := (bucket.refill rate now).units - unitsPerToken },
        .ok ()) := by
    rw [take?]
    rw [if_pos hle, checkedSub, if_pos hle]
    rfl
  have htkn : bucket.take rate now =
      ({ bucket.refill rate now with units := (bucket.refill rate now).units - unitsPerToken },
        .ok ()) := get_of_eq_some _ htake
  rw [htkn]
  refine ⟨?_, hlast⟩
  rw [UInt64.toNat_sub_of_le _ _ hle, hunits]
  exact Nat.sub_add_cancel htks

theorem toNat_available_full (now : UInt64) :
    ((full rate now).available rate now).toNat = rate.capacity.toNat * 60000 := by
  rw [toNat_available, full, toNat_capacityUnits, Nat.sub_self, Nat.zero_mul, Nat.add_zero,
    Nat.min_self]

end Bucket

/-- How many calls of one capability happened on a day. -/
structure DailyCounter where
  day : UInt64
  count : UInt32
  deriving DecidableEq

def dayOf (now : UInt64) : UInt64 := now / dayMs

def msUntilNextDay (now : UInt64) : UInt64 :=
  let intoDay := now % dayMs
  if intoDay = 0 then dayMs else dayMs - intoDay

namespace DailyCounter

def new (day : UInt64) : DailyCounter := ⟨day, 0⟩

def countOn (counter : DailyCounter) (now : UInt64) : UInt32 :=
  if counter.day = dayOf now then counter.count else 0

def bump (counter : DailyCounter) (now : UInt64) : DailyCounter :=
  if counter.day ≠ dayOf now then ⟨dayOf now, 1⟩
  else { counter with
    count := if counter.count = 0xFFFFFFFF then counter.count else counter.count + 1 }

@[simp]
theorem countOn_new (now : UInt64) : (new (dayOf now)).countOn now = 0 := if_pos rfl

theorem countOn_bump {counter : DailyCounter} {now : UInt64} {cap : UInt32}
    (hbelow : counter.countOn now < cap) :
    ((counter.bump now).countOn now).toNat = (counter.countOn now).toNat + 1 := by
  rw [UInt32.lt_iff_toNat_lt] at hbelow
  have hcap := cap.toNat_lt
  rw [bump]
  split
  · next hoth =>
    rw [countOn, if_pos rfl, countOn, if_neg hoth]
    rfl
  rename_i hsame
  rw [not_not] at hsame
  rw [countOn, if_pos hsame] at hbelow
  rw [countOn, countOn, if_pos hsame, if_pos hsame]
  have hroom : counter.count ≠ 0xFFFFFFFF := by
    intro hfull
    rw [hfull] at hbelow
    change 0xFFFFFFFF < _ at hbelow
    omega
  rw [if_neg hroom, UInt32.toNat_add]
  change (counter.count.toNat + 1) % 4294967296 = _
  omega

end DailyCounter

end WasmAgent.Grant
