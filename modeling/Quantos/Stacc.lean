import Mathlib.Algebra.Order.BigOperators.Group.Finset
import Mathlib.Data.UInt
import Quantos.Runs
import Quantos.Types

/-!
# Quotas

`stacc/`: a sender must be activated and pays for the compute units of a
transaction from a token bucket.

`QuotaManager` has two refills, here for any quota and any capacity. They
share the mark of the last refill, so that a block pays its quota into a
bucket once at most: what is granted from here on comes from the tokens in the
bucket and from the blocks behind its mark (`run_le`).

`admitTx` is `StaccAdmission::admit`, the check a vertex builder makes for
every transaction it looks at; it takes the tokens whether or not the
transaction then finds a place. Its draw on the buckets is a call of the
manager (`manager_tryConsume`). The quota of an address is computed in floating
point from stake and age and is a field of `StaccPolicy`. The fair-queueing
scheduler and the record of heavy burns are only written to here.
-/

namespace Quantos

open Finset Runs

def BASIC_TIER_STAKE : Nat := 10

def BUILDER_TIER_STAKE : Nat := 100

def ENTERPRISE_TIER_STAKE : Nat := 1000

inductive StaccTier where
  | basic
  | builder
  | enterprise

def StaccTier.fromStake (stake : BitVec 128) : Option StaccTier :=
  if stake.toNat ≥ ENTERPRISE_TIER_STAKE then some .enterprise
  else if stake.toNat ≥ BUILDER_TIER_STAKE then some .builder
  else if stake.toNat ≥ BASIC_TIER_STAKE then some .basic
  else none

/-- The refill rates `R_CHARGE_*`. -/
def StaccTier.rCharge : StaccTier → Nat
  | .basic => 10
  | .builder => 100
  | .enterprise => 1000

def BUCKET_SECONDS : Nat := 3600

def FLOOR_PENDING : UInt64 := 10000

/-- Stake, quota and the limit on blocks, as they stand during a call. -/
structure StaccPolicy where
  stakeOf : Address → BitVec 128
  quotaTotal : Address → UInt64 → UInt64
  blockCuLimit : UInt64
  requireActivation : Bool
  enforceQuota : Bool

inductive MempoolError where
  | invalidTransaction (reason : String)
  | mempoolFull

/-! ## Buckets -/

structure Bucket where
  capacity : UInt64
  tokens : UInt64
  lastRefillBlock : UInt64

namespace Bucket

def new (capacity nowBlock : UInt64) : Bucket := ⟨capacity, capacity, nowBlock⟩

/-- One refill per block; the capacity may change at any time. -/
def refillTo (b : Bucket) (capacity refillAmount nowBlock : UInt64) : Bucket :=
  if nowBlock ≤ b.lastRefillBlock then { b with capacity, tokens := min b.tokens capacity }
  else
    { capacity, tokens := min (saturatingAdd64 b.tokens refillAmount) capacity,
      lastRefillBlock := nowBlock }

def tryConsume (b : Bucket) (amount : UInt64) : Option Bucket :=
  if b.tokens < amount then none else some { b with tokens := b.tokens - amount }

/-- `try_consume` on a bucket; a refill stays where the tokens do not suffice. -/
def consume (b : Bucket) (capacity refillAmount cu cuTxMax nowBlock : UInt64) : Bool × Bucket :=
  if cu > cuTxMax then (false, b)
  else
    let b := b.refillTo capacity refillAmount nowBlock
    match b.tryConsume cu with
    | none => (false, b)
    | some b => (true, b)

end Bucket

/-! ## What a quota grants -/

/-- `quota_total` and `bucket_capacity` of an address at a block. -/
structure QuotaPolicy where
  quotaTotal : Address → UInt64 → UInt64
  bucketCapacity : Address → UInt64 → UInt64

inductive QuotaOp where
  /-- The cap on one transaction is that of the stake at the time. -/
  | tryConsume (address : Address) (cu cuTxMax nowBlock : UInt64)
  /-- Recent burns slow the refill down, to an amount for each address. -/
  | refillBlock (slowed : Address → UInt64) (nowBlock : UInt64)

/-- The map of buckets, and the units granted to each address so far. -/
structure QuotaManager where
  buckets : Address → Option Bucket
  granted : Address → Nat

namespace QuotaPolicy

variable (policy : QuotaPolicy)

def ensureBucket (m : QuotaManager) (address : Address) (nowBlock : UInt64) : Bucket :=
  (m.buckets address).getD (.new (policy.bucketCapacity address nowBlock) nowBlock)

def consume (bucket : Bucket) (address : Address) (cu cuTxMax nowBlock : UInt64) : Bool × Bucket :=
  bucket.consume (policy.bucketCapacity address nowBlock) (policy.quotaTotal address nowBlock) cu
    cuTxMax nowBlock

def step (m : QuotaManager) : QuotaOp → QuotaManager
  | .tryConsume address cu cuTxMax nowBlock =>
    let bucket := policy.ensureBucket m address nowBlock
    let (ok, bucket) := policy.consume bucket address cu cuTxMax nowBlock
    { buckets := Function.update m.buckets address (some bucket)
      granted := Function.update m.granted address
        (m.granted address + if ok then cu.toNat else 0) }
  | .refillBlock slowed nowBlock =>
    { m with
      buckets := fun address => (m.buckets address).map fun bucket =>
        bucket.refillTo (policy.bucketCapacity address nowBlock)
          (min (slowed address) (policy.quotaTotal address nowBlock)) nowBlock }

/-- The block at which a call may refill the bucket of the address. -/
def block? (a : Address) : QuotaOp → Option UInt64
  | .tryConsume address _ _ nowBlock => if address = a then some nowBlock else none
  | .refillBlock _ nowBlock => some nowBlock

/-- The quota of an address over the blocks of calls behind a mark. -/
def later (a : Address) (mark : UInt64) (ops : List QuotaOp) : Nat :=
  ∑ block ∈ (ops.filterMap (block? a)).toFinset with mark < block, (policy.quotaTotal a block).toNat

/-- What a bucket can still pay for. -/
def credit (a : Address) (b : Bucket) (ops : List QuotaOp) : Nat :=
  b.tokens.toNat + policy.later a b.lastRefillBlock ops

variable (a : Address) (b : Bucket) (op : QuotaOp) (ops : List QuotaOp)
  {now refill : UInt64} (cap : UInt64)

theorem credit_le_cons : policy.credit a b ops ≤ policy.credit a b (op :: ops) := by
  refine Nat.add_le_add_left (sum_le_sum_of_subset (filter_subset_filter _ fun block h => ?_)) _
  simp only [List.mem_toFinset, List.mem_filterMap] at h ⊢
  obtain ⟨op', hop, h⟩ := h
  exact ⟨op', .tail _ hop, h⟩

variable {a op}

theorem credit_refillTo_le (hblock : block? a op = some now)
    (hrefill : refill ≤ policy.quotaTotal a now) :
    policy.credit a (b.refillTo cap refill now) ops ≤ policy.credit a b (op :: ops) := by
  have hmin : ∀ x : UInt64, (min x cap).toNat ≤ x.toNat := fun x =>
    UInt64.le_iff_toNat_le.mp Std.min_le_left
  unfold Bucket.refillTo
  split
  · exact (Nat.add_le_add_right (hmin _) _).trans (policy.credit_le_cons ..)
  rename_i hmark
  rw [UInt64.not_le] at hmark
  have hsum : (saturatingAdd64 b.tokens refill).toNat ≤ b.tokens.toNat + refill.toNat := by
    unfold saturatingAdd64
    split <;> simp only [UInt64.toNat_add, UInt64.toNat_ofNat'] <;> omega
  -- the block lies behind the old mark and not behind the new one
  have hpaid : (policy.quotaTotal a now).toNat + policy.later a now ops
      ≤ policy.later a b.lastRefillBlock (op :: ops) := by
    have hnot : now ∉ (ops.filterMap (block? a)).toFinset.filter (now < ·) := by simp
    rw [later, ← sum_insert (f := fun block => (policy.quotaTotal a block).toNat) hnot]
    refine sum_le_sum_of_subset fun block h => ?_
    simp only [List.filterMap_cons, hblock, List.toFinset_cons, mem_insert, mem_filter] at h ⊢
    rcases h with rfl | ⟨hmem, hlt⟩
    · exact ⟨.inl rfl, hmark⟩
    · exact ⟨.inr hmem, UInt64.lt_trans hmark hlt⟩
  have := hmin (saturatingAdd64 b.tokens refill)
  rw [UInt64.le_iff_toNat_le] at hrefill
  simp only [credit]
  omega

theorem refillTo_tokens_le :
    (b.refillTo cap refill now).tokens ≤ (b.refillTo cap refill now).capacity := by
  unfold Bucket.refillTo
  split <;> exact Std.min_le_right

variable {b} {m : QuotaManager}

theorem step_tryConsume_le {cu cuTxMax : UInt64} (hb : policy.ensureBucket m a now = b)
    (hcap : b.tokens ≤ b.capacity) :
    let m' := policy.step m (.tryConsume a cu cuTxMax now)
    ∃ b', m'.buckets a = some b' ∧ b'.tokens ≤ b'.capacity ∧ m'.granted a + policy.credit a b' ops
      ≤ m.granted a + policy.credit a b (.tryConsume a cu cuTxMax now :: ops) := by
  have hblock : block? a (.tryConsume a cu cuTxMax now) = some now := if_pos rfl
  have hle := policy.credit_refillTo_le b ops (policy.bucketCapacity a now) hblock
    (UInt64.le_refl _)
  have hfill := @refillTo_tokens_le b now (policy.quotaTotal a now) (policy.bucketCapacity a now)
  refine ⟨(policy.consume (policy.ensureBucket m a now) a cu cuTxMax now).2,
    Function.update_self .., ?_⟩
  simp only [step, hb, Function.update_self, consume, Bucket.consume, Bucket.tryConsume]
  generalize b.refillTo _ _ now = b' at hle hfill
  by_cases hmax : cu > cuTxMax
  · have := policy.credit_le_cons a b (.tryConsume a cu cuTxMax now) ops
    simpa [hmax] using ⟨hcap, this⟩
  by_cases hcu : b'.tokens < cu
  · simpa [hmax, hcu] using ⟨hfill, hle⟩
  have hsub := UInt64.toNat_sub_of_le _ _ (UInt64.not_lt.mp hcu)
  simp only [hmax, hcu, credit, UInt64.le_iff_toNat_le, hsub, if_true, if_false] at hle hfill ⊢
  rw [UInt64.lt_iff_toNat_lt] at hcu
  omega

theorem step_le (op : QuotaOp) (hget : m.buckets a = some b) (hcap : b.tokens ≤ b.capacity) :
    ∃ b', (policy.step m op).buckets a = some b' ∧ b'.tokens ≤ b'.capacity ∧
      (policy.step m op).granted a + policy.credit a b' ops
        ≤ m.granted a + policy.credit a b (op :: ops) := by
  cases op with
  | refillBlock slowed now =>
    refine ⟨_, congrArg (Option.map _) hget, refillTo_tokens_le _ _, ?_⟩
    exact Nat.add_le_add_left (policy.credit_refillTo_le b ops _ rfl Std.min_le_right) _
  | tryConsume address cu cuTxMax now =>
    by_cases haddress : a = address
    · subst haddress
      have hb : policy.ensureBucket m a now = b := by rw [ensureBucket, hget, Option.getD_some]
      exact policy.step_tryConsume_le ops hb hcap
    · refine ⟨b, (Function.update_of_ne haddress ..).trans hget, hcap, ?_⟩
      simp only [step, Function.update_of_ne haddress]
      exact Nat.add_le_add_left (policy.credit_le_cons a b _ ops) _

theorem run_le (hget : m.buckets a = some b) (hcap : b.tokens ≤ b.capacity) :
    (run policy.step m ops).granted a ≤ m.granted a + policy.credit a b ops ∧
      ∀ b' ∈ (run policy.step m ops).buckets a, b'.tokens ≤ b'.capacity := by
  induction ops generalizing m b with
  | nil => exact ⟨Nat.le_add_right .., fun b' h => Option.some.inj (hget.symm.trans h) ▸ hcap⟩
  | cons op ops ih =>
    obtain ⟨b', hget', hcap', hle⟩ := policy.step_le ops op hget hcap
    obtain ⟨hgranted, htokens⟩ := ih hget' hcap'
    exact ⟨hgranted.trans hle, htokens⟩

/-- From its first use on, an address is granted at most its capacity at the
time and its quota of each later block with a call. -/
theorem quota_bounds_granted (m : QuotaManager) (a : Address) (cu cuTxMax first : UInt64)
    (hnew : m.buckets a = none) :
    let m' := run policy.step m (.tryConsume a cu cuTxMax first :: ops)
    m'.granted a ≤ m.granted a + (policy.bucketCapacity a first).toNat + policy.later a first ops ∧
      ∀ b ∈ m'.buckets a, b.tokens ≤ b.capacity := by
  have hfirst : policy.later a first (.tryConsume a cu cuTxMax first :: ops)
      = policy.later a first ops := by
    simp [later, block?, filter_insert]
  have hb : policy.ensureBucket m a first = .new (policy.bucketCapacity a first) first := by
    rw [ensureBucket, hnew, Option.getD_none]
  obtain ⟨b, hget, hcap, hle⟩ :=
    policy.step_tryConsume_le ops hb (UInt64.le_refl _)
  obtain ⟨hgranted, htokens⟩ := policy.run_le ops hget hcap
  refine ⟨hgranted.trans (hle.trans ?_), htokens⟩
  rw [credit, Bucket.new, hfirst, Nat.add_assoc]

/-- Eight of ten units, then the other two and one that block 2 paid. -/
theorem quota_bounds_sample :
    (run (step ⟨fun _ _ => 1, fun _ _ => 10⟩) ⟨fun _ => none, fun _ => 0⟩
      [.tryConsume 7 8 9 1, .refillBlock (fun _ => 1) 2, .tryConsume 7 3 9 2]).granted 7 ≤ 11 :=
  (quota_bounds_granted ⟨fun _ _ => 1, fun _ _ => 10⟩
    [.refillBlock (fun _ => 1) 2, .tryConsume 7 3 9 2] ⟨fun _ => none, fun _ => 0⟩ 7 8 9 1 rfl).1

end QuotaPolicy

/-! ## Admission -/

structure StaccAdmission where
  policy : StaccPolicy
  /-- The addresses in the activation ledger. -/
  activation : List Address
  buckets : Table (Prod.fst : Address × Bucket → Address)
  pendingCuByAddr : Table (Prod.fst : Address × UInt64 → Address)
  pendingCuTotal : UInt64

namespace StaccAdmission

variable (stacc : StaccAdmission) (address : Address) (nowBlock : UInt64)

def cuTxMax : UInt64 :=
  match StaccTier.fromStake (stacc.policy.stakeOf address) with
  | some .basic => 10000
  | some .builder => 100000
  | some .enterprise => 1000000
  | none => 10000

def bucketCapacity : UInt64 :=
  let tier := (StaccTier.fromStake (stacc.policy.stakeOf address)).getD .basic
  UInt64.ofNat (2 * tier.rCharge * BUCKET_SECONDS)

/-- The bucket of an address, full where there was none. -/
def ensureBucket : Bucket × StaccAdmission :=
  match stacc.buckets.get address with
  | some (_, bucket) => (bucket, stacc)
  | none =>
    let bucket := Bucket.new (stacc.bucketCapacity address) nowBlock
    (bucket, { stacc with buckets := stacc.buckets.put (address, bucket) })

/-- `QuotaManager::try_consume`. -/
def tryConsume (stacc : StaccAdmission) (address : Address) (cu nowBlock : UInt64) :
    Bool × StaccAdmission :=
  let (bucket, stacc) := stacc.ensureBucket address nowBlock
  let (ok, bucket) := bucket.consume (stacc.bucketCapacity address)
    (stacc.policy.quotaTotal address nowBlock) cu (stacc.cuTxMax address) nowBlock
  (ok, { stacc with buckets := stacc.buckets.put (address, bucket) })

/-- The manager behind the admission, with what it has granted so far. -/
def manager (granted : Address → Nat) : QuotaManager where
  buckets a := (stacc.buckets.get a).map Prod.snd
  granted

/-- Admission draws on the buckets as the manager does: what bounds the grants
of the one bounds those of the other. -/
theorem manager_tryConsume (granted : Address → Nat) (cu : UInt64) :
    (stacc.tryConsume address cu nowBlock).2.manager (Function.update granted address
        (granted address + if (stacc.tryConsume address cu nowBlock).1 then cu.toNat else 0))
      = QuotaPolicy.step ⟨stacc.policy.quotaTotal, fun a _ => stacc.bucketCapacity a⟩
          (stacc.manager granted) (.tryConsume address cu (stacc.cuTxMax address) nowBlock) := by
  have hput (table : Table (Prod.fst : Address × Bucket → Address)) (bucket : Bucket) :
      (fun a => ((table.put (address, bucket)).get a).map Prod.snd)
        = Function.update (fun a => (table.get a).map Prod.snd) address (some bucket) := by
    funext a
    by_cases h : address = a
    · subst h
      rw [Table.get_put_self, Function.update_self, Option.map_some]
    · rw [Table.get_put_of_ne _ h, Function.update_of_ne (Ne.symm h)]
  cases h : stacc.buckets.get address with
  | none =>
    simp only [tryConsume, ensureBucket, h, manager, hput, Function.update_idem, QuotaPolicy.step,
      QuotaPolicy.ensureBucket, QuotaPolicy.consume, Option.map_none, Option.getD_none]
    rfl
  | some entry =>
    simp only [tryConsume, ensureBucket, h, manager, hput, QuotaPolicy.step,
      QuotaPolicy.ensureBucket, QuotaPolicy.consume, Option.map_some, Option.getD_some]

def clampTxCu (maxComputeUnits : UInt64) : UInt64 :=
  min maxComputeUnits stacc.policy.blockCuLimit

def pendingCu : UInt64 :=
  ((stacc.pendingCuByAddr.get address).map Prod.snd).getD 0

def maxPendingForAddr : UInt64 :=
  max (2 * stacc.policy.quotaTotal address nowBlock) FLOOR_PENDING

def maxPendingCu : UInt64 := 10 * stacc.policy.blockCuLimit

/-- The two caps on pending compute units. -/
def hasRoom (sender : Address) (cu nowBlock : UInt64) : Bool :=
  saturatingAdd64 (stacc.pendingCu sender) cu ≤ stacc.maxPendingForAddr sender nowBlock
    && saturatingAdd64 stacc.pendingCuTotal cu ≤ stacc.maxPendingCu

def addPendingCu (sender : Address) (cu : UInt64) : StaccAdmission :=
  { stacc with
    pendingCuByAddr :=
      stacc.pendingCuByAddr.put (sender, saturatingAdd64 (stacc.pendingCu sender) cu)
    pendingCuTotal := saturatingAdd64 stacc.pendingCuTotal cu }

def admitTx (tx : Transaction) (nowBlock : UInt64) : Except MempoolError Unit × StaccAdmission :=
  if stacc.policy.requireActivation && ! stacc.activation.contains tx.from then
    (.error (.invalidTransaction "STACC: address not activated"), stacc)
  else
    let cu := stacc.clampTxCu tx.maxComputeUnits
    if stacc.policy.enforceQuota then
      match stacc.tryConsume tx.from cu nowBlock with
      | (false, stacc) =>
        (.error (.invalidTransaction "STACC: insufficient CU quota"), stacc)
      | (true, stacc) =>
        -- the tokens are gone, also where there is no room
        if stacc.hasRoom tx.from cu nowBlock then (.ok (), stacc.addPendingCu tx.from cu)
        else (.error .mempoolFull, stacc)
    else (.ok (), stacc.addPendingCu tx.from cu)

end StaccAdmission

end Quantos
