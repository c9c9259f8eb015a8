import Quantos.Locality
import Quantos.Runs

/-!
# The two paths side by side

The sequential loop shows a sender everything that earlier transactions of
the batch sent to it; a group of the parallel path only shows it what the
sender did itself. This file runs a batch on both in batch order: `Lanes`
holds the overlay of every group and, per address, what other senders have
sent there, and the loop's account lags behind the two together
(`Lag`): it never has more stake or more value, and what is missing is
never made up again (`Lags.run`).

`Unaided` is the condition under which a step keeps the loop's accounts
equal to the sum (`Tied`): the credits of others do not decide about the
transaction, no stake they sent is released by an exit, and the
transaction's own credit arrives. `unaided_iff` says that this is exactly
what it takes for both paths to accept the same transactions and to end
with accounts that add up.
-/

namespace Quantos

open StateManager Runs

/-! ## An account that lags behind -/

/-- What other senders have sent to an address. -/
structure Received where
  balance : Nat
  stake : Nat

def Received.add (r : Received) (tx : Transaction) : Received :=
  ⟨r.balance + sentBalance tx, r.stake + sentStake tx⟩

/-- The account with what it has received, added up in `u128`. -/
def Account.aidedBy (own : Account) (r : Received) : Account :=
  { own with
    balance := ⟨own.balance.val + BitVec.ofNat 128 r.balance⟩
    stake := ⟨own.stake.val + BitVec.ofNat 128 r.stake⟩ }

/-- `full` has the stake and the value of `own` and at most what was
received on top. -/
structure Lag (own : Account) (r : Received) (full : Account) : Prop where
  frame : full = { own with balance := full.balance, stake := full.stake }
  stake_ge : own.stake.toNat ≤ full.stake.toNat
  stake_le : full.stake.toNat ≤ own.stake.toNat + r.stake
  value_ge : own.value ≤ full.value
  value_le : full.value ≤ own.value + r.balance + r.stake

/-- How far `full` lags behind, in stake and in value. -/
def gap (own : Account) (r : Received) (full : Account) : Nat :=
  (own.stake.toNat + r.stake - full.stake.toNat)
    + (own.value + r.balance + r.stake - full.value)

/-- Nothing that was received is missing. -/
structure Tied (own : Account) (r : Received) (full : Account) : Prop where
  frame : full = { own with balance := full.balance, stake := full.stake }
  balance : full.balance.toNat = own.balance.toNat + r.balance
  stake : full.stake.toNat = own.stake.toNat + r.stake

section

variable {own full : Account} {r : Received}

theorem Tied.lag (h : Tied own r full) : Lag own r full := by
  have hb := h.balance
  have hst := h.stake
  refine ⟨h.frame, ?_, ?_, ?_, ?_⟩ <;> (try unfold Account.value) <;> omega

theorem Lag.tied_iff (h : Lag own r full) : Tied own r full ↔ gap own r full = 0 := by
  have h₁ := h.stake_le
  have h₂ := h.value_le
  unfold gap
  unfold Account.value at *
  constructor
  · intro ht
    have hb := ht.balance
    have hst := ht.stake
    omega
  · intro hgap
    exact ⟨h.frame, by omega, by omega⟩

theorem Amount.eq_add {x y : Amount} {n : Nat} (h : x.toNat = y.toNat + n) :
    x = ⟨y.val + BitVec.ofNat 128 n⟩ := by
  have hval : x.val = y.val + BitVec.ofNat 128 n := by
    refine BitVec.eq_of_toNat_eq ?_
    unfold Amount.toNat at h
    rw [BitVec.toNat_add, BitVec.toNat_ofNat]
    omega
  rw [← hval]

theorem Tied.aided (h : Tied own r full) : full = own.aidedBy r := by
  rw [h.frame, Amount.eq_add h.balance, Amount.eq_add h.stake]
  rfl

theorem Lag.settle {V : Type} {env : Platform V} {tx : SignedTransaction}
    {cm cm' : Option CommitteeManager} {own' full' : Account} {w w' : Verdict}
    (h : Lag own r full) (hown : (settle env (.plain tx cm) own).1 = .ok (own', w))
    (hfull : (settle env (.plain tx cm') full).1 = .ok (full', w')) :
    Lag (keptSender tx.transaction w own') r (keptSender tx.transaction w' full') ∧ gap own r full
        ≤ gap (keptSender tx.transaction w own') r (keptSender tx.transaction w' full')
      ∧ (Tied own r full →
        (Tied (keptSender tx.transaction w own') r (keptSender tx.transaction w' full')
          ↔ (tx.transaction.txType = .validatorExit → r.stake = 0))) := by
  obtain ⟨-, -, hw, d, -, hd, -, rfl⟩ := settle_ok hown
  obtain ⟨-, -, hw', _, -, hd', -, rfl⟩ := settle_ok hfull
  obtain rfl : Verdict.mk tx.transaction.to none [] = w := Except.ok.inj hw
  obtain rfl : Verdict.mk tx.transaction.to none [] = w' := Except.ok.inj hw'
  obtain ⟨b, st, heq, hmove, hexit⟩ := hd.kept_eq ⟨tx.transaction.to, none, []⟩ (own.nonce + 1)
  obtain ⟨b', st', heq', hmove', hexit'⟩ :=
    hd'.kept_eq ⟨tx.transaction.to, none, []⟩ (full.nonce + 1)
  rw [Event.plain_tx] at heq heq' hmove hmove' hexit hexit'
  rw [heq, heq']
  -- in numbers: an exit empties both stakes, anything else moves both accounts alike
  have hnum : (tx.transaction.txType = .validatorExit ∧ st.toNat = 0 ∧ st'.toNat = 0
        ∧ b.toNat = own.value ∧ b'.toNat = full.value)
      ∨ (tx.transaction.txType ≠ .validatorExit
        ∧ (st.toNat : Int) - own.stake.toNat = st'.toNat - full.stake.toNat
        ∧ (b.toNat : Int) - own.balance.toNat = b'.toNat - full.balance.toNat) := by
    by_cases ht : tx.transaction.txType = .validatorExit
    · exact .inl ⟨ht, (hexit ht).2, (hexit' ht).2, (hexit ht).1, (hexit' ht).1⟩
    have hnow := hmove ht
    have hnow' := hmove' ht
    exact .inr ⟨ht, by omega, by omega⟩
  obtain ⟨hframe, _, _, _, _⟩ := h
  have hlag : Lag (Account.mk own.address b (own.nonce + 1) own.codeHash own.storageRoot st
      (flagAfter tx.transaction own.isValidator)) r (Account.mk full.address b' (full.nonce + 1)
        full.codeHash full.storageRoot st' (flagAfter tx.transaction full.isValidator)) := by
    refine ⟨by rw [hframe], ?_, ?_, ?_, ?_⟩
    all_goals
      unfold Account.value at *
      dsimp only
      omega
  refine ⟨hlag, ?_, fun htied => ?_⟩
  · unfold gap
    unfold Account.value at *
    dsimp only
    omega
  · have hb := htied.balance
    have hst := htied.stake
    rw [hlag.tied_iff]
    unfold gap
    unfold Account.value at *
    dsimp only
    rcases hnum with ⟨ht, hnum⟩ | ⟨ht, hnum⟩
    · exact ⟨fun _ _ => by omega, fun hzero => by have := hzero ht; omega⟩
    · exact ⟨fun _ h => absurd h ht, fun _ => by omega⟩

theorem Lag.credit (h : Lag own r full) (tx : Transaction) :
    Lag own (r.add tx) (credit tx full) ∧ gap own r full ≤ gap own (r.add tx) (credit tx full)
      ∧ (Tied own r full → (Tied own (r.add tx) (credit tx full)
        ↔ own.balance.toNat + r.balance + sentBalance tx < 2 ^ 128
          ∧ own.stake.toNat + r.stake + sentStake tx < 2 ^ 128)) := by
  obtain ⟨b, st, heq, hb, hst⟩ := credit_eq tx full
  have hltb := full.balance.toNat_lt
  have hlts := full.stake.toNat_lt
  have hadd : (r.add tx).balance = r.balance + sentBalance tx
    ∧ (r.add tx).stake = r.stake + sentStake tx := ⟨rfl, rfl⟩
  rw [heq]
  obtain ⟨hframe, _, _, _, _⟩ := h
  have hlag : Lag own (r.add tx) { full with balance := b, stake := st } := by
    refine ⟨by rw [hframe], ?_, ?_, ?_, ?_⟩
    all_goals
      unfold Account.value at *
      dsimp only
      split at hb <;> split at hst <;> omega
  refine ⟨hlag, ?_, fun htied => ?_⟩
  · unfold gap
    unfold Account.value at *
    dsimp only
    split at hb <;> split at hst <;> omega
  · have hb' := htied.balance
    have hst' := htied.stake
    rw [hlag.tied_iff]
    unfold gap
    unfold Account.value at *
    dsimp only
    split at hb <;> split at hst <;> omega

end

/-! ## The lanes of a batch -/

/-- A transaction of a batch with the committee managers it meets in its
group and in the sequential loop. -/
structure Meeting where
  tx : SignedTransaction
  grouped : Option CommitteeManager
  sequential : Option CommitteeManager

/-- The overlays of all groups, and what each address has received from
others. -/
structure Lanes where
  overlays : Address → AccountTable
  received : Address → Received

def Lanes.start : Lanes := ⟨fun _ => Table.empty, fun _ => ⟨0, 0⟩⟩

/-- An address as its own group sees it. -/
def Lanes.own (v : Address → Account) (l : Lanes) (a : Address) : Account :=
  look v (l.overlays a) a

section

variable {V : Type} (env : Platform V) (v : Address → Account)

/-- The group accepts the transaction. -/
def Lanes.accepts (l : Lanes) (m : Meeting) : Bool :=
  Quantos.accepts env m.grouped m.tx (l.own v m.tx.transaction.from)

def Lanes.step (l : Lanes) (m : Meeting) : Lanes where
  overlays := fun g =>
    if g = m.tx.transaction.from then
      effect env v (l.overlays m.tx.transaction.from) (.plain m.tx m.grouped)
    else l.overlays g
  received := fun a =>
    if l.accepts env v m = true ∧ a = m.tx.transaction.to ∧ a ≠ m.tx.transaction.from then
      (l.received a).add m.tx.transaction
    else l.received a

/-- The same transaction in the sequential loop. -/
def serialStep (overlay : AccountTable) (m : Meeting) : AccountTable :=
  effect env v overlay (.plain m.tx m.sequential)

/-- What others have sent neither decides about the transaction nor is
released by it, and what it sends arrives. -/
structure Unaided (l : Lanes) (m : Meeting) : Prop where
  decided : l.accepts env v m = Quantos.accepts env m.sequential m.tx
    ((l.own v m.tx.transaction.from).aidedBy (l.received m.tx.transaction.from))
  released : l.accepts env v m = true → m.tx.transaction.txType = .validatorExit →
    (l.received m.tx.transaction.from).stake = 0
  arrives : l.accepts env v m = true → m.tx.transaction.to ≠ m.tx.transaction.from →
    (l.own v m.tx.transaction.to).balance.toNat + (l.received m.tx.transaction.to).balance
        + sentBalance m.tx.transaction < 2 ^ 128
      ∧ (l.own v m.tx.transaction.to).stake.toNat + (l.received m.tx.transaction.to).stake
        + sentStake m.tx.transaction < 2 ^ 128

/-- The loop's accounts lag behind the lanes, and both have touched the same
addresses. -/
structure Lags (l : Lanes) (overlay : AccountTable) : Prop where
  lag : ∀ a, Lag (l.own v a) (l.received a) (look v overlay a)
  touched : ∀ a, overlay.get a = none ↔ ∀ g, (l.overlays g).get a = none

/-- How far the loop's account lags behind. -/
def Lanes.gap (l : Lanes) (overlay : AccountTable) (a : Address) : Nat :=
  Quantos.gap (l.own v a) (l.received a) (look v overlay a)

theorem start_lags : Lags v Lanes.start Table.empty where
  lag := fun _ => ⟨rfl, Nat.le_refl _, Nat.le_refl _, Nat.le_refl _, Nat.le_refl _⟩
  touched := fun _ => ⟨fun _ _ => rfl, fun _ => rfl⟩

theorem start_gap (a : Address) : Lanes.start.gap v Table.empty a = 0 := by
  have h : Tied (Lanes.start.own v a) ⟨0, 0⟩ (look v Table.empty a) := ⟨rfl, rfl, rfl⟩
  exact h.lag.tied_iff.mp h

/-! ## One step -/

variable {env v} {l : Lanes} {m : Meeting} {overlay : AccountTable}

theorem Lanes.step_of_rejected (h : l.accepts env v m = false) : l.step env v m = l := by
  have heff : effect env v (l.overlays m.tx.transaction.from) (.plain m.tx m.grouped)
      = l.overlays m.tx.transaction.from := effect_of_rejected h
  unfold Lanes.step
  rw [heff]
  simp only [h, Bool.false_eq_true, false_and, if_false]
  congr 1
  funext g
  split
  · rename_i hg
    rw [hg]
  · rfl

theorem serialStep_of_rejected
    (h : accepts env m.sequential m.tx (look v overlay m.tx.transaction.from) = false) :
    serialStep env v overlay m = overlay := effect_of_rejected h

variable (hv : ∀ a, (v a).address = a)
include hv

variable {own' : Account}

theorem Lanes.step_own (h : (settle env (.plain m.tx m.grouped) (l.own v m.tx.transaction.from)).1
      = .ok (own', ⟨m.tx.transaction.to, none, []⟩)) (a : Address) :
    (l.step env v m).own v a
      = if m.tx.transaction.from = a then
          keptSender m.tx.transaction ⟨m.tx.transaction.to, none, []⟩ own'
        else l.own v a := by
  unfold Lanes.own Lanes.step
  dsimp only
  by_cases ha : a = m.tx.transaction.from
  · rw [if_pos ha, if_pos ha.symm]
    subst ha
    exact (look_effect hv h _).trans (if_pos rfl)
  · rw [if_neg ha, if_neg (Ne.symm ha)]

variable {full' : Account}

theorem look_serialStep
    (h : (settle env (.plain m.tx m.sequential) (look v overlay m.tx.transaction.from)).1
      = .ok (full', ⟨m.tx.transaction.to, none, []⟩)) (a : Address) :
    look v (serialStep env v overlay m) a
      = if m.tx.transaction.from = a then
          keptSender m.tx.transaction ⟨m.tx.transaction.to, none, []⟩ full'
        else if m.tx.transaction.to = a then credit m.tx.transaction (look v overlay a)
        else look v overlay a := by
  have hlook := look_effect hv h a
  rw [Event.plain_tx, deliver_plain] at hlook
  exact hlook

section

variable (h : Lags v l overlay)
  (hown : (settle env (.plain m.tx m.grouped) (l.own v m.tx.transaction.from)).1
    = .ok (own', ⟨m.tx.transaction.to, none, []⟩))
  (hfull : (settle env (.plain m.tx m.sequential) (look v overlay m.tx.transaction.from)).1
    = .ok (full', ⟨m.tx.transaction.to, none, []⟩))

include h hown hfull

/-- What an accepted transaction does to the lag of one address. -/
theorem Lags.step_at (a : Address) : Lag ((l.step env v m).own v a) ((l.step env v m).received a)
        (look v (serialStep env v overlay m) a)
      ∧ l.gap v overlay a ≤ (l.step env v m).gap v (serialStep env v overlay m) a
      ∧ (l.gap v overlay a = 0 → ((l.step env v m).gap v (serialStep env v overlay m) a = 0 ↔
          (a = m.tx.transaction.from → m.tx.transaction.txType = .validatorExit →
            (l.received a).stake = 0) ∧ (a = m.tx.transaction.to → a ≠ m.tx.transaction.from →
            (l.own v a).balance.toNat + (l.received a).balance + sentBalance m.tx.transaction
                < 2 ^ 128
              ∧ (l.own v a).stake.toNat + (l.received a).stake + sentStake m.tx.transaction
                < 2 ^ 128))) := by
  have haccept : l.accepts env v m = true := accepts_iff.mpr ⟨own', hown⟩
  have hlag := h.lag a
  have hreceived : (l.step env v m).received a
      = if a = m.tx.transaction.to ∧ a ≠ m.tx.transaction.from then
          (l.received a).add m.tx.transaction else l.received a := by
    unfold Lanes.step
    simp only [haccept, true_and]
  unfold Lanes.gap
  rw [Lanes.step_own hv hown, look_serialStep hv hfull, hreceived]
  by_cases hfrom : a = m.tx.transaction.from
  · subst hfrom
    obtain ⟨hlag', hle, htied⟩ := hlag.settle hown hfull
    simp only [if_true, ne_eq, not_true, and_false, if_false, true_implies, false_implies,
      implies_true, and_true]
    refine ⟨hlag', hle, fun hzero => ?_⟩
    rw [← hlag'.tied_iff]
    exact htied (hlag.tied_iff.mpr hzero)
  · by_cases hto : a = m.tx.transaction.to
    · subst hto
      obtain ⟨hlag', hle, htied⟩ := hlag.credit m.tx.transaction
      simp only [if_neg (Ne.symm hfrom), if_true, true_and, hfrom, false_implies, ne_eq,
        not_false_eq_true, true_implies]
      refine ⟨hlag', hle, fun hzero => ?_⟩
      rw [← hlag'.tied_iff]
      exact htied (hlag.tied_iff.mpr hzero)
    · simp only [if_neg (Ne.symm hfrom), if_neg (Ne.symm hto), hto, hfrom, false_and, if_false,
        false_implies, and_true]
      exact ⟨hlag, Nat.le_refl _, fun hzero => iff_of_true hzero trivial⟩

theorem Lags.touched_step (a : Address) : (serialStep env v overlay m).get a = none
      ↔ ∀ g, ((l.step env v m).overlays g).get a = none := by
  have hlane : ∀ g, ((l.step env v m).overlays g).get a
      = if g = m.tx.transaction.from then
          (effect env v (l.overlays m.tx.transaction.from) (.plain m.tx m.grouped)).get a
        else (l.overlays g).get a := by
    intro g
    unfold Lanes.step
    dsimp only
    split <;> rfl
  have hserial := get_effect hv hfull a
  have hgroup := get_effect hv hown a
  rw [Event.plain_tx] at hserial hgroup
  unfold serialStep
  simp only [hlane]
  by_cases hwritten : m.tx.transaction.from = a ∨ m.tx.transaction.to = a
  · -- both paths have written the account
    have hsome : ∀ {x y : Option Account} {p q : Account},
        x = (if m.tx.transaction.from = a then some p
          else if m.tx.transaction.to = a then some q else y) → x ≠ none := by
      intro x y p q hx
      rw [hx]
      rcases hwritten with hw | hw <;> simp [hw]
      split <;> simp
    refine iff_of_false (hsome hserial) fun hall => ?_
    have := hall m.tx.transaction.from
    rw [if_pos rfl] at this
    exact hsome hgroup this
  · obtain ⟨hfrom, hto⟩ := not_or.mp hwritten
    rw [if_neg hfrom, if_neg hto] at hserial hgroup
    rw [hserial, hgroup, h.touched a]
    refine forall_congr' fun g => ?_
    split
    · rename_i hg
      rw [hg]
    · rfl

end

/-- One step that both paths decide alike: the lag stays a lag, no gap
closes, and no gap opens exactly if nothing is released or lost. -/
theorem Lags.step (h : Lags v l overlay) (hagree : l.accepts env v m
      = accepts env m.sequential m.tx (look v overlay m.tx.transaction.from)) :
    Lags v (l.step env v m) (serialStep env v overlay m)
      ∧ (∀ a, l.gap v overlay a ≤ (l.step env v m).gap v (serialStep env v overlay m) a)
      ∧ ((∀ a, l.gap v overlay a = 0) →
        ((∀ a, (l.step env v m).gap v (serialStep env v overlay m) a = 0)
          ↔ Unaided env v l m)) := by
  -- without gaps the loop sees the lane's account with what it has received
  have hdecided : (∀ a, l.gap v overlay a = 0) → l.accepts env v m
      = accepts env m.sequential m.tx ((l.own v m.tx.transaction.from).aidedBy
        (l.received m.tx.transaction.from)) := by
    intro hzero
    rw [hagree, ((h.lag _).tied_iff.mpr (hzero m.tx.transaction.from)).aided]
  cases haccept : l.accepts env v m with
  | false =>
    rw [Lanes.step_of_rejected haccept, serialStep_of_rejected (hagree ▸ haccept)]
    refine ⟨h, fun _ => Nat.le_refl _, fun hzero => iff_of_true hzero ⟨hdecided hzero, ?_, ?_⟩⟩
    all_goals
      intro htrue
      rw [haccept] at htrue
      cases htrue
  | true =>
    obtain ⟨_, hown⟩ := accepts_iff.mp haccept
    obtain ⟨_, hfull⟩ := accepts_iff.mp (hagree ▸ haccept)
    have hat := h.step_at hv hown hfull
    refine ⟨⟨fun a => (hat a).1, h.touched_step hv hown hfull⟩, fun a => (hat a).2.1,
      fun hzero => ⟨fun hzero' => ?_, fun hunaided a => ?_⟩⟩
    · have hcond := fun a => ((hat a).2.2 (hzero a)).mp (hzero' a)
      exact ⟨hdecided hzero, fun _ => (hcond _).1 rfl, fun _ hne => (hcond _).2 rfl hne⟩
    · refine ((hat a).2.2 (hzero a)).mpr ⟨fun ha => ?_, fun ha hne => ?_⟩
      · subst ha
        exact hunaided.released haccept
      · subst ha
        exact hunaided.arrives haccept hne

omit hv in
theorem Unaided.agree (h : Unaided env v l m) (hlags : Lags v l overlay)
    (hzero : ∀ a, l.gap v overlay a = 0) :
    l.accepts env v m = accepts env m.sequential m.tx (look v overlay m.tx.transaction.from) := by
  rw [h.decided, ((hlags.lag _).tied_iff.mpr (hzero m.tx.transaction.from)).aided]

end

/-! ## Whole batches -/

section

variable {V : Type} (env : Platform V) (v : Address → Account)

/-- The decisions of the groups, in batch order. -/
def laneFlags : Lanes → List Meeting → List Bool
  | _, [] => []
  | l, m :: ms => l.accepts env v m :: laneFlags (l.step env v m) ms

/-- The decisions of the sequential loop. -/
def serialFlags : AccountTable → List Meeting → List Bool
  | _, [] => []
  | overlay, m :: ms =>
    accepts env m.sequential m.tx (look v overlay m.tx.transaction.from)
      :: serialFlags (serialStep env v overlay m) ms

variable {env v} (hv : ∀ a, (v a).address = a)
include hv

variable {ms : List Meeting}

/-- As long as both paths decide alike, no gap closes. -/
theorem Lags.run : ∀ {l : Lanes} {overlay : AccountTable},
    Lags v l overlay → laneFlags env v l ms = serialFlags env v overlay ms →
      Lags v (run (Lanes.step env v) l ms) (run (serialStep env v) overlay ms)
        ∧ ∀ a, l.gap v overlay a ≤ (Runs.run (Lanes.step env v) l ms).gap v
            (Runs.run (serialStep env v) overlay ms) a := by
  induction ms with
  | nil => exact fun h _ => ⟨h, fun _ => Nat.le_refl _⟩
  | cons m ms ih =>
    intro l overlay h hflags
    obtain ⟨hagree, hrest⟩ := List.cons.inj hflags
    obtain ⟨hstep, hle, -⟩ := h.step hv hagree
    obtain ⟨hend, hle'⟩ := ih hstep hrest
    exact ⟨hend, fun a => (hle a).trans (hle' a)⟩

/-- Both paths decide alike and end without gaps exactly if every
transaction is unaided. -/
theorem unaided_iff : ∀ {l : Lanes} {overlay : AccountTable},
    Lags v l overlay → (∀ a, l.gap v overlay a = 0) →
      (StepsMeet (Lanes.step env v) (Unaided env v) l ms ↔
        laneFlags env v l ms = serialFlags env v overlay ms
          ∧ ∀ a, (run (Lanes.step env v) l ms).gap v (run (serialStep env v) overlay ms) a
            = 0) := by
  induction ms with
  | nil => exact fun _ hzero => iff_of_true trivial ⟨rfl, hzero⟩
  | cons m ms ih =>
    intro l overlay h hzero
    constructor
    · rintro ⟨hm, hms⟩
      have hagree := hm.agree h hzero
      obtain ⟨hstep, -, hclosed⟩ := h.step hv hagree
      obtain ⟨hflags, hend⟩ := (ih hstep ((hclosed hzero).mpr hm)).mp hms
      exact ⟨by rw [laneFlags, serialFlags, hagree, hflags], hend⟩
    · rintro ⟨hflags, hend⟩
      obtain ⟨hagree, hrest⟩ := List.cons.inj hflags
      obtain ⟨hstep, -, hclosed⟩ := h.step hv hagree
      -- a gap that opened here would still be open at the end
      have hzero' : ∀ a, (l.step env v m).gap v (serialStep env v overlay m) a = 0 := by
        intro a
        have hle := (hstep.run hv hrest).2 a
        have hlast := hend a
        rw [run_cons, run_cons] at hlast
        omega
      exact ⟨(hclosed hzero).mp hzero', (ih hstep hzero').mpr ⟨hrest, hend⟩⟩

end

end Quantos
