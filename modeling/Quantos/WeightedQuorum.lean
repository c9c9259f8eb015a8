import Mathlib.Algebra.BigOperators.Group.Finset.Piecewise
import Mathlib.Algebra.Order.BigOperators.Group.Finset
import Mathlib.Algebra.GroupWithZero.Nat

/-!
# Weighted quorums

Voters are keys with a weight; a set of them is a quorum when its weight
exceeds two thirds of the total, in the rounded form `⌊2T/3⌋ + 1` that
integer implementations use. Two quorums share more than a third of the
total (`inter_of_threshold`): all that is used of the weights is that no
set of keys outweighs the total.

A roster is the usual source of such weights: a list of members, looked up
by the first one with a given key. Its members need not have distinct keys
for the bound to hold (`sum_weightOf_le`), since a lookup only ever sees
the first.
-/

namespace WeightedQuorum

open Finset

/-- The rounded two-thirds majority. -/
def threshold (total : Nat) : Nat := 2 * total / 3 + 1

variable {κ : Type}

/-- Two quorums share more than a third of the total. -/
theorem inter_of_threshold [DecidableEq κ] {weight : κ → Nat} {total : Nat}
    (htotal : ∀ voters : Finset κ, ∑ k ∈ voters, weight k ≤ total) {A B : Finset κ}
    (hA : threshold total ≤ ∑ k ∈ A, weight k) (hB : threshold total ≤ ∑ k ∈ B, weight k) :
    total < 3 * ∑ k ∈ A ∩ B, weight k := by
  have hunion : ∑ k ∈ A ∪ B, weight k + ∑ k ∈ A ∩ B, weight k
      = ∑ k ∈ A, weight k + ∑ k ∈ B, weight k := sum_union_inter
  have hbound := htotal (A ∪ B)
  unfold threshold at hA hB
  omega

theorem card_filter_of_imp {voters : Finset κ} {p q : κ → Prop} [DecidablePred p]
    [DecidablePred q] (h : ∀ k ∈ voters, p k → q k) :
    (voters.filter q).card
      = (voters.filter p).card + (voters.filter fun k => ¬ p k ∧ q k).card := by
  have hnarrow : (voters.filter q).filter p = voters.filter p := by
    rw [filter_filter]
    exact filter_congr fun k hk => ⟨fun hqp => hqp.2, fun hp => ⟨h k hk hp, hp⟩⟩
  have hrest : (voters.filter q).filter (fun k => ¬ p k)
      = voters.filter fun k => ¬ p k ∧ q k := by
    rw [filter_filter]
    exact filter_congr fun k _ => and_comm
  rw [← card_filter_add_card_filter_not p, hnarrow, hrest]

/-! ## Rosters -/

section Roster

variable {α κ : Type} [DecidableEq κ] (key : α → κ) (weight : α → Nat)

/-- The weight of the first member with the key, nothing for a stranger. -/
def weightOf (roster : List α) (k : κ) : Nat :=
  (roster.find? fun m => key m = k).elim 0 weight

def total (roster : List α) : Nat := (roster.map weight).sum

@[simp] theorem weightOf_nil (k : κ) : weightOf key weight [] k = 0 := rfl

theorem weightOf_cons (m : α) (roster : List α) (k : κ) :
    weightOf key weight (m :: roster) k
      = if key m = k then weight m else weightOf key weight roster k := by
  unfold weightOf
  by_cases h : key m = k <;> simp [h]

omit [DecidableEq κ] in
/-- A selection weighs what a narrower one does, and what it leaves out. -/
theorem total_filter_of_imp {p q : α → Bool} {roster : List α}
    (h : ∀ m ∈ roster, p m = true → q m = true) :
    total weight (roster.filter q)
      = total weight (roster.filter p) + total weight (roster.filter fun m => !p m && q m) := by
  induction roster with
  | nil => rfl
  | cons m roster ih =>
    have hrest := ih fun m' hm' => h m' (List.mem_cons_of_mem _ hm')
    unfold total at hrest ⊢
    rcases hp : p m with _ | _ <;> rcases hq : q m with _ | _ <;>
      simp_all <;> omega

omit [DecidableEq κ] in
theorem total_le_of_subset {members roster : List α} (hnodup : members.Nodup)
    (hsubset : members ⊆ roster) : total weight members ≤ total weight roster := by
  obtain ⟨_, hperm, hsublist⟩ := List.subperm_of_subset hnodup hsubset
  unfold total
  rw [← (hperm.map weight).sum_eq]
  exact (hsublist.map weight).sum_le_sum fun _ _ => Nat.zero_le _

omit [DecidableEq κ] in
/-- Entries weigh what the members among them do, each taken once, and what
is left: strangers and repetitions. -/
theorem total_diff_add [BEq α] [LawfulBEq α] {entries roster : List α} (h : roster.Nodup) :
    total weight entries
      = total weight (roster.filter (· ∈ entries)) + total weight (entries.diff roster) := by
  have hperm : entries.Perm (roster.filter (· ∈ entries) ++ entries.diff roster) := by
    refine List.perm_iff_count.mpr fun m => ?_
    rw [List.count_append, List.count_diff]
    have honce := List.nodup_iff_count_le_one.mp h m
    by_cases hentry : m ∈ entries
    · have hpos := List.count_pos_iff.mpr hentry
      rw [List.count_filter (by simpa using hentry)]
      omega
    · have hfilter : m ∉ roster.filter (· ∈ entries) := fun hm =>
        hentry (by simpa using (List.mem_filter.mp hm).2)
      rw [List.count_eq_zero_of_not_mem hentry, List.count_eq_zero_of_not_mem hfilter]
      omega
  unfold total
  rw [(hperm.map weight).sum_eq, List.map_append, List.sum_append]

variable (roster : List α)

theorem sum_weightOf_le (voters : Finset κ) :
    ∑ k ∈ voters, weightOf key weight roster k ≤ total weight roster := by
  induction roster with
  | nil => simp [total]
  | cons m roster ih =>
    have hcons : ∀ k ∈ voters, weightOf key weight (m :: roster) k
        ≤ (if key m = k then weight m else 0) + weightOf key weight roster k := by
      intro k _
      rw [weightOf_cons]
      split <;> omega
    have hhead : ∑ k ∈ voters, (if key m = k then weight m else 0) ≤ weight m := by
      rw [sum_ite_eq]
      split <;> omega
    calc ∑ k ∈ voters, weightOf key weight (m :: roster) k
        ≤ ∑ k ∈ voters, ((if key m = k then weight m else 0) + weightOf key weight roster k) :=
          sum_le_sum hcons
      _ = ∑ k ∈ voters, (if key m = k then weight m else 0)
            + ∑ k ∈ voters, weightOf key weight roster k := sum_add_distrib
      _ ≤ weight m + total weight roster := Nat.add_le_add hhead ih

/-- The weight of the member at a position, nothing beyond the end. -/
def weightAt (roster : List α) (i : Nat) : Nat := roster[i]?.elim 0 weight

omit [DecidableEq κ] in
theorem sum_range_weightAt :
    ∑ i ∈ Finset.range roster.length, weightAt weight roster i = total weight roster := by
  induction roster with
  | nil => rfl
  | cons m roster ih =>
    rw [List.length_cons, sum_range_succ', Nat.add_comm]
    exact congrArg (weight m + ·) ih

omit [DecidableEq κ] in
/-- No set of positions outweighs the roster. -/
theorem sum_weightAt_le (positions : Finset Nat) :
    ∑ i ∈ positions, weightAt weight roster i ≤ total weight roster := by
  have hbeyond : ∀ i ∈ positions ∪ Finset.range roster.length, i ∉ Finset.range roster.length →
      weightAt weight roster i = 0 := by
    intro i _ hi
    rw [mem_range, Nat.not_lt] at hi
    rw [weightAt, List.getElem?_eq_none hi]
    rfl
  rw [← sum_range_weightAt, sum_subset subset_union_right hbeyond]
  exact sum_le_sum_of_subset subset_union_left

omit [DecidableEq κ] in
theorem total_filterMap {β : Type} (f : β → Option α) (entries : List β) :
    total weight (entries.filterMap f) = (entries.map fun e => (f e).elim 0 weight).sum := by
  induction entries with
  | nil => rfl
  | cons e entries ih =>
    rcases hf : f e with _ | m
    · rw [List.filterMap_cons_none hf, ih, List.map_cons, List.sum_cons, hf]
      exact (Nat.zero_add _).symm
    · rw [List.filterMap_cons_some hf, List.map_cons, List.sum_cons, hf, ← ih]
      rfl

end Roster

end WeightedQuorum
