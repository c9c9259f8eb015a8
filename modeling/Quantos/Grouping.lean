import Mathlib.Data.List.Sort
import Mathlib.Data.List.Dedup
import Mathlib.Algebra.BigOperators.Group.List.Basic
import Mathlib.Tactic.Abel

/-!
# Splitting a list by a key

A list is processed group by group: the elements with one key stay in
their order, the groups come in any order. Two facts make such a split
harmless: the groups put together are the list again (`flatMap_filter_perm`,
and for sums over it `sum_map_filter`), and two interleavings that agree
within every group have the same groups (`filter_eq_of_perm`). Elements that
carry their index are put back in order by sorting
(`map_insertionSort_zipIdx`, `eq_of_perm_of_map_eq`).
-/

namespace Grouping

open List

variable {α γ : Type} [DecidableEq γ]

/-- Concatenating the groups of a list, in any order, permutes the list. -/
theorem flatMap_filter_perm (key : α → γ) :
    ∀ {groups : List γ} {l : List α}, groups.Nodup → (∀ x ∈ l, key x ∈ groups) →
      (groups.flatMap fun g => l.filter fun x => key x = g).Perm l
  | [], l, _, hmem => by
    have hl : l = [] := eq_nil_iff_forall_not_mem.mpr fun x hx =>
      not_mem_nil (hmem x hx)
    subst hl
    exact .refl _
  | g :: groups, l, hnd, hmem => by
    rw [nodup_cons] at hnd
    rw [flatMap_cons]
    -- the other groups do not see the elements of this one
    have hrest : (groups.flatMap fun g' => l.filter fun x => key x = g')
        = groups.flatMap fun g' => (l.filter fun x => ! decide (key x = g)).filter
            fun x => key x = g' := by
      refine flatMap_congr fun g' hg' => ?_
      rw [filter_filter]
      refine filter_congr fun x _ => ?_
      by_cases hx : key x = g'
      · have hne : key x ≠ g := fun h => hnd.1 (h ▸ hx ▸ hg')
        simp [hx, hx ▸ hne]
      · simp [hx]
    rw [hrest]
    have ih := flatMap_filter_perm key hnd.2 (l := l.filter fun x => ! decide (key x = g))
      fun x hx => by
        simp only [mem_filter, Bool.not_eq_true', decide_eq_false_iff_not] at hx
        exact (mem_cons.mp (hmem x hx.1)).resolve_left hx.2
    exact (ih.append_left _).trans (filter_append_perm _ l)

variable {l : List α} (key : α → γ) {groups : List γ}

theorem sum_map_filter (f : α → Nat) (hnd : groups.Nodup) (hmem : ∀ x ∈ l, key x ∈ groups) :
    (groups.map fun g => ((l.filter fun x => key x = g).map f).sum).sum = (l.map f).sum := by
  rw [← ((flatMap_filter_perm key hnd hmem).map f).sum_eq, map_flatMap, flatMap_def,
    sum_flatten, map_map]
  rfl

variable {l' : List α}

/-- Two arrangements of the same elements that put each group in the order
of an index have the same groups. -/
theorem filter_eq_of_perm (index : α → Nat) (h : l.Perm l')
    (hl : l.Pairwise fun x y => key x = key y → index x < index y)
    (hl' : l'.Pairwise fun x y => key x = key y → index x < index y) (g : γ) :
    (l.filter fun x => key x = g) = l'.filter fun x => key x = g := by
  have hsorted : ∀ {m : List α}, (m.Pairwise fun x y => key x = key y → index x < index y) →
      (m.filter fun x => key x = g).Pairwise fun x y => index x < index y := by
    intro m hm
    refine (hm.sublist filter_sublist).imp_of_mem ?_
    intro x y hx hy hlt
    simp only [mem_filter, decide_eq_true_eq] at hx hy
    exact hlt (hx.2.trans hy.2.symm)
  refine List.Perm.eq_of_pairwise ?_ (hsorted hl) (hsorted hl') (h.filter _)
  intro x y _ _ hxy hyx
  omega

theorem perm_of_filter_eq (h : ∀ g, (l.filter fun x => key x = g) = l'.filter fun x => key x = g) :
    l.Perm l' := by
  classical
  refine perm_iff_count.mpr fun x => ?_
  have hx : decide (key x = key x) = true := decide_eq_true rfl
  rw [← count_filter (l := l) (p := fun y => key y = key x) hx,
    ← count_filter (l := l') (p := fun y => key y = key x) hx, h]

variable {β : Type}

/-- Sorting indexed elements restores the order of the indices. -/
theorem map_insertionSort_zipIdx (f : α → β × Nat) {xs : List β} (h : (l.map f).Perm xs.zipIdx) :
    (l.insertionSort fun x y => (f x).2 ≤ (f y).2).map f = xs.zipIdx := by
  have hperm : ((l.insertionSort fun x y => (f x).2 ≤ (f y).2).map f).Perm xs.zipIdx :=
    ((perm_insertionSort _ _).map _).trans h
  have hsorted : ((l.insertionSort fun x y => (f x).2 ≤ (f y).2).map f).Pairwise
      fun p q => p.2 ≤ q.2 := by
    rw [pairwise_map]
    exact pairwise_insertionSort _ l
  have hzip : xs.zipIdx.Pairwise fun p q => p.2 ≤ q.2 := by
    have hlt : (xs.zipIdx.map Prod.snd).Pairwise (· < ·) := by
      rw [zipIdx_map_snd]
      exact pairwise_lt_range'
    refine (pairwise_map.mp hlt).imp ?_
    intro p q hlt
    exact Nat.le_of_lt hlt
  refine hperm.eq_of_pairwise ?_ hsorted hzip
  -- an index belongs to one element
  intro p q hp hq hpq hqp
  have hp' := mem_zipIdx_iff_getElem?.mp (hperm.mem_iff.mp hp)
  have hq' := mem_zipIdx_iff_getElem?.mp hq
  have hidx : p.2 = q.2 := Nat.le_antisymm hpq hqp
  rw [hidx, hq'] at hp'
  exact Prod.ext (Option.some.inj hp').symm hidx

/-- An arrangement is determined by the images of its elements, if these are
all different. -/
theorem eq_of_perm_of_map_eq {f : α → β} (h : l.Perm l') (hmap : l.map f = l'.map f)
    (hnd : (l.map f).Nodup) : l = l' := by
  refine ext_getElem h.length_eq fun i hi hi' => ?_
  have hf : f l[i] = f l'[i] := by
    have hget := congrArg (fun m => m[i]?) hmap
    simpa [hi, hi'] using hget
  exact inj_on_of_nodup_map hnd (getElem_mem hi)
    (h.mem_iff.mpr (getElem_mem hi')) hf

theorem sum_map_change {G : Type} [AddCommGroup G] {f f' : γ → G} {g₀ : γ} (hnd : groups.Nodup)
    (hmem : g₀ ∈ groups) (hsame : ∀ g ≠ g₀, f' g = f g) :
    (groups.map f').sum = (groups.map f).sum + (f' g₀ - f g₀) := by
  induction groups with
  | nil => cases hmem
  | cons g groups ih =>
    rw [nodup_cons] at hnd
    rw [map_cons, map_cons, sum_cons, sum_cons]
    by_cases hg : g = g₀
    · subst hg
      have hrest : groups.map f' = groups.map f :=
        map_congr_left fun g' hg' => hsame g' fun heq => hnd.1 (heq ▸ hg')
      rw [hrest]
      abel
    · rw [hsame g hg, ih hnd.2 ((mem_cons.mp hmem).resolve_left (Ne.symm hg))]
      abel

theorem zip_in_step {δ : Type} {f : α → δ} {f' : β → δ} {l' : List β} (h : l.map f = l'.map f') :
    ∀ q ∈ l.zip l', f q.1 = f' q.2 := by
  induction l generalizing l' with
  | nil => intro q hq; simp at hq
  | cons x l ih =>
    cases l' with
    | nil => simp at h
    | cons =>
      obtain ⟨hxy, hrest⟩ := List.cons.inj h
      intro q hq
      rcases mem_cons.mp hq with rfl | hq
      · exact hxy
      · exact ih hrest q hq

end Grouping
