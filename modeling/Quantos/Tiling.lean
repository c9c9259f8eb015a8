import Mathlib.Data.List.Perm.Basic
import Mathlib.Data.List.Pairwise

/-!
# Tilings

Rows that carry a range of numbers, both ends included, and together
partition an initial segment: every range is proper, every position below
the bound is in one, and no two overlap. The rows are a list, but nothing
depends on its order (`Tiles.perm`).

The two local changes are cutting one range in two (`Tiles.split`) and
joining two ranges that touch (`Tiles.merge`). In a tiling a position has
one owner, and a search finds it in whatever order it goes through the
rows (`Tiles.owner`).
-/

namespace Tiling

open List

variable {ρ : Type} (lo hi : ρ → Nat)

structure Tiles (rows : List ρ) (bound : Nat) : Prop where
  proper : ∀ r ∈ rows, lo r ≤ hi r ∧ hi r < bound
  covers : ∀ x < bound, ∃ r ∈ rows, lo r ≤ x ∧ x ≤ hi r
  apart : rows.Pairwise fun r s => hi r < lo s ∨ hi s < lo r

variable {lo hi} {rows rest : List ρ} {bound : Nat}

theorem Tiles.perm {rows' : List ρ} (h : Tiles lo hi rows bound) (hperm : rows.Perm rows') :
    Tiles lo hi rows' bound where
  proper := fun r hr => h.proper r (hperm.mem_iff.mpr hr)
  covers := fun x hx => by
    obtain ⟨r, hr, hxr⟩ := h.covers x hx
    exact ⟨r, hperm.mem_iff.mp hr, hxr⟩
  apart := (hperm.pairwise_iff fun {_ _} h => h.symm).mp h.apart

/-! ## Local changes -/

theorem Tiles.split {r r₁ r₂ : ρ} (h : Tiles lo hi (r :: rest) bound) (hlo : lo r₁ = lo r)
    (hhi : hi r₂ = hi r) (hcut : lo r₂ = hi r₁ + 1) (hleft : lo r ≤ hi r₁)
    (hright : hi r₁ < hi r) : Tiles lo hi (r₁ :: r₂ :: rest) bound where
  proper := by
    have hr := h.proper r mem_cons_self
    simp only [forall_mem_cons]
    refine ⟨⟨by omega, by omega⟩, ⟨by omega, by omega⟩, fun s hs => ?_⟩
    exact h.proper s (mem_cons_of_mem _ hs)
  covers := fun x hx => by
    obtain ⟨s, hs, hxs⟩ := h.covers x hx
    rcases mem_cons.mp hs with rfl | hs
    · rcases Nat.lt_or_ge (hi r₁) x with hlt | hge
      · exact ⟨r₂, mem_cons_of_mem _ mem_cons_self, by omega, by omega⟩
      · exact ⟨r₁, mem_cons_self, by omega, hge⟩
    · exact ⟨s, mem_cons_of_mem _ (mem_cons_of_mem _ hs), hxs⟩
  apart := by
    obtain ⟨hr, hrest⟩ := pairwise_cons.mp h.apart
    refine pairwise_cons.mpr ⟨?_, pairwise_cons.mpr ⟨fun s hs => ?_, hrest⟩⟩
    · simp only [forall_mem_cons]
      refine ⟨by omega, fun s hs => ?_⟩
      have := hr s hs
      omega
    · have := hr s hs
      omega

theorem Tiles.merge {r s t : ρ} (h : Tiles lo hi (r :: s :: rest) bound) (htouch : hi r + 1 = lo s)
    (hlo : lo t = lo r) (hhi : hi t = hi s) : Tiles lo hi (t :: rest) bound where
  proper := by
    have hr := h.proper r mem_cons_self
    have hs := h.proper s (mem_cons_of_mem _ mem_cons_self)
    simp only [forall_mem_cons]
    refine ⟨⟨by omega, by omega⟩, fun u hu => ?_⟩
    exact h.proper u (mem_cons_of_mem _ (mem_cons_of_mem _ hu))
  covers := fun x hx => by
    have hr := h.proper r mem_cons_self
    have hs := h.proper s (mem_cons_of_mem _ mem_cons_self)
    obtain ⟨u, hu, hxu⟩ := h.covers x hx
    rcases mem_cons.mp hu with rfl | hu
    · exact ⟨t, mem_cons_self, by omega, by omega⟩
    rcases mem_cons.mp hu with rfl | hu
    · exact ⟨t, mem_cons_self, by omega, by omega⟩
    · exact ⟨u, mem_cons_of_mem _ hu, hxu⟩
  apart := by
    obtain ⟨hapart, htail⟩ := pairwise_cons.mp h.apart
    obtain ⟨hapart', hrest⟩ := pairwise_cons.mp htail
    refine pairwise_cons.mpr ⟨fun u hu => ?_, hrest⟩
    -- `u` is on one side of `r` and of `s`; being proper it cannot sit between them
    have hu' := h.proper u (mem_cons_of_mem _ (mem_cons_of_mem _ hu))
    have h₁ := hapart u (mem_cons_of_mem _ hu)
    have h₂ := hapart' u hu
    omega

/-! ## Owners -/

theorem Tiles.unique (h : Tiles lo hi rows bound) {r s : ρ} (hr : r ∈ rows) (hs : s ∈ rows)
    {x : Nat} (hxr : lo r ≤ x ∧ x ≤ hi r) (hxs : lo s ≤ x ∧ x ≤ hi s) : r = s := by
  by_contra hne
  have : Std.Symm fun r s : ρ => hi r < lo s ∨ hi s < lo r := ⟨fun _ _ => Or.symm⟩
  have hapart := h.apart.forall hr hs hne
  omega

/-- Every position has an owner, the row that any search order finds. -/
theorem Tiles.owner (h : Tiles lo hi rows bound) {x : Nat} (hx : x < bound) :
    ∃ r ∈ rows, (lo r ≤ x ∧ x ≤ hi r) ∧
      ∀ l : List ρ, l.Perm rows → l.find? (fun s => lo s ≤ x ∧ x ≤ hi s) = some r := by
  obtain ⟨r, hr, hxr⟩ := h.covers x hx
  refine ⟨r, hr, hxr, fun l hl => ?_⟩
  cases hfind : l.find? (fun s => lo s ≤ x ∧ x ≤ hi s) with
  | none =>
    have := find?_eq_none.mp hfind r (hl.mem_iff.mpr hr)
    exact absurd hxr (by simpa using this)
  | some s =>
    have hs : lo s ≤ x ∧ x ≤ hi s := by simpa using find?_some hfind
    exact congrArg some
      (h.unique (hl.mem_iff.mp (mem_of_find?_eq_some hfind)) hr hs hxr)

/-! ## The even layout -/

/-- Ranges of one width laid end to end, the last one up to the bound. -/
theorem tiles_even {f : Nat → ρ} {n width : Nat} (hn : 0 < n) (hwidth : 0 < width)
    (hfits : n * width ≤ bound) (hlo : ∀ i < n, lo (f i) = i * width)
    (hhi : ∀ i < n, i + 1 ≠ n → hi (f i) = (i + 1) * width - 1)
    (hlast : ∀ i, i + 1 = n → hi (f i) = bound - 1) :
    Tiles lo hi ((List.range n).map f) bound where
  proper := by
    intro r hr
    obtain ⟨i, hi', rfl⟩ := mem_map.mp hr
    have hin := mem_range.mp hi'
    have hstep : (i + 1) * width = i * width + width := Nat.succ_mul i width
    have hle : (i + 1) * width ≤ n * width := Nat.mul_le_mul_right width hin
    rw [hlo i hin]
    by_cases heq : i + 1 = n
    · rw [hlast i heq]
      omega
    · rw [hhi i hin heq]
      omega
  covers := fun x hx => by
    -- the block of `x`, or the last one when `x` is past the even part
    by_cases hblock : x / width < n
    · refine ⟨f (x / width), mem_map_of_mem (mem_range.mpr hblock), ?_⟩
      have hdiv := Nat.div_mul_le_self x width
      have hmod := Nat.lt_div_mul_add hwidth (a := x)
      have hstep : (x / width + 1) * width = x / width * width + width := Nat.succ_mul _ _
      rw [hlo _ hblock]
      by_cases heq : x / width + 1 = n
      · rw [hlast _ heq]
        omega
      · rw [hhi _ hblock heq]
        omega
    · obtain ⟨m, rfl⟩ : ∃ m, n = m + 1 := ⟨n - 1, by omega⟩
      refine ⟨f m, mem_map_of_mem (mem_range.mpr (by omega)), ?_⟩
      have hmul : m * width ≤ x / width * width := Nat.mul_le_mul_right width (by omega)
      have hdiv := Nat.div_mul_le_self x width
      rw [hlo m (by omega), hlast m rfl]
      omega
  apart := by
    refine pairwise_map.mpr (pairwise_lt_range.imp_of_mem fun {i j} hi' hj hij => ?_)
    have hjn := mem_range.mp hj
    have hle : (i + 1) * width ≤ j * width := Nat.mul_le_mul_right width hij
    have hstep : (i + 1) * width = i * width + width := Nat.succ_mul i width
    rw [hhi i (by omega) (by omega), hlo j hjn]
    omega

end Tiling
