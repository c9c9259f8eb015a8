/-!
# Calls that may panic

A call in Rust returns a value, returns an error, or panics. A panic is
the absence of an answer here: `Call ε α` is an optional result, and its
operations are those of the transformer `ExceptT ε Option`, so that a
panic ends everything and an error everything up to where it is mapped.

`Answers c Q` says that `c` does not panic and that a value it returns
satisfies `Q`. There is one rule for each way a call is put together. What
panics in a source is given here as a call of its own: an index or a slice
out of range, an assertion, a difference below zero, a sum that does not
fit.
-/

namespace Panics

open List

/-- `none` is a panic. -/
abbrev Call (ε α : Type) := ExceptT ε Option α

variable {ε ε' α β : Type}

/-- The call does not panic, and what it returns satisfies `Q`. -/
def Answers (c : Call ε α) (Q : α → Prop) : Prop :=
  match (c : Option (Except ε α)) with
  | none => False
  | some (.error _) => True
  | some (.ok a) => Q a

/-- The call returns `a`. -/
def Returns (c : Call ε α) (a : α) : Prop := (c : Option (Except ε α)) = some (.ok a)

instance [DecidableEq α] (c : Call ε α) (a : α) : Decidable (Returns c a) :=
  match (c : Option (Except ε α)) with
  | none => isFalse nofun
  | some (.error _) => isFalse nofun
  | some (.ok b) => decidable_of_iff (b = a) ⟨fun h => h ▸ rfl, fun h =>
    Except.ok.inj (Option.some.inj h)⟩

variable {Q P : α → Prop} {c : Call ε α}

theorem Answers.mono (h : Answers c P) (hPQ : ∀ a, P a → Q a) : Answers c Q := by
  rcases c with _ | _ | a
  · exact h
  · exact trivial
  · exact hPQ a h

/-! ## The rules -/

variable {a : α}

theorem Answers.and_returns (h : Answers c P) : Answers c fun a => P a ∧ Returns c a := by
  rcases c with _ | _ | a
  · exact h
  · exact trivial
  · exact ⟨h, rfl⟩

theorem answers_pure (h : Q a) : Answers (pure a : Call ε α) Q := h

variable {e : ε}

theorem answers_throw : Answers (throw e : Call ε α) Q := trivial

variable {f : α → Call ε β}

theorem answers_bind {Q : β → Prop} (hc : Answers c P) (hf : ∀ a, P a → Answers (f a) Q) :
    Answers (c >>= f) Q := by
  rcases c with _ | e | a
  · exact hc.elim
  · exact trivial
  · exact hf a hc

variable {d : Call ε α} {p : Prop}

theorem answers_ite [Decidable p] (hc : p → Answers c Q) (hd : ¬ p → Answers d Q) :
    Answers (if p then c else d) Q := by
  split
  · rename_i h
    exact hc h
  · rename_i h
    exact hd h

theorem answers_unless [Decidable p] (hd : ¬ p → Answers d fun _ => True) :
    Answers (if p then pure a else d) fun _ => True :=
  answers_ite (fun _ => answers_pure trivial) hd

theorem answers_adapt {f : ε → ε'} (h : Answers c Q) : Answers (ExceptT.adapt f c) Q := by
  rcases c with _ | e | a
  · exact h
  · exact trivial
  · exact h

theorem answers_foldlM {f : β → α → Call ε β} (h : ∀ b a, Answers (f b a) fun _ => True)
    (as : List α) (b : β) : Answers (as.foldlM f b) fun _ => True := by
  induction as generalizing b with
  | nil => exact answers_pure trivial
  | cons a as ih => exact answers_bind (h b a) fun b' _ => ih b'

theorem returns_bind {b : β} (h : Returns (c >>= f) b) : ∃ a, Returns c a ∧ Returns (f a) b := by
  rcases c with _ | e | a
  · cases h
  · cases h
  · exact ⟨a, rfl, h⟩

theorem returns_adapt {f : ε → ε'} (h : Returns (ExceptT.adapt f c) a) : Returns c a := by
  rcases c with _ | e | b
  · cases h
  · cases h
  · cases h
    rfl

variable {b : α}

theorem returns_pure_iff : Returns (pure a : Call ε α) b ↔ a = b :=
  ⟨fun h => Except.ok.inj (Option.some.inj h), fun h => h ▸ rfl⟩

theorem not_returns_throw : ¬ Returns (throw e : Call ε α) a := nofun

theorem returns_guard_iff [Decidable p] {d : Call ε Bool} :
    Returns (if p then pure false else d) true ↔ ¬ p ∧ Returns d true := by
  split
  · rename_i h
    exact ⟨nofun, fun hd => absurd h hd.1⟩
  · rename_i h
    exact ⟨fun hd => ⟨h, hd⟩, fun hd => hd.2⟩

theorem bind_of_returns (h : Returns c a) (f : α → Call ε β) : c >>= f = f a := by
  rcases c with _ | e | b
  · cases h
  · cases h
  · cases h
    rfl

theorem Returns.unique (ha : Returns c a) (hb : Returns c b) : a = b :=
  Except.ok.inj (Option.some.inj (ha.symm.trans hb))

theorem Answers.of_returns (h : Answers c Q) (ha : Returns c a) : Q a := by
  rw [ha] at h
  exact h

theorem Answers.error_or_returns (h : Answers c Q) :
    (∃ e, c = throw e) ∨ ∃ a, Returns c a ∧ Q a := by
  rcases c with _ | e | a
  · exact h.elim
  · exact .inl ⟨e, rfl⟩
  · exact .inr ⟨a, rfl, h⟩

/-! ## What panics -/

/-- An answer that is there, or a panic: `xs[i]` is `found xs[i]?`. -/
def found (o : Option α) : Call ε α := o.map .ok

variable {o : Option α}

theorem answers_found (h : ∃ a, o = some a ∧ Q a) : Answers (found o : Call ε α) Q := by
  obtain ⟨a, rfl, ha⟩ := h
  exact ha

theorem isSome_of_answers_found (h : Answers (found o : Call ε α) Q) : o.isSome := by
  cases o with
  | none => exact h.elim
  | some => rfl

theorem returns_found (h : Returns (found o : Call ε α) a) : o = some a := by
  cases o with
  | none => cases h
  | some =>
    cases h
    rfl

@[simp] theorem found_some_bind (a : α) (f : α → Call ε β) : found (some a) >>= f = f a := rfl

theorem answers_found_bind_iff {Q : β → Prop} :
    Answers (found o >>= f) Q ↔ ∃ a, o = some a ∧ Answers (f a) Q := by
  cases o with
  | none => exact ⟨fun h => h.elim, fun ⟨_, h, _⟩ => nomatch h⟩
  | some a => exact ⟨fun h => ⟨a, rfl, h⟩, fun ⟨_, h, ha⟩ => Option.some.inj h ▸ ha⟩

/-- A call that does not panic. -/
def checked (r : Except ε α) : Call ε α := some r

/-- `ok_or(e)?`: an answer that is there, or an error. -/
def foundOr (o : Option α) (e : ε) : Call ε α := some (o.elim (.error e) .ok)

@[simp] theorem foundOr_some_bind (a : α) (e : ε) (f : α → Call ε β) :
    foundOr (some a) e >>= f = f a := rfl

theorem answers_foundOr (h : ∀ a, o = some a → Q a) : Answers (foundOr o e) Q := by
  cases o with
  | none => exact trivial
  | some a => exact h a rfl

section Slices

variable (xs : List α) (i : Nat)

/-- `&xs[i..]`. -/
def sliceFrom : Option (List α) :=
  if i ≤ xs.length then some (xs.drop i) else none

/-- `&xs[i..j]`. -/
def slice (j : Nat) : Option (List α) :=
  if i ≤ j ∧ j ≤ xs.length then some ((xs.drop i).take (j - i)) else none

/-- `xs.get(i..).and_then(|xs| xs.get(..n))`. -/
def window (n : Nat) : Option (List α) :=
  if i ≤ xs.length ∧ n ≤ (xs.drop i).length then some ((xs.drop i).take n) else none

variable {xs} {i}

theorem slice_eq {j : Nat} (hi : i ≤ j) (hj : j ≤ xs.length) :
    slice xs i j = some ((xs.drop i).take (j - i)) := if_pos ⟨hi, hj⟩

variable {ys : List α} {n : Nat}

theorem append_of_window (h : window xs i n = some ys) :
    xs = xs.take i ++ ys ++ xs.drop (i + n) ∧ (xs.take i).length = i ∧ ys.length = n := by
  obtain ⟨⟨hi, hn⟩, heq⟩ := Option.ite_none_right_eq_some.mp h
  obtain rfl := Option.some.inj heq
  refine ⟨?_, length_take_of_le hi, length_take_of_le hn⟩
  rw [append_assoc, ← drop_drop, take_append_drop, take_append_drop]

theorem window_append (as bs cs : List α) :
    window (as ++ (bs ++ cs)) as.length bs.length = some bs := by
  simp [window]

theorem add_le_of_window (h : window xs i n = some ys) : i + n ≤ xs.length := by
  obtain ⟨hle, -⟩ := Option.ite_none_right_eq_some.mp h
  rw [length_drop] at hle
  omega

end Slices

/-- `a - b` on bytes. -/
def sub8 (a b : UInt8) : Option UInt8 := if b ≤ a then some (a - b) else none

/-- A result of arithmetic on `usize`, where it fits. -/
def fitsUsize (n : Nat) : Option Nat := if n < UInt64.size then some n else none

theorem sub8_eq {a b : UInt8} (h : b ≤ a) : sub8 a b = some (a - b) := if_pos h

variable {n : Nat}

theorem fitsUsize_eq (h : n < UInt64.size) : fitsUsize n = some n := if_pos h

variable {m : Nat}

theorem fitsUsize_eq_some_iff : fitsUsize n = some m ↔ n < UInt64.size ∧ n = m := by
  rw [fitsUsize, Option.ite_none_right_eq_some, Option.some.injEq]

theorem eq_of_fitsUsize (h : fitsUsize n = some m) : m = n :=
  (fitsUsize_eq_some_iff.mp h).2.symm

/-- A request for memory. Where there is a limit to a request, one above it
ends the process. -/
def reserve (limit : Option Nat) (bytes : Nat) : Call ε Unit :=
  found (if limit.all (bytes ≤ ·) then some () else none)

@[simp] theorem reserve_none_bind (bytes : Nat) (f : Unit → Call ε β) :
    reserve none bytes >>= f = f () := rfl

variable {limit bytes : Nat}

theorem returns_reserve (h : bytes ≤ limit) :
    Returns (reserve (some limit) bytes : Call ε Unit) () := by
  rw [reserve, Option.all_some, if_pos (decide_eq_true h)]
  rfl

theorem answers_reserve_bind_iff {f : Unit → Call ε β} {Q : β → Prop} :
    Answers (reserve (some limit) bytes >>= f) Q ↔ bytes ≤ limit ∧ Answers (f ()) Q := by
  rw [reserve, answers_found_bind_iff]
  simp only [Option.all_some, decide_eq_true_eq, Option.ite_none_right_eq_some]
  exact ⟨fun ⟨_, ⟨hle, _⟩, h⟩ => ⟨hle, h⟩, fun ⟨hle, h⟩ => ⟨(), ⟨hle, trivial⟩, h⟩⟩

end Panics
