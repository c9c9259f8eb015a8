/-!
# Calls that write before they fail

A method that takes its object by mutable reference and returns a result
can fail half way: what it has written by then stays. Such a call is a
function to an answer *and* the state it leaves. `attempt` is the early
return on a failed check, `andThen` the early return on a failed call,
`mapEach` a loop whose body is such a call.

Each combinator has one rule: what holds of every state the call can stop
in. For the loop the rule is the one of a loop with an exit: an invariant
of the states, kept by the body also when it fails, and a condition on the
elements still to come under which the body keeps it (`mapEach_keeps`).
-/

namespace Fallible

/-- The answer of a call and the state it leaves. -/
abbrev Outcome (ε σ α : Type) := Except ε α × σ

variable {ε σ α β : Type}

def okOr (o : Option α) (e : ε) : Except ε α :=
  match o with
  | some a => .ok a
  | none => .error e

/-- A check that fails ends the call and leaves the state as it is. -/
def attempt (s : σ) (r : Except ε α) (k : α → Outcome ε σ β) : Outcome ε σ β :=
  match r with
  | .error e => (.error e, s)
  | .ok a => k a

/-- A call that fails ends the one that made it, with what it has written. -/
def andThen (c : Outcome ε σ α) (k : α → σ → Outcome ε σ β) : Outcome ε σ β :=
  match c with
  | (.error e, s) => (.error e, s)
  | (.ok a, s) => k a s

/-- A loop over a list that stops at the first failure. -/
def mapEach (f : σ → α → Outcome ε σ β) : σ → List α → Outcome ε σ (List β)
  | s, [] => (.ok [], s)
  | s, a :: as =>
    andThen (f s a) fun b s => andThen (mapEach f s as) fun bs s => (.ok (b :: bs), s)

variable {e : ε} {a : α}

theorem eq_some_of_okOr {o : Option α} (h : okOr o e = .ok a) : o = some a := by
  cases o with
  | none => cases h
  | some => rw [Except.ok.inj h]

theorem not_of_check {p : Prop} [Decidable p] {b : α}
    (h : (if p then Except.error e else .ok a) = .ok b) : ¬ p := by
  intro hp
  rw [if_pos hp] at h
  cases h

variable {I : σ → Prop}

theorem attempt_keeps {s : σ} {r : Except ε α} {k : α → Outcome ε σ β} (hs : I s)
    (hk : ∀ a, r = .ok a → I (k a).2) : I (attempt s r k).2 := by
  cases r with
  | error => exact hs
  | ok a => exact hk a rfl

theorem guard_keeps {p : Prop} [Decidable p] {s : σ} {c : Outcome ε σ β} (hs : I s)
    (hc : ¬ p → I c.2) : I (if p then (.error e, s) else c).2 := by
  split
  · exact hs
  · exact hc ‹_›

/-- The call fails with the state as it was, or answers and leaves one with
`I`. -/
def Settles (I : σ → Prop) (s : σ) (c : Outcome ε σ β) : Prop :=
  (∃ e, c = (.error e, s)) ∨ ∃ b s', c = (.ok b, s') ∧ I s'

section

variable {s : σ} {c : Outcome ε σ β}

theorem Settles.keeps (h : Settles I s c) (hs : I s) : I c.2 := by
  rcases h with ⟨_, rfl⟩ | ⟨_, _, rfl, hs'⟩
  · exact hs
  · exact hs'

theorem attempt_settles {r : Except ε α} {k : α → Outcome ε σ β}
    (hk : ∀ a, r = .ok a → Settles I s (k a)) : Settles I s (attempt s r k) := by
  cases r with
  | error e => exact .inl ⟨e, rfl⟩
  | ok a => exact hk a rfl

theorem guard_settles {p : Prop} [Decidable p] (hc : ¬ p → Settles I s c) :
    Settles I s (if p then (.error e, s) else c) := by
  split
  · exact .inl ⟨e, rfl⟩
  · exact hc ‹_›

end

theorem andThen_keeps {c : Outcome ε σ α} {k : α → σ → Outcome ε σ β} (hc : I c.2)
    (hk : ∀ a s, I s → I (k a s).2) : I (andThen c k).2 := by
  rcases c with ⟨e | a, s⟩
  · exact hc
  · exact hk a s hc

/-- What a loop leaves. The body keeps `I`, also when it fails, as long as
`J` holds of what is still to come; and where it goes on, `J` does. -/
theorem mapEach_keeps {f : σ → α → Outcome ε σ β} {J : List α → σ → Prop}
    (hbody : ∀ s a as, I s → J (a :: as) s → I (f s a).2)
    (hnext : ∀ s a as b s', I s → J (a :: as) s → f s a = (.ok b, s') → J as s') :
    ∀ {s : σ} {as : List α}, I s → J as s → I (mapEach f s as).2 := by
  intro s as hs hleft
  induction as generalizing s with
  | nil => exact hs
  | cons a as ih =>
    have hs' := hbody s a as hs hleft
    unfold mapEach
    rcases hfa : f s a with ⟨e | b, s'⟩ <;> rw [hfa] at hs'
    · exact hs'
    · have hrest := ih hs' (hnext s a as b s' hs hleft hfa)
      show I (andThen (mapEach f s' as) fun bs s => (.ok (b :: bs), s)).2
      exact andThen_keeps hrest fun _ _ h => h

end Fallible
