/-
# Checks in a row

A checker is a row of steps, each of which may end it with a fault.  It ends well if every step
does, and then with the result of the last one.  One lemma for each way to write a step says so:

* `bind_eq_ok`, `bind_eq_error`, `pure_eq_ok`, `map_eq_ok`, `toOption_map_eq_some` -- steps with
  results;
* `refuse_eq_ok`, `refuse_eq_error`, `require_eq_ok` -- steps that only look at a condition.
-/

namespace ShaderFabric

variable {ε α β : Type}

theorem bind_eq_ok {x : Except ε α} {f : α → Except ε β} {b : β} :
    x >>= f = .ok b ↔ ∃ a, x = .ok a ∧ f a = .ok b := by
  cases x with
  | error e => simp [bind, Except.bind]
  | ok a => simp [bind, Except.bind]

theorem bind_eq_error {x : Except ε α} {f : α → Except ε β} {e : ε} :
    x >>= f = .error e ↔ x = .error e ∨ ∃ a, x = .ok a ∧ f a = .error e := by
  cases x with
  | error e => simp [bind, Except.bind]
  | ok a => simp [bind, Except.bind]

theorem pure_eq_ok {a b : α} : (pure a : Except ε α) = .ok b ↔ a = b := by
  simp [pure, Except.pure]

theorem pure_ne_error {a : α} {e : ε} : (pure a : Except ε α) ≠ .error e := by
  intro h
  cases h

theorem map_eq_ok {f : α → β} {x : Except ε α} {b : β} (h : f <$> x = .ok b) :
    ∃ a, x = .ok a ∧ f a = b := by
  cases x with
  | error e => cases h
  | ok a =>
    cases h
    exact ⟨a, rfl, rfl⟩

/-- What is read off a result, if there is one, is read off a result. -/
theorem toOption_map_eq_some {f : α → β} {x : Except ε α} {b : β}
    (h : x.toOption.map f = some b) : ∃ a, x = .ok a ∧ f a = b := by
  cases x with
  | error e => cases h
  | ok a => exact ⟨a, rfl, Option.some.inj h⟩

theorem throw_ne_ok {e : ε} {b : β} : (throw e : Except ε β) ≠ .ok b := by
  intro h
  cases h

/-- A step that refuses a condition. -/
theorem refuse_eq_ok {c : Prop} [Decidable c] {e : ε} {k : α → Except ε β} {rest : Except ε β}
    {b : β} : (if c then throw e >>= k else rest) = .ok b ↔ ¬ c ∧ rest = .ok b := by
  by_cases hc : c
  · simp [hc, bind_eq_ok, throw_ne_ok]
  · simp [hc]

theorem refuse_eq_error {c : Prop} [Decidable c] {e fault : ε} {k : α → Except ε β}
    {rest : Except ε β} : (if c then throw e >>= k else rest) = .error fault ↔
      (c ∧ e = fault) ∨ (¬ c ∧ rest = .error fault) := by
  by_cases hc : c
  · simp [hc, throw, throwThe, MonadExceptOf.throw, bind, Except.bind]
  · simp [hc]

/-- A step that requires a condition. -/
theorem require_eq_ok {c : Prop} [Decidable c] {e : ε} {k : α → Except ε β} {rest : Except ε β}
    {b : β} : (if c then rest else throw e >>= k) = .ok b ↔ c ∧ rest = .ok b := by
  by_cases hc : c
  · simp [hc]
  · simp [hc, bind_eq_ok, throw_ne_ok]

end ShaderFabric
