/-!
# Actions

An action runs in a state of the world, leaves a trace of what it did, and ends with a result or an
error. State and trace stay also where it ends with an error, since what was done cannot be undone.
-/

namespace CtapEnroll

/-- What is left of an action: its result, what it did in order, and the state after it. -/
structure Outcome (ε ω σ α : Type) where
  result : Except ε α
  trace : List ω
  state : σ

/-- A computation that acts on a state `σ`, does things of kind `ω`, and may end with an error. -/
def Action (ε ω σ α : Type) : Type := σ → Outcome ε ω σ α

namespace Action

variable {ε ω σ τ α β γ : Type}

def run (x : Action ε ω σ α) (s : σ) : Outcome ε ω σ α := x s

protected def pure (a : α) : Action ε ω σ α := fun s => ⟨.ok a, [], s⟩

protected def bind (x : Action ε ω σ α) (f : α → Action ε ω σ β) : Action ε ω σ β := fun s =>
  let first := x s
  match first.result with
  | .ok a =>
    let second := f a first.state
    ⟨second.result, first.trace ++ second.trace, second.state⟩
  | .error e => ⟨.error e, first.trace, first.state⟩

instance : Monad (Action ε ω σ) where
  pure := Action.pure
  bind := Action.bind

def fail (e : ε) : Action ε ω σ α := fun s => ⟨.error e, [], s⟩

def emit (w : ω) : Action ε ω σ Unit := fun s => ⟨.ok (), [w], s⟩

def ofExcept (r : Except ε α) : Action ε ω σ α := fun s => ⟨r, [], s⟩

/-- An action that never ends with an error, but yields the one that it met. -/
def attempt (x : Action ε ω σ α) : Action ε ω σ (Except ε α) := fun s =>
  let o := x s
  ⟨.ok o.result, o.trace, o.state⟩

def inspect (f : σ → α) : Action ε ω σ α := fun s => ⟨.ok (f s), [], s⟩

def change (f : σ → σ) : Action ε ω σ Unit := fun s => ⟨.ok (), [], f s⟩

/-- An action in a part of a larger state. -/
def onSecond (x : Action ε ω σ α) : Action ε ω (τ × σ) α := fun s =>
  let o := x s.2
  ⟨o.result, o.trace, (s.1, o.state)⟩

theorem bind_of_ok {x : Action ε ω σ α} {f : α → Action ε ω σ β} {s s' : σ} {a : α} {t : List ω}
    (h : x s = ⟨.ok a, t, s'⟩) :
    (x >>= f) s = ⟨(f a s').result, t ++ (f a s').trace, (f a s').state⟩ := by
  change Action.bind x f s = _
  simp only [Action.bind, h]

theorem bind_of_error {x : Action ε ω σ α} {f : α → Action ε ω σ β} {s s' : σ} {e : ε} {t : List ω}
    (h : x s = ⟨.error e, t, s'⟩) : (x >>= f) s = ⟨.error e, t, s'⟩ := by
  change Action.bind x f s = _
  simp only [Action.bind, h]

theorem emit_bind (w : ω) (f : Unit → Action ε ω σ β) (s : σ) :
    (emit w >>= f) s = ⟨(f () s).result, w :: (f () s).trace, (f () s).state⟩ := rfl

theorem inspect_bind (f : σ → α) (g : α → Action ε ω σ β) (s : σ) :
    (inspect f >>= g) s = g (f s) s := rfl

theorem map_run (f : α → β) (x : Action ε ω σ α) (s : σ) :
    (f <$> x) s = ⟨(x s).result.map f, (x s).trace, (x s).state⟩ := by
  change Action.bind x _ s = _
  simp only [Action.bind]
  cases (x s).result with
  | ok a => simp [Function.comp, Action.pure, Except.map]
  | error e => rfl

theorem onSecond_run {x : Action ε ω σ α} {s s' : σ} {r : Except ε α} {t : List ω}
    (h : x s = ⟨r, t, s'⟩) (first : τ) : x.onSecond (first, s) = ⟨r, t, (first, s')⟩ := by
  simp only [onSecond, h]

/-- What an action does first stays in its trace. -/
theorem trace_bind (x : Action ε ω σ α) (f : α → Action ε ω σ β) (s : σ) :
    ∃ rest, ((x >>= f) s).trace = (x s).trace ++ rest := by
  rcases h : x s with ⟨result, trace, s'⟩
  cases result with
  | ok a => exact ⟨(f a s').trace, congrArg Outcome.trace (bind_of_ok h)⟩
  | error e => exact ⟨[], (congrArg Outcome.trace (bind_of_error h)).trans (List.append_nil _).symm⟩

theorem id_map_action (x : Action ε ω σ α) : id <$> x = x := by
  funext s
  change Action.bind x _ s = _
  simp only [Action.bind, Function.comp]
  rcases x s with ⟨r, t, s'⟩
  cases r <;> simp [Action.pure]

theorem pure_bind_action (a : α) (f : α → Action ε ω σ β) : (pure a >>= f) = f a := by
  funext s
  change Action.bind _ f s = _
  simp [Action.bind, pure, Action.pure]

theorem bind_assoc_action (x : Action ε ω σ α) (f : α → Action ε ω σ β) (g : β → Action ε ω σ γ) :
    (x >>= f >>= g) = x >>= fun a => f a >>= g := by
  funext s
  change Action.bind (Action.bind x f) g s = Action.bind x (fun a => Action.bind (f a) g) s
  simp only [Action.bind]
  cases (x s).result with
  | error e => rfl
  | ok a =>
    simp only
    cases (f a (x s).state).result <;> simp

instance : LawfulMonad (Action ε ω σ) :=
  LawfulMonad.mk' _ id_map_action pure_bind_action bind_assoc_action

end Action

end CtapEnroll
