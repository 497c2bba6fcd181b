import DlogProof.Entropy.Source

namespace DlogProof

/-- What ends a computation before it has a result. -/
inductive Stop (ε : Type) where
  | failed (error : ε)
  /-- A step failed that its callers take for granted. -/
  | aborted
  /-- A search took more attempts than it was allowed. -/
  | outOfFuel
deriving DecidableEq

/-- The same end with its failure reworded. -/
def Stop.map {ε ε' : Type} (f : ε → ε') : Stop ε → Stop ε'
  | .failed e => .failed (f e)
  | .aborted => .aborted
  | .outOfFuel => .outOfFuel

/-- The same end for callers that do not expect a failure. -/
def Stop.unexpected {ε ε' : Type} : Stop ε → Stop ε'
  | .outOfFuel => .outOfFuel
  | _ => .aborted

/-- A computation that draws from an entropy source with states `σ`. The state
of the source is known also after a failure. -/
def Draw (σ ε α : Type) : Type := σ → Except (Stop ε) α × σ

namespace Draw

variable {σ ε ε' α β : Type}

/-- Continues with the value of the first step, if it has one. -/
def bind (x : Draw σ ε α) (f : α → Draw σ ε β) : Draw σ ε β := fun s =>
  match x s with
  | (.ok a, s') => f a s'
  | (.error e, s') => (.error e, s')

instance : Monad (Draw σ ε) where
  pure a := fun s => (.ok a, s)
  bind := bind

/-- Ends the computation. -/
def stop (e : Stop ε) : Draw σ ε α := fun s => (.error e, s)

/-- Ends the computation with a failure of its own. -/
def fail (e : ε) : Draw σ ε α := stop (.failed e)

/-- A value that the callers take for granted. -/
def ofOption : Option α → Draw σ ε α
  | some a => pure a
  | none => stop .aborted

/-- The same computation with another end in place of its own. -/
def mapStop (f : Stop ε → Stop ε') (x : Draw σ ε α) : Draw σ ε' α := fun s =>
  match x s with
  | (.ok a, s') => (.ok a, s')
  | (.error e, s') => (.error (f e), s')

/-- The same computation with its failures reworded. -/
def mapError (f : ε → ε') (x : Draw σ ε α) : Draw σ ε' α := x.mapStop (Stop.map f)

/-- The same computation for callers that do not expect a failure. -/
def orAbort (x : Draw σ ε α) : Draw σ ε' α := x.mapStop Stop.unexpected

/-- Requests `n` bytes, and names the cause of a refusal. -/
def bytes [EntropySource σ] (cause : String → ε) (n : Nat) : Draw σ ε (List UInt8) := fun s =>
  match EntropySource.request n s with
  | (.ok bs, s') => (.ok bs, s')
  | (.error reason, s') => (.error (.failed (cause reason)), s')

/-- Repeats a step until it gives a value. -/
def untilSome (step : Draw σ ε (Option α)) : Nat → Draw σ ε α
  | 0 => stop .outOfFuel
  | fuel + 1 => do
    match ← step with
    | some a => pure a
    | none => untilSome step fuel

@[simp] theorem pure_apply (a : α) (s : σ) : (pure a : Draw σ ε α) s = (.ok a, s) := rfl

theorem bind_ok {x : Draw σ ε α} {f : α → Draw σ ε β} {s s' : σ} {a : α}
    (h : x s = (.ok a, s')) : (x >>= f) s = f a s' := by
  show bind x f s = _
  rw [bind, h]

theorem bind_error {x : Draw σ ε α} {f : α → Draw σ ε β} {s s' : σ} {e : Stop ε}
    (h : x s = (.error e, s')) : (x >>= f) s = (.error e, s') := by
  show bind x f s = _
  rw [bind, h]

/-- A sequence gives a value exactly if both of its steps do. -/
theorem bind_eq_ok {x : Draw σ ε α} {f : α → Draw σ ε β} {s s'' : σ} {b : β} :
    (x >>= f) s = (.ok b, s'') ↔ ∃ a s', x s = (.ok a, s') ∧ f a s' = (.ok b, s'') := by
  rcases h : x s with ⟨r, s'⟩
  cases r with
  | ok a =>
    simp only [bind_ok h, Prod.mk.injEq, Except.ok.injEq]
    exact ⟨fun hf => ⟨a, s', ⟨rfl, rfl⟩, hf⟩, fun ⟨_, _, ⟨ha, hs⟩, hf⟩ => ha ▸ hs ▸ hf⟩
  | error e => simp [bind_error h]

theorem mapStop_eq_ok {f : Stop ε → Stop ε'} {x : Draw σ ε α} {s s' : σ} {a : α} :
    x.mapStop f s = (.ok a, s') ↔ x s = (.ok a, s') := by
  unfold mapStop
  split <;> simp_all

theorem mapError_eq_ok {f : ε → ε'} {x : Draw σ ε α} {s s' : σ} {a : α} :
    x.mapError f s = (.ok a, s') ↔ x s = (.ok a, s') := mapStop_eq_ok

end Draw

end DlogProof
