/-!
# Traced computations

A computation that tells what it does on the way to its result. The events before a failure are
kept: a `Traced` value always has all events up to the point that it reached.
-/

namespace Remix

/-- Events of type `ν` in order, and a result of type `α` or a failure of type `ε`. -/
structure Traced (ν ε α : Type) where
  events : List ν
  result : Except ε α

namespace Traced

variable {ν ε α β : Type}

protected def pure (a : α) : Traced ν ε α := ⟨[], .ok a⟩

protected def bind (x : Traced ν ε α) (f : α → Traced ν ε β) : Traced ν ε β :=
  match x.result with
  | .error e => ⟨x.events, .error e⟩
  | .ok a => ⟨x.events ++ (f a).events, (f a).result⟩

instance : Monad (Traced ν ε) where
  pure := Traced.pure
  bind := Traced.bind

instance : LawfulMonad (Traced ν ε) := LawfulMonad.mk' _
  (by
    intro α x
    change Traced.bind x _ = x
    obtain ⟨events, result⟩ := x
    cases result <;> simp [Traced.bind, Traced.pure])
  (by
    intro α β a f
    simp [bind, pure, Traced.bind, Traced.pure])
  (by
    intro α β γ x f g
    change Traced.bind (Traced.bind x f) g = Traced.bind x fun a => Traced.bind (f a) g
    obtain ⟨events, result⟩ := x
    cases result with
    | error e => rfl
    | ok a => cases h : (f a).result <;> simp [Traced.bind, h])

/-- Tells an event. -/
def tell (event : ν) : Traced ν ε Unit := ⟨[event], .ok ()⟩

/-- Tells events in order. -/
def tellAll (events : List ν) : Traced ν ε Unit := ⟨events, .ok ()⟩

def fail (e : ε) : Traced ν ε α := ⟨[], .error e⟩

/-- A computation that tells nothing. -/
def ofExcept (x : Except ε α) : Traced ν ε α := ⟨[], x⟩

/-- The same computation with its failure seen as part of a larger type. -/
def mapError {ε' : Type} (f : ε → ε') (x : Traced ν ε α) : Traced ν ε' α :=
  ⟨x.events, x.result.mapError f⟩

/-- The same computation with its events seen as part of a larger type. -/
def mapEvents {ν' : Type} (f : ν → ν') (x : Traced ν ε α) : Traced ν' ε α :=
  ⟨x.events.map f, x.result⟩

@[simp] theorem result_pure (a : α) : (pure a : Traced ν ε α).result = .ok a := rfl

@[simp] theorem events_pure (a : α) : (pure a : Traced ν ε α).events = [] := rfl

@[simp] theorem result_bind (x : Traced ν ε α) (f : α → Traced ν ε β) :
    (x >>= f).result = x.result >>= fun a => (f a).result := by
  change (Traced.bind x f).result = _
  unfold Traced.bind
  split <;> rename_i h <;> rw [h] <;> rfl

theorem result_bind_ok {x : Traced ν ε α} {a : α} (h : x.result = .ok a)
    (f : α → Traced ν ε β) : (x >>= f).result = (f a).result := by
  rw [result_bind, h]
  rfl

theorem result_bind_error {x : Traced ν ε α} {e : ε} (h : x.result = .error e)
    (f : α → Traced ν ε β) : (x >>= f).result = .error e := by
  rw [result_bind, h]
  rfl

theorem result_bind_eq_ok_iff {x : Traced ν ε α} {f : α → Traced ν ε β} {b : β} :
    (x >>= f).result = .ok b ↔ ∃ a, x.result = .ok a ∧ (f a).result = .ok b := by
  cases h : x.result with
  | error e =>
    rw [result_bind_error h]
    simp
  | ok a =>
    rw [result_bind_ok h]
    simp

theorem events_bind_ok {x : Traced ν ε α} {a : α} (h : x.result = .ok a)
    (f : α → Traced ν ε β) : (x >>= f).events = x.events ++ (f a).events := by
  change (Traced.bind x f).events = _
  simp [Traced.bind, h]

theorem events_bind_error {x : Traced ν ε α} {e : ε} (h : x.result = .error e)
    (f : α → Traced ν ε β) : (x >>= f).events = x.events := by
  change (Traced.bind x f).events = _
  simp [Traced.bind, h]

@[simp] theorem result_tell (event : ν) : (tell event : Traced ν ε Unit).result = .ok () := rfl

@[simp] theorem events_tell (event : ν) : (tell event : Traced ν ε Unit).events = [event] := rfl

@[simp] theorem result_tellAll (events : List ν) :
    (tellAll events : Traced ν ε Unit).result = .ok () := rfl

@[simp] theorem result_fail (e : ε) : (fail e : Traced ν ε α).result = .error e := rfl

@[simp] theorem events_fail (e : ε) : (fail e : Traced ν ε α).events = [] := rfl

@[simp] theorem result_ofExcept (x : Except ε α) : (ofExcept x : Traced ν ε α).result = x := rfl

@[simp] theorem events_ofExcept (x : Except ε α) : (ofExcept x : Traced ν ε α).events = [] := rfl

theorem ofExcept_ok_bind (a : α) (f : α → Traced ν ε β) : ofExcept (.ok a) >>= f = f a := by
  change Traced.bind (ofExcept (.ok a)) f = f a
  simp [Traced.bind, ofExcept]

theorem ofExcept_error_bind (e : ε) (f : α → Traced ν ε β) :
    ofExcept (.error e) >>= f = fail e := rfl

@[simp] theorem result_mapError {ε' : Type} (f : ε → ε') (x : Traced ν ε α) :
    (x.mapError f).result = x.result.mapError f := rfl

@[simp] theorem result_mapEvents {ν' : Type} (f : ν → ν') (x : Traced ν ε α) :
    (x.mapEvents f).result = x.result := rfl

end Traced

end Remix
