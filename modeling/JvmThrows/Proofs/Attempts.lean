/-!
# Computing with a state

What a computation with a state, which may also fail or never end, comes to if its first step is
known.
-/

namespace JvmThrows

variable {ε σ α β : Type} {s t : σ} {a : α} {b : β} {e : ε}

theorem bind_eq {x : StateM σ α} (h : x s = (a, t)) (f : α → StateM σ β) : (x >>= f) s = f a t := by
  show f (x s).1 (x s).2 = f a t
  rw [h]

section Failing

variable {x : ExceptT ε (StateM σ) α} {f : α → ExceptT ε (StateM σ) β}
  {g : ε → ExceptT ε (StateM σ) α}

theorem bind_ok (h : x s = (.ok a, t)) (f : α → ExceptT ε (StateM σ) β) : (x >>= f) s = f a t := by
  show (ExceptT.bindCont f (x s).1) (x s).2 = f a t
  rw [h]
  rfl

theorem bind_error (h : x s = (.error e, t)) (f : α → ExceptT ε (StateM σ) β) :
    (x >>= f) s = (.error e, t) := by
  show (ExceptT.bindCont f (x s).1) (x s).2 = _
  rw [h]
  rfl

theorem lift_ok {y : StateM σ α} (h : y s = (a, t)) :
    (liftM y : ExceptT ε (StateM σ) α) s = (.ok a, t) := by
  show (y >>= fun a => pure (.ok a) : StateM σ (Except ε α)) s = _
  rw [bind_eq h]
  rfl

theorem bind_eq_ok :
    (x >>= f) s = (.ok b, t) ↔ ∃ a u, x s = (.ok a, u) ∧ f a u = (.ok b, t) := by
  rcases hx : x s with ⟨e | a, u⟩
  · rw [bind_error hx]
    exact ⟨nofun, nofun⟩
  · rw [bind_ok hx]
    refine ⟨fun h => ⟨a, u, rfl, h⟩, ?_⟩
    rintro ⟨a, u, ⟨⟩, h⟩
    exact h

theorem bind_eq_error :
    (x >>= f) s = (.error e, t) ↔
      x s = (.error e, t) ∨ ∃ a u, x s = (.ok a, u) ∧ f a u = (.error e, t) := by
  rcases hx : x s with ⟨e' | a, u⟩
  · rw [bind_error hx]
    refine ⟨fun h => .inl ?_, ?_⟩
    · cases h
      rfl
    · -- The first part has failed already.
      rintro (⟨⟨⟩⟩ | ⟨_, _, ⟨⟩, -⟩)
      rfl
  · rw [bind_ok hx]
    refine ⟨fun h => .inr ⟨a, u, rfl, h⟩, ?_⟩
    rintro (⟨⟨⟩⟩ | ⟨_, _, ⟨⟩, h⟩)
    exact h

theorem tryCatch_ok (h : x s = (.ok a, t)) (g : ε → ExceptT ε (StateM σ) α) :
    tryCatch x g s = (.ok a, t) := by
  show (match (x s).1 with | .ok a => pure (.ok a) | .error e => g e : StateM σ _) (x s).2 = _
  rw [h]
  rfl

theorem tryCatch_error (h : x s = (.error e, t)) (g : ε → ExceptT ε (StateM σ) α) :
    tryCatch x g s = g e t := by
  show (match (x s).1 with | .ok a => pure (.ok a) | .error e => g e : StateM σ _) (x s).2 = _
  rw [h]

theorem tryCatch_eq_ok :
    tryCatch x g s = (.ok a, t) ↔
      x s = (.ok a, t) ∨ ∃ e u, x s = (.error e, u) ∧ g e u = (.ok a, t) := by
  rcases hx : x s with ⟨e | a, u⟩
  · rw [tryCatch_error hx]
    refine ⟨fun h => .inr ⟨e, u, rfl, h⟩, ?_⟩
    rintro (⟨⟨⟩⟩ | ⟨e, u, ⟨⟩, h⟩)
    exact h
  · rw [tryCatch_ok hx]
    refine ⟨.inl, ?_⟩
    rintro (h | ⟨e, u, ⟨⟩, -⟩)
    exact h

theorem tryCatch_eq_error :
    tryCatch x g s = (.error e, t) ↔ ∃ e' u, x s = (.error e', u) ∧ g e' u = (.error e, t) := by
  rcases hx : x s with ⟨e' | a, u⟩
  · rw [tryCatch_error hx]
    refine ⟨fun h => ⟨e', u, rfl, h⟩, ?_⟩
    rintro ⟨_, _, ⟨⟩, h⟩
    exact h
  · rw [tryCatch_ok hx]
    exact ⟨nofun, nofun⟩

end Failing

section Endless

variable {x : StateT σ Option α} {f : α → Option β} {l : List α}

theorem bind_some (h : x s = some (a, t)) (f : α → StateT σ Option β) : (x >>= f) s = f a t := by
  show (x s).bind (fun p => f p.1 p.2) = f a t
  rw [h]
  rfl

theorem bind_none (h : x s = none) (f : α → StateT σ Option β) : (x >>= f) s = none := by
  show (x s).bind (fun p => f p.1 p.2) = none
  rw [h]
  rfl

theorem bind_eq_some {f : α → StateT σ Option β} :
    (x >>= f) s = some (b, t) ↔ ∃ a u, x s = some (a, u) ∧ f a u = some (b, t) := by
  cases hx : x s with
  | none => simp [bind_none hx]
  | some p =>
    obtain ⟨a, u⟩ := p
    rw [bind_some hx]
    refine ⟨fun h => ⟨a, u, rfl, h⟩, ?_⟩
    rintro ⟨a, u, ⟨⟩, h⟩
    exact h

/-- A list is gone through to its end if each of its elements is. -/
theorem mapM_eq_some_iff {results : List β} :
    l.mapM f = some results ↔ l.map f = results.map some := by
  induction l generalizing results with
  | nil => cases results <;> simp
  | cons a l ih =>
    rw [List.mapM_cons, List.map_cons]
    cases ha : f a with
    | none => cases results <;> simp
    | some b =>
      -- One result for each element.
      cases results with
      | nil => cases l.mapM f <;> simp
      | cons b' results =>
        simp only [Option.bind_eq_bind, Option.bind_some, Option.bind_eq_some_iff, ih,
          Option.pure_def, Option.some.injEq, List.map_cons, List.cons.injEq]
        constructor
        · rintro ⟨rest, hrest, rfl, rfl⟩
          exact ⟨rfl, hrest⟩
        · rintro ⟨rfl, hrest⟩
          exact ⟨results, hrest, rfl, rfl⟩

theorem isSome_mapM_iff : (l.mapM f).isSome = true ↔ ∀ a ∈ l, (f a).isSome = true := by
  induction l with
  | nil => simp
  | cons a l ih =>
    rw [List.mapM_cons, List.forall_mem_cons, ← ih]
    cases f a <;> cases l.mapM f <;> simp

end Endless

end JvmThrows
