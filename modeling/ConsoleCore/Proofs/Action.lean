/-!
# Actions that can fault

A fault does not take back what was done before it. So an invariant of a whole run is one that
every action keeps, whether it comes to its end or faults. Two actions on different states can be
compared through a view from the one state to the other.
-/

namespace ConsoleCore

variable {ε σ τ α β : Type}

def endState : EStateM.Result ε σ α → σ
  | .ok _ s => s
  | .error _ s => s

def completes : EStateM.Result ε σ α → Bool
  | .ok _ _ => true
  | .error _ _ => false

theorem eq_ok_of_completes {r : EStateM.Result ε σ Unit} (h : completes r = true) :
    r = .ok () (endState r) := by
  cases r with
  | ok a s => rfl
  | error e s => cases h

def fault? : EStateM.Result ε σ α → Option ε
  | .ok _ _ => none
  | .error e _ => some e

theorem eq_error_of_fault? {r : EStateM.Result ε σ α} {e : ε} (h : fault? r = some e) :
    r = .error e (endState r) := by
  cases r with
  | ok a s => cases h
  | error e' s => cases h; rfl

/-! ## One step of a do-block -/

theorem bind_of_ok {x : EStateM ε σ α} {f : α → EStateM ε σ β} {s t : σ} {a : α}
    (h : x s = .ok a t) : (x >>= f) s = f a t := by
  simp only [bind, EStateM.bind, h]

theorem bind_of_error {x : EStateM ε σ α} {f : α → EStateM ε σ β} {s t : σ} {e : ε}
    (h : x s = .error e t) : (x >>= f) s = .error e t := by
  simp only [bind, EStateM.bind, h]

theorem bind_ok_iff {x : EStateM ε σ α} {f : α → EStateM ε σ β} {s u : σ} {b : β} :
    (x >>= f) s = .ok b u ↔ ∃ a t, x s = .ok a t ∧ f a t = .ok b u := by
  cases h : x s with
  | ok a t =>
    rw [bind_of_ok h]
    constructor
    · intro hf; exact ⟨a, t, rfl, hf⟩
    · rintro ⟨a, t, ⟨⟩, hf⟩; exact hf
  | error e t =>
    rw [bind_of_error h]
    simp

theorem bind_error_iff {x : EStateM ε σ α} {f : α → EStateM ε σ β} {s u : σ} {e : ε} :
    (x >>= f) s = .error e u ↔ x s = .error e u ∨ ∃ a t, x s = .ok a t ∧ f a t = .error e u := by
  cases h : x s with
  | ok a t =>
    rw [bind_of_ok h]
    constructor
    · intro hf; exact .inr ⟨a, t, rfl, hf⟩
    · rintro (⟨⟨⟩⟩ | ⟨a, t, ⟨⟩, hf⟩); exact hf
  | error e t =>
    rw [bind_of_error h]
    simp

theorem modify_apply (f : σ → σ) (s : σ) : (modify f : EStateM ε σ PUnit) s = .ok ⟨⟩ (f s) := rfl

theorem get_apply (s : σ) : (get : EStateM ε σ σ) s = .ok s s := rfl

/-! ## Invariants -/

/-- The action keeps the invariant, also if it faults. -/
def Keeps (I : σ → Prop) (x : EStateM ε σ α) : Prop := ∀ s, I s → I (endState (x s))

variable {I : σ → Prop}

theorem Keeps.pure (a : α) : Keeps I (Pure.pure a : EStateM ε σ α) := fun _ hs => hs

theorem Keeps.get : Keeps I (MonadState.get : EStateM ε σ σ) := fun _ hs => hs

theorem Keeps.modify {f : σ → σ} (h : ∀ s, I s → I (f s)) :
    Keeps I (modify f : EStateM ε σ PUnit) := h

theorem Keeps.after {x : EStateM ε σ α} {f : α → EStateM ε σ β} (hf : ∀ a, Keeps I (f a)) {s : σ}
    (hx : I (endState (x s))) : I (endState ((x >>= f) s)) := by
  cases h : x s with
  | ok a t =>
    rw [bind_of_ok h]
    rw [h] at hx
    exact hf a t hx
  | error e t =>
    rw [bind_of_error h]
    rwa [h] at hx

theorem Keeps.bind {x : EStateM ε σ α} {f : α → EStateM ε σ β} (hx : Keeps I x)
    (hf : ∀ a, Keeps I (f a)) : Keeps I (x >>= f) := fun s hs => Keeps.after hf (hx s hs)

theorem Keeps.of_ok {x : EStateM ε σ α} (hx : Keeps I x) {s t : σ} {a : α} (hs : I s)
    (h : x s = .ok a t) : I t := by
  have ht := hx s hs
  rwa [h] at ht

theorem Keeps.of_error {x : EStateM ε σ α} (hx : Keeps I x) {s t : σ} {e : ε} (hs : I s)
    (h : x s = .error e t) : I t := by
  have ht := hx s hs
  rwa [h] at ht

/-! ## Views -/

def viewed (view : σ → τ) : EStateM.Result ε σ α → EStateM.Result ε τ α
  | .ok a s => .ok a (view s)
  | .error e s => .error e (view s)

@[simp] theorem endState_viewed (view : σ → τ) (r : EStateM.Result ε σ α) :
    endState (viewed view r) = view (endState r) := by
  cases r <;> rfl

/-- The second action does what the first one does, seen through `view`. -/
def SeenThrough (view : σ → τ) (x : EStateM ε σ α) (y : EStateM ε τ α) : Prop :=
  ∀ s, y (view s) = viewed view (x s)

namespace SeenThrough

variable {view : σ → τ}

theorem pure (a : α) :
    SeenThrough view (Pure.pure a : EStateM ε σ α) (Pure.pure a) := fun _ => rfl

theorem modify {f : σ → σ} {g : τ → τ} (h : ∀ s, g (view s) = view (f s)) :
    SeenThrough view (modify f : EStateM ε σ PUnit) (modify g) := by
  intro s
  rw [modify_apply, modify_apply, h]
  rfl

theorem bind {x : EStateM ε σ α} {y : EStateM ε τ α} {f : α → EStateM ε σ β}
    {g : α → EStateM ε τ β} (hx : SeenThrough view x y) (hf : ∀ a, SeenThrough view (f a) (g a)) :
    SeenThrough view (x >>= f) (y >>= g) := by
  intro s
  have hy := hx s
  cases h : x s with
  | ok a t =>
    rw [h] at hy
    rw [bind_of_ok h, bind_of_ok hy]
    exact hf a t
  | error e t =>
    rw [h] at hy
    rw [bind_of_error h, bind_of_error hy]
    rfl

/-- What an action reads of its state may look different through the view. -/
theorem get_bind {f : σ → EStateM ε σ β} {g : τ → EStateM ε τ β}
    (h : ∀ s, SeenThrough view (f s) (g (view s))) :
    SeenThrough view (MonadState.get >>= f) (MonadState.get >>= g) := by
  intro s
  rw [bind_of_ok (get_apply s), bind_of_ok (get_apply (view s))]
  exact h s s

end SeenThrough

end ConsoleCore
