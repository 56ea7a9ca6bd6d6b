import Mathlib.Data.List.Basic

/-!
# Checks in sequence

Fallible code as `Except`: when a chain of checks succeeds, and what a loop over
a list collects.
-/

namespace Remo

instance decidableEqExcept {ε α : Type*} [DecidableEq ε] [DecidableEq α] :
    DecidableEq (Except ε α)
  | .ok a, .ok b => decidable_of_iff (a = b) ⟨congrArg Except.ok, Except.ok.inj⟩
  | .error e, .error f => decidable_of_iff (e = f) ⟨congrArg Except.error, Except.error.inj⟩
  | .ok _, .error _ => .isFalse fun h => by cases h
  | .error _, .ok _ => .isFalse fun h => by cases h

variable {ε : Type*} {α β γ : Type}

/-! ## Chains of checks -/

/-- Two checks in a row succeed when both do. -/
theorem bind_ok {x : Except ε Unit} {f : Unit → Except ε β} {b : β} :
    (x >>= f) = .ok b ↔ x = .ok () ∧ f () = .ok b := by
  cases x with
  | error e => simp [bind, Except.bind]
  | ok a => simp [bind, Except.bind]

/-- A computation that returned ran its first part and went on with the value. -/
theorem exists_of_bind_ok {x : Except ε α} {f : α → Except ε β} {b : β}
    (h : (x >>= f) = .ok b) : ∃ a, x = .ok a ∧ f a = .ok b := by
  cases x with
  | error e => cases h
  | ok a => exact ⟨a, rfl, h⟩

/-- What a mapped computation returned came from a returned value. -/
theorem exists_of_map_ok {x : Except ε α} {f : α → β} {b : β} (h : x.map f = .ok b) :
    ∃ a, x = .ok a ∧ f a = b := by
  cases x with
  | error e => cases h
  | ok a => exact ⟨a, rfl, Except.ok.inj h⟩

/-- An early error is not taken and the rest succeeds. -/
theorem throw_or_ok {p : Prop} [Decidable p] {e : ε} {k : α → Except ε β}
    {x : Except ε β} {b : β} :
    (if p then (throw e >>= k) else x) = .ok b ↔ ¬p ∧ x = .ok b := by
  split
  · rename_i h
    simp [h, throw, throwThe, MonadExceptOf.throw, bind, Except.bind]
  · rename_i h
    simp [h]

/-- A last check succeeds when its error is not taken. -/
theorem throw_unless_ok {p : Prop} [Decidable p] {e : ε} :
    (if p then throw e else pure () : Except ε Unit) = .ok () ↔ ¬p := by
  split <;> simp_all [throw, throwThe, MonadExceptOf.throw, pure, Except.pure]

/-! ## Loops -/

/-- A loop of checks succeeds when all passes do. -/
theorem forM_ok {f : α → Except ε Unit} {l : List α} :
    l.forM f = .ok () ↔ ∀ a ∈ l, f a = .ok () := by
  induction l with
  | nil => simp [pure, Except.pure]
  | cons a l ih =>
    rw [List.forall_mem_cons, ← ih]
    exact bind_ok

/-- Passes that all return collect their results. -/
theorem mapM_returns {f : α → Except ε β} {l : List α} (h : ∀ a ∈ l, ∃ b, f a = .ok b) :
    ∃ bs, l.mapM f = .ok bs := by
  induction l with
  | nil => exact ⟨[], rfl⟩
  | cons a l ih =>
    obtain ⟨b, hb⟩ := h a List.mem_cons_self
    obtain ⟨bs, hbs⟩ := ih fun a' ha' => h a' (List.mem_cons_of_mem _ ha')
    refine ⟨b :: bs, ?_⟩
    rw [List.mapM_cons, hb]
    simp only [bind, Except.bind]
    rw [hbs]
    rfl

/-- What every pass keeps of its element, the collected list keeps. -/
theorem map_of_mapM_ok {f : α → Except ε β} {g : α → γ} {h : β → γ}
    (hkeep : ∀ a b, f a = .ok b → h b = g a) {l : List α} {bs : List β}
    (hok : l.mapM f = .ok bs) : bs.map h = l.map g := by
  induction l generalizing bs with
  | nil =>
    cases hok
    rfl
  | cons a l ih =>
    rw [List.mapM_cons] at hok
    obtain ⟨b, hb, hok⟩ := exists_of_bind_ok hok
    obtain ⟨bs', hbs, hok⟩ := exists_of_bind_ok hok
    cases hok
    rw [List.map_cons, List.map_cons, hkeep a b hb, ih hbs]

end Remo
