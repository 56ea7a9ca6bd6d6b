import Mathlib.Data.List.Basic
import Mathlib.Data.List.Forall2

/-!
# Runs of deterministic machines

A machine answers every event with a reply and moves to a new state. Safety
properties of whole runs follow from one step by the rules of this file:
`run_invariant` for an invariant every step preserves, `run_invariant_along`
when only the steps that meet a condition do, and `replies_related` for two
machines that are kept in a relation. `trace` records what each step saw, so a
property of a run can also count steps.
-/

namespace Remo

/-- A deterministic machine: every event gets a reply and moves the state. -/
structure Machine (σ ε ρ : Type*) where
  step : σ → ε → ρ × σ

/-- What one step of a run saw. -/
structure Machine.Step (σ ε ρ : Type*) where
  before : σ
  event : ε
  reply : ρ
  after : σ

namespace Machine

variable {σ τ ε ρ ω : Type*}

/-- The state after all events. -/
def run (m : Machine σ ε ρ) (s : σ) : List ε → σ
  | [] => s
  | e :: es => m.run (m.step s e).2 es

/-- The steps of a run in order. -/
def trace (m : Machine σ ε ρ) (s : σ) : List ε → List (Step σ ε ρ)
  | [] => []
  | e :: es => ⟨s, e, (m.step s e).1, (m.step s e).2⟩ :: m.trace (m.step s e).2 es

/-- The replies of a run in order. -/
def replies (m : Machine σ ε ρ) (s : σ) : List ε → List ρ
  | [] => []
  | e :: es => (m.step s e).1 :: m.replies (m.step s e).2 es

/-- Every step of the run meets `ok`, a condition on the state before the step
    and on its event. -/
def Along (m : Machine σ ε ρ) (ok : σ → ε → Prop) (s : σ) : List ε → Prop
  | [] => True
  | e :: es => ok s e ∧ m.Along ok (m.step s e).2 es

instance (m : Machine σ ε ρ) (ok : σ → ε → Prop) [∀ s e, Decidable (ok s e)] :
    ∀ (s : σ) (es : List ε), Decidable (m.Along ok s es)
  | _, [] => .isTrue trivial
  | s, e :: es =>
    have := instDecidableAlong m ok (m.step s e).2 es
    inferInstanceAs (Decidable (ok s e ∧ m.Along ok (m.step s e).2 es))

theorem run_append (m : Machine σ ε ρ) (s : σ) (es fs : List ε) :
    m.run s (es ++ fs) = m.run (m.run s es) fs := by
  induction es generalizing s with
  | nil => rfl
  | cons e es ih => exact ih (m.step s e).2

theorem trace_append (m : Machine σ ε ρ) (s : σ) (es fs : List ε) :
    m.trace s (es ++ fs) = m.trace s es ++ m.trace (m.run s es) fs := by
  induction es generalizing s with
  | nil => rfl
  | cons e es ih => simp only [List.cons_append, trace, ih, run]

/-- The last event of a run has its step. -/
theorem last_mem_trace (m : Machine σ ε ρ) (s : σ) (es : List ε) (e : ε) :
    ⟨m.run s es, e, (m.step (m.run s es) e).1, m.run s (es ++ [e])⟩ ∈ m.trace s (es ++ [e]) := by
  rw [trace_append, run_append]
  exact List.mem_append_right _ List.mem_cons_self

/-- A trace splits where the events do. -/
theorem trace_eq_append (m : Machine σ ε ρ) {s : σ} {es : List ε} {xs ys : List (Step σ ε ρ)}
    (h : m.trace s es = xs ++ ys) :
    ∃ fs gs, es = fs ++ gs ∧ xs = m.trace s fs ∧ ys = m.trace (m.run s fs) gs := by
  induction xs generalizing s es with
  | nil => exact ⟨[], es, rfl, rfl, h.symm⟩
  | cons x xs ih =>
    cases es with
    | nil => cases h
    | cons e es =>
      obtain ⟨hx, hrest⟩ := List.cons.inj h
      obtain ⟨fs, gs, hes, hxs, hys⟩ := ih hrest
      exact ⟨e :: fs, gs, by rw [hes]; rfl, by rw [trace, hx, hxs], hys⟩

theorem trace_eq_cons (m : Machine σ ε ρ) {s : σ} {es : List ε} {x : Step σ ε ρ}
    {xs : List (Step σ ε ρ)} (h : m.trace s es = x :: xs) :
    ∃ e fs, es = e :: fs ∧ x = ⟨s, e, (m.step s e).1, (m.step s e).2⟩ ∧
      xs = m.trace (m.step s e).2 fs := by
  cases es with
  | nil => cases h
  | cons e fs =>
    obtain ⟨hx, hrest⟩ := List.cons.inj h
    exact ⟨e, fs, rfl, hx.symm, hrest.symm⟩

/-- Every event of a run has its step. -/
theorem exists_mem_trace (m : Machine σ ε ρ) (s : σ) {es : List ε} {e : ε} (h : e ∈ es) :
    ∃ t ∈ m.trace s es, t.event = e := by
  induction es generalizing s with
  | nil => exact absurd h List.not_mem_nil
  | cons e' es ih =>
    cases List.mem_cons.mp h with
    | inl heq => exact ⟨_, List.mem_cons_self, heq.symm⟩
    | inr hmem =>
      obtain ⟨t, ht, hevent⟩ := ih (m.step s e').2 hmem
      exact ⟨t, List.mem_cons_of_mem _ ht, hevent⟩

theorem along_append (m : Machine σ ε ρ) (ok : σ → ε → Prop) (s : σ) (es fs : List ε) :
    m.Along ok s (es ++ fs) ↔ m.Along ok s es ∧ m.Along ok (m.run s es) fs := by
  induction es generalizing s with
  | nil => simp [Along, run]
  | cons e es ih => simp only [List.cons_append, Along, ih, run, and_assoc]

/-- A condition on events that all events meet is met along the run. -/
theorem along_of_forall (m : Machine σ ε ρ) {P : ε → Prop} (s : σ) {es : List ε}
    (h : ∀ e ∈ es, P e) : m.Along (fun _ e => P e) s es := by
  induction es generalizing s with
  | nil => trivial
  | cons e es ih =>
    exact ⟨h e List.mem_cons_self, ih _ fun f hf => h f (List.mem_cons_of_mem _ hf)⟩

theorem along_iff_trace (m : Machine σ ε ρ) (ok : σ → ε → Prop) (s : σ) (es : List ε) :
    m.Along ok s es ↔ ∀ t ∈ m.trace s es, ok t.before t.event := by
  induction es generalizing s with
  | nil => simp [Along, trace]
  | cons e es ih => simp only [Along, trace, List.forall_mem_cons, ih]

theorem Along.and {m : Machine σ ε ρ} {p q : σ → ε → Prop} {s : σ} {es : List ε}
    (hp : m.Along p s es) (hq : m.Along q s es) : m.Along (fun s e => p s e ∧ q s e) s es := by
  induction es generalizing s with
  | nil => trivial
  | cons e es ih => exact ⟨⟨hp.1, hq.1⟩, ih hp.2 hq.2⟩

/-- An invariant that every step preserves holds after every run. -/
theorem run_invariant (m : Machine σ ε ρ) (Inv : σ → Prop)
    (hstep : ∀ s e, Inv s → Inv (m.step s e).2) {s : σ} (h0 : Inv s) (es : List ε) :
    Inv (m.run s es) := by
  induction es generalizing s with
  | nil => exact h0
  | cons e es ih => exact ih (hstep s e h0)

/-- An invariant that the steps meeting `ok` preserve holds after every run all
    of whose steps meet `ok`. -/
theorem run_invariant_along (m : Machine σ ε ρ) (Inv : σ → Prop) (ok : σ → ε → Prop)
    (hstep : ∀ s e, Inv s → ok s e → Inv (m.step s e).2) {s : σ} (h0 : Inv s)
    (es : List ε) (hok : m.Along ok s es) : Inv (m.run s es) := by
  induction es generalizing s with
  | nil => exact h0
  | cons e es ih => exact ih (hstep s e h0 hok.1) hok.2

/-- If from a good state exactly the steps meeting `ok` lead to a good state, then
    exactly the runs all of whose steps meet `ok` stay in good states. -/
theorem along_iff (m : Machine σ ε ρ) (Inv Good : σ → Prop) (ok : σ → ε → Prop)
    (hstep : ∀ s e, Inv s → Inv (m.step s e).2)
    (hiff : ∀ s e, Inv s → Good s → (ok s e ↔ Good (m.step s e).2))
    {s : σ} (h0 : Inv s) (hgood : Good s) (es : List ε) :
    m.Along ok s es ↔ ∀ pre, pre <+: es → Good (m.run s pre) := by
  induction es generalizing s with
  | nil =>
    refine ⟨fun _ pre hpre => ?_, fun _ => trivial⟩
    rw [List.prefix_nil.mp hpre]
    exact hgood
  | cons e es ih =>
    constructor
    · rintro ⟨hok, hrest⟩ pre hpre
      cases pre with
      | nil => exact hgood
      | cons f fs =>
        obtain ⟨rfl, hfs⟩ := List.cons_prefix_cons.mp hpre
        have hnext := (hiff s f h0 hgood).mp hok
        exact (ih (hstep s f h0) hnext).mp hrest fs hfs
    · intro hall
      have hnext : Good (m.step s e).2 := hall [e] (List.cons_prefix_cons.mpr ⟨rfl, List.nil_prefix⟩)
      refine ⟨(hiff s e h0 hgood).mpr hnext, (ih (hstep s e h0) hnext).mpr fun pre hpre => ?_⟩
      exact hall (e :: pre) (List.cons_prefix_cons.mpr ⟨rfl, hpre⟩)

/-- Every step of a run starts in the state its prefix leads to. -/
theorem mem_trace (m : Machine σ ε ρ) {s : σ} {es : List ε} {t : Step σ ε ρ}
    (ht : t ∈ m.trace s es) :
    ∃ pre post, es = pre ++ t.event :: post ∧ t.before = m.run s pre ∧
      t.reply = (m.step t.before t.event).1 ∧ t.after = (m.step t.before t.event).2 := by
  induction es generalizing s with
  | nil => exact absurd ht List.not_mem_nil
  | cons e es ih =>
    rcases List.mem_cons.mp ht with rfl | ht'
    · exact ⟨[], es, rfl, rfl, rfl, rfl⟩
    · obtain ⟨pre, post, hes, hbefore, hreply, hafter⟩ := ih ht'
      exact ⟨e :: pre, post, by rw [hes]; rfl, hbefore, hreply, hafter⟩

/-- What holds of every step from a state with the invariant holds of every step
    of a run. -/
theorem trace_forall (m : Machine σ ε ρ) (Inv : σ → Prop) (ok : σ → ε → Prop)
    (P : Step σ ε ρ → Prop)
    (hstep : ∀ s e, Inv s → ok s e → Inv (m.step s e).2)
    (hP : ∀ s e, Inv s → ok s e → P ⟨s, e, (m.step s e).1, (m.step s e).2⟩)
    {s : σ} (h0 : Inv s) (es : List ε) (hok : m.Along ok s es) :
    ∀ t ∈ m.trace s es, P t := by
  induction es generalizing s with
  | nil => exact fun t ht => absurd ht List.not_mem_nil
  | cons e es ih =>
    intro t ht
    rcases List.mem_cons.mp ht with rfl | ht'
    · exact hP s e h0 hok.1
    · exact ih (hstep s e h0 hok.1) hok.2 t ht'

/-- A relation between the number of counted steps and the state that every step preserves. -/
theorem countP_trace_invariant (m : Machine σ ε ρ) (p : Step σ ε ρ → Bool) (J : Nat → σ → Prop)
    (ok : σ → ε → Prop)
    (hstep : ∀ n s e, J n s → ok s e →
      J (n + if p ⟨s, e, (m.step s e).1, (m.step s e).2⟩ then 1 else 0) (m.step s e).2)
    {n : Nat} {s : σ} (h0 : J n s) (es : List ε) (hok : m.Along ok s es) :
    J (n + (m.trace s es).countP p) (m.run s es) := by
  induction es generalizing s n with
  | nil => exact h0
  | cons e es ih =>
    have hnext := ih (hstep n s e h0 hok.1) hok.2
    rw [trace, List.countP_cons]
    rw [Nat.add_assoc] at hnext
    rw [Nat.add_comm (List.countP p _)]
    exact hnext

/-- A preorder that every step of a run climbs orders the states of its steps. -/
theorem trace_pairwise (m : Machine σ ε ρ) (R : σ → σ → Prop) (ok : σ → ε → Prop)
    (hrefl : ∀ s, R s s) (htrans : ∀ s t u, R s t → R t u → R s u)
    (hstep : ∀ s e, ok s e → R s (m.step s e).2) {s : σ} (es : List ε) (hok : m.Along ok s es) :
    (∀ t ∈ m.trace s es, R s t.before) ∧
      (m.trace s es).Pairwise fun t u => R t.after u.before := by
  induction es generalizing s with
  | nil =>
    constructor
    · intro t ht
      exact absurd ht List.not_mem_nil
    · exact List.Pairwise.nil
  | cons e es ih =>
    obtain ⟨hbefore, hpairs⟩ := ih hok.2
    constructor
    · intro t ht
      rcases List.mem_cons.mp ht with rfl | ht'
      · exact hrefl s
      · exact htrans _ _ _ (hstep s e hok.1) (hbefore t ht')
    · exact List.pairwise_cons.mpr ⟨hbefore, hpairs⟩

/-- Two machines kept in the relation `R` by the steps meeting `ok` give replies
    related by `Q` and end in related states. -/
theorem replies_related (m : Machine σ ε ρ) (n : Machine τ ε ω) (R : σ → τ → Prop)
    (Q : ρ → ω → Prop) (ok : σ → ε → Prop)
    (hstep : ∀ s t e, R s t → ok s e →
      Q (m.step s e).1 (n.step t e).1 ∧ R (m.step s e).2 (n.step t e).2)
    {s : σ} {t : τ} (h0 : R s t) (es : List ε) (hok : m.Along ok s es) :
    List.Forall₂ Q (m.replies s es) (n.replies t es) ∧ R (m.run s es) (n.run t es) := by
  induction es generalizing s t with
  | nil => exact ⟨.nil, h0⟩
  | cons e es ih =>
    obtain ⟨hq, hr⟩ := hstep s t e h0 hok.1
    obtain ⟨hqs, hrs⟩ := ih hr hok.2
    exact ⟨.cons hq hqs, hrs⟩

/-- Leaving out the events another party causes: when they do not move a state out
    of the relation to the run without them, and the own events give the same reply
    on related states, the own events of the run get the replies of the run
    without the others. -/
theorem replies_filter (m : Machine σ ε ρ) (own : ε → Bool) (Inv : σ → Prop)
    (R : σ → σ → Prop) (ok : σ → ε → Prop)
    (hstep : ∀ s e, Inv s → Inv (m.step s e).2)
    (hown : ∀ s t e, Inv s → ok s e → own e = true → R s t →
      (m.step t e).1 = (m.step s e).1 ∧ R (m.step s e).2 (m.step t e).2)
    (hother : ∀ s t e, Inv s → ok s e → own e = false → R s t → R (m.step s e).2 t)
    {s t : σ} (h0 : Inv s) (hR : R s t) (es : List ε) (hok : m.Along ok s es) :
    m.replies t (es.filter own) =
      ((m.trace s es).filter fun x => own x.event).map Step.reply := by
  induction es generalizing s t with
  | nil => rfl
  | cons e es ih =>
    cases he : own e with
    | true =>
      obtain ⟨hreply, hnext⟩ := hown s t e h0 hok.1 he hR
      have hrest := ih (hstep s e h0) hnext hok.2
      rw [List.filter_cons_of_pos he, replies, hreply, hrest]
      simp [trace, he]
    | false =>
      have hrest := ih (hstep s e h0) (hother s t e h0 hok.1 he hR) hok.2
      rw [List.filter_cons_of_neg (by simp [he]), hrest]
      simp [trace, he]

end Machine

end Remo
