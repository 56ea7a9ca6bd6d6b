import Mathlib.Data.List.Forall2

/-!
# Methods on a mutable receiver

A method that takes its receiver by mutable reference returns a value or fails;
what it wrote to the receiver stays written in both cases. `bind` is the `?`
operator and `forEach` a loop whose body may leave it early.
-/

namespace List

theorem Forall₂.exists_of_mem_left {α β : Type*} {R : α → β → Prop} {as : List α} {bs : List β}
    (h : Forall₂ R as bs) {a : α} (ha : a ∈ as) : ∃ b ∈ bs, R a b := by
  induction h with
  | nil => exact absurd ha not_mem_nil
  | cons hr _ ih =>
    rcases mem_cons.mp ha with rfl | ha'
    · exact ⟨_, mem_cons_self, hr⟩
    · obtain ⟨b, hb, hab⟩ := ih ha'
      exact ⟨b, mem_cons_of_mem _ hb, hab⟩

theorem Forall₂.exists_of_mem_right {α β : Type*} {R : α → β → Prop} {as : List α} {bs : List β}
    (h : Forall₂ R as bs) {b : β} (hb : b ∈ bs) : ∃ a ∈ as, R a b :=
  h.flip.exists_of_mem_left hb

end List

namespace Remo

/-- A method on a mutable receiver `σ`. The receiver it leaves is kept whether
    the method returns or fails. -/
abbrev Method (ε : Type u) (σ : Type v) (α : Type w) := σ → Except ε α × σ

namespace Method

/-- Continue with `f` when `x` returned; a failure of `x` is the failure of the whole. -/
def bind (x : Method ε σ α) (f : α → Method ε σ β) : Method ε σ β := fun s =>
  match x s with
  | (.error e, s') => (.error e, s')
  | (.ok a, s') => f a s'

/-- Change what the method returns, not what it writes. -/
def map (f : α → β) (x : Method ε σ α) : Method ε σ β := fun s => ((x s).1.map f, (x s).2)

/-- Run `body` for the elements of a list in order, collecting what it returns;
    the first failure ends the loop. -/
def forEach (body : ι → Method ε σ β) : List ι → Method ε σ (List β)
  | [] => fun s => (.ok [], s)
  | i :: is => bind (body i) fun b => bind (forEach body is) fun bs s => (.ok (b :: bs), s)

@[simp] theorem map_fst (f : α → β) (x : Method ε σ α) (s : σ) :
    (map f x s).1 = (x s).1.map f := rfl

@[simp] theorem map_snd (f : α → β) (x : Method ε σ α) (s : σ) : (map f x s).2 = (x s).2 := rfl

/-- A mapped method that returned comes from one that returned. -/
theorem map_ok {f : α → β} {x : Method ε σ α} {s : σ} {b : β} (h : (map f x s).1 = .ok b) :
    ∃ a, (x s).1 = .ok a ∧ f a = b := by
  unfold map at h
  cases hx : (x s).1 with
  | error e => rw [hx] at h; cases h
  | ok a => rw [hx] at h; cases h; exact ⟨a, rfl, rfl⟩

/-- A mapped method that failed comes from one that failed. -/
theorem map_error {f : α → β} {x : Method ε σ α} {s : σ} {e : ε}
    (h : (map f x s).1 = .error e) : (x s).1 = .error e := by
  unfold map at h
  cases hx : (x s).1 with
  | error e' => rw [hx] at h; cases h; rfl
  | ok a => rw [hx] at h; cases h

theorem map_map (x : Method ε σ α) (f : α → β) (g : β → γ) :
    map g (map f x) = map (fun a => g (f a)) x := by
  funext s
  unfold map
  cases (x s).1 <;> rfl

theorem bind_map (x : Method ε σ α) (f : α → β) (k : β → Method ε σ γ) :
    bind (map f x) k = bind x fun a => k (f a) := by
  funext s
  unfold bind map
  rcases x s with ⟨_ | a, s'⟩ <;> rfl

/-- A sequence that returned comes from two methods that returned. -/
theorem bind_eq_ok {x : Method ε σ α} {f : α → Method ε σ β} {s s'' : σ} {b : β}
    (h : bind x f s = (.ok b, s'')) : ∃ a s', x s = (.ok a, s') ∧ f a s' = (.ok b, s'') := by
  unfold bind at h
  split at h
  next => cases h
  next a s' hx => exact ⟨a, s', hx, h⟩

/-- A continuation that only returns adds nothing. -/
theorem bind_ok (x : Method ε σ α) : (bind x fun a s => (.ok a, s)) = x := by
  funext s
  unfold bind
  split
  next h => exact h.symm
  next h => exact h.symm

/-- The receiver after `bind`: `f` runs on what `x` left, unless `x` failed. -/
theorem bind_snd (P : σ → Prop) (x : Method ε σ α) (f : α → Method ε σ β) (s : σ)
    (hx : P (x s).2) (hf : ∀ a s', x s = (.ok a, s') → P (f a s').2) :
    P (bind x f s).2 := by
  unfold bind
  cases hr : x s with
  | mk r s' =>
    cases r with
    | error e => simpa [hr] using hx
    | ok a => exact hf a s' hr

/-- A continuation that writes nothing leaves what was there before it. -/
theorem bind_snd_of_read (x : Method ε σ α) {f : α → Method ε σ β} (hf : ∀ a s, (f a s).2 = s)
    (s : σ) : (bind x f s).2 = (x s).2 := by
  unfold bind
  rcases x s with ⟨_ | a, s'⟩
  · rfl
  · exact hf a s'

/-- A property that every pass of the body preserves is preserved by the loop. -/
theorem forEach_invariant (P : σ → Prop) (body : ι → Method ε σ β) (is : List ι)
    (hbody : ∀ i ∈ is, ∀ s, P s → P (body i s).2) (s : σ) (hs : P s) :
    P (forEach body is s).2 := by
  induction is generalizing s with
  | nil => exact hs
  | cons i is ih =>
    have hfirst := hbody i List.mem_cons_self s hs
    refine bind_snd P _ _ s hfirst fun b s' hb => ?_
    have hs' : P s' := by simpa [hb] using hfirst
    have hrest := ih (fun j hj => hbody j (List.mem_cons_of_mem _ hj)) s' hs'
    exact bind_snd P _ _ s' hrest fun bs s'' hbs => by simpa [hbs] using hrest

/-- What a loop collects of its first pass, then of the rest. -/
theorem map_filterMap_forEach_cons (g : β → Option δ) (body : ι → Method ε σ β) (i : ι)
    (is : List ι) (s : σ) : map (List.filterMap g) (forEach body (i :: is)) s =
      bind (body i) (fun b => map ((g b).toList ++ ·) (map (List.filterMap g)
        (forEach body is))) s := by
  simp only [map, forEach, bind]
  rcases body i s with ⟨_ | b, s'⟩
  · rfl
  · dsimp only
    rcases forEach body is s' with ⟨_ | bs, s''⟩
    · rfl
    · cases hg : g b <;> simp [Except.map, hg]

/-! ## Failures of a kind -/

/-- The result is not a failure of the kind `bad`. -/
def Avoids (bad : ε → Prop) (r : Except ε α) : Prop := ∀ e, r = .error e → ¬bad e

theorem avoids_ok (bad : ε → Prop) (a : α) : Avoids bad (.ok a) := nofun

theorem avoids_error {bad : ε → Prop} {e : ε} (h : ¬bad e) :
    Avoids bad (.error e : Except ε α) := by
  intro e' he
  cases he
  exact h

theorem avoids_map {bad : ε → Prop} {f : α → β} {x : Method ε σ α} {s : σ}
    (h : Avoids bad (x s).1) : Avoids bad (map f x s).1 := by
  intro e he
  refine h e ?_
  unfold map at he
  cases hx : (x s).1 with
  | error e' => rw [hx] at he; cases he; rfl
  | ok a => rw [hx] at he; cases he

theorem avoids_bind {bad : ε → Prop} {x : Method ε σ α} {f : α → Method ε σ β} {s : σ}
    (hx : Avoids bad (x s).1) (hf : ∀ a s', x s = (.ok a, s') → Avoids bad (f a s').1) :
    Avoids bad (bind x f s).1 := by
  unfold bind
  cases hr : x s with
  | mk r s' =>
    cases r with
    | error e => exact avoids_error (hx e (by rw [hr]))
    | ok a => exact hf a s' hr

/-! ## Failures that leave the receiver alone -/

/-- A failure of the method at `s` leaves `s` as it is. -/
def KeepsOnError (x : Method ε σ α) (s : σ) : Prop := ∀ e, (x s).1 = .error e → (x s).2 = s

/-- A method that fails keeps its receiver exactly when it wrote nothing. -/
theorem keepsOnError_of_error {x : Method ε σ α} {s s' : σ} {e : ε} (h : x s = (.error e, s')) :
    KeepsOnError x s ↔ s' = s := by
  rw [KeepsOnError, h]
  exact ⟨fun hk => hk e rfl, fun hs _ _ => hs⟩

/-! ## Loops over distinct indices

`view s i` is what a state shows at the index `i`. A loop visits each index once
and the pass for `i` changes what is shown at `i` only, so a pass sees at its own
index what the loop started with, and what it leaves there stays. -/

section Distinct

variable (view : σ → ι → γ) (body : ι → Method ε σ β)

/-- What the loop does not visit stays as it is. -/
theorem forEach_frame (hframe : ∀ i j s, j ≠ i → view (body i s).2 j = view s j)
    (is : List ι) (s : σ) (j : ι) (hj : j ∉ is) : view (forEach body is s).2 j = view s j :=
  forEach_invariant (fun s' => view s' j = view s j) body is
    (fun i hi s' hs' => (hframe i j s' fun h => hj (h ▸ hi)).trans hs') s rfl

omit view in
/-- A loop stops at its first pass, or goes on from what that pass left. -/
theorem forEach_cons_snd (i : ι) (is : List ι) (s : σ) :
    (forEach body (i :: is) s).2 = (body i s).2 ∨
      (forEach body (i :: is) s).2 = (forEach body is (body i s).2).2 := by
  simp only [forEach, bind]
  rcases body i s with ⟨_ | b, s'⟩
  · exact .inl rfl
  · right
    rcases hrest : forEach body is s' with ⟨_ | bs, s''⟩ <;> simp only [hrest]

/-- What the first pass leaves at its index stays. -/
theorem forEach_head (hframe : ∀ i j s, j ≠ i → view (body i s).2 j = view s j) {i : ι}
    {is : List ι} (hi : i ∉ is) (s : σ) :
    view (forEach body (i :: is) s).2 i = view (body i s).2 i := by
  rcases forEach_cons_snd body i is s with hloop | hloop
  · rw [hloop]
  · rw [hloop, forEach_frame view body hframe is _ i hi]

/-- What the loop leaves at an index: what was there before, or what the pass for
    the index made of it. `K` holds whatever the passes leave alone. -/
theorem forEach_at (hframe : ∀ i j s, j ≠ i → view (body i s).2 j = view s j)
    (K : σ → Prop) (hK : ∀ i s, K s → K (body i s).2) (is : List ι) (hnd : is.Nodup)
    (s : σ) (hs : K s) (j : ι) :
    view (forEach body is s).2 j = view s j ∨
      (j ∈ is ∧ ∃ s₁, K s₁ ∧ view s₁ j = view s j ∧
        view (forEach body is s).2 j = view (body j s₁).2 j) := by
  induction is generalizing s with
  | nil => exact .inl rfl
  | cons i is ih =>
    have hnd' := List.nodup_cons.mp hnd
    by_cases hj : j = i
    · subst hj
      exact .inr ⟨List.mem_cons_self, s, hs, rfl, forEach_head view body hframe hnd'.1 s⟩
    · have hsame := hframe i j s hj
      rcases forEach_cons_snd body i is s with hloop | hloop <;> rw [hloop]
      · exact .inl hsame
      · rcases ih hnd'.2 _ (hK i s hs) with hstay | ⟨hmem, s₁, hs₁, hview, hat⟩
        · exact .inl (hstay.trans hsame)
        · exact .inr ⟨List.mem_cons_of_mem _ hmem, s₁, hs₁, hview.trans hsame, hat⟩

/-- A finished loop returned what the pass for each index returned, and what that
    pass left at the index is still there. -/
theorem forEach_ok (hframe : ∀ i j s, j ≠ i → view (body i s).2 j = view s j)
    (K : σ → Prop) (hK : ∀ i s, K s → K (body i s).2) (is : List ι) (hnd : is.Nodup)
    (s : σ) (hs : K s) (bs : List β) (hok : (forEach body is s).1 = .ok bs) :
    List.Forall₂ (fun i b => ∃ s₁, K s₁ ∧ view s₁ i = view s i ∧ (body i s₁).1 = .ok b ∧
      view (forEach body is s).2 i = view (body i s₁).2 i) is bs := by
  induction is generalizing s bs with
  | nil =>
    cases hok
    exact .nil
  | cons i is ih =>
    have hnd' := List.nodup_cons.mp hnd
    simp only [forEach, bind] at hok ⊢
    rcases hbody : body i s with ⟨_ | b, s'⟩ <;> simp only [hbody] at hok ⊢
    · cases hok
    · rcases hrest : forEach body is s' with ⟨_ | bs', s''⟩ <;> simp only [hrest] at hok ⊢
      · cases hok
      · cases hok
        have hK' : K s' := by simpa [hbody] using hK i s hs
        have htail := ih hnd'.2 s' hK' bs' (by rw [hrest])
        have hfirst : view s'' i = view s' i := by
          simpa [hrest] using forEach_frame view body hframe is s' i hnd'.1
        refine .cons ⟨s, hs, rfl, by rw [hbody], by rw [hbody, hfirst]⟩ ?_
        -- the first pass does not show at the indices of the rest
        have hne : ∀ j ∈ is, j ≠ i := fun j hj h => hnd'.1 (h ▸ hj)
        refine ((List.forall₂_and_left _ _).mpr ⟨hne, htail⟩).imp ?_
        rintro j b' ⟨hji, s₁, hs₁, hview, hret, hat⟩
        have hsame : view s' j = view s j := by simpa [hbody] using hframe i j s hji
        exact ⟨s₁, hs₁, hview.trans hsame, hret, by simpa [hrest] using hat⟩

/-- A loop none of whose passes fails in a certain way does not fail that way. -/
theorem forEach_avoids {bad : ε → Prop}
    (hframe : ∀ i j s, j ≠ i → view (body i s).2 j = view s j)
    (K : σ → Prop) (hK : ∀ i s, K s → K (body i s).2) (is : List ι) (hnd : is.Nodup)
    (s : σ) (hs : K s)
    (hbody : ∀ i ∈ is, ∀ s₁, K s₁ → view s₁ i = view s i → Avoids bad (body i s₁).1) :
    Avoids bad (forEach body is s).1 := by
  induction is generalizing s with
  | nil => exact avoids_ok bad []
  | cons i is ih =>
    have hnd' := List.nodup_cons.mp hnd
    refine avoids_bind (hbody i List.mem_cons_self s hs rfl) fun b s' hr => ?_
    have hs' : K s' := by simpa [hr] using hK i s hs
    refine avoids_bind (ih hnd'.2 s' hs' fun j hj s₁ hs₁ hview => ?_) fun bs s'' _ =>
      avoids_ok bad _
    have hji : j ≠ i := fun h => hnd'.1 (h ▸ hj)
    have hsame : view s' j = view s j := by simpa [hr] using hframe i j s hji
    exact hbody j (List.mem_cons_of_mem _ hj) s₁ hs₁ (hview.trans hsame)

/-- A loop seen through a projection that shows some of the indices only. Passes
    for these commute with the projection; the others return, show nothing and
    add nothing to what is collected. Then the loop over the shown indices, run on
    the projected state, collects the same and leaves the projected state. -/
theorem forEach_filter (hframe : ∀ i j s, j ≠ i → view (body i s).2 j = view s j)
    (K : σ → Prop) (hK : ∀ i s, K s → K (body i s).2) (proj : σ → σ) (p : ι → Bool)
    (g : β → Option δ) (is : List ι) (hnd : is.Nodup) (s : σ) (hs : K s)
    (hin : ∀ i ∈ is, p i = true → ∀ s₁, K s₁ → view s₁ i = view s i →
      body i (proj s₁) = ((body i s₁).1, proj (body i s₁).2))
    (hout : ∀ i ∈ is, p i = false → ∀ s₁, K s₁ → view s₁ i = view s i →
      ∃ b, (body i s₁).1 = .ok b ∧ g b = none ∧ proj (body i s₁).2 = proj s₁) :
    map (List.filterMap g) (forEach body (is.filter p)) (proj s) =
      ((map (List.filterMap g) (forEach body is) s).1,
        proj (map (List.filterMap g) (forEach body is) s).2) := by
  induction is generalizing s with
  | nil => rfl
  | cons i is ih =>
    have hnd' := List.nodup_cons.mp hnd
    -- the first pass does not show at the indices of the rest
    have hsame : ∀ j ∈ is, view (body i s).2 j = view s j := fun j hj =>
      hframe i j s fun h => hnd'.1 (h ▸ hj)
    have hrest := ih hnd'.2 (body i s).2 (hK i s hs)
      (fun j hj hp s₁ hs₁ hv =>
        hin j (List.mem_cons_of_mem _ hj) hp s₁ hs₁ (hv.trans (hsame j hj)))
      (fun j hj hp s₁ hs₁ hv =>
        hout j (List.mem_cons_of_mem _ hj) hp s₁ hs₁ (hv.trans (hsame j hj)))
    cases hp : p i with
    | true =>
      rw [List.filter_cons_of_pos hp, map_filterMap_forEach_cons, map_filterMap_forEach_cons]
      simp only [bind, hin i List.mem_cons_self hp s hs rfl]
      rcases hbody : body i s with ⟨_ | b, s'⟩
      · rfl
      · rw [hbody] at hrest
        dsimp only at hrest ⊢
        rw [map, hrest]
        rfl
    | false =>
      obtain ⟨b, hb, hg, hproj⟩ := hout i List.mem_cons_self hp s hs rfl
      rw [List.filter_cons_of_neg (by simp [hp]), ← hproj, hrest, map_filterMap_forEach_cons]
      have hbody : body i s = (.ok b, (body i s).2) := Prod.ext hb rfl
      generalize (body i s).2 = s' at hbody
      simp only [bind, hbody, hg, Option.toList_none, List.nil_append]
      generalize map (List.filterMap g) (forEach body is) = rest
      unfold map
      rcases rest s' with ⟨_ | _, _⟩ <;> rfl

end Distinct

/-- A pass that fails ends the loop. -/
theorem forEach_cons_error (body : ι → Method ε σ β) {i : ι} {is : List ι} {s : σ} {e : ε}
    (h : (body i s).1 = .error e) : (forEach body (i :: is) s).2 = (body i s).2 := by
  simp only [forEach, bind]
  rcases hr : body i s with ⟨r, s'⟩
  rw [hr] at h
  cases h
  rfl

/-- A loop that fails has got through the passes before the one that failed. -/
theorem forEach_error_split (body : ι → Method ε σ β) {is : List ι} {s : σ} {e : ε}
    (h : (forEach body is s).1 = .error e) :
    ∃ before i after bs s', is = before ++ i :: after ∧ forEach body before s = (.ok bs, s') ∧
      (body i s').1 = .error e ∧ (forEach body is s).2 = (body i s').2 := by
  induction is generalizing s with
  | nil => cases h
  | cons i is ih =>
    cases hbody : body i s with
    | mk r s₁ =>
      cases r with
      | error e' =>
        have hloop : forEach body (i :: is) s = (.error e', s₁) := by
          simp only [forEach, bind, hbody]
        rw [hloop] at h ⊢
        cases h
        exact ⟨[], i, is, [], s, rfl, rfl, by rw [hbody], by rw [hbody]⟩
      | ok b =>
        have hloop : forEach body (i :: is) s = (Method.map (b :: ·) (forEach body is)) s₁ := by
          simp only [forEach, bind, hbody, Method.map]
          cases forEach body is s₁ with
          | mk r s₂ => cases r <;> rfl
        rw [hloop] at h ⊢
        obtain ⟨before, j, after, bs, s', his, hbefore, herror, hrest⟩ := ih (map_error h)
        refine ⟨i :: before, j, after, b :: bs, s', by rw [his]; rfl, ?_, herror, hrest⟩
        simp only [forEach, bind, hbody, hbefore]

end Method

end Remo
