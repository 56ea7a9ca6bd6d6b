import Mathlib.Data.List.Basic
import Mathlib.Data.List.Nodup
import Mathlib.Logic.Relation

/-!
# Trees of parent pointers

Nodes and records that point at their parents: walks upwards to a root, and walks downwards to
everything below an id.

## Key results

- `Ancestry.nodup`: a walk to a root visits no node twice
- `Forest.update`: pointing a node at a parent that is no descendant keeps a forest
- `Forest.restrict`: so does taking out nodes together with their children
- `mem_walk_iff`: the walk finds what is below its start
- `Below.mono`: what is below an id stays below it when records are added
-/

/-! ## Forests of parent pointers

Nodes that point at their parents: `up k` is `none` for a node that is not there,
`some none` for a root and `some (some p)` for a child of `p`. In a forest every
walk along the pointers ends at a root.
-/

namespace Remo

variable {κ : Type*} {up up' : κ → Option (Option κ)} {k p : κ} {path : List κ}

/-- The walk from a node to a root. -/
inductive Ancestry (up : κ → Option (Option κ)) : κ → List κ → Prop where
  | root {k : κ} : up k = some none → Ancestry up k [k]
  | child {k p : κ} {path : List κ} : up k = some (some p) → Ancestry up p path →
      Ancestry up k (k :: path)

/-- The node is there, and the walk from it reaches a root. -/
def Rooted (up : κ → Option (Option κ)) (k : κ) : Prop := ∃ path, Ancestry up k path

/-- Every node is rooted. -/
def Forest (up : κ → Option (Option κ)) : Prop := ∀ k, up k ≠ none → Rooted up k

/-! ## Walks -/

/-- A walk never leaves the nodes that are there. -/
theorem Ancestry.isSome (h : Ancestry up k path) : ∀ x ∈ path, (up x).isSome := by
  induction h with
  | root hroot =>
    intro x hx
    rw [List.mem_singleton.mp hx, hroot]
    rfl
  | child hup _ ih =>
    intro x hx
    cases List.mem_cons.mp hx with
    | inl heq =>
      rw [heq, hup]
      rfl
    | inr hmem => exact ih x hmem

theorem Ancestry.unique {path' : List κ} (h : Ancestry up k path) (h' : Ancestry up k path') :
    path = path' := by
  induction h generalizing path' with
  | root hroot =>
    cases h' with
    | root _ => rfl
    | child hup _ => simp [hroot] at hup
  | child hup _ ih =>
    cases h' with
    | root hroot => simp [hroot] at hup
    | child hup' hrest =>
      obtain rfl := Option.some.inj (Option.some.inj (hup.symm.trans hup'))
      rw [ih hrest]

/-- From every node of a walk on, the walk is the walk of that node. -/
theorem Ancestry.suffix_of_mem (h : Ancestry up k path) {x : κ} (hx : x ∈ path) :
    ∃ rest, rest <:+ path ∧ Ancestry up x rest := by
  induction h with
  | root hroot =>
    obtain rfl := List.mem_singleton.mp hx
    exact ⟨_, List.suffix_rfl, .root hroot⟩
  | child hup hrest ih =>
    cases List.mem_cons.mp hx with
    | inl heq =>
      subst heq
      exact ⟨_, List.suffix_rfl, .child hup hrest⟩
    | inr hmem =>
      obtain ⟨rest, hsuffix, hwalk⟩ := ih hmem
      exact ⟨rest, hsuffix.trans (List.suffix_cons _ _), hwalk⟩

/-- A walk to a root visits no node twice. -/
theorem Ancestry.nodup (h : Ancestry up k path) : path.Nodup := by
  induction h with
  | root _ => exact List.nodup_singleton _
  | @child k p path hup hrest ih =>
    refine List.nodup_cons.mpr ⟨fun hmem => ?_, ih⟩
    -- the walk from `k` would be a proper part of itself
    obtain ⟨rest, hsuffix, hwalk⟩ := hrest.suffix_of_mem hmem
    have heq : rest = k :: path := hwalk.unique (.child hup hrest)
    have hlength := hsuffix.length_le
    rw [heq, List.length_cons] at hlength
    omega

theorem Rooted.child (hup : up k = some (some p)) (h : Rooted up p) : Rooted up k := by
  obtain ⟨path, hpath⟩ := h
  exact ⟨k :: path, .child hup hpath⟩

/-! ## Changes -/

/-- A walk is the same where the pointers of its nodes are the same. -/
theorem Ancestry.congr (h : Ancestry up k path) (hsame : ∀ x ∈ path, up' x = up x) :
    Ancestry up' k path := by
  induction h with
  | root hroot => exact .root (by rw [hsame _ List.mem_cons_self, hroot])
  | child hup _ ih =>
    have hrest := ih fun x hx => hsame x (List.mem_cons_of_mem _ hx)
    exact .child (by rw [hsame _ List.mem_cons_self, hup]) hrest

/-- Where one node changes its pointer and stays rooted, all others do. -/
theorem Rooted.update (h : Rooted up p) (hk : Rooted up' k) (hsame : ∀ x, x ≠ k → up' x = up x) :
    Rooted up' p := by
  obtain ⟨path, hpath⟩ := h
  induction hpath with
  | @root x hroot =>
    by_cases hx : x = k
    · exact hx ▸ hk
    · exact ⟨[x], .root (by rw [hsame x hx, hroot])⟩
  | @child x y path hup _ ih =>
    by_cases hx : x = k
    · exact hx ▸ hk
    · exact ih.child (by rw [hsame x hx, hup])

/-- A forest stays one when a node is rooted behind the change of its pointer. -/
theorem Forest.update (h : Forest up) (hk : Rooted up' k) (hsame : ∀ x, x ≠ k → up' x = up x) :
    Forest up' := by
  intro x hx
  by_cases hxk : x = k
  · exact hxk ▸ hk
  · rw [hsame x hxk] at hx
    exact (h x hx).update hk hsame

/-- A node can be pointed at a parent whose walk does not pass the node. -/
theorem Forest.point (h : Forest up) (hpath : Ancestry up p path) (hk : k ∉ path)
    (hup : up' k = some (some p)) (hsame : ∀ x, x ≠ k → up' x = up x) : Forest up' := by
  apply h.update _ hsame
  have hwalk : Ancestry up' p path := hpath.congr fun x hx => hsame x fun heq => hk (heq ▸ hx)
  exact ⟨k :: path, .child hup hwalk⟩

/-- A node can be made a root. -/
theorem Forest.detach (h : Forest up) (hup : up' k = some none)
    (hsame : ∀ x, x ≠ k → up' x = up x) : Forest up' :=
  h.update ⟨[k], .root hup⟩ hsame

/-- Nodes can be taken out when their children go with them. -/
theorem Forest.restrict (h : Forest up) (gone : κ → Prop) (hgone : ∀ x, gone x → up' x = none)
    (hsame : ∀ x, ¬gone x → up' x = up x)
    (hclosed : ∀ x p, up x = some (some p) → gone p → gone x) : Forest up' := by
  intro k hk
  have hstays : ¬gone k := fun hk' => hk (hgone k hk')
  rw [hsame k hstays] at hk
  obtain ⟨path, hpath⟩ := h k hk
  clear hk
  induction hpath with
  | @root x hroot => exact ⟨[x], .root (by rw [hsame x hstays, hroot])⟩
  | @child x y path hup _ ih =>
    have hparent : ¬gone y := fun hy => hstays (hclosed x y hup hy)
    exact (ih hparent).child (by rw [hsame x hstays, hup])

end Remo

/-! ## Trees of records that name their parents

Each record has an id and may name the id of its parent. A walk from an id keeps a stack of ids to
visit and the ids it has visited; it finds exactly the ids below its start, whatever the records
look like: parents may be missing and records may name each other in circles.
-/

namespace Remo

namespace ParentTree

variable {α β : Type*} (id : β → α) (parent : β → Option α)

/-- A record names `a` as the parent of `b`. -/
def ChildIn (records : List β) (a b : α) : Prop := ∃ r ∈ records, id r = b ∧ parent r = some a

/-- `b` is `a`, or a child, a grandchild and so on of `a`. -/
def Below (records : List β) (a b : α) : Prop :=
  Relation.ReflTransGen (ChildIn id parent records) a b

section Walk

variable [DecidableEq α]

/-- The ids of the records that name `a` as their parent. -/
def childrenOf (records : List β) (a : α) : List α :=
  (records.filter fun r => parent r = some a).map id

/-- Visit the ids on a stack and what is below them. The child that is pushed last is visited
    first. -/
def walk (records : List β) : Nat → List α → List α → List α
  | 0, _, ordered => ordered
  | _ + 1, [], ordered => ordered
  | fuel + 1, current :: stack, ordered =>
    if current ∈ ordered then walk records fuel stack ordered
    else
      walk records fuel ((childrenOf id parent records current).reverse ++ stack)
        (ordered ++ [current])

end Walk

variable {id parent} {records records' : List β} {a b c : α}

/-! ## What is below an id -/

theorem Below.refl : Below id parent records a a := Relation.ReflTransGen.refl

theorem Below.trans (hab : Below id parent records a b) (hbc : Below id parent records b c) :
    Below id parent records a c := Relation.ReflTransGen.trans hab hbc

/-- What is below an id stays below it as long as every record keeps its id and its parent. -/
theorem Below.mono (h : Below id parent records a b)
    (hkeep : ∀ r ∈ records, ∃ r' ∈ records', id r' = id r ∧ parent r' = parent r) :
    Below id parent records' a b := by
  induction h with
  | refl => exact Below.refl
  | tail _ hchild ih =>
    obtain ⟨r, hr, hid, hparent⟩ := hchild
    obtain ⟨r', hr', hid', hparent'⟩ := hkeep r hr
    exact Relation.ReflTransGen.tail ih ⟨r', hr', hid'.trans hid, hparent'.trans hparent⟩

/-! ## The walk -/

variable [DecidableEq α]

theorem mem_childrenOf : b ∈ childrenOf id parent records a ↔ ChildIn id parent records a b := by
  simp only [childrenOf, ChildIn, List.mem_map, List.mem_filter, decide_eq_true_eq]
  exact exists_congr fun r => by tauto

/-- The walk stays in every set that holds its stack and is closed under children. -/
theorem walk_subset {P : α → Prop} (hchild : ∀ x y, P x → ChildIn id parent records x y → P y)
    (fuel : Nat) {stack ordered : List α} (hstack : ∀ x ∈ stack, P x)
    (hordered : ∀ x ∈ ordered, P x) : ∀ x ∈ walk id parent records fuel stack ordered, P x := by
  induction fuel generalizing stack ordered with
  | zero => exact hordered
  | succ fuel ih =>
    cases stack with
    | nil => exact hordered
    | cons current stack =>
      have hcurrent : P current := hstack current List.mem_cons_self
      have hrest : ∀ x ∈ stack, P x := fun x hx => hstack x (List.mem_cons_of_mem _ hx)
      rw [walk]
      split
      · exact ih hrest hordered
      · apply ih
        · intro x hx
          cases List.mem_append.mp hx with
          | inl hnew =>
            exact hchild current x hcurrent (mem_childrenOf.mp (List.mem_reverse.mp hnew))
          | inr hold => exact hrest x hold
        · intro x hx
          cases List.mem_append.mp hx with
          | inl hold => exact hordered x hold
          | inr hnew => exact List.mem_singleton.mp hnew ▸ hcurrent

/-- The records whose parent has not been visited. -/
private def unvisited (parent : β → Option α) (records : List β) (ordered : List α) : List β :=
  records.filter fun r => !(parent r).any fun p => decide (p ∈ ordered)

variable (id parent records) in
/-- A visit takes the children of an id out of the records that are left. -/
private theorem length_unvisited {ordered : List α} (hnew : a ∉ ordered) :
    (childrenOf id parent records a).length +
        (unvisited parent records (ordered ++ [a])).length =
      (unvisited parent records ordered).length := by
  unfold childrenOf unvisited
  rw [List.length_map]
  simp only [List.mem_append, List.mem_singleton, Bool.decide_or]
  induction records with
  | nil => rfl
  | cons r records ih =>
    simp only [List.filter_cons]
    cases hparent : parent r with
    | none => simp; omega
    | some p =>
      by_cases hsame : p = a
      · simp [hsame, hnew]; omega
      · by_cases hmem : p ∈ ordered
        · simp [hsame, hmem]; omega
        · simp [hsame, hmem]; omega

variable (id parent records) in
/-- With one pass for each id on the stack and each record that is left, the walk visits all of
    the stack and the children of all it visits. -/
private theorem walk_closed (fuel : Nat) (stack ordered : List α)
    (hfuel : stack.length + (unvisited parent records ordered).length ≤ fuel)
    (hpending : ∀ x ∈ ordered, ∀ y, ChildIn id parent records x y → y ∈ ordered ∨ y ∈ stack) :
    (∀ x, x ∈ ordered ∨ x ∈ stack → x ∈ walk id parent records fuel stack ordered) ∧
      ∀ x ∈ walk id parent records fuel stack ordered, ∀ y, ChildIn id parent records x y →
        y ∈ walk id parent records fuel stack ordered := by
  induction fuel generalizing stack ordered with
  | zero =>
    have hnil : stack = [] := List.length_eq_zero_iff.mp (by omega)
    subst hnil
    show (∀ x, _ → x ∈ ordered) ∧ ∀ x ∈ ordered, ∀ y, _ → y ∈ ordered
    simpa using hpending
  | succ fuel ih =>
    cases stack with
    | nil =>
      show (∀ x, _ → x ∈ ordered) ∧ ∀ x ∈ ordered, ∀ y, _ → y ∈ ordered
      simpa using hpending
    | cons current stack =>
      rw [List.length_cons] at hfuel
      rw [walk]
      split
      · rename_i hseen
        have hafter := ih stack ordered (by omega) (by
          intro x hx y hchild
          cases hpending x hx y hchild with
          | inl hold => exact .inl hold
          | inr hstack =>
            cases List.mem_cons.mp hstack with
            | inl heq => exact .inl (heq ▸ hseen)
            | inr hrest => exact .inr hrest)
        refine ⟨fun x hx => hafter.1 x ?_, hafter.2⟩
        cases hx with
        | inl hold => exact .inl hold
        | inr hstack =>
          cases List.mem_cons.mp hstack with
          | inl heq => exact .inl (heq ▸ hseen)
          | inr hrest => exact .inr hrest
      · rename_i hnew
        have hlength := length_unvisited id parent records hnew
        have hafter := ih ((childrenOf id parent records current).reverse ++ stack)
          (ordered ++ [current])
          (by rw [List.length_append, List.length_reverse]; omega) (by
            intro x hx y hchild
            cases List.mem_append.mp hx with
            | inl hold =>
              cases hpending x hold y hchild with
              | inl hseen => exact .inl (List.mem_append_left _ hseen)
              | inr hstack =>
                cases List.mem_cons.mp hstack with
                | inl heq => exact .inl (by simp [heq])
                | inr hrest => exact .inr (List.mem_append_right _ hrest)
            | inr hcurrent =>
              rw [List.mem_singleton.mp hcurrent] at hchild
              exact .inr (List.mem_append_left _
                (List.mem_reverse.mpr (mem_childrenOf.mpr hchild))))
        refine ⟨fun x hx => hafter.1 x ?_, hafter.2⟩
        cases hx with
        | inl hold => exact .inl (List.mem_append_left _ hold)
        | inr hstack =>
          cases List.mem_cons.mp hstack with
          | inl heq => exact .inl (by simp [heq])
          | inr hrest => exact .inr (List.mem_append_right _ hrest)

/-- The walk finds exactly what is below its start. -/
theorem mem_walk_iff {fuel : Nat} (hfuel : records.length < fuel) :
    b ∈ walk id parent records fuel [a] [] ↔ Below id parent records a b := by
  have hleft : (unvisited parent records []).length ≤ records.length := List.length_filter_le _ _
  have hwalk := walk_closed id parent records fuel [a] [] (by rw [List.length_singleton]; omega)
    fun x hx => absurd hx List.not_mem_nil
  constructor
  · apply walk_subset (P := Below id parent records a)
    · intro x y hx hchild
      exact Relation.ReflTransGen.tail hx hchild
    · intro x hx
      rw [List.mem_singleton.mp hx]
      exact Below.refl
    · intro x hx
      exact absurd hx List.not_mem_nil
  · intro h
    induction h with
    | refl => exact hwalk.1 a (.inr List.mem_cons_self)
    | tail _ hchild ih => exact hwalk.2 _ ih _ hchild

instance : Decidable (Below id parent records a b) :=
  decidable_of_iff (b ∈ walk id parent records (records.length + 1) [a] [])
    (mem_walk_iff (Nat.lt_succ_self _))

end ParentTree

end Remo
