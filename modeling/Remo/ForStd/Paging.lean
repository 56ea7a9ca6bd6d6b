import Mathlib.Data.List.Basic
import Mathlib.Data.List.Nodup
import Mathlib.Data.List.Perm.Basic
import Remo.ForStd.Method

/-!
# Following offset pages to the end

A reader fetches the page at offset zero, reads the next offset from the cursor of each page, and
stops at a page that has no more. A walk is the whole of such a reading; when a fetch fails or a
cursor does not decode there is none. Pages that are the windows of one list lead through the
whole list.

## Key results

- `Walk.unique`: a reading has one outcome.
- `Windows.walk`: the windows of a list lead from an offset to its end.
- `Windows.visitsOnce`: windows of a sorted arrangement visit everything once.
-/

namespace Remo.OffsetPaging

variable {α β κ : Type*}

/-- One page: its items, whether there is more, and the cursor of what follows. -/
structure Page (α κ : Type*) where
  items : List α
  hasMore : Bool
  next : Option κ

/-- The items a reader collects from an offset to the page that has no more. -/
inductive Walk (fetch : Nat → Option (Page α κ)) (decode : κ → Option Nat) : Nat → List α → Prop
  | last {offset : Nat} {page : Page α κ} (hfetch : fetch offset = some page)
      (hmore : page.hasMore = false) : Walk fetch decode offset page.items
  | more {offset nextOffset : Nat} {page : Page α κ} {cursor : κ} {items : List α}
      (hfetch : fetch offset = some page) (hmore : page.hasMore = true)
      (hnext : page.next = some cursor) (hdecode : decode cursor = some nextOffset)
      (hrest : Walk fetch decode nextOffset items) : Walk fetch decode offset (page.items ++ items)

/-- The items are those of a list without repetition or omission, in a given order. -/
def VisitsOnce (fetch : Nat → Option (Page α κ)) (decode : κ → Option Nat) (shown : β → α)
    (before : β → β → Prop) (matching : List β) : Prop :=
  ∃ sorted : List β, sorted.Perm matching ∧ sorted.Pairwise before ∧
    Walk fetch decode 0 (sorted.map shown)

variable {fetch : Nat → Option (Page α κ)} {decode : κ → Option Nat}

/-! ## One outcome -/

/-- A walk starts with the page at its offset. -/
theorem Walk.first {offset : Nat} {items : List α} (h : Walk fetch decode offset items) :
    ∃ page, fetch offset = some page ∧
      (page.hasMore = false ∧ items = page.items ∨
        page.hasMore = true ∧ ∃ cursor nextOffset rest, page.next = some cursor ∧
          decode cursor = some nextOffset ∧ items = page.items ++ rest ∧
          Walk fetch decode nextOffset rest) := by
  cases h with
  | last hfetch hmore => exact ⟨_, hfetch, .inl ⟨hmore, rfl⟩⟩
  | more hfetch hmore hnext hdecode hrest =>
    exact ⟨_, hfetch, .inr ⟨hmore, _, _, _, hnext, hdecode, rfl, hrest⟩⟩

/-- A reading has one outcome. -/
theorem Walk.unique {offset : Nat} {items items' : List α} (h : Walk fetch decode offset items)
    (h' : Walk fetch decode offset items') : items = items' := by
  induction h generalizing items' with
  | last hfetch hmore =>
    obtain ⟨page', hfetch', hcase⟩ := h'.first
    rw [hfetch, Option.some.injEq] at hfetch'
    subst hfetch'
    cases hcase with
    | inl hlast => exact hlast.2.symm
    | inr hgoes =>
      rw [hmore] at hgoes
      cases hgoes.1
  | more hfetch hmore hnext hdecode hrest ih =>
    obtain ⟨page', hfetch', hcase⟩ := h'.first
    rw [hfetch, Option.some.injEq] at hfetch'
    subst hfetch'
    cases hcase with
    | inl hlast =>
      rw [hmore] at hlast
      cases hlast.1
    | inr hgoes =>
      obtain ⟨-, cursor', nextOffset', rest', hnext', hdecode', hitems, hrest'⟩ := hgoes
      rw [hnext, Option.some.injEq] at hnext'
      subst hnext'
      rw [hdecode, Option.some.injEq] at hdecode'
      subst hdecode'
      rw [hitems, ih hrest']

/-- Nothing is visited when the first page leads on with a cursor that does not decode. -/
theorem not_walk_of_decode {offset : Nat} {page : Page α κ} {cursor : κ} {items : List α}
    (hfetch : fetch offset = some page) (hmore : page.hasMore = true)
    (hnext : page.next = some cursor) (hdecode : decode cursor = none) :
    ¬Walk fetch decode offset items := by
  intro h
  obtain ⟨page', hfetch', hcase⟩ := h.first
  rw [hfetch, Option.some.injEq] at hfetch'
  subst hfetch'
  cases hcase with
  | inl hlast =>
    rw [hmore] at hlast
    cases hlast.1
  | inr hgoes =>
    obtain ⟨-, cursor', nextOffset', rest', hnext', hdecode', -⟩ := hgoes
    rw [hnext, Option.some.injEq] at hnext'
    subst hnext'
    rw [hdecode] at hdecode'
    cases hdecode'

/-- A single page is the whole reading. -/
theorem walk_single_iff {offset : Nat} {page : Page α κ} {items : List α}
    (hfetch : fetch offset = some page) (hmore : page.hasMore = false) :
    Walk fetch decode offset items ↔ items = page.items := by
  constructor
  · intro h
    exact h.unique (.last hfetch hmore)
  · intro h
    rw [h]
    exact .last hfetch hmore

/-! ## Windows of a list -/

/-- The page at every offset in a list is the window there, and its cursor decodes to the end of
    the window. -/
structure Windows (fetch : Nat → Option (Page α κ)) (decode : κ → Option Nat) (l : List α)
    (size : Nat) : Prop where
  size_pos : 1 ≤ size
  page : ∀ offset, offset ≤ l.length → ∃ page, fetch offset = some page ∧
    page.items = (l.drop offset).take size ∧
    page.hasMore = decide (offset + page.items.length < l.length) ∧
    (page.hasMore = true → ∃ cursor, page.next = some cursor ∧
      decode cursor = some (offset + page.items.length))

/-- The windows of a list lead from an offset to its end. -/
theorem Windows.walk {l : List α} {size : Nat} (h : Windows fetch decode l size) {offset : Nat}
    (hoffset : offset ≤ l.length) : Walk fetch decode offset (l.drop offset) := by
  -- each further page leaves fewer items, since a page that has more is not empty
  induction hleft : l.length - offset using Nat.strongRecOn generalizing offset with
  | ind left ih =>
    obtain ⟨page, hfetch, hitems, hmore, hnext⟩ := h.page offset hoffset
    have hlength : page.items.length = min size (l.length - offset) := by
      rw [hitems, List.length_take, List.length_drop]
    have hsize := h.size_pos
    cases hcase : page.hasMore with
    | false =>
      rw [hcase] at hmore
      have hend : l.length ≤ offset + page.items.length := by simpa using hmore.symm
      have hall : l.drop offset = page.items := by
        rw [hitems, List.take_of_length_le]
        rw [List.length_drop]
        omega
      rw [hall]
      exact .last hfetch hcase
    | true =>
      rw [hcase] at hmore
      have hlt : offset + page.items.length < l.length := by simpa using hmore.symm
      obtain ⟨cursor, hcursor, hdecode⟩ := hnext hcase
      have hrest : Walk fetch decode (offset + page.items.length)
          (l.drop (offset + page.items.length)) := by
        apply ih (l.length - (offset + page.items.length)) _ _ rfl
        · omega
        · omega
      have hfull : page.items.length = size := by omega
      have hsplit : l.drop offset = page.items ++ l.drop (offset + page.items.length) := by
        rw [hfull, hitems, ← List.drop_drop, List.take_append_drop]
      rw [hsplit]
      exact .more hfetch hcase hcursor hdecode hrest

/-- Pages that show each item in another way are windows of what they show. -/
theorem Windows.map {f : α → β} {fetch' : Nat → Option (Page β κ)} {l : List α} {size : Nat}
    (h : Windows fetch decode l size)
    (hfetch : ∀ offset page, fetch offset = some page →
      fetch' offset = some ⟨page.items.map f, page.hasMore, page.next⟩) :
    Windows fetch' decode (l.map f) size := by
  constructor
  case size_pos => exact h.size_pos
  case page =>
    intro offset hoffset
    rw [List.length_map] at hoffset
    obtain ⟨page, hpage, hitems, hmore, hnext⟩ := h.page offset hoffset
    refine ⟨_, hfetch offset page hpage, ?_, ?_, ?_⟩
    · show page.items.map f = _
      rw [hitems, List.map_take, List.map_drop]
    · rw [List.length_map, List.length_map]
      exact hmore
    · rw [List.length_map]
      exact hnext

/-- Visiting once does not depend on how the items are listed. -/
theorem VisitsOnce.perm {shown : β → α} {before : β → β → Prop} {matching matching' : List β}
    (h : VisitsOnce fetch decode shown before matching) (hperm : matching.Perm matching') :
    VisitsOnce fetch decode shown before matching' := by
  obtain ⟨sorted, hsorted, hbefore, hwalk⟩ := h
  exact ⟨sorted, hsorted.trans hperm, hbefore, hwalk⟩

/-- Windows of a sorted arrangement visit everything once. -/
theorem Windows.visitsOnce {shown : β → α} {before : β → β → Prop} {sorted matching : List β}
    {size : Nat} (h : Windows fetch decode (sorted.map shown) size)
    (hperm : sorted.Perm matching) (hsorted : sorted.Pairwise before) :
    VisitsOnce fetch decode shown before matching :=
  ⟨sorted, hperm, hsorted, by simpa using h.walk (Nat.zero_le _)⟩

end Remo.OffsetPaging
