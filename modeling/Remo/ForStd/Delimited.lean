import Mathlib.Data.List.Basic
import Mathlib.Data.List.DropRight

/-!
# Scanning delimited texts

Where scans of a list end, and which printed values can be read off a text.

## Key results

- `takeWhile_append_stops`, `dropWhile_append_stops` a scan ends where the list stops
- `exists_trimBy`           the ends around the middle pass the test
- `trimBy_eq_self`          trimming leaves a list alone whose ends fail the test
- `readAt_of_takeWhile` a text without stops is read off up to the first stop
- `readAt_joined`       values that are read off are read off a list of them
- `readAt_pair`         and off a pair of a key and a value
-/

/-! ## Scanning a list

What `takeWhile` and `dropWhile` do where a list goes on behind the elements they pass,
and how a list is made up of its trimmed middle and the two ends trimmed away.
-/

namespace Remo

variable {α : Type*} {p : α → Bool} {l r : List α}

/-- The list does not go on with an element that passes the test. -/
def Stops (p : α → Bool) (l : List α) : Prop := ∀ a rest, l = a :: rest → p a = false

@[simp] theorem stops_nil : Stops p [] := by
  intro a rest h
  cases h

@[simp] theorem stops_cons {a : α} : Stops p (a :: l) ↔ p a = false := by
  constructor
  · exact fun h => h a l rfl
  · intro h b rest heq
    cases heq
    exact h

theorem stops_dropWhile (p : α → Bool) (l : List α) : Stops p (l.dropWhile p) := by
  induction l with
  | nil => simp
  | cons a l ih =>
    rw [List.dropWhile_cons]
    split
    · exact ih
    · rename_i h
      simpa using h

theorem Stops.dropWhile_eq (h : Stops p l) : l.dropWhile p = l := by
  cases l with
  | nil => rfl
  | cons a l => simp [stops_cons.mp h]

theorem Stops.takeWhile_eq (h : Stops p l) : l.takeWhile p = [] := by
  cases l with
  | nil => rfl
  | cons a l => simp [stops_cons.mp h]

/-- A stop stays one when more follows, unless there was nothing before. -/
theorem Stops.append (h : Stops p l) (hl : l ≠ []) : Stops p (l ++ r) := by
  cases l with
  | nil => exact absurd rfl hl
  | cons a l => simpa using h

theorem takeWhile_append_stops (hl : ∀ a ∈ l, p a = true) (hr : Stops p r) :
    (l ++ r).takeWhile p = l := by
  rw [List.takeWhile_append_of_pos hl, hr.takeWhile_eq, List.append_nil]

theorem dropWhile_append_stops (hl : ∀ a ∈ l, p a = true) (hr : Stops p r) :
    (l ++ r).dropWhile p = r := by
  rw [List.dropWhile_append_of_pos hl, hr.dropWhile_eq]

theorem all_takeWhile (p : α → Bool) (l : List α) : ∀ a ∈ l.takeWhile p, p a = true :=
  List.all_eq_true.mp List.all_takeWhile

/-! ## Trimming -/

/-- The list without the elements at its ends that pass the test. -/
def trimBy (p : α → Bool) (l : List α) : List α := (l.dropWhile p).rdropWhile p

/-- The list does not end in an element that passes the test. -/
def EndsOff (p : α → Bool) (l : List α) : Prop := ∀ a init, l = init ++ [a] → p a = false

theorem endsOff_concat {a : α} : EndsOff p (l ++ [a]) ↔ p a = false := by
  constructor
  · exact fun h => h a l rfl
  · intro h b init heq
    obtain ⟨-, hab⟩ := List.append_inj' heq rfl
    cases hab
    exact h

theorem EndsOff.rdropWhile_eq (h : EndsOff p l) : l.rdropWhile p = l := by
  rw [List.rdropWhile_eq_self_iff]
  intro hne
  simpa using h _ _ (List.dropLast_append_getLast hne).symm

theorem endsOff_rdropWhile (p : α → Bool) (l : List α) : EndsOff p (l.rdropWhile p) := by
  intro a init h
  have hne : l.rdropWhile p ≠ [] := by simp [h]
  have hlast := List.rdropWhile_last_not p l hne
  simpa [h] using hlast

/-- A list that stops and ends off has nothing to trim. -/
theorem trimBy_eq_self (hstart : Stops p l) (hend : EndsOff p l) : trimBy p l = l := by
  rw [trimBy, hstart.dropWhile_eq, hend.rdropWhile_eq]

/-- Trimming gives back a middle between ends that pass the test. -/
theorem trimBy_append {before after : List α} (hbefore : ∀ a ∈ before, p a = true)
    (hafter : ∀ a ∈ after, p a = true) (hne : l ≠ []) (hstart : Stops p l)
    (hend : EndsOff p l) : trimBy p (before ++ (l ++ after)) = l := by
  have hafter' : ∀ a ∈ after.reverse, p a = true := by simpa using hafter
  rw [trimBy, List.dropWhile_append_of_pos hbefore, (hstart.append hne).dropWhile_eq,
    List.rdropWhile, List.reverse_append, List.dropWhile_append_of_pos hafter']
  exact hend.rdropWhile_eq

theorem endsOff_trimBy (p : α → Bool) (l : List α) : EndsOff p (trimBy p l) :=
  endsOff_rdropWhile p _

/-- Around the middle stand elements that pass the test. -/
theorem exists_trimBy (p : α → Bool) (l : List α) :
    ∃ before after, l = before ++ (trimBy p l ++ after) ∧ (∀ a ∈ before, p a = true) ∧
      (∀ a ∈ after, p a = true) ∧ l.dropWhile p = trimBy p l ++ after := by
  have hafter : l.dropWhile p = trimBy p l ++ (l.dropWhile p).rtakeWhile p := by
    have h : (l.dropWhile p).reverse =
        (l.dropWhile p).reverse.takeWhile p ++ (l.dropWhile p).reverse.dropWhile p :=
      List.takeWhile_append_dropWhile.symm
    rw [← List.reverse_inj, trimBy, List.reverse_append, List.rtakeWhile, List.rdropWhile,
      List.reverse_reverse, List.reverse_reverse]
    exact h
  refine ⟨l.takeWhile p, (l.dropWhile p).rtakeWhile p, ?_, all_takeWhile p l, ?_, hafter⟩
  · rw [← hafter, List.takeWhile_append_dropWhile]
  · intro a ha
    exact List.mem_rtakeWhile_imp ha

theorem stops_trimBy (p : α → Bool) (l : List α) : Stops p (trimBy p l) := by
  intro a rest h
  obtain ⟨-, after, -, -, -, hdrop⟩ := exists_trimBy p l
  have hstops := stops_dropWhile p l
  rw [hdrop, h] at hstops
  exact stops_cons.mp hstops

end Remo

/-! ## Texts that show where they end

What a printer printed can be read off a text when it is clear where it ends. `ReadAt` says so of
one value, if what comes behind it is nothing or begins with a stop.
-/

namespace Remo.Delimited

variable {α β γ : Type*}

/-- There is nothing, or a stop comes first. -/
def Stops (stop : γ → Prop) (rest : List γ) : Prop := ∀ c ∈ rest.head?, stop c

@[simp] theorem stops_nil (stop : γ → Prop) : Stops stop [] := by simp [Stops]

@[simp] theorem stops_cons {stop : γ → Prop} {c : γ} {rest : List γ} :
    Stops stop (c :: rest) ↔ stop c := by simp [Stops]

/-- Where `a` is printed, no other value can be that is `ok`. -/
def ReadAt (stop : γ → Prop) (print : α → List γ) (ok : α → Prop) (a : α) : Prop :=
  ∀ b rest rest', ok b → Stops stop rest → Stops stop rest' →
    print a ++ rest = print b ++ rest' → a = b ∧ rest = rest'

/-- What is before the first stop is a text without stops. -/
theorem readAt_of_takeWhile {stop : γ → Prop} [DecidablePred stop] {text : List γ}
    (h : ∀ c ∈ text, ¬stop c) : ReadAt stop id (fun text => ∀ c ∈ text, ¬stop c) text := by
  have htake : ∀ text rest : List γ, (∀ c ∈ text, ¬stop c) → Stops stop rest →
      (text ++ rest).takeWhile (fun c => ¬stop c) = text := by
    intro text rest htext hrest
    rw [List.takeWhile_append_of_pos (by simpa using htext)]
    cases rest with
    | nil => simp
    | cons c rest => simp [stops_cons.mp hrest]
  intro text' rest rest' h' hrest hrest' heq
  have hsame : text = text' := by
    rw [← htake text rest h hrest, ← htake text' rest' h' hrest']
    exact congrArg (List.takeWhile fun c => ¬stop c) heq
  rw [hsame] at heq
  exact ⟨hsame, List.append_cancel_left heq⟩

/-- A list with a separator between its values. -/
def joined (sep : γ) (print : α → List γ) : List α → List γ
  | [] => []
  | a :: as => print a ++ as.flatMap fun b => sep :: print b

theorem intercalate_eq_joined (sep : γ) (print : α → List γ) (as : List α) :
    List.intercalate [sep] (as.map print) = joined sep print as := by
  cases as with
  | nil => simp [List.intercalate, joined]
  | cons a as =>
    induction as generalizing a with
    | nil => simp [List.intercalate, joined]
    | cons b as ih =>
      have hrest := ih b
      rw [List.map_cons] at hrest
      rw [List.map_cons, List.map_cons, List.intercalate_cons_cons, hrest]
      simp [joined]

variable {stop : γ → Prop} {print : α → List γ} {ok : α → Prop} {sep close : γ}

/-- The values behind the first of a list, up to the end of the list. -/
theorem readAt_tail (hsep : stop sep) (hclose : stop close) (hne : sep ≠ close) {as bs : List α}
    (has : ∀ a ∈ as, ReadAt stop print ok a) (hbs : ∀ b ∈ bs, ok b) {rest rest' : List γ}
    (h : (as.flatMap fun a => sep :: print a) ++ close :: rest =
      (bs.flatMap fun b => sep :: print b) ++ close :: rest') : as = bs ∧ rest = rest' := by
  have hstops : ∀ (cs : List α) (r : List γ),
      Stops stop ((cs.flatMap fun c => sep :: print c) ++ close :: r) := by
    intro cs r
    cases cs with
    | nil => simpa using hclose
    | cons c cs => simpa using hsep
  induction as generalizing bs with
  | nil =>
    cases bs with
    | nil => exact ⟨rfl, (List.cons.inj h).2⟩
    | cons b bs => exact absurd (List.cons.inj h).1.symm hne
  | cons a as ih =>
    cases bs with
    | nil => exact absurd (List.cons.inj h).1 hne
    | cons b bs =>
      simp only [List.flatMap_cons, List.cons_append, List.append_assoc] at h
      obtain ⟨hab, htail⟩ := has a List.mem_cons_self b _ _ (hbs b List.mem_cons_self)
        (hstops as rest) (hstops bs rest') (List.cons.inj h).2
      obtain ⟨has', hrest⟩ := ih (fun c hc => has c (List.mem_cons_of_mem _ hc))
        (fun c hc => hbs c (List.mem_cons_of_mem _ hc)) htail
      rw [hab, has']
      exact ⟨rfl, hrest⟩

/-- Values that are read off are read off a list of them, up to the end of the list. No value
    begins with what ends the list. -/
theorem readAt_joined (hsep : stop sep) (hclose : stop close) (hne : sep ≠ close)
    (hbegin : ∀ a, ok a → ∃ c text, print a = c :: text ∧ c ≠ close) {as bs : List α}
    (has : ∀ a ∈ as, ReadAt stop print ok a) (has' : ∀ a ∈ as, ok a) (hbs : ∀ b ∈ bs, ok b)
    {rest rest' : List γ}
    (h : joined sep print as ++ close :: rest = joined sep print bs ++ close :: rest') :
    as = bs ∧ rest = rest' := by
  have hempty : ∀ (a : α) (text r r' : List γ), ok a → print a ++ text ++ close :: r ≠
      close :: r' := by
    intro a text r r' ha heq
    obtain ⟨c, tail, hc, hdiff⟩ := hbegin a ha
    rw [hc] at heq
    exact hdiff (List.cons.inj heq).1
  cases as with
  | nil =>
    cases bs with
    | nil => exact ⟨rfl, (List.cons.inj h).2⟩
    | cons b bs => exact absurd h.symm (hempty b _ _ _ (hbs b List.mem_cons_self))
  | cons a as =>
    cases bs with
    | nil => exact absurd h (hempty a _ _ _ (has' a List.mem_cons_self))
    | cons b bs =>
      unfold joined at h
      rw [List.append_assoc, List.append_assoc] at h
      have hstops : ∀ (cs : List α) (r : List γ),
          Stops stop ((cs.flatMap fun c => sep :: print c) ++ close :: r) := by
        intro cs r
        cases cs with
        | nil => simpa using hclose
        | cons c cs => simpa using hsep
      obtain ⟨hab, htail⟩ := has a List.mem_cons_self b _ _ (hbs b List.mem_cons_self)
        (hstops as rest) (hstops bs rest') h
      obtain ⟨hlist, hrest⟩ := readAt_tail hsep hclose hne
        (fun c hc => has c (List.mem_cons_of_mem _ hc))
        (fun c hc => hbs c (List.mem_cons_of_mem _ hc)) htail
      rw [hab, hlist]
      exact ⟨rfl, hrest⟩

/-- A key with its value behind a mark. -/
theorem readAt_pair (printKey : β → List γ) (mark : γ) {k : β}
    (hkey : ∀ k' rest rest', printKey k ++ mark :: rest = printKey k' ++ mark :: rest' →
      k = k' ∧ rest = rest') {a : α} (ha : ReadAt stop print ok a) :
    ReadAt stop (fun entry => printKey entry.1 ++ mark :: print entry.2)
      (fun entry => ok entry.2) (k, a) := by
  intro entry rest rest' hok hrest hrest' heq
  dsimp only at heq
  rw [List.append_assoc, List.append_assoc, List.cons_append, List.cons_append] at heq
  obtain ⟨hk, hvalue⟩ := hkey entry.1 _ _ heq
  obtain ⟨hv, hr⟩ := ha entry.2 rest rest' hok hrest hrest' hvalue
  exact ⟨Prod.ext hk hv, hr⟩

end Remo.Delimited
