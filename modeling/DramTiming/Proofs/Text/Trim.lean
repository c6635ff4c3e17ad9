import Mathlib.Data.List.TakeWhile
import DramTiming.Text.Blank

/-!
# What trimming takes away

`trimBoth p` cuts a list into two ends, all of whose elements have the property `p`, and the middle.
The ends can be as long as they like (`trimBoth_append_append`), the middle is found in the list
again (`exists_eq_append_trimBoth`), and a first trimming by a narrower property makes no difference
(`trimBoth_trimBoth`).
-/

namespace DramTiming.Text

variable {α β : Type} {p q : α → Bool}

/-- Ends that have the property are taken away whole. -/
theorem trimBoth_append_append {before after : List α} (hbefore : ∀ x ∈ before, p x)
    (hafter : ∀ x ∈ after, p x) (xs : List α) :
    trimBoth p (before ++ xs ++ after) = trimBoth p xs := by
  rw [trimBoth, List.append_assoc, List.dropWhile_append_of_pos hbefore, List.dropWhile_append]
  split
  · next hnil =>
    have hxs : xs.dropWhile p = [] := List.isEmpty_iff.mp hnil
    rw [trimBoth, hxs, List.dropWhile_eq_nil_iff.mpr hafter]
  · rw [List.reverse_append, List.dropWhile_append_of_pos (by simpa using hafter), trimBoth]

/-- What trimming takes away are two ends that have the property. -/
theorem exists_eq_append_trimBoth (p : α → Bool) (xs : List α) :
    ∃ before after, (∀ x ∈ before, p x) ∧ (∀ x ∈ after, p x) ∧
      xs = before ++ trimBoth p xs ++ after := by
  refine ⟨xs.takeWhile p, ((xs.dropWhile p).reverse.takeWhile p).reverse,
    fun x hx => List.mem_takeWhile_imp hx,
    fun x hx => List.mem_takeWhile_imp (List.mem_reverse.mp hx), ?_⟩
  rw [trimBoth, List.append_assoc, ← List.reverse_append, List.takeWhile_append_dropWhile,
    List.reverse_reverse, List.takeWhile_append_dropWhile]

/-- A list without elements to trim stays as it is. -/
theorem trimBoth_eq_self {xs : List α} (h : ∀ x ∈ xs, p x = false) : trimBoth p xs = xs := by
  have hdrop : ∀ {ys : List α}, (∀ y ∈ ys, p y = false) → ys.dropWhile p = ys := by
    intro ys hys
    cases ys with
    | nil => rfl
    | cons y ys => simp [hys y (by simp)]
  rw [trimBoth, hdrop h, hdrop (by simpa using h), List.reverse_reverse]

/-- Trimming by a property makes trimming by a narrower one beforehand superfluous. -/
theorem trimBoth_trimBoth (h : ∀ x, q x → p x) (xs : List α) :
    trimBoth p (trimBoth q xs) = trimBoth p xs := by
  obtain ⟨before, after, hbefore, hafter, hxs⟩ := exists_eq_append_trimBoth q xs
  calc trimBoth p (trimBoth q xs)
      = trimBoth p (before ++ trimBoth q xs ++ after) :=
        (trimBoth_append_append (fun x hx => h x (hbefore x hx))
          (fun x hx => h x (hafter x hx)) _).symm
    _ = trimBoth p xs := by rw [← hxs]

/-! ### Trimming what elements are written as -/

/-- Elements are written as rows `f x` of which all or none has the property. -/
theorem dropWhile_flatMap {f : β → List α} {r : β → Bool} (hall : ∀ x, r x → ∀ y ∈ f x, p y)
    (hnone : ∀ x, r x = false → f x ≠ [] ∧ ∀ y ∈ f x, p y = false) (xs : List β) :
    (xs.flatMap f).dropWhile p = (xs.dropWhile r).flatMap f := by
  induction xs with
  | nil => rfl
  | cons x xs ih =>
    rw [List.flatMap_cons, List.dropWhile_cons]
    cases hx : r x with
    | true => rw [List.dropWhile_append_of_pos (hall x hx), ih]; rfl
    | false =>
      obtain ⟨hne, hy⟩ := hnone x hx
      cases hfx : f x with
      | nil => exact absurd hfx hne
      | cons y ys => simp [hfx, hy y (by simp [hfx])]

/-- Trimming a written list is trimming the list. -/
theorem trimBoth_flatMap {f : β → List α} {r : β → Bool} (hall : ∀ x, r x → ∀ y ∈ f x, p y)
    (hnone : ∀ x, r x = false → f x ≠ [] ∧ ∀ y ∈ f x, p y = false) (xs : List β) :
    trimBoth p (xs.flatMap f) = (trimBoth r xs).flatMap f := by
  have hreverse : ((xs.flatMap f).dropWhile p).reverse
      = (xs.dropWhile r).reverse.flatMap fun x => (f x).reverse := by
    rw [dropWhile_flatMap hall hnone, List.reverse_flatMap]
    rfl
  rw [trimBoth, hreverse, dropWhile_flatMap (r := r), trimBoth, List.reverse_flatMap]
  · simp [Function.comp_def]
  · intro x hx y hy
    exact hall x hx y (List.mem_reverse.mp hy)
  · intro x hx
    obtain ⟨hne, hy⟩ := hnone x hx
    exact ⟨by simpa using hne, fun y hmem => hy y (List.mem_reverse.mp hmem)⟩

end DramTiming.Text
