import Mathlib

/-! # Absolute paths

    A normalised absolute path is a list of names, each written after a
    separator.  A path lies under a root when the names of the root come
    first; on the written form this is a prefix that ends at a separator.
-/

namespace PathName

open List

variable {α : Type} (sep : α)

/-- The written form of a list of names. -/
def render : List (List α) → List α
  | [] => [sep]
  | name :: names => (name :: names).flatMap (sep :: ·)

/-- The file is the root or lies below it. -/
def Under (root file : List α) : Prop :=
  file = root ∨ (root.getLast? = some sep ∧ root <+: file) ∨ root ++ [sep] <+: file

instance [DecidableEq α] (root file : List α) : Decidable (Under sep root file) :=
  inferInstanceAs (Decidable (_ ∨ _ ∨ _))

/-- An entry of a directory; a directory that ends in a separator gets no
    second one. -/
def child [DecidableEq α] (dir name : List α) : List α :=
  if dir.getLast? = some sep then dir ++ name else dir ++ sep :: name

variable {sep}

theorem child_extends [DecidableEq α] (sep : α) (dir name : List α) : dir <+: child sep dir name := by
  unfold child
  split
  · exact prefix_append dir name
  · exact prefix_append dir (sep :: name)

/-- What lies under a root stays there with a name appended. -/
theorem Under.child [DecidableEq α] {root file : List α} (h : Under sep root file)
    (name : List α) : Under sep root (child sep file name) := by
  have hchild := child_extends sep file name
  rcases h with h | h | h
  · subst h
    by_cases hlast : file.getLast? = some sep
    · exact .inr (.inl ⟨hlast, hchild⟩)
    · refine .inr (.inr ?_)
      rw [PathName.child, if_neg hlast, show file ++ sep :: name = file ++ [sep] ++ name by simp]
      exact prefix_append _ _
  · exact .inr (.inl ⟨h.1, h.2.trans hchild⟩)
  · exact .inr (.inr (h.trans hchild))

/-- A raw extension of the root that lies under it with a name appended lay
    under it before. -/
theorem under_of_child [DecidableEq α] {root file name : List α} (hroot : root <+: file)
    (h : Under sep root (PathName.child sep file name)) : Under sep root file := by
  obtain ⟨t, rfl⟩ := hroot
  cases t with
  | nil => exact .inl (by simp)
  | cons c t =>
    rcases h with h | h | h
    · -- the appended path is longer than the root
      have hlen := (child_extends sep (root ++ c :: t) name).length_le
      rw [h, length_append, length_cons] at hlen
      omega
    · exact .inr (.inl ⟨h.1, prefix_append _ _⟩)
    · refine .inr (.inr ?_)
      have hpre : root ++ c :: t <+: PathName.child sep (root ++ c :: t) name :=
        child_extends _ _ _
      have hle : (root ++ [sep]).length ≤ (root ++ c :: t).length := by simp
      exact prefix_of_prefix_length_le h hpre hle

end PathName
