import Mathlib
set_option autoImplicit false

/-! Brackets with labels. A sequence acts on the stack of the labels that are open;
closing any label but the innermost one is an error. -/

namespace CheriOsTest.Nesting

inductive Bracket (α : Type) where
  | opened : α → Bracket α
  | closed : α → Bracket α

/-- Openings less closings. -/
def depth {α : Type} (bs : List (Bracket α)) : Int :=
  (bs.map (fun | .opened _ => 1 | .closed _ => -1)).sum

theorem depth_append {α : Type} (bs cs : List (Bracket α)) :
    depth (bs ++ cs) = depth bs+depth cs := by
  rw [depth,List.map_append,List.sum_append,depth,depth]

variable {α : Type} [DecidableEq α] {s s' : List α} {bs cs : List (Bracket α)}

def nest : List α → List (Bracket α) → Option (List α)
  | s,[] => some s
  | s,.opened a :: bs => nest (a :: s) bs
  | [],.closed _ :: _ => none
  | a :: s,.closed b :: bs => if a = b then nest s bs else none

/-- The sequence leaves every stack as it finds it. -/
def Neutral (bs : List (Bracket α)) : Prop := ∀ s, nest s bs = some s

def WellNested (bs : List (Bracket α)) : Prop := nest [] bs = some []

theorem nest_append (s : List α) (bs cs : List (Bracket α)) :
    nest s (bs ++ cs) = (nest s bs).bind (fun s' => nest s' cs) := by
  induction bs generalizing s with
  | nil => rfl
  | cons b bs ih =>
    cases b with
    | opened a => exact ih (a :: s)
    | closed a =>
      cases s with
      | nil => rfl
      | cons a' s =>
        rw [List.cons_append,nest,nest,ih s]
        split_ifs <;> rfl

theorem Neutral.nil : Neutral ([] : List (Bracket α)) := fun _ => rfl

theorem Neutral.append (h : Neutral bs) (h' : Neutral cs) : Neutral (bs ++ cs) := by
  intro s
  rw [nest_append,h s]
  exact h' s

theorem Neutral.wrap (a : α) (h : Neutral bs) :
    Neutral (.opened a :: (bs ++ [.closed a])) := by
  intro s
  rw [nest,nest_append,h (a :: s)]
  simp [nest]

theorem Neutral.wellNested (h : Neutral bs) : WellNested bs := h []

theorem length_of_nest (h : nest s bs = some s') : (s'.length : Int) = s.length+depth bs := by
  induction bs generalizing s with
  | nil =>
    cases h
    simp [depth]
  | cons b bs ih =>
    cases b with
    | opened a =>
      have hlen := ih h
      simp [depth] at hlen ⊢
      omega
    | closed a =>
      cases s with
      | nil => cases h
      | cons a' s =>
        rw [nest] at h
        split_ifs at h
        have hlen := ih h
        simp [depth] at hlen ⊢
        omega

theorem WellNested.depth_eq (h : WellNested bs) : depth bs = 0 := by
  have hlen := length_of_nest h
  simp at hlen
  omega

theorem Neutral.depth_eq (h : Neutral bs) : depth bs = 0 := h.wellNested.depth_eq

end CheriOsTest.Nesting
