import Mathlib
set_option autoImplicit false

/-! Search over the neighbours in a list: the first pair that `f` has an answer
for, from the front or, on the reversed list, from the back. -/

namespace CheriOsTest.Search

variable {α β : Type}

/-- `b` follows directly after `a`. -/
def Neighbours (l : List α) (a b : α) : Prop := ∃ p q, l = p ++ a :: b :: q

def firstNeighbours (f : α → α → Option β) : List α → Option β
  | a :: b :: l =>
    match f a b with
    | some x => some x
    | none => firstNeighbours f (b :: l)
  | _ => none

theorem neighbours_cons_cons {a b c d : α} {l : List α} :
    Neighbours (a :: b :: l) c d ↔ (c = a ∧ d = b) ∨ Neighbours (b :: l) c d := by
  constructor
  · intro h
    obtain ⟨p,q,h⟩ := h
    cases p with
    | nil =>
      cases h
      exact .inl ⟨rfl,rfl⟩
    | cons x p => exact .inr ⟨p,q,(List.cons.inj h).2⟩
  · intro h
    rcases h with ⟨rfl,rfl⟩ | ⟨p,q,h⟩
    · exact ⟨[],l,rfl⟩
    · exact ⟨a :: p,q,by rw [h]; rfl⟩

theorem not_neighbours_nil {c d : α} : ¬ Neighbours [] c d := by
  intro h
  obtain ⟨p,q,h⟩ := h
  simpa using congrArg List.length h

theorem not_neighbours_singleton {a c d : α} : ¬ Neighbours [a] c d := by
  intro h
  obtain ⟨p,q,h⟩ := h
  have hl := congrArg List.length h
  simp at hl
  omega

theorem Neighbours.mem {l : List α} {a b : α} (h : Neighbours l a b) : a ∈ l ∧ b ∈ l := by
  obtain ⟨p,q,rfl⟩ := h
  simp

/-- Neighbours lie before a pair of neighbours, are that pair, or lie after it. -/
theorem neighbours_append {p q : List α} {a b c d : α} (h : Neighbours (p ++ a :: b :: q) c d) :
    Neighbours (p ++ [a]) c d ∨ (c = a ∧ d = b) ∨ Neighbours (b :: q) c d := by
  induction p with
  | nil => exact .inr (neighbours_cons_cons.mp h)
  | cons x p ih =>
    cases p with
    | nil =>
      rcases neighbours_cons_cons.mp h with h | h
      · exact .inl (neighbours_cons_cons.mpr (.inl h))
      · exact .inr (neighbours_cons_cons.mp h)
    | cons y p =>
      rcases neighbours_cons_cons.mp h with h | h
      · exact .inl (neighbours_cons_cons.mpr (.inl h))
      · rcases ih h with h | h
        · exact .inl (neighbours_cons_cons.mpr (.inr h))
        · exact .inr h

theorem neighbours_reverse {l : List α} {a b : α} :
    Neighbours l.reverse a b ↔ Neighbours l b a := by
  constructor
  · intro h
    obtain ⟨p,q,h⟩ := h
    exact ⟨q.reverse,p.reverse,by rw [← List.reverse_reverse l,h]; simp⟩
  · intro h
    obtain ⟨p,q,h⟩ := h
    exact ⟨q.reverse,p.reverse,by rw [h]; simp⟩

theorem firstNeighbours_eq_none {f : α → α → Option β} {l : List α} :
    firstNeighbours f l = none ↔ ∀ a b, Neighbours l a b → f a b = none := by
  induction l with
  | nil => exact ⟨fun _ _ _ h => absurd h not_neighbours_nil,fun _ => rfl⟩
  | cons a l ih =>
    cases l with
    | nil => exact ⟨fun _ _ _ h => absurd h not_neighbours_singleton,fun _ => rfl⟩
    | cons b l =>
      rw [firstNeighbours]
      cases hf : f a b with
      | some x =>
        constructor
        · intro h
          cases h
        · intro h
          rw [h a b (neighbours_cons_cons.mpr (.inl ⟨rfl,rfl⟩))] at hf
          cases hf
      | none =>
        rw [ih]
        constructor
        · intro h c d hn
          rcases neighbours_cons_cons.mp hn with ⟨rfl,rfl⟩ | hn
          · exact hf
          · exact h c d hn
        · exact fun h c d hn => h c d (neighbours_cons_cons.mpr (.inr hn))

/-- The answer is that of a pair before which no pair has one. -/
theorem firstNeighbours_eq_some {f : α → α → Option β} {l : List α} {x : β}
    (h : firstNeighbours f l = some x) : ∃ p a b q, l = p ++ a :: b :: q ∧ f a b = some x ∧
      ∀ c d, Neighbours (p ++ [a]) c d → f c d = none := by
  induction l with
  | nil => cases h
  | cons a l ih =>
    cases l with
    | nil => cases h
    | cons b l =>
      rw [firstNeighbours] at h
      cases hf : f a b with
      | some y =>
        rw [hf] at h
        cases h
        exact ⟨[],a,b,l,rfl,hf,fun _ _ hn => absurd hn not_neighbours_singleton⟩
      | none =>
        rw [hf] at h
        obtain ⟨p,a',b',q,hl,hx,hno⟩ := ih h
        refine ⟨a :: p,a',b',q,by rw [hl]; rfl,hx,fun c d hn => ?_⟩
        cases p with
        | nil =>
          cases hl
          rcases neighbours_cons_cons.mp hn with ⟨rfl,rfl⟩ | hn
          · exact hf
          · exact absurd hn not_neighbours_singleton
        | cons b'' p =>
          cases hl
          rcases neighbours_cons_cons.mp hn with ⟨rfl,rfl⟩ | hn
          · exact hf
          · exact hno c d hn

end CheriOsTest.Search
