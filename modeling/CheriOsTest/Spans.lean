import Mathlib
set_option autoImplicit false

/-! Spans of addresses, from a first to a last one. Two spans meet when they share an
address; which of their ends then lies in the other one decides what a test of ends can see. -/

namespace CheriOsTest.Spans

variable {α : Type} [LinearOrder α]

abbrev Span (α : Type) [LinearOrder α] := NonemptyInterval α

def Span.Meets (s t : Span α) : Prop := ∃ x, x ∈ s ∧ x ∈ t

def Span.Encloses (s t : Span α) : Prop := s.fst < t.fst ∧ t.snd < s.snd

variable {s t : Span α}

theorem meets_iff : s.Meets t ↔ s.fst ≤ t.snd ∧ t.fst ≤ s.snd := by
  constructor
  · rintro ⟨x,hs,ht⟩
    exact ⟨hs.1.trans ht.2,ht.1.trans hs.2⟩
  · intro h
    rcases le_total s.fst t.fst with hle | hle
    · exact ⟨t.fst,⟨hle,h.2⟩,⟨le_refl _,t.fst_le_snd⟩⟩
    · exact ⟨s.fst,⟨le_refl _,s.fst_le_snd⟩,⟨hle,h.1⟩⟩

/-- What the ends of `s` alone do not show is that it encloses `t`. -/
theorem meets_iff_ends : s.Meets t ↔ (s.fst ∈ t ∨ s.snd ∈ t) ∨ s.Encloses t := by
  rw [meets_iff]
  constructor
  · rintro ⟨hfst,hsnd⟩
    by_cases hf : t.fst ≤ s.fst
    · exact .inl (.inl ⟨hf,hfst⟩)
    · by_cases hl : s.snd ≤ t.snd
      · exact .inl (.inr ⟨hsnd,hl⟩)
      · exact .inr ⟨not_le.mp hf,not_le.mp hl⟩
  · rintro ((h | h) | h)
    · exact ⟨h.2,h.1.trans s.fst_le_snd⟩
    · exact ⟨s.fst_le_snd.trans h.2,h.1⟩
    · exact ⟨h.1.le.trans t.fst_le_snd,t.fst_le_snd.trans h.2.le⟩

theorem meets_iff_lasts : s.Meets t ↔ s.snd ∈ t ∨ t.snd ∈ s := by
  rw [meets_iff]
  constructor
  · rintro ⟨hfst,hsnd⟩
    rcases le_total s.snd t.snd with hle | hle
    · exact .inl ⟨hsnd,hle⟩
    · exact .inr ⟨hfst,hle⟩
  · rintro (h | h)
    · exact ⟨s.fst_le_snd.trans h.2,h.1⟩
    · exact ⟨h.1,t.fst_le_snd.trans h.2⟩

end CheriOsTest.Spans
