import CheriOsTest.Verdicts
set_option autoImplicit false

/-! The check of a test's stdout against all that the test has written: it compares
one bounded read, up to its first NUL. -/

namespace CheriOsTest.Harness
open CheriOsTest.CStrings

/-- The bytes go on after the string where the check no longer looks: after a NUL, or
past the buffer. -/
def GoesOnUnseen (expected out : List UInt8) : Prop :=
  ∃ b rest, out = expected ++ b :: rest ∧
    (expected.length = TEST_BUFFER_LEN-1 ∨ (expected.length < TEST_BUFFER_LEN-1 ∧ b = 0))

/-- The check tells whether the bytes are exactly those that the test promises: its
string, or none when it has no string and does not ask to be ignored. -/
structure StdoutExact (o : Options) (t : CheriTest) (w : World) (out : List UInt8) : Prop where
  expected : t.has CT_FLAG_STDOUT_STRING →
    (checkStdout o t { w with stdout := .ok out } = .ok () ↔ out = upToNul t.ctStdoutString)
  silent : ¬ t.has CT_FLAG_STDOUT_STRING → ¬ t.has CT_FLAG_STDOUT_IGNORE →
    (checkStdout o t { w with stdout := .ok out } = .ok () ↔ out = [])

theorem stdout_expected_iff {o : Options} {t : CheriTest} (w : World) (out : List UInt8)
    (hs : t.has CT_FLAG_STDOUT_STRING) :
    checkStdout o t { w with stdout := .ok out } = .ok () ↔
      (out = upToNul t.ctStdoutString ∧ (upToNul t.ctStdoutString).length ≤ TEST_BUFFER_LEN-1) ∨
        GoesOnUnseen (upToNul t.ctStdoutString) out := by
  rw [checkStdout_eq_ok,GoesOnUnseen,← upToNul_take_eq_iff upToNul_ne]
  constructor
  · intro h
    obtain ⟨_,hr,heq⟩ := h.expected hs
    cases hr
    exact beq_iff_eq.mp heq
  · exact fun h => ⟨fun _ => ⟨_,rfl,beq_iff_eq.mpr h⟩,fun hn => absurd hs hn⟩

theorem stdout_silent_iff {o : Options} {t : CheriTest} (w : World) (out : List UInt8)
    (hs : ¬ t.has CT_FLAG_STDOUT_STRING) (hi : ¬ t.has CT_FLAG_STDOUT_IGNORE) :
    checkStdout o t { w with stdout := .ok out } = .ok () ↔ out = [] := by
  rw [checkStdout_eq_ok]
  constructor
  · exact fun h => h.silent hs hi _ rfl
  · rintro rfl
    refine ⟨fun h => absurd h hs,fun _ _ _ hr => ?_⟩
    cases hr
    rfl

/-- The check is exact unless the string fills the buffer, or is there with more after it
that the check does not see. -/
theorem stdout_exact_iff (o : Options) (t : CheriTest) (w : World) (out : List UInt8) :
    StdoutExact o t w out ↔
      (t.has CT_FLAG_STDOUT_STRING →
        (out = upToNul t.ctStdoutString → out.length < TEST_BUFFER_LEN) ∧
          ¬ GoesOnUnseen (upToNul t.ctStdoutString) out) := by
  have hone : TEST_BUFFER_LEN = TEST_BUFFER_LEN-1+1 := rfl
  constructor
  · intro h hs
    have hiff := (stdout_expected_iff w out hs).symm.trans (h.expected hs)
    constructor
    · intro heq
      rcases hiff.mpr heq with ⟨-,hle⟩ | ⟨b,rest,hout,-⟩
      · rw [heq]
        omega
      · rw [heq,List.self_eq_append_right] at hout
        cases hout
    · intro hmore
      have heq := hiff.mp (.inr hmore)
      obtain ⟨b,rest,hout,-⟩ := hmore
      rw [heq,List.self_eq_append_right] at hout
      cases hout
  · intro h
    refine ⟨fun hs => ?_,fun hs hi => stdout_silent_iff w out hs hi⟩
    obtain ⟨hshort,hno⟩ := h hs
    rw [stdout_expected_iff w out hs]
    constructor
    · intro hor
      exact (hor.resolve_right hno).1
    · intro heq
      have hlt := hshort heq
      rw [heq] at hlt
      exact .inl ⟨heq,by omega⟩

def promiseTest (s : CString) : CheriTest :=
  ⟨cstr "promise",false,false,CT_FLAG_STDOUT_STRING,0,0,0,[],s,none,none⟩

/-- The check takes `a`, a NUL and `b` for `a`, and not a string of 1024 bytes for itself. -/
theorem stdout_inexact :
    (checkStdout ⟨false,0⟩ (promiseTest [97]) { plainWorld with stdout := .ok [97,0,98] } = .ok () ∧
      [97,0,98] ≠ upToNul [97]) ∧
    checkStdout ⟨false,0⟩ (promiseTest (List.replicate 1024 97))
      { plainWorld with stdout := .ok (List.replicate 1024 97) } ≠ .ok () := by
  refine ⟨⟨?_,by decide⟩,fun h => ?_⟩
  · refine (stdout_expected_iff plainWorld [97,0,98] (by decide)).mpr (.inr ⟨0,[98],rfl,.inr ?_⟩)
    decide
  · have hself : upToNul (List.replicate 1024 (97 : UInt8)) = List.replicate 1024 97 :=
      upToNul_eq_self (fun b hb => by rw [List.eq_of_mem_replicate hb]; decide)
    have hstr : (promiseTest (List.replicate 1024 97)).ctStdoutString = List.replicate 1024 97 := rfl
    have hcheck := (stdout_expected_iff plainWorld (List.replicate 1024 97) (by decide)).mp h
    rw [hstr,hself,List.length_replicate] at hcheck
    rcases hcheck with ⟨-,hle⟩ | ⟨b,rest,hout,-⟩
    · exact absurd hle (by decide)
    · rw [List.self_eq_append_right] at hout
      cases hout

end CheriOsTest.Harness
