import Mathlib
set_option autoImplicit false

/-! C strings. A string is the list of its bytes before the NUL; an array that
may or may not hold a NUL is read through `upToNul`. -/

namespace CheriOsTest.CStrings

abbrev CString := List UInt8

/-- A string literal of the source. -/
def cstr (s : String) : CString := s.toList.map (fun c => UInt8.ofNat c.toNat)

/-- The string a `char` array holds: its bytes before the first NUL. -/
def upToNul (bs : List UInt8) : CString := bs.takeWhile (· != 0)

/-- `strcmp(a, b) == 0`. -/
def streq (a b : List UInt8) : Bool := upToNul a == upToNul b

/-- The string that `snprintf` leaves in a buffer of `size` bytes. -/
def snprintf (size : Nat) (s : CString) : CString := s.take (size-1)

/-- The conversion `%d`. -/
def fmtD (n : Int) : CString := cstr (toString n)

/-- The conversion `%#jx`. -/
def fmtX (n : Nat) : CString :=
  if n = 0 then cstr "0" else cstr "0x" ++ (Nat.toDigits 16 n).map (fun c => UInt8.ofNat c.toNat)

/-- The conversion `%lx`. -/
def fmtLx (n : Nat) : CString := (Nat.toDigits 16 n).map (fun c => UInt8.ofNat c.toNat)

/-- The conversion `%02x` of a `char`, which is unsigned here. -/
def fmt02x (b : UInt8) : CString :=
  let digits := fmtLx b.toNat
  (cstr "0").take (2-digits.length) ++ digits

theorem upToNul_append {s : List UInt8} (hs : ∀ b ∈ s, b ≠ 0) (rest : List UInt8) :
    upToNul (s ++ rest) = s ++ upToNul rest := by
  rw [upToNul,List.takeWhile_append_of_pos (by simpa using hs)]
  rfl

theorem upToNul_append_nul (s rest : List UInt8) : upToNul (s ++ 0 :: rest) = upToNul s := by
  rw [upToNul,upToNul,List.takeWhile_append]
  split_ifs with hs
  · have hself := List.IsPrefix.eq_of_length (List.takeWhile_prefix (· != 0)) hs
    rw [hself]
    exact List.append_nil s
  · rfl

theorem upToNul_ne {s : List UInt8} : ∀ b ∈ upToNul s, b ≠ 0 := by
  intro b hb
  simpa using List.mem_takeWhile_imp hb

theorem upToNul_eq_self {s : List UInt8} (hs : ∀ b ∈ s, b ≠ 0) : upToNul s = s := by
  simpa [upToNul] using upToNul_append hs []

theorem upToNul_take_eq_iff {n : Nat} {bs s : List UInt8} (hs : ∀ b ∈ s, b ≠ 0) :
    upToNul (bs.take n) = s ↔ (bs = s ∧ s.length ≤ n) ∨
      ∃ b rest, bs = s ++ b :: rest ∧ (s.length = n ∨ (s.length < n ∧ b = 0)) := by
  constructor
  · intro h
    have hsplit : bs.take n = s ++ (bs.take n).dropWhile (· != 0) := by
      rw [← h,upToNul,List.takeWhile_append_dropWhile]
    have hlen := congrArg List.length hsplit
    rw [List.length_take,List.length_append] at hlen
    cases htail : (bs.take n).dropWhile (· != 0) with
    | nil =>
      rw [htail,List.append_nil] at hsplit
      cases hrest : bs.drop n with
      | nil =>
        left
        rw [List.take_of_length_le (List.drop_eq_nil_iff.mp hrest)] at hsplit
        exact ⟨hsplit,by omega⟩
      | cons b rest =>
        right
        refine ⟨b,rest,?_,.inl ?_⟩
        · rw [← hsplit,← hrest,List.take_append_drop]
        · have hne : bs.drop n ≠ [] := by
            rw [hrest]
            exact List.cons_ne_nil b rest
          have hlt := List.length_pos_iff.mpr hne
          rw [List.length_drop] at hlt
          rw [htail,List.length_nil] at hlen
          omega
    | cons b tail =>
      right
      refine ⟨b,tail ++ bs.drop n,?_,.inr ⟨?_,?_⟩⟩
      · rw [← List.cons_append,← List.append_assoc,← htail,← hsplit,List.take_append_drop]
      · rw [htail,List.length_cons] at hlen
        omega
      · have hb := List.head?_dropWhile_not (· != 0) (bs.take n)
        simpa [htail] using hb
  · rintro (⟨rfl,hle⟩ | ⟨b,rest,rfl,heq | ⟨hlt,rfl⟩⟩)
    · rw [List.take_of_length_le hle,upToNul_eq_self hs]
    · rw [List.take_append_of_le_length (Nat.le_of_eq heq.symm),
        List.take_of_length_le (Nat.le_of_eq heq),upToNul_eq_self hs]
    · rw [List.take_append,List.take_of_length_le (Nat.le_of_lt hlt)]
      have hn : n-s.length = (n-s.length-1)+1 := by omega
      rw [hn,List.take_succ_cons,upToNul_append hs]
      simp [upToNul]

end CheriOsTest.CStrings
