import CheriOsTest.CStrings
set_option autoImplicit false

/-! The conversions of `sscanf` that read hexadecimal numbers, words and sets of bytes.
What a format has matched is a split of its input. -/

namespace CheriOsTest.Scan
open CheriOsTest.CStrings

def isSpace (b : UInt8) : Bool := b == 32 || (9 ≤ b && b ≤ 13)

def isHex (b : UInt8) : Bool := (48 ≤ b && b ≤ 57) || (97 ≤ b && b ≤ 102) || (65 ≤ b && b ≤ 70)

def hexValue (b : UInt8) : Nat :=
  if b ≤ 57 then b.toNat-48 else if b ≤ 70 then b.toNat-55 else b.toNat-87

/-- A format: white space, one byte, and the conversions `%lx`, `%w[..]` and `%ws`. -/
inductive Directive where
  | space
  | lit (b : UInt8)
  | hex
  | set (width : Nat) (p : UInt8 → Bool)
  | word (width : Nat)

inductive Value where
  | num (n : UInt64)
  | str (s : CString)
  deriving DecidableEq

/-- A number that is too large becomes the largest one. -/
def ofDigits (minus : Bool) (digits : CString) : UInt64 :=
  let n := digits.foldl (fun n b => 16*n+hexValue b) 0
  if 2^64 ≤ n then UInt64.ofNat (2^64-1)
  else if minus then -UInt64.ofNat n else UInt64.ofNat n

/-- A sign, and what is behind it. -/
def splitSign : CString → CString × CString
  | 43 :: s => ([43],s)
  | 45 :: s => ([45],s)
  | s => ([],s)

def splitPrefix : CString → CString × CString
  | 48 :: 120 :: s => ([48,120],s)
  | 48 :: 88 :: s => ([48,88],s)
  | s => ([],s)

/-- White space, a sign, `0x` and digits, as many as there are. -/
def scanHex (s : CString) : Option (UInt64 × CString) :=
  let (sign,s) := splitSign (s.dropWhile isSpace)
  let s := (splitPrefix s).2
  if s.takeWhile isHex = [] then none
  else some (ofDigits (sign = [45]) (s.takeWhile isHex),s.dropWhile isHex)

/-- At least one byte and at most `width` that are in the set. -/
def scanSet (width : Nat) (p : UInt8 → Bool) (s : CString) : Option (CString × CString) :=
  let t := (s.takeWhile p).take width
  if t = [] then none else some (t,s.drop t.length)

/-- What a directive assigns, and the input behind it. -/
def Directive.run : Directive → CString → Option (List Value × CString)
  | .space,s => some ([],s.dropWhile isSpace)
  | .lit _,[] => none
  | .lit b,c :: s => if c = b then some ([],s) else none
  | .hex,s => (scanHex s).map fun (n,rest) => ([.num n],rest)
  | .set width p,s => (scanSet width p s).map fun (t,rest) => ([.str t],rest)
  | .word width,s =>
    (scanSet width (fun b => !isSpace b) (s.dropWhile isSpace)).map fun (t,rest) => ([.str t],rest)

/-- The values assigned up to the first directive that fails. -/
def scan : List Directive → CString → List Value
  | [],_ => []
  | d :: ds,s =>
    match d.run s with
    | none => []
    | some (vs,rest) => vs ++ scan ds rest

/-- The result of `sscanf`: the number of values, or `EOF` where the input ends before
the first of them. -/
def sscanf (ds : List Directive) (s : CString) : Int × List Value :=
  let vs := scan ds s
  (if vs = [] ∧ s.all isSpace then -1 else vs.length,vs)

/-- The text of a number. -/
structure HexText where
  space : CString
  sign : CString
  pre : CString
  digits : CString
  space_isSpace : ∀ b ∈ space, isSpace b = true
  sign_mem : sign ∈ [[],[43],[45]]
  pre_mem : pre ∈ [[],[48,120],[48,88]]
  digits_ne : digits ≠ []
  digits_isHex : ∀ b ∈ digits, isHex b = true

def HexText.text (h : HexText) : CString := h.space ++ h.sign ++ h.pre ++ h.digits

def HexText.value (h : HexText) : UInt64 := ofDigits (h.sign = [45]) h.digits

section Splits

variable {s rest : CString}

theorem splitSign_spec (s : CString) :
    (splitSign s).1 ++ (splitSign s).2 = s ∧ (splitSign s).1 ∈ [[],[43],[45]] := by
  unfold splitSign
  split <;> simp

theorem splitPrefix_spec (s : CString) :
    (splitPrefix s).1 ++ (splitPrefix s).2 = s ∧ (splitPrefix s).1 ∈ [[],[48,120],[48,88]] := by
  unfold splitPrefix
  split <;> simp

/-- What `%lx` takes is the text of the number that it assigns. -/
theorem scanHex_eq_some {n : UInt64} (h : scanHex s = some (n,rest)) :
    ∃ t : HexText, s = t.text ++ rest ∧ t.value = n := by
  obtain ⟨hsign,hsign'⟩ := splitSign_spec (s.dropWhile isSpace)
  obtain ⟨hpre,hpre'⟩ := splitPrefix_spec (splitSign (s.dropWhile isSpace)).2
  simp only [scanHex] at h
  split_ifs at h with hdigits
  cases h
  refine ⟨⟨s.takeWhile isSpace,_,_,_,fun b hb => List.mem_takeWhile_imp hb,hsign',hpre',hdigits,
    fun b hb => List.mem_takeWhile_imp hb⟩,?_,rfl⟩
  simp only [HexText.text,List.append_assoc,List.takeWhile_append_dropWhile,hpre,hsign]

theorem scanSet_eq_some {width : Nat} {p : UInt8 → Bool} {t : CString}
    (h : scanSet width p s = some (t,rest)) :
    s = t ++ rest ∧ t ≠ [] ∧ t.length ≤ width ∧ ∀ b ∈ t, p b = true := by
  simp only [scanSet] at h
  split_ifs at h with ht
  cases h
  refine ⟨?_,ht,List.length_take_le _ _,fun b hb => ?_⟩
  · exact List.prefix_append_drop ((List.take_prefix _ _).trans (List.takeWhile_prefix p))
  · exact List.mem_takeWhile_imp (List.mem_of_mem_take hb)

/-- A set takes all of `t` where the next byte is outside. -/
theorem scanSet_append {width : Nat} {p : UInt8 → Bool} {t : CString} (hne : t ≠ [])
    (hwidth : t.length ≤ width) (hp : ∀ b ∈ t, p b = true) (hrest : ∀ b ∈ rest.head?, p b = false) :
    scanSet width p (t ++ rest) = some (t,rest) := by
  have htail : rest.takeWhile p = [] := by
    cases rest with
    | nil => rfl
    | cons b r => simp [hrest b rfl]
  have ht : ((t ++ rest).takeWhile p).take width = t := by
    rw [List.takeWhile_append_of_pos (by simpa using hp),htail,List.append_nil,
      List.take_of_length_le hwidth]
  simp [scanSet,ht,hne]

theorem takeWhile_hex_append {digits : CString} (hd : ∀ b ∈ digits, isHex b = true)
    (hrest : ∀ b ∈ rest.head?, isHex b = false) :
    (digits ++ rest).takeWhile isHex = digits ∧ (digits ++ rest).dropWhile isHex = rest := by
  have htail : rest.takeWhile isHex = [] ∧ rest.dropWhile isHex = rest := by
    cases rest with
    | nil => exact ⟨rfl,rfl⟩
    | cons b r => simp [hrest b rfl]
  rw [List.takeWhile_append_of_pos (by simpa using hd),List.dropWhile_append_of_pos (by simpa using hd),
    htail.1,htail.2,List.append_nil]
  exact ⟨rfl,rfl⟩

theorem dropWhile_isSpace {t : CString} (ht : ∀ b ∈ t.head?, isSpace b = false) :
    t.dropWhile isSpace = t := by
  cases t with
  | nil => rfl
  | cons b t => simp [ht b rfl]

theorem run_space {b : UInt8} {t : CString} (hb : isSpace b = true)
    (ht : ∀ c ∈ t.head?, isSpace c = false) : Directive.space.run (b :: t) = some ([],t) := by
  simp [Directive.run,hb,dropWhile_isSpace ht]

theorem run_word {width : Nat} {t : CString} (rest : CString) (hne : t ≠ []) (hwidth : t.length ≤ width)
    (ht : ∀ b ∈ t, isSpace b = false) (hrest : ∀ b ∈ rest.head?, isSpace b = true) :
    (Directive.word width).run (t ++ rest) = some ([.str t],rest) := by
  have hdrop : (t ++ rest).dropWhile isSpace = t ++ rest := by
    cases t with
    | nil => exact absurd rfl hne
    | cons b t => exact dropWhile_isSpace (by simpa using ht b List.mem_cons_self)
  rw [Directive.run,hdrop,scanSet_append hne hwidth (by simpa using ht) (by simpa using hrest)]
  rfl

theorem run_lit (b : UInt8) (t : CString) : (Directive.lit b).run (b :: t) = some ([],t) := by
  simp [Directive.run]

theorem scan_cons {d : Directive} {ds : List Directive} {t : CString} {vs : List Value}
    (h : d.run t = some (vs,rest)) : scan (d :: ds) t = vs ++ scan ds rest := by
  simp [scan,h]

variable {ds : List Directive} {t : CString} {vs : List Value}

theorem lit_of_scan {b : UInt8} (h : scan (.lit b :: ds) t = vs) (hne : vs ≠ []) :
    ∃ rest, t = b :: rest ∧ scan ds rest = vs := by
  cases t with
  | nil => exact absurd h.symm hne
  | cons c t =>
    by_cases hc : c = b
    · subst hc
      exact ⟨t,rfl,by rwa [scan_cons (run_lit c t),List.nil_append] at h⟩
    · simp [scan,Directive.run,hc] at h
      exact absurd h hne

theorem space_of_scan (h : scan (.space :: ds) t = vs) :
    ∃ sp rest, t = sp ++ rest ∧ (∀ b ∈ sp, isSpace b = true) ∧ scan ds rest = vs :=
  ⟨t.takeWhile isSpace,t.dropWhile isSpace,List.takeWhile_append_dropWhile.symm,
    fun _ hb => List.mem_takeWhile_imp hb,by rwa [scan_cons rfl,List.nil_append] at h⟩

theorem hex_of_scan (h : scan (.hex :: ds) t = vs) (hne : vs ≠ []) :
    ∃ (n : HexText) (rest : CString), t = n.text ++ rest ∧ vs = .num n.value :: scan ds rest := by
  cases hs : scanHex t with
  | none =>
    simp [scan,Directive.run,hs] at h
    exact absurd h hne
  | some r =>
    obtain ⟨n,rest⟩ := r
    obtain ⟨x,hx,hv⟩ := scanHex_eq_some hs
    refine ⟨x,rest,hx,?_⟩
    rw [← h,hv]
    simp [scan,Directive.run,hs]

theorem set_of_scan {width : Nat} {p : UInt8 → Bool} (h : scan (.set width p :: ds) t = vs)
    (hne : vs ≠ []) : ∃ x rest, t = x ++ rest ∧ vs = .str x :: scan ds rest := by
  cases hs : scanSet width p t with
  | none =>
    simp [scan,Directive.run,hs] at h
    exact absurd h hne
  | some r =>
    obtain ⟨x,rest⟩ := r
    refine ⟨x,rest,(scanSet_eq_some hs).1,?_⟩
    rw [← h]
    simp [scan,Directive.run,hs]

theorem word_of_scan {width : Nat} (h : scan (.word width :: ds) t = vs) (hne : vs ≠ []) :
    ∃ sp x rest, t = sp ++ (x ++ rest) ∧ (∀ b ∈ sp, isSpace b = true) ∧
      (∀ b ∈ x, isSpace b = false) ∧ vs = .str x :: scan ds rest := by
  cases hs : scanSet width (fun b => !isSpace b) (t.dropWhile isSpace) with
  | none =>
    simp [scan,Directive.run,hs] at h
    exact absurd h hne
  | some r =>
    obtain ⟨x,rest⟩ := r
    obtain ⟨hx,-,-,hall⟩ := scanSet_eq_some hs
    refine ⟨t.takeWhile isSpace,x,rest,?_,fun _ hb => List.mem_takeWhile_imp hb,by simpa using hall,?_⟩
    · rw [← hx,List.takeWhile_append_dropWhile]
    · rw [← h]
      simp [scan,Directive.run,hs]

end Splits

section Numbers

theorem fmtLx_lt {n : Nat} (h : n < 16) : fmtLx n = [UInt8.ofNat (Nat.digitChar n).toNat] := by
  rw [fmtLx,Nat.toDigits_of_lt_base h]
  rfl

theorem fmtLx_ge {n : Nat} (h : 16 ≤ n) :
    fmtLx n = fmtLx (n/16) ++ [UInt8.ofNat (Nat.digitChar (n%16)).toNat] := by
  rw [fmtLx,Nat.toDigits_of_base_le (by decide) h,List.map_append]
  rfl

theorem digit_spec {n : Nat} (h : n < 16) :
    isHex (UInt8.ofNat (Nat.digitChar n).toNat) = true ∧
      hexValue (UInt8.ofNat (Nat.digitChar n).toNat) = n := by
  interval_cases n <;> decide

theorem fmtLx_isHex (n : Nat) : ∀ b ∈ fmtLx n, isHex b = true := by
  induction n using Nat.strongRecOn with
  | ind n ih =>
    by_cases h : n < 16
    · rw [fmtLx_lt h]
      simpa using (digit_spec h).1
    · rw [fmtLx_ge (by omega)]
      intro b hb
      rcases List.mem_append.mp hb with hb | hb
      · exact ih (n/16) (by omega) b hb
      · rw [List.mem_singleton.mp hb]
        exact (digit_spec (Nat.mod_lt n (by decide))).1

theorem foldl_fmtLx (n : Nat) : (fmtLx n).foldl (fun n b => 16*n+hexValue b) 0 = n := by
  induction n using Nat.strongRecOn with
  | ind n ih =>
    by_cases h : n < 16
    · rw [fmtLx_lt h]
      simpa using (digit_spec h).2
    · rw [fmtLx_ge (by omega),List.foldl_append,ih (n/16) (by omega)]
      simp only [List.foldl_cons,List.foldl_nil,(digit_spec (Nat.mod_lt n (by decide))).2]
      omega

theorem fmtLx_ne_nil (n : Nat) : fmtLx n ≠ [] := by
  simp [fmtLx,Nat.toDigits_ne_nil]

theorem fmtLx_length_le (n : UInt64) : (fmtLx n.toNat).length ≤ 16 := by
  rw [fmtLx,List.length_map]
  exact Nat.toDigits_length 16 n.toNat 16 (by decide) n.toNat_lt

theorem ofDigits_fmtLx (n : UInt64) : ofDigits false (fmtLx n.toNat) = n := by
  have hlt := n.toNat_lt
  simp only [ofDigits,foldl_fmtLx]
  rw [if_neg (by omega)]
  simp

theorem not_hex_x {b : UInt8} (h : isHex b = true) : b ≠ 120 ∧ b ≠ 88 := by
  constructor <;>
  · rintro rfl
    revert h
    decide

theorem splitPrefix_nil {b : UInt8} {s : CString} (h : ∀ c ∈ s.head?, c ≠ 120 ∧ c ≠ 88) :
    splitPrefix (b :: s) = ([],b :: s) := by
  cases s with
  | nil => simp [splitPrefix]
  | cons c s =>
    have hc := h c rfl
    unfold splitPrefix
    split <;> simp_all

theorem splitSign_hex {b : UInt8} {s : CString} (h : isHex b = true) :
    splitSign (b :: s) = ([],b :: s) := by
  unfold splitSign
  split
  case h_1 heq =>
    cases heq
    exact absurd h (by decide)
  case h_2 heq =>
    cases heq
    exact absurd h (by decide)
  case h_3 => rfl

theorem not_isSpace_hex {b : UInt8} (h : isHex b = true) : isSpace b = false := by
  simp only [isHex,Bool.or_eq_true,Bool.and_eq_true,decide_eq_true_eq,UInt8.le_iff_toNat_le,
    UInt8.reduceToNat] at h
  simp only [isSpace,Bool.or_eq_false_iff,Bool.and_eq_false_iff,beq_eq_false_iff_ne,
    decide_eq_false_iff_not,UInt8.le_iff_toNat_le,UInt8.reduceToNat,ne_eq,← UInt8.toNat_inj]
  omega

/-- A number that `%lx` has printed is read back, where no digit and no `x` follows. -/
theorem scanHex_fmtLx (n : UInt64) {rest : CString}
    (hrest : ∀ b ∈ rest.head?, isHex b = false ∧ b ≠ 120 ∧ b ≠ 88) :
    scanHex (fmtLx n.toNat ++ rest) = some (n,rest) := by
  have hhex := fmtLx_isHex n.toNat
  have hvalue := ofDigits_fmtLx n
  have hne := fmtLx_ne_nil n.toNat
  generalize fmtLx n.toNat = digits at hhex hvalue hne
  obtain ⟨htake,hdrop⟩ := takeWhile_hex_append hhex fun b hb => (hrest b hb).1
  cases digits with
  | nil => exact absurd rfl hne
  | cons b s =>
    have hb := hhex b List.mem_cons_self
    have hsecond : ∀ c ∈ (s ++ rest).head?, c ≠ 120 ∧ c ≠ 88 := by
      cases s with
      | nil => exact fun c hc => (hrest c hc).2
      | cons c s =>
        rintro _ ⟨⟩
        exact not_hex_x (hhex c (by simp))
    rw [List.cons_append] at htake hdrop ⊢
    simp [scanHex,not_isSpace_hex hb,splitSign_hex hb,splitPrefix_nil hsecond,htake,hdrop,hvalue]

/-- The same with `0x` in front, as `%#jx` prints it. -/
theorem scanHex_fmtX (n : UInt64) {rest : CString}
    (hrest : ∀ b ∈ rest.head?, isHex b = false ∧ b ≠ 120 ∧ b ≠ 88) :
    scanHex (fmtX n.toNat ++ rest) = some (n,rest) := by
  have hzero : fmtX 0 = fmtLx 0 := by decide
  have hpos : n.toNat ≠ 0 → fmtX n.toNat = 48 :: 120 :: fmtLx n.toNat := by
    intro h
    rw [fmtX,if_neg h]
    rfl
  by_cases h : n.toNat = 0
  · rw [h,hzero,← h]
    exact scanHex_fmtLx n hrest
  · obtain ⟨htake,hdrop⟩ := takeWhile_hex_append (fmtLx_isHex n.toNat) fun b hb => (hrest b hb).1
    rw [hpos h]
    simp [scanHex,isSpace,splitSign,splitPrefix,htake,hdrop,fmtLx_ne_nil,ofDigits_fmtLx]

end Numbers

end CheriOsTest.Scan
