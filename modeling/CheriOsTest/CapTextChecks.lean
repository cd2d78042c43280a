import CheriOsTest.CapText
set_option autoImplicit false

/-! What the tests of printed capabilities accept: of a text in the documented shape the
number of tokens that it has, if it says what the capability is. A text without a permission
letter has one token only, and the test of `printf` does not know the letter `E`. -/

namespace CheriOsTest.CapText
open CheriOsTest.CStrings CheriOsTest.Programs CheriOsTest.Scan

section Checks

variable {p : Platform} {c : Cap} {descr attr : CString}

theorem shown_append (l l' : List PermLetter) (c : Cap) :
    shown (l ++ l') c = shown l c ++ shown l' c := by simp [shown]

theorem foldlM_permStep (letters : List PermLetter) (perms rest : CString) :
    letters.foldlM (permStep c descr) perms = .ok rest ↔ perms = shown letters c ++ rest := by
  induction letters generalizing perms with
  | nil => simp [shown,pure,Except.pure]
  | cons l letters ih =>
    rw [List.foldlM_cons,bind_eq_ok]
    by_cases hl : c.perms &&& l.mask = 0
    · simp [permStep,hl,pure,Except.pure,ih,shown]
    · cases perms with
      | nil => simp [permStep,hl,shown]
      | cons b perms =>
        by_cases hb : b = l.letter
        · simp [permStep,hl,hb,pure,Except.pure,ih,shown]
        · simp [permStep,hl,hb,shown]

theorem checkPerms_eq_ok (letters : List PermLetter) (perms : CString) :
    checkPerms letters c descr perms = .ok () ↔ perms = shown letters c := by
  rw [checkPerms,bind_eq_ok]
  constructor
  · rintro ⟨rest,hrest,hend⟩
    rw [failIf_eq_ok,not_not] at hend
    rw [foldlM_permStep] at hrest
    rw [hrest,hend,List.append_nil]
  · intro h
    refine ⟨[],(foldlM_permStep ..).mpr (by simpa using h),?_⟩
    simp [failIf_eq_ok]

/-- The attributes say what the capability is. -/
structure AttrsMatch (p : Platform) (mode : Bool) (c : Cap) (attr : CString) : Prop where
  invalid : strstr attr (cstr "invalid") = !c.tag
  isSealed : strstr attr (cstr "sealed") = decide (c.otype ≠ p.unsealed ∧ c.otype ≠ p.sentry)
  sentry : strstr attr (cstr "sentry") = decide (c.otype ≠ p.unsealed ∧ c.otype = p.sentry)
  capmode : mode = true → ∀ m, p.flagsCapMode = some m →
    strstr attr (cstr "capmode") = decide (c.codeIn p m)

theorem checkTag_eq_ok : checkTag c descr attr = .ok () ↔
    strstr attr (cstr "invalid") = !c.tag := by
  unfold checkTag
  cases c.tag <;> simp [failIf_eq_ok]

theorem checkType_eq_ok : checkType p c descr attr = .ok () ↔
    strstr attr (cstr "sealed") = decide (c.otype ≠ p.unsealed ∧ c.otype ≠ p.sentry) ∧
      strstr attr (cstr "sentry") = decide (c.otype ≠ p.unsealed ∧ c.otype = p.sentry) := by
  unfold checkType
  by_cases hu : c.otype = p.unsealed
  · simp [hu,failIf_bind_eq_ok,failIf_eq_ok]
  · by_cases hs : c.otype = p.sentry
    · simp [hs,failIf_bind_eq_ok,failIf_eq_ok,hs ▸ hu]
    · simp [hu,hs,failIf_bind_eq_ok,failIf_eq_ok]

theorem checkMode_eq_ok : checkMode p c descr attr = .ok () ↔ ∀ m, p.flagsCapMode = some m →
    strstr attr (cstr "capmode") = decide (c.codeIn p m) := by
  unfold checkMode
  cases p.flagsCapMode with
  | none => simp [pure,Except.pure]
  | some m => by_cases hm : c.codeIn p m <;> simp [hm,failIf_eq_ok]

/-- A result of the parts of a capability is what the tests ask for. -/
theorem checks_eq_ok (c : Cap) (descr : CString) (letters : List PermLetter)
    {addr base top : UInt64} {perms : CString} :
    (do checkAddress c descr addr
        checkPerms letters c descr perms
        checkBounds c descr base top) = .ok () ↔
      addr = c.address ∧ perms = shown letters c ∧ base = c.base ∧ top = c.top := by
  simp [checkAddress,checkBounds,bind_unit_eq_ok,failIf_eq_ok,checkPerms_eq_ok]

theorem attrs_eq_ok (descr : CString) {mode : Bool} :
    (do checkTag c descr attr
        checkType p c descr attr
        if mode then checkMode p c descr attr) = .ok () ↔ AttrsMatch p mode c attr := by
  rw [bind_unit_eq_ok,bind_unit_eq_ok,checkTag_eq_ok,checkType_eq_ok]
  cases mode with
  | false =>
    exact ⟨fun h => ⟨h.1,h.2.1.1,h.2.1.2,fun hm => (by cases hm)⟩,
      fun h => ⟨h.invalid,⟨h.isSealed,h.sentry⟩,rfl⟩⟩
  | true =>
    rw [if_pos rfl,checkMode_eq_ok]
    exact ⟨fun h => ⟨h.1,h.2.1.1,h.2.1.2,fun _ => h.2.2⟩,
      fun h => ⟨h.invalid,⟨h.isSealed,h.sentry⟩,h.capmode rfl⟩⟩

/-- What the tests ask of the values, given that there are as many as expected. -/
def ValuesMatch (p : Platform) (letters : List PermLetter) (mode : Bool) (c : Cap) :
    List Value → Prop
  | [.num addr] => addr = c.address
  | [.num addr,.str perms,.num base,.num top] =>
    addr = c.address ∧ perms = shown letters c ∧ base = c.base ∧ top = c.top
  | [.num addr,.str perms,.num base,.num top,.str attr] =>
    (addr = c.address ∧ perms = shown letters c ∧ base = c.base ∧ top = c.top) ∧
      AttrsMatch p mode c attr
  | _ => True

theorem capOne_eq_ok (letters : List PermLetter) (mode : Bool) (expectedTokens : Int)
    (str : CString) : capOne p letters mode c expectedTokens descr str = .ok () ↔
      (expectedTokens = 1 ∨ expectedTokens = 4 ∨ expectedTokens = 5) ∧
        (sscanf capFormat str).1 = expectedTokens ∧
        ValuesMatch p letters mode c (sscanf capFormat str).2 := by
  simp only [capOne,failIf_bind_eq_ok,not_not,ne_eq]
  refine and_congr_right fun _ => and_congr_right fun _ => ?_
  generalize (sscanf capFormat str).2 = values
  split
  · simp [ValuesMatch,checkAddress,failIf_eq_ok]
  · exact checks_eq_ok c descr letters
  · rw [ValuesMatch,← checks_eq_ok c descr letters,← attrs_eq_ok descr]
    simp only [bind_unit_eq_ok,and_assoc]
  case h_4 hone hfour hfive =>
    unfold ValuesMatch
    split
    · exact absurd rfl (hone _)
    · exact absurd rfl (hfour _ _ _ _)
    · exact absurd rfl (hfive _ _ _ _ _)
    · simp [pure,Except.pure]

end Checks

section Format

variable {p : Platform} {c : Cap}

/-- A way to print numbers that `%lx` reads back, in at most `width` bytes. -/
structure Readable (num : UInt64 → CString) (width : Nat) : Prop where
  reads : ∀ n rest, (∀ b ∈ rest.head?, isHex b = false ∧ b ≠ 120 ∧ b ≠ 88) →
    scanHex (num n ++ rest) = some (n,rest)
  length_le : ∀ n, (num n).length ≤ width

theorem Readable.run {num : UInt64 → CString} {width : Nat} (h : Readable num width) (n : UInt64)
    (rest : CString) (hrest : ∀ b ∈ rest.head?, isHex b = false ∧ b ≠ 120 ∧ b ≠ 88) :
    Directive.hex.run (num n ++ rest) = some ([.num n],rest) := by
  simp [Directive.run,h.reads n rest hrest]

theorem readable_fmtLx : Readable (fun n => fmtLx n.toNat) 16 where
  reads n _ h := scanHex_fmtLx n h
  length_le := fmtLx_length_le

theorem readable_fmtX : Readable (fun n => fmtX n.toNat) 18 where
  reads n _ h := scanHex_fmtX n h
  length_le n := by
    have hlen := fmtLx_length_le n
    unfold fmtX
    split_ifs
    · decide
    · simp only [List.length_append]
      have h2 : (cstr "0x").length = 2 := by decide
      rw [fmtLx] at hlen
      omega

/-- The letters and the attributes fit into `perms` and `attr`, and neither ends early. -/
structure BoundsForm.Fits (b : BoundsForm) : Prop where
  letters_length : b.letters.length ≤ 15
  letters_ne : ∀ x ∈ b.letters, x ≠ 44
  attr_length : b.attr.length ≤ 31
  attr_ne : ∀ x ∈ b.attr, isSpace x = false

def CapForm.Fits (t : CapForm) : Prop := ∀ b ∈ t.bounds, b.Fits

/-- The tokens of a text. -/
def CapForm.tokens (t : CapForm) : Int :=
  match t.bounds with
  | none => 1
  | some b => if b.letters = [] then 1 else if b.attr = [] then 4 else 5

/-- As far as it is read, the text says what the capability is. -/
structure CapForm.Describes (p : Platform) (letters : List PermLetter) (mode : Bool) (c : Cap)
    (t : CapForm) : Prop where
  address : t.address = c.address
  bounds : ∀ b ∈ t.bounds, b.letters ≠ [] →
    b.letters = shown letters c ∧ b.base = c.base ∧ b.top = c.top
  attrs : ∀ b ∈ t.bounds, b.letters ≠ [] → b.attr ≠ [] → AttrsMatch p mode c b.attr

theorem BoundsForm.text_eq (num : UInt64 → CString) (b : BoundsForm) : ∃ tail,
    b.text num = 32 :: 91 :: (b.letters ++ 44 :: (num b.base ++ 45 :: (num b.top ++ 93 :: tail))) ∧
      tail = if b.attr = [] then [] else 32 :: b.attr := by
  have hbracket : cstr " [" = [32,91] := by decide
  have hcomma : cstr "," = [44] := by decide
  have hdash : cstr "-" = [45] := by decide
  have hclose : cstr "]" = [93] := by decide
  have hspace : cstr " " = [32] := by decide
  refine ⟨_,?_,rfl⟩
  rw [BoundsForm.text,hbracket,hcomma,hdash,hclose,hspace]
  by_cases h : b.attr = [] <;> simp [h]

variable {num : UInt64 → CString} {width : Nat} {address : UInt64} {b : BoundsForm}

theorem scan_address (hnum : Readable num width) :
    scan capFormat ((CapForm.mk address none).text num) = [.num address] := by
  have hrun := hnum.run address [] (by simp)
  rw [CapForm.text,Option.elim_none,capFormat,scan_cons hrun]
  simp [scan,Directive.run]

/-- Without a permission letter the conversions end at `%15[^,]`. -/
theorem scan_no_letters (hnum : Readable num width) (h : b.letters = []) :
    scan capFormat ((CapForm.mk address (some b)).text num) = [.num address] := by
  obtain ⟨tail,htext,-⟩ := b.text_eq num
  rw [CapForm.text,Option.elim_some,htext,h,capFormat,
    scan_cons (hnum.run address _ (by simp [isHex])),scan_cons (run_space rfl (by simp [isSpace])),
    scan_cons (run_lit 91 _)]
  simp [scan,Directive.run,scanSet]

/-- The values of a text with letters. -/
theorem scan_bounds (address : UInt64) (hnum : Readable num width) (hfits : b.Fits)
    (hletters : b.letters ≠ []) :
    scan capFormat ((CapForm.mk address (some b)).text num) =
      [.num address,.str b.letters,.num b.base,.num b.top] ++
        if b.attr = [] then [] else [.str b.attr] := by
  have hset : ∀ rest, (Directive.set 15 (· != 44)).run (b.letters ++ 44 :: rest) =
      some ([.str b.letters],44 :: rest) := by
    intro rest
    rw [Directive.run,scanSet_append hletters hfits.letters_length
      (by simpa using hfits.letters_ne) (by simp)]
    rfl
  obtain ⟨tail,htext,htail⟩ := b.text_eq num
  rw [CapForm.text,Option.elim_some,htext,capFormat,
    scan_cons (hnum.run address _ (by simp [isHex])),scan_cons (run_space rfl (by simp [isSpace])),
    scan_cons (run_lit 91 _),scan_cons (hset _),scan_cons (run_lit 44 _),
    scan_cons (hnum.run b.base _ (by simp [isHex])),scan_cons (run_lit 45 _),
    scan_cons (hnum.run b.top _ (by simp [isHex])),scan_cons (run_lit 93 _)]
  by_cases hattr : b.attr = []
  · rw [htail,if_pos hattr,if_pos hattr]
    simp [scan,Directive.run,scanSet]
  · have hword := run_word [] hattr hfits.attr_length hfits.attr_ne (by simp)
    have hfirst : Directive.space.run (32 :: b.attr) = some ([],b.attr) :=
      run_space rfl fun x hx => hfits.attr_ne x (List.mem_of_mem_head? hx)
    rw [List.append_nil] at hword
    rw [htail,if_neg hattr,if_neg hattr,scan_cons hfirst,scan_cons hword]
    simp [scan]

/-- The values that are read are those of the text. -/
theorem valuesMatch_iff (hnum : Readable num width) (letters : List PermLetter) (mode : Bool)
    {t : CapForm} (hfits : t.Fits) :
    (sscanf capFormat (t.text num)).1 = t.tokens ∧
      (ValuesMatch p letters mode c (sscanf capFormat (t.text num)).2 ↔
        t.Describes p letters mode c) := by
  obtain ⟨address,_ | b⟩ := t
  · simp only [sscanf,scan_address hnum,ValuesMatch]
    exact ⟨by simp [CapForm.tokens],fun h => ⟨h,by simp,by simp⟩,fun h => h.address⟩
  by_cases hletters : b.letters = []
  · simp only [sscanf,scan_no_letters hnum hletters,ValuesMatch]
    exact ⟨by simp [CapForm.tokens,hletters],
      fun h => ⟨h,by simp [hletters],by simp [hletters]⟩,fun h => h.address⟩
  have hscan := scan_bounds address hnum (hfits b rfl) hletters
  by_cases hattr : b.attr = []
  · rw [if_pos hattr,List.append_nil] at hscan
    simp only [sscanf,hscan,ValuesMatch]
    refine ⟨by simp [CapForm.tokens,hletters,hattr],fun h => ⟨h.1,?_,?_⟩,fun h => ?_⟩
    · rintro _ ⟨⟩ _
      exact h.2
    · rintro _ ⟨⟩ _ hne
      exact absurd hattr hne
    · exact ⟨h.address,h.bounds b rfl hletters⟩
  · rw [if_neg hattr] at hscan
    simp only [sscanf,hscan,List.cons_append,List.nil_append,ValuesMatch]
    refine ⟨by simp [CapForm.tokens,hletters,hattr],fun h => ⟨h.1.1,?_,?_⟩,fun h => ?_⟩
    · rintro _ ⟨⟩ _
      exact h.1.2
    · rintro _ ⟨⟩ _ _
      exact h.2
    · exact ⟨⟨h.address,h.bounds b rfl hletters⟩,h.attrs b rfl hletters hattr⟩

/-- A text of the documented shape passes with its own number of tokens, if it describes the
capability in the letters of the test. -/
theorem capOne_text (hnum : Readable num width) (letters : List PermLetter) (mode : Bool)
    (expectedTokens : Int) (descr : CString) {t : CapForm} (hfits : t.Fits) :
    capOne p letters mode c expectedTokens descr (t.text num) = .ok () ↔
      expectedTokens = t.tokens ∧ t.Describes p letters mode c := by
  obtain ⟨htokens,hvalues⟩ := valuesMatch_iff (p := p) (c := c) hnum letters mode hfits
  have hcase : t.tokens = 1 ∨ t.tokens = 4 ∨ t.tokens = 5 := by
    unfold CapForm.tokens
    split
    · exact .inl rfl
    · split_ifs <;> simp
  rw [capOne_eq_ok,htokens,hvalues]
  constructor
  · exact fun h => ⟨h.2.1.symm,h.2.2⟩
  · rintro ⟨rfl,h⟩
    exact ⟨hcase,rfl,h⟩

theorem text_length (hnum : Readable num 18) {t : CapForm} (hfits : t.Fits) :
    (t.text num).length ≤ 127 := by
  have haddress := hnum.length_le t.address
  obtain ⟨address,_ | b⟩ := t
  · simp only [CapForm.text,Option.elim_none,List.append_nil]
    exact haddress.trans (by decide)
  · obtain ⟨hletters,-,hattr,-⟩ := hfits b rfl
    obtain ⟨tail,htext,htail⟩ := b.text_eq num
    have hbase := hnum.length_le b.base
    have htop := hnum.length_le b.top
    have hlen : tail.length ≤ 32 := by
      rw [htail]
      split_ifs <;> simp
      omega
    simp only [CapForm.text,Option.elim_some,htext,List.length_append,List.length_cons]
    dsimp only at haddress
    omega

/-- What `strfcap` writes passes exactly with the tokens that it has, and exactly where it
describes the capability; without a permission letter there is one token only. -/
theorem strfcap_accepts_iff (p : Platform) (strfcap : Cap → CString) (c : Cap)
    (hnum : Readable num 18) {t : CapForm} (hfits : t.Fits) (htext : strfcap c = t.text num)
    (expectedTokens : Int) (descr : CString) :
    testStrfcapCCapOne p strfcap c expectedTokens descr = .ok () ↔
      expectedTokens = t.tokens ∧ t.Describes p (strfcapLetters p) true c := by
  have hcut : snprintf 128 (t.text num) = t.text num :=
    List.take_of_length_le (text_length hnum hfits)
  rw [testStrfcapCCapOne,htext,hcut,capOne_text hnum _ _ _ _ hfits]

theorem shown_strfcapLetters (p : Platform) (c : Cap) :
    shown (strfcapLetters p) c = shown (printfLetters p) c ↔
      ¬ (p.aarch64 = true ∧ c.perms &&& p.executive ≠ 0) := by
  rw [strfcapLetters,shown_append]
  cases p.aarch64 <;> simp [shown]

/-- What the test of `strfcap` takes for a description is one for the test of `printf`, but for
the permission that only one architecture has. -/
theorem CapForm.Describes.printf {t : CapForm} (h : t.Describes p (strfcapLetters p) true c) :
    t.Describes p (printfLetters p) false c ↔
      t.tokens = 1 ∨ ¬ (p.aarch64 = true ∧ c.perms &&& p.executive ≠ 0) := by
  rw [← shown_strfcapLetters]
  obtain ⟨address,_ | b⟩ := t
  · exact ⟨fun _ => .inl rfl,fun _ => ⟨h.address,by simp,by simp⟩⟩
  by_cases hletters : b.letters = []
  · refine ⟨fun _ => .inl (by simp [CapForm.tokens,hletters]),fun _ => ⟨h.address,?_,?_⟩⟩
    · rintro _ ⟨⟩ hne
      exact absurd hletters hne
    · rintro _ ⟨⟩ hne
      exact absurd hletters hne
  have hne : (CapForm.mk address (some b)).tokens ≠ 1 := by
    simp only [CapForm.tokens,hletters,if_false]
    split_ifs <;> decide
  have hshown := (h.bounds b rfl hletters).1
  constructor
  · exact fun h' => .inr (hshown.symm.trans (h'.bounds b rfl hletters).1)
  · intro hor
    have hsame := hor.resolve_left hne
    refine ⟨h.address,?_,?_⟩
    · rintro _ ⟨⟩ _
      exact ⟨hshown.trans hsame,(h.bounds b rfl hletters).2⟩
    · rintro _ ⟨⟩ _ hattr
      have hm := h.attrs b rfl hletters hattr
      exact ⟨hm.invalid,hm.isSealed,hm.sentry,fun hc => nomatch hc⟩

/-- The same for `printf`, in its own letters and without the mode. A text that is right for
the test of `strfcap` is refused exactly where its bounds come with the letter that only that
test knows. -/
theorem printf_accepts_iff (p : Platform) (asprintf : Cap → CString) (c : Cap)
    (hnum : Readable num 18) {t : CapForm} (hfits : t.Fits) (htext : asprintf c = t.text num)
    (expectedTokens : Int) (descr : CString) :
    (testPrintfCapOne p asprintf c expectedTokens descr = .ok () ↔
      expectedTokens = t.tokens ∧ t.Describes p (printfLetters p) false c) ∧
    (testStrfcapCCapOne p asprintf c expectedTokens descr = .ok () →
      (testPrintfCapOne p asprintf c expectedTokens descr = .ok () ↔
        t.tokens = 1 ∨ ¬ (p.aarch64 = true ∧ c.perms &&& p.executive ≠ 0))) := by
  have hprintf : testPrintfCapOne p asprintf c expectedTokens descr = .ok () ↔
      expectedTokens = t.tokens ∧ t.Describes p (printfLetters p) false c := by
    rw [testPrintfCapOne,htext,capOne_text hnum _ _ _ _ hfits]
  refine ⟨hprintf,fun h => ?_⟩
  have hcut : snprintf 128 (t.text num) = t.text num :=
    List.take_of_length_le (text_length hnum hfits)
  rw [testStrfcapCCapOne,htext,hcut,capOne_text hnum _ _ _ _ hfits] at h
  rw [hprintf,← h.2.printf]
  exact and_iff_right h.1

/-- The text of the capability, up to the upper bound, in the letters of a table. The bracket
behind it is read only where there are attributes. -/
def Reads (p : Platform) (letters : List PermLetter) (mode : Bool) (c : Cap) (expectedTokens : Int)
    (str : CString) : Prop :=
  ∃ (address base top : HexText) (sp rest : CString),
    str = address.text ++ (sp ++ 91 :: (shown letters c ++ 44 :: (base.text ++ 45 ::
      (top.text ++ rest)))) ∧
    (∀ b ∈ sp, isSpace b = true) ∧ address.value = c.address ∧ base.value = c.base ∧
    top.value = c.top ∧
    (expectedTokens = 5 → ∃ sp' attr rest', rest = 93 :: (sp' ++ (attr ++ rest')) ∧
      (∀ b ∈ sp', isSpace b = true) ∧ (∀ b ∈ attr, isSpace b = false) ∧
      AttrsMatch p mode c attr)

theorem reads_of_capOne {letters : List PermLetter} {mode : Bool} {expectedTokens : Int}
    {descr str : CString} (hexpected : expectedTokens ≠ 1)
    (h : capOne p letters mode c expectedTokens descr str = .ok ()) :
    Reads p letters mode c expectedTokens str := by
  rw [capOne_eq_ok] at h
  obtain ⟨hcase,htokens,hvalues⟩ := h
  have hlength : (sscanf capFormat str).1 = (scan capFormat str).length := by
    simp only [sscanf]
    split_ifs with hnone
    · rw [sscanf,if_pos hnone] at htokens
      omega
    · rfl
  rw [hlength] at htokens
  change ValuesMatch p letters mode c (scan capFormat str) at hvalues
  generalize hscan : scan capFormat str = vs at htokens hvalues
  have hne : ∀ {vs : List Value}, 0 < vs.length → vs ≠ [] := fun h => List.length_pos_iff.mp h
  obtain ⟨address,t,rfl,rfl⟩ := hex_of_scan hscan (hne (by omega))
  generalize hscan : scan _ t = vs at htokens hvalues
  rw [List.length_cons] at htokens
  obtain ⟨sp,t,rfl,hsp,hscan⟩ := space_of_scan hscan
  obtain ⟨t,rfl,hscan⟩ := lit_of_scan hscan (hne (by omega))
  obtain ⟨perms,t,rfl,rfl⟩ := set_of_scan hscan (hne (by omega))
  generalize hscan : scan _ t = vs at htokens hvalues
  rw [List.length_cons] at htokens
  obtain ⟨t,rfl,hscan⟩ := lit_of_scan hscan (hne (by omega))
  obtain ⟨base,t,rfl,rfl⟩ := hex_of_scan hscan (hne (by omega))
  generalize hscan : scan _ t = vs at htokens hvalues
  rw [List.length_cons] at htokens
  obtain ⟨t,rfl,hscan⟩ := lit_of_scan hscan (hne (by omega))
  obtain ⟨top,t,rfl,rfl⟩ := hex_of_scan hscan (hne (by omega))
  generalize hscan : scan _ t = vs at htokens hvalues
  rw [List.length_cons] at htokens
  cases vs with
  | nil =>
    obtain ⟨haddress,rfl,hbase,htop⟩ := hvalues
    refine ⟨address,base,top,sp,t,rfl,hsp,haddress,hbase,htop,fun hfive => ?_⟩
    rw [List.length_nil] at htokens
    omega
  | cons v vs =>
    obtain ⟨t,rfl,hscan⟩ := lit_of_scan hscan (by simp)
    obtain ⟨sp',t,rfl,hsp',hscan⟩ := space_of_scan hscan
    obtain ⟨sp'',attr,t,rfl,hsp'',hattr,hvs⟩ := word_of_scan hscan (by simp)
    cases hvs
    obtain ⟨⟨haddress,rfl,hbase,htop⟩,hmatch⟩ := hvalues
    refine ⟨address,base,top,sp,_,rfl,hsp,haddress,hbase,htop,fun _ =>
      ⟨sp' ++ sp'',attr,t,by simp,fun b hb => ?_,hattr,hmatch⟩⟩
    exact (List.mem_append.mp hb).elim (hsp' b) (hsp'' b)

/-- What either test accepts with bounds, whatever has written it, is the text of the
capability in the letters of that test. -/
theorem accepted_wellFormed (p : Platform) (strfcap asprintf : Cap → CString) (c : Cap)
    {expectedTokens : Int} (descr : CString) (hexpected : expectedTokens ≠ 1) :
    (testStrfcapCCapOne p strfcap c expectedTokens descr = .ok () →
      Reads p (strfcapLetters p) true c expectedTokens (snprintf 128 (strfcap c))) ∧
    (testPrintfCapOne p asprintf c expectedTokens descr = .ok () →
      Reads p (printfLetters p) false c expectedTokens (asprintf c)) :=
  ⟨reads_of_capOne hexpected,reads_of_capOne hexpected⟩

def plainPlatform : Platform where
  load := 0x20000
  store := 0x10000
  execute := 0x8000
  loadCap := 0x4000
  storeCap := 0x2000
  permCap := 0
  loadMutable := 0x40
  executive := 0x2
  hasLoadStoreCap := true
  hasPermCap := false
  hasLoadMutable := true
  aarch64 := true
  unsealed := 0
  sentry := 1
  flagsCapMode := none

/-- An untagged capability for a stack array. -/
def plainCap : Cap where
  tag := false
  address := 0xfffff7ff80
  base := 0xfffff7ff80
  length := 0x40
  perms := 0x36040
  otype := 0
  flags := 0

/-- `0xfffff7ff80 [rwRWM,0xfffff7ff80-0xfffff7ffc0] (invalid)`. -/
def plainForm : CapForm :=
  ⟨0xfffff7ff80,some ⟨cstr "rwRWM",0xfffff7ff80,0xfffff7ffc0,cstr "(invalid)"⟩⟩

theorem plainForm_fits : plainForm.Fits := by
  rintro _ ⟨⟩
  exact ⟨by decide,by decide +kernel,by decide,by decide +kernel⟩

theorem plainForm_describes :
    plainForm.Describes plainPlatform (strfcapLetters plainPlatform) true plainCap where
  address := rfl
  bounds := by
    rintro _ ⟨⟩ _
    exact ⟨by decide,by decide,by decide⟩
  attrs := by
    rintro _ ⟨⟩ _ _
    exact ⟨by decide,by decide,by decide,fun _ m hm => nomatch hm⟩

theorem strfcap_accepts_plainCap : testStrfcapCCapOne plainPlatform
    (fun _ => plainForm.text fun n => fmtX n.toNat) plainCap 5 (cstr "stack array") = .ok () :=
  (strfcap_accepts_iff plainPlatform _ plainCap readable_fmtX plainForm_fits rfl _ _).mpr
    ⟨by decide,plainForm_describes⟩

/-- With the permission that only one architecture has, and its letter behind the others. -/
theorem printf_refuses_executive :
    let c : Cap := { plainCap with perms := 0x36042 }
    let t : CapForm := ⟨0xfffff7ff80,some ⟨cstr "rwRWME",0xfffff7ff80,0xfffff7ffc0,cstr "(invalid)"⟩⟩
    testPrintfCapOne plainPlatform (fun _ => t.text fun n => fmtX n.toNat) c 5
      (cstr "stack array") ≠ .ok () := by
  intro c t
  have hfits : t.Fits := by
    rintro _ ⟨⟩
    exact ⟨by decide,by decide +kernel,by decide,by decide +kernel⟩
  rw [Ne,(printf_accepts_iff plainPlatform _ c readable_fmtX hfits rfl _ _).1]
  intro h
  exact absurd (h.2.bounds _ rfl (by decide)).1 (by decide)

theorem accepted_wellFormed_plainCap : Reads plainPlatform (strfcapLetters plainPlatform) true
    plainCap 5 (snprintf 128 (plainForm.text fun n => fmtX n.toNat)) := by
  have hlen : (plainForm.text fun n => fmtX n.toNat).length ≤ 127 :=
    text_length readable_fmtX plainForm_fits
  have hcut : snprintf 128 (plainForm.text fun n => fmtX n.toNat) =
      plainForm.text fun n => fmtX n.toNat := List.take_of_length_le hlen
  have h : testStrfcapCCapOne plainPlatform (fun _ => plainForm.text fun n => fmtX n.toNat)
      plainCap 5 (cstr "stack array") = .ok () := by
    rw [testStrfcapCCapOne,hcut,capOne_text readable_fmtX _ _ _ _ plainForm_fits]
    exact ⟨by decide,plainForm_describes⟩
  exact (accepted_wellFormed plainPlatform _ (fun _ => []) plainCap (cstr "stack array")
    (by decide)).1 h

end Format

end CheriOsTest.CapText
