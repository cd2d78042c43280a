import CheriOsTest.Programs
import CheriOsTest.Scan
set_option autoImplicit false

/-! The printed form of a capability, and the tests of `strfcap` and `printf` that read it
back with `sscanf`. -/

namespace CheriOsTest.CapText
open CheriOsTest.CStrings CheriOsTest.Programs CheriOsTest.Scan

structure Cap where
  tag : Bool
  address : UInt64
  base : UInt64
  length : UInt64
  perms : UInt64
  otype : Int
  flags : UInt64

def Cap.top (c : Cap) : UInt64 := c.base+c.length

/-- What the headers define. -/
structure Platform where
  load : UInt64
  store : UInt64
  execute : UInt64
  loadCap : UInt64
  storeCap : UInt64
  permCap : UInt64
  loadMutable : UInt64
  executive : UInt64
  hasLoadStoreCap : Bool
  hasPermCap : Bool
  hasLoadMutable : Bool
  aarch64 : Bool
  unsealed : Int
  sentry : Int
  flagsCapMode : Option UInt64

/-- A permission, its letter, and the letter that a failure names. -/
structure PermLetter where
  mask : UInt64
  letter : UInt8
  named : CString

def printfLetters (p : Platform) : List PermLetter :=
  [⟨p.load,114,cstr "r"⟩,⟨p.store,119,cstr "w"⟩,⟨p.execute,120,cstr "x"⟩] ++
    (if p.hasLoadStoreCap then [⟨p.loadCap,82,cstr "R"⟩,⟨p.storeCap,87,cstr "W"⟩] else []) ++
    (if p.hasPermCap then [⟨p.permCap,67,cstr "C"⟩] else []) ++
    if p.hasLoadMutable then [⟨p.loadMutable,77,cstr "l"⟩] else []

def strfcapLetters (p : Platform) : List PermLetter :=
  printfLetters p ++ if p.aarch64 then [⟨p.executive,69,cstr "E"⟩] else []

inductive Stop where
  | abort
  | errx (msg : CString)

/-- One step of `permsp` over the permissions. -/
def permStep (c : Cap) (descr permsp : CString) (l : PermLetter) : Except Stop CString :=
  if c.perms &&& l.mask = 0 then pure permsp
  else if permsp.head? = some l.letter then pure permsp.tail
  else .error (.errx (cstr "Missing '" ++ l.named ++ cstr "' permission for " ++ descr))

def checkPerms (letters : List PermLetter) (c : Cap) (descr perms : CString) : Except Stop Unit := do
  let permsp ← letters.foldlM (permStep c descr) perms
  failIf (permsp ≠ []) (.errx (cstr "Extra permissions '" ++ permsp ++ cstr "' for " ++ descr))

/-- `strstr(attr, word) != NULL`. -/
def strstr (attr word : CString) : Bool := decide (word <:+: attr)

def checkTag (c : Cap) (descr attr : CString) : Except Stop Unit :=
  if c.tag then
    failIf (strstr attr (cstr "invalid")) (.errx (cstr "Tagged cap marked invalid for " ++ descr))
  else
    failIf (¬ strstr attr (cstr "invalid"))
      (.errx (cstr "Untagged cap not marked invalid for " ++ descr))

def checkType (p : Platform) (c : Cap) (descr attr : CString) : Except Stop Unit :=
  if c.otype = p.unsealed then do
    failIf (strstr attr (cstr "sealed")) (.errx (cstr "Unsealed cap marked as sealed for " ++ descr))
    failIf (strstr attr (cstr "sentry")) (.errx (cstr "Unsealed cap marked as sentry for " ++ descr))
  else if c.otype = p.sentry then do
    failIf (strstr attr (cstr "sealed")) (.errx (cstr "Sentry cap marked as sealed for " ++ descr))
    failIf (¬ strstr attr (cstr "sentry"))
      (.errx (cstr "Sentry cap not marked as sentry for " ++ descr))
  else do
    failIf (¬ strstr attr (cstr "sealed"))
      (.errx (cstr "Sealed cap not marked as sealed for " ++ descr))
    failIf (strstr attr (cstr "sentry")) (.errx (cstr "Sealed cap marked as sentry for " ++ descr))

def Cap.codeIn (c : Cap) (p : Platform) (mode : UInt64) : Prop :=
  c.perms &&& p.execute ≠ 0 ∧ c.flags = mode

instance (c : Cap) (p : Platform) (mode : UInt64) : Decidable (c.codeIn p mode) :=
  inferInstanceAs (Decidable (_ ∧ _))

def checkMode (p : Platform) (c : Cap) (descr attr : CString) : Except Stop Unit :=
  match p.flagsCapMode with
  | none => pure ()
  | some mode =>
    if c.codeIn p mode then
      failIf (¬ strstr attr (cstr "capmode"))
        (.errx (cstr "Capability mode code cap not marked capmode for " ++ descr))
    else
      failIf (strstr attr (cstr "capmode"))
        (.errx (cstr "Non-capability mode code cap marked capmode for " ++ descr))

/-- `"%lx [%15[^,],%lx-%lx] %31s"`. -/
def capFormat : List Directive :=
  [.hex,.space,.lit 91,.set 15 (· != 44),.lit 44,.hex,.lit 45,.hex,.lit 93,.space,.word 31]

def checkAddress (c : Cap) (descr : CString) (addr : UInt64) : Except Stop Unit :=
  failIf (addr ≠ c.address) (.errx (cstr "Mismatched address for " ++ descr))

def checkBounds (c : Cap) (descr : CString) (base top : UInt64) : Except Stop Unit := do
  failIf (base ≠ c.base) (.errx (cstr "Mismatched base for " ++ descr))
  failIf (top ≠ c.top) (.errx (cstr "Mismatched top for " ++ descr))

/-- What the two tests of one capability share. They differ in the permissions that they know
and in whether they look at the mode. -/
def capOne (p : Platform) (letters : List PermLetter) (mode : Bool) (c : Cap) (expectedTokens : Int)
    (descr str : CString) : Except Stop Unit := do
  failIf (¬ (expectedTokens = 1 ∨ expectedTokens = 4 ∨ expectedTokens = 5)) .abort
  let (tokens,values) := sscanf capFormat str
  failIf (tokens ≠ expectedTokens) (.errx (cstr "Mismatched tokens for " ++ descr ++
    cstr ", expected " ++ fmtD expectedTokens ++ cstr " got " ++ fmtD tokens))
  match values with
  | [.num addr] => checkAddress c descr addr
  | [.num addr,.str perms,.num base,.num top] =>
    checkAddress c descr addr
    checkPerms letters c descr perms
    checkBounds c descr base top
  | [.num addr,.str perms,.num base,.num top,.str attr] =>
    checkAddress c descr addr
    checkPerms letters c descr perms
    checkBounds c descr base top
    checkTag c descr attr
    checkType p c descr attr
    if mode then checkMode p c descr attr
  -- the format has no other values for 1, 4 and 5 tokens
  | _ => pure ()

/-- `str` has 128 bytes. -/
def testStrfcapCCapOne (p : Platform) (strfcap : Cap → CString) (c : Cap) (expectedTokens : Int)
    (descr : CString) : Except Stop Unit :=
  capOne p (strfcapLetters p) true c expectedTokens descr (snprintf 128 (strfcap c))

def testPrintfCapOne (p : Platform) (asprintf : Cap → CString) (c : Cap) (expectedTokens : Int)
    (descr : CString) : Except Stop Unit :=
  capOne p (printfLetters p) false c expectedTokens descr (asprintf c)

/-- The letters of the permissions that the capability has. -/
def shown (letters : List PermLetter) (c : Cap) : CString :=
  (letters.filter fun l => c.perms &&& l.mask ≠ 0).map PermLetter.letter

/-- What may stand behind an address. -/
structure BoundsForm where
  letters : CString
  base : UInt64
  top : UInt64
  attr : CString

/-- A text of the documented shape: an address, alone or with letters, bounds and attributes. -/
structure CapForm where
  address : UInt64
  bounds : Option BoundsForm

def BoundsForm.text (num : UInt64 → CString) (b : BoundsForm) : CString :=
  cstr " [" ++ (b.letters ++ (cstr "," ++ (num b.base ++ (cstr "-" ++ (num b.top ++ (cstr "]" ++
    ((if b.attr = [] then [] else cstr " ") ++ b.attr)))))))

/-- The text, where `num` prints the numbers. -/
def CapForm.text (num : UInt64 → CString) (t : CapForm) : CString :=
  num t.address ++ t.bounds.elim [] (BoundsForm.text num)

end CheriOsTest.CapText
