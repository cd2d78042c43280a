import CheriOsTest.Programs
set_option autoImplicit false

/-! `getopt` for options without arguments. It stops at the first argument that is
no option, and gives the letters before it to the caller one by one. -/

namespace CheriOsTest.Getopt
open CheriOsTest.Programs

variable {σ ε : Type}

def dash : UInt8 := 45

/-- What `getopt` returns for a letter: itself when it is known, else a question mark. -/
def opt (optstring : List UInt8) (c : UInt8) : UInt8 :=
  if c ∈ optstring ∧ c ≠ 58 then c else 63

/-- The option loop with body `f`; the arguments it leaves are handed back with its state. -/
def options (optstring : List UInt8) (f : σ → UInt8 → Except ε σ) :
    List (List UInt8) → σ → Except ε (σ × List (List UInt8))
  | [],s => .ok (s,[])
  | (d :: c :: cs) :: rest,s =>
    if d ≠ dash then .ok (s,(d :: c :: cs) :: rest)
    else if c = dash ∧ cs = [] then .ok (s,rest)
    else do
      let s ← (c :: cs).foldlM (fun s c => f s (opt optstring c)) s
      options optstring f rest s
  | arg :: rest,s => .ok (s,arg :: rest)

variable {optstring : List UInt8} {f : σ → UInt8 → Except ε σ}

theorem options_operand {arg : List UInt8} {rest : List (List UInt8)} {s : σ}
    (h : arg.head? ≠ some dash) : options optstring f (arg :: rest) s = .ok (s,arg :: rest) := by
  cases arg with
  | nil => rfl
  | cons d arg =>
    cases arg with
    | nil => rfl
    | cons c cs =>
      have hd : d ≠ dash := fun hc => h (by rw [hc]; rfl)
      rw [options,if_pos hd]

/-- Letters given one an argument, each known and accepted. -/
theorem options_letters {g : σ → UInt8 → σ} {letters : List UInt8} {rest : List (List UInt8)}
    (h : ∀ c ∈ letters, c ∈ optstring ∧ c ≠ 58 ∧ c ≠ dash ∧ ∀ s, f s c = .ok (g s c)) (s : σ) :
    options optstring f (letters.map (fun c => [dash,c]) ++ rest) s =
      options optstring f rest (letters.foldl g s) := by
  induction letters generalizing s with
  | nil => rfl
  | cons c letters ih =>
    obtain ⟨hmem,hcolon,hdash,hf⟩ := h c List.mem_cons_self
    rw [List.map_cons,List.cons_append,options,if_neg (not_not.mpr rfl),
      if_neg (fun hc => hdash hc.1),List.foldlM_cons,opt,if_pos ⟨hmem,hcolon⟩,hf]
    exact ih (fun d hd => h d (List.mem_cons_of_mem c hd)) (g s c)

end CheriOsTest.Getopt
