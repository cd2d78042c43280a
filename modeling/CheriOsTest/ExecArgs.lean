import CheriOsTest.BoundedArrays
import CheriOsTest.CommandLine
set_option autoImplicit false

/-! The argument vector that a test execs its child with: where `mk_exec_args` stores
it, and what the option loop of the new process makes of it. -/

namespace CheriOsTest.Harness
open CheriOsTest.CStrings CheriOsTest.Programs CheriOsTest.Getopt CheriOsTest.BoundedArrays

def PATH_MAX : OS → Nat
  | .freeBSD => 1024
  | .linux => 4096

/-- What the system answers; a path that it cannot give is the text of an errno. -/
structure ExecSys where
  os : OS
  malloc : Bool
  calloc : Bool
  execpath : Except CString CString

inductive ExecStop where
  | leave : Leave → ExecStop
  | outOfBounds

def push {α : Type} : Cursor α → α → Except ExecStop (Cursor α) := Cursor.push .outOfBounds

def getExecpath (sys : ExecSys) (execpath : Cursor UInt8) : Except ExecStop (Cursor UInt8) :=
  match sys.os,sys.execpath with
  | .linux,.error strerror => .error (.leave (.errx EX_OSERR (cstr "readlink: " ++ strerror)))
  | .linux,.ok path => do
    -- readlink stores no NUL, and as much of a longer path as it may
    let execpath ← (path.take (PATH_MAX .linux)).foldlM push execpath
    push execpath 0
  | .freeBSD,.error strerror =>
    .error (.leave (.errx EX_OSERR (cstr "elf_aux_info: " ++ strerror)))
  | .freeBSD,.ok path =>
    if path.length < PATH_MAX .freeBSD then (path ++ [0]).foldlM push execpath
    else .error (.leave (.errx EX_OSERR (cstr "elf_aux_info: Invalid argument")))

def mkExecArgs (sys : ExecSys) (s : Settings) (ctp : CheriTest)
    (extraArgs : Option (List CString)) : Except ExecStop (List (Option CString)) := do
  let extra := extraArgs.getD []
  failIf (¬ sys.malloc) (.leave (.err EX_OSERR (cstr "malloc")))
  failIf (¬ sys.calloc) (.leave (.err EX_OSERR (cstr "calloc")))
  let execpath ← getExecpath sys (.fresh (PATH_MAX sys.os) 0)
  let args ← push (.fresh (6+extra.length) none) (some (upToNul execpath.slots))
  let args ← push args (some (cstr "-E"))
  let args ← if 0 < extra.length then push args (some (cstr "-K")) else pure args
  let args ← if s.coredumpEnabled then push args (some (cstr "-c")) else pure args
  let args ← if s.verbose ≠ 0 then push args (some (cstr "-v")) else pure args
  let args ← push args (some ctp.ctName)
  let args ← (extra.map some).foldlM push args
  let args ← push args none
  pure args.slots

/-- The strings that exec finds: those before the first NULL. -/
def argvOf (slots : List (Option CString)) : List CString :=
  (slots.takeWhile Option.isSome).filterMap id

/-- The letters that `mk_exec_args` puts between the path and the name. -/
def execLetters (s : Settings) (extra : List CString) : List UInt8 :=
  cstr "E" ++ (if extra = [] then [] else cstr "K") ++
    (if s.coredumpEnabled then cstr "c" else []) ++ if s.verbose ≠ 0 then cstr "v" else []

def execArgv (path : CString) (s : Settings) (name : CString) (extra : List CString) :
    List CString :=
  path :: ((execLetters s extra).map (fun c => [dash,c]) ++ name :: extra)

/-- Every optional argument is there, which the allocation has no room for. -/
def Overfull (s : Settings) (extra : List CString) : Prop :=
  extra ≠ [] ∧ s.coredumpEnabled ∧ s.verbose ≠ 0

section Stores

variable {path : CString}

theorem argvOf_stored (argv : List CString) (rest : List (Option CString)) :
    argvOf (argv.map some ++ none :: rest) = argv := by
  induction argv with
  | nil => rfl
  | cons a argv ih =>
    rw [argvOf] at ih ⊢
    rw [List.map_cons,List.cons_append,List.takeWhile_cons_of_pos rfl,List.filterMap_cons,ih]
    rfl

theorem execArgv_length (path : CString) (s : Settings) (name : CString) (extra : List CString) :
    (execArgv path s name extra).length ≤ 5+extra.length ↔ ¬ Overfull s extra := by
  rw [execArgv,Overfull]
  by_cases he : extra = [] <;> by_cases hc : s.coredumpEnabled <;> by_cases hv : s.verbose = 0 <;>
    simp [execLetters,he,hc,hv,cstr] <;> omega

theorem mkExecArgs_eq (sys : ExecSys) (s : Settings) (ctp : CheriTest)
    (extraArgs : Option (List CString)) :
    mkExecArgs sys s ctp extraArgs = (do
      failIf (¬ sys.malloc) (.leave (.err EX_OSERR (cstr "malloc")))
      failIf (¬ sys.calloc) (.leave (.err EX_OSERR (cstr "calloc")))
      let execpath ← getExecpath sys (.fresh (PATH_MAX sys.os) 0)
      let args ← ((execArgv (upToNul execpath.slots) s ctp.ctName (extraArgs.getD [])).map some ++
        [none]).foldlM push (.fresh (6+(extraArgs.getD []).length) none)
      pure args.slots) := by
  rw [mkExecArgs]
  refine congrArg _ (funext fun _ => congrArg _ (funext fun _ => congrArg _ (funext fun p => ?_)))
  have hE : cstr "E" = [69] ∧ cstr "-E" = [dash,69] := by decide
  have hK : cstr "K" = [75] ∧ cstr "-K" = [dash,75] := by decide
  have hc : cstr "c" = [99] ∧ cstr "-c" = [dash,99] := by decide
  have hv : cstr "v" = [118] ∧ cstr "-v" = [dash,118] := by decide
  by_cases he : extraArgs.getD [] = []
  · by_cases hd : s.coredumpEnabled <;> by_cases hb : s.verbose = 0 <;>
      simp [execArgv,execLetters,he,hd,hb,hE,hc,hv]
  · have hpos := List.length_pos_iff.mpr he
    by_cases hd : s.coredumpEnabled <;> by_cases hb : s.verbose = 0 <;>
      simp [execArgv,execLetters,he,hd,hb,hpos,hE,hK,hc,hv]

theorem getExecpath_short {sys : ExecSys} (hp : sys.execpath = .ok path)
    (h : path.length < PATH_MAX sys.os) :
    ∃ execpath, getExecpath sys (.fresh (PATH_MAX sys.os) 0) = .ok execpath := by
  rw [getExecpath,hp]
  cases hos : sys.os with
  | freeBSD =>
    rw [hos] at h
    simp only [h,if_true]
    rw [push,pushes_fresh,if_pos (by simpa using h)]
    exact ⟨_,rfl⟩
  | linux =>
    rw [hos] at h
    simp only [List.take_of_length_le (Nat.le_of_lt h)]
    rw [push,pushes_fresh,if_pos (Nat.le_of_lt h)]
    refine ⟨_,if_pos ?_⟩
    simp only [List.length_append,List.length_replicate]
    omega

/-- A path that fills the whole of the buffer: `elf_aux_info` refuses it, `readlink` does not. -/
theorem getExecpath_long {sys : ExecSys} (hp : sys.execpath = .ok path)
    (h : ¬ path.length < PATH_MAX sys.os) :
    (sys.os = .linux ∧
      getExecpath sys (.fresh (PATH_MAX sys.os) 0) = .error .outOfBounds) ∨
    (sys.os = .freeBSD ∧
      ∃ l, getExecpath sys (.fresh (PATH_MAX sys.os) 0) = .error (.leave l)) := by
  rw [getExecpath,hp]
  cases hos : sys.os with
  | freeBSD =>
    rw [hos] at h
    exact .inr ⟨rfl,_,if_neg h⟩
  | linux =>
    rw [hos] at h
    have hl : (path.take (PATH_MAX .linux)).length = PATH_MAX .linux := by
      rw [List.length_take]
      omega
    refine .inl ⟨rfl,?_⟩
    simp only
    rw [push,pushes_fresh,if_pos (Nat.le_of_eq hl)]
    refine if_neg ?_
    simp only [List.length_append,List.length_replicate]
    omega

theorem mkExecArgs_of_execpath {sys : ExecSys} (s : Settings) (ctp : CheriTest)
    (extraArgs : Option (List CString)) {execpath : Cursor UInt8} (hm : sys.malloc)
    (hc : sys.calloc) (hp : getExecpath sys (.fresh (PATH_MAX sys.os) 0) = .ok execpath) :
    (¬ Overfull s (extraArgs.getD []) ∧ ∃ rest, mkExecArgs sys s ctp extraArgs =
      .ok ((execArgv (upToNul execpath.slots) s ctp.ctName (extraArgs.getD [])).map some ++
        none :: rest)) ∨
    (Overfull s (extraArgs.getD []) ∧ mkExecArgs sys s ctp extraArgs = .error .outOfBounds) := by
  have hfit := execArgv_length (upToNul execpath.slots) s ctp.ctName (extraArgs.getD [])
  rw [mkExecArgs_eq,hp]
  simp only [hm,hc,failIf,not_true_eq_false,if_false,bind,Except.bind]
  rw [push,pushes_fresh]
  generalize execArgv (upToNul execpath.slots) s ctp.ctName (extraArgs.getD []) = argv at hfit ⊢
  simp only [List.length_append,List.length_map,List.length_singleton]
  by_cases h : Overfull s (extraArgs.getD [])
  · have hno : ¬ argv.length ≤ 5+(extraArgs.getD []).length := fun hc => hfit.mp hc h
    exact .inr ⟨h,by rw [if_neg (by omega)]⟩
  · have hle := hfit.mpr h
    rw [if_pos (by omega)]
    refine .inl ⟨h,List.replicate (6+(extraArgs.getD []).length-(argv.length+1)) none,?_⟩
    rw [List.append_assoc]
    rfl

end Stores

/-- No store leaves its array: the path leaves room for its NUL, and the vector, if it
comes to that, is not overfull. -/
def StoresFit (sys : ExecSys) (s : Settings) (extra : List CString) : Prop :=
  sys.malloc → sys.calloc → ∀ path, sys.execpath = .ok path →
    (sys.os = .linux → path.length < PATH_MAX .linux) ∧
      (path.length < PATH_MAX sys.os → ¬ Overfull s extra)

/-- `mk_exec_args` stays inside its two arrays exactly when `StoresFit` holds. -/
theorem mkExecArgs_inBounds_iff (sys : ExecSys) (s : Settings) (ctp : CheriTest)
    (extraArgs : Option (List CString)) :
    mkExecArgs sys s ctp extraArgs ≠ .error .outOfBounds ↔
      StoresFit sys s (extraArgs.getD []) := by
  by_cases hm : sys.malloc
  case neg =>
    have he : mkExecArgs sys s ctp extraArgs = .error (.leave (.err EX_OSERR (cstr "malloc"))) := by
      simp [mkExecArgs,hm,failIf,bind,Except.bind]
    rw [he]
    exact ⟨fun _ hc => absurd hc hm,fun _ h => by cases h⟩
  by_cases hc : sys.calloc
  case neg =>
    have he : mkExecArgs sys s ctp extraArgs = .error (.leave (.err EX_OSERR (cstr "calloc"))) := by
      simp [mkExecArgs,hm,hc,failIf,bind,Except.bind]
    rw [he]
    exact ⟨fun _ _ h => absurd h hc,fun _ h => by cases h⟩
  cases hp : sys.execpath with
  | error strerror =>
    have he : ∃ l, mkExecArgs sys s ctp extraArgs = .error (.leave l) := by
      rw [mkExecArgs_eq,getExecpath,hp]
      cases sys.os <;> simp [hm,hc,failIf,bind,Except.bind]
    obtain ⟨l,he⟩ := he
    rw [he]
    refine ⟨fun _ _ _ path h => ?_,fun _ h => by cases h⟩
    rw [hp] at h
    cases h
  | ok path =>
    have hfit : StoresFit sys s (extraArgs.getD []) ↔
        (sys.os = .linux → path.length < PATH_MAX .linux) ∧
          (path.length < PATH_MAX sys.os → ¬ Overfull s (extraArgs.getD [])) := by
      constructor
      · exact fun h => h hm hc path hp
      · intro h _ _ path' hp'
        rw [hp] at hp'
        cases hp'
        exact h
    rw [hfit]
    by_cases hlen : path.length < PATH_MAX sys.os
    · obtain ⟨execpath,hget⟩ := getExecpath_short hp hlen
      have hos : sys.os = .linux → path.length < PATH_MAX .linux := fun h => h ▸ hlen
      rcases mkExecArgs_of_execpath s ctp extraArgs hm hc hget with
        ⟨hno,rest,he⟩ | ⟨hover,he⟩
      · rw [he]
        exact ⟨fun _ => ⟨hos,fun _ => hno⟩,fun _ h => by cases h⟩
      · rw [he]
        exact ⟨fun h => absurd rfl h,fun h => absurd hover (h.2 hlen)⟩
    · rcases getExecpath_long hp hlen with ⟨hos,hget⟩ | ⟨hos,l,hget⟩
      · have he : mkExecArgs sys s ctp extraArgs = .error .outOfBounds := by
          rw [mkExecArgs_eq,hget]
          simp [hm,hc,failIf,bind,Except.bind]
        rw [he]
        exact ⟨fun h => absurd rfl h,fun h => absurd (h.1 hos) (by rw [hos] at hlen; exact hlen)⟩
      · have he : mkExecArgs sys s ctp extraArgs = .error (.leave l) := by
          rw [mkExecArgs_eq,hget]
          simp [hm,hc,failIf,bind,Except.bind]
        rw [he]
        exact ⟨fun _ => ⟨fun h => absurd (hos.symm.trans h) (by decide),fun h => absurd h hlen⟩,
          fun _ h => by cases h⟩

def plainExecSys : ExecSys := ⟨.freeBSD,true,true,.ok (cstr "/bin/cheriostest")⟩

theorem plainExecSys_execpath : plainExecSys.execpath = .ok (cstr "/bin/cheriostest") := rfl

theorem plainExecSys_short : (cstr "/bin/cheriostest").length < PATH_MAX plainExecSys.os := by
  decide

/-- With all three optional arguments the NULL goes past the vector, and a path of
`PATH_MAX` bytes on Linux puts its NUL past the buffer. -/
theorem mkExecArgs_overruns :
    mkExecArgs plainExecSys { Settings.initial with coredumpEnabled := true, verbose := 1 }
      plainTest (some [cstr "x"]) = .error .outOfBounds ∧
    mkExecArgs ⟨.linux,true,true,.ok (List.replicate 4096 47)⟩ .initial plainTest none =
      .error .outOfBounds := by
  constructor
  · obtain ⟨execpath,hget⟩ := getExecpath_short plainExecSys_execpath plainExecSys_short
    rcases mkExecArgs_of_execpath { Settings.initial with coredumpEnabled := true, verbose := 1 }
      plainTest (some [cstr "x"]) rfl rfl hget with ⟨hno,-⟩ | ⟨-,he⟩
    · exact absurd ⟨by decide,rfl,by decide⟩ hno
    · exact he
  · have hlen : ¬ (List.replicate 4096 (47 : UInt8)).length < PATH_MAX .linux := by
      rw [List.length_replicate]
      decide
    let sys : ExecSys := ⟨.linux,true,true,.ok (List.replicate 4096 47)⟩
    have hp : sys.execpath = .ok (List.replicate 4096 47) := rfl
    rcases getExecpath_long hp hlen with ⟨-,hget⟩ | ⟨hos,-⟩
    · rw [mkExecArgs_eq,hget]
      rfl
    · cases hos

/-- The new process runs the child of `t` with the parent's settings and the extra arguments. -/
structure ExecedAs (t : RegisteredTest) (s : Settings) (extra : List CString)
    (r : Settings × List CString × Task) : Prop where
  child : r.1.isExecedChild
  task : r.2.2 = .child t
  coredump : r.1.coredumpEnabled = s.coredumpEnabled
  verbose : r.1.verbose = s.verbose
  argv : r.2.1 = t.ctName :: extra

section RoundTrip

variable {os : OS} {qemu : Option Nat} {s : Settings} {extra : List CString}

/-- The settings that the option loop of the new process ends with. -/
def execSettings (s : Settings) (extra : List CString) : Settings :=
  { Settings.initial with
    isExecedChild := true
    execedChildHasExtraArgv := extra ≠ []
    coredumpEnabled := s.coredumpEnabled
    verbose := if s.verbose ≠ 0 then 1 else 0 }

/-- What one of the letters of `mk_exec_args` does to the settings. -/
def execLetter (s : Settings) (c : UInt8) : Settings :=
  if c = 69 then { s with isExecedChild := true }
  else if c = 75 then { s with execedChildHasExtraArgv := true }
  else if c = 99 then { s with coredumpEnabled := true }
  else { s with verbose := s.verbose+1 }

theorem execLetters_mem {c : UInt8} (h : c ∈ execLetters s extra) :
    c = 69 ∨ c = 75 ∨ c = 99 ∨ c = 118 := by
  have hE : cstr "E" = [69] ∧ cstr "K" = [75] ∧ cstr "c" = [99] ∧ cstr "v" = [118] := by decide
  rw [execLetters] at h
  simp only [List.mem_append,hE] at h
  split_ifs at h <;> simp at h <;> tauto

theorem execLetters_foldl :
    (execLetters s extra).foldl execLetter .initial = execSettings s extra := by
  by_cases he : extra = [] <;> by_cases hc : s.coredumpEnabled <;> by_cases hv : s.verbose = 0 <;>
    simp [execLetters,execSettings,he,hc,hv] <;> rfl

theorem options_execArgv {name : CString} (h : name.head? ≠ some dash) :
    options optstring (setOption os qemu)
      ((execLetters s extra).map (fun c => [dash,c]) ++ name :: extra) .initial =
      .ok (execSettings s extra,name :: extra) := by
  rw [options_letters (g := execLetter),options_operand h,execLetters_foldl]
  intro c hc
  rcases execLetters_mem hc with rfl | rfl | rfl | rfl <;>
    exact ⟨by decide,by decide,by decide,fun _ => rfl⟩

theorem chooseTask_child {tests : List RegisteredTest} {t : RegisteredTest} {name : CString}
    (h : runChildName tests name = .ok t) :
    chooseTask tests (execSettings s extra) (name :: extra) = .ok (.child t) := by
  have hE : (execSettings s extra).isExecedChild = true := rfl
  have hK : (execSettings s extra).execedChildHasExtraArgv = decide (extra ≠ []) := rfl
  have ha : (execSettings s extra).runAll = false := rfl
  have hg : (execSettings s extra).glob = false := rfl
  have hl : (execSettings s extra).list = false := rfl
  simp only [chooseTask,failIf_bind_eq_ok,hE,hK,ha,hg,hl]
  refine ⟨by simp,by simp,?_,by simp,by simp,?_⟩
  · by_cases he : extra = [] <;> simp [he]
  · rw [if_neg Bool.false_ne_true]
    simp only [failIf_bind_eq_ok,if_true,List.headD_cons,h]
    exact ⟨by simp,by simp,rfl⟩

/-- The vector, read back by a new process whose libxo takes none of it. -/
theorem start_execArgv (os : OS) (qemu : Option Nat) (s : Settings) (extra : List CString)
    (path : CString) {xo : List CString → Option (List CString)} {reg : Registry}
    {t : RegisteredTest} (hxo : ∀ argv, xo argv = some argv) (ht : t ∈ reg.tests)
    (hc : t.ctChildFunc) :
    start os qemu xo reg.tests (execArgv path s t.ctName extra) =
      .ok (execSettings s extra,t.ctName :: extra,.child t) := by
  rw [start,hxo]
  simp only [execArgv,List.tail_cons]
  rw [options_execArgv (head_of_identifier (reg.named t ht))]
  simp only [bind,Except.bind,chooseTask_child (reg.runChildName_eq ht hc)]
  rfl

end RoundTrip

/-- Once the path is stored, the new process is in child mode for the same test, with the
same settings and extra arguments, exactly when the verbosity is at most 1 and the vector
is not overfull. -/
theorem exec_round_trip_iff (sys : ExecSys) (qemu : Option Nat)
    (xo : List CString → Option (List CString)) (reg : Registry) (t : RegisteredTest)
    (s : Settings) (extraArgs : Option (List CString)) (path : CString)
    (hxo : ∀ argv, xo argv = some argv) (ht : t ∈ reg.tests) (hchild : t.ctChildFunc)
    (hm : sys.malloc) (hc : sys.calloc) (hp : sys.execpath = .ok path)
    (hlen : path.length < PATH_MAX sys.os) :
    (∃ slots r, mkExecArgs sys s t.toCheriTest extraArgs = .ok slots ∧
      start sys.os qemu xo reg.tests (argvOf slots) = .ok r ∧
      ExecedAs t s (extraArgs.getD []) r) ↔
    s.verbose ≤ 1 ∧ ¬ Overfull s (extraArgs.getD []) := by
  obtain ⟨execpath,hget⟩ := getExecpath_short hp hlen
  rcases mkExecArgs_of_execpath s t.toCheriTest extraArgs hm hc hget with
    ⟨hno,rest,he⟩ | ⟨hover,he⟩
  · have hstart := start_execArgv sys.os qemu s (extraArgs.getD []) (upToNul execpath.slots)
      hxo ht hchild
    constructor
    · intro h
      obtain ⟨slots,r,hslots,hr,hexec⟩ := h
      rw [he] at hslots
      cases hslots
      rw [argvOf_stored,hstart] at hr
      cases hr
      have hv : (if s.verbose ≠ 0 then 1 else 0) = s.verbose := hexec.verbose
      exact ⟨by split_ifs at hv <;> omega,hno⟩
    · intro h
      refine ⟨_,_,he,by rw [argvOf_stored,hstart],rfl,rfl,rfl,?_,rfl⟩
      change (if s.verbose ≠ 0 then 1 else 0) = s.verbose
      split_ifs <;> omega
  · constructor
    · intro h
      obtain ⟨slots,r,hslots,-⟩ := h
      rw [he] at hslots
      cases hslots
    · exact fun h => absurd hover h.2

def execRegistry : Registry where
  tests := [⟨plainTest,true⟩]
  named t ht := by
    have hname : plainTest.ctName = [102,97,117,108,116] := by decide
    rw [List.mem_singleton.mp ht]
    rw [hname]
    refine ⟨List.cons_ne_nil _ _,List.all_eq_true.mp ?_⟩
    rfl
  distinct t ht u hu _ := by rw [List.mem_singleton.mp ht,List.mem_singleton.mp hu]

theorem exec_round_trip_plain :
    (∃ slots r, mkExecArgs plainExecSys .initial plainTest (some [cstr "x"]) = .ok slots ∧
      start .freeBSD none some execRegistry.tests (argvOf slots) = .ok r ∧
      ExecedAs ⟨plainTest,true⟩ .initial [cstr "x"] r) ↔
    Settings.initial.verbose ≤ 1 ∧ ¬ Overfull .initial [cstr "x"] :=
  exec_round_trip_iff plainExecSys none some execRegistry ⟨plainTest,true⟩ .initial
    (some [cstr "x"]) _ (fun _ => rfl) List.mem_cons_self rfl rfl rfl plainExecSys_execpath
    plainExecSys_short

/-- A parent that runs with `-v -v` has a child that runs with `-v`. -/
theorem exec_verbosity_lost : ∃ slots r,
    mkExecArgs plainExecSys { Settings.initial with verbose := 2 } plainTest none = .ok slots ∧
    start .freeBSD none some execRegistry.tests (argvOf slots) = .ok r ∧
    r.1.isExecedChild ∧ r.1.verbose = 1 ∧
    ¬ ExecedAs ⟨plainTest,true⟩ { Settings.initial with verbose := 2 } [] r := by
  obtain ⟨execpath,hget⟩ := getExecpath_short plainExecSys_execpath plainExecSys_short
  rcases mkExecArgs_of_execpath { Settings.initial with verbose := 2 } plainTest none rfl rfl hget
    with ⟨-,rest,he⟩ | ⟨hover,-⟩
  · have ht : ⟨plainTest,true⟩ ∈ execRegistry.tests := List.mem_cons_self
    have hstart := start_execArgv .freeBSD none { Settings.initial with verbose := 2 } []
      (upToNul execpath.slots) (fun argv => rfl) ht rfl
    refine ⟨_,_,he,by rw [argvOf_stored]; exact hstart,rfl,rfl,fun h => ?_⟩
    have hv : 1 = 2 := h.verbose
    cases hv
  · exact absurd rfl hover.1

end CheriOsTest.Harness
