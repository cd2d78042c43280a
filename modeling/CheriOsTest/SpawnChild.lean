import CheriOsTest.ExecArgs
set_option autoImplicit false

/-! Spawning a child: four ways to make a process, of which one hands the environment to the
call that makes it and the others to `execve`. -/

namespace CheriOsTest.Harness
open CheriOsTest.CStrings CheriOsTest.Programs

inductive SpawnChildMode where
  | posixSpawn
  | fork
  | vfork
  | rfork
  deriving DecidableEq

def SpawnChildMode.number : SpawnChildMode → Nat
  | .posixSpawn => 0
  | .fork => 1
  | .vfork => 2
  | .rfork => 3

def SpawnChildMode.supported (os : OS) (mode : SpawnChildMode) : Prop :=
  mode = .rfork → os = .freeBSD

/-- The id that the parent gets for its child, when it gets one, and whether the `execve` of a
forked child works. -/
structure ProcessSys where
  pid : Option Int
  execve : Bool

structure Image where
  path : CString
  argv : List CString
  env : List CString

structure Spawned where
  pid : Int
  image : Option Image

def environment (envv : Option (List CString)) : List CString := envv.getD []

def imageOf (execArgs : List CString) (envv : Option (List CString)) : Image :=
  ⟨execArgs.headD [],execArgs,environment envv⟩

def spawnError (mode : SpawnChildMode) : ExecStop :=
  .leave (.err EX_OSERR (cstr "cheriostest_spawn_child_args: fork/spawn error (mode = " ++
    fmtD mode.number ++ cstr ")"))

/-- `fork`, `rfork` or `vfork`, and the `execve` at the end in the process that gets 0. -/
def forkExec (k : ProcessSys) (mode : SpawnChildMode) (execArgs : List CString)
    (envv : Option (List CString)) : Except ExecStop Spawned :=
  match k.pid with
  | some pid => .ok ⟨pid,if k.execve then some (imageOf execArgs envv) else none⟩
  | none => .error (spawnError mode)

def spawnChildArgs (sys : ExecSys) (s : Settings) (runningTest : CheriTest)
    (environ : Option (List CString)) (k : ProcessSys) (mode : SpawnChildMode)
    (argv envv : Option (List CString)) : Except ExecStop Spawned := do
  let slots ← mkExecArgs sys s runningTest argv
  let execArgs := argvOf slots
  match mode with
  | .posixSpawn =>
    let envv := if envv = none then environ else envv
    match k.pid with
    | some pid => pure ⟨pid,some (imageOf execArgs envv)⟩
    | none => .error (spawnError mode)
  | .fork => forkExec k mode execArgs envv
  | .rfork =>
    match sys.os with
    | .freeBSD => forkExec k mode execArgs envv
    | .linux => .error (spawnError mode)
  | .vfork => forkExec k mode execArgs envv

def spawnChild (sys : ExecSys) (s : Settings) (runningTest : CheriTest)
    (environ : Option (List CString)) (k : ProcessSys) (mode : SpawnChildMode) :
    Except ExecStop Spawned :=
  spawnChildArgs sys s runningTest environ k mode none none

def modeEnvironment (environ envv : Option (List CString)) : SpawnChildMode → List CString
  | .posixSpawn => environment (if envv = none then environ else envv)
  | _ => environment envv

def StartsOneImage (sys : ExecSys) (s : Settings) (runningTest : CheriTest)
    (environ argv envv : Option (List CString)) : Prop :=
  ∀ slots, mkExecArgs sys s runningTest argv = .ok slots →
    ∃ image, ∀ mode pid, mode.supported sys.os →
      spawnChildArgs sys s runningTest environ ⟨some pid,true⟩ mode argv envv =
        .ok ⟨pid,some image⟩

theorem spawnChildArgs_eq {sys : ExecSys} {s : Settings} {runningTest : CheriTest}
    {argv : Option (List CString)} {slots : List (Option CString)} (environ envv : Option (List CString))
    (hslots : mkExecArgs sys s runningTest argv = .ok slots) {mode : SpawnChildMode}
    (hmode : mode.supported sys.os) (pid : Int) :
    spawnChildArgs sys s runningTest environ ⟨some pid,true⟩ mode argv envv =
      .ok ⟨pid,some ⟨(argvOf slots).headD [],argvOf slots,modeEnvironment environ envv mode⟩⟩ := by
  rw [spawnChildArgs,hslots]
  cases mode with
  | rfork =>
    simp only [bind,Except.bind,hmode rfl]
    rfl
  | _ => rfl

/-- All modes start one image exactly when there is an environment argument or nothing in the
parent's own environment to lose, or when the vector is not built at all. -/
theorem starts_one_image_iff (sys : ExecSys) (s : Settings) (runningTest : CheriTest)
    (environ argv envv : Option (List CString)) :
    StartsOneImage sys s runningTest environ argv envv ↔
      (∀ slots, mkExecArgs sys s runningTest argv = .ok slots →
        envv = none → environment environ = []) := by
  refine forall_congr' fun slots => forall_congr' fun hslots => ?_
  constructor
  · rintro ⟨image,h⟩ rfl
    have hspawn := h .posixSpawn 1 (fun hc => by cases hc)
    have hfork := h .fork 1 (fun hc => by cases hc)
    rw [spawnChildArgs_eq environ none hslots (fun hc => by cases hc)] at hspawn hfork
    have heq := hspawn.trans hfork.symm
    simpa [modeEnvironment,environment] using heq
  · intro h
    refine ⟨⟨(argvOf slots).headD [],argvOf slots,environment envv⟩,fun mode pid hmode => ?_⟩
    rw [spawnChildArgs_eq environ envv hslots hmode]
    have henv : modeEnvironment environ envv mode = environment envv := by
      cases mode with
      | posixSpawn =>
        by_cases hnone : envv = none
        · rw [modeEnvironment,if_pos hnone,h hnone,hnone]
          rfl
        · simp [modeEnvironment,hnone]
      | _ => rfl
    rw [henv]

/-- `cheriostest_spawn_child` loses the environment unless it goes through `posix_spawn`. -/
theorem spawn_environment_lost : ∃ image image',
    spawnChild plainExecSys .initial plainTest (some [cstr "A=1"]) ⟨some 7,true⟩ .posixSpawn =
      .ok ⟨7,some image⟩ ∧
    spawnChild plainExecSys .initial plainTest (some [cstr "A=1"]) ⟨some 7,true⟩ .fork =
      .ok ⟨7,some image'⟩ ∧
    image.env = [cstr "A=1"] ∧ image'.env = [] := by
  obtain ⟨execpath,hget⟩ := getExecpath_short plainExecSys_execpath plainExecSys_short
  rcases mkExecArgs_of_execpath .initial plainTest none rfl rfl hget with ⟨-,rest,he⟩ | ⟨hover,-⟩
  · have hspawn := spawnChildArgs_eq (some [cstr "A=1"]) none he
      (show SpawnChildMode.supported plainExecSys.os .posixSpawn from fun _ => rfl) 7
    have hfork := spawnChildArgs_eq (some [cstr "A=1"]) none he
      (show SpawnChildMode.supported plainExecSys.os .fork from fun _ => rfl) 7
    exact ⟨_,_,hspawn,hfork,rfl,rfl⟩
  · exact absurd rfl hover.1

end CheriOsTest.Harness
