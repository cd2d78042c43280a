import CheriOsTest.PipeProcesses
import CheriOsTest.Verdicts
set_option autoImplicit false

/-! The harness and its test as two processes on the test's stdin and stdout. The
harness fills stdin before it forks, and looks at stdout once the test has ended. -/

namespace CheriOsTest.Harness
open CheriOsTest.CStrings CheriOsTest.Programs CheriOsTest.PipeProcesses

inductive Party where
  | harness
  | test
  deriving DecidableEq

instance : Fintype Party where
  elems := {.harness,.test}
  complete p := by cases p <;> decide

inductive TestPipe where
  | stdin
  | stdout
  deriving DecidableEq

abbrev PipeCall := Syscall Party TestPipe

inductive TestOp where
  | read : Nat → TestOp
  | write : List UInt8 → TestOp

def TestOp.call : TestOp → PipeCall
  | .read n => .read .stdin n
  | .write bs => .write .stdout bs

/-- The child after `dup2`, which keeps its two other ends open as descriptors 0 and 1. -/
def testCalls (ops : List TestOp) : List PipeCall :=
  [.close (.writer .stdin),.close (.reader .stdout)] ++ ops.map TestOp.call

/-- The parent after `fork`. It reads stdout unless an earlier check has failed. -/
def waitCalls (reads : Bool) : List PipeCall :=
  [.close (.reader .stdin),.close (.writer .stdout),.setNonblock .stdout,.waitpid .test] ++
    (if reads then [.read .stdout (TEST_BUFFER_LEN-1)] else []) ++
    [.close (.writer .stdin),.close (.reader .stdout)]

def stdinInput (t : CheriTest) : List UInt8 :=
  if t.has CT_FLAG_STDIN_STRING then t.ctStdinString else []

def harnessCalls (t : CheriTest) (ops : List TestOp) (reads : Bool) : List PipeCall :=
  (if t.has CT_FLAG_STDIN_STRING then [.write .stdin t.ctStdinString] else []) ++
    .fork .test (testCalls ops) :: waitCalls reads

def allEnds : Finset (PipeEnd TestPipe) :=
  {.reader .stdin,.writer .stdin,.reader .stdout,.writer .stdout}

theorem mem_allEnds (e : PipeEnd TestPipe) : e ∈ allEnds := by
  rcases e with k | k <;> cases k <;> decide

/-- `cheriostest_run_test` right after its two calls of `pipe`. -/
def pipesMade (cap : TestPipe → Nat) (t : CheriTest) (ops : List TestOp) (reads : Bool) :
    System Party TestPipe cap where
  process
    | .harness => ⟨harnessCalls t ops reads,allEnds⟩
    | .test => ⟨[],∅⟩
  pipe _ := .empty

/-- Every read of a test finds a byte, when `a` bytes of input are left. -/
def Fed : Nat → List TestOp → Prop
  | _,[] => True
  | a,.read n :: ops => (n = 0 ∨ 0 < a) ∧ Fed (a-n) ops
  | a,.write _ :: ops => Fed a ops

def outputBytes : List TestOp → List UInt8
  | [] => []
  | .read _ :: ops => outputBytes ops
  | .write bs :: ops => bs ++ outputBytes ops

/-- Neither pipe is too small and no read goes past the input. -/
def PipesSuffice (cap : TestPipe → Nat) (t : CheriTest) (ops : List TestOp) : Prop :=
  (stdinInput t).length ≤ cap .stdin ∧ Fed (stdinInput t).length ops ∧
    (outputBytes ops).length ≤ cap .stdout

section Phases

variable {cap : TestPipe → Nat} {t : CheriTest} {ops : List TestOp} {reads : Bool}
  {s s' : System Party TestPipe cap}

/-- The harness before its fork, with `rest` of the stdin string to write. -/
structure Filling (t : CheriTest) (ops : List TestOp) (reads : Bool) (rest : List UInt8)
    (s : System Party TestPipe cap) : Prop where
  harness : s.process .harness =
    ⟨.write .stdin rest :: .fork .test (testCalls ops) :: waitCalls reads,allEnds⟩
  test : (s.process .test).calls = []
  stdin : (s.pipe .stdin).bytes.length+rest.length = (stdinInput t).length
  blocking : (s.pipe .stdin).nonblock = false
  stdout : (s.pipe .stdout).bytes = []

structure Forking (t : CheriTest) (ops : List TestOp) (reads : Bool)
    (s : System Party TestPipe cap) : Prop where
  harness : s.process .harness = ⟨.fork .test (testCalls ops) :: waitCalls reads,allEnds⟩
  test : (s.process .test).calls = []
  stdin : (s.pipe .stdin).bytes.length = (stdinInput t).length
  blocking : (s.pipe .stdin).nonblock = false
  stdout : (s.pipe .stdout).bytes = []

/-- After the fork, with `left` still to be done by the test. -/
structure Running (t : CheriTest) (ops : List TestOp) (reads : Bool) (left : List TestOp)
    (s : System Party TestPipe cap) : Prop where
  harness : (s.process .harness).calls <:+ waitCalls reads
  ends : .waitpid .test ∈ (s.process .harness).calls →
    .writer .stdin ∈ (s.process .harness).fds ∧ .reader .stdout ∈ (s.process .harness).fds
  blocking : (s.pipe .stdin).nonblock = false
  nonblock : .setNonblock .stdout ∈ (s.process .harness).calls ∨ (s.pipe .stdout).nonblock
  test : ∃ closes, closes <:+ [.close (.writer .stdin),.close (.reader .stdout)] ∧
    (s.process .test).calls = closes ++ left.map TestOp.call
  waits : (s.process .test).calls = [] ∨ .waitpid .test ∈ (s.process .harness).calls
  suffice : PipesSuffice cap t ops ↔ Fed (s.pipe .stdin).bytes.length left ∧
    (s.pipe .stdout).bytes.length+(outputBytes left).length ≤ cap .stdout
  delivers : .waitpid .test ∈ (s.process .harness).calls →
    (s.pipe .stdout).bytes ++ outputBytes left = outputBytes ops

def Phase (t : CheriTest) (ops : List TestOp) (reads : Bool) (s : System Party TestPipe cap) : Prop :=
  (∃ rest, Filling t ops reads rest s) ∨ Forking t ops reads s ∨ ∃ left, Running t ops reads left s

theorem Phase.start (cap : TestPipe → Nat) (t : CheriTest) (ops : List TestOp) (reads : Bool) :
    Phase t ops reads (pipesMade cap t ops reads) := by
  by_cases h : t.has CT_FLAG_STDIN_STRING
  · refine .inl ⟨t.ctStdinString,?_,rfl,?_,rfl,rfl⟩
    · simp only [pipesMade,harnessCalls,h,if_true]
      rfl
    · simp [pipesMade,stdinInput,h,Pipe.empty]
  · refine .inr (.inl ⟨?_,rfl,?_,rfl,rfl⟩)
    · simp [pipesMade,harnessCalls,h]
    · simp [pipesMade,stdinInput,h,Pipe.empty]

theorem Filling.step {rest : List UInt8} {p : Party} (h : Filling t ops reads rest s)
    (hs : s.step p = some s') : Phase t ops reads s' := by
  cases p with
  | test =>
    simp only [System.step,h.test] at hs
    cases hs
  | harness =>
    cases rest with
    | nil =>
      simp only [System.step,h.harness,Option.some.injEq] at hs
      subst hs
      refine .inr (.inl ⟨?_,?_,by simpa using h.stdin,h.blocking,h.stdout⟩)
      · rw [System.process_proceed_same,h.harness]
      · simpa using h.test
    | cons b rest =>
      have hopen : s.Open (.reader .stdin) := ⟨.harness,by simp [h.harness],by
        rw [h.harness]
        exact mem_allEnds _⟩
      simp only [System.step,h.harness,if_pos hopen] at hs
      obtain ⟨q,hq,rfl⟩ := Option.map_eq_some_iff.mp hs
      obtain ⟨-,hbytes,hmode⟩ := Pipe.push_eq_some.mp hq
      refine .inl ⟨rest,?_,?_,?_,by simpa [hmode] using h.blocking,h.stdout⟩
      · rw [System.process_proceed_same,System.process_setPipe,h.harness]
      · simpa using h.test
      · have hstdin := h.stdin
        simp only [System.pipe_proceed,System.pipe_setPipe_same,hbytes,List.length_append,
          List.length_cons,List.length_nil] at hstdin ⊢
        omega

theorem Forking.step {p : Party} (h : Forking t ops reads s) (hs : s.step p = some s') :
    Phase t ops reads s' := by
  cases p with
  | test =>
    simp only [System.step,h.test] at hs
    cases hs
  | harness =>
    simp only [System.step,h.harness,h.test,if_true,Option.some.injEq] at hs
    subst hs
    have hstdin : (s.pipe .stdin).bytes.length ≤ cap .stdin := (s.pipe .stdin).fits
    have hh : ((s.proceed .harness (waitCalls reads)).start .test
        ⟨testCalls ops,allEnds⟩).process .harness = ⟨waitCalls reads,allEnds⟩ := by
      simp [h.harness]
    refine .inr (.inr ⟨ops,⟨by rw [hh],fun _ => by rw [hh]; exact ⟨mem_allEnds _,mem_allEnds _⟩,
      h.blocking,.inl ?_,      ⟨_,List.suffix_rfl,rfl⟩,.inr ?_,?_,fun _ => ?_⟩⟩)
    · rw [hh]
      simp [waitCalls]
    · rw [hh]
      simp [waitCalls]
    · rw [PipesSuffice,← h.stdin]
      simp [h.stdout,hstdin]
    · simp [h.stdout]

theorem waitCalls_suffix {calls : List PipeCall} (h : calls <:+ waitCalls reads) :
    (∃ k rest, calls = .close k :: rest ∧ rest <:+ waitCalls reads ∧
      (.setNonblock .stdout ∈ calls → .setNonblock .stdout ∈ rest) ∧
      (.waitpid .test ∈ calls → .waitpid .test ∈ rest) ∧
      (.waitpid .test ∈ rest → k = .reader .stdin ∨ k = .writer .stdout)) ∨
    (∃ rest, calls = .setNonblock .stdout :: rest ∧ rest <:+ waitCalls reads ∧
      .waitpid .test ∈ rest) ∨
    (∃ rest, calls = .waitpid .test :: rest ∧ rest <:+ waitCalls reads ∧
      .setNonblock .stdout ∉ rest ∧ .waitpid .test ∉ rest) ∨
    (∃ n rest, calls = .read .stdout n :: rest ∧ rest <:+ waitCalls reads ∧
      .setNonblock .stdout ∉ rest ∧ .waitpid .test ∉ rest) ∨
    calls = [] := by
  cases reads with
  | false =>
    simp only [waitCalls,List.suffix_cons_iff,List.cons_append,List.nil_append,
      Bool.false_eq_true,if_false,List.suffix_nil] at h ⊢
    rcases h with rfl | rfl | rfl | rfl | rfl | rfl | rfl <;> simp
  | true =>
    simp only [waitCalls,List.suffix_cons_iff,List.cons_append,List.nil_append,if_true,
      List.suffix_nil] at h ⊢
    rcases h with rfl | rfl | rfl | rfl | rfl | rfl | rfl | rfl <;> simp

theorem Running.harness_step {left : List TestOp} {q : Process Party TestPipe}
    (h : Running t ops reads left s) (hcalls : q.calls <:+ waitCalls reads)
    (hends : .waitpid .test ∈ q.calls → .writer .stdin ∈ q.fds ∧ .reader .stdout ∈ q.fds)
    (hnonblock : .setNonblock .stdout ∈ q.calls ∨ (s.pipe .stdout).nonblock)
    (hwaits : (s.process .test).calls = [] ∨ .waitpid .test ∈ q.calls)
    (hlater : .waitpid .test ∈ q.calls → .waitpid .test ∈ (s.process .harness).calls) :
    Running t ops reads left (s.start .harness q) := by
  refine ⟨by simpa using hcalls,by simpa using hends,h.blocking,by simpa using hnonblock,?_,
    by simpa using hwaits,h.suffice,fun hq => h.delivers (hlater (by simpa using hq))⟩
  simpa using h.test

/-- A test that has ended was served all along. -/
theorem Running.ended {left : List TestOp} (h : Running t ops reads left s)
    (hdone : (s.process .test).calls = []) : left = [] ∧ PipesSuffice cap t ops := by
  obtain ⟨closes,-,hcalls⟩ := h.test
  rw [hdone,eq_comm,List.append_eq_nil_iff,List.map_eq_nil_iff] at hcalls
  refine ⟨hcalls.2,h.suffice.mpr ?_⟩
  rw [hcalls.2]
  exact ⟨trivial,(s.pipe .stdout).fits⟩

/-- The harness changes the pipe of stdout: its mode, or its bytes once the test is done. -/
theorem Running.stdout_step {left : List TestOp} {q : Pipe (cap .stdout)} (h : Running t ops reads left s)
    (hq : q.bytes = (s.pipe .stdout).bytes ∨
      (s.process .test).calls = [] ∧ .waitpid .test ∉ (s.process .harness).calls)
    (hnonblock : q.nonblock) : Running t ops reads left (s.setPipe .stdout q) := by
  refine ⟨h.harness,h.ends,h.blocking,.inr (by simpa using hnonblock),h.test,h.waits,?_,?_⟩
  · rcases hq with hq | ⟨hdone,-⟩
    · simpa [hq] using h.suffice
    · obtain ⟨rfl,hsuffice⟩ := h.ended hdone
      exact ⟨fun _ => ⟨trivial,((s.setPipe .stdout q).pipe .stdout).fits⟩,fun _ => hsuffice⟩
  · intro hwait
    rcases hq with hq | ⟨-,hpast⟩
    · simpa [hq] using h.delivers hwait
    · exact absurd hwait hpast

theorem Running.harness_moves {left : List TestOp} (h : Running t ops reads left s)
    (hs : s.step .harness = some s') : ∃ left, Running t ops reads left s' := by
  rcases waitCalls_suffix h.harness with ⟨e,rest,hc,hrest,hnon,hwait,he⟩ | ⟨rest,hc,hrest,hwait⟩ |
    ⟨rest,hc,hrest,hnon,hwait⟩ | ⟨n,rest,hc,hrest,hnon,hwait⟩ | hc
  · simp only [System.step,hc,Option.some.injEq] at hs
    subst hs
    refine ⟨left,h.harness_step hrest (fun hw => ?_) (h.nonblock.imp_left hnon)
      (h.waits.imp_right hwait) (fun hw => hc ▸ List.mem_cons_of_mem _ hw)⟩
    obtain ⟨hin,hout⟩ := h.ends (hc ▸ List.mem_cons_of_mem _ hw)
    rcases he hw with rfl | rfl <;> simp [hin,hout]
  · simp only [System.step,hc,Option.some.injEq] at hs
    subst hs
    have hset := h.stdout_step (q := { s.pipe .stdout with nonblock := true }) (.inl rfl) rfl
    exact ⟨left,hset.harness_step hrest (fun _ => h.ends (hc ▸ List.mem_cons_of_mem _ hwait))
      (.inr (by simp)) (.inr hwait) (fun hw => hc ▸ List.mem_cons_of_mem _ hw)⟩
  · have hmode := h.nonblock.resolve_left (by simp [hc,hnon])
    simp only [System.step,hc] at hs
    split_ifs at hs with hdone
    cases hs
    exact ⟨left,h.harness_step hrest (fun hw => absurd hw hwait) (.inr hmode) (.inl hdone)
      (fun hw => absurd hw hwait)⟩
  · have hmode := h.nonblock.resolve_left (by simp [hc,hnon])
    have hdone := h.waits.resolve_right (by simp [hc,hwait])
    simp only [System.step,hc] at hs
    split_ifs at hs
    cases hs
    have hpast : .waitpid .test ∉ (s.process .harness).calls := by simp [hc,hwait]
    have hset := h.stdout_step (q := (s.pipe .stdout).drop n) (.inr ⟨hdone,hpast⟩) hmode
    exact ⟨left,hset.harness_step hrest (fun hw => absurd hw hwait)
      (.inr (by simpa [Pipe.drop] using hmode)) (.inl hdone) (fun hw => absurd hw hwait)⟩
  · simp only [System.step,hc] at hs
    cases hs

/-- The ends that keep the test from a signal and from the end of its input. -/
theorem Running.open_ends {left : List TestOp} (h : Running t ops reads left s)
    (hrun : (s.process .test).calls ≠ []) :
    s.Open (.writer .stdin) ∧ s.Open (.reader .stdout) := by
  have hwait := h.waits.resolve_left hrun
  have hcalls := List.ne_nil_of_mem hwait
  exact ⟨⟨.harness,hcalls,(h.ends hwait).1⟩,⟨.harness,hcalls,(h.ends hwait).2⟩⟩

theorem Running.test_step {left left' : List TestOp} (h : Running t ops reads left s)
    (hrun : (s.process .test).calls ≠ [])
    (hharness : s'.process .harness = s.process .harness)
    (hmode : ∀ k, (s'.pipe k).nonblock = (s.pipe k).nonblock)
    (hcalls : ∃ closes, closes <:+ [.close (.writer .stdin),.close (.reader .stdout)] ∧
      (s'.process .test).calls = closes ++ left'.map TestOp.call)
    (hfed : Fed (s.pipe .stdin).bytes.length left ↔ Fed (s'.pipe .stdin).bytes.length left')
    (hout : (s'.pipe .stdout).bytes ++ outputBytes left' =
      (s.pipe .stdout).bytes ++ outputBytes left) :
    Running t ops reads left' s' := by
  have hlen := congrArg List.length hout
  rw [List.length_append,List.length_append] at hlen
  exact ⟨by rw [hharness]; exact h.harness,by rw [hharness]; exact h.ends,
    by rw [hmode]; exact h.blocking,by rw [hharness,hmode]; exact h.nonblock,hcalls,
    .inr (by rw [hharness]; exact h.waits.resolve_left hrun),by rw [hlen,← hfed]; exact h.suffice,
    by rw [hharness,hout]; exact h.delivers⟩

theorem Running.test_moves {left : List TestOp} (h : Running t ops reads left s)
    (hs : s.step .test = some s') : ∃ left, Running t ops reads left s' := by
  have hrun : (s.process .test).calls ≠ [] := by
    intro hc
    simp only [System.step,hc] at hs
    cases hs
  obtain ⟨hin,hout⟩ := h.open_ends hrun
  obtain ⟨closes,hsuffix,hcalls⟩ := h.test
  cases closes with
  | cons c closes =>
    have hrest : closes <:+ [.close (.writer .stdin),.close (.reader .stdout)] :=
      (List.suffix_cons c closes).trans hsuffix
    have hclose : ∃ e, c = .close e := by
      have hmem := hsuffix.subset List.mem_cons_self
      simp only [List.mem_cons,List.not_mem_nil,or_false] at hmem
      rcases hmem with rfl | rfl <;> exact ⟨_,rfl⟩
    obtain ⟨e,rfl⟩ := hclose
    simp only [System.step,hcalls,List.cons_append,Option.some.injEq] at hs
    subst hs
    exact ⟨left,h.test_step hrun (by simp) (fun _ => rfl) ⟨closes,hrest,by simp⟩ (by simp) (by simp)⟩
  | nil =>
    cases left with
    | nil => exact absurd hcalls hrun
    | cons op left =>
      simp only [List.nil_append,List.map_cons] at hcalls
      cases op with
      | read n =>
        simp only [System.step,hcalls,TestOp.call] at hs
        split_ifs at hs with hblock
        cases hs
        have hbyte : n = 0 ∨ 0 < (s.pipe .stdin).bytes.length := by
          by_contra hno
          rw [not_or,Nat.pos_iff_ne_zero,not_not,List.length_eq_zero_iff] at hno
          exact hblock ⟨hno.1,hno.2,by simp [h.blocking],hin⟩
        refine ⟨left,h.test_step hrun (by simp) (fun k => ?_) ⟨[],List.nil_suffix,by simp⟩
          ?_ ?_⟩
        · cases k <;> simp [Pipe.drop]
        · simp [Fed,hbyte,Pipe.drop]
        · simp [outputBytes]
      | write bs =>
        cases bs with
        | nil =>
          simp only [System.step,hcalls,TestOp.call,Option.some.injEq] at hs
          subst hs
          exact ⟨left,h.test_step hrun (by simp) (fun _ => rfl) ⟨[],List.nil_suffix,by simp⟩
            (by simp [Fed]) (by simp [outputBytes])⟩
        | cons b bs =>
          simp only [System.step,hcalls,TestOp.call,if_pos hout] at hs
          obtain ⟨q,hq,rfl⟩ := Option.map_eq_some_iff.mp hs
          obtain ⟨-,hbytes,hmode⟩ := Pipe.push_eq_some.mp hq
          refine ⟨.write bs :: left,h.test_step hrun (by simp) (fun k => ?_)
            ⟨[],List.nil_suffix,by simp [TestOp.call]⟩ ?_ ?_⟩
          · cases k <;> simp [hmode]
          · simp [Fed]
          · simp [outputBytes,hbytes]

theorem Phase.step {p : Party} (h : Phase t ops reads s) (hs : s.step p = some s') :
    Phase t ops reads s' := by
  rcases h with ⟨rest,h⟩ | h | ⟨left,h⟩
  · exact h.step hs
  · exact h.step hs
  · cases p with
    | harness => exact .inr (.inr (h.harness_moves hs))
    | test => exact .inr (.inr (h.test_moves hs))

theorem Phase.runs (h : (pipesMade cap t ops reads).Runs s) : Phase t ops reads s :=
  Reached.invariant (Phase t ops reads) (.start cap t ops reads)
    (fun _ _ _ hphase _ hs => hphase.step hs) h

theorem Filling.not_stuck {rest : List UInt8} (h : Filling t ops reads rest s)
    (hsuffice : PipesSuffice cap t ops) : s.step .harness ≠ none := by
  cases rest with
  | nil => simp [System.step,h.harness]
  | cons b rest =>
    have hstdin := h.stdin
    have hfits := hsuffice.1
    rw [List.length_cons] at hstdin
    simp only [System.step,h.harness]
    split_ifs
    · rw [ne_eq,Option.map_eq_none_iff,Pipe.push_eq_none]
      omega
    · exact Option.some_ne_none _

/-- Input for each read and room for each write let the test run on. -/
theorem Running.test_not_stuck {left : List TestOp} (h : Running t ops reads left s)
    (hsuffice : PipesSuffice cap t ops) (hrun : (s.process .test).calls ≠ []) :
    s.step .test ≠ none := by
  obtain ⟨closes,hsuffix,hcalls⟩ := h.test
  obtain ⟨hfed,hroom⟩ := h.suffice.mp hsuffice
  cases closes with
  | cons c closes =>
    have hmem := hsuffix.subset List.mem_cons_self
    simp only [List.mem_cons,List.not_mem_nil,or_false] at hmem
    rcases hmem with rfl | rfl <;> simp [System.step,hcalls]
  | nil =>
    cases left with
    | nil => exact absurd hcalls hrun
    | cons op left =>
      simp only [List.nil_append,List.map_cons] at hcalls
      cases op with
      | read n =>
        simp only [System.step,hcalls,TestOp.call]
        rw [if_neg]
        · exact Option.some_ne_none _
        · intro hblock
          have hpos := hfed.1.resolve_left hblock.1
          rw [hblock.2.1] at hpos
          exact absurd hpos (lt_irrefl 0)
      | write bs =>
        cases bs with
        | nil => simp [System.step,hcalls,TestOp.call]
        | cons b bs =>
          simp only [System.step,hcalls,TestOp.call]
          simp only [outputBytes,List.length_append,List.length_cons] at hroom
          split_ifs
          · rw [ne_eq,Option.map_eq_none_iff,Pipe.push_eq_none]
            omega
          · exact Option.some_ne_none _

theorem Running.harness_not_stuck {left : List TestOp} (h : Running t ops reads left s)
    (hdone : (s.process .test).calls = []) (hrun : (s.process .harness).calls ≠ []) :
    s.step .harness ≠ none := by
  rcases waitCalls_suffix h.harness with ⟨e,rest,hc,-⟩ | ⟨rest,hc,-⟩ | ⟨rest,hc,-⟩ |
    ⟨n,rest,hc,-,hnon,-⟩ | hc
  · simp [System.step,hc]
  · simp [System.step,hc]
  · simp [System.step,hc,hdone]
  · have hmode := h.nonblock.resolve_left (by simp [hc,hnon])
    simp [System.step,hc,hmode]
  · exact absurd hc hrun

theorem Phase.not_deadlocked (h : Phase t ops reads s) (hsuffice : PipesSuffice cap t ops) :
    ¬ s.Deadlocked := by
  rintro ⟨⟨p,hp⟩,hstuck⟩
  rcases h with ⟨rest,h⟩ | h | ⟨left,h⟩
  · exact h.not_stuck hsuffice (hstuck .harness)
  · have hno := hstuck .harness
    simp only [System.step,h.harness,h.test,if_true] at hno
    cases hno
  · by_cases hdone : (s.process .test).calls = []
    · cases p with
      | harness => exact h.harness_not_stuck hdone hp (hstuck .harness)
      | test => exact hp hdone
    · exact h.test_not_stuck hsuffice hdone (hstuck .test)

/-- When `waitpid` returns, the pipe holds all that the test wrote, and the read that
follows gets what `readStdout` hands on. -/
theorem stdout_delivered {rest : List PipeCall} (h : (pipesMade cap t ops reads).Runs s)
    (hwait : (s.process .harness).calls = .waitpid .test :: rest)
    (hdone : (s.process .test).calls = []) (w : World) :
    readStdout { w with stdout := .ok (outputBytes ops) } =
      .ok ((s.pipe .stdout).bytes.take (TEST_BUFFER_LEN-1)) := by
  rcases Phase.runs h with ⟨bs,hf⟩ | hf | ⟨left,hr⟩
  · rw [hf.harness] at hwait
    cases hwait
  · rw [hf.harness] at hwait
    cases hwait
  · have hout := hr.delivers (by simp [hwait])
    rw [(hr.ended hdone).1,outputBytes,List.append_nil] at hout
    rw [hout]
    rfl

/-- The pipes of a run that comes to its end were large enough. -/
theorem Phase.ended (h : Phase t ops reads s) (hend : ∀ p, (s.process p).calls = []) :
    PipesSuffice cap t ops := by
  have hharness := hend .harness
  rcases h with ⟨rest,h⟩ | h | ⟨left,h⟩
  · rw [h.harness] at hharness
    cases hharness
  · rw [h.harness] at hharness
    cases hharness
  · exact (h.ended (hend .test)).2

theorem exists_deadlocked (reads : Bool) (h : ¬ PipesSuffice cap t ops) :
    ∃ s, (pipesMade cap t ops reads).Runs s ∧ s.Deadlocked := by
  have hstart : (pipesMade cap t ops reads).Runs (pipesMade cap t ops reads) := .start
  obtain ⟨s,hs,hstuck⟩ := hstart.exists_terminal
  refine ⟨s,hs,?_,hstuck⟩
  by_contra hend
  push Not at hend
  exact h ((Phase.runs hs).ended hend)

end Phases

/-- Whatever the order of their steps, the harness and its test get done exactly when the
stdin string and the output fit their pipes and no read of the test goes past the string. -/
theorem deadlock_free_iff (cap : TestPipe → Nat) (t : CheriTest) (ops : List TestOp) (reads : Bool) :
    (∀ s, (pipesMade cap t ops reads).Runs s → ¬ s.Deadlocked) ↔ PipesSuffice cap t ops := by
  constructor
  · intro h
    by_contra hno
    obtain ⟨s,hs,hdead⟩ := exists_deadlocked reads hno
    exact h s hs hdead
  · intro h s hs
    exact (Phase.runs hs).not_deadlocked h

/-- One byte more than the pipe holds, and a read of a stdin that nothing was written to. -/
theorem harness_deadlocks :
    (∃ s, (pipesMade (fun _ => 65536) plainTest [.write (List.replicate 65537 97)] true).Runs s ∧
      s.Deadlocked) ∧
    ∃ s, (pipesMade (fun _ => 65536) plainTest [.read 1] true).Runs s ∧ s.Deadlocked := by
  constructor
  · refine exists_deadlocked true (fun h => ?_)
    have hout := h.2.2
    rw [outputBytes,outputBytes,List.append_nil,List.length_replicate] at hout
    exact absurd hout (by decide)
  · refine exists_deadlocked true (fun h => ?_)
    have hin : (1 = 0 ∨ 0 < (stdinInput plainTest).length) ∧ _ := h.2.1
    exact absurd hin.1 (by decide)

end CheriOsTest.Harness
