import CheriOsTest.CStrings
import CheriOsTest.Monitors
set_option autoImplicit false

/-! Thread-local storage across threads. A thread publishes the addresses of its variables
and waits, so that the main thread can look at them before the storage is gone. -/

namespace CheriOsTest.TlsThreads
open CheriOsTest.CStrings CheriOsTest.Monitors CheriOsTest.Programs

/-- The variables, by the TLS model that they are declared with. -/
inductive Var where
  | gd
  | ld
  | ie
  | le
  deriving DecidableEq

/-- The value that the variable is declared with. -/
def Var.init : Var → Int
  | .gd => 1
  | .ld => 2
  | .ie => 3
  | .le => 4

def Var.name : Var → CString
  | .gd => cstr "tls_gd"
  | .ld => cstr "tls_ld"
  | .ie => cstr "tls_ie"
  | .le => cstr "tls_le"

inductive Who where
  | main
  | thread
  deriving DecidableEq

/-- The capability for a variable of one of the threads. -/
structure TlsPtr where
  base : UInt64
  length : UInt64
  offset : UInt64

/-- The options that the test is built with, where the variables are, and `%#p`. -/
structure Platform where
  dynamicTests : Bool
  purecap : Bool
  exactBounds : Bool
  pointer : Who → Var → TlsPtr
  sharpP : TlsPtr → CString

def vars (p : Platform) : List Var :=
  if p.dynamicTests then [.gd,.ld,.ie,.le] else [.ie,.le]

inductive Stop where
  | success
  | errx (msg : CString)
  | errc (error : Int) (what : CString)
  | fault
  deriving DecidableEq

/-- What the threads share. `thr` are the globals `thr_tls_*`, and `val` the locals
`thr_tls_*_val`; `ended` says that the storage of the thread is gone. -/
structure Data where
  tls : Who → Var → Int
  thr : Var → Option Who
  val : Var → Int
  threadDone : Int
  ended : Bool
  stop : Option Stop

inductive Check where
  | mine (v : Var)
  | theirs (v : Var)
  | disjoint (v : Var)
  | bounds (w : Who) (v : Var)
  deriving DecidableEq

/-- The checks behind the last unlock. -/
def checks (p : Platform) : List Check :=
  (vars p).map .mine ++ (vars p).map .theirs ++
    if p.purecap then
      (vars p).map .disjoint ++
        if p.exactBounds then
          (if p.dynamicTests then
            [.bounds .main .gd,.bounds .main .ld,.bounds .thread .gd,.bounds .thread .ld] else []) ++
          [.bounds .main .ie,.bounds .main .le,.bounds .thread .ie,.bounds .thread .le]
        else []
    else []

def TlsPtr.top (q : TlsPtr) : UInt64 := q.base+q.length

/-- The condition of `CHECK_DISJOINT`. -/
def overlapping (my thr : TlsPtr) : Bool :=
  (thr.base ≤ my.base && my.base < thr.top) ||
  (thr.base < my.top && my.top ≤ thr.top) ||
  (my.base ≤ thr.base && thr.base < my.top) ||
  (my.base < thr.top && thr.top ≤ my.top)

def sizeofInt : Nat := 4

def Who.word : Who → CString
  | .main => cstr "my_"
  | .thread => cstr "thr_"

def badValue (pointer : CString) (got expected : Int) : CString :=
  cstr "Bad *" ++ pointer ++ cstr " (got: " ++ fmtD got ++ cstr "; expected " ++ fmtD expected ++
    cstr ")"

/-- The text of a check that fails. -/
def Check.failure (p : Platform) (d : Data) : Check → Option CString
  | .mine v =>
    if d.tls .main v ≠ v.init then
      some (badValue (Who.main.word ++ v.name) (d.tls .main v) v.init)
    else none
  | .theirs v =>
    if d.val v ≠ v.init+1 then
      some (badValue (Who.thread.word ++ v.name) (d.val v) (v.init+1))
    else none
  | .disjoint v =>
    if overlapping (p.pointer .main v) (p.pointer .thread v) then
      some (cstr "Overlapping TLS capabilities (my " ++ v.name ++ cstr ": " ++
        p.sharpP (p.pointer .main v) ++ cstr " ; thread's " ++ v.name ++ cstr ": " ++
        p.sharpP (p.pointer .thread v) ++ cstr ")")
    else none
  | .bounds w v =>
    if (p.pointer w v).offset ≠ 0 then
      some (cstr "TLS variable " ++ w.word ++ v.name ++ cstr " with non-zero offset: " ++
        p.sharpP (p.pointer w v))
    else if (p.pointer w v).length ≠ UInt64.ofNat sizeofInt then
      some (cstr "TLS variable " ++ w.word ++ v.name ++ cstr " (size " ++ fmtD sizeofInt ++
        cstr ") with bad length: " ++ p.sharpP (p.pointer w v))
    else none

/-- Places in `test_tls_threads_get_vars`, and below them in `tls_threads`. -/
inductive Pc where
  | publish (v : Var) (rest : List Var)
  | increment (v : Var) (rest : List Var)
  | thrLock
  | setOne
  | thrBroadcast
  | thrWait
  | retest
  | thrUnlock
  | thrReturn
  | thrEnd
  | create
  | mainLock
  | test
  | mainWait
  | copy (v : Var) (rest : List Var)
  | setTwo
  | mainBroadcast
  | mainUnlock
  | check (c : Check) (rest : List Check)
  | succeed

def publishFrom : List Var → Pc
  | [] => .thrLock
  | v :: rest => .publish v rest

def copyFrom : List Var → Pc
  | [] => .setTwo
  | v :: rest => .copy v rest

def checkFrom : List Check → Pc
  | [] => .succeed
  | c :: rest => .check c rest

def Data.set (d : Data) (w : Who) (v : Var) (n : Int) : Data :=
  { d with tls := Function.update d.tls w (Function.update (d.tls w) v n) }

/-- `*thr_tls_v`. -/
def Data.deref (d : Data) (v : Var) : Option Int :=
  match d.thr v with
  | none => none
  | some .thread => if d.ended then none else some (d.tls .thread v)
  | some .main => some (d.tls .main v)

def code (p : Platform) (_ : Who) : Pc → Instr Who Pc Data
  | .publish v rest =>
    .access fun d => (.increment v rest,{ d with thr := Function.update d.thr v (some .thread) })
  | .increment v rest => .access fun d => (publishFrom rest,d.set .thread v (d.tls .thread v+1))
  | .thrLock => .lock .setOne
  | .setOne => .access fun d => (.thrBroadcast,{ d with threadDone := 1 })
  | .thrBroadcast => .broadcast .thrWait
  | .thrWait => .wait .retest
  | .retest => .access fun d => (if d.threadDone = 1 then .thrWait else .thrUnlock,d)
  | .thrUnlock => .unlock .thrReturn
  | .thrReturn => .access fun d => (.thrEnd,{ d with ended := true })
  | .thrEnd => .done
  | .create => .spawn .thread .mainLock
  | .mainLock => .lock .test
  | .test => .access fun d => (if d.threadDone = 0 then .mainWait else copyFrom (vars p),d)
  | .mainWait => .wait .test
  | .copy v rest => .access fun d =>
    match d.deref v with
    | none => (.copy v rest,{ d with stop := some .fault })
    | some n => (copyFrom rest,{ d with val := Function.update d.val v n })
  | .setTwo => .access fun d => (.mainBroadcast,{ d with threadDone := 2 })
  | .mainBroadcast => .broadcast .mainUnlock
  | .mainUnlock => .unlock (checkFrom (checks p))
  | .check c rest => .access fun d =>
    match c.failure p d with
    | some msg => (.check c rest,{ d with stop := some (.errx msg) })
    | none => (checkFrom rest,d)
  | .succeed => .access fun d => (.succeed,{ d with stop := some .success })

/-- The pthread function that a thread is in, given its place and whether it is woken there. -/
def calling : Pc → Bool → Option CString
  | .retest,true | .test,true => some (cstr "pthread_cond_wait")
  | .thrLock,_ | .mainLock,_ => some (cstr "pthread_mutex_lock")
  | .thrBroadcast,_ | .mainBroadcast,_ => some (cstr "pthread_cond_broadcast")
  | .thrWait,_ | .mainWait,_ => some (cstr "pthread_cond_wait")
  | .thrUnlock,_ | .mainUnlock,_ => some (cstr "pthread_mutex_unlock")
  | .create,_ => some (cstr "pthread_create")
  | _,_ => none

abbrev TlsState := System Who Pc Data

inductive TlsEvent where
  | sys : Event Who → TlsEvent
  /-- The pthread function that the thread is in returns an error. -/
  | fails (w : Who) (error : Int)

/-- One step of the process. A thread that reports ends it. -/
def tlsStep (p : Platform) (s : TlsState) (e : TlsEvent) : Option TlsState :=
  if s.data.stop.isSome then none else
  match e with
  | .sys e => s.step (code p) e
  | .fails w error =>
    match (s.thread w).status,calling (s.thread w).pc ((s.thread w).status = .woken) with
    | .running,some what | .woken,some what =>
      if error = 0 then none
      else some { s with data := { s.data with stop := some (.errc error what) } }
    | _,_ => none

/-- The locals `thr_tls_*_val` start with what the stack happens to hold. -/
def tlsStart (p : Platform) (locals : Var → Int) : TlsState where
  thread
    | .main => ⟨.create,.running⟩
    | .thread => ⟨publishFrom (vars p),.unborn⟩
  owner := none
  data := ⟨fun _ v => v.init,fun _ => none,locals,0,false,none⟩

end CheriOsTest.TlsThreads
