import CheriOsTest.BoundedArrays
import CheriOsTest.Reports
set_option autoImplicit false

/-! The text of a failure on its way: two calls of `snprintf` put it into the page, and the
parent copies it into an array of its own and has it encoded into a third. -/

namespace CheriOsTest.Harness
open CheriOsTest.CStrings CheriOsTest.Programs CheriOsTest.BoundedArrays

inductive ArrayFault where
  | outOfBounds

def memcpy (dst src : List UInt8) (n : Nat) : Except ArrayFault (List UInt8) := do
  let bytes ← (List.range n).mapM (read .outOfBounds src)
  let c ← bytes.foldlM (Cursor.push .outOfBounds) ⟨dst,0⟩
  pure c.slots

/-- `strnvis`, which reads up to a NUL. The flag tells whether the encoding had room. -/
def strnvis (encode : CString → List UInt8) (dst : List UInt8) (dlen : Nat) (src : List UInt8) :
    Except ArrayFault (List UInt8 × Bool) := do
  failIf (0 ∉ src) .outOfBounds
  let out := encode (upToNul src)
  let whole := decide (out.length < dlen)
  let c ← ((if whole then out else out.take (dlen-1)) ++ [0]).foldlM (Cursor.push .outOfBounds) ⟨dst,0⟩
  pure (c.slots,whole)

abbrev reasonSize : Nat := TESTRESULT_STR_LEN*2
abbrev visreasonSize : Nat := reasonSize*4

/-- From the test for `TESTRESULT_FAILURE` to `strnvis`, on the bytes of the three arrays. -/
def escapeFailure (encode : CString → List UInt8) (page : ChildState)
    (reason : Vector UInt8 reasonSize) (visreason : Vector UInt8 visreasonSize) :
    Except ArrayFault (List UInt8 × List UInt8 × Bool) := do
  let str := page.ccsTestresultStr.toList.set (TESTRESULT_STR_LEN-1) 0
  let reason ← memcpy reason.toList str TESTRESULT_STR_LEN
  let (visreason,whole) ← strnvis encode visreason.toList visreasonSize reason
  pure (reason,visreason,whole)

def storeAll (page : ChildState) (stores : List Store) : ChildState := stores.foldl Store.apply page

def ChildState.Says (page : ChildState) (s : List UInt8) : Prop :=
  s ++ [0] <+: page.ccsTestresultStr.toList

section Stores

variable {n : Nat}

theorem setBytes_append {v : Vector UInt8 n} {s bs : List UInt8} (hs : s <+: v.toList)
    (hn : s.length+bs.length ≤ n) : s ++ bs <+: (setBytes v s.length bs).toList := by
  rw [List.prefix_iff_getElem?] at hs ⊢
  intro i hi
  rw [List.length_append] at hi
  have hin : i < n := by omega
  rw [Vector.getElem?_toList,Vector.getElem?_eq_getElem hin,setBytes,Vector.getElem_ofFn]
  by_cases hlow : s.length ≤ i
  · have hb : i-s.length < bs.length := by omega
    rw [if_pos hlow,List.getElem_append_right hlow,List.getD_eq_getElem _ _ hb]
  · have hi' : i < s.length := by omega
    have hv := hs i hi'
    rw [Vector.getElem?_toList,Vector.getElem?_eq_getElem hin] at hv
    rw [if_neg hlow,List.getElem_append_left hi']
    exact hv

theorem says_storeMessage (page : ChildState) {a : List UInt8} (s : CString)
    (ha : a <+: page.ccsTestresultStr.toList) (hlen : a.length < TESTRESULT_STR_LEN) :
    ((storeMessage a.length s).apply page).Says (a ++ s.take (TESTRESULT_STR_LEN-1-a.length)) := by
  have hn : a.length+(snprintf (TESTRESULT_STR_LEN-a.length) s ++ [0]).length ≤
      TESTRESULT_STR_LEN := by
    rw [List.length_append,snprintf,List.length_take,List.length_singleton]
    omega
  have happend := setBytes_append (v := page.ccsTestresultStr) ha hn
  rw [ChildState.Says,List.append_assoc,Nat.sub_right_comm]
  exact happend

theorem says_failureErrx (page : ChildState) (m : CString) :
    (storeAll page (failureErrxStores (some m))).Says (m.take (TESTRESULT_STR_LEN-1)) :=
  says_storeMessage _ (a := []) m List.nil_prefix (by decide)

theorem says_failureErrc (page : ChildState) (m e : CString) :
    (storeAll page (failureErrcStores e (some m))).Says
      ((m ++ cstr ": " ++ e).take (TESTRESULT_STR_LEN-1)) := by
  by_cases hroom : TESTRESULT_STR_LEN ≤ m.length
  · have htake : (m ++ cstr ": " ++ e).take (TESTRESULT_STR_LEN-1) = m.take (TESTRESULT_STR_LEN-1) := by
      rw [List.append_assoc,List.take_append_of_le_length ((Nat.sub_le _ _).trans hroom)]
    have hstores : failureErrcStores e (some m) = failureErrxStores (some m) := if_pos hroom
    rw [htake,hstores]
    exact says_failureErrx page m
  · have hstores : failureErrcStores e (some m) =
        failureErrxStores (some m) ++ [storeMessage m.length (cstr ": " ++ e)] := if_neg hroom
    have hm : m.take (TESTRESULT_STR_LEN-1) = m := List.take_of_length_le (by omega)
    have hfirst := says_failureErrx page m
    rw [hm] at hfirst
    have hprefix := (List.prefix_append m [0]).trans hfirst
    have hsays := says_storeMessage _ (cstr ": " ++ e) hprefix (Nat.lt_of_not_le hroom)
    rw [hstores,storeAll,List.foldl_append,List.append_assoc,List.take_append,hm]
    exact hsays

end Stores

section Copies

variable {dst src : List UInt8} {n : Nat}

theorem memcpy_eq (hs : n ≤ src.length) (hd : n ≤ dst.length) :
    memcpy dst src n = .ok (src.take n ++ dst.drop n) := by
  have hlen : (src.take n).length = n := List.length_take_of_le hs
  have hpush := pushes_start ArrayFault.outOfBounds (Nat.le_of_eq hlen |>.trans hd)
  rw [memcpy,reads_eq _ hs]
  simp only [bind,Except.bind,hpush,hlen]
  rfl

theorem strnvis_eq {encode : CString → List UInt8} {dlen : Nat} (hsrc : 0 ∈ src)
    (hroom : (encode (upToNul src)).length < dlen) (hd : dlen ≤ dst.length) :
    ∃ rest, strnvis encode dst dlen src = .ok (encode (upToNul src) ++ [0] ++ rest,true) := by
  have hlen : (encode (upToNul src) ++ [0]).length ≤ dst.length := by
    rw [List.length_append,List.length_singleton]
    omega
  refine ⟨dst.drop (encode (upToNul src) ++ [0]).length,?_⟩
  rw [strnvis,failIf,if_neg (not_not.mpr hsrc)]
  simp only [hroom,decide_true,if_true]
  simp only [bind,Except.bind,pushes_start ArrayFault.outOfBounds hlen]
  rfl

end Copies

section Page

variable {encode : CString → List UInt8}

/-- Behind the forced NUL nothing is read, whatever the child left in the array. -/
theorem upToNul_terminated (page : ChildState) (rest : List UInt8) :
    upToNul (page.ccsTestresultStr.toList.set (TESTRESULT_STR_LEN-1) 0 ++ rest) =
      (testFailure page).reason := by
  have hlen : page.ccsTestresultStr.toList.length = TESTRESULT_STR_LEN := Vector.length_toList
  have hset : page.ccsTestresultStr.toList.set (TESTRESULT_STR_LEN-1) 0 =
      page.ccsTestresultStr.toList.take (TESTRESULT_STR_LEN-1) ++ [0] := by
    rw [List.set_eq_take_append_cons_drop,if_pos (by rw [hlen]; decide),
      List.drop_of_length_le (by rw [hlen]; decide)]
  rw [hset,testFailure,List.append_assoc,List.singleton_append]
  exact upToNul_append_nul _ _

theorem escapeFailure_eq (hencode : ∀ s, (encode s).length ≤ 4*s.length) (page : ChildState)
    (reason : Vector UInt8 reasonSize) (visreason : Vector UInt8 visreasonSize) :
    ∃ rest, escapeFailure encode page reason visreason =
      .ok (page.ccsTestresultStr.toList.set (TESTRESULT_STR_LEN-1) 0 ++
          reason.toList.drop TESTRESULT_STR_LEN,
        encode (testFailure page).reason ++ [0] ++ rest,true) := by
  have hstr : (page.ccsTestresultStr.toList.set (TESTRESULT_STR_LEN-1) 0).length =
      TESTRESULT_STR_LEN := by
    rw [List.length_set,Vector.length_toList]
  have hcopy := memcpy_eq (Nat.le_of_eq hstr.symm)
    (show TESTRESULT_STR_LEN ≤ reason.toList.length by rw [Vector.length_toList]; decide)
  rw [List.take_of_length_le (Nat.le_of_eq hstr)] at hcopy
  have hlen : (testFailure page).reason.length ≤ TESTRESULT_STR_LEN-1 := by
    rw [testFailure,upToNul]
    exact (List.takeWhile_prefix _).length_le.trans (List.length_take_le _ _)
  have hnul : 0 ∈ page.ccsTestresultStr.toList.set (TESTRESULT_STR_LEN-1) 0 ++
      reason.toList.drop TESTRESULT_STR_LEN :=
    List.mem_append_left _ (List.mem_set (by rw [Vector.length_toList]; decide) 0)
  have hroom : (encode (testFailure page).reason).length < visreasonSize := by
    have henc := hencode (testFailure page).reason
    have hsize : 4*(TESTRESULT_STR_LEN-1) < visreasonSize := by decide
    omega
  rw [← upToNul_terminated page (reason.toList.drop TESTRESULT_STR_LEN)] at hroom ⊢
  obtain ⟨rest,hrest⟩ := strnvis_eq hnul hroom (Nat.le_of_eq visreason.length_toList.symm)
  refine ⟨rest,?_⟩
  rw [escapeFailure]
  simp only [bind,Except.bind,hcopy,hrest]
  rfl

theorem testFailure_of_says {page : ChildState} {s : List UInt8} (h : page.Says s)
    (hs : ∀ b ∈ s, b ≠ 0) (hlen : s.length ≤ TESTRESULT_STR_LEN-1) :
    (testFailure page).reason = s := by
  obtain ⟨rest,hrest⟩ := h
  refine (upToNul_take_eq_iff hs).mpr (.inr ⟨0,rest,?_,?_⟩)
  · rw [← hrest,List.append_assoc,List.singleton_append]
  · exact (Nat.eq_or_lt_of_le hlen).imp_right fun hlt => ⟨hlt,rfl⟩

/-- What `errc` is told reaches the harness's output, encoded and otherwise unchanged. -/
theorem failureErrc_escaped (hencode : ∀ s, (encode s).length ≤ 4*s.length) (page : ChildState)
    {m e : CString} (hm : ∀ b ∈ m ++ cstr ": " ++ e, b ≠ 0)
    (reason : Vector UInt8 reasonSize) (visreason : Vector UInt8 visreasonSize) :
    ∃ reason' rest,
      escapeFailure encode (storeAll page (failureErrcStores e (some m))) reason visreason =
        .ok (reason',encode ((m ++ cstr ": " ++ e).take (TESTRESULT_STR_LEN-1)) ++ [0] ++ rest,true) := by
  obtain ⟨rest,hrest⟩ := escapeFailure_eq hencode (storeAll page (failureErrcStores e (some m)))
    reason visreason
  have htext := testFailure_of_says (says_failureErrc page m e)
    (fun b hb => hm b (List.mem_of_mem_take hb)) (List.length_take_le _ _)
  rw [htext] at hrest
  exact ⟨_,rest,hrest⟩

/-- A message and its error text arrive in the page cut at the last byte for the NUL, and
what a failing child left there is copied and encoded whole within the parent's arrays. -/
theorem failure_text_escaped
    (hencode : ∀ s, (encode s).length ≤ 4*s.length) (page : ChildState) :
    (∀ m e, (storeAll page (failureErrcStores e (some m))).Says
      ((m ++ cstr ": " ++ e).take (TESTRESULT_STR_LEN-1))) ∧
    (∀ m, (storeAll page (failureErrxStores (some m))).Says (m.take (TESTRESULT_STR_LEN-1))) ∧
    ∀ reason visreason, ∃ reason' rest, escapeFailure encode page reason visreason =
      .ok (reason',encode (testFailure page).reason ++ [0] ++ rest,true) := by
  refine ⟨says_failureErrc page,says_failureErrx page,fun reason visreason => ?_⟩
  obtain ⟨rest,hrest⟩ := escapeFailure_eq hencode page reason visreason
  exact ⟨_,rest,hrest⟩

/-- What `vis` makes of a byte by default: at most a backslash and three characters. -/
def visByte (b : UInt8) : List UInt8 :=
  if b = 92 then [92,92]
  else if b = 160 then [92,50,52,48]
  else if b = 10 ∨ (32 ≤ b ∧ b < 127) then [b]
  else
    let c := b &&& 127
    [92] ++ (if 128 ≤ b then [77] else []) ++ if c < 32 ∨ c = 127 then [94,c ^^^ 64] else [45,c]

theorem visByte_length (b : UInt8) : (visByte b).length ≤ 4 := by
  simp only [visByte]
  split_ifs <;> simp

theorem visBytes_length (s : CString) : (s.flatMap visByte).length ≤ 4*s.length := by
  induction s with
  | nil => rfl
  | cons b s ih =>
    have hb := visByte_length b
    rw [List.flatMap_cons,List.length_append,List.length_cons]
    omega

def unterminatedPage : ChildState :=
  { ChildState.zeroed with
    ccsTestresult := TESTRESULT_FAILURE
    ccsTestresultStr := Vector.replicate TESTRESULT_STR_LEN 1 }

theorem failure_text_escaped_unterminated :
    (∀ s : CString, (s.flatMap visByte).length ≤ 4*s.length) ∧
    ∀ reason visreason, ∃ reason' rest,
      escapeFailure (List.flatMap visByte) unterminatedPage reason visreason =
        .ok (reason',(testFailure unterminatedPage).reason.flatMap visByte ++ [0] ++ rest,true) :=
  ⟨visBytes_length,
    (failure_text_escaped visBytes_length unterminatedPage).2.2⟩

end Page

end CheriOsTest.Harness
