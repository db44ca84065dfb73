import DycoCoroutine.SysTreeInsert
import DycoCoroutine.SysTreeRemove

/-!
# Sequences of calls of the tree macros

Whatever a program does with the macros of `sys_tree.h`, as long as it removes
members only, it sees the results of an ordered set. No null pointer is
followed, and no loop of a macro takes more rounds than twice the logarithm of
the number of calls.
-/

namespace DycoCoroutine.SysTree

open RedBlackTree LinkedTree KeyedSet

/-- A call of a macro. -/
inductive Call (N : Type)
  /-- RB_INSERT -/
  | insert (x : N)
  /-- RB_REMOVE -/
  | remove (x : N)
  /-- RB_FIND -/
  | find (x : N)
  /-- RB_MIN -/
  | min

variable {N : Type} [DecidableEq N] {key : N → ℕ} {l l' : List N} {h : Heap N} {fuel : ℕ}
  {calls : List (Call N)} {out : List (Option N)}

/-- A call on the memory, with its result. -/
def rbCall (cmp : N → N → Ordering) (fuel : ℕ) (h : Heap N) :
    Call N → Except Fault (Heap N×Option N)
  | .insert x => rbInsert cmp fuel h x
  | .remove x => (rbRemove fuel h x).map fun r => (r.1,some r.2)
  | .find x => (rbFind cmp fuel h x).map fun r => (h,r)
  | .min => (rbMin fuel h).map fun r => (h,r)

/-- A call on an ordered set, with its result; only members are removed. -/
def setCall (key : N → ℕ) (l : List N) : Call N → Option (List N×Option N)
  | .insert x => some ((tryPlace key x l).2,(tryPlace key x l).1)
  | .remove x => if x∈l then some (l.erase x,some x) else none
  | .find x => some (l,find key (key x) l)
  | .min => some (l,l.head?)

/-- The calls one after the other, with their results. -/
def rbCalls (cmp : N → N → Ordering) (fuel : ℕ) :
    Heap N → List (Call N) → Except Fault (Heap N×List (Option N))
  | h,[] => .ok (h,[])
  | h,c::rest => do
    let (h,r) ← rbCall cmp fuel h c
    let (h,out) ← rbCalls cmp fuel h rest
    pure (h,r::out)

/-- The same on an ordered set. -/
def setCalls (key : N → ℕ) : List N → List (Call N) → Option (List N×List (Option N))
  | l,[] => some (l,[])
  | l,c::rest => do
    let (l,r) ← setCall key l c
    let (l,out) ← setCalls key l rest
    pure (l,r::out)

theorem rbCall_represents {c : Call N} {r : Option N} (hr : Represents h key l)
    (hfuel : 2*Nat.log 2 (l.length+1)<fuel) (hc : setCall key l c=some (l',r)) :
    ∃ h',rbCall (keyCmp key) fuel h c=.ok (h',r) ∧ Represents h' key l' := by
  cases c with
  | insert x =>
    obtain ⟨h',hins,hr'⟩ := rbInsert_represents hr x hfuel
    cases hc
    exact ⟨h',hins,hr'⟩
  | remove x =>
    rw [setCall] at hc
    split_ifs at hc with hx
    cases hc
    obtain ⟨h',hrem,hspans⟩ := rbRemove_spans hr.2 hx hfuel
    exact ⟨h',by rw [rbCall,hrem]; rfl,hr.1.erase x,hspans⟩
  | find x =>
    cases hc
    exact ⟨h,by rw [rbCall,rbFind_represents hr x hfuel]; rfl,hr⟩
  | min =>
    cases hc
    exact ⟨h,by rw [rbCall,rbMin_spans hr.2 hfuel]; rfl,hr⟩

/-- A call adds one member at most. -/
theorem length_setCall {c : Call N} {r : Option N} (hc : setCall key l c=some (l',r)) :
    l'.length≤l.length+1 := by
  cases c with
  | insert x =>
    cases hc
    rw [tryPlace]
    split_ifs
    · exact Nat.le_succ _
    · rw [place,List.orderedInsert_length]
  | remove x =>
    rw [setCall] at hc
    split_ifs at hc
    cases hc
    exact List.length_erase_le.trans (Nat.le_succ _)
  | find x =>
    cases hc
    exact Nat.le_succ _
  | min =>
    cases hc
    exact Nat.le_succ _

theorem rbCalls_represents (hr : Represents h key l)
    (hfuel : 2*Nat.log 2 (l.length+calls.length+1)<fuel)
    (hcalls : setCalls key l calls=some (l',out)) :
    ∃ h',rbCalls (keyCmp key) fuel h calls=.ok (h',out) ∧ Represents h' key l' := by
  induction calls generalizing h l out with
  | nil =>
    cases hcalls
    exact ⟨h,rfl,hr⟩
  | cons c rest ih =>
    obtain ⟨⟨l₁,r⟩,hc,hrest⟩ := Option.bind_eq_some_iff.mp hcalls
    obtain ⟨⟨l₂,out₁⟩,htail,heq⟩ := Option.bind_eq_some_iff.mp hrest
    cases heq
    have hlen := length_setCall hc
    have hmono : ∀ n≤l.length+(rest.length+1)+1,2*Nat.log 2 n<fuel := fun n hn =>
      (Nat.mul_le_mul_left 2 (Nat.log_mono_right hn)).trans_lt hfuel
    obtain ⟨h₁,hcall,hr₁⟩ := rbCall_represents hr (hmono _ (by omega)) hc
    obtain ⟨h',hcalls',hr'⟩ := ih hr₁ (hmono _ (by omega)) htail
    refine ⟨h',?_,hr'⟩
    rw [rbCalls,hcall]
    show (rbCalls (keyCmp key) fuel h₁ rest>>=_)=_
    rw [hcalls']
    rfl

/-- From RB_INIT on the macros answer every sequence of calls as an ordered set does. -/
theorem tree_calls_refine_set (heap : Heap N) (hfuel : 2*Nat.log 2 (calls.length+1)<fuel)
    (hcalls : setCalls key [] calls=some (l,out)) :
    ∃ h,rbCalls (keyCmp key) fuel (rbInit heap) calls=.ok (h,out) ∧ Ordered key l ∧
      ∃ t,Focus h [] t ∧ t.RedBlack ∧ t.nodes=l := by
  have hinit : Represents (rbInit heap) key [] := ⟨List.Pairwise.nil,rbInit_spans heap⟩
  exact rbCalls_represents hinit (by rwa [List.length_nil,Nat.zero_add]) hcalls

/-- Nine members go in, one of them twice, and four come out again. -/
def inAndOut : List (Call ℕ) :=
  [.insert 5,.insert 3,.insert 8,.insert 1,.insert 4,.insert 7,.insert 9,.insert 2,.insert 6,
    .insert 5,.remove 5,.find 5,.remove 9,.remove 8,.remove 7,.min]

/-- The memory held something else before. -/
theorem tree_calls_refine_set_inAndOut :
    ∃ h,rbCalls (keyCmp id) 9 (rbInit ⟨some 9,fun _ => ⟨some 1,none,some 5,.red⟩⟩) inAndOut=
        .ok (h,[none,none,none,none,none,none,none,none,none,some 5,some 5,none,some 9,some 8,
          some 7,some 1]) ∧
      ∃ t,Focus h [] t ∧ t.RedBlack ∧ t.nodes=[1,2,3,4,6] := by
  have hcalls : setCalls (id : ℕ → ℕ) [] inAndOut=some ([1,2,3,4,6],[none,none,none,none,none,none,
      none,none,none,some 5,some 5,none,some 9,some 8,some 7,some 1]) := by decide +kernel
  have hfuel : 2*Nat.log 2 (inAndOut.length+1)<9 := by decide +kernel
  obtain ⟨h,hrun,-,htree⟩ :=
    tree_calls_refine_set ⟨some 9,fun _ => ⟨some 1,none,some 5,.red⟩⟩ hfuel hcalls
  exact ⟨h,hrun,htree⟩

end DycoCoroutine.SysTree
