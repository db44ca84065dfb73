import DycoCoroutine.LinkedTree

/-!
# The red-black tree macros

The functions that RB_GENERATE of `sys_tree.h` defines and that the scheduler
calls, over a memory of linked nodes. Where the source has a branch and its
mirror image, the side is a parameter. Following a null pointer is a fault,
and so is a loop that outlasts its rounds. RB_AUGMENT is empty, and so is the
loop of RB_REMOVE that only calls it.
-/

namespace DycoCoroutine.SysTree

open RedBlackTree ColorTree LinkedTree

variable {N : Type*} [DecidableEq N]

/-- RB_INIT: an empty tree; the fields of the nodes stay as they are. -/
def rbInit (h : Heap N) : Heap N := {h with root := none}

/-- RB_EMPTY -/
def rbEmpty (h : Heap N) : Bool := h.root.isNone

/-- RB_SET -/
def rbSet (h : Heap N) (elm : N) (parent : Option N) : Heap N :=
  h.update elm fun _ => ⟨none,none,parent,.red⟩

/-- RB_SET_BLACKRED -/
def rbSetBlackred (h : Heap N) (black red : N) : Heap N :=
  (h.setColor black .black).setColor red .red

/-- A rotation that takes `elm` down on side `side`. -/
def rbRotate (side : Side) (h : Heap N) (elm : N) : Except Fault (Heap N) := do
  let tmp ← deref ((h.entry elm).child side.other)
  let h := h.setChild side.other elm ((h.entry tmp).child side)
  let h := h.reparent ((h.entry tmp).child side) (some elm)
  let h := h.setParent tmp (h.entry elm).parent
  let h := h.redirect (h.entry elm).parent elm (some tmp)
  let h := h.setChild side tmp (some elm)
  pure (h.setParent elm (some tmp))

section Rotate

variable {h : Heap N} {path : List (Frame N)} {s : Side} {a b c : ColorTree N} {x y : N}
  {cx cy : Color}

/-- A rotation follows no null pointer and rotates the tree at the position. -/
theorem rbRotate_focus (hf : Focus h path (join s cx a x (join s cy b y c))) :
    ∃ h',rbRotate s h x=.ok h' ∧ Focus h' path (join s cy (join s cx a x b) y c) := by
  refine ⟨_,?_,hf.rotated⟩
  have hd := hf.nodup_rotate
  simp only [List.nodup_cons,List.nodup_append,List.mem_cons,List.mem_append,not_or] at hd
  have hx := hf.entry
  have hy := (focus_join_other.mp hf).entry
  have hxy : x≠y := hd.1.1
  have hbx : b.ptr≠some x := fun heq => hd.1.2.2.1 (mem_of_ptr heq)
  rw [rbRotate,hx.2.1,ptr_join]
  simp [deref,bind,Except.bind,pure,Except.pure,Heap.rotated,Heap.setChild,Heap.setParent,
    entry_update_ne hxy,entry_update_ne hxy.symm,entry_reparent_ne hbx,hy.1,hx.2.2.1]

end Rotate

/-- RB_ROTATE_LEFT -/
def rbRotateLeft (h : Heap N) (elm : N) : Except Fault (Heap N) := rbRotate .left h elm

/-- RB_ROTATE_RIGHT -/
def rbRotateRight (h : Heap N) (elm : N) : Except Fault (Heap N) := rbRotate .right h elm

/-- The body of the loop of RB_INSERT_COLOR for a red parent on side `side` of
the grandparent; it returns the next `elm`. -/
def insertColorRound (side : Side) (h : Heap N) (gparent parent elm : N) :
    Except Fault (Heap N×N) :=
  let tmp := (h.entry gparent).child side.other
  if h.colorOf tmp=.red then
    .ok (rbSetBlackred (h.recolor tmp .black) parent gparent,gparent)
  else do
    let (h,parent,elm) ←
      if (h.entry parent).child side.other=some elm then do
        let h ← rbRotate side h parent
        pure (h,elm,parent)
      else pure (h,parent,elm)
    let h ← rbRotate side.other (rbSetBlackred h parent gparent) gparent
    pure (h,elm)

/-- The loop of RB_INSERT_COLOR. -/
def insertColorLoop : ℕ → Heap N → N → Except Fault (Heap N)
  | 0,_,_ => .error .fuel
  | fuel+1,h,elm =>
    match (h.entry elm).parent with
    | none => .ok h
    | some parent =>
      if (h.entry parent).color=.red then do
        let gparent ← deref (h.entry parent).parent
        let side := if (h.entry gparent).left=some parent then Side.left else .right
        let (h,elm) ← insertColorRound side h gparent parent elm
        insertColorLoop fuel h elm
      else .ok h

/-- RB_INSERT_COLOR -/
def rbInsertColor (fuel : ℕ) (h : Heap N) (elm : N) : Except Fault (Heap N) := do
  let h ← insertColorLoop fuel h elm
  let root ← deref h.root
  pure (h.setColor root .black)

/-- What the body of the loop of RB_REMOVE_COLOR comes to. -/
inductive Round (N : Type*)
  /-- The loop goes on one level up. -/
  | up (h : Heap N)
  /-- The loop is left by `break`. -/
  | done (h : Heap N)

/-- The first part of the body of the loop of RB_REMOVE_COLOR, for an `elm` on side
`side` of `parent`: it makes the sibling black and returns it. -/
def blackenSibling (side : Side) (h : Heap N) (parent : N) : Except Fault (Heap N×N) := do
  let tmp ← deref ((h.entry parent).child side.other)
  if (h.entry tmp).color=.red then do
    let h ← rbRotate side (rbSetBlackred h tmp parent) parent
    let tmp ← deref ((h.entry parent).child side.other)
    pure (h,tmp)
  else pure (h,tmp)

/-- The last part of the body, for a sibling `tmp` with a red child. -/
def restoreBlack (side : Side) (h : Heap N) (parent tmp : N) : Except Fault (Heap N) := do
  let (h,tmp) ←
    if h.colorOf ((h.entry tmp).child side.other)=.black then do
      let h := h.recolor ((h.entry tmp).child side) .black
      let h ← rbRotate side.other (h.setColor tmp .red) tmp
      let tmp ← deref ((h.entry parent).child side.other)
      pure (h,tmp)
    else pure (h,tmp)
  let h := h.setColor tmp (h.entry parent).color
  let h := h.setColor parent .black
  rbRotate side (h.recolor ((h.entry tmp).child side.other) .black) parent

/-- The body of the loop of RB_REMOVE_COLOR for an `elm` on side `side` of
`parent`. -/
def removeColorRound (side : Side) (h : Heap N) (parent : N) : Except Fault (Round N) := do
  let (h,tmp) ← blackenSibling side h parent
  if h.colorOf (h.entry tmp).left=.black ∧ h.colorOf (h.entry tmp).right=.black then
    pure (.up (h.setColor tmp .red))
  else do
    let h ← restoreBlack side h parent tmp
    pure (.done h)

/-- The loop of RB_REMOVE_COLOR; it returns the last `elm`. -/
def removeColorLoop : ℕ → Heap N → Option N → Option N → Except Fault (Heap N×Option N)
  | 0,_,_,_ => .error .fuel
  | fuel+1,h,parent,elm =>
    if h.colorOf elm=.black ∧ elm≠h.root then do
      let parent ← deref parent
      let side := if (h.entry parent).left=elm then Side.left else .right
      match ← removeColorRound side h parent with
      | .up h => removeColorLoop fuel h (h.entry parent).parent (some parent)
      | .done h => .ok (h,h.root)
    else .ok (h,elm)

/-- RB_REMOVE_COLOR -/
def rbRemoveColor (fuel : ℕ) (h : Heap N) (parent elm : Option N) : Except Fault (Heap N) := do
  let (h,elm) ← removeColorLoop fuel h parent elm
  pure (h.recolor elm .black)

/-- The loop of RB_REMOVE that looks for the successor. -/
def leftmost : ℕ → Heap N → N → Except Fault N
  | 0,_,_ => .error .fuel
  | fuel+1,h,elm =>
    match (h.entry elm).left with
    | none => .ok elm
    | some left => leftmost fuel h left

/-- Take `elm`, which has at most the one child `child`, out of its place. -/
def splice (h : Heap N) (elm : N) (child : Option N) : Heap N :=
  let parent := (h.entry elm).parent
  (h.reparent child parent).redirect parent elm child

/-- Put `elm`, which is out of the tree, into the place of `old`. -/
def supplant (h : Heap N) (old elm : N) : Except Fault (Heap N) := do
  let h := h.update elm fun _ => h.entry old
  let h := h.redirect (h.entry old).parent old (some elm)
  let left ← deref (h.entry old).left
  let h := h.setParent left (some elm)
  pure (h.reparent (h.entry old).right (some elm))

/-- RB_REMOVE up to the label `color`, with `parent`, `child` and `color` as they are
there. -/
def unlink (fuel : ℕ) (h : Heap N) (old : N) :
    Except Fault (Heap N×Option N×Option N×Color) :=
  match (h.entry old).left,(h.entry old).right with
  | none,child => .ok (splice h old child,(h.entry old).parent,child,(h.entry old).color)
  | child,none => .ok (splice h old child,(h.entry old).parent,child,(h.entry old).color)
  | some _,some right => do
    let elm ← leftmost fuel h right
    let child := (h.entry elm).right
    let parent := (h.entry elm).parent
    let color := (h.entry elm).color
    let h := splice h elm child
    let parent := if (h.entry elm).parent=some old then some elm else parent
    let h ← supplant h old elm
    pure (h,parent,child,color)

/-- RB_REMOVE -/
def rbRemove (fuel : ℕ) (h : Heap N) (old : N) : Except Fault (Heap N×N) := do
  let (h,parent,child,color) ← unlink fuel h old
  let h ← if color=.black then rbRemoveColor fuel h parent child else pure h
  pure (h,old)

/-- What the descent of RB_INSERT comes to. -/
inductive Descent (N : Type*)
  /-- An element with the same key. -/
  | found (x : N)
  /-- The parent of the new element, and the last comparison. -/
  | place (parent : Option N) (comp : Ordering)

/-- The member that a descent has found. -/
def Descent.member : Descent N → Option N
  | .found x => some x
  | .place _ _ => none

/-- The loop of RB_INSERT, where `cmp` compares the new element with another. -/
def insertDescend (cmp : N → Ordering) (h : Heap N) :
    ℕ → Option N → Option N → Ordering → Except Fault (Descent N)
  | 0,_,_,_ => .error .fuel
  | _+1,none,parent,comp => .ok (.place parent comp)
  | fuel+1,some tmp,_,_ =>
    match cmp tmp with
    | .lt => insertDescend cmp h fuel (h.entry tmp).left (some tmp) .lt
    | .gt => insertDescend cmp h fuel (h.entry tmp).right (some tmp) .gt
    | .eq => .ok (.found tmp)

/-- The part of RB_INSERT between the descent and RB_INSERT_COLOR. -/
def attach (h : Heap N) (elm : N) (parent : Option N) (comp : Ordering) : Heap N :=
  let h := rbSet h elm parent
  match parent with
  | none => {h with root := some elm}
  | some parent =>
    if comp=.lt then h.setChild .left parent (some elm) else h.setChild .right parent (some elm)

/-- RB_INSERT, with the element that already has the key as its result. -/
def rbInsert (cmp : N → N → Ordering) (fuel : ℕ) (h : Heap N) (elm : N) :
    Except Fault (Heap N×Option N) := do
  match ← insertDescend (cmp elm) h fuel h.root none .eq with
  | .found tmp => pure (h,some tmp)
  | .place parent comp =>
    let h ← rbInsertColor fuel (attach h elm parent comp) elm
    pure (h,none)

/-- The loop of RB_FIND. -/
def findLoop (cmp : N → Ordering) (h : Heap N) : ℕ → Option N → Except Fault (Option N)
  | 0,_ => .error .fuel
  | _+1,none => .ok none
  | fuel+1,some tmp =>
    match cmp tmp with
    | .lt => findLoop cmp h fuel (h.entry tmp).left
    | .gt => findLoop cmp h fuel (h.entry tmp).right
    | .eq => .ok (some tmp)

/-- RB_FIND -/
def rbFind (cmp : N → N → Ordering) (fuel : ℕ) (h : Heap N) (elm : N) : Except Fault (Option N) :=
  findLoop (cmp elm) h fuel h.root

/-- The loop of RB_MINMAX. -/
def minmaxLoop (side : Side) (h : Heap N) : ℕ → Option N → Option N → Except Fault (Option N)
  | 0,_,_ => .error .fuel
  | _+1,none,parent => .ok parent
  | fuel+1,some tmp,_ => minmaxLoop side h fuel ((h.entry tmp).child side) (some tmp)

/-- RB_MIN -/
def rbMin (fuel : ℕ) (h : Heap N) : Except Fault (Option N) := minmaxLoop .left h fuel h.root none

end DycoCoroutine.SysTree
