import DycoCoroutine.RedBlackTree

/-!
# Trees in a memory of linked nodes

A memory gives every node two child pointers, a parent pointer and a colour,
and has one root pointer. A tree is linked in it if every pointer is the one
that the tree prescribes; a position of the tree is linked if both the path to
it and the subtree at it are. Moving between positions does not touch the
memory, and a change at one node is invisible to the parts of the tree that do
not have the node. The node type is arbitrary.
-/

namespace DycoCoroutine.LinkedTree

open RedBlackTree ColorTree

/-- How a walk over pointers fails. -/
inductive Fault
  /-- A null pointer was followed. -/
  | null
  /-- The rounds granted to a loop were not enough. -/
  | fuel
  deriving DecidableEq

/-- The fields of a node. -/
structure Entry (N : Type*) where
  /-- Left child. -/
  left : Option N
  /-- Right child. -/
  right : Option N
  /-- Parent. -/
  parent : Option N
  /-- Colour. -/
  color : Color
  deriving DecidableEq

/-- The root pointer and the fields of all nodes. -/
structure Heap (N : Type*) where
  /-- The root pointer. -/
  root : Option N
  /-- The fields of a node. -/
  entry : N → Entry N

variable {N : Type*}

/-- The child on one side. -/
def Entry.child (e : Entry N) : Side → Option N
  | .left => e.left
  | .right => e.right

/-- Replace the child on one side. -/
def Entry.setChild (e : Entry N) (s : Side) (v : Option N) : Entry N :=
  match s with
  | .left => {e with left := v}
  | .right => {e with right := v}

/-- A child pointer that was written is read back. -/
@[simp] theorem Entry.child_setChild (e : Entry N) (s : Side) (v : Option N) :
    (e.setChild s v).child s=v := by cases s <;> rfl

/-- Writing one child pointer leaves the other alone. -/
@[simp] theorem Entry.child_setChild_other (e : Entry N) (s : Side) (v : Option N) :
    (e.setChild s v).child s.other=e.child s.other := by cases s <;> rfl

/-- The same, with the sides exchanged. -/
@[simp] theorem Entry.child_other_setChild (e : Entry N) (s : Side) (v : Option N) :
    (e.setChild s.other v).child s=e.child s := by cases s <;> rfl

@[simp] theorem Entry.parent_setChild (e : Entry N) (s : Side) (v : Option N) :
    (e.setChild s v).parent=e.parent := by cases s <;> rfl

@[simp] theorem Entry.color_setChild (e : Entry N) (s : Side) (v : Option N) :
    (e.setChild s v).color=e.color := by cases s <;> rfl

/-- Replace the parent. -/
def Entry.setParent (e : Entry N) (v : Option N) : Entry N := {e with parent := v}

/-- Writing the parent pointer leaves the children alone. -/
@[simp] theorem Entry.child_setParent (e : Entry N) (s : Side) (v : Option N) :
    (e.setParent v).child s=e.child s := by cases s <;> rfl

@[simp] theorem Entry.parent_setParent (e : Entry N) (v : Option N) :
    (e.setParent v).parent=v := rfl

@[simp] theorem Entry.color_setParent (e : Entry N) (v : Option N) :
    (e.setParent v).color=e.color := rfl

/-- The fields have these children on side `s` and on the other side, this parent
and this colour. -/
def Entry.Is (e : Entry N) (s : Side) (a b p : Option N) (c : Color) : Prop :=
  e.child s=a ∧ e.child s.other=b ∧ e.parent=p ∧ e.color=c

/-- Follow a pointer. -/
def deref : Option N → Except Fault N
  | none => .error .null
  | some x => .ok x

/-- The pointers below `p` are those of the tree. -/
def Linked (h : Heap N) : Option N → ColorTree N → Prop
  | _,.nil => True
  | p,.node c l x r =>
    (h.entry x).Is .left l.ptr r.ptr p c ∧ Linked h (some x) l ∧ Linked h (some x) r

/-- The pointers above a position are those of its path, and the position
itself holds the pointer `v`. -/
def LinkedPath (h : Heap N) : List (Frame N) → Option N → Prop
  | [],v => h.root=v
  | f::path,v => (h.entry f.node).Is f.side v f.sibling.ptr (top path) f.color ∧
    Linked h (some f.node) f.sibling ∧ LinkedPath h path (some f.node)

/-- The tree `t` stands in the memory below the path, and no node occurs twice. -/
structure Focus (h : Heap N) (path : List (Frame N)) (t : ColorTree N) : Prop where
  /-- The pointers above the position. -/
  above : LinkedPath h path t.ptr
  /-- The pointers below it. -/
  below : Linked h (top path) t
  /-- All nodes are different. -/
  distinct : (pathNodes path++t.nodes).Nodup

variable {h h' : Heap N} {path : List (Frame N)} {t : ColorTree N} {p v : Option N}

@[simp] theorem linked_nil : Linked h p .nil := trivial

/-- A joined tree is linked when its root has the right entry and both subtrees are linked below
it. -/
theorem linked_join {s : Side} {c : Color} {a b : ColorTree N} {x : N} :
    Linked h p (join s c a x b) ↔
      (h.entry x).Is s a.ptr b.ptr p c ∧ Linked h (some x) a ∧ Linked h (some x) b := by
  cases s
  · exact Iff.rfl
  · simp only [join,Linked,Entry.Is,Entry.child,Side.other]
    tauto

/-- A tree stays linked while the fields of its nodes stay. -/
theorem Linked.congr (hl : Linked h p t) (heq : ∀ z∈t.nodes,h'.entry z=h.entry z) :
    Linked h' p t := by
  induction t generalizing p with
  | nil => trivial
  | node c l x r ihl ihr =>
    simp only [ColorTree.nodes,List.mem_append,List.mem_cons] at heq
    refine ⟨?_,ihl hl.2.1 fun z hz => heq z (.inl hz),
      ihr hl.2.2 fun z hz => heq z (.inr (.inr hz))⟩
    rw [heq x (.inr (.inl rfl))]
    exact hl.1

/-- A path depends on the root pointer and on the entries of its own nodes. -/
theorem LinkedPath.congr (hl : LinkedPath h path v) (hroot : h'.root=h.root)
    (heq : ∀ z∈pathNodes path,h'.entry z=h.entry z) : LinkedPath h' path v := by
  induction path generalizing v with
  | nil => exact hroot.trans hl
  | cons f path ih =>
    simp only [pathNodes,List.mem_append,List.mem_cons] at heq
    refine ⟨?_,hl.2.1.congr fun z hz => heq z (.inr (.inl hz)),
      ih hl.2.2 fun z hz => heq z (.inr (.inr hz))⟩
    rw [heq f.node (.inl rfl)]
    exact hl.1

/-- Moving up or down does not touch the memory. -/
theorem focus_cons {f : Frame N} : Focus h (f::path) t ↔ Focus h path (f.fill t) := by
  have hperm : (pathNodes path++(f.fill t).nodes).Perm (pathNodes (f::path)++t.nodes) :=
    (nodes_plug_perm path (f.fill t)).symm.trans (nodes_plug_perm (f::path) t)
  constructor
  · intro hf
    refine ⟨?_,linked_join.mpr ⟨hf.above.1,hf.below,hf.above.2.1⟩,hperm.nodup_iff.mpr hf.distinct⟩
    simpa [Frame.fill] using hf.above.2.2
  · intro hf
    obtain ⟨hx,ht,hs⟩ := linked_join.mp hf.below
    refine ⟨⟨hx,hs,?_⟩,ht,hperm.nodup_iff.mp hf.distinct⟩
    simpa [Frame.fill] using hf.above

/-- Moving the position up along a part of the path. -/
theorem focus_append {path' : List (Frame N)} :
    Focus h (path'++path) t ↔ Focus h path (plug path' t) := by
  induction path' generalizing t with
  | nil => exact Iff.rfl
  | cons f path' ih =>
    rw [List.cons_append,focus_cons,ih]
    exact Iff.rfl

/-- Moving the position up to the root. -/
theorem focus_nil : Focus h path t ↔ Focus h [] (plug path t) := by
  rw [← focus_append,List.append_nil]

/-- Moving the position down to the child on side `s`. -/
theorem focus_join {s : Side} {c : Color} {a b : ColorTree N} {x : N} :
    Focus h path (join s c a x b) ↔ Focus h (⟨s,c,x,b⟩::path) a := by
  rw [focus_cons]
  exact Iff.rfl

/-- Moving the position down to the child on the other side. -/
theorem focus_join_other {s : Side} {c : Color} {a b : ColorTree N} {x : N} :
    Focus h path (join s c a x b) ↔ Focus h (⟨s.other,c,x,a⟩::path) b := by
  rw [← focus_join,join_other]

/-- The nodes around the position are all different. -/
theorem Focus.nodup_join {s : Side} {c : Color} {a b : ColorTree N} {x : N}
    (hf : Focus h path (join s c a x b)) : (x::(a.nodes++(b.nodes++pathNodes path))).Nodup := by
  classical
  refine List.Perm.nodup (List.perm_iff_count.mpr fun z => ?_) hf.distinct
  have hj := (nodes_join_perm s c a x b).count_eq z
  simp only [List.count_append,List.count_cons] at hj ⊢
  omega

/-- What is read at the position. -/
theorem Focus.entry {s : Side} {c : Color} {a b : ColorTree N} {x : N}
    (hf : Focus h path (join s c a x b)) : (h.entry x).Is s a.ptr b.ptr (top path) c :=
  (linked_join.mp hf.below).1

/-- The node at the position is not the root of the sibling. -/
theorem Focus.sibling_ne {f : Frame N} {x : N} (hf : Focus h (f::path) t) (hx : t.ptr=some x) :
    f.sibling.ptr≠some x := by
  intro hs
  have hd := (List.nodup_append.mp hf.distinct).2.2 x
    (List.mem_cons_of_mem _ (List.mem_append_left _ (mem_of_ptr hs)))
  exact hd x (mem_of_ptr hx) rfl

/-- Below a frame the root pointer leads into the path. -/
theorem LinkedPath.root {f : Frame N} (hl : LinkedPath h (f::path) v) :
    ∃ x∈pathNodes (f::path),h.root=some x := by
  induction path generalizing f v with
  | nil => exact ⟨f.node,List.mem_cons_self,hl.2.2⟩
  | cons g path ih =>
    obtain ⟨x,hx,hroot⟩ := ih hl.2.2
    exact ⟨x,List.mem_cons_of_mem _ (List.mem_append_right _ hx),hroot⟩

/-- A subtree below a node is not the whole tree. -/
theorem Focus.ptr_ne_root {f : Frame N} (hf : Focus h (f::path) t) : t.ptr≠h.root := by
  obtain ⟨x,hx,hroot⟩ := hf.above.root
  intro heq
  exact (List.nodup_append.mp hf.distinct).2.2 x hx x (mem_of_ptr (heq.trans hroot)) rfl

/-- The side of a child is found by comparing it with the left one. -/
theorem LinkedPath.side [DecidableEq N] {f : Frame N} (hl : LinkedPath h (f::path) v)
    (hv : f.sibling.ptr≠v) :
    (if (h.entry f.node).left=v then Side.left else .right)=f.side := by
  obtain ⟨s,c,x,b⟩ := f
  cases s with
  | left => exact if_pos hl.1.1
  | right => exact if_neg (hl.1.2.1.trans_ne hv)

/-- The colour behind a pointer; a null pointer counts as black. -/
def Heap.colorOf (h : Heap N) : Option N → Color
  | none => .black
  | some x => (h.entry x).color

/-- The colour read through the pointer is that of the tree, NULL being black. -/
theorem Linked.colorOf (hl : Linked h p t) : h.colorOf t.ptr=t.color := by
  cases t with
  | nil => rfl
  | node c l x r => exact hl.1.2.2.2

section Updates

variable [DecidableEq N]

/-- Change the fields of one node. -/
def Heap.update (h : Heap N) (x : N) (f : Entry N → Entry N) : Heap N :=
  {h with entry := Function.update h.entry x (f (h.entry x))}

/-- Write a child pointer. -/
def Heap.setChild (h : Heap N) (s : Side) (x : N) (v : Option N) : Heap N :=
  h.update x fun e => e.setChild s v

/-- Write a parent pointer. -/
def Heap.setParent (h : Heap N) (x : N) (v : Option N) : Heap N :=
  h.update x fun e => e.setParent v

/-- Write a colour. -/
def Heap.setColor (h : Heap N) (x : N) (c : Color) : Heap N :=
  h.update x fun e => {e with color := c}

/-- Write the colour of a child, if there is one. -/
def Heap.recolor (h : Heap N) (v : Option N) (c : Color) : Heap N :=
  match v with
  | none => h
  | some x => h.setColor x c

/-- Write the parent pointer of a child, if there is one. -/
def Heap.reparent (h : Heap N) (v p : Option N) : Heap N :=
  match v with
  | none => h
  | some x => h.setParent x p

/-- Let the parent `p`, or the root pointer, point to `v` instead of `x`. -/
def Heap.redirect (h : Heap N) (p : Option N) (x : N) (v : Option N) : Heap N :=
  match p with
  | none => {h with root := v}
  | some q =>
    if (h.entry q).left=some x then h.setChild .left q v else h.setChild .right q v

variable {x z : N} {f : Entry N → Entry N}

@[simp] theorem root_update : (h.update x f).root=h.root := rfl

@[simp] theorem entry_update_self : (h.update x f).entry x=f (h.entry x) :=
  Function.update_self ..

/-- Writing one entry leaves the others alone. -/
theorem entry_update_ne (hz : z≠x) : (h.update x f).entry z=h.entry z :=
  Function.update_of_ne hz ..

@[simp] theorem root_reparent : (h.reparent v p).root=h.root := by cases v <;> rfl

/-- `reparent` writes at most the entry it points to. -/
theorem entry_reparent_ne (hz : v≠some z) : (h.reparent v p).entry z=h.entry z := by
  cases v with
  | none => rfl
  | some x =>
    rw [Heap.reparent,Heap.setParent]
    exact entry_update_ne fun heq => hz (congrArg some heq.symm)

/-- `redirect` writes at most the entry of the parent. -/
theorem entry_redirect_ne (hz : p≠some z) : (h.redirect p x v).entry z=h.entry z := by
  cases p with
  | none => rfl
  | some q =>
    have hq : z≠q := fun heq => hz (congrArg some heq.symm)
    simp only [Heap.redirect,Heap.setChild]
    split_ifs <;> exact entry_update_ne hq

/-- `recolor` writes at most the entry it points to. -/
theorem entry_recolor_ne {c : Color} (hz : v≠some z) : (h.recolor v c).entry z=h.entry z := by
  cases v with
  | none => rfl
  | some x =>
    rw [Heap.recolor,Heap.setColor]
    exact entry_update_ne fun heq => hz (congrArg some heq.symm)

/-- The root of the subtree at the position gets another colour. -/
theorem Focus.recolor (hf : Focus h path t) (c : Color) :
    Focus (h.recolor t.ptr c) path (t.paint c) := by
  cases t with
  | nil => exact hf
  | node d l x r =>
    obtain ⟨habove,⟨hx,hl,hr⟩,hd⟩ := hf
    have hout : x∉pathNodes path ∧ x∉l.nodes ∧ x∉r.nodes := by
      simp only [ColorTree.nodes,List.nodup_append,List.nodup_cons] at hd
      grind
    have hkeep : ∀ l : List N,x∉l → ∀ z∈l,(h.recolor (some x) c).entry z=h.entry z := fun l hx z hz =>
      entry_recolor_ne fun heq => hx (Option.some.inj heq ▸ hz)
    refine ⟨habove.congr rfl (hkeep _ hout.1),
      ⟨?_,hl.congr (hkeep _ hout.2.1),hr.congr (hkeep _ hout.2.2)⟩,hd⟩
    simp only [ColorTree.ptr,Heap.recolor,Heap.setColor,entry_update_self]
    exact ⟨hx.1,hx.2.1,hx.2.2.1,rfl⟩

/-- Painting the root of the subtree at the position. -/
theorem Focus.setColor {s : Side} {c : Color} {a b : ColorTree N}
    (hf : Focus h path (join s c a x b)) (d : Color) :
    Focus (h.setColor x d) path (join s d a x b) := by
  have hr := hf.recolor d
  rwa [ptr_join,paint_join] at hr

/-- A subtree under another parent. -/
theorem Linked.reparent (hl : Linked h p t) (hd : t.nodes.Nodup) (q : Option N) :
    Linked (h.reparent t.ptr q) q t := by
  cases t with
  | nil => trivial
  | node c l x r =>
    have hx : x∉l.nodes ∧ x∉r.nodes := by
      simp only [ColorTree.nodes,List.nodup_append,List.nodup_cons] at hd
      grind
    have hkeep : ∀ z,z≠x → (h.reparent (some x) q).entry z=h.entry z := fun z hz =>
      entry_reparent_ne fun heq => hz (Option.some.inj heq).symm
    refine ⟨?_,hl.2.1.congr fun z hz => hkeep z fun heq => hx.1 (heq ▸ hz),
      hl.2.2.congr fun z hz => hkeep z fun heq => hx.2 (heq ▸ hz)⟩
    simp only [ColorTree.ptr,Heap.reparent,Heap.setParent,entry_update_self]
    exact ⟨hl.1.1,hl.1.2.1,rfl,hl.1.2.2.2⟩

/-- A path whose position holds another pointer. -/
theorem LinkedPath.setHole {f : Frame N} (hl : LinkedPath h (f::path) p)
    (hd : (pathNodes (f::path)).Nodup) (v : Option N) :
    LinkedPath (h.setChild f.side f.node v) (f::path) v := by
  obtain ⟨hf,hs,hp⟩ := hl
  rw [pathNodes,List.nodup_cons,List.mem_append,not_or] at hd
  have hkeep : ∀ z,z≠f.node → (h.setChild f.side f.node v).entry z=h.entry z := fun z hz =>
    entry_update_ne hz
  refine ⟨?_,hs.congr fun z hz => hkeep z fun heq => hd.1.1 (heq ▸ hz),
    hp.congr rfl fun z hz => hkeep z fun heq => hd.1.2 (heq ▸ hz)⟩
  rw [Heap.setChild,entry_update_self]
  exact ⟨by simp,by simpa using hf.2.1,by simpa using hf.2.2.1,by simpa using hf.2.2.2⟩

/-- The same when the side is found by comparing pointers. -/
theorem LinkedPath.redirect (hl : LinkedPath h path (some x)) (hd : (pathNodes path).Nodup)
    (hx : x∉pathNodes path) (v : Option N) :
    LinkedPath (h.redirect (top path) x v) path v := by
  cases path with
  | nil => rfl
  | cons f path =>
    have hs : f.sibling.ptr≠some x := fun heq =>
      hx (List.mem_cons_of_mem _ (List.mem_append_left _ (mem_of_ptr heq)))
    have hset := hl.setHole hd v
    rw [← hl.side hs] at hset
    rw [top_cons,Heap.redirect]
    split_ifs at hset ⊢ <;> exact hset

/-- The writes of a rotation that takes `x` below `y` on side `s`, where `v` is the
subtree that changes sides and `p` the parent. -/
def Heap.rotated (h : Heap N) (s : Side) (x y : N) (v p : Option N) : Heap N :=
  (((((h.setChild s.other x v).reparent v (some x)).setParent y p).redirect p x (some y)).setChild
    s y (some x)).setParent x (some y)

section Rotated

variable {s : Side} {x y z : N} {a b c : ColorTree N} {cx cy : Color}

/-- A rotation writes four entries at most. -/
theorem entry_rotated_ne (hx : z≠x) (hy : z≠y) (hv : v≠some z) (hp : p≠some z) :
    (h.rotated s x y v p).entry z=h.entry z := by
  simp only [Heap.rotated,Heap.setParent,Heap.setChild,entry_update_ne hx,entry_update_ne hy,
    entry_redirect_ne hp,entry_reparent_ne hv]

/-- What a rotation leaves in the node that goes down. -/
theorem entry_rotated_lower (hxy : x≠y) (hv : v≠some x) (hp : p≠some x) :
    (h.rotated s x y v p).entry x=((h.entry x).setChild s.other v).setParent (some y) := by
  simp only [Heap.rotated,Heap.setParent,Heap.setChild,entry_update_self,entry_update_ne hxy,
    entry_redirect_ne hp,entry_reparent_ne hv]

/-- What a rotation leaves in the node that goes up. -/
theorem entry_rotated_upper (hxy : x≠y) (hv : v≠some y) (hp : p≠some y) :
    (h.rotated s x y v p).entry y=((h.entry y).setParent p).setChild s (some x) := by
  simp only [Heap.rotated,Heap.setParent,Heap.setChild,entry_update_self,
    entry_update_ne hxy.symm,entry_redirect_ne hp,entry_reparent_ne hv]

/-- The nodes around a rotation are all different. -/
theorem Focus.nodup_rotate (hf : Focus h path (join s cx a x (join s cy b y c))) :
    (x::y::(a.nodes++(b.nodes++(c.nodes++pathNodes path)))).Nodup := by
  refine List.Perm.nodup (List.perm_iff_count.mpr fun z => ?_) hf.distinct
  have h₁ := (nodes_join_perm s cx a x (join s cy b y c)).count_eq z
  have h₂ := (nodes_join_perm s cy b y c).count_eq z
  simp only [List.count_append,List.count_cons] at h₁ h₂ ⊢
  omega

/-- The memory after the writes of a rotation holds the rotated tree. -/
theorem Focus.rotated (hf : Focus h path (join s cx a x (join s cy b y c))) :
    Focus (h.rotated s x y b.ptr (top path)) path (join s cy (join s cx a x b) y c) := by
  have hd := hf.nodup_rotate
  simp only [List.nodup_cons,List.nodup_append,List.mem_cons,List.mem_append,not_or] at hd
  obtain ⟨habove,hbelow,hnodup⟩ := hf
  obtain ⟨hx,ha,hy⟩ := linked_join.mp hbelow
  obtain ⟨hy,hb,hc⟩ := linked_join.mp hy
  have hptr : ∀ z∉b.nodes,b.ptr≠some z := fun z hz heq => hz (mem_of_ptr heq)
  have htop : ∀ z∉pathNodes path,top path≠some z := fun z hz heq => hz (mem_of_top heq)
  have hkeep : ∀ z,z≠x → z≠y → z∉b.nodes → z∉pathNodes path →
      (h.rotated s x y b.ptr (top path)).entry z=h.entry z := fun z hzx hzy hzb hzp =>
    entry_rotated_ne hzx hzy (hptr z hzb) (htop z hzp)
  refine ⟨?_,linked_join.mpr ⟨?_,linked_join.mpr ⟨?_,?_,?_⟩,?_⟩,?_⟩
  · rw [ptr_join] at habove ⊢
    have hbefore : LinkedPath (((h.setChild s.other x b.ptr).reparent b.ptr (some x)).setParent y
        (top path)) path (some x) := habove.congr root_reparent fun z hz => by
      simp only [Heap.setParent,Heap.setChild]
      rw [entry_update_ne (by grind),entry_reparent_ne (hptr z (by grind)),
        entry_update_ne (by grind)]
    refine (hbefore.redirect (by grind) (by grind) (some y)).congr rfl fun z hz => ?_
    simp only [Heap.rotated,Heap.setParent,Heap.setChild]
    rw [entry_update_ne (by grind),entry_update_ne (by grind)]
  · rw [entry_rotated_upper hd.1.1 (hptr y (by grind)) (htop y (by grind)),ptr_join]
    exact ⟨by simp,by simpa using hy.2.1,by simp,by simpa using hy.2.2.2⟩
  · rw [entry_rotated_lower hd.1.1 (hptr x (by grind)) (htop x (by grind))]
    exact ⟨by simpa using hx.1,by simp,by simp,by simpa using hx.2.2.2⟩
  · exact ha.congr fun z hz => hkeep z (by grind) (by grind) (by grind) (by grind)
  · have hb₁ : Linked (h.setChild s.other x b.ptr) (some y) b :=
      hb.congr fun z hz => entry_update_ne (by grind)
    refine (hb₁.reparent (by grind) (some x)).congr fun z hz => ?_
    simp only [Heap.rotated,Heap.setParent,Heap.setChild]
    rw [entry_update_ne (by grind),entry_update_ne (by grind),
      entry_redirect_ne (htop z (by grind)),entry_update_ne (by grind)]
  · exact hc.congr fun z hz => hkeep z (by grind) (by grind) (by grind) (by grind)
  · rwa [← nodes_rotate s cx a x b cy y c]

end Rotated

/-- The writes that put `y` into the place of `x`, which has the children `v` and `w`
and the parent `p`. -/
def Heap.supplanted (h : Heap N) (x y : N) (v w p : Option N) : Heap N :=
  (((h.update y fun _ => h.entry x).redirect p x (some y)).reparent v (some y)).reparent w (some y)

/-- The memory after these writes holds the tree with `y` in the place of `x`. -/
theorem Focus.supplanted {c : Color} {a b : ColorTree N} {y : N}
    (hf : Focus h path (join .left c a x b)) (hy : y∉x::(a.nodes++(b.nodes++pathNodes path))) :
    Focus (h.supplanted x y a.ptr b.ptr (top path)) path (join .left c a y b) := by
  have hd := hf.nodup_join
  have hd' : (y::(a.nodes++(b.nodes++pathNodes path))).Nodup := List.nodup_cons.mpr
    ⟨fun hmem => hy (List.mem_cons_of_mem x hmem),(List.nodup_cons.mp hd).2⟩
  simp only [List.mem_cons,List.mem_append,not_or] at hy
  simp only [List.nodup_cons,List.nodup_append,List.mem_append,not_or] at hd
  obtain ⟨habove,hbelow,-⟩ := hf
  obtain ⟨hx,ha,hb⟩ := linked_join.mp hbelow
  rw [ptr_join] at habove
  -- the memories between the writes, and what each write keeps
  let h₁ := h.update y fun _ => h.entry x
  let h₂ := h₁.redirect (top path) x (some y)
  let h₃ := h₂.reparent a.ptr (some y)
  have k₁ : ∀ z,z≠y → h₁.entry z=h.entry z := fun z hz => entry_update_ne hz
  have k₂ : ∀ z,z∉pathNodes path → h₂.entry z=h₁.entry z := fun z hz =>
    entry_redirect_ne fun heq => hz (mem_of_top heq)
  have k₃ : ∀ z,z∉a.nodes → h₃.entry z=h₂.entry z := fun z hz =>
    entry_reparent_ne fun heq => hz (mem_of_ptr heq)
  have k₄ : ∀ z,z∉b.nodes → (h₃.reparent b.ptr (some y)).entry z=h₃.entry z := fun z hz =>
    entry_reparent_ne fun heq => hz (mem_of_ptr heq)
  refine ⟨?_,linked_join.mpr ⟨?_,?_,?_⟩,?_⟩
  · have hpath : LinkedPath h₁ path (some x) := habove.congr rfl fun z hz => k₁ z (by grind)
    refine (hpath.redirect (by grind) (by grind) (some y)).congr ?_ fun z hz => ?_
    · exact root_reparent.trans root_reparent
    · exact (k₄ z (by grind)).trans (k₃ z (by grind))
  · have hentry : (h₃.reparent b.ptr (some y)).entry y=h.entry x := by
      rw [k₄ y hy.2.2.1,k₃ y hy.2.1,k₂ y hy.2.2.2]
      exact entry_update_self
    exact hentry ▸ hx
  · have ha₂ : Linked h₂ (some x) a := ha.congr fun z hz =>
      (k₂ z (by grind)).trans (k₁ z (by grind))
    exact (ha₂.reparent (by grind) (some y)).congr fun z hz => k₄ z (by grind)
  · have hb₃ : Linked h₃ (some x) b := hb.congr fun z hz =>
      (k₃ z (by grind)).trans ((k₂ z (by grind)).trans (k₁ z (by grind)))
    exact hb₃.reparent (by grind) (some y)
  · refine List.Perm.nodup (List.perm_iff_count.mpr fun z => ?_) hd'
    have hj := (nodes_join_perm .left c a y b).count_eq z
    simp only [List.count_append,List.count_cons] at hj ⊢
    omega

end Updates

end DycoCoroutine.LinkedTree
