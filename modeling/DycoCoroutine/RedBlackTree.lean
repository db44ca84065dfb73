import Mathlib.Data.Nat.Log
import Mathlib.Tactic

/-!
# Red-black trees seen from one position

A tree with coloured nodes, and the path from one of its positions up to the
root: one frame for each ancestor, with the subtree that the path does not
enter. The two sides are a parameter, so a fact and its mirror image are one
statement. Balance is stated for a tree and for a path with a hole, and the
two together say that the whole tree is a red-black tree. The node type is
arbitrary.
-/

namespace DycoCoroutine.RedBlackTree

/-- The colour of a node. -/
inductive Color
  | black
  | red
  deriving DecidableEq

/-- There are two colours. -/
@[simp] theorem Color.ne_red {c : Color} : c≠.red ↔ c=.black := by cases c <;> decide

/-- The two sides of a node. -/
inductive Side
  | left
  | right
  deriving DecidableEq

/-- The opposite side. -/
def Side.other : Side → Side
  | .left => .right
  | .right => .left

/-- Mirroring a side twice gives it back. -/
@[simp] theorem Side.other_other (s : Side) : s.other.other=s := by cases s <;> rfl

/-- The mirrored side is another one. -/
@[simp] theorem Side.other_ne (s : Side) : s.other≠s := by cases s <;> decide

@[simp] theorem Side.ne_other (s : Side) : s≠s.other := by cases s <;> decide

/-- A binary tree with coloured nodes. -/
inductive ColorTree (N : Type*)
  | nil
  | node (c : Color) (l : ColorTree N) (x : N) (r : ColorTree N)

variable {N : Type*}

namespace ColorTree

/-- The node at the root. -/
def ptr : ColorTree N → Option N
  | nil => none
  | node _ _ x _ => some x

/-- The colour of the root; an empty tree counts as black. -/
def color : ColorTree N → Color
  | nil => .black
  | node c _ _ _ => c

/-- The nodes from left to right. -/
def nodes : ColorTree N → List N
  | nil => []
  | node _ l x r => l.nodes++x::r.nodes

/-- The number of nodes on the longest way down. -/
def height : ColorTree N → ℕ
  | nil => 0
  | node _ l _ r => max l.height r.height+1

/-- The node `x` with the subtree `a` on side `s` and `b` on the other one. -/
def join (s : Side) (c : Color) (a : ColorTree N) (x : N) (b : ColorTree N) : ColorTree N :=
  match s with
  | .left => node c a x b
  | .right => node c b x a

/-- Give the root another colour. -/
def paint (c : Color) : ColorTree N → ColorTree N
  | nil => nil
  | node _ l x r => node c l x r

@[simp] theorem ptr_nil : (nil : ColorTree N).ptr=none := rfl

@[simp] theorem color_nil : (nil : ColorTree N).color=.black := rfl

@[simp] theorem nodes_nil : (nil : ColorTree N).nodes=[] := rfl

/-- Only the empty tree has no root. -/
@[simp] theorem ptr_eq_none {t : ColorTree N} : t.ptr=none ↔ t=nil := by
  cases t <;> simp [ptr]

/-- A tree with a root is a node, and its subtrees can be named from either side. -/
theorem eq_join_of_ptr {t : ColorTree N} {x : N} (h : t.ptr=some x) (s : Side) :
    ∃ a b,t=join s t.color a x b := by
  cases t with
  | nil => cases h
  | node c l y r =>
    cases h
    cases s
    · exact ⟨l,r,rfl⟩
    · exact ⟨r,l,rfl⟩

/-- The root is one of the nodes. -/
theorem mem_of_ptr {t : ColorTree N} {x : N} (h : t.ptr=some x) : x∈t.nodes := by
  cases t with
  | nil => cases h
  | node c l y r =>
    cases h
    exact List.mem_append_right _ List.mem_cons_self

variable (s : Side) (c : Color) (a : ColorTree N) (x : N) (b : ColorTree N)

/-- The root of a joined tree is the node it is joined at. -/
@[simp] theorem ptr_join : (join s c a x b).ptr=some x := by cases s <;> rfl

/-- A joined tree has the colour of its root. -/
@[simp] theorem color_join : (join s c a x b).color=c := by cases s <;> rfl

/-- Painting a joined tree changes the colour of its root only. -/
@[simp] theorem paint_join (d : Color) : (join s c a x b).paint d=join s d a x b := by
  cases s <;> rfl

/-- Painting keeps the root. -/
@[simp] theorem ptr_paint : (paint c a).ptr=a.ptr := by cases a <;> rfl

/-- Painting keeps the nodes and their order. -/
@[simp] theorem nodes_paint : (paint c a).nodes=a.nodes := by cases a <;> rfl

/-- A tree painted black is black, the empty one included. -/
@[simp] theorem color_paint_black : (paint .black a).color=.black := by cases a <;> rfl

/-- Painting a tree in its own colour does nothing. -/
theorem paint_eq_self {t : ColorTree N} {c : Color} (h : t.color=c) : t.paint c=t := by
  subst h
  cases t <;> rfl

/-- Joining on the other side exchanges the subtrees. -/
theorem join_other : join s.other c a x b=join s c b x a := by cases s <;> rfl

/-- The height of a joined tree, whichever side comes first. -/
@[simp] theorem height_join : (join s c a x b).height=max a.height b.height+1 := by
  cases s
  · rfl
  · exact congrArg (·+1) (max_comm _ _)

/-- The nodes of a joined tree, whichever side comes first. -/
theorem nodes_join_perm : (join s c a x b).nodes.Perm (x::(a.nodes++b.nodes)) := by
  cases s
  · exact List.perm_middle
  · exact List.perm_middle.trans (List.perm_append_comm.cons x)

/-- A rotation leaves the nodes in their order. -/
theorem nodes_rotate (d : Color) (y : N) (e : ColorTree N) (c' d' : Color) :
    (join s c a x (join s d b y e)).nodes=(join s d' (join s c' a x b) y e).nodes := by
  cases s <;> simp [join,nodes]

/-- All ways down meet `n` black nodes, and no red node has a red child. -/
def Balanced : ColorTree N → ℕ → Prop
  | nil,n => n=0
  | node .red l _ r,n => l.color=.black ∧ r.color=.black ∧ l.Balanced n ∧ r.Balanced n
  | node .black l _ r,n => ∃ m,n=m+1 ∧ l.Balanced m ∧ r.Balanced m

/-- The empty tree has black height 0. -/
@[simp] theorem balanced_nil {n : ℕ} : (nil : ColorTree N).Balanced n ↔ n=0 := Iff.rfl

variable {s a x b}

/-- Below a red root both subtrees are black and have the black height of the whole. -/
@[simp] theorem balanced_join_red {n : ℕ} : (join s .red a x b).Balanced n ↔
    a.color=.black ∧ b.color=.black ∧ a.Balanced n ∧ b.Balanced n := by
  cases s
  · exact Iff.rfl
  · simp only [join,Balanced]
    tauto

/-- Below a black root both subtrees have one black node fewer on every path. -/
@[simp] theorem balanced_join_black {n : ℕ} : (join s .black a x b).Balanced n ↔
    ∃ m,n=m+1 ∧ a.Balanced m ∧ b.Balanced m := by
  cases s
  · exact Iff.rfl
  · simp only [join,Balanced]
    exact exists_congr fun m => by tauto

/-- Balance does not depend on the order of the subtrees. -/
theorem balanced_join_swap {c : Color} {n : ℕ} :
    (join s c a x b).Balanced n ↔ (join s c b x a).Balanced n := by
  cases c with
  | red =>
    rw [balanced_join_red,balanced_join_red]
    tauto
  | black =>
    rw [balanced_join_black,balanced_join_black]
    exact exists_congr fun m => by tauto

/-- A balanced tree that has black nodes on its ways down is not empty. -/
theorem Balanced.exists_ptr {t : ColorTree N} {n : ℕ} (h : t.Balanced (n+1)) : ∃ x,t.ptr=some x := by
  cases t with
  | nil => cases h
  | node c l x r => exact ⟨x,rfl⟩

/-- Blackening a red root adds one black node to every path. -/
theorem Balanced.paint_black {t : ColorTree N} {n : ℕ} (h : t.Balanced n) (hc : t.color=.red) :
    (t.paint .black).Balanced (n+1) := by
  cases t with
  | nil => cases hc
  | node c l x r =>
    cases hc
    exact ⟨n,rfl,h.2.2⟩

/-- The number of black nodes on a way down is at most logarithmic in the size. -/
theorem Balanced.pow_le {t : ColorTree N} {n : ℕ} (h : t.Balanced n) : 2^n≤t.nodes.length+1 := by
  induction t generalizing n with
  | nil =>
    cases h
    exact le_rfl
  | node c l x r ihl ihr =>
    have hlen : (node c l x r).nodes.length=l.nodes.length+r.nodes.length+1 := by
      simp [nodes]
      omega
    cases c with
    | red =>
      have hl := ihl h.2.2.1
      omega
    | black =>
      obtain ⟨m,rfl,hl,hr⟩ := h
      have hl := ihl hl
      have hr := ihr hr
      rw [pow_succ]
      omega

/-- Red nodes at most double the length of a way down. -/
theorem Balanced.height_le {t : ColorTree N} {n : ℕ} (h : t.Balanced n) :
    t.height≤2*n+1 ∧ (t.color=.black → t.height≤2*n) := by
  induction t generalizing n with
  | nil => exact ⟨Nat.zero_le _,fun _ => Nat.zero_le _⟩
  | node c l x r ihl ihr =>
    cases c with
    | red =>
      obtain ⟨hlc,hrc,hl,hr⟩ := h
      have hl := (ihl hl).2 hlc
      have hr := (ihr hr).2 hrc
      refine ⟨?_,fun hred => Color.noConfusion hred⟩
      rw [height]
      omega
    | black =>
      obtain ⟨m,rfl,hl,hr⟩ := h
      have hl := (ihl hl).1
      have hr := (ihr hr).1
      rw [height]
      exact ⟨by omega,fun _ => by omega⟩

/-- A red-black tree: balanced, with a black root. -/
def RedBlack (t : ColorTree N) : Prop := t.color=.black ∧ ∃ n,t.Balanced n

/-- A red-black tree of $n$ nodes has height at most $2\log_2(n+1)$. -/
theorem RedBlack.height_le {t : ColorTree N} (h : t.RedBlack) :
    t.height≤2*Nat.log 2 (t.nodes.length+1) := by
  obtain ⟨hc,n,hn⟩ := h
  have hlog : n≤Nat.log 2 (t.nodes.length+1) := Nat.le_log_of_pow_le one_lt_two hn.pow_le
  have hh := hn.height_le.2 hc
  omega

end ColorTree

open ColorTree

/-- One ancestor of a position: the side on which the position lies, and the
subtree on the other side. -/
structure Frame (N : Type*) where
  /-- The side of the ancestor on which the position lies. -/
  side : Side
  /-- The colour of the ancestor. -/
  color : Color
  /-- The ancestor. -/
  node : N
  /-- The subtree on its other side. -/
  sibling : ColorTree N

/-- The subtree of the ancestor when `t` stands at the position. -/
def Frame.fill (f : Frame N) (t : ColorTree N) : ColorTree N := join f.side f.color t f.node f.sibling

/-- The whole tree when `t` stands below the ancestors of `path`, nearest first. -/
def plug : List (Frame N) → ColorTree N → ColorTree N
  | [],t => t
  | f::path,t => plug path (f.fill t)

/-- Climbing a path in two parts. -/
theorem plug_append (path path' : List (Frame N)) (t : ColorTree N) :
    plug (path++path') t=plug path' (plug path t) := by
  induction path generalizing t with
  | nil => rfl
  | cons f path ih => exact ih (f.fill t)

/-- Every node stands at the end of a path. -/
theorem exists_plug {t : ColorTree N} {x : N} (hx : x∈t.nodes) :
    ∃ path c a b,t=plug path (join .left c a x b) := by
  induction t with
  | nil => cases hx
  | node c l y r ihl ihr =>
    rcases List.mem_append.mp hx with hl|hr
    · obtain ⟨path,d,a,b,rfl⟩ := ihl hl
      refine ⟨path++[⟨.left,c,y,r⟩],d,a,b,?_⟩
      rw [plug_append]
      rfl
    · rcases List.mem_cons.mp hr with rfl|hr
      · exact ⟨[],c,l,r,rfl⟩
      · obtain ⟨path,d,a,b,rfl⟩ := ihr hr
        refine ⟨path++[⟨.right,c,y,l⟩],d,a,b,?_⟩
        rw [plug_append]
        rfl

/-- The nearest ancestor. -/
def top : List (Frame N) → Option N
  | [] => none
  | f::_ => some f.node

/-- The colour of the nearest ancestor. That there is none counts as red: then
the position is the root, which must be black. -/
def topColor : List (Frame N) → Color
  | [] => .red
  | f::_ => f.color

@[simp] theorem top_nil : top ([] : List (Frame N))=none := rfl

/-- The parent is the node of the innermost frame. -/
@[simp] theorem top_cons (f : Frame N) (path : List (Frame N)) : top (f::path)=some f.node := rfl

/-- Above the root the colour counts as red, so that the root itself has to be black. -/
@[simp] theorem topColor_nil : topColor ([] : List (Frame N))=.red := rfl

/-- The colour above a hole is that of the innermost frame. -/
@[simp] theorem topColor_cons (f : Frame N) (path : List (Frame N)) :
    topColor (f::path)=f.color := rfl

/-- The nodes of the ancestors and their other subtrees. -/
def pathNodes : List (Frame N) → List N
  | [] => []
  | f::path => f.node::(f.sibling.nodes++pathNodes path)

/-- The parent is one of the nodes of the path. -/
theorem mem_of_top {path : List (Frame N)} {x : N} (h : top path=some x) : x∈pathNodes path := by
  cases path with
  | nil => cases h
  | cons f path =>
    cases h
    exact List.mem_cons_self

/-- The nodes of a path in two parts. -/
theorem pathNodes_append (q path : List (Frame N)) :
    pathNodes (q++path)=pathNodes q++pathNodes path := by
  induction q with
  | nil => rfl
  | cons f q ih => simp [pathNodes,ih]

/-- The nodes to the left of a position. -/
def before : List (Frame N) → List N
  | [] => []
  | f::path =>
    match f.side with
    | .left => before path
    | .right => before path++(f.sibling.nodes++[f.node])

/-- The nodes to the right of a position. -/
def after : List (Frame N) → List N
  | [] => []
  | f::path =>
    match f.side with
    | .left => f.node::(f.sibling.nodes++after path)
    | .right => after path

/-- In order, a plugged tree stands between what its path has on the left and on the right. -/
theorem nodes_plug (path : List (Frame N)) (t : ColorTree N) :
    (plug path t).nodes=before path++(t.nodes++after path) := by
  induction path generalizing t with
  | nil => simp [plug,before,after]
  | cons f path ih =>
    obtain ⟨s,c,x,b⟩ := f
    rw [plug,ih]
    cases s <;> simp [Frame.fill,before,after,join,ColorTree.nodes]

/-- A path that only descends to the left has nothing before its hole. -/
theorem before_of_left {path : List (Frame N)} (h : ∀ f∈path,f.side=.left) : before path=[] := by
  induction path with
  | nil => rfl
  | cons f path ih =>
    rw [before,h f List.mem_cons_self]
    exact ih fun g hg => h g (List.mem_cons_of_mem f hg)

/-- Only the nodes in order of the plugged tree matter for those of the whole. -/
theorem nodes_plug_congr {t t' : ColorTree N} (h : t.nodes=t'.nodes) (path : List (Frame N)) :
    (plug path t).nodes=(plug path t').nodes := by
  rw [nodes_plug,nodes_plug,h]

/-- The nodes of the whole are those of the path and of the plugged tree. -/
theorem nodes_plug_perm (path : List (Frame N)) (t : ColorTree N) :
    (plug path t).nodes.Perm (pathNodes path++t.nodes) := by
  induction path generalizing t with
  | nil => exact List.Perm.refl _
  | cons f path ih =>
    classical
    refine (ih _).trans (List.perm_iff_count.mpr fun z => ?_)
    have hfill := (ColorTree.nodes_join_perm f.side f.color t f.node f.sibling).count_eq z
    simp only [List.count_append,List.count_cons,Frame.fill,pathNodes] at hfill ⊢
    omega

/-- A path is no longer than the tree it belongs to is high. -/
theorem height_plug (path : List (Frame N)) (t : ColorTree N) :
    path.length+t.height≤(plug path t).height := by
  induction path generalizing t with
  | nil => simp [plug]
  | cons f path ih =>
    have hfill : t.height+1≤(f.fill t).height := by simp [Frame.fill]
    have hrest := ih (f.fill t)
    rw [plug,List.length_cons]
    omega

/-- A balanced subtree with `n` black nodes on its ways down is missing. -/
def Hole : List (Frame N) → ℕ → Prop
  | [],_ => True
  | f::path,n => f.sibling.Balanced n ∧
    match f.color with
    | .red => f.sibling.color=.black ∧ topColor path=.black ∧ Hole path n
    | .black => Hole path (n+1)

/-- What a hole below a red frame asks of the sibling and of the rest of the path. -/
@[simp] theorem hole_red {s : Side} {x : N} {b : ColorTree N} {path : List (Frame N)} {n : ℕ} :
    Hole (⟨s,.red,x,b⟩::path) n ↔
      b.Balanced n ∧ b.color=.black ∧ topColor path=.black ∧ Hole path n := Iff.rfl

/-- What a hole below a black frame asks of the sibling and of the rest of the path. -/
@[simp] theorem hole_black {s : Side} {x : N} {b : ColorTree N} {path : List (Frame N)} {n : ℕ} :
    Hole (⟨s,.black,x,b⟩::path) n ↔ b.Balanced n ∧ Hole path (n+1) := Iff.rfl

/-- The colour above a hole depends on the outer path through its own top colour only. -/
theorem topColor_append_congr {path path' : List (Frame N)} (hc : topColor path=topColor path')
    (q : List (Frame N)) : topColor (q++path)=topColor (q++path') := by
  cases q with
  | nil => exact hc
  | cons f q => rfl

/-- A hole stays a hole when its lower part is put into another one. -/
theorem hole_append_congr {path path' : List (Frame N)} (hh : ∀ n,Hole path n ↔ Hole path' n)
    (hc : topColor path=topColor path') (q : List (Frame N)) (n : ℕ) :
    Hole (q++path) n ↔ Hole (q++path') n := by
  induction q generalizing n with
  | nil => exact hh n
  | cons f q ih =>
    obtain ⟨s,c,x,b⟩ := f
    cases c with
    | red =>
      rw [List.cons_append,List.cons_append,hole_red,hole_red,ih,topColor_append_congr hc q]
    | black => rw [List.cons_append,List.cons_append,hole_black,hole_black,ih]

/-- What the whole tree needs of a path and of the subtree below it. -/
theorem redBlack_plug {path : List (Frame N)} {t : ColorTree N} : (plug path t).RedBlack ↔
    ∃ n,Hole path n ∧ t.Balanced n ∧ (topColor path=.red → t.color=.black) := by
  induction path generalizing t with
  | nil => simp [plug,RedBlack,Hole,and_comm]
  | cons f path ih =>
    obtain ⟨s,c,x,b⟩ := f
    rw [plug,ih]
    cases c with
    | red =>
      simp only [Frame.fill,Hole,topColor_cons,balanced_join_red,color_join]
      refine exists_congr fun n => ?_
      cases topColor path
      · simp
        tauto
      · simp
    | black =>
      simp only [Frame.fill,Hole,topColor_cons,balanced_join_black,color_join]
      constructor
      · rintro ⟨_,hp,⟨n,rfl,ht,hb⟩,-⟩
        exact ⟨n,⟨hb,hp⟩,ht,fun hred => Color.noConfusion hred⟩
      · rintro ⟨n,⟨hb,hp⟩,ht,-⟩
        exact ⟨n+1,hp,⟨n,rfl,ht,hb⟩,fun _ => trivial⟩

end DycoCoroutine.RedBlackTree
