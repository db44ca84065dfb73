import DycoCoroutine.SysTree
import DycoCoroutine.KeyedSet

/-!
# Searching the red-black tree

A memory represents a finite ordered set if a red-black tree with the members
in key order is linked in it. RB_FIND and the descent of RB_INSERT end within
the height of the tree, which is logarithmic in the number of members, at the
member with the key or at the place of the key; RB_MIN finds the first member.
-/

namespace DycoCoroutine.SysTree

open RedBlackTree ColorTree LinkedTree KeyedSet

variable {N : Type*} {h : Heap N} {path : List (Frame N)} {t : ColorTree N} {key : N → ℕ}
  {l : List N} {k fuel : ℕ}

/-- The memory holds a red-black tree with the nodes `l`, from left to right. -/
def Spans (h : Heap N) (l : List N) : Prop := ∃ t,Focus h [] t ∧ t.RedBlack ∧ t.nodes=l

/-- The memory holds a red-black search tree with the members `l`, in key order. -/
def Represents (h : Heap N) (key : N → ℕ) (l : List N) : Prop := Ordered key l ∧ Spans h l

/-- A comparison by keys, such as `coroutine_sleep_cmp`. -/
def keyCmp (key : N → ℕ) (a b : N) : Ordering := compare (key a) (key b)

/-- The last comparison of a descent along the path. -/
def turn : List (Frame N) → Ordering
  | [] => .eq
  | f::_ =>
    match f.side with
    | .left => .lt
    | .right => .gt

/-- A descent for key `k` can follow the path. -/
structure Toward (key : N → ℕ) (k : ℕ) (path : List (Frame N)) : Prop where
  /-- What is left behind on the left is smaller. -/
  before : ∀ z∈before path,key z<k
  /-- What is left behind on the right is greater. -/
  after : ∀ z∈after path,k<key z

theorem ordered_around {c : Color} {a b : ColorTree N} {y : N}
    (hord : Ordered key (plug path (.node c a y b)).nodes) :
    (∀ z∈a.nodes,key z<key y) ∧ ∀ z∈b.nodes,key y<key z := by
  rw [nodes_plug] at hord
  have hnode : Ordered key (a.nodes++y::b.nodes) :=
    (List.pairwise_append.mp (List.pairwise_append.mp hord).2.1).1
  obtain ⟨-,hright,hacross⟩ := List.pairwise_append.mp hnode
  exact ⟨fun z hz => hacross z hz y List.mem_cons_self,(List.pairwise_cons.mp hright).1⟩

theorem Toward.left {c : Color} {a b : ColorTree N} {y : N} (hp : Toward key k path)
    (hord : Ordered key (plug path (.node c a y b)).nodes) (hk : k<key y) :
    Toward key k (⟨.left,c,y,b⟩::path) := by
  refine ⟨hp.before,fun z hz => ?_⟩
  rcases List.mem_cons.mp hz with rfl|hz
  · exact hk
  · rcases List.mem_append.mp hz with hz|hz
    · exact hk.trans ((ordered_around hord).2 z hz)
    · exact hp.after z hz

theorem Toward.right {c : Color} {a b : ColorTree N} {y : N} (hp : Toward key k path)
    (hord : Ordered key (plug path (.node c a y b)).nodes) (hk : key y<k) :
    Toward key k (⟨.right,c,y,a⟩::path) := by
  refine ⟨fun z hz => ?_,hp.after⟩
  simp only [RedBlackTree.before,List.mem_append,List.mem_singleton] at hz
  rcases hz with hz|hz|rfl
  · exact hp.before z hz
  · exact ((ordered_around hord).1 z hz).trans hk
  · exact hk

/-- The descent of RB_INSERT ends at a member with the key, or at the place
where a member with this key belongs. -/
theorem insertDescend_toward {x : N} (hf : Focus h path t)
    (hord : Ordered key (plug path t).nodes) (hp : Toward key (key x) path)
    (hfuel : t.height<fuel) :
    (∃ y∈(plug path t).nodes,key y=key x ∧
      insertDescend (keyCmp key x) h fuel t.ptr (top path) (turn path)=.ok (.found y)) ∨
    ∃ path',plug path' .nil=plug path t ∧ Toward key (key x) path' ∧
      insertDescend (keyCmp key x) h fuel t.ptr (top path) (turn path)=
        .ok (.place (top path') (turn path')) := by
  induction fuel generalizing path t with
  | zero => exact absurd hfuel (Nat.not_lt_zero _)
  | succ fuel ih =>
    cases t with
    | nil => exact .inr ⟨path,rfl,hp,rfl⟩
    | node c a y b =>
      have hj : Focus h path (join .left c a y b) := hf
      obtain ⟨hl,hr,-⟩ := hj.entry
      have ha : a.height<fuel := by rw [height] at hfuel; omega
      have hb : b.height<fuel := by rw [height] at hfuel; omega
      rw [ptr,insertDescend,keyCmp]
      rcases lt_trichotomy (key x) (key y) with hk|hk|hk
      · rw [compare_lt_iff_lt.mpr hk]
        have hrest := ih (focus_join.mp hj) hord (hp.left hord hk) ha
        rwa [← hl] at hrest
      · rw [compare_eq_iff_eq.mpr hk]
        refine .inl ⟨y,?_,hk.symm,rfl⟩
        rw [nodes_plug,nodes]
        simp
      · rw [compare_gt_iff_gt.mpr hk]
        have hrest := ih (focus_join_other.mp hj) hord (hp.right hord hk) hb
        rwa [← hr] at hrest

/-- RB_FIND makes the descent of RB_INSERT. -/
theorem findLoop_eq (cmp : N → Ordering) (v parent : Option N) (comp : Ordering) :
    findLoop cmp h fuel v=(insertDescend cmp h fuel v parent comp).map Descent.member := by
  induction fuel generalizing v parent comp with
  | zero => rfl
  | succ fuel ih =>
    cases v with
    | none => rfl
    | some y =>
      rw [findLoop,insertDescend]
      cases cmp y with
      | lt => exact ih _ _ _
      | eq => rfl
      | gt => exact ih _ _ _

/-- The rounds that suffice for a loop that goes up or down the tree once. -/
theorem height_lt {t : ColorTree N} (ht : t.RedBlack) (hnodes : t.nodes=l)
    (hfuel : 2*Nat.log 2 (l.length+1)<fuel) : t.height<fuel := by
  subst hnodes
  exact ht.height_le.trans_lt hfuel

/-- The descent of RB_INSERT in a represented set. -/
theorem insertDescend_represents (hr : Represents h key l) (x : N)
    (hfuel : 2*Nat.log 2 (l.length+1)<fuel) :
    (∃ y,find key (key x) l=some y ∧
      insertDescend (keyCmp key x) h fuel h.root none .eq=.ok (.found y)) ∨
    find key (key x) l=none ∧ ∃ path',Focus h path' .nil ∧ (plug path' .nil).RedBlack ∧
      (plug path' .nil).nodes=l ∧ Toward key (key x) path' ∧
      insertDescend (keyCmp key x) h fuel h.root none .eq=.ok (.place (top path') (turn path')) := by
  obtain ⟨hord,t,hf,ht,rfl⟩ := hr
  have hroot : h.root=t.ptr := hf.above
  have hstart : Toward key (key x) ([] : List (Frame N)) :=
    ⟨fun z hz => absurd hz List.not_mem_nil,fun z hz => absurd hz List.not_mem_nil⟩
  rw [hroot]
  rcases insertDescend_toward hf hord hstart (height_lt ht rfl hfuel) with
    ⟨y,hy,hk,hd⟩|⟨path',hplug,hp,hd⟩
  · refine .inl ⟨y,?_,hd⟩
    rw [← hk]
    exact hord.find_of_mem hy
  · refine .inr ⟨find_eq_none.mpr fun z hz => ?_,path',?_,hplug ▸ ht,congrArg nodes hplug,hp,hd⟩
    · have hz : z∈before path'++after path' := by
        have hn := nodes_plug path' (.nil : ColorTree N)
        rw [hplug] at hn
        rw [nodes_nil,List.nil_append] at hn
        exact hn ▸ hz
      rcases List.mem_append.mp hz with hz|hz
      · exact (hp.before z hz).ne
      · exact (hp.after z hz).ne'
    · rw [focus_nil,hplug]
      exact hf

/-- RB_FIND finds the member with the key, if there is one. -/
theorem rbFind_represents (hr : Represents h key l) (x : N)
    (hfuel : 2*Nat.log 2 (l.length+1)<fuel) :
    rbFind (keyCmp key) fuel h x=.ok (find key (key x) l) := by
  rw [rbFind,findLoop_eq (keyCmp key x) h.root none .eq]
  rcases insertDescend_represents hr x hfuel with ⟨y,hy,hd⟩|⟨hy,path',-,-,-,-,hd⟩
  · rw [hd,hy]
    rfl
  · rw [hd,hy]
    rfl

/-- The loop of RB_MINMAX goes down on the left side to the first node. -/
theorem minmaxLoop_left {p v : Option N} (hl : Linked h p t) (hfuel : t.height<fuel) :
    minmaxLoop .left h fuel t.ptr v=.ok (t.nodes.head?.or v) := by
  induction fuel generalizing t p v with
  | zero => exact absurd hfuel (Nat.not_lt_zero _)
  | succ fuel ih =>
    cases t with
    | nil => rfl
    | node c a y b =>
      have ha : a.height<fuel := by rw [height] at hfuel; omega
      rw [ptr,minmaxLoop,hl.1.1,ih hl.2.1 ha,nodes]
      cases a.nodes <;> rfl

/-- RB_MIN finds the first member. -/
theorem rbMin_spans (hr : Spans h l) (hfuel : 2*Nat.log 2 (l.length+1)<fuel) :
    rbMin fuel h=.ok l.head? := by
  obtain ⟨t,hf,ht,rfl⟩ := hr
  have hroot : h.root=t.ptr := hf.above
  rw [rbMin,hroot,minmaxLoop_left hf.below (height_lt ht rfl hfuel),Option.or_none]

theorem rbEmpty_spans (hr : Spans h l) : rbEmpty h=l.isEmpty := by
  obtain ⟨t,hf,-,rfl⟩ := hr
  have hroot : h.root=t.ptr := hf.above
  rw [rbEmpty,hroot]
  cases t with
  | nil => rfl
  | node c a y b => simp [ptr,nodes]

theorem rbInit_spans (h : Heap N) : Spans (rbInit h) [] :=
  ⟨.nil,⟨rfl,trivial,List.nodup_nil⟩,⟨rfl,0,rfl⟩,rfl⟩

end DycoCoroutine.SysTree
