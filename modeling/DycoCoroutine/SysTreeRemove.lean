import DycoCoroutine.SysTreeSearch

/-!
# Removal from the red-black tree

RB_REMOVE takes a node with at most one child out of its place; for a node with
two children it takes its successor out and lets it take the place of the node.
If a black node is missing then, RB_REMOVE_COLOR moves the gap up the tree until
it can be filled. The number of rounds is logarithmic in the number of members,
and no null pointer is followed.
-/

namespace DycoCoroutine.SysTree

open RedBlackTree ColorTree LinkedTree KeyedSet

variable {N : Type*} {h : Heap N} {path : List (Frame N)} {s : Side} {t w a b : ColorTree N}
  {c : Color} {p y : N} {l : List N} {n : ℕ}

/-- The head of the loop of RB_REMOVE_COLOR: the tree at the position lacks one
black node, or has a red root that can become black. -/
structure Lacking (h : Heap N) (path : List (Frame N)) (t : ColorTree N) (l : List N) : Prop where
  /-- The tree stands in the memory. -/
  focus : Focus h path t
  /-- One black node is missing. -/
  balanced : ∃ n,Hole path (n+1) ∧
    (t.color=.black ∧ t.Balanced n ∨ t.color=.red ∧ (t.paint .black).Balanced (n+1))
  /-- The elements. -/
  nodes : (plug path t).nodes=l

/-- The children of a node, by side, as the test for two black ones sees them. -/
theorem both_black_iff {d : Color} (hf : Focus h path (join s d a y b)) :
    (h.colorOf (h.entry y).left=.black ∧ h.colorOf (h.entry y).right=.black) ↔
      a.color=.black ∧ b.color=.black := by
  obtain ⟨h₁,h₂,-,-⟩ := hf.entry
  have ha : h.colorOf a.ptr=a.color := (focus_join.mp hf).below.colorOf
  have hb : h.colorOf b.ptr=b.color := (focus_join_other.mp hf).below.colorOf
  rw [← ha,← hb,← h₁,← h₂]
  cases s
  · exact Iff.rfl
  · exact and_comm

/-- The successor is the first node of the right subtree. -/
theorem leftmost_focus {fuel : ℕ} {e : N} (hf : Focus h path t) (he : t.ptr=some e)
    (hfuel : t.height≤fuel) : ∃ q c y b,leftmost fuel h e=.ok y ∧ t=plug q (join .left c .nil y b) ∧
      ∀ f∈q,f.side=.left := by
  induction fuel generalizing path t e with
  | zero =>
    cases t with
    | nil => cases he
    | node c a x b => exact absurd hfuel (Nat.not_succ_le_zero _)
  | succ fuel ih =>
    cases t with
    | nil => cases he
    | node c a x b =>
      obtain rfl : x=e := Option.some.inj he
      have hj : Focus h path (join .left c a x b) := hf
      have hleft : (h.entry x).left=a.ptr := hj.entry.1
      rw [leftmost,hleft]
      cases ha : a.ptr with
      | none =>
        obtain rfl := ptr_eq_none.mp ha
        exact ⟨[],c,x,b,rfl,rfl,fun f hf => absurd hf List.not_mem_nil⟩
      | some z =>
        obtain ⟨q,d,y,b',hy,rfl,hq⟩ := ih (focus_join.mp hj) ha (by rw [height] at hfuel; omega)
        refine ⟨q++[⟨.left,c,x,b⟩],d,y,b',hy,?_,fun f hf => ?_⟩
        · rw [plug_append]
          rfl
        · rcases List.mem_append.mp hf with hf|hf
          · exact hq f hf
          · rw [List.mem_singleton.mp hf]

variable [DecidableEq N]

/-- The first part of a round leaves a black sibling with two subtrees that have as
many black nodes as the position. -/
theorem blackenSibling_focus (hf : Focus h (⟨s,c,p,w⟩::path) t)
    (hhole : Hole (⟨s,c,p,w⟩::path) (n+1)) :
    ∃ h' c' path' a y b,blackenSibling s h p=.ok (h',y) ∧
      Focus h' (⟨s,c',p,join s .black a y b⟩::path') t ∧
      Hole (⟨s,c',p,join s .black a y b⟩::path') (n+1) ∧
      (plug (⟨s,c',p,join s .black a y b⟩::path') t).nodes=(plug (⟨s,c,p,w⟩::path) t).nodes ∧
      (path'=path ∨ c'=.red ∧ path'.length=path.length+1) := by
  obtain ⟨y,hy⟩ := hhole.1.exists_ptr
  obtain ⟨a,b,hw⟩ := eq_join_of_ptr hy s
  have hp := (focus_join.mpr hf).entry
  have hcolor : (h.entry y).color=w.color := by
    have hl := (focus_join_other.mp (focus_join.mpr hf)).below.colorOf
    rwa [hy] at hl
  cases hc : w.color with
  | black =>
    rw [hc] at hw hcolor
    subst hw
    refine ⟨h,c,path,a,y,b,?_,hf,hhole,rfl,.inl rfl⟩
    rw [blackenSibling,hp.2.1,ptr_join]
    simp [deref,bind,Except.bind,pure,Except.pure,hcolor]
  | red =>
    rw [hc] at hw hcolor
    subst hw
    cases c with
    | red =>
      have hblack := hhole.2.1
      rw [color_join] at hblack
      cases hblack
    | black =>
      obtain ⟨hac,-,ha,hb⟩ := balanced_join_red.mp hhole.1
      obtain ⟨z,hz⟩ := ha.exists_ptr
      obtain ⟨a₁,a₂,heq⟩ := eq_join_of_ptr hz s
      rw [hac] at heq
      subst heq
      -- the sibling becomes the parent of the parent, and its inner subtree the sibling
      have h₁ := focus_join_other.mpr
        ((focus_join_other.mp (focus_join.mpr hf)).setColor .black)
      obtain ⟨h₂,hrot,h₂f⟩ := rbRotate_focus (h₁.setColor .red)
      have hp₂ := (focus_join.mp h₂f).entry
      refine ⟨h₂,.red,⟨s,.black,y,b⟩::path,a₁,z,a₂,?_,focus_join.mp (focus_join.mp h₂f),
        ⟨ha,color_join ..,rfl,hb,hhole.2⟩,?_,.inr ⟨rfl,rfl⟩⟩
      · rw [blackenSibling,hp.2.1,ptr_join]
        simp [deref,bind,Except.bind,pure,Except.pure,hcolor,rbSetBlackred,hrot,hp₂.2.1]
      · refine nodes_plug_congr ?_ path
        cases s <;> simp [Frame.fill,join,ColorTree.nodes]

/-- The last recolouring and rotation of a round. -/
theorem rbRotate_restore {d : Color} (hf : Focus h (⟨s,c,p,join s d a y b⟩::path) t) :
    ∃ h',rbRotate s ((((h.setColor y (h.entry p).color).setColor p .black).recolor
        ((((h.setColor y (h.entry p).color).setColor p .black).entry y).child s.other) .black)) p=
          .ok h' ∧ Focus h' path (join s c (join s .black t p a) y (b.paint .black)) := by
  have hp := (focus_join.mpr hf).entry
  have h₁ := focus_join_other.mpr ((focus_join_other.mp (focus_join.mpr hf)).setColor c)
  have h₂ := h₁.setColor .black
  have hy := focus_join_other.mp h₂
  have h₃ := focus_join_other.mpr (focus_join_other.mpr ((focus_join_other.mp hy).recolor .black))
  rw [hp.2.2.2,hy.entry.2.1]
  exact rbRotate_focus h₃

/-- The last part of a round gives the position its black node back. -/
theorem restoreBlack_focus (hf : Focus h (⟨s,c,p,join s .black a y b⟩::path) t)
    (hred : ¬(a.color=.black ∧ b.color=.black)) (ha : a.Balanced n) (hb : b.Balanced n) :
    ∃ h' u v z,restoreBlack s h p y=.ok h' ∧
      Focus h' path (join s c (join s .black t p u) z v) ∧ u.Balanced n ∧ v.Balanced (n+1) ∧
      v.color=.black ∧ (join s c (join s .black t p u) z v).nodes=
        (join s c t p (join s .black a y b)).nodes := by
  have hy := focus_join_other.mp (focus_join.mpr hf)
  have hbcolor : h.colorOf b.ptr=b.color := (focus_join_other.mp hy).below.colorOf
  rw [restoreBlack,hy.entry.2.1,hbcolor]
  cases hc : b.color with
  | red =>
    obtain ⟨h',hrot,hf'⟩ := rbRotate_restore hf
    refine ⟨h',a,b.paint .black,y,?_,hf',ha,hb.paint_black hc,color_paint_black ..,?_⟩
    · simpa [bind,Except.bind,pure,Except.pure] using hrot
    · cases s <;> simp [join,ColorTree.nodes]
  | black =>
    have hac : a.color=.red := by
      cases hac : a.color with
      | red => rfl
      | black => exact absurd ⟨hac,hc⟩ hred
    obtain ⟨z,hz⟩ : ∃ z,a.ptr=some z := by
      cases a with
      | nil => cases hac
      | node c a₁ z a₂ => exact ⟨z,rfl⟩
    obtain ⟨a₁,a₂,heq⟩ := eq_join_of_ptr hz s
    rw [hac] at heq
    subst heq
    obtain ⟨ha₁c,ha₂c,ha₁,ha₂⟩ := balanced_join_red.mp ha
    -- the red inner child becomes the sibling, and the old sibling its red outer child
    have h₁ := focus_join.mpr ((focus_join.mp hy).recolor .black)
    rw [ptr_join,paint_join] at h₁
    have h₂ := h₁.setColor .red
    rw [← join_other,← join_other s] at h₂
    obtain ⟨h₃,hrot₁,h₃f⟩ := rbRotate_focus h₂
    rw [join_other,join_other,← focus_join_other] at h₃f
    obtain ⟨h',hrot,hf'⟩ := rbRotate_restore (focus_join.mp h₃f)
    refine ⟨h',a₁,_,z,?_,hf',ha₁,?_,color_paint_black ..,?_⟩
    · simp only [if_true,hy.entry.1,bind,Except.bind,pure,Except.pure,hrot₁,h₃f.entry.2.1,ptr_join,
        deref]
      exact hrot
    · rw [paint_join]
      exact balanced_join_black.mpr ⟨n,rfl,ha₂,hb⟩
    · cases s <;> simp [join,ColorTree.nodes]

/-- A round of the loop goes one level up, or the tree is a red-black tree again. -/
theorem removeColorRound_lacking (hl : Lacking h (⟨s,c,p,w⟩::path) t l) (ht : t.color=.black) :
    (∃ h' path' t',removeColorRound s h p=.ok (.up h') ∧ Lacking h' path' t' l ∧ t'.ptr=some p ∧
      (path'=path ∨ t'.color=.red)) ∨
    ∃ h' t',removeColorRound s h p=.ok (.done h') ∧ Focus h' [] t' ∧ t'.RedBlack ∧ t'.nodes=l := by
  obtain ⟨hf,⟨n,hhole,hbal⟩,rfl⟩ := hl
  have htn : t.Balanced n := by
    rcases hbal with ⟨-,hn⟩|⟨hc,-⟩
    · exact hn
    · rw [ht] at hc
      cases hc
  obtain ⟨h₁,c',path',a,y,b,hsib,hf₁,hhole₁,hnodes,hlen⟩ := blackenSibling_focus hf hhole
  obtain ⟨m,hm,ha,hb⟩ := balanced_join_black.mp hhole₁.1
  obtain rfl : n=m := Nat.succ.inj hm
  have hyf := focus_join_other.mp (focus_join.mpr hf₁)
  by_cases hblack : a.color=.black ∧ b.color=.black
  · refine .inl ⟨_,path',join s c' t p (join s .red a y b),?_,⟨focus_join_other.mpr
      (hyf.setColor .red),?_,?_⟩,ptr_join ..,?_⟩
    · rw [removeColorRound,hsib]
      simp only [bind,Except.bind,(both_black_iff hyf).mpr hblack,and_self,if_true]
      rfl
    · cases c' with
      | red =>
        refine ⟨n,hhole₁.2.2.2,.inr ⟨color_join ..,?_⟩⟩
        rw [paint_join]
        exact balanced_join_black.mpr ⟨n,rfl,htn,balanced_join_red.mpr ⟨hblack.1,hblack.2,ha,hb⟩⟩
      | black =>
        exact ⟨n+1,hhole₁.2,.inl ⟨color_join ..,balanced_join_black.mpr
          ⟨n,rfl,htn,balanced_join_red.mpr ⟨hblack.1,hblack.2,ha,hb⟩⟩⟩⟩
    · rw [← hnodes]
      refine nodes_plug_congr ?_ path'
      cases s <;> simp [Frame.fill,join,ColorTree.nodes]
    · rcases hlen with rfl|⟨rfl,-⟩
      · exact .inl rfl
      · exact .inr (color_join ..)
  · obtain ⟨h',u,v,z,hrestore,hf',hu,hv,hvc,hnodes'⟩ := restoreBlack_focus hf₁ hblack ha hb
    have hx : (join s .black t p u).Balanced (n+1) := balanced_join_black.mpr ⟨n,rfl,htn,hu⟩
    refine .inr ⟨h',_,?_,focus_nil.mp hf',redBlack_plug.mpr ?_,?_⟩
    · rw [removeColorRound,hsib]
      simp only [bind,Except.bind,if_neg (mt (both_black_iff hyf).mp hblack),hrestore]
      rfl
    · cases c' with
      | red =>
        refine ⟨n+1,hhole₁.2.2.2,balanced_join_red.mpr ⟨color_join ..,hvc,hx,hv⟩,fun hred => ?_⟩
        rw [hhole₁.2.2.1] at hred
        cases hred
      | black => exact ⟨n+2,hhole₁.2,balanced_join_black.mpr ⟨n+1,rfl,hx,hv⟩,fun _ => color_join ..⟩
    · rw [← hnodes]
      exact nodes_plug_congr hnodes' path'

/-- The loop of RB_REMOVE_COLOR ends at a node that only has to become black. -/
theorem removeColorLoop_lacking {fuel : ℕ} (hl : Lacking h path t l) (hpos : 0<fuel)
    (hfuel : t.color=.black → path.length+1<fuel) :
    ∃ h' path' t',removeColorLoop fuel h (top path) t.ptr=.ok (h',t'.ptr) ∧ Focus h' path' t' ∧
      (plug path' (t'.paint .black)).RedBlack ∧ (plug path' t').nodes=l := by
  induction fuel generalizing h path t with
  | zero => exact absurd hpos (lt_irrefl _)
  | succ fuel ih =>
    obtain ⟨n,hhole,hbal⟩ := hl.balanced
    rw [removeColorLoop,hl.focus.below.colorOf]
    cases hc : t.color with
    | red =>
      rw [hc] at hbal
      have hpaint : (t.paint .black).Balanced (n+1) := by
        rcases hbal with ⟨hcc,-⟩|⟨-,hb⟩
        · cases hcc
        · exact hb
      exact ⟨h,path,t,if_neg fun hcc => Color.noConfusion hcc.1,hl.focus,
        redBlack_plug.mpr ⟨n+1,hhole,hpaint,fun _ => color_paint_black ..⟩,hl.nodes⟩
    | black =>
      cases path with
      | nil =>
        have hroot : h.root=t.ptr := hl.focus.above
        refine ⟨h,[],t,if_neg fun hne => hne.2 hroot.symm,hl.focus,?_,hl.nodes⟩
        rw [paint_eq_self hc]
        rcases hbal with ⟨-,hn⟩|⟨hred,-⟩
        · exact ⟨hc,n,hn⟩
        · rw [hc] at hred
          cases hred
      | cons f path =>
        obtain ⟨s,c,p,w⟩ := f
        obtain ⟨y,hy⟩ := hhole.1.exists_ptr
        have hside : w.ptr≠t.ptr := by
          cases ht : t.ptr with
          | none => exact hy.trans_ne (Option.some_ne_none y)
          | some x => exact hl.focus.sibling_ne ht
        rw [if_pos ⟨rfl,hl.focus.ptr_ne_root⟩,top_cons]
        simp only [deref,bind,Except.bind]
        rw [hl.focus.above.side hside]
        have hlen := hfuel hc
        simp only [List.length_cons] at hlen
        rcases removeColorRound_lacking hl hc with
          ⟨h',path',t',hround,hl',hptr,hnext⟩|⟨h',t',hround,hf',ht',hnodes⟩
        · obtain ⟨a,b,heq⟩ := eq_join_of_ptr hptr .left
          have hparent : (h'.entry p).parent=top path' := by
            have hf' := hl'.focus
            rw [heq] at hf'
            exact hf'.entry.2.2.1
          have hrest := ih hl' (by omega) fun hblack => by
            rcases hnext with rfl|hred
            · omega
            · rw [hblack] at hred
              cases hred
          rw [hptr,← hparent] at hrest
          rw [hround]
          exact hrest
        · refine ⟨h',[],t',?_,hf',?_,hnodes⟩
          · rw [hround]
            have hroot : h'.root=t'.ptr := hf'.above
            simp only [hroot]
          · rw [paint_eq_self ht'.1]
            exact ht'

/-- RB_REMOVE_COLOR restores the red-black tree. -/
theorem rbRemoveColor_lacking {fuel : ℕ} (hl : Lacking h path t l) (hfuel : path.length+1<fuel) :
    ∃ h' t',rbRemoveColor fuel h (top path) t.ptr=.ok h' ∧ Focus h' [] t' ∧ t'.RedBlack ∧
      t'.nodes=l := by
  obtain ⟨h₁,path',t',hloop,hf,ht,hnodes⟩ :=
    removeColorLoop_lacking hl (by omega) fun _ => hfuel
  refine ⟨_,_,?_,focus_nil.mp (hf.recolor .black),ht,?_⟩
  · rw [rbRemoveColor,hloop]
    rfl
  · rw [← hnodes]
    exact nodes_plug_congr (nodes_paint ..) path'

/-- A node with at most one child is taken out of its place. -/
theorem splice_focus {x : N} (hf : Focus h path (join s c .nil x b)) :
    Focus (splice h x b.ptr) path b := by
  have hd : (x::(b.nodes++pathNodes path)).Nodup := hf.nodup_join
  simp only [List.nodup_cons,List.nodup_append,List.mem_append,not_or] at hd
  obtain ⟨habove,hbelow,-⟩ := hf
  obtain ⟨hx,-,hb⟩ := linked_join.mp hbelow
  rw [ptr_join] at habove
  rw [splice,hx.2.2.1]
  refine ⟨?_,?_,?_⟩
  · refine LinkedPath.redirect (habove.congr root_reparent fun z hz => ?_) hd.2.2.1 hd.1.2 _
    exact entry_reparent_ne fun heq => hd.2.2.2 z (mem_of_ptr heq) z hz rfl
  · refine (hb.reparent hd.2.1 (top path)).congr fun z hz => ?_
    exact entry_redirect_ne fun heq => hd.2.2.2 z hz z (mem_of_top heq) rfl
  · exact List.nodup_append_comm.mp (List.nodup_append.mpr hd.2)

/-- A node outside the tree takes the place of one inside. -/
theorem supplant_focus {x z : N} (hf : Focus h path (join .left c a x b)) (ha : a.ptr=some z)
    (hy : y∉x::(a.nodes++(b.nodes++pathNodes path))) :
    ∃ h',supplant h x y=.ok h' ∧ Focus h' path (join .left c a y b) := by
  refine ⟨_,?_,hf.supplanted hy⟩
  have hd := (List.nodup_cons.mp hf.nodup_join).1
  simp only [List.mem_cons,List.mem_append,not_or] at hd hy
  have hxy : x≠y := Ne.symm hy.1
  have hpx : top path≠some x := fun heq => hd.2.2 (mem_of_top heq)
  have hzx : some z≠some x := fun heq => hd.1 (mem_of_ptr (ha.trans heq))
  have hl : (h.entry x).left=some z := hf.entry.1.trans ha
  have hr : (h.entry x).right=b.ptr := hf.entry.2.1
  have hset : ∀ h : Heap N,h.setParent z (some y)=h.reparent (some z) (some y) := fun _ => rfl
  rw [supplant,Heap.supplanted,ha]
  simp only [bind,Except.bind,pure,Except.pure,deref,hset,entry_update_ne hxy,hf.entry.2.2.1,
    entry_redirect_ne hpx,entry_reparent_ne hzx,hl,hr]

/-- The end of RB_REMOVE: a node of colour `c` with the one subtree `b` has been taken
out below the path. -/
theorem removeColor_focus {fuel : ℕ} {x : N} (hf : Focus h path b)
    (ht : ∃ n,Hole path n ∧ (join s c .nil x b).Balanced n) (hfuel : path.length+1<fuel) :
    ∃ h' t',(if c=.black then rbRemoveColor fuel h (top path) b.ptr else pure h)=.ok h' ∧
      Focus h' [] t' ∧ t'.RedBlack ∧ t'.nodes=(plug path b).nodes := by
  obtain ⟨n,hhole,hn⟩ := ht
  cases c with
  | red =>
    obtain ⟨-,hc,-,hb⟩ := balanced_join_red.mp hn
    exact ⟨h,_,rfl,focus_nil.mp hf,redBlack_plug.mpr ⟨n,hhole,hb,fun _ => hc⟩,rfl⟩
  | black =>
    obtain ⟨m,rfl,-,hb⟩ := balanced_join_black.mp hn
    refine rbRemoveColor_lacking ⟨hf,⟨m,hhole,?_⟩,rfl⟩ hfuel
    cases hc : b.color with
    | black => exact .inl ⟨rfl,hb⟩
    | red => exact .inr ⟨rfl,hb.paint_black hc⟩

/-- The successor of a node is in neither the left subtree nor above, and the entry
of the successor is not touched when it is taken out. -/
theorem entry_splice_self {x : N} (hf : Focus h path (join s c a x b)) :
    (splice h x b.ptr).entry x=h.entry x := by
  have hd := (List.nodup_cons.mp hf.nodup_join).1
  simp only [List.mem_append,not_or] at hd
  rw [splice,hf.entry.2.2.1,entry_redirect_ne fun heq => hd.2.2 (mem_of_top heq),
    entry_reparent_ne fun heq => hd.2.1 (mem_of_ptr heq)]

/-- The parent of the missing node, when the successor `y` replaces `x`. -/
theorem top_supplant {q : List (Frame N)} {x : N} (y : N)
    (hd : (pathNodes (q++⟨.right,c,x,a⟩::path)).Nodup) :
    (if top (q++⟨.right,c,x,a⟩::path)=some x then some y else top (q++⟨.right,c,x,a⟩::path))=
      top (q++⟨.right,c,y,a⟩::path) := by
  cases q with
  | nil => exact if_pos rfl
  | cons f q =>
    refine if_neg fun heq => ?_
    rw [List.cons_append,pathNodes,List.nodup_cons,pathNodes_append,pathNodes] at hd
    obtain rfl : f.node=x := Option.some.inj heq
    simp at hd

/-- The successor `y` is taken out and put into the place of `x`. -/
theorem successor_focus {q : List (Frame N)} {d : Color} {u : ColorTree N} {x z : N}
    (hf : Focus h (q++⟨.right,c,x,a⟩::path) (join .left d .nil y u)) (ha : a.ptr=some z) :
    ∃ h',supplant (splice h y u.ptr) x y=.ok h' ∧ Focus h' (q++⟨.right,c,y,a⟩::path) u := by
  have hd := (List.nodup_cons.mp hf.nodup_join).1
  have hsf : Focus (splice h y u.ptr) path (join .left c a x (plug q u)) :=
    focus_join_other.mpr (focus_append.mp (splice_focus hf))
  have hy : y∉x::(a.nodes++((plug q u).nodes++pathNodes path)) := by
    have hperm := (nodes_plug_perm q u).mem_iff (a := y)
    simp only [pathNodes_append,pathNodes,List.mem_append,List.mem_cons,not_or] at hd hperm ⊢
    tauto
  obtain ⟨h',hsup,hf'⟩ := supplant_focus hsf ha hy
  exact ⟨h',hsup,focus_append.mpr (focus_join_other.mp hf')⟩

/-- RB_REMOVE up to its label: a node of colour `d` with at most one subtree is missing
below a path, and all other nodes are in their order. -/
theorem unlink_focus {fuel : ℕ} {x : N} (hf : Focus h path (join .left c a x b))
    (ht : (plug path (join .left c a x b)).RedBlack) (hfuel : b.height≤fuel) :
    ∃ h' q u d y,unlink fuel h x=.ok (h',top q,u.ptr,d) ∧ Focus h' q u ∧
      (∃ n,Hole q n ∧ (join .left d .nil y u).Balanced n) ∧
      (plug q u).nodes=before path++(a.nodes++(b.nodes++after path)) ∧
      q.length+1≤(plug path (join .left c a x b)).height := by
  have hl : (h.entry x).left=a.ptr := hf.entry.1
  have hr : (h.entry x).right=b.ptr := hf.entry.2.1
  have hheight := height_plug path (join .left c a x b)
  rw [height_join] at hheight
  obtain ⟨n,hhole,hn,-⟩ := redBlack_plug.mp ht
  rw [unlink,hl,hr]
  cases ha : a.ptr with
  | none =>
    obtain rfl := ptr_eq_none.mp ha
    refine ⟨_,path,b,c,x,?_,splice_focus hf,⟨n,hhole,hn⟩,?_,by omega⟩
    · simp only [hf.entry.2.2.1,hf.entry.2.2.2]
    · rw [nodes_plug]
      rfl
  | some z =>
    cases hb : b.ptr with
    | none =>
      obtain rfl := ptr_eq_none.mp hb
      have hf' : Focus h path (join .right c .nil x a) := hf
      refine ⟨_,path,a,c,x,?_,splice_focus hf',⟨n,hhole,balanced_join_swap.mp hn⟩,?_,by omega⟩
      · simp only [hf.entry.2.2.1,hf.entry.2.2.2,ha]
      · rw [nodes_plug]
        rfl
    | some e =>
      obtain ⟨q,d,y,u,hy,rfl,hq⟩ := leftmost_focus (focus_join_other.mp hf) hb hfuel
      have hyf := focus_append.mpr (focus_join_other.mp hf)
      obtain ⟨h',hsup,hf'⟩ := successor_focus hyf ha
      have hplug : plug path (join .left c a x (plug q (join .left d .nil y u)))=
          plug (q++⟨.right,c,x,a⟩::path) (join .left d .nil y u) := by
        rw [plug_append]
        rfl
      rw [hplug] at ht ⊢
      obtain ⟨m,hhole',hm,-⟩ := redBlack_plug.mp ht
      have hheight' := height_plug (q++⟨.right,c,x,a⟩::path) (join .left d .nil y u)
      rw [height_join,List.length_append,List.length_cons] at hheight'
      refine ⟨h',q++⟨.right,c,y,a⟩::path,u,d,y,?_,hf',⟨m,?_,hm⟩,?_,?_⟩
      · have hu : (h.entry y).right=u.ptr := hyf.entry.2.1
        simp only [hy,bind,Except.bind,hu,entry_splice_self hyf,hyf.entry.2.2.1,hyf.entry.2.2.2,
          hsup]
        rw [Side.other,top_supplant y (List.nodup_append.mp hyf.distinct).1]
        rfl
      · have hsame : ∀ k,Hole (⟨.right,c,x,a⟩::path) k ↔ Hole (⟨.right,c,y,a⟩::path) k :=
          fun _ => Iff.rfl
        exact (hole_append_congr hsame rfl q m).mp hhole'
      · rw [plug_append,plug,nodes_plug]
        simp [Frame.fill,join,ColorTree.nodes,nodes_plug q,before_of_left hq]
      · rw [List.length_append,List.length_cons]
        omega

/-- RB_REMOVE is the removal of the ordered set: it follows no null pointer, ends
within its rounds and returns the removed node. -/
theorem rbRemove_spans {fuel : ℕ} {x : N} (hr : Spans h l) (hx : x∈l)
    (hfuel : 2*Nat.log 2 (l.length+1)<fuel) :
    ∃ h',rbRemove fuel h x=.ok (h',x) ∧ Spans h' (l.erase x) := by
  obtain ⟨t,hf,ht,rfl⟩ := hr
  have hheight := height_lt ht rfl hfuel
  obtain ⟨path,c,a,b,rfl⟩ := exists_plug hx
  have hb : b.height≤fuel := by
    have hp := height_plug path (join .left c a x b)
    rw [height_join] at hp
    omega
  obtain ⟨h₁,q,u,d,y,hunlink,hf₁,hbal,hnodes,hlen⟩ := unlink_focus (focus_nil.mpr hf) ht hb
  obtain ⟨h',t',hcolor,hf',ht',hnodes'⟩ := removeColor_focus hf₁ hbal (hlen.trans_lt hheight)
  refine ⟨h',?_,t',hf',ht',?_⟩
  · rw [rbRemove,hunlink]
    simp only [bind,Except.bind]
    split_ifs at hcolor ⊢
    · rw [hcolor]
      rfl
    · cases hcolor
      rfl
  · have hsplit : (plug path (join .left c a x b)).nodes=
        (before path++a.nodes)++x::(b.nodes++after path) := by
      rw [nodes_plug]
      simp [join,ColorTree.nodes]
    have hnodup : (plug path (join .left c a x b)).nodes.Nodup :=
      (List.nodup_append.mp hf.distinct).2.1
    have hx' : x∉before path++a.nodes := fun hmem =>
      (List.nodup_append.mp (hsplit ▸ hnodup)).2.2 x hmem x List.mem_cons_self rfl
    rw [hnodes',hnodes,hsplit,List.erase_append_right _ hx',List.erase_cons_head,List.append_assoc]

end DycoCoroutine.SysTree
