import DycoCoroutine.SysTreeSearch

/-!
# Insertion into the red-black tree

RB_INSERT refuses a key that is taken. Otherwise it links the new node as a
red leaf at the place of its key, and RB_INSERT_COLOR moves the one violation
that this can make up the tree until it is gone. The number of rounds is
logarithmic in the number of members, and no null pointer is followed.
-/

namespace DycoCoroutine.SysTree

open RedBlackTree ColorTree LinkedTree KeyedSet

variable {N : Type*} {h : Heap N} {path : List (Frame N)} {s s₁ : Side} {t b u : ColorTree N}
  {g p e : N} {l : List N}

/-- The head of the loop of RB_INSERT_COLOR: a red-black tree with the elements
`l`, except that the red node `e` may be the root or follow a red node. -/
structure Repairing (h : Heap N) (path : List (Frame N)) (t : ColorTree N) (e : N) (l : List N) :
    Prop where
  /-- The tree stands in the memory. -/
  focus : Focus h path t
  /-- The loop stands at its root. -/
  ptr : t.ptr=some e
  /-- The root is red. -/
  red : t.color=.red
  /-- All ways down meet the same number of black nodes. -/
  balanced : ∃ n,Hole path n ∧ t.Balanced n
  /-- The elements. -/
  nodes : (plug path t).nodes=l

theorem Repairing.mem (hr : Repairing h path t e l) : e∈l := by
  rw [← hr.nodes,nodes_plug]
  exact List.mem_append_right _ (List.mem_append_left _ (mem_of_ptr hr.ptr))

variable [DecidableEq N]

/-- Under a red uncle the colours move up. -/
theorem insertColorRound_recolor (hf : Focus h (⟨s₁,.red,p,b⟩::⟨s,.black,g,u⟩::path) t)
    (hu : u.color=.red) : ∃ h',insertColorRound s h g p e=.ok (h',g) ∧
      Focus h' path (join s .red (join s₁ .black t p b) g (u.paint .black)) := by
  rw [← focus_join,← focus_join] at hf
  have hg := hf.entry
  have hu' := focus_join_other.mp hf
  have hcolor : h.colorOf u.ptr=.red := hu'.below.colorOf.trans hu
  refine ⟨_,by rw [insertColorRound,hg.2.1,if_pos hcolor],?_⟩
  have h₁ := focus_join_other.mpr (hu'.recolor .black)
  have h₂ := focus_join.mpr ((focus_join.mp h₁).setColor .black)
  exact h₂.setColor .red

/-- The second rotation of the loop, which takes the grandparent down. -/
theorem rbRotate_gparent {a c : ColorTree N} {y : N}
    (hf : Focus h (⟨s,.black,g,u⟩::path) (join s .red a y c)) :
    ∃ h',rbRotate s.other (rbSetBlackred h y g) g=.ok h' ∧
      Focus h' (⟨s,.black,y,join s .red c g u⟩::path) a := by
  have h₁ := (focus_join.mpr (hf.setColor .black)).setColor .red
  rw [← join_other,← join_other s] at h₁
  obtain ⟨h',hrot,h₂⟩ := rbRotate_focus h₁
  refine ⟨h',hrot,?_⟩
  rwa [join_other,join_other,focus_join] at h₂

/-- Under a black uncle the tree is rotated, once or twice, and then the red
node stands below a black one. -/
theorem insertColorRound_rotate (hf : Focus h (⟨s₁,.red,p,b⟩::⟨s,.black,g,u⟩::path) t)
    (hu : u.color=.black) (he : t.ptr=some e) (ht : t.color=.red) :
    (s₁=s ∧ ∃ h',insertColorRound s h g p e=.ok (h',e) ∧
      Focus h' (⟨s,.black,p,join s .red b g u⟩::path) t) ∨
    (s₁=s.other ∧ ∃ h' t₁ t₂,t=join s .red t₁ e t₂ ∧ insertColorRound s h g p e=.ok (h',p) ∧
      Focus h' (⟨s,.black,e,join s .red t₂ g u⟩::path) (join s .red b p t₁)) := by
  have hp := (focus_join.mpr hf).entry
  have hgf := focus_join.mpr (focus_join.mpr hf)
  have hcolor : h.colorOf u.ptr≠.red := by
    rw [(focus_join_other.mp hgf).below.colorOf,hu]
    decide
  rw [insertColorRound,hgf.entry.2.1,if_neg hcolor]
  by_cases hs : s₁=s
  · subst hs
    have hb : b.ptr≠some e := hf.sibling_ne he
    obtain ⟨h',hrot,h₁⟩ := rbRotate_gparent (focus_join.mpr hf)
    refine .inl ⟨rfl,h',?_,h₁⟩
    rw [if_neg (hp.2.1.trans_ne hb)]
    simp [bind,Except.bind,pure,Except.pure,hrot]
  · have hs : s₁=s.other := by cases s <;> cases s₁ <;> simp_all [Side.other]
    subst hs
    obtain ⟨t₁,t₂,heq⟩ := eq_join_of_ptr he s
    rw [ht] at heq
    subst heq
    have h₁ := focus_join.mpr hf
    rw [join_other] at h₁
    obtain ⟨h₂,hrot₁,h₂f⟩ := rbRotate_focus h₁
    obtain ⟨h',hrot,h₃⟩ := rbRotate_gparent h₂f
    refine .inr ⟨rfl,h',t₁,t₂,rfl,?_,h₃⟩
    rw [if_pos (hp.1.trans (ptr_join ..))]
    simp [bind,Except.bind,pure,Except.pure,hrot₁,hrot]

/-- One round of the loop under a red parent: it keeps what holds at the head of
the loop and comes closer to the root. -/
theorem insertColorRound_repairing
    (hr : Repairing h (⟨s₁,.red,p,b⟩::⟨s,.black,g,u⟩::path) t e l) :
    ∃ h' path' t' e',insertColorRound s h g p e=.ok (h',e') ∧ Repairing h' path' t' e' l ∧
      path'.length<path.length+2 := by
  obtain ⟨hf,he,ht,⟨n,hhole,hbal⟩,hnodes⟩ := hr
  obtain ⟨hb,hbc,-,hu,hpath⟩ := hhole
  cases hc : u.color with
  | red =>
    obtain ⟨h',hround,hf'⟩ := insertColorRound_recolor hf hc
    have hbal' : (join s .red (join s₁ .black t p b) g (u.paint .black)).Balanced (n+1) :=
      balanced_join_red.mpr ⟨color_join ..,color_paint_black ..,
        balanced_join_black.mpr ⟨n,rfl,hbal,hb⟩,hu.paint_black hc⟩
    refine ⟨h',path,_,g,hround,⟨hf',ptr_join ..,color_join ..,⟨n+1,hpath,hbal'⟩,?_⟩,by omega⟩
    rw [← hnodes]
    refine nodes_plug_congr ?_ path
    cases s <;> cases s₁ <;> simp [Frame.fill,join,ColorTree.nodes]
  | black =>
    rcases insertColorRound_rotate hf hc he ht with ⟨rfl,h',hround,hf'⟩|⟨rfl,h',t₁,t₂,rfl,hround,hf'⟩
    · have hw : (join s₁ .red b g u).Balanced n := balanced_join_red.mpr ⟨hbc,hc,hb,hu⟩
      refine ⟨h',_,t,e,hround,⟨hf',he,ht,⟨n,⟨hw,hpath⟩,hbal⟩,?_⟩,by simp⟩
      rw [← hnodes]
      refine nodes_plug_congr ?_ path
      cases s₁ <;> simp [Frame.fill,join,ColorTree.nodes]
    · obtain ⟨ht₁,ht₂,hb₁,hb₂⟩ := balanced_join_red.mp hbal
      have hw : (join s .red t₂ g u).Balanced n := balanced_join_red.mpr ⟨ht₂,hc,hb₂,hu⟩
      have hbal' : (join s .red b p t₁).Balanced n := balanced_join_red.mpr ⟨hbc,ht₁,hb,hb₁⟩
      refine ⟨h',_,_,p,hround,⟨hf',ptr_join ..,color_join ..,⟨n,⟨hw,hpath⟩,hbal'⟩,?_⟩,by simp⟩
      rw [← hnodes]
      refine nodes_plug_congr ?_ path
      cases s <;> simp [Frame.fill,join,ColorTree.nodes,Side.other]

/-- The loop of RB_INSERT_COLOR ends at a tree that only its root can keep from
being a red-black tree. -/
theorem insertColorLoop_repairing {fuel : ℕ} (hr : Repairing h path t e l)
    (hfuel : path.length<fuel) : ∃ h' t',insertColorLoop fuel h e=.ok h' ∧ Focus h' [] t' ∧
      t'.nodes=l ∧ ∃ n,(t'.paint .black).Balanced n := by
  induction fuel generalizing h path t e with
  | zero => exact absurd hfuel (Nat.not_lt_zero _)
  | succ fuel ih =>
    obtain ⟨n,hhole,hbal⟩ := hr.balanced
    obtain ⟨a,b,ht⟩ := eq_join_of_ptr hr.ptr .left
    have he : (h.entry e).parent=top path := by
      have hf := hr.focus
      rw [ht] at hf
      exact hf.entry.2.2.1
    rw [insertColorLoop,he]
    cases path with
    | nil => exact ⟨h,t,rfl,hr.focus,hr.nodes,n+1,hbal.paint_black hr.red⟩
    | cons f path =>
      obtain ⟨s₁,c,p,b⟩ := f
      have hpf := focus_join.mpr hr.focus
      simp only [top_cons,hpf.entry.2.2.2]
      cases c with
      | black =>
        obtain ⟨hc,m,hm⟩ := redBlack_plug.mpr ⟨n,hhole,hbal,fun hred => Color.noConfusion hred⟩
        refine ⟨h,_,if_neg (by decide),focus_nil.mp hr.focus,hr.nodes,m,?_⟩
        rwa [paint_eq_self hc]
      | red =>
        -- the parent is red, so it is not the root and the grandparent is black
        cases path with
        | nil => cases hhole.2.2.1
        | cons f path =>
          obtain ⟨s,c,g,u⟩ := f
          obtain rfl : c=.black := hhole.2.2.1
          have hside := LinkedPath.side (ptr_join s₁ _ _ _ _ ▸ hpf.above)
            (hpf.sibling_ne (ptr_join ..))
          obtain ⟨h',path',t',e',hround,hr',hlen⟩ := insertColorRound_repairing hr
          obtain ⟨h'',t'',hloop,hpost⟩ := ih hr' (by simp only [List.length_cons] at hfuel; omega)
          refine ⟨h'',t'',?_,hpost⟩
          simp only [if_true,hpf.entry.2.2.1,top_cons,deref,bind,Except.bind] at hside ⊢
          rw [hside,hround]
          exact hloop

/-- RB_INSERT_COLOR restores the red-black tree. -/
theorem rbInsertColor_repairing {fuel : ℕ} (hr : Repairing h path t e l)
    (hfuel : path.length<fuel) : ∃ h' t',rbInsertColor fuel h e=.ok h' ∧ Focus h' [] t' ∧
      t'.nodes=l ∧ t'.RedBlack := by
  obtain ⟨h₁,t₁,hloop,hf,hnodes,n,hn⟩ := insertColorLoop_repairing hr hfuel
  have hroot : h₁.root=t₁.ptr := hf.above
  cases hptr : t₁.ptr with
  | none =>
    rw [ptr_eq_none.mp hptr] at hnodes
    have hmem := hr.mem
    rw [← hnodes] at hmem
    cases hmem
  | some r =>
    have hf' := hf.recolor .black
    rw [hptr] at hf'
    refine ⟨_,t₁.paint .black,?_,hf',?_,color_paint_black ..,n,hn⟩
    · rw [rbInsertColor,hloop]
      simp [bind,Except.bind,pure,Except.pure,hroot,hptr,deref,Heap.recolor]
    · rw [nodes_paint,hnodes]

/-- The new node becomes the child on the side of the last comparison. -/
theorem attach_cons {x : N} (f : Frame N) (path : List (Frame N)) :
    attach h x (top (f::path)) (turn (f::path))=
      (rbSet h x (some f.node)).setChild f.side f.node (some x) := by
  obtain ⟨s,c,y,b⟩ := f
  cases s <;> rfl

/-- The new node is linked as a red leaf. -/
theorem attach_focus {x : N} (hf : Focus h path .nil) (hx : x∉pathNodes path) :
    Focus (attach h x (top path) (turn path)) path (join .left .red .nil x .nil) := by
  have hd : (pathNodes path).Nodup := (List.nodup_append.mp hf.distinct).1
  have hdistinct : (pathNodes path++(join .left .red .nil x .nil).nodes).Nodup := by
    simp only [join,nodes,List.nil_append]
    exact List.nodup_append.mpr ⟨hd,List.nodup_singleton x,fun a ha b hb heq =>
      hx (List.mem_singleton.mp hb ▸ heq ▸ ha)⟩
  have hentry : (rbSet h x (top path)).entry x=⟨none,none,top path,.red⟩ := entry_update_self
  cases path with
  | nil => exact ⟨rfl,linked_join.mpr ⟨hentry ▸ ⟨rfl,rfl,rfl,rfl⟩,trivial,trivial⟩,hdistinct⟩
  | cons f path =>
    have hset : LinkedPath (rbSet h x (some f.node)) (f::path) none :=
      hf.above.congr rfl fun z hz => entry_update_ne fun heq => hx (heq ▸ hz)
    have hxf : x≠f.node := fun heq => hx (heq ▸ List.mem_cons_self)
    rw [attach_cons]
    refine ⟨hset.setHole hd (some x),linked_join.mpr ⟨?_,trivial,trivial⟩,hdistinct⟩
    rw [Heap.setChild,entry_update_ne hxf]
    exact hentry ▸ ⟨rfl,rfl,rfl,rfl⟩

/-- After the new node is linked, only its colour can be wrong. -/
theorem attach_repairing {x : N} (hf : Focus h path .nil) (ht : (plug path .nil).RedBlack)
    (hx : x∉pathNodes path) : Repairing (attach h x (top path) (turn path)) path
      (join .left .red .nil x .nil) x (before path++x::after path) := by
  obtain ⟨n,hhole,hn,-⟩ := redBlack_plug.mp ht
  refine ⟨attach_focus hf hx,rfl,rfl,⟨n,hhole,rfl,rfl,hn,hn⟩,?_⟩
  rw [nodes_plug]
  rfl

/-- RB_INSERT is the insertion of the ordered set: it returns the member that has
the key already and leaves the memory alone, or adds the new one. -/
theorem rbInsert_represents {key : N → ℕ} {fuel : ℕ} (hr : Represents h key l) (x : N)
    (hfuel : 2*Nat.log 2 (l.length+1)<fuel) :
    ∃ h',rbInsert (keyCmp key) fuel h x=.ok (h',(tryPlace key x l).1) ∧
      Represents h' key (tryPlace key x l).2 := by
  rw [rbInsert,tryPlace]
  rcases insertDescend_represents hr x hfuel with
    ⟨y,hy,hd⟩|⟨hy,path,hf,ht,rfl,hp,hd⟩
  · refine ⟨h,?_,?_⟩
    · rw [hd,hy]
      rfl
    · rwa [hy]
  · have hunused := find_eq_none.mp hy
    have hx : x∉pathNodes path := fun hmem => hunused x
      ((nodes_plug_perm path .nil).mem_iff.mpr (List.mem_append_left _ hmem)) rfl
    have hlen : path.length<fuel :=
      (Nat.le_of_add_right_le (height_plug path .nil)).trans_lt (height_lt ht rfl hfuel)
    obtain ⟨h',t',hcolor,hf',hnodes,ht'⟩ :=
      rbInsertColor_repairing (attach_repairing hf ht hx) hlen
    have hplace : place key x (plug path .nil).nodes=before path++x::after path := by
      rw [nodes_plug,nodes_nil,List.nil_append,place_append hp.before hp.after]
    refine ⟨h',?_,?_,t',hf',ht',?_⟩
    · rw [hd,hy]
      simp only [bind,Except.bind,hcolor]
      rfl
    · rw [hy]
      exact hr.1.place hunused
    · rw [hy]
      exact hnodes.trans hplace.symm

end DycoCoroutine.SysTree
