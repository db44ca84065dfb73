import Mathlib.Tactic

/-!
# Queues in a memory of linked cells

Several queues share one link field per node. A cell is the pointer of a queue
head to its first node, or the pointer of a node to the next one. Behind each
cell lies the address of a cell: for a head the cell that a new last node is to
be written to, for a node the cell that points to it. The memory holds a family
of lists if every cell and every address is the one the lists prescribe, and no
node is in two places. The types of queues and nodes are arbitrary.
-/

namespace DycoCoroutine.LinkedQueue

/-- The address of a cell. -/
inductive Slot (Q N : Type*)
  /-- The pointer to the first node of a queue. -/
  | head (q : Q)
  /-- The pointer of a node to the next one. -/
  | next (x : N)
  deriving DecidableEq

/-- The cell of a queue is not the cell of a node. -/
theorem Slot.head_ne_next {Q N : Type*} (q : Q) (x : N) : Slot.head q≠.next x := by
  rintro ⟨⟩

/-- The cells, and the address behind each of them. -/
structure Links (Q N : Type*) where
  /-- The pointer in a cell. -/
  cell : Slot Q N → Option N
  /-- The address behind a cell. -/
  back : Slot Q N → Slot Q N

variable {Q N : Type*} {m m' : Links Q N} {s : Slot Q N} {l a b : List N} {x : N}

/-- The last cell of a list that hangs on the cell `s`. -/
def ends (s : Slot Q N) : List N → Slot Q N
  | [] => s
  | x::l => ends (.next x) l

/-- The cells of a list that hangs on `s`, without the last one. -/
def cells (s : Slot Q N) : List N → List (Slot Q N)
  | [] => []
  | x::l => s::cells (.next x) l

/-- The nodes of the list hang on `s` one after the other. -/
def Hangs (m : Links Q N) : Slot Q N → List N → Prop
  | _,[] => True
  | s,x::l => m.cell s=some x ∧ m.back (.next x)=s ∧ Hangs m (.next x) l

/-- The last cell of two lists in a row. -/
theorem ends_append (s : Slot Q N) (a b : List N) : ends s (a++b)=ends (ends s a) b := by
  induction a generalizing s with
  | nil => rfl
  | cons x a ih => exact ih (.next x)

/-- The cells of two lists in a row. -/
theorem cells_append (s : Slot Q N) (a b : List N) :
    cells s (a++b)=cells s a++cells (ends s a) b := by
  induction a generalizing s with
  | nil => rfl
  | cons x a ih => simp [cells,ends,ih]

/-- Two lists in a row hang when the second hangs on the end of the first. -/
theorem hangs_append : Hangs m s (a++b) ↔ Hangs m s a ∧ Hangs m (ends s a) b := by
  induction a generalizing s with
  | nil => simp [Hangs,ends]
  | cons x a ih => simp only [List.cons_append,Hangs,ends,ih,and_assoc]

/-- The last cell is that of the last node. -/
theorem ends_cases (s : Slot Q N) (l : List N) :
    l=[] ∧ ends s l=s ∨ ∃ y∈l,ends s l=.next y := by
  induction l generalizing s with
  | nil => exact .inl ⟨rfl,rfl⟩
  | cons x l ih =>
    refine .inr ?_
    rcases ih (.next x) with ⟨rfl,heq⟩|⟨y,hy,heq⟩
    · exact ⟨x,List.mem_cons_self,heq⟩
    · exact ⟨y,List.mem_cons_of_mem x hy,heq⟩

/-- The cells of a list are the one it hangs on and those of its nodes. -/
theorem mem_cells {u : Slot Q N} (h : u∈cells s l) : u=s ∨ ∃ y∈l,u=.next y := by
  induction l generalizing s with
  | nil => cases h
  | cons x l ih =>
    rcases List.mem_cons.mp h with rfl|h
    · exact .inl rfl
    · rcases ih h with rfl|⟨y,hy,rfl⟩
      · exact .inr ⟨x,List.mem_cons_self,rfl⟩
      · exact .inr ⟨y,List.mem_cons_of_mem x hy,rfl⟩

/-- The last cell is none of the others. -/
theorem ends_notMem_cells (hs : ∀ y∈l,s≠.next y) (hd : l.Nodup) : ends s l∉cells s l := by
  induction l generalizing s with
  | nil => exact List.not_mem_nil
  | cons x l ih =>
    obtain ⟨hx,hl⟩ := List.nodup_cons.mp hd
    rw [cells,ends,List.mem_cons,not_or]
    refine ⟨fun heq => ?_,ih (fun y hy heq => hx (Slot.next.inj heq ▸ hy)) hl⟩
    rcases ends_cases (.next x : Slot Q N) l with ⟨-,he⟩|⟨y,hy,he⟩
    · exact hs x List.mem_cons_self (heq.symm.trans he)
    · exact hs y (List.mem_cons_of_mem x hy) (heq.symm.trans he)

/-- A list keeps hanging on its cell while its cells and the addresses behind its
nodes stay. -/
theorem Hangs.congr (h : Hangs m s l) (hc : ∀ u∈cells s l,m'.cell u=m.cell u)
    (hb : ∀ y∈l,m'.back (.next y)=m.back (.next y)) : Hangs m' s l := by
  induction l generalizing s with
  | nil => trivial
  | cons x l ih =>
    refine ⟨(hc s List.mem_cons_self).trans h.1,(hb x List.mem_cons_self).trans h.2.1,
      ih h.2.2 (fun u hu => hc u (List.mem_cons_of_mem s hu)) fun y hy =>
        hb y (List.mem_cons_of_mem x hy)⟩

/-- The queue `q` consists of the nodes of the list. -/
structure Lists (m : Links Q N) (q : Q) (l : List N) : Prop where
  /-- The nodes hang on the head. -/
  hangs : Hangs m (.head q) l
  /-- The last cell is null. -/
  stop : m.cell (ends (.head q) l)=none
  /-- The head knows the last cell. -/
  last : m.back (.head q)=ends (.head q) l

/-- The memory holds these lists. -/
structure Holds (m : Links Q N) (lists : Q → List N) : Prop where
  /-- Every queue consists of the nodes of its list. -/
  queue : ∀ q,Lists m q (lists q)
  /-- No node is twice in a queue. -/
  nodup : ∀ q,(lists q).Nodup
  /-- No node is in two queues. -/
  apart : ∀ q q' x,x∈lists q → x∈lists q' → q=q'

/-- The head of a queue points to the first node of its list. -/
theorem Holds.first {lists : Q → List N} (h : Holds m lists) (q : Q) :
    m.cell (.head q)=(lists q).head? := by
  obtain ⟨hh,hs,-⟩ := h.queue q
  cases hl : lists q with
  | nil =>
    rw [hl] at hs
    exact hs
  | cons x l =>
    rw [hl] at hh
    exact hh.1

/-- The last node is found from the head by two steps back and one forward. -/
theorem Holds.getLast {lists : Q → List N} (h : Holds m lists) (q : Q) :
    m.cell (m.back (m.back (.head q)))=(lists q).getLast? := by
  obtain ⟨hh,hs,hl⟩ := h.queue q
  rcases List.eq_nil_or_concat (lists q) with heq|⟨l,x,heq⟩
  · rw [heq] at hl hs ⊢
    rw [hl,ends,hl,ends]
    exact hs
  · rw [heq] at hl hh ⊢
    rw [List.concat_eq_append] at hl hh ⊢
    rw [hangs_append] at hh
    rw [hl,ends_append,ends,ends,hh.2.2.1,hh.2.1]
    simp

section Apart

variable {lists : Q → List N} {q q' : Q} {u : Slot Q N}

/-- The cell of the head of a queue or of one of its nodes. -/
def Owns (lists : Q → List N) (q : Q) (u : Slot Q N) : Prop := u=.head q ∨ ∃ y∈lists q,u=.next y

/-- A cell has one owner. -/
theorem Holds.owner_unique (h : Holds m lists) (hu : Owns lists q u) (hu' : Owns lists q' u) :
    q=q' := by
  rcases hu with rfl|⟨y,hy,rfl⟩ <;> rcases hu' with heq|⟨z,hz,heq⟩
  · exact Slot.head.inj heq
  · cases heq
  · cases heq
  · exact h.apart q q' y hy (Slot.next.inj heq ▸ hz)

/-- The last cell of a part of a queue belongs to the queue. -/
theorem owns_ends (ha : ∀ y∈a,y∈lists q) : Owns lists q (ends (.head q) a) := by
  rcases ends_cases (.head q : Slot Q N) a with ⟨-,he⟩|⟨y,hy,he⟩
  · exact .inl he
  · exact .inr ⟨y,ha y hy,he⟩

/-- The cell behind which the address of the list `b` stands: that of its first node,
or the head. -/
def follower (q : Q) : List N → Slot Q N
  | [] => .head q
  | y::_ => .next y

/-- The cell that follows a part of a queue belongs to the queue. -/
theorem owns_follower (hb : ∀ y∈b,y∈lists q) : Owns lists q (follower q b) := by
  cases b with
  | nil => exact .inl rfl
  | cons y b => exact .inr ⟨y,hb y List.mem_cons_self,rfl⟩

/-- One queue gets another list, and the others stay. -/
theorem Holds.update [DecidableEq Q] (h : Holds m lists) (hq : Lists m' q l)
    (hother : ∀ q',q'≠q → Lists m' q' (lists q')) (hd : l.Nodup)
    (hl : ∀ q',∀ y∈l,y∈lists q' → q'=q) : Holds m' (Function.update lists q l) := by
  have hcases : ∀ q',q'=q ∧ Function.update lists q l q'=l ∨
      q'≠q ∧ Function.update lists q l q'=lists q' := by
    intro q'
    by_cases heq : q'=q
    · exact .inl ⟨heq,heq ▸ Function.update_self ..⟩
    · exact .inr ⟨heq,Function.update_of_ne heq ..⟩
  refine ⟨fun q' => ?_,fun q' => ?_,fun q₁ q₂ y h₁ h₂ => ?_⟩
  · rcases hcases q' with ⟨rfl,heq⟩|⟨hne,heq⟩ <;> rw [heq]
    · exact hq
    · exact hother q' hne
  · rcases hcases q' with ⟨-,heq⟩|⟨-,heq⟩ <;> rw [heq]
    · exact hd
    · exact h.nodup q'
  · rcases hcases q₁ with ⟨e₁,heq₁⟩|⟨-,heq₁⟩ <;> rcases hcases q₂ with ⟨e₂,heq₂⟩|⟨-,heq₂⟩ <;>
      rw [heq₁] at h₁ <;> rw [heq₂] at h₂
    · exact e₁.trans e₂.symm
    · exact e₁.trans (hl q₂ y h₁ h₂).symm
    · exact (hl q₁ y h₂ h₁).trans e₂.symm
    · exact h.apart q₁ q₂ y h₁ h₂

/-- The last cells of two queues are different. -/
theorem Holds.ends_ne (h : Holds m lists) (hq : q'≠q) :
    ends (.head q') (lists q')≠ends (.head q) (lists q) := fun heq =>
  hq (h.owner_unique (owns_ends fun _ hy => hy) (heq ▸ owns_ends fun _ hy => hy))

/-- The last cell of a queue is no inner cell of any queue. -/
theorem Holds.ends_notMem (h : Holds m lists) (q q' : Q) :
    ends (.head q) (lists q)∉cells (.head q') (lists q') := by
  intro hmem
  obtain rfl := h.owner_unique (mem_cells hmem) (owns_ends fun _ hy => hy)
  exact ends_notMem_cells (fun y _ => Slot.head_ne_next q' y) (h.nodup q') hmem

/-- The cell of a node outside the queues is none of their cells. -/
theorem next_notMem_cells (hx : x∉l) : (.next x : Slot Q N)∉cells (.head q) l := by
  intro hmem
  rcases mem_cells hmem with heq|⟨y,hy,heq⟩
  · cases heq
  · exact hx (Slot.next.inj heq ▸ hy)

/-- The last cell of a list is not that of a node outside it. -/
theorem ends_ne_next (hx : x∉l) : ends (.head q : Slot Q N) l≠.next x := by
  intro heq
  rcases ends_cases (.head q : Slot Q N) l with ⟨-,h₁⟩|⟨y,hy,h₁⟩ <;> rw [h₁] at heq
  · cases heq
  · exact hx (Slot.next.inj heq ▸ hy)

end Apart

section Updates

variable [DecidableEq Q] [DecidableEq N]

/-- Write a cell. -/
def Links.setCell (m : Links Q N) (u : Slot Q N) (v : Option N) : Links Q N :=
  {m with cell := Function.update m.cell u v}

/-- Write the address behind a cell. -/
def Links.setBack (m : Links Q N) (u v : Slot Q N) : Links Q N :=
  {m with back := Function.update m.back u v}

variable {u w : Slot Q N} {v : Option N}

@[simp] theorem cell_setCell_self : (m.setCell u v).cell u=v := Function.update_self ..

/-- Writing a cell leaves the others alone. -/
theorem cell_setCell_ne (h : w≠u) : (m.setCell u v).cell w=m.cell w := Function.update_of_ne h ..

@[simp] theorem back_setCell : (m.setCell u v).back=m.back := rfl

@[simp] theorem back_setBack_self : (m.setBack u w).back u=w := Function.update_self ..

/-- Writing an address leaves the others alone. -/
theorem back_setBack_ne {z : Slot Q N} (h : z≠u) : (m.setBack u w).back z=m.back z :=
  Function.update_of_ne h ..

@[simp] theorem cell_setBack : (m.setBack u w).cell=m.cell := rfl

/-- The writes that put `x` behind the last cell `e` of the queue `q`. -/
def Links.pushed (m : Links Q N) (q : Q) (x : N) (e : Slot Q N) : Links Q N :=
  (((m.setCell (.next x) none).setBack (.next x) e).setCell e (some x)).setBack (.head q) (.next x)

section Pushed

variable {q : Q} {e : Slot Q N} {lists : Q → List N}

/-- An insertion at the tail writes the old end and the new node only. -/
theorem cell_pushed_ne (he : u≠e) (hx : u≠.next x) : (m.pushed q x e).cell u=m.cell u := by
  rw [Links.pushed,cell_setBack,cell_setCell_ne he,cell_setBack,cell_setCell_ne hx]

/-- The old end points to the new node. -/
theorem cell_pushed_end : (m.pushed q x e).cell e=some x := by
  rw [Links.pushed,cell_setBack,cell_setCell_self]

/-- The new node is the last one. -/
theorem cell_pushed_new (he : .next x≠e) : (m.pushed q x e).cell (.next x)=none := by
  rw [Links.pushed,cell_setBack,cell_setCell_ne he,cell_setBack,cell_setCell_self]

/-- An insertion at the tail changes the addresses behind the head and the new node only. -/
theorem back_pushed_ne (hq : u≠.head q) (hx : u≠.next x) : (m.pushed q x e).back u=m.back u := by
  rw [Links.pushed,back_setBack_ne hq,back_setCell,back_setBack_ne hx,back_setCell]

/-- The new node remembers the old end. -/
theorem back_pushed_new : (m.pushed q x e).back (.next x)=e := by
  rw [Links.pushed,back_setBack_ne (Slot.head_ne_next q x).symm,back_setCell,back_setBack_self]

/-- The queue remembers the new node as its end. -/
theorem back_pushed_head : (m.pushed q x e).back (.head q)=.next x := back_setBack_self

/-- The queues that the node is not put into. -/
theorem Holds.pushed_hangs {q' : Q} (h : Holds m lists) (hx : x∉lists q') :
    Hangs (m.pushed q x (ends (.head q) (lists q))) (.head q') (lists q') := by
  refine (h.queue q').hangs.congr (fun u hu => cell_pushed_ne ?_ ?_) fun y hy =>
    back_pushed_ne (Slot.head_ne_next q y).symm ?_
  · rintro rfl
    exact h.ends_notMem q q' hu
  · rintro rfl
    exact next_notMem_cells hx hu
  · rintro ⟨⟩
    exact hx hy

/-- The lists after `x`, which was in none of them, is put behind one. -/
theorem Holds.pushed (h : Holds m lists) (hx : ∀ q',x∉lists q') :
    Holds (m.pushed q x (ends (.head q) (lists q)))
      (Function.update lists q (lists q++[x])) := by
  refine h.update ⟨?_,?_,?_⟩ (fun q' hq => ⟨h.pushed_hangs (hx q'),?_,?_⟩) ?_ fun q' y hy hy' => ?_
  · exact hangs_append.mpr ⟨h.pushed_hangs (hx q),cell_pushed_end,back_pushed_new,trivial⟩
  · rw [ends_append]
    exact cell_pushed_new (ends_ne_next (hx q)).symm
  · rw [ends_append]
    exact back_pushed_head
  · rw [cell_pushed_ne (h.ends_ne hq) (ends_ne_next (hx q')),(h.queue q').stop]
  · rw [back_pushed_ne (fun heq => hq (Slot.head.inj heq)) (Slot.head_ne_next q' x),
      (h.queue q').last]
  · exact List.nodup_append.mpr ⟨h.nodup q,List.nodup_singleton x,fun y hy z hz heq =>
      hx q (List.mem_singleton.mp hz ▸ heq ▸ hy)⟩
  · rcases List.mem_append.mp hy with hy|hy
    · exact h.apart q' q y hy' hy
    · exact absurd (List.mem_singleton.mp hy ▸ hy') (hx q')

end Pushed

/-- The writes that take a node out between the cell `e`, which pointed to it, and its
next node `v`; `t` is the cell whose address has to follow. -/
def Links.cut (m : Links Q N) (t e : Slot Q N) (v : Option N) : Links Q N :=
  (m.setBack t e).setCell e v

section Cut

variable {q : Q} {lists : Q → List N}

variable {t e : Slot Q N}

/-- A removal writes one cell. -/
theorem cell_cut_ne (he : u≠e) : (m.cut t e v).cell u=m.cell u := by
  rw [Links.cut,cell_setCell_ne he,cell_setBack]

/-- The cell before the removed node points past it. -/
theorem cell_cut_self : (m.cut t e v).cell e=v := cell_setCell_self

/-- A removal changes one address. -/
theorem back_cut_ne (ht : u≠t) : (m.cut t e v).back u=m.back u := by
  rw [Links.cut,back_setCell,back_setBack_ne ht]

/-- What followed the removed node remembers the cell before it. -/
theorem back_cut_self : (m.cut t e v).back t=e := by
  rw [Links.cut,back_setCell,back_setBack_self]

/-- The other queues do not see that a node is taken out. -/
theorem Holds.cut_other {q' : Q} (h : Holds m lists) (ht : Owns lists q t) (he : Owns lists q e)
    (hne : q'≠q) : Lists (m.cut t e v) q' (lists q') := by
  have hout : ∀ u w,Owns lists q' u → Owns lists q w → u≠w := fun u w hu hw heq =>
    hne (h.owner_unique hu (heq ▸ hw))
  refine ⟨(h.queue q').hangs.congr (fun u hu => cell_cut_ne (hout u e (mem_cells hu) he)) fun y hy =>
    back_cut_ne (hout _ t (.inr ⟨y,hy,rfl⟩) ht),?_,?_⟩
  · rw [cell_cut_ne (hout _ e (owns_ends fun _ hy => hy) he),(h.queue q').stop]
  · rw [back_cut_ne (hout _ t (.inl rfl) ht),(h.queue q').last]

/-- The queue that loses the node. -/
theorem Lists.cut (h : Lists m q (a++x::b)) (hd : (a++x::b).Nodup) :
    Lists (m.cut (follower q b) (ends (.head q) a) b.head?) q (a++b) := by
  obtain ⟨hh,hs,hl⟩ := h
  rw [ends_append] at hs hl
  obtain ⟨ha,-,-,hb⟩ := hangs_append.mp hh
  obtain ⟨hda,hdb,hab⟩ := List.nodup_append.mp hd
  have hout : ∀ z∈b,ends (.head q) a≠.next z := fun z hz =>
    ends_ne_next fun hmem => hab z hmem z (List.mem_cons_of_mem x hz) rfl
  have hfollow : ∀ y∈a,(.next y : Slot Q N)≠follower q b := by
    intro y hy heq
    cases b with
    | nil => cases heq
    | cons z b => exact hab y hy z (by simp) (Slot.next.inj heq)
  have hfront : Hangs (m.cut (follower q b) (ends (.head q) a) b.head?) (.head q) a :=
    ha.congr (fun u hu => cell_cut_ne fun heq =>
      ends_notMem_cells (fun y _ => Slot.head_ne_next q y) hda (heq ▸ hu)) fun y hy =>
        back_cut_ne (hfollow y hy)
  cases b with
  | nil => exact ⟨by rwa [List.append_nil],by rw [List.append_nil]; exact cell_cut_self,
      by rw [List.append_nil]; exact back_cut_self⟩
  | cons y b =>
    obtain ⟨-,-,hrest⟩ := hb
    have hy : ∀ z∈b,(.next z : Slot Q N)≠.next y := fun z hz heq =>
      (List.nodup_cons.mp (List.nodup_cons.mp hdb).2).1 (Slot.next.inj heq ▸ hz)
    refine ⟨hangs_append.mpr ⟨hfront,cell_cut_self,back_cut_self,?_⟩,?_,?_⟩
    · refine hrest.congr (fun u hu => cell_cut_ne fun heq => ?_) fun z hz => back_cut_ne (hy z hz)
      rcases mem_cells hu with rfl|⟨z,hz,rfl⟩
      · exact hout y List.mem_cons_self heq.symm
      · exact hout z (List.mem_cons_of_mem y hz) heq.symm
    · rw [ends_append,ends,cell_cut_ne]
      · exact hs
      · rcases ends_cases (.next y : Slot Q N) b with ⟨-,he⟩|⟨z,hz,he⟩
        · exact fun heq => hout y List.mem_cons_self (heq.symm.trans he)
        · exact fun heq => hout z (List.mem_cons_of_mem y hz) (heq.symm.trans he)
    · rw [ends_append,follower,back_cut_ne (Slot.head_ne_next q y)]
      exact hl

/-- The lists after `x` is taken out of one. -/
theorem Holds.cut (h : Holds m lists) (hq : lists q=a++x::b) :
    Holds (m.cut (follower q b) (ends (.head q) a) b.head?) (Function.update lists q (a++b)) := by
  have hsub : ∀ y∈a++b,y∈lists q := by
    intro y hy
    rw [hq]
    exact List.mem_append.mpr ((List.mem_append.mp hy).imp_right (List.mem_cons_of_mem x))
  refine h.update (Lists.cut (hq ▸ h.queue q) (hq ▸ h.nodup q)) (fun q' => h.cut_other
    (owns_follower fun y hy => hsub y (List.mem_append_right a hy))
    (owns_ends fun y hy => hsub y (List.mem_append_left b hy))) ?_ fun q' y hy hy' =>
      h.apart q' q y hy' (hsub y hy)
  exact (hq ▸ h.nodup q).sublist ((List.sublist_cons_self x b).append_left a)

end Cut

end Updates

end DycoCoroutine.LinkedQueue
