import DycoCoroutine.LinkedQueue

/-!
# The tail queue macros

The macros TAILQ_* of `sys_queue.h` that the scheduler uses, over a memory in
which both queues of the scheduler share the field `ready_next`. The macros keep
the lists as long as a node is only inserted while it is in no queue, and only
removed from the queue it is in.
-/

namespace DycoCoroutine.SysQueue

open LinkedQueue

variable {Q N : Type*} [DecidableEq Q] [DecidableEq N]

/-- TAILQ_INIT -/
def tailqInit (m : Links Q N) (q : Q) : Links Q N :=
  (m.setCell (.head q) none).setBack (.head q) (.head q)

/-- TAILQ_INSERT_TAIL -/
def tailqInsertTail (m : Links Q N) (q : Q) (elm : N) : Links Q N :=
  let m := m.setCell (.next elm) none
  let m := m.setBack (.next elm) (m.back (.head q))
  let m := m.setCell (m.back (.head q)) (some elm)
  m.setBack (.head q) (.next elm)

/-- TAILQ_REMOVE -/
def tailqRemove (m : Links Q N) (q : Q) (elm : N) : Links Q N :=
  let m := match m.cell (.next elm) with
    | some y => m.setBack (.next y) (m.back (.next elm))
    | none => m.setBack (.head q) (m.back (.next elm))
  m.setCell (m.back (.next elm)) (m.cell (.next elm))

/-- TAILQ_EMPTY -/
def tailqEmpty (m : Links Q N) (q : Q) : Bool := (m.cell (.head q)).isNone

/-- TAILQ_FIRST -/
def tailqFirst (m : Links Q N) (q : Q) : Option N := m.cell (.head q)

/-- TAILQ_LAST reads the cell that `tqh_last` points to as a head: the address behind
it is that of the cell which points to the last node. -/
def tailqLast (m : Links Q N) (q : Q) : Option N := m.cell (m.back (m.back (.head q)))

variable {m : Links Q N} {lists : Q → List N} {q : Q} {x : N}

theorem tailqInit_lists (m : Links Q N) (q : Q) : Lists (tailqInit m q) q [] :=
  ⟨trivial,Function.update_self ..,Function.update_self ..⟩

theorem tailqInit_other {q' : Q} (h : Lists m q' []) (hq : q'≠q) : Lists (tailqInit m q) q' [] := by
  have hne : (.head q' : Slot Q N)≠.head q := fun heq => hq (Slot.head.inj heq)
  exact ⟨trivial,(Function.update_of_ne hne ..).trans h.stop,
    (Function.update_of_ne hne ..).trans h.last⟩

theorem tailqInsertTail_eq (h : Holds m lists) (q : Q) (x : N) :
    tailqInsertTail m q x=m.pushed q x (ends (.head q) (lists q)) := by
  simp only [tailqInsertTail,Links.pushed,back_setCell,
    back_setBack_ne (Slot.head_ne_next q x),(h.queue q).last]

/-- A node that is in no queue is put at the end of one. -/
theorem tailqInsertTail_holds (h : Holds m lists) (hx : ∀ q',x∉lists q') :
    Holds (tailqInsertTail m q x) (Function.update lists q (lists q++[x])) := by
  rw [tailqInsertTail_eq h]
  exact h.pushed hx

/-- A node is taken out of the queue it is in. -/
theorem tailqRemove_holds (h : Holds m lists) (hx : x∈lists q) :
    Holds (tailqRemove m q x) (Function.update lists q ((lists q).erase x)) := by
  obtain ⟨a,b,hq⟩ := List.append_of_mem hx
  have hd := h.nodup q
  rw [hq] at hd
  have hxa : x∉a := fun hmem => (List.nodup_append.mp hd).2.2 x hmem x List.mem_cons_self rfl
  have hxb : x∉b := (List.nodup_cons.mp (List.nodup_append.mp hd).2.1).1
  have herase : (lists q).erase x=a++b := by
    rw [hq,List.erase_append_right _ hxa,List.erase_cons_head]
  have hqueue := h.queue q
  rw [hq] at hqueue
  obtain ⟨-,-,hback,hrest⟩ := hangs_append.mp hqueue.hangs
  have heq : tailqRemove m q x=m.cut (follower q b) (ends (.head q) a) b.head? := by
    have hne : (.next x : Slot Q N)≠.head q := (Slot.head_ne_next q x).symm
    cases b with
    | nil =>
      have hstop : m.cell (.next x)=none := by
        have hs := hqueue.stop
        rwa [ends_append] at hs
      simp only [tailqRemove,hstop,hback,back_setBack_ne hne,cell_setBack]
      rfl
    | cons y b =>
      have hxy : (.next x : Slot Q N)≠.next y := fun heq => hxb (Slot.next.inj heq ▸ by simp)
      simp only [tailqRemove,hrest.1,hback,back_setBack_ne hxy,cell_setBack]
      rfl
  rw [heq,herase]
  exact h.cut hq

end DycoCoroutine.SysQueue
