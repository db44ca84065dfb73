import DycoCoroutine.SleepTree

/-!
# Deadlines that collide

The loop of `schedule_sched_sleep` raises `sleep_usecs` until RB_INSERT finds no coroutine
with the same key. Its condition never changes, so that only the tree can end it: a window
of keys one longer than the tree has a free one. The loop stops at the first, and the tree
keeps distinct keys. Phase A takes the first sleeper off the tree round by round, hence it
wakes them in the order of their deadlines and passes over none.
-/

namespace DycoCoroutine.SleepCollision

open ScheduleState ScheduleOps ScheduleRun ScheduleControl CoroutineStanding ScheduleEffect
open CoroutineHops ScheduleAbort KeyedSet RunInvariant

variable {s t : Sched} {c e : Co} {d k fuel now : ℕ} {readings : List ℕ}

/-! ## The loop -/

/-- The assignment before the loop. -/
def setDeadline (s : Sched) (c : Co) (deadline : ℕ) : Sched :=
  s.setCo c fun r => {r with sleepUsecs := deadline}

/-- The loop of `schedule_sched_sleep`, if it ends within `fuel` rounds. `sleep_usecs` has
64 bits. -/
def insertLoop (c : Co) : ℕ → Sched → Option Sched
  | 0,_ => none
  | fuel+1,s =>
    match tryPlace s.key c s.sleeping with
    | (some _,_) =>
      insertLoop c fuel (s.setCo c fun r => {r with sleepUsecs := (r.sleepUsecs+1)%2^64})
    | (none,sleeping) =>
      some (({s with sleeping := sleeping}).setCo c fun r =>
        {r with statusSleeping := true,flagsExpired := false})

/-- The coroutine is in the tree under the first free key from `d` on, and nothing else has
changed there. -/
structure Inserted (s : Sched) (c : Co) (d : ℕ) (t : Sched) : Prop where
  least : IsLeast {k | d≤k ∧ ∀ e∈s.sleeping,s.key e≠k} (t.key c)
  near : t.key c-d ≤ s.sleeping.length
  members : ∀ e,e∈t.sleeping ↔ e=c ∨ e∈s.sleeping
  keys : ∀ e≠c,t.key e=s.key e
  ordered : Ordered t.key t.sleeping
  distinct : ∀ e∈t.sleeping,∀ f∈t.sleeping,t.key e=t.key f → e=f

/-- The deadline that was written. -/
theorem key_setDeadline_self (s : Sched) (c : Co) (k : ℕ) : (setDeadline s c k).key c=k := by
  simp [setDeadline,Sched.key]

/-- The deadlines of the sleepers stay. -/
theorem key_setDeadline (hc : c∉s.sleeping) (he : e∈s.sleeping) :
    (setDeadline s c k).key e=s.key e := by
  have hne : e≠c := fun h => hc (h ▸ he)
  simp [setDeadline,Sched.key,hne]

/-- A key in use is raised by one. -/
theorem insertLoop_used (hc : c∉s.sleeping) (hk : k+1<2^64) (h : ∃ e∈s.sleeping,s.key e=k) :
    insertLoop c (fuel+1) (setDeadline s c k)=insertLoop c fuel (setDeadline s c (k+1)) := by
  obtain ⟨e,he,hek⟩ := h
  rw [insertLoop,tryPlace,key_setDeadline_self]
  cases hf : find (setDeadline s c k).key k (setDeadline s c k).sleeping with
  | none =>
    refine absurd ?_ (find_eq_none.mp hf e he)
    rw [key_setDeadline hc he,hek]
  | some f =>
    show insertLoop c fuel ((setDeadline s c k).setCo c _)=_
    rw [setDeadline,Sched.setCo_setCo]
    simp only [Nat.mod_eq_of_lt hk]
    rfl

/-- A free key ends the loop. -/
theorem insertLoop_unused (hc : c∉s.sleeping)
    (hk : firstUnused s.key s.sleeping (s.sleeping.length+1) d=k) :
    insertLoop c (fuel+1) (setDeadline s c k)=some (setTimer s c d) := by
  have hfind : find (setDeadline s c k).key k (setDeadline s c k).sleeping=none := by
    refine find_eq_none.mpr fun e he => ?_
    rw [key_setDeadline hc he,← hk]
    exact firstUnused_unused s.sleeping d e he
  rw [insertLoop,tryPlace,key_setDeadline_self,hfind]
  have hkey : (setDeadline s c k).key=(s.setCo c fun r =>
      {r with sleepUsecs := k,statusSleeping := true,flagsExpired := false}).key := by
    funext e
    by_cases he : e=c <;> simp [setDeadline,Sched.key,he]
  simp only [hkey]
  rw [setTimer,hk]
  simp [setDeadline,Sched.setCo]

/-- From `k` on the loop ends at the first free key of `d`, if it lies `n` above. -/
theorem insertLoop_eq {n : ℕ} (hc : c∉s.sleeping) (hd : d≤k)
    (hk : firstUnused s.key s.sleeping (s.sleeping.length+1) d=k+n) (hwrap : k+n<2^64) :
    insertLoop c (n+1+fuel) (setDeadline s c k)=some (setTimer s c d) := by
  -- The distance to the free key falls in every round, since all keys below it are in use.
  induction n generalizing k with
  | zero =>
    rw [Nat.zero_add,Nat.add_comm]
    exact insertLoop_unused hc hk
  | succ n ih =>
    have hused : ∃ e∈s.sleeping,s.key e=k := by
      refine used_of_lt_firstUnused s.sleeping (s.sleeping.length+1) d k hd ?_
      omega
    rw [show n+1+1+fuel=n+1+fuel+1 by omega,insertLoop_used hc (by omega) hused]
    exact ih (by omega) (by omega) (by omega)

/-- The timer gets the first unused deadline and its place in the order. -/
theorem inserted_setTimer (ho : Ordered s.key s.sleeping) (hc : c∉s.sleeping) (d : ℕ) :
    Inserted s c d (setTimer s c d) := by
  obtain ⟨hframe,-⟩ := setTimer_spec hc d
  have hself : (setTimer s c d).key c=firstUnused s.key s.sleeping (s.sleeping.length+1) d := by
    simp [setTimer,Sched.key]
  have hordered := hframe.ordered ho
  refine ⟨?_,?_,fun e => ?_,fun e he => ?_,hordered,fun e he f hf => ?_⟩
  · rw [hself]
    exact isLeast_firstUnused s.sleeping d
  · rw [hself]
    exact Nat.sub_le_iff_le_add'.mpr (firstUnused_le s.sleeping d)
  · simp [setTimer]
  · simp [setTimer,Sched.key,he]
  · exact hordered.eq_of_key_eq he hf

/-- One round more than there are sleepers is enough, unless all keys up to 2^64 are in use. -/
theorem insertLoop_ends (hc : c∉s.sleeping)
    (hfree : ∃ k,d≤k ∧ k<2^64 ∧ ∀ e∈s.sleeping,s.key e≠k) (hfuel : s.sleeping.length<fuel) :
    insertLoop c fuel (setDeadline s c d)=some (setTimer s c d) := by
  obtain ⟨k,hdk,hk,hunused⟩ := hfree
  have hleast : IsLeast {k | d≤k ∧ ∀ e∈s.sleeping,s.key e≠k} _ := isLeast_firstUnused s.sleeping d
  have hnear : firstUnused s.key s.sleeping (s.sleeping.length+1) d≤d+s.sleeping.length :=
    firstUnused_le s.sleeping d
  obtain ⟨n,hn⟩ := Nat.exists_eq_add_of_le hleast.1.1
  have hwrap := (hleast.2 ⟨hdk,hunused⟩).trans_lt hk
  obtain ⟨rest,rfl⟩ := Nat.exists_eq_add_of_le (show n+1≤fuel by omega)
  exact insertLoop_eq hc le_rfl hn (hn ▸ hwrap)

/-- `schedule_sched_sleep` sets the timer that the loop finds. -/
theorem insertLoop_schedSleep {msecs : ℤ} (hc : c∉s.sleeping) (hpos : 0 < msecs)
    (hfree : ∃ k,now-s.birth+msecs.toNat*1000%2^32≤k ∧ k<2^64 ∧
      ∀ e∈(dropKey s c).sleeping,(dropKey s c).key e≠k)
    (hfuel : (dropKey s c).sleeping.length<fuel) :
    insertLoop c fuel (setDeadline (dropKey s c) c (now-s.birth+msecs.toNat*1000%2^32))=
      some (scheduleSchedSleep s c msecs now) := by
  have hsub : (dropKey s c).sleeping⊆s.sleeping := by
    unfold dropKey
    split
    · exact List.erase_subset
    · exact List.Subset.refl _
  rw [insertLoop_ends (fun h => hc (hsub h)) hfree hfuel,scheduleSchedSleep,
    if_neg (not_le.mpr hpos)]

/-! ## Phase A -/

/-- Phase A with a clock reading for each round, as far as they go: the coroutines that it
wakes, one after the other, and the state that it leaves. -/
def phaseALoop : List ℕ → Sched → Except Fault (List Co×Sched)
  | [],s => .ok ([],s)
  | now::rest,s =>
    match scheduleGetExpired (s.setClock now) now with
    | none => (phaseA s now).map fun t => ([],t)
    | some (c,_) => do
      let t ← phaseA s now
      let (woken,u) ← phaseALoop rest t
      pure (c::woken,u)

/-- Sleepers are woken one by one in the order of their deadlines and go to the ready queue
of their urgency. When phase A is over, none of those who are left is due. -/
structure Probed (s : Sched) (readings : List ℕ) (woken : List Co) (t : Sched) : Prop where
  increasing : woken.Pairwise fun a b => s.key a<s.key b
  /-- Nobody with an earlier deadline is left. -/
  sleepers : s.sleeping=woken++t.sleeping
  keys : t.key=s.key
  due : List.Forall₂ (fun c now => s.key c≤now-s.birth) woken (readings.take woken.length)
  urgent : t.urgentReady=s.urgentReady++woken.filter fun c => (s.co c).flagsUrgent
  ready : t.ready=s.ready++woken.filter fun c => !(s.co c).flagsUrgent
  /-- All readings were used, or phase B begins because the next reading is too early. -/
  finished : woken.length=readings.length ∨ ∃ now,readings[woken.length]?=some now ∧
    (∀ c∈t.sleeping,now-s.birth<s.key c) ∧ t.pc=.queue true t.urgentReady.getLast? 0

/-- Nobody is due if the first sleeper is not. -/
theorem lt_key_of_getExpired (ho : Ordered s.key s.sleeping)
    (h : scheduleGetExpired s now=none) : ∀ e∈s.sleeping,now-s.birth<s.key e := by
  unfold scheduleGetExpired at h
  split at h
  next hl => simp [hl]
  next c rest hl =>
    split_ifs at h with hk
    rw [hl] at ho ⊢
    have hhead : now-s.birth<s.key c := not_le.mp hk
    have hrest := (List.pairwise_cons.mp ho).1
    exact List.forall_mem_cons.mpr ⟨hhead,fun e he => hhead.trans (hrest e he)⟩

/-- Only the READY bit of a record changes when a coroutine is queued. -/
theorem proj_insertReady {β : Type*} (p : Coroutine → β)
    (h : ∀ r,p {r with statusReady := true}=p r) (s : Sched) (c e : Co) :
    p ((insertReady s c).co e)=p (s.co e) := by
  have hset := Sched.proj_setCo p h s c e
  unfold insertReady
  split_ifs <;> exact hset

/-- What `insertReady` appends, and to which queue. -/
theorem queues_insertReady (s : Sched) (c : Co) :
    (insertReady s c).urgentReady=s.urgentReady++[c].filter (fun e => (s.co e).flagsUrgent) ∧
    (insertReady s c).ready=s.ready++[c].filter (fun e => !(s.co e).flagsUrgent) ∧
    (insertReady s c).sleeping=s.sleeping ∧ (insertReady s c).birth=s.birth ∧
    (insertReady s c).clock=s.clock := by
  unfold insertReady
  split_ifs with hu <;> simp [hu]

/-- Only two bits of a record change when a timer expires. -/
theorem proj_getExpired {β : Type*} (p : Coroutine → β)
    (hp : ∀ r,p {r with statusSleeping := false,flagsExpired := true}=p r)
    (h : scheduleGetExpired s now=some (c,t)) (e : Co) : p (t.co e)=p (s.co e) := by
  obtain ⟨rest,-,-,rfl⟩ := getExpired_cases h
  exact Sched.proj_setCo p hp _ c e

/-- What taking an expired sleeper leaves. -/
theorem queues_getExpired (h : scheduleGetExpired s now=some (c,t)) :
    s.sleeping=c::t.sleeping ∧ s.key c≤now-s.birth ∧ t.urgentReady=s.urgentReady ∧
      t.ready=s.ready ∧ t.birth=s.birth ∧ t.clock=s.clock := by
  obtain ⟨rest,hsleeping,hdue,rfl⟩ := getExpired_cases h
  refine ⟨?_,hdue,rfl,rfl,rfl,rfl⟩
  show s.sleeping=c::s.sleeping.erase c
  rw [hsleeping,List.erase_cons_head]

/-- A round of phase A that wakes `c`. -/
structure Wakes (s : Sched) (now : ℕ) (c : Co) (t : Sched) : Prop where
  sleeping : s.sleeping=c::t.sleeping
  due : s.key c≤now-s.birth
  key : t.key=s.key
  birth : t.birth=s.birth
  clock : t.clock=now
  pc : t.pc=s.pc
  life : ∀ e,(t.co e).life=(s.co e).life
  flagsUrgent : ∀ e,(t.co e).flagsUrgent=(s.co e).flagsUrgent
  urgent : t.urgentReady=s.urgentReady++[c].filter fun e => (s.co e).flagsUrgent
  ready : t.ready=s.ready++[c].filter fun e => !(s.co e).flagsUrgent

/-- An expired sleeper is queued by its urgency. -/
theorem wakes_of_getExpired (h : scheduleGetExpired (s.setClock now) now=some (c,t)) :
    Wakes s now c (insertReady t c) := by
  obtain ⟨hsleeping,hdue,hturgent,htready,htbirth,htclock⟩ := queues_getExpired h
  obtain ⟨hurgent,hready,hsame,hbirth,hclock⟩ := queues_insertReady t c
  have hflag := proj_getExpired Coroutine.flagsUrgent (fun _ => rfl) h
  have hpc : (insertReady t c).pc=(s.setClock now).pc :=
    pc_eq (control_insertReady.trans (control_getExpired h))
  refine ⟨by rw [hsame]; exact hsleeping,hdue,?_,hbirth.trans htbirth,hclock.trans htclock,hpc,
    fun e => ?_,fun e => ?_,?_,?_⟩
  · funext e
    exact (proj_insertReady Coroutine.sleepUsecs (fun _ => rfl) t c e).trans
      (proj_getExpired Coroutine.sleepUsecs (fun _ => rfl) h e)
  · exact (proj_insertReady Coroutine.life (fun _ => rfl) t c e).trans
      (proj_getExpired Coroutine.life (fun _ => rfl) h e)
  · exact (proj_insertReady Coroutine.flagsUrgent (fun _ => rfl) t c e).trans (hflag e)
  · rw [hurgent,hturgent]
    simp only [hflag]
    rfl
  · rw [hready,htready]
    simp only [hflag]
    rfl

/-- Without an expired sleeper phase A is over. -/
theorem phaseA_of_none (h : scheduleGetExpired (s.setClock now) now=none) :
    phaseA s now=.ok (startPhase (s.setClock now) true) := by
  unfold phaseA
  dsimp only
  rw [h]

/-- An expired sleeper is queued and phase A goes on. -/
theorem phaseA_of_some (h : scheduleGetExpired (s.setClock now) now=some (c,t))
    (hl : (s.co c).life≠.freed) : phaseA s now=.ok (insertReady t c) := by
  unfold phaseA
  dsimp only
  rw [h]
  exact if_neg hl

/-- Phase A goes on with the sleepers that are left. -/
theorem Wakes.probed {u : Sched} {woken : List Co} {rest : List ℕ} (h : Wakes s now c t)
    (ho : Ordered s.key s.sleeping) (hrest : Probed t rest woken u) :
    Probed s (now::rest) (c::woken) u := by
  have hkeys := hrest.keys.trans h.key
  rw [h.sleeping] at ho
  obtain ⟨hfirst,-⟩ := List.pairwise_cons.mp ho
  obtain ⟨hincreasing,hsleepers,-,hdue,hurgent,hready,hfinished⟩ := hrest
  simp only [h.key,h.birth,h.flagsUrgent] at hincreasing hdue hurgent hready hfinished
  refine ⟨?_,?_,hkeys,?_,?_,?_,?_⟩
  · refine List.pairwise_cons.mpr ⟨fun e he => hfirst e ?_,hincreasing⟩
    rw [hsleepers]
    exact List.mem_append_left _ he
  · rw [h.sleeping,hsleepers]
    rfl
  · exact .cons h.due hdue
  · rw [hurgent,h.urgent,List.append_assoc,← List.filter_append]
    rfl
  · rw [hready,h.ready,List.append_assoc,← List.filter_append]
    rfl
  · simpa using hfinished

/-- Phase A goes through, and wakes the sleepers in order. -/
theorem phaseALoop_probed (ho : Ordered s.key s.sleeping)
    (hlive : ∀ e∈s.sleeping,(s.co e).life≠.freed) (readings : List ℕ) :
    ∃ woken t,phaseALoop readings s=.ok (woken,t) ∧ Probed s readings woken t := by
  induction readings generalizing s with
  | nil => exact ⟨[],s,rfl,.nil,rfl,rfl,.nil,by simp,by simp,.inl rfl⟩
  | cons now rest ih =>
    rw [phaseALoop]
    cases hg : scheduleGetExpired (s.setClock now) now with
    | none =>
      -- The first sleeper is not due, so that phase B begins.
      have hleft := lt_key_of_getExpired (s := s.setClock now) ho hg
      refine ⟨[],startPhase (s.setClock now) true,?_,.nil,rfl,rfl,.nil,?_,?_,?_⟩
      · rw [phaseA_of_none hg]
        rfl
      · exact (List.append_nil _).symm
      · exact (List.append_nil _).symm
      · exact .inr ⟨now,rfl,hleft,rfl⟩
    | some p =>
      obtain ⟨c,t⟩ := p
      have hwakes := wakes_of_getExpired hg
      have hmem : ∀ e∈(insertReady t c).sleeping,e∈s.sleeping := by
        rw [hwakes.sleeping]
        exact fun e => List.mem_cons_of_mem c
      have hc : c∈s.sleeping := hwakes.sleeping ▸ List.mem_cons_self
      have ho' : Ordered (insertReady t c).key (insertReady t c).sleeping := by
        rw [hwakes.sleeping] at ho
        rw [hwakes.key]
        exact (List.pairwise_cons.mp ho).2
      obtain ⟨woken,u,hloop,hprobed⟩ := ih ho' fun e he => by
        rw [hwakes.life]
        exact hlive e (hmem e he)
      refine ⟨c::woken,u,?_,hwakes.probed ho hprobed⟩
      rw [phaseA_of_some hg (hlive c hc)]
      show (phaseALoop rest (insertReady t c)>>=fun x => pure (c::x.1,x.2))=_
      rw [hloop]
      rfl

/-- Phase A is a sequence of steps of the scheduler when the clock does not go back. -/
theorem runs_of_phaseALoop {woken : List Co} (hp : s.pc=.phaseA)
    (hclock : (s.clock::readings).IsChain (·≤·)) (h : phaseALoop readings s=.ok (woken,t)) :
    Runs step (fun _ _ => True) s t := by
  suffices hgen : ∀ r,Runs step (fun _ _ => True) r s → Runs step (fun _ _ => True) r t from
    hgen s .refl
  induction readings generalizing s woken with
  | nil =>
    cases h
    exact fun _ => id
  | cons now rest ih =>
    obtain ⟨hnow,hrest⟩ := List.isChain_cons_cons.mp hclock
    have hstep : step s (.expire now)=some (phaseA s now) := if_pos ⟨hp,hnow⟩
    rw [phaseALoop] at h
    intro r hr
    cases hg : scheduleGetExpired (s.setClock now) now with
    | none =>
      rw [hg] at h
      obtain ⟨u,hu,hut⟩ := map_eq_ok h
      cases hut
      exact .tail hr trivial (hstep.trans (congrArg some hu))
    | some p =>
      rw [hg] at h
      obtain ⟨u,hu,h⟩ := bind_eq_ok h
      obtain ⟨⟨w,v⟩,hv,h⟩ := bind_eq_ok h
      cases h
      have hrun : Runs step (fun _ _ => True) r u :=
        .tail hr trivial (hstep.trans (congrArg some hu))
      rcases phaseA_cases hu with ⟨hnone,-⟩|⟨c,t,ht,-,rfl⟩
      · cases hg.symm.trans hnone
      · have hwakes := wakes_of_getExpired ht
        exact ih (hwakes.pc.trans hp) (hwakes.clock.symm ▸ hrest) hv r hrun

/-! ## Results -/

/-- What the loop and phase A rely on holds in every disciplined run until an abort. -/
theorem tree_of_reachable (h : Reachable Disciplined s) (ha : s.status≠.aborted) :
    Ordered s.key s.sleeping ∧ (∀ e∈s.sleeping,(s.co e).life≠.freed) ∧
      ∀ c,Running s c → c∉s.sleeping := by
  have huntil : UntilAbort (fun _ => True) (fun _ => True) s :=
    untilAbort_of_reachable (fun _ _ => id) (fun _ _ _ _ => trivial)
      (fun _ _ _ _ _ _ _ _ => trivial) (fun _ _ _ _ _ _ _ => trivial)
      (fun _ _ _ _ _ _ _ _ => trivial) h
  rcases huntil with ⟨hs,-⟩|⟨hst,-⟩
  · refine ⟨hs.ordered,fun e he => ?_,fun c hr => ?_⟩
    · have hlife := ((hs.settled e).asleep (by simpa [standing] using he)).1
      rw [show (s.co e).life=.live from hlife]
      decide
    · simpa [standing] using (hs.running hr).2.1.asleep
  · exact absurd hst ha

/-- For every tree and every coroutine outside of it the loop ends within one round more than
there are sleepers, unless all keys from `d` up to 2^64 are in use. It leaves the coroutine
under the least free key, and everything else as it was. Phase A wakes the sleepers of every
tree in the order of their deadlines and passes over none. -/
theorem collision_loop_minimal (ho : Ordered s.key s.sleeping) (hc : c∉s.sleeping)
    (hfree : ∃ k,d≤k ∧ k<2^64 ∧ ∀ e∈s.sleeping,s.key e≠k) :
    (∃ t,(∀ fuel,s.sleeping.length<fuel → insertLoop c fuel (setDeadline s c d)=some t) ∧
      Inserted s c d t) ∧
    ∀ v readings,Ordered v.key v.sleeping → (∀ e∈v.sleeping,(v.co e).life≠.freed) →
      ∃ woken u,phaseALoop readings v=.ok (woken,u) ∧ Probed v readings woken u :=
  ⟨⟨setTimer s c d,fun _ => insertLoop_ends hc hfree,inserted_setTimer ho hc d⟩,
    fun _ readings hv hlive => phaseALoop_probed hv hlive readings⟩

/-- Three sleepers, two of them with neighbouring deadlines. -/
def crowded : Sched :=
  let sleeper (usecs : ℕ) (r : Coroutine) : Coroutine :=
    {r with life := .live,sleepUsecs := usecs,statusSleeping := true}
  let s := (((dycoScheduleCreate 1 0 4096 0).setCo 0 (sleeper 10)).setCo 1 (sleeper 11)).setCo 2
    (sleeper 13)
  {s with sleeping := [0,1,2]}

/-- A deadline of 10 becomes 12 behind sleepers at 10 and 11. -/
theorem collision_loop_minimal_crowded :
    (∃ t,insertLoop 3 4 (setDeadline crowded 3 10)=some t ∧ t.sleeping=[0,1,3,2] ∧ t.key 3=12 ∧
      Inserted crowded 3 10 t) ∧
    ∃ u,phaseALoop [10,11,12,13] crowded=.ok ([0,1],u) ∧ u.sleeping=[2] ∧
      Probed crowded [10,11,12,13] [0,1] u := by
  have ho : Ordered crowded.key crowded.sleeping := by
    unfold Ordered
    decide
  obtain ⟨⟨t,hloop,hinserted⟩,hphase⟩ := collision_loop_minimal (c := 3) (d := 10) ho (by decide)
    ⟨12,by decide,by decide,by decide⟩
  obtain ⟨woken,u,hrun,hprobed⟩ := hphase crowded [10,11,12,13] ho (by decide)
  have ht : (insertLoop 3 4 (setDeadline crowded 3 10)).map (fun t => (t.sleeping,t.key 3))=
      some ([0,1,3,2],12) := by decide
  have hu : (phaseALoop [10,11,12,13] crowded).map (fun p => (p.1,p.2.sleeping))=
      .ok ([0,1],[2]) := rfl
  rw [hloop 4 (by decide),Option.map_some,Option.some_inj,Prod.mk.injEq] at ht
  rw [hrun] at hu
  obtain ⟨rfl,hsleeping⟩ : woken=[0,1] ∧ u.sleeping=[2] := by simpa [Except.map] using hu
  exact ⟨⟨t,hloop 4 (by decide),ht.1,ht.2,hinserted⟩,u,hrun,hsleeping,hprobed⟩

end DycoCoroutine.SleepCollision
