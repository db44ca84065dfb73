import DycoCoroutine.Waitgroup

/-!
# Waits on a wait group are never missed

Each list of a wait group has exactly the nodes of the waits that are blocked for
its target, whatever the order in which waits come, expire and leave, and however
often the hash table is resized. The number of finished members grows by one at a
time, so that it meets every target; a counter is written to when it does. As long
as the table can tell the members and none is counted twice, the same holds for the
whole group, whose size may grow in the meantime. After two resizes the table finds
the id 0, which need not be that of a member.
-/

namespace DycoCoroutine.WaitgroupLists

open ScheduleState RunInvariant EventFd Waitgroup

variable {w t : World} {a : Act} {v : Waiter}

/-- A wait for a positive target that returns a positive value returns the
target. -/
def meetsTarget : Reply → Prop
  | .wait _ target timeout ret _ _ => 0<target → timeout≠0 → 0<ret → ret=target
  | _ => True

/-- The waits, their counters and their nodes. -/
structure Listed (w : World) : Prop where
  /-- The lists are in the table of the targets. -/
  mapped : w.group.Mapped
  /-- The descriptor of a blocked wait is a counter. -/
  counters : ∀ v∈w.blocked,∃ n,w.fds v.notifyfd=some (.event n)
  /-- Blocked waits have different descriptors. -/
  distinct : (w.blocked.map Waiter.notifyfd).Nodup
  /-- A coroutine is blocked in one wait. -/
  callers : (w.blocked.map Waiter.co).Nodup
  /-- The nodes of a list have different descriptors. -/
  lists : ∀ T,(w.group.sublist T).Nodup
  /-- A list has the nodes of the blocked waits for its target. -/
  nodes : ∀ T fd,fd∈w.group.sublist T ↔ ∃ v∈w.blocked,v.notifyfd=fd ∧ max v.target 0=max T 0
  /-- The counter of a wait for a positive target is written to when the target
  is reached, and not again. -/
  targets : ∀ v∈w.blocked,0<v.target →
    w.fds v.notifyfd=some (.event 0) ∧ (w.group.finished : ℤ)<v.target ∨
    w.fds v.notifyfd=some (.event v.target.toNat) ∧ v.target≤w.group.finished
  /-- `finished` is an `int`. -/
  bounded : w.group.finished ≤ intMax
  /-- What waits for positive targets have returned. -/
  answers : ∀ r∈w.log,meetsTarget r

/-- Time passes. -/
theorem Listed.tick (h : Listed w) : Listed (tick w) :=
  ⟨h.mapped,h.counters,h.distinct,h.callers,h.lists,h.nodes,h.targets,h.bounded,h.answers⟩

/-- A call returns. -/
theorem Listed.reply {r : Reply} (h : Listed w) (hr : meetsTarget r) : Listed (reply w r) := by
  refine ⟨h.mapped,h.counters,h.distinct,h.callers,h.lists,h.nodes,h.targets,h.bounded,
    fun r' hr' => ?_⟩
  rcases List.mem_append.mp hr' with hr'|hr'
  · exact h.answers r' hr'
  · rw [List.mem_singleton.mp hr']
    exact hr

/-- A wait that returns at once meets its target. -/
theorem meetsTarget_of_prompt {r : Reply} (h : Prompt w r) : meetsTarget r := by
  cases r with
  | wait co target timeout ret since till =>
    intro hpos htimeout hret
    exact (h.2.2 htimeout (by omega)).2 hpos
  | _ => trivial

/-- A number that is not in use belongs to no blocked wait. -/
theorem Listed.ne_of_unused {fd : ℤ} (h : Listed w) (hv : v∈w.blocked)
    (hfd : w.fds fd=none ∨ w.fds fd=some .other) : v.notifyfd≠fd := by
  rintro rfl
  obtain ⟨n,hn⟩ := h.counters v hv
  simp [hn] at hfd

/-- The node of a blocked wait is in the list of its target and in no other. -/
theorem Listed.mem_sublist {T : ℤ} (h : Listed w) (hv : v∈w.blocked) :
    v.notifyfd∈w.group.sublist T ↔ max v.target 0=max T 0 := by
  rw [h.nodes]
  constructor
  · rintro ⟨u,hu,he,hT⟩
    rw [← List.inj_on_of_nodup_map h.distinct hu hv he]
    exact hT
  · intro hT
    exact ⟨v,hv,rfl,hT⟩

/-- A descriptor that belongs to no wait changes. -/
theorem Listed.elsewhere {fd : ℤ} {d : Option Desc} (h : Listed w)
    (hfd : w.fds fd=none ∨ w.fds fd=some .other) :
    Listed {w with fds := Function.update w.fds fd d} := by
  have hsame : ∀ v∈w.blocked,Function.update w.fds fd d v.notifyfd=w.fds v.notifyfd :=
    fun v hv => Function.update_of_ne (h.ne_of_unused hv hfd) ..
  refine ⟨h.mapped,fun v hv => ?_,h.distinct,h.callers,h.lists,h.nodes,fun v hv => ?_,h.bounded,
    h.answers⟩
  · dsimp only
    rw [hsame v hv]
    exact h.counters v hv
  · dsimp only
    rw [hsame v hv]
    exact h.targets v hv

/-- Whether the next counted `dyco_waitgroup_done` writes to a blocked wait. -/
def reaches (w : World) (v : Waiter) : Bool :=
  if 0<v.target then v.target=w.group.finished+1 else w.group.finished+1=w.group.totSize

/-- A counted `dyco_waitgroup_done` adds to the counters of the waits that it
reaches and to no other. -/
theorem Listed.notified {fds : Table} {n : ℕ} (h : Listed w) (hu : Notified w fds)
    (hv : v∈w.blocked) (hn : w.fds v.notifyfd=some (.event n)) :
    fds v.notifyfd=some (.event (if reaches w v then n+(w.group.finished+1) else n)) := by
  obtain ⟨u₁,h₁,h₂⟩ := hu
  have htarget := h.mem_sublist (T := (w.group.finished+1 : ℤ)) hv
  have hwhole := h.mem_sublist (T := 0) hv
  by_cases hpos : 0<v.target
  · have hout : v.notifyfd∉w.group.sublist 0 := fun hm => by
      have := hwhole.mp hm
      omega
    have hlast : fds v.notifyfd=u₁ v.notifyfd := by
      split_ifs at h₂
      · exact eventfdWriteEach_of_not_mem h₂ hout
      · rw [h₂]
    rw [hlast]
    by_cases hT : v.target=w.group.finished+1
    · rw [eventfdWriteEach_of_mem h₁ (h.lists _) (htarget.mpr (by rw [hT])) hn]
      simp [reaches,hT,show (0 : ℤ)<w.group.finished+1 by omega]
    · rw [eventfdWriteEach_of_not_mem h₁ (fun hm => hT (by have := htarget.mp hm; omega)),hn]
      simp [reaches,hpos,hT]
  · have hfirst : u₁ v.notifyfd=some (.event n) := by
      rw [eventfdWriteEach_of_not_mem h₁ (fun hm => by have := htarget.mp hm; omega)]
      exact hn
    split_ifs at h₂ with hall
    · rw [eventfdWriteEach_of_mem h₂ (h.lists _) (hwhole.mpr (by omega)) hfirst]
      simp [reaches,hpos,hall]
    · rw [h₂,hfirst]
      simp [reaches,hpos,hall]

/-- A member is counted. -/
theorem Listed.counted {fds : Table} (h : Listed w) (hlt : w.group.finished < intMax)
    (hu : Notified w fds) : Listed {w with
      group := {w.group with finished := w.group.finished+1}
      fds := fds} := by
  refine ⟨h.mapped,fun v hv => ?_,h.distinct,h.callers,h.lists,h.nodes,fun v hv hpos => ?_,hlt,
    h.answers⟩
  · obtain ⟨n,hn⟩ := h.counters v hv
    exact ⟨_,h.notified hu hv hn⟩
  · dsimp only
    push_cast
    rcases h.targets v hv hpos with ⟨hn,hT⟩|⟨hn,hT⟩
    · rw [h.notified hu hv hn]
      by_cases heq : v.target=w.group.finished+1
      · right
        have hto : v.target.toNat=w.group.finished+1 := by omega
        rw [hto,heq]
        simp [reaches,heq,show (0 : ℤ)<w.group.finished+1 by omega]
      · left
        refine ⟨?_,by omega⟩
        simp [reaches,hpos,heq]
    · right
      rw [h.notified hu hv hn]
      refine ⟨?_,by omega⟩
      simp [reaches,hpos,show v.target≠w.group.finished+1 by omega]

/-- A list has the nodes of the blocked waits, and one more wait is blocked. -/
theorem Listed.entered {c target timeout fd : ℤ} (h : Listed w) (hfd : w.fds fd=none)
    (hc : c∉w.blocked.map Waiter.co) (htarget : 0<target → (w.group.finished : ℤ)<target) :
    Listed (enterSublist w c target timeout fd) := by
  obtain ⟨l,hperm,hlink⟩ := h.mapped.link target fd
  have hne : ∀ v∈w.blocked,v.notifyfd≠fd := fun v hv => h.ne_of_unused hv (.inl hfd)
  have hother : ∀ v∈w.blocked,openEvent w.fds fd v.notifyfd=w.fds v.notifyfd :=
    fun v hv => Function.update_of_ne (hne v hv) ..
  have hnew : openEvent w.fds fd fd=some (.event 0) := Function.update_self ..
  have hself : ∀ T,max T 0=max target 0 → (w.group.link target fd).sublist T=l :=
    fun T hT => (sublist_congr hT).trans hlink.self
  have hnodes : ∀ T x,x∈(w.group.link target fd).sublist T ↔
      x=fd ∧ max target 0=max T 0 ∨ x∈w.group.sublist T := by
    intro T x
    by_cases hT : max T 0=max target 0
    · rw [hself T hT,hperm.mem_iff,List.mem_cons,sublist_congr hT]
      simp [hT]
    · rw [hlink.others T hT]
      simp [Ne.symm hT]
  refine ⟨hlink.mapped,fun v hv => ?_,?_,?_,fun T => ?_,fun T x => ?_,fun v hv hpos => ?_,
    hlink.finished.trans_le h.bounded,h.answers⟩
  · rcases List.mem_append.mp hv with hv|hv
    · obtain ⟨n,hn⟩ := h.counters v hv
      exact ⟨n,(hother v hv).trans hn⟩
    · rw [List.mem_singleton.mp hv]
      exact ⟨0,hnew⟩
  · have hfresh : fd∉w.blocked.map Waiter.notifyfd := fun hm => by
      obtain ⟨v,hv,he⟩ := List.mem_map.mp hm
      exact hne v hv he
    simpa [enterSublist,List.nodup_append,h.distinct] using hfresh
  · simpa [enterSublist,List.nodup_append,h.callers] using hc
  · show ((w.group.link target fd).sublist T).Nodup
    by_cases hT : max T 0=max target 0
    · rw [hself T hT,hperm.nodup_iff]
      refine List.nodup_cons.mpr ⟨fun hm => ?_,h.lists _⟩
      obtain ⟨v,hv,he,-⟩ := (h.nodes _ _).mp hm
      exact hne v hv he
    · rw [hlink.others T hT]
      exact h.lists T
  · show x∈(w.group.link target fd).sublist T ↔ _
    rw [hnodes,h.nodes]
    simp only [enterSublist,List.mem_append,List.mem_singleton]
    constructor
    · rintro (⟨rfl,hT⟩|⟨v,hv,he,hT⟩)
      · exact ⟨_,.inr rfl,rfl,hT⟩
      · exact ⟨v,.inl hv,he,hT⟩
    · rintro ⟨v,hv|rfl,he,hT⟩
      · exact .inr ⟨v,hv,he,hT⟩
      · exact .inl ⟨he.symm,hT⟩
  · show openEvent w.fds fd v.notifyfd=_ ∧ ((w.group.link target fd).finished : ℤ)<_ ∨
      openEvent w.fds fd v.notifyfd=_ ∧ _≤((w.group.link target fd).finished : ℤ)
    rw [hlink.finished]
    rcases List.mem_append.mp hv with hv|hv
    · rw [hother v hv]
      exact h.targets v hv hpos
    · rw [List.mem_singleton.mp hv] at hpos ⊢
      exact .inl ⟨hnew,htarget hpos⟩

/-- A blocked wait has left: its node is unlinked, which leaves the group `g`, and its
descriptor is closed. -/
def withdraw (w : World) (v : Waiter) (g : Group) : World :=
  {w with
    group := g
    fds := close w.fds v.notifyfd
    blocked := w.blocked.filter fun u => u.notifyfd≠v.notifyfd}

/-- The list of a wait is without its node. -/
def Withdrawn (w : World) (v : Waiter) (g : Group) : Prop :=
  Relisted w.group v.target ((w.group.sublist v.target).erase v.notifyfd) g

/-- A resumed wait finds its node. -/
theorem Listed.afterYield (h : Listed w) (hv : v∈w.blocked) :
    ∃ g,Withdrawn w v g ∧ afterYield w v=.ok (Waitgroup.reply (withdraw w v g)
      (.wait v.co v.target v.timeout (result w v) v.since w.clock)) := by
  have hm := (h.mem_sublist hv).mpr (rfl : max v.target 0=max v.target 0)
  obtain ⟨g,hunlink,hg⟩ := h.mapped.unlink (List.ne_nil_of_mem hm) v.notifyfd
  refine ⟨g,hg,?_⟩
  unfold Waitgroup.afterYield
  rw [hunlink]
  simp only [decide_eq_true hm]
  rfl

/-- What a resumed wait for a positive target returns. -/
theorem Listed.meetsTarget_result (h : Listed w) (hv : v∈w.blocked) :
    meetsTarget (.wait v.co v.target v.timeout (result w v) v.since w.clock) := by
  intro hpos _ hret
  rcases h.targets v hv hpos with ⟨hn,-⟩|⟨hn,hT⟩
  · simp [result,eventfdRead,hn] at hret
  · have hbound := h.bounded
    have hsmall : v.target.toNat<2^31 := by
      unfold intMax at hbound
      omega
    rw [result,eventfdRead_eq_some hn (by omega)]
    dsimp only
    rw [toInt_of_lt hsmall]
    omega

/-- The waits that stay blocked when one leaves. -/
theorem Listed.withdraw {g : Group} (h : Listed w) (hv : v∈w.blocked) (hg : Withdrawn w v g) :
    Listed (withdraw w v g) := by
  have hkept : ∀ u∈(WaitgroupLists.withdraw w v g).blocked,u∈w.blocked ∧ u.notifyfd≠v.notifyfd :=
    fun u hu => by simpa using List.mem_filter.mp hu
  have hother : ∀ u∈(WaitgroupLists.withdraw w v g).blocked,
      (WaitgroupLists.withdraw w v g).fds u.notifyfd=w.fds u.notifyfd :=
    fun u hu => Function.update_of_ne (hkept u hu).2 ..
  have hself : ∀ T,max T 0=max v.target 0 →
      g.sublist T=(w.group.sublist v.target).erase v.notifyfd :=
    fun T hT => (sublist_congr hT).trans hg.self
  refine ⟨hg.mapped,fun u hu => ?_,?_,?_,fun T => ?_,fun T x => ?_,fun u hu hpos => ?_,
    hg.finished.trans_le h.bounded,h.answers⟩
  · rw [hother u hu]
    exact h.counters u (hkept u hu).1
  · exact h.distinct.sublist (List.filter_sublist.map _)
  · exact h.callers.sublist (List.filter_sublist.map _)
  · show (g.sublist T).Nodup
    by_cases hT : max T 0=max v.target 0
    · rw [hself T hT]
      exact (h.lists _).erase _
    · rw [hg.others T hT]
      exact h.lists T
  · show x∈g.sublist T ↔ ∃ u∈List.filter _ _,_
    simp only [List.mem_filter,decide_eq_true_eq]
    by_cases hT : max T 0=max v.target 0
    · rw [hself T hT,(h.lists _).mem_erase_iff,h.nodes]
      constructor
      · rintro ⟨hx,u,hu,rfl,hu'⟩
        exact ⟨u,⟨hu,hx⟩,rfl,hu'.trans hT.symm⟩
      · rintro ⟨u,⟨hu,hne⟩,rfl,hu'⟩
        exact ⟨hne,u,hu,rfl,hu'.trans hT⟩
    · rw [hg.others T hT,h.nodes]
      constructor
      · rintro ⟨u,hu,rfl,hu'⟩
        refine ⟨u,⟨hu,fun he => hT ?_⟩,rfl,hu'⟩
        rw [← List.inj_on_of_nodup_map h.distinct hu hv he]
        exact hu'.symm
      · rintro ⟨u,⟨hu,-⟩,rfl,hu'⟩
        exact ⟨u,hu,rfl,hu'⟩
  · rw [hother u hu]
    show _ ∧ (g.finished : ℤ)<_ ∨ _ ∧ _≤(g.finished : ℤ)
    rw [hg.finished]
    exact h.targets u (hkept u hu).1 hpos

/-- The lists do not depend on the table of the members. -/
theorem Listed.admitted (h : Listed w) (cid : ℤ) (n : ℕ) : Listed {admitted w cid with
    group := {(admitted w cid).group with totSize := n}} :=
  ⟨h.mapped,h.counters,h.distinct,h.callers,h.lists,h.nodes,h.targets,h.bounded,h.answers⟩

/-- Nor on the record of who is done. -/
theorem Listed.recordDone (h : Listed w) (c : ℤ) : Listed (recordDone w c) :=
  ⟨h.mapped,h.counters,h.distinct,h.callers,h.lists,h.nodes,h.targets,h.bounded,h.answers⟩

/-- Every step keeps the waits listed. -/
theorem Listed.effect (h : Listed w) (he : Effect w a t) : Listed t := by
  cases he with
  | answered hr => exact h.reply (meetsTarget_of_prompt hr)
  | @renewed cid _ => exact (h.admitted cid w.group.totSize).reply trivial
  | @joined cid _ => exact (h.admitted cid (w.group.totSize+1)).reply trivial
  | @ignored c _ _ _ => exact (h.recordDone c).reply trivial
  | @counted c _ _ _ _ hlt hu => exact ((h.counted hlt hu).recordDone c).reply trivial
  | entered hfd hc _ htarget => exact h.entered hfd hc htarget
  | left hv _ ht =>
    obtain ⟨g,hg,hafter⟩ := h.afterYield hv
    cases hafter.symm.trans ht
    exact (h.withdraw hv hg).reply (h.meetsTarget_result hv)
  | elsewhere hfd => exact h.elsewhere hfd

/-- A member is counted once, and a wait for the whole group that was not written
to has members to wait for. -/
structure Tallied (w : World) : Prop where
  /-- `cid_set` has the members. -/
  set : ∃ m : HashTable.FiniteMap Unit,
    HashTableMap.Represents HashTableMap.nonzero w.group.cidSet m ∧
      ∀ id,(m.lookup id).isSome ↔ id∈w.members
  /-- `tot_size` is the number of members. -/
  size : w.group.totSize=w.members.card
  /-- `finished` is the number of coroutines that are done. -/
  finished : w.group.finished=w.doneBy.card
  /-- They are members. -/
  members : w.doneBy⊆w.members
  /-- The group is not complete while a wait for it is not written to. -/
  whole : ∀ v∈w.blocked,v.target≤0 → w.fds v.notifyfd=some (.event 0) →
    w.group.finished<w.group.totSize

/-- No more members are counted than there are. -/
theorem Tallied.finished_le (h : Tallied w) : w.group.finished ≤ w.group.totSize := by
  rw [h.size,h.finished]
  exact Finset.card_le_card h.members

/-- A complete group is one whose members are all done. -/
theorem Tallied.complete_iff (h : Tallied w) :
    w.group.finished=w.group.totSize ↔ w.members⊆w.doneBy := by
  constructor
  · intro hall
    have hcard : w.members.card≤w.doneBy.card := by
      rw [← h.size,← h.finished,hall]
    exact (Finset.eq_of_subset_of_card_le h.members hcard).ge
  · intro hsub
    exact le_antisymm h.finished_le (by rw [h.size,h.finished]; exact Finset.card_le_card hsub)

/-- The table tells who is a member. -/
theorem Tallied.contains_iff {c : ℤ} (h : Tallied w) (hc : c≠0) :
    HashTable.htableContains w.group.cidSet c=1 ↔ c∈w.members := by
  obtain ⟨m,hrep,hm⟩ := h.set
  rw [hrep.contains (decide_eq_true hc),← hm]
  split_ifs with hsome <;> simp [hsome]

/-- What an addition does to the table: it returns 1 for a new member, and has the members
afterwards. -/
theorem Tallied.inserted {cid : ℤ} (h : Tallied w) (hd : distinguished w (.add cid)=true) :
    ((HashTable.htableInsert w.group.cidSet cid none).1=1 ↔ cid∉w.members) ∧
    ∃ m : HashTable.FiniteMap Unit,HashTableMap.Represents HashTableMap.nonzero
      (HashTable.htableInsert w.group.cidSet cid none).2 m ∧
      ∀ id,(m.lookup id).isSome ↔ id∈insert cid w.members := by
  simp only [distinguished,Bool.and_eq_true,Bool.or_eq_true,Bool.not_eq_true',
    decide_eq_true_eq] at hd
  obtain ⟨⟨hzero,hone⟩,hroom⟩ := hd
  obtain ⟨m,hrep,hm⟩ := h.set
  have hp : HashTableMap.nonzero cid=true := decide_eq_true hzero
  refine ⟨?_,_,hrep.insert hp hone rfl none,fun id => ?_⟩
  · rw [← hm,hrep.lookup hp]
    cases hheld : HashTableMap.held w.group.cidSet cid with
    | none =>
      have hret := (hrep.insert_of_none hp hone hheld none fun hfull => ⟨?_,rfl⟩).1
      · simp [hret]
      · rw [(HashTableMap.resizes_insert hheld).mpr hfull] at hroom
        simpa using hroom
    | some e => simp [(hrep.insert_of_some hp hheld none).1]
  · rw [Finset.mem_insert]
    by_cases hid : id=cid
    · subst hid
      simp [AList.lookup_insert]
    · rw [AList.lookup_insert_ne hid,hm]
      simp [hid]

/-- A call that changes neither table nor counters. -/
theorem Tallied.of_same (h : Tallied w) (hset : t.group.cidSet=w.group.cidSet)
    (hsize : t.group.totSize=w.group.totSize) (hfin : t.group.finished=w.group.finished)
    (hmem : t.members=w.members) (hdone : t.doneBy=w.doneBy)
    (hwhole : ∀ v∈t.blocked,v.target≤0 → t.fds v.notifyfd=some (.event 0) →
      w.group.finished<w.group.totSize) : Tallied t := by
  refine ⟨?_,?_,?_,?_,fun v hv hT hn => ?_⟩
  · rw [hset,hmem]
    exact h.set
  · rw [hsize,hmem,h.size]
  · rw [hfin,hdone,h.finished]
  · rw [hdone,hmem]
    exact h.members
  · rw [hfin,hsize]
    exact hwhole v hv hT hn

/-- A coroutine that is no member is not recorded. -/
theorem recordDone_of_not_mem {c : ℤ} (hc : c∉w.members) : recordDone w c=w := by
  unfold recordDone
  rw [if_neg hc]

/-- Every step in which no member is done twice and the table can tell the members keeps
the count. -/
theorem Tallied.effect (h : Tallied w) (hl : Listed w) (hc : doneOnce w a=true)
    (hd : distinguished w a=true) (he : Effect w a t) : Tallied t := by
  cases he with
  | answered => exact h.of_same rfl rfl rfl rfl rfl h.whole
  | @renewed cid hret =>
    obtain ⟨hnew,hset⟩ := h.inserted hd
    have hmem : cid∈w.members := by
      by_contra hout
      exact hret (hnew.mpr hout)
    refine ⟨hset,?_,h.finished,h.members.trans (Finset.subset_insert _ _),h.whole⟩
    show w.group.totSize=(insert cid w.members).card
    rw [Finset.insert_eq_of_mem hmem,h.size]
  | @joined cid hret =>
    obtain ⟨hnew,hset⟩ := h.inserted hd
    refine ⟨hset,?_,h.finished,h.members.trans (Finset.subset_insert _ _),fun v hv hT hn => ?_⟩
    · show w.group.totSize+1=(insert cid w.members).card
      rw [Finset.card_insert_of_notMem (hnew.mp hret),h.size]
    · exact (h.whole v hv hT hn).trans (Nat.lt_succ_self _)
  | @ignored c context hcontext hno =>
    have hzero : c≠0 := by simpa [distinguished,hcontext] using hd
    rw [recordDone_of_not_mem fun hm => hno ((h.contains_iff hzero).mpr hm)]
    exact h.of_same rfl rfl rfl rfl rfl h.whole
  | @counted c context fds hcontext hin hlt hu =>
    have hzero : c≠0 := by simpa [distinguished,hcontext] using hd
    have hmem := (h.contains_iff hzero).mp hin
    have hfresh : c∉w.doneBy := by simpa [doneOnce,hcontext,hmem] using hc
    have hdone : (if c∈w.members then insert c w.doneBy else w.doneBy)=insert c w.doneBy :=
      if_pos hmem
    refine ⟨h.set,h.size,?_,?_,fun v hv hT hn => ?_⟩
    · show w.group.finished+1=(if c∈w.members then insert c w.doneBy else w.doneBy).card
      rw [hdone,Finset.card_insert_of_notMem hfresh,h.finished]
    · show (if c∈w.members then insert c w.doneBy else w.doneBy)⊆w.members
      rw [hdone]
      exact Finset.insert_subset hmem h.members
    · show w.group.finished+1<w.group.totSize
      obtain ⟨n,hold⟩ := hl.counters v hv
      have hnew := hl.notified hu hv hold
      have hboth := hnew.symm.trans hn
      simp only [reaches,if_neg (show ¬0<v.target by omega),decide_eq_true_eq,Option.some.injEq,
        Desc.event.injEq] at hboth
      split_ifs at hboth with hall
      have hbefore := h.whole v hv hT (by rw [hold,hboth])
      omega
  | @entered c target timeout fd _ _ hfd _ hgroup _ =>
    obtain ⟨l,-,hlink⟩ := hl.mapped.link target fd
    refine h.of_same hlink.cidSet hlink.totSize hlink.finished rfl rfl fun v hv hT hn => ?_
    rcases List.mem_append.mp hv with hv|hv
    · have hsame : openEvent w.fds fd v.notifyfd=w.fds v.notifyfd :=
        Function.update_of_ne (hl.ne_of_unused hv (.inl hfd)) ..
      exact h.whole v hv hT (hsame.symm.trans hn)
    · rw [List.mem_singleton.mp hv] at hT
      exact lt_of_le_of_ne h.finished_le (hgroup hT)
  | @left _ _ v hv _ ht =>
    obtain ⟨g,hg,hafter⟩ := hl.afterYield hv
    cases hafter.symm.trans ht
    refine h.of_same hg.cidSet hg.totSize hg.finished rfl rfl fun u hu hT hn => ?_
    obtain ⟨hu,hne⟩ := List.mem_filter.mp hu
    have hsame : close w.fds v.notifyfd u.notifyfd=w.fds u.notifyfd :=
      Function.update_of_ne (by simpa using hne) ..
    exact h.whole u hu hT (hsame.symm.trans hn)
  | @elsewhere _ fd d hfd =>
    refine h.of_same rfl rfl rfl rfl rfl fun v hv hT hn => h.whole v hv hT ?_
    have hsame : Function.update w.fds fd d v.notifyfd=w.fds v.notifyfd :=
      Function.update_of_ne (hl.ne_of_unused hv hfd) ..
    exact hsame.symm.trans hn

/-- Time passes. -/
theorem Tallied.tick (h : Tallied w) : Tallied (tick w) :=
  ⟨h.set,h.size,h.finished,h.members,h.whole⟩

/-- A new group has no waits. -/
theorem listed_newGroup (suggestSize : ℤ) : Listed (newGroup suggestSize) := by
  have hmapped : (newGroup suggestSize).group.Mapped :=
    ⟨∅,HashTableMap.represents_htableInit _ _⟩
  have hempty : ∀ T,(newGroup suggestSize).group.sublist T=[] := by
    intro T
    unfold Group.sublist
    split_ifs with hT
    · rfl
    · have hfind : HashTable.htableFind (newGroup suggestSize).group.targetSublistMap T=none := rfl
      rw [hfind]
  refine ⟨hmapped,?_,?_,?_,fun T => ?_,fun T fd => ?_,?_,?_,?_⟩
  · simp [newGroup]
  · simp [newGroup]
  · simp [newGroup]
  · simp [hempty]
  · rw [hempty]
    simp [newGroup]
  · simp [newGroup]
  · simp [newGroup,dycoWaitgroupCreate]
  · simp [newGroup]

/-- A new group has no members. -/
theorem tallied_newGroup (suggestSize : ℤ) : Tallied (newGroup suggestSize) := by
  refine ⟨⟨∅,HashTableMap.represents_htableInit _ _,fun id => ?_⟩,rfl,rfl,Finset.Subset.refl _,?_⟩
  · simp [newGroup]
  · simp [newGroup]

/-- No member is done twice, and the table can tell the members. -/
def Orderly (w : World) (a : Act) : Prop := doneOnce w a=true ∧ distinguished w a=true

instance (w : World) (a : Act) : Decidable (Orderly w a) := inferInstanceAs (Decidable (_ ∧ _))

/-- The waits are listed and the members counted in every orderly run. -/
theorem tallied_of_runs {suggestSize : ℤ} (h : Runs step Orderly (newGroup suggestSize) w) :
    Listed w ∧ Tallied w := by
  refine h.invariant (fun w => Listed w ∧ Tallied w)
    ⟨listed_newGroup suggestSize,tallied_newGroup suggestSize⟩ ?_
  rintro w a t ⟨hl,ht⟩ ⟨hc,hd⟩ ha
  obtain ⟨u,he,rfl⟩ := step_effect ha
  exact ⟨(hl.effect he).tick,(ht.effect hl hc hd he).tick⟩

/-- A wait has left its list, its descriptor is closed, and all other waits are as
they were. -/
def Unlinked (w : World) (v : Waiter) (t : World) : Prop :=
  t.group.sublist v.target=(w.group.sublist v.target).erase v.notifyfd ∧
  (∀ T,max T 0≠max v.target 0 → t.group.sublist T=w.group.sublist T) ∧
  t.fds=close w.fds v.notifyfd ∧ v∉t.blocked ∧
  ∀ u∈w.blocked,u≠v → u∈t.blocked ∧ u.notifyfd∈t.group.sublist u.target

/-- A blocked wait can be resumed, and leaves. -/
theorem Listed.resume (h : Listed w) (hv : v∈w.blocked) :
    ∃ t,step w (.resume v.co)=some (.ok t) ∧ Unlinked w v t := by
  have hfind : w.blocked.find? (fun u => u.co=v.co)=some v := by
    cases hf : w.blocked.find? fun u => u.co=v.co with
    | none => exact absurd (List.find?_eq_none.mp hf v hv) (by simp)
    | some u =>
      have hco : u.co=v.co := by simpa using List.find?_some hf
      rw [List.inj_on_of_nodup_map h.callers (List.mem_of_find?_eq_some hf) hv hco]
  obtain ⟨g,hg,hafter⟩ := h.afterYield hv
  have hw := h.withdraw hv hg
  refine ⟨_,by rw [step,act,hfind,Option.map_some,hafter]; rfl,hg.self,hg.others,rfl,?_,?_⟩
  · intro hm
    simpa using (List.mem_filter.mp hm).2
  · intro u hu hne
    have hfd : u.notifyfd≠v.notifyfd :=
      fun he => hne (List.inj_on_of_nodup_map h.distinct hu hv he)
    have hkept : u∈(WaitgroupLists.withdraw w v g).blocked :=
      List.mem_filter.mpr ⟨hu,by simpa using hfd⟩
    exact ⟨hkept,(hw.mem_sublist hkept).mpr rfl⟩

/-- In every run in which no member calls `dyco_waitgroup_done` twice and the hash table
can tell the members, a blocked wait that was not written to still waits for something;
a resumed wait finds its own node, and unlinks this node only; and a wait for a positive
target that returns a positive value returns its target. -/
theorem waits_never_missed {suggestSize : ℤ} (h : Runs step Orderly (newGroup suggestSize) w) :
    (∀ v∈w.blocked,∃ n,w.fds v.notifyfd=some (.event n) ∧
      (n=0 → (0<v.target → (w.group.finished : ℤ)<v.target) ∧
        (v.target≤0 → w.group.finished<w.group.totSize))) ∧
    (∀ v∈w.blocked,v.notifyfd∈w.group.sublist v.target ∧
      ∃ t,step w (.resume v.co)=some (.ok t) ∧ Unlinked w v t) ∧
    ∀ (c T timeout ret : ℤ) (since till : ℕ),.wait c T timeout ret since till∈w.log → 0<T →
      timeout≠0 → 0<ret → ret=T := by
  obtain ⟨hl,ht⟩ := tallied_of_runs h
  refine ⟨fun v hv => ?_,fun v hv => ⟨(hl.mem_sublist hv).mpr rfl,hl.resume hv⟩,?_⟩
  · obtain ⟨n,hn⟩ := hl.counters v hv
    refine ⟨n,hn,fun hzero => ⟨fun hpos => ?_,fun hneg => ?_⟩⟩
    · subst hzero
      rcases hl.targets v hv hpos with ⟨-,hT⟩|⟨hn',-⟩
      · exact hT
      · rw [hn] at hn'
        simp only [Option.some.injEq,Desc.event.injEq] at hn'
        omega
    · subst hzero
      exact ht.whole v hv hneg hn
  · intro c T timeout ret since till hr
    exact hl.answers _ hr

/-- Two waits for one target and one for the whole group, of which one expires
and one is written to and resumed. -/
def twoTargets : List Act :=
  [.add 1,.add 2,.wait 7 .symmetric 1 (-1) 5 true,.wait 8 .symmetric 1 10 6 true,
    .wait 9 .symmetric 0 (-1) 4 true,.resume 8,.done 1 .symmetric,.resume 7]

/-- The table of the members is resized with the second one. -/
theorem waits_never_missed_twoTargets :
    ∃ w,replayWhile step Orderly (newGroup 1) twoTargets=some w ∧ w.group.cidSet.width=2 ∧
      w.blocked=[⟨9,0,-1,4,4⟩] ∧ w.fds 4=some (.event 0) ∧ .wait 7 1 (-1) 1 2 7∈w.log ∧
      .wait 8 1 10 (-1) 3 5∈w.log ∧ w.group.finished<w.group.totSize := by
  have h : (replayWhile step Orderly (newGroup 1) twoTargets).map
      (fun w => (w.group.cidSet.width,w.blocked,w.fds 4,decide (.wait 7 1 (-1) 1 2 7∈w.log ∧
        .wait 8 1 10 (-1) 3 5∈w.log)))=
      some (2,[⟨9,0,-1,4,4⟩],some (.event 0),true) := by decide +kernel
  obtain ⟨w,hw,hq⟩ := Option.map_eq_some_iff.mp h
  simp only [Prod.mk.injEq,decide_eq_true_eq] at hq
  obtain ⟨hwidth,hb,hn,h7,h8⟩ := hq
  obtain ⟨n,hn',hwait⟩ :=
    (waits_never_missed (runs_of_replayWhile hw)).1 ⟨9,0,-1,4,4⟩ (by simp [hb])
  have hzero : n=0 := by
    have he := hn'.symm.trans hn
    simpa using he
  exact ⟨w,hw,hwidth,hb,hn,h7,h8,(hwait hzero).2 (by decide)⟩

/-- Six members are added, which resizes the table twice, and are done, and so is a
coroutine with the cid 0. Then another one waits for the whole group. -/
def doneByZero : List Act :=
  [.add 1,.add 2,.add 3,.add 4,.add 5,.add 6,.done 1 .symmetric,.done 2 .symmetric,
    .done 3 .symmetric,.done 4 .symmetric,.done 5 .symmetric,.done 6 .symmetric,
    .done 0 .symmetric,.wait 9 .symmetric 0 (-1) 5 true]

/-- The coroutine 0, which is no member, is counted: `finished` has passed `tot_size`, and
the wait is blocked with a counter that nobody writes to. -/
theorem nonmember_counted :
    ∃ w,Runs step (fun w a => genuine w a=true ∧ doneOnce w a=true) (newGroup 1) w ∧
      w.members={1,2,3,4,5,6} ∧ w.group.totSize=6 ∧ w.group.finished=7 ∧
      w.blocked=[⟨9,0,-1,5,13⟩] ∧ w.fds 5=some (.event 0) := by
  have h : (replayWhile step (fun w a => genuine w a=true ∧ doneOnce w a=true) (newGroup 1)
      doneByZero).map (fun w => (decide (w.members={1,2,3,4,5,6}),
        (w.group.totSize,w.group.finished),w.blocked,w.fds 5))=
      some (true,(6,7),[⟨9,0,-1,5,13⟩],some (.event 0)) := by decide +kernel
  obtain ⟨w,hw,hq⟩ := Option.map_eq_some_iff.mp h
  simp only [Prod.mk.injEq,decide_eq_true_eq] at hq
  obtain ⟨hmem,⟨hsize,hfin⟩,hb,hn⟩ := hq
  exact ⟨w,runs_of_replayWhile hw,hmem,hsize,hfin,hb,hn⟩

end DycoCoroutine.WaitgroupLists
