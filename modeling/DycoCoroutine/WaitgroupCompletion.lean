import DycoCoroutine.WaitgroupLists

/-!
# What a wait for the whole group may report

A wait for the whole group learns through its counter that the group was
complete, and returns what the counter holds. The counter adds up what is written
before the wait is resumed. While no member calls `dyco_waitgroup_done` twice and the
hash table can tell the members, `finished` is the number of members that are done,
and such a wait returns only after a moment at which all were. While the group is also
not completed again before the wait is resumed, the returned number is the number of
members at that moment.
-/

namespace DycoCoroutine.WaitgroupCompletion

open ScheduleState RunInvariant EventFd Waitgroup WaitgroupLists

/-- A recorded moment between two times. -/
def During (w : World) (since till : ℕ) (q : Moment → Prop) : Prop :=
  ∃ m∈w.history,since ≤ m.time ∧ m.time≤till ∧ q m

/-- The group as it is now. -/
def now (w : World) : Moment := ⟨w.clock,w.group,w.members,w.doneBy⟩

/-- What is in the counter of a wait for the whole group, and what such a wait has
returned, was true of a moment of the call. -/
structure Vouched (p : Moment → ℕ → Prop) (w : World) : Prop where
  /-- The present is recorded. -/
  present : now w∈w.history
  /-- Calls were made in the past. -/
  begun : ∀ v∈w.blocked,v.since≤w.clock
  /-- The counter of a blocked wait. -/
  counters : ∀ v∈w.blocked,v.target≤0 → ∀ n,0<n → w.fds v.notifyfd=some (.event n) →
    During w v.since w.clock (p · n)
  /-- The waits that have returned, other than with a failure. -/
  answers : ∀ (c T timeout ret : ℤ) (since till : ℕ),.wait c T timeout ret since till∈w.log → T≤0 →
    timeout≠0 → ret≠-1 → ∃ n,ret=toInt n ∧ During w since till (p · n)

variable {w t : World} {a : Act} {v : Waiter} {p : Moment → ℕ → Prop} {q : Moment → Prop}

/-- Moments stay recorded. -/
theorem During.mono {since till till' : ℕ} (h : During w since till q) (ht : till≤till')
    (hh : ∀ m∈w.history,m∈t.history) : During t since till' q := by
  obtain ⟨m,hm,h₁,h₂,hq⟩ := h
  exact ⟨m,hh m hm,h₁,h₂.trans ht,hq⟩

theorem mem_history_tick {m : Moment} (hh : t.history=w.history) (hm : m∈w.history) :
    m∈(tick t).history := List.mem_append_left _ (hh.symm ▸ hm)

/-- A step after which the counters of the blocked waits are as they were. -/
theorem Vouched.of_same (h : Vouched p w) (hh : t.history=w.history) (hclock : t.clock=w.clock)
    (hblocked : ∀ v∈t.blocked,v.since≤w.clock ∧ (t.fds v.notifyfd=some (.event 0) ∨
      v∈w.blocked ∧ t.fds v.notifyfd=w.fds v.notifyfd))
    (hlog : ∀ (c T timeout ret : ℤ) (since till : ℕ),.wait c T timeout ret since till∈t.log →
      .wait c T timeout ret since till∈w.log ∨ (T≤0 → timeout≠0 → ret≠-1 →
        ∃ n,ret=toInt n ∧ During w since till (p · n))) : Vouched p (tick t) := by
  have hmem : ∀ m∈w.history,m∈(tick t).history := fun m hm => mem_history_tick hh hm
  refine ⟨List.mem_append_right _ (List.mem_singleton.mpr rfl),fun v hv => ?_,
    fun v hv hT n hn hc => ?_,fun c T timeout ret since till hr hT htimeout hret => ?_⟩
  · have hbegun := (hblocked v hv).1
    show v.since≤t.clock+1
    omega
  · show During (tick t) v.since (t.clock+1) _
    rcases (hblocked v hv).2 with hzero|⟨hv',hsame⟩
    · have he := hzero.symm.trans hc
      simp only [Option.some.injEq,Desc.event.injEq] at he
      omega
    · exact (h.counters v hv' hT n hn (hsame.symm.trans hc)).mono (by omega) hmem
  · rcases hlog c T timeout ret since till hr with hold|hnew
    · obtain ⟨n,hn,hd⟩ := h.answers c T timeout ret since till hold hT htimeout hret
      exact ⟨n,hn,hd.mono le_rfl hmem⟩
    · obtain ⟨n,hn,hd⟩ := hnew hT htimeout hret
      exact ⟨n,hn,hd.mono le_rfl hmem⟩

/-- One more call has returned. -/
theorem mem_log_reply {r r' : Reply} (h : r∈(reply w r').log) : r∈w.log ∨ r=r' := by
  rcases List.mem_append.mp h with h|h
  · exact .inl h
  · exact .inr (List.mem_singleton.mp h)

/-- A call other than a wait returns, and the counters are as they were. -/
theorem Vouched.unanswered {r : Reply} (h : Vouched p w) (hh : t.history=w.history)
    (hclock : t.clock=w.clock) (hblocked : t.blocked=w.blocked) (hfds : t.fds=w.fds)
    (hlog : t.log=w.log++[r])
    (hr : ∀ (c T timeout ret : ℤ) (since till : ℕ),.wait c T timeout ret since till≠r) :
    Vouched p (tick t) := by
  refine h.of_same hh hclock (fun v hv => ?_) fun c T timeout ret since till hm => ?_
  · rw [hblocked] at hv
    exact ⟨h.begun v hv,.inr ⟨hv,by rw [hfds]⟩⟩
  · rw [hlog] at hm
    rcases List.mem_append.mp hm with hm|hm
    · exact .inl hm
    · exact absurd (List.mem_singleton.mp hm) (hr c T timeout ret since till)

/-- What a wait returns at once is true of the present. -/
theorem Vouched.answered {r : Reply} (h : Vouched p w) (hl : Listed w) (hr : Prompt w r)
    (hnow : w.group.finished=w.group.totSize → p (now w) w.group.finished) :
    Vouched p (tick (reply w r)) := by
  refine h.of_same rfl rfl (fun v hv => ⟨h.begun v hv,.inr ⟨hv,rfl⟩⟩) ?_
  intro c T timeout ret since till hm
  rcases mem_log_reply hm with hm|rfl
  · exact .inl hm
  · right
    intro hT htimeout hret
    obtain ⟨hsince,htill,hprompt⟩ := hr
    obtain ⟨hall,hval⟩ := (hprompt htimeout hret).1 hT
    have hsmall := hl.bounded
    unfold intMax at hsmall
    refine ⟨w.group.finished,?_,now w,h.present,hsince.le,htill.ge,hnow hall⟩
    rw [hval,toInt_of_lt (by omega)]

/-- A counted `dyco_waitgroup_done` vouches for what it writes. -/
theorem Vouched.counted {c : ℤ} {fds : Table} (h : Vouched p w) (hl : Listed w)
    (hu : Notified w fds) (hcount : w.group.finished+1=w.group.totSize → ∀ v∈w.blocked,
      v.target≤0 → ∀ k,w.fds v.notifyfd=some (.event k) →
      p ⟨w.clock+1,{w.group with finished := w.group.finished+1},w.members,
        (recordDone w c).doneBy⟩ (k+(w.group.finished+1))) :
    Vouched p (tick (reply (recordDone {w with
      group := {w.group with finished := w.group.finished+1}
      fds := fds} c) (.done c 1))) := by
  refine ⟨List.mem_append_right _ (List.mem_singleton.mpr rfl),
    fun v hv => (h.begun v hv).trans (Nat.le_succ _),fun v hv hT n hn hc => ?_,
    fun c T timeout ret since till hr hT htimeout hret => ?_⟩
  · obtain ⟨k,hk⟩ := hl.counters v hv
    have he := (hl.notified hu hv hk).symm.trans hc
    simp only [reaches,if_neg (show ¬0<v.target by omega),decide_eq_true_eq,Option.some.injEq,
      Desc.event.injEq] at he
    have hbegun : v.since≤w.clock+1 := (h.begun v hv).trans (Nat.le_succ _)
    split_ifs at he with hall
    · refine ⟨_,List.mem_append_right _ (List.mem_singleton.mpr rfl),hbegun,le_rfl,?_⟩
      rw [← he]
      exact hcount hall v hv hT k hk
    · rw [he] at hk
      exact (h.counters v hv hT n hn hk).mono (Nat.le_succ _) fun m hm => mem_history_tick rfl hm
  · rcases mem_log_reply hr with hr|hr
    · obtain ⟨n,hn,hd⟩ := h.answers c T timeout ret since till hr hT htimeout hret
      exact ⟨n,hn,hd.mono le_rfl fun m hm => mem_history_tick rfl hm⟩
    · cases hr

/-- A resumed wait returns what its counter holds. -/
theorem Vouched.left {g : Group} (h : Vouched p w) (hv : v∈w.blocked) :
    Vouched p (tick (reply (withdraw w v g)
      (.wait v.co v.target v.timeout (result w v) v.since w.clock))) := by
  refine h.of_same rfl rfl (fun u hu => ?_) ?_
  · obtain ⟨hu,hne⟩ := List.mem_filter.mp hu
    exact ⟨h.begun u hu,.inr ⟨hu,Function.update_of_ne (by simpa using hne) ..⟩⟩
  · intro c T timeout ret since till hm
    rcases mem_log_reply hm with hm|he
    · exact .inl hm
    · right
      cases he
      intro hT _ hret
      unfold result eventfdRead at hret ⊢
      split at hret
      next count hc =>
        split at hc
        next hn =>
          split_ifs at hc with hzero
          cases hc
          exact ⟨count,rfl,h.counters v hv hT count (by omega) hn⟩
        · cases hc
      · exact absurd rfl hret

/-- Every step keeps the answers vouched for, if it does so where a wait returns
at once and where it completes the group. -/
theorem Vouched.effect (h : Vouched p w) (hl : Listed w) (he : Effect w a t)
    (hnow : w.group.finished=w.group.totSize → p (now w) w.group.finished)
    (hcount : ∀ c context,a=.done c context → context≠.outside →
      HashTable.htableContains w.group.cidSet c=1 → w.group.finished < intMax →
      w.group.finished+1=w.group.totSize → ∀ v∈w.blocked,v.target≤0 →
      ∀ k,w.fds v.notifyfd=some (.event k) →
      p ⟨w.clock+1,{w.group with finished := w.group.finished+1},w.members,
        (recordDone w c).doneBy⟩ (k+(w.group.finished+1))) : Vouched p (tick t) := by
  cases he with
  | answered hr => exact h.answered hl hr hnow
  | renewed => exact h.unanswered rfl rfl rfl rfl rfl (by rintro _ _ _ _ _ _ ⟨⟩)
  | joined => exact h.unanswered rfl rfl rfl rfl rfl (by rintro _ _ _ _ _ _ ⟨⟩)
  | ignored => exact h.unanswered rfl rfl rfl rfl rfl (by rintro _ _ _ _ _ _ ⟨⟩)
  | @counted c context _ hcontext hc hlt hu =>
    exact h.counted hl hu fun hall => hcount c context rfl hcontext hc hlt hall
  | @entered c target timeout fd _ _ hfd _ _ _ =>
    refine h.of_same rfl rfl (fun v hv => ?_) fun _ _ _ _ _ _ hm => .inl hm
    rcases List.mem_append.mp hv with hv|hv
    · exact ⟨h.begun v hv,.inr ⟨hv,Function.update_of_ne (hl.ne_of_unused hv (.inl hfd)) ..⟩⟩
    · rw [List.mem_singleton.mp hv]
      exact ⟨le_rfl,.inl (Function.update_self ..)⟩
  | left hv _ ht =>
    obtain ⟨g,-,hafter⟩ := hl.afterYield hv
    cases hafter.symm.trans ht
    exact h.left hv
  | elsewhere hfd =>
    refine h.of_same rfl rfl (fun v hv => ?_) fun _ _ _ _ _ _ hm => .inl hm
    exact ⟨h.begun v hv,.inr ⟨hv,Function.update_of_ne (hl.ne_of_unused hv hfd) ..⟩⟩

/-- Nothing was said in a new group. -/
theorem vouched_newGroup (suggestSize : ℤ) : Vouched p (newGroup suggestSize) := by
  constructor <;> simp [newGroup,now]

/-- A member that is counted was not done before, and is recorded. -/
theorem doneBy_of_counted {c : ℤ} {context : Context} (ht : Tallied w)
    (ho : Orderly w (.done c context)) (hcontext : context≠.outside)
    (hc : HashTable.htableContains w.group.cidSet c=1) :
    c∈w.members ∧ c∉w.doneBy ∧ (recordDone w c).doneBy=insert c w.doneBy := by
  have hzero : c≠0 := by simpa [distinguished,hcontext] using ho.2
  have hmem := (ht.contains_iff hzero).mp hc
  have hfresh : c∉w.doneBy := by simpa [doneOnce,hcontext,hmem] using ho.1
  exact ⟨hmem,hfresh,if_pos hmem⟩

/-- Every member is done. -/
def allDone (m : Moment) (_ : ℕ) : Prop := m.members⊆m.doneBy

/-- A wait is told that all members are done when they are. -/
theorem Vouched.allDone_step (h : Vouched allDone w) (hl : Listed w) (ht : Tallied w)
    (ho : Orderly w a) (he : Effect w a t) : Vouched allDone (tick t) := by
  refine h.effect hl he ht.complete_iff.mp ?_
  intro c context ha hcontext hc _ hall v hv hT k hk
  subst ha
  obtain ⟨hmem,hfresh,hdone⟩ := doneBy_of_counted ht ho hcontext hc
  have hcard : w.members.card≤(insert c w.doneBy).card := by
    rw [Finset.card_insert_of_notMem hfresh,← ht.size,← ht.finished,hall]
  show w.members⊆(recordDone w c).doneBy
  rw [hdone]
  exact (Finset.eq_of_subset_of_card_le (Finset.insert_subset hmem ht.members) hcard).ge

/-- In every run in which no member calls `dyco_waitgroup_done` twice and the hash table
can tell the members, `finished` is the number of members that have called it and never
exceeds `tot_size`, and a wait for the whole group returns without failure only after a
moment of the call at which every member was done. -/
theorem finished_counts_members {suggestSize : ℤ}
    (h : Runs step Orderly (newGroup suggestSize) w) :
    w.group.finished=w.doneBy.card ∧ w.doneBy⊆w.members ∧
    w.group.totSize=w.members.card ∧ w.group.finished≤w.group.totSize ∧
    (w.group.finished=w.group.totSize ↔ w.members⊆w.doneBy) ∧
    ∀ (c T timeout ret : ℤ) (since till : ℕ),.wait c T timeout ret since till∈w.log → T≤0 →
      timeout≠0 → ret≠-1 → During w since till fun m => m.members⊆m.doneBy := by
  have hinv : Listed w ∧ Tallied w ∧ Vouched allDone w := by
    refine h.invariant (fun w => Listed w ∧ Tallied w ∧ Vouched allDone w)
      ⟨listed_newGroup suggestSize,tallied_newGroup suggestSize,vouched_newGroup suggestSize⟩ ?_
    rintro w a t ⟨hl,ht,hv⟩ ho ha
    obtain ⟨u,he,rfl⟩ := step_effect ha
    exact ⟨(hl.effect he).tick,(ht.effect hl ho.1 ho.2 he).tick,hv.allDone_step hl ht ho he⟩
  obtain ⟨-,ht,hv⟩ := hinv
  refine ⟨ht.finished,ht.members,ht.size,ht.finished_le,ht.complete_iff,?_⟩
  intro c T timeout ret since till hr hT htimeout hret
  obtain ⟨_,_,hd⟩ := hv.answers c T timeout ret since till hr hT htimeout hret
  exact hd

/-- One of two members calls `dyco_waitgroup_done` three times. -/
def doneThrice : List Act :=
  [.add 1,.add 2,.wait 9 .symmetric 0 (-1) 5 true,.done 1 .symmetric,.done 1 .symmetric,.resume 9,
    .done 1 .symmetric]

/-- The second call completes the group and releases the wait, while the other
member was never done; the third one takes `finished` beyond `tot_size`. -/
theorem member_counted_twice :
    ∃ w,Runs step (fun w a => genuine w a=true ∧ distinguished w a=true) (newGroup 0) w ∧
      w.members={1,2} ∧ w.doneBy={1} ∧ w.group.totSize=2 ∧ w.group.finished=3 ∧
      .wait 9 0 (-1) 2 2 5∈w.log ∧ ¬During w 2 5 fun m => m.members⊆m.doneBy := by
  have h : (replayWhile step (fun w a => genuine w a=true ∧ distinguished w a=true) (newGroup 0)
      doneThrice).map (fun w => (decide (w.members={1,2}),decide (w.doneBy={1}),w.group.totSize,
        w.group.finished,decide (.wait 9 0 (-1) 2 2 5∈w.log),
        w.history.all fun m => m.time<2 || !decide (m.members⊆m.doneBy)))=
      some (true,true,2,3,true,true) := by decide +kernel
  obtain ⟨w,hw,hq⟩ := Option.map_eq_some_iff.mp h
  simp only [Prod.mk.injEq,decide_eq_true_eq] at hq
  obtain ⟨hset,hdone,hsize,hfin,hlog,hall⟩ := hq
  refine ⟨w,runs_of_replayWhile hw,hset,hdone,hsize,hfin,hlog,?_⟩
  rintro ⟨m,hm,hsince,-,hsub⟩
  have hno := List.all_eq_true.mp hall m hm
  simp [hsub,show ¬m.time<2 by omega] at hno

/-- Two members are done in turn while a wait for the group is blocked. -/
def doneInTurn : List Act :=
  [.add 1,.add 2,.wait 9 .symmetric 0 (-1) 5 true,.done 1 .symmetric,.done 2 .symmetric,.resume 9]

theorem finished_counts_members_doneInTurn :
    ∃ w,replayWhile step Orderly (newGroup 0) doneInTurn=some w ∧
      .wait 9 0 (-1) 2 2 5∈w.log ∧ w.group.finished=w.doneBy.card ∧
      During w 2 5 fun m => m.members⊆m.doneBy := by
  have h : (replayWhile step Orderly (newGroup 0) doneInTurn).map
      (fun w => decide (.wait 9 0 (-1) 2 2 5∈w.log))=some true := by decide +kernel
  obtain ⟨w,hw,hq⟩ := Option.map_eq_some_iff.mp h
  have hlog := of_decide_eq_true hq
  have hmain := finished_counts_members (runs_of_replayWhile hw)
  exact ⟨w,hw,hlog,hmain.1,hmain.2.2.2.2.2 9 0 (-1) 2 2 5 hlog le_rfl (by decide) (by decide)⟩

/-- The group is not completed while a wait for it was written to and not resumed
yet. -/
def completedOnce (w : World) : Act → Bool
  | .done c context => context=.outside || HashTable.htableContains w.group.cidSet c≠1 ||
    w.group.finished+1≠w.group.totSize ||
    w.blocked.all fun v => 0<v.target || (eventfdRead w.fds v.notifyfd).isNone
  | _ => true

/-- The group was complete with this number of finished members. -/
def completeWith (m : Moment) (n : ℕ) : Prop :=
  m.group.finished=m.group.totSize ∧ n=m.group.finished ∧ n=m.doneBy.card ∧
    m.doneBy⊆m.members ∧ n ≤ intMax

/-- A wait is told the size of the group when it is complete. -/
theorem Vouched.completeWith_step (h : Vouched completeWith w) (hl : Listed w) (ht : Tallied w)
    (ho : Orderly w a) (hc' : completedOnce w a=true) (he : Effect w a t) :
    Vouched completeWith (tick t) := by
  refine h.effect hl he (fun hall => ⟨hall,rfl,ht.finished,ht.members,hl.bounded⟩) ?_
  intro c context ha hcontext hc hlt hall v hv hT k hk
  subst ha
  have hunread : (eventfdRead w.fds v.notifyfd).isNone := by
    simp only [completedOnce,hcontext,hc,hall,not_true_eq_false,ne_eq,decide_false,
      Bool.false_or,List.all_eq_true] at hc'
    simpa [show ¬0<v.target by omega] using hc' v hv
  have hzero : k=0 := by simpa [eventfdRead,hk] using hunread
  obtain ⟨hmem,hfresh,hdone⟩ := doneBy_of_counted ht ho hcontext hc
  subst hzero
  rw [Nat.zero_add,hdone]
  refine ⟨hall,rfl,?_,Finset.insert_subset hmem ht.members,hlt⟩
  rw [Finset.card_insert_of_notMem hfresh,ht.finished]

/-- In every run in which no member calls `dyco_waitgroup_done` twice, the hash table can
tell the members and the group is not completed while a wait for it was written to and
not resumed, a positive value returned by a wait for the whole group is what `finished`
and `tot_size` were at a moment of the call, and the number of members that had called
`dyco_waitgroup_done` by then. -/
theorem wait_returns_group_size {suggestSize : ℤ}
    (h : Runs step (fun w a => Orderly w a ∧ completedOnce w a=true) (newGroup suggestSize) w) :
    ∀ (c T timeout ret : ℤ) (since till : ℕ),.wait c T timeout ret since till∈w.log → T≤0 →
      timeout≠0 → 0<ret → During w since till fun m => m.group.finished=m.group.totSize ∧
        ret=m.group.finished ∧ ret=m.doneBy.card ∧ m.doneBy⊆m.members := by
  have hinv : Listed w ∧ Tallied w ∧ Vouched completeWith w := by
    refine h.invariant (fun w => Listed w ∧ Tallied w ∧ Vouched completeWith w)
      ⟨listed_newGroup suggestSize,tallied_newGroup suggestSize,vouched_newGroup suggestSize⟩ ?_
    rintro w a t ⟨hl,ht,hv⟩ ⟨ho,hc'⟩ ha
    obtain ⟨u,he,rfl⟩ := step_effect ha
    exact ⟨(hl.effect he).tick,(ht.effect hl ho.1 ho.2 he).tick,
      hv.completeWith_step hl ht ho hc' he⟩
  intro c T timeout ret since till hr hT htimeout hret
  obtain ⟨n,hn,m,hm,hsince,htill,hall,hfin,hdone,hmem,hmax⟩ :=
    hinv.2.2.answers c T timeout ret since till hr hT htimeout (by omega)
  unfold intMax at hmax
  rw [toInt_of_lt (by omega)] at hn
  exact ⟨m,hm,hsince,htill,hall,by omega,by omega,hmem⟩

/-- The group is complete, a member is added and done, and only then the wait that
was written to is resumed. -/
def completedTwice : List Act :=
  [.add 1,.wait 9 .symmetric 0 (-1) 5 true,.done 1 .symmetric,.add 2,.done 2 .symmetric,.resume 9]

/-- The wait returns the sum of both numbers, 3, although no more than two members
were ever done. -/
theorem completed_twice_adds_up :
    ∃ w,Runs step (fun w a => genuine w a=true ∧ Orderly w a) (newGroup 0) w ∧
      w.doneBy={1,2} ∧ .wait 9 0 (-1) 3 1 5∈w.log ∧
      ¬During w 1 5 fun m => m.group.finished=m.group.totSize ∧ 3=m.group.finished := by
  have h : (replayWhile step (fun w a => genuine w a=true ∧ Orderly w a) (newGroup 0)
      completedTwice).map (fun w => (decide (w.doneBy={1,2}),decide (.wait 9 0 (-1) 3 1 5∈w.log),
        w.history.all fun m => m.group.finished≠3))=some (true,true,true) := by decide +kernel
  obtain ⟨w,hw,hq⟩ := Option.map_eq_some_iff.mp h
  simp only [Prod.mk.injEq,decide_eq_true_eq] at hq
  obtain ⟨hdone,hlog,hall⟩ := hq
  refine ⟨w,runs_of_replayWhile hw,hdone,hlog,?_⟩
  rintro ⟨m,hm,-,-,-,hfin⟩
  have hno := List.all_eq_true.mp hall m hm
  simp [← hfin] at hno

/-- The group is complete twice, and the wait is resumed in between. -/
def resumedBetween : List Act :=
  [.add 1,.wait 9 .symmetric 0 (-1) 5 true,.done 1 .symmetric,.resume 9,.add 2,.done 2 .symmetric]

theorem wait_returns_group_size_resumedBetween :
    ∃ w,replayWhile step (fun w a => Orderly w a ∧ completedOnce w a=true) (newGroup 0)
        resumedBetween=some w ∧ .wait 9 0 (-1) 1 1 3∈w.log ∧
      During w 1 3 fun m => m.group.finished=m.group.totSize ∧
        (1 : ℤ)=m.group.finished ∧ (1 : ℤ)=m.doneBy.card ∧ m.doneBy⊆m.members := by
  have h : (replayWhile step (fun w a => Orderly w a ∧ completedOnce w a=true) (newGroup 0)
      resumedBetween).map (fun w => decide (.wait 9 0 (-1) 1 1 3∈w.log))=some true := by
    decide +kernel
  obtain ⟨w,hw,hq⟩ := Option.map_eq_some_iff.mp h
  have hlog := of_decide_eq_true hq
  exact ⟨w,hw,hlog,wait_returns_group_size (runs_of_replayWhile hw) 9 0 (-1) 1 1 3 hlog le_rfl
    (by decide) (by decide)⟩

end DycoCoroutine.WaitgroupCompletion
