import DycoCoroutine.PubsubChannel

/-!
# Closing a publish/subscribe channel

`dyco_pubsub_destroy` writes PSC_STATUS_CLOSE to every blocked subscriber and waits
for their acknowledgements. The last subscriber to acknowledge is told
PSC_STATUS_EMPTY, as if a message had been delivered: it copies the buffer and
returns the length of whatever was published last. So in no order of resumption
is the destruction reported to every subscriber, not even if the destroyer is resumed
before it was notified: then the subscribers that are left find a freed channel.
-/

namespace DycoCoroutine.PubsubClose

open ScheduleState RunInvariant EventFd PubsubChannel

variable {w t u : World} {v : Subscription} {a : Act} {call c : ℕ} {fd : ℤ} {st : Status}

/-- A subscribe call pending in `w` has returned the message that the channel
held then. -/
def Leaked (w t : World) : Prop :=
  0≤toInt w.chan.msglen ∧ ∃ v∈w.subs,∃ source,
    .subscribed v.call (toInt w.chan.msglen) (w.chan.msg.take (toInt w.chan.msglen).toNat) source∈t.log

/-- At most the destroyer `p` is blocked in `psc_pubwait`, and nobody has notified it. -/
def Waiting (t : World) : Prop :=
  t.pubs=[] ∨ ∃ p,t.pubs=[p] ∧ p.request=.destroy ∧ p.notifyfd=t.chan.pubNotifyfd ∧
    t.fds p.notifyfd=some (.event 0) ∧ p.notifyfd∉t.subs.map Subscription.notifyfd

/-- The channel of `w` is being destroyed or was freed, and some of its subscribers are
still blocked. -/
structure Closing (w t : World) : Prop where
  status : t.chan.status=.close
  /-- Somebody is still blocked, and was so before. -/
  blocked : t.subs≠[]
  pending : ∀ v∈t.subs,v∈w.subs
  sublist : t.chan.sublist=t.subs.map Subscription.notifyfd
  distinct : (t.subs.map Subscription.notifyfd).Nodup
  /-- Each of them is notified and has not acknowledged. -/
  ackRem : t.chan.ackRem=t.subs.length
  counters : ∀ v∈t.subs,∃ n,0<n ∧ t.fds v.notifyfd=some (.event n)
  waiting : Waiting t
  message : t.chan.msglen=w.chan.msglen ∧ t.chan.msg=w.chan.msg

/-- A returned call stays returned. -/
theorem Leaked.mono (h : Leaked w t) (hl : t.log<+:u.log) : Leaked w u := by
  obtain ⟨hn,v,hv,source,hm⟩ := h
  exact ⟨hn,v,hv,source,hl.subset hm⟩

/-- What closing depends on. -/
def state (t : World) : Bool×Channel×List Subscription×List Publisher :=
  (t.freed,t.chan,t.subs,t.pubs)

theorem Closing.of_same (h : Closing w t) (hs : state u=state t)
    (hf : ∀ x n,t.fds x=some (.event n) → u.fds x=some (.event n)) : Closing w u := by
  simp only [state,Prod.mk.injEq] at hs
  obtain ⟨hfreed,hchan,hsubs,hpubs⟩ := hs
  refine ⟨by rw [hchan,h.status],by rw [hsubs]; exact h.blocked,
    by rw [hsubs]; exact h.pending,by rw [hchan,hsubs,h.sublist],by rw [hsubs]; exact h.distinct,
    by rw [hchan,hsubs,h.ackRem],fun v hv => ?_,?_,by rw [hchan]; exact h.message⟩
  · obtain ⟨n,hn,hc⟩ := h.counters v (hsubs ▸ hv)
    exact ⟨n,hn,hf _ n hc⟩
  · rcases h.waiting with hnone|⟨p,hp,hreq,hw,hc,ha⟩
    · exact .inl (hpubs.trans hnone)
    · exact .inr ⟨p,hpubs.trans hp,hreq,by rw [hchan,hw],hf _ 0 hc,hsubs ▸ ha⟩

theorem Closing.reply (h : Closing w t) (r : Reply) : Closing w (reply t r) :=
  h.of_same rfl fun _ _ hx => hx

/-- A call returns at most one reply more. -/
theorem log_subscribeAfterWait (h : subscribeAfterWait w call st=.ok t) : w.log<+:t.log := by
  obtain ⟨fds,ret,bytes,source,rfl,-⟩ := subscribeAfterWait_ok h
  exact List.prefix_append ..

theorem log_pscPubwait {context : Context} {request : Request}
    (h : pscPubwait w call c context fd request=.ok t) : w.log<+:t.log := by
  unfold pscPubwait at h
  split_ifs at h
  · cases h
    cases request <;> exact List.prefix_append ..
  · cases h
    exact List.prefix_rfl

/-- No step takes a reply back. -/
theorem log_step (h : step w a=some (.ok t)) : w.log<+:t.log := by
  cases taken_of_step h with
  | refuseSubscriber => exact List.prefix_append ..
  | copyAtOnce _ _ _ _ _ ht =>
    have hl := log_subscribeAfterWait ht
    exact hl
  | enlist => exact List.prefix_rfl
  | refusePublisher => exact List.prefix_append ..
  | publish _ _ _ _ _ _ ht =>
    have hl := log_pscPubwait ht
    exact hl
  | destroyAgain => exact List.prefix_append ..
  | destroyAtOnce => exact List.prefix_append ..
  | destroy _ _ _ ht =>
    have hl := log_pscPubwait ht
    exact hl
  | @resumeSubscriber _ v _ _ _ ht =>
    unfold subscribeAfterYield at ht
    split_ifs at ht
    split at ht
    · have hl := log_subscribeAfterWait ht
      exact hl
    · have hl := log_subscribeAfterWait ht
      exact hl
  | @resumePublisher _ p _ _ ht =>
    unfold publishAfterYield at ht
    split_ifs at ht
    cases ht
    cases p.request <;> exact List.prefix_append ..
  | elsewhere => exact List.prefix_rfl

/-- A subscriber that is told EMPTY or TRANS returns the message of the buffer. -/
theorem copied_of_subscribeAfterWait (h : subscribeAfterWait w call st=.ok t)
    (hst : st=.empty ∨ st=.trans) :
    0≤toInt w.chan.msglen ∧ ∃ source,.subscribed call (toInt w.chan.msglen)
      (w.chan.msg.take (toInt w.chan.msglen).toNat) source∈t.log := by
  have hcopy : ∀ ret bytes,copyMessage w.chan.msglen w.chan.msg=.ok (ret,bytes) →
      0≤toInt w.chan.msglen ∧ ret=toInt w.chan.msglen ∧ bytes=w.chan.msg.take ret.toNat := by
    intro ret bytes hm
    unfold copyMessage at hm
    split_ifs at hm with hneg
    cases hm
    exact ⟨not_lt.mp hneg,rfl,rfl⟩
  rcases hst with rfl|rfl
  · obtain ⟨⟨ret,bytes⟩,hm,h⟩ := bind_eq_ok h
    obtain ⟨u,hu,h⟩ := bind_eq_ok h
    obtain ⟨hn,rfl,rfl⟩ := hcopy ret bytes hm
    cases h
    exact ⟨hn,u.source,by simp [reply]⟩
  · obtain ⟨⟨ret,bytes⟩,hm,h⟩ := bind_eq_ok h
    obtain ⟨hn,rfl,rfl⟩ := hcopy ret bytes hm
    cases h
    exact ⟨hn,w.source,by simp [reply]⟩

/-- A subscriber that is not the last one leaves. -/
theorem Closing.leave (h : Closing w t) (hv : v∈t.subs)
    (hlast : (acknowledge (PubsubChannel.leave t v)).chan.ackRem≠0) :
    Closing w (acknowledge (PubsubChannel.leave t v)) := by
  have hmap := map_filter_ne h.distinct v.notifyfd
  have hlen := (perm_cons_filter_ne h.distinct hv).length_eq
  have hack : (acknowledge (PubsubChannel.leave t v)).chan.ackRem=
      (acknowledge (PubsubChannel.leave t v)).subs.length := by
    show sizePred t.chan.ackRem=_
    rw [h.ackRem,sizePred,hlen]
    rfl
  refine ⟨h.status,fun he => hlast (by rw [hack,he]; rfl),
    fun u hu => h.pending u (mem_leave hu).1,?_,?_,hack,fun u hu => ?_,?_,h.message⟩
  · show t.chan.sublist.erase v.notifyfd=_
    rw [h.sublist]
    exact hmap.symm
  · show (List.map _ (List.filter _ _)).Nodup
    rw [hmap]
    exact h.distinct.erase _
  · obtain ⟨hu,hne⟩ := mem_leave hu
    obtain ⟨n,hn,hc⟩ := h.counters u hu
    exact ⟨n,hn,(fds_leave hne).trans hc⟩
  · rcases h.waiting with hnone|⟨p,hp,hreq,hw,hc,ha⟩
    · exact .inl hnone
    have hne : p.notifyfd≠v.notifyfd := fun he => ha (he ▸ List.mem_map_of_mem hv)
    refine .inr ⟨p,hp,hreq,hw,(fds_leave hne).trans hc,fun hm => ha ?_⟩
    rw [show (acknowledge (PubsubChannel.leave t v)).subs.map Subscription.notifyfd=_ from hmap] at hm
    exact List.mem_of_mem_erase hm

/-- The next subscriber returns the message, or somebody is blocked after it. -/
theorem Closing.subscribeAfterYield (h : Closing w t) (hv : v∈t.subs)
    (hu : subscribeAfterYield t v=.ok u) : Leaked w u ∨ Closing w u := by
  have hne : ¬(t.freed=true ∨ t.chan.sublist=[]) := by
    intro hbad
    unfold PubsubChannel.subscribeAfterYield at hu
    rw [if_pos hbad] at hu
    cases hu
  obtain ⟨n,hn,hc⟩ := h.counters v hv
  rw [subscribeAfterYield_some hne (eventfdRead_eq_some hc hn)] at hu
  have hleak : ∀ st,st=.empty ∨ st=.trans →
      subscribeAfterWait (acknowledge (PubsubChannel.leave t v)) v.call st=.ok u → Leaked w u := by
    intro st hst hu
    obtain ⟨hn,source,hm⟩ := copied_of_subscribeAfterWait hu hst
    obtain ⟨hlen,hmsg⟩ : (acknowledge (PubsubChannel.leave t v)).chan.msglen=w.chan.msglen ∧
      (acknowledge (PubsubChannel.leave t v)).chan.msg=w.chan.msg := h.message
    rw [hlen] at hn hm
    rw [hmsg] at hm
    exact ⟨hn,v,h.pending v hv,source,hm⟩
  split_ifs at hu with hlast
  · exact .inl (hleak _ (.inl rfl) hu)
  · have hl := h.leave hv hlast
    cases hst : statusOf n with
    | empty => exact .inl (hleak _ (.inl rfl) (hst ▸ hu))
    | trans => exact .inl (hleak _ (.inr rfl) (hst ▸ hu))
    | close =>
      rw [hst] at hu
      cases hu
      exact .inr (hl.reply _)
    | nop =>
      rw [hst] at hu
      cases hu
      exact .inr (hl.reply _)

/-- The destroyer is resumed before it was notified, and frees the channel. -/
theorem Closing.publishAfterYield {p : Publisher} (h : Closing w t) (hp : p∈t.pubs)
    (hu : publishAfterYield t p=.ok u) : Closing w u := by
  rcases h.waiting with hnone|⟨q,hq,hreq,hw,-,ha⟩
  · rw [hnone] at hp
    cases hp
  obtain rfl : p=q := List.mem_singleton.mp (hq ▸ hp)
  unfold PubsubChannel.publishAfterYield at hu
  split_ifs at hu
  rw [hreq] at hu
  cases hu
  refine ⟨h.status,h.blocked,h.pending,h.sublist,h.distinct,h.ackRem,fun v hv => ?_,.inl ?_,h.message⟩
  · obtain ⟨n,hn,hc⟩ := h.counters v hv
    have hne : v.notifyfd≠t.chan.pubNotifyfd := fun he => ha (hw ▸ he ▸ List.mem_map_of_mem hv)
    exact ⟨n,hn,(Function.update_of_ne hne ..).trans hc⟩
  · show t.pubs.filter _=[]
    simp [hq]

/-- A step after the call of `dyco_pubsub_destroy`. -/
theorem Closing.step (h : Closing w t) (hk : keeps a=true) (ha : step t a=some (.ok u)) :
    Leaked w u ∨ Closing w u := by
  have hn : Closing w (numbered t) := h.of_same rfl fun _ _ hx => hx
  cases taken_of_step ha with
  | refuseSubscriber => exact .inr (hn.reply _)
  | copyAtOnce _ _ _ hst =>
    rw [h.status] at hst
    rcases hst with hst|hst <;> cases hst
  | enlist _ _ hst =>
    rw [h.status] at hst
    rcases hst with hst|hst <;> cases hst
  | refusePublisher => exact .inr (hn.reply _)
  | publish _ _ hst =>
    rw [h.status] at hst
    cases hst
  | destroyAgain => cases hk
  | destroyAtOnce => cases hk
  | destroy => cases hk
  | resumeSubscriber hv _ ht => exact h.subscribeAfterYield hv ht
  | resumePublisher hp ht => exact .inr (h.publishAfterYield (List.mem_of_find?_eq_some hp) ht)
  | elsewhere _ hf => exact .inr (h.of_same rfl hf)

/-- `dyco_pubsub_destroy` of a channel with blocked subscribers. -/
theorem closing_of_destroy (h : Enlisted w) (hst : w.chan.status=.empty) (hs : w.subs≠[])
    (hd : step w (.destroy c .symmetric fd)=some (.ok t)) : Closing w t := by
  simp only [step] at hd
  split_ifs at hd with hc
  have hfd := fds_of_callable hc
  have hnum : (numbered w).chan.subNum≠0 := by
    show w.chan.subNum≠0
    rw [h.subNum]
    exact (List.length_pos_iff.mpr hs).ne'
  have hkept : ¬(numbered w).freed=true := by
    show ¬w.freed=true
    simp [h.kept]
  rw [dycoPubsubDestroy,if_neg hkept,if_neg hnum] at hd
  cases hd
  have hpubs : w.pubs=[] := by
    cases h.phase with
    | quiet _ hq => exact hq
    | publishing hs => rw [hst] at hs; cases hs
  have hnew : fd∉w.subs.map Subscription.notifyfd := h.roster.not_mem fun n => by simp [hfd]
  refine ⟨rfl,hs,fun v hv => hv,h.sublist,h.distinct,h.subNum,fun v hv => ?_,?_,rfl,rfl⟩
  · obtain ⟨n,hn⟩ := h.counters v hv
    have hmem : v.notifyfd∈w.subs.map Subscription.notifyfd := List.mem_map_of_mem hv
    have hne : v.notifyfd≠fd := fun he => hnew (he ▸ hmem)
    have hval : eventfdWriteAll w.fds w.chan.sublist 3 v.notifyfd=_ :=
      eventfdWriteAll_of_mem (h.sublist ▸ h.distinct) (h.sublist ▸ hmem) hn
    refine ⟨(bump n 3).getD n,?_,(Function.update_of_ne hne ..).trans hval⟩
    unfold bump
    split_ifs with hroom
    · exact Nat.succ_pos _
    · have hmax : 3 ≤ maxCount := by decide
      show 0<n
      omega
  · exact .inr ⟨_,congrArg (_::·) hpubs,rfl,rfl,Function.update_self ..,hnew⟩

/-- For every channel with status EMPTY and blocked subscribers, however it was
reached, and in every order of resumption after a coroutine has called
`dyco_pubsub_destroy`: one of the pending calls has returned the length and the
bytes of the last message, or some of them are still blocked, notified, and the
destroyer, if it is blocked, was not notified. So they never all return -1. -/
theorem close_returns_message {size : ℕ} (h : Reachable size (fun _ a => keeps a=true) w)
    (hst : w.chan.status=.empty) (hs : w.subs≠[])
    (hd : step w (.destroy c .symmetric fd)=some (.ok t))
    (hr : Runs step (fun _ a => keeps a=true) t u) :
    (0≤toInt w.chan.msglen ∧ ∃ v∈w.subs,∃ source,.subscribed v.call (toInt w.chan.msglen)
      (w.chan.msg.take (toInt w.chan.msglen).toNat) source∈u.log) ∨
    u.subs≠[] ∧ (∀ v∈u.subs,v∈w.subs ∧ (eventfdRead u.fds v.notifyfd).isSome) ∧
      ∀ p∈u.pubs,eventfdRead u.fds p.notifyfd=none := by
  have he : Enlisted w := h.invariant Enlisted (enlisted_newChannel size)
    fun _ _ _ hi hk ha => hi.step hk ha
  have hi : Leaked w u ∨ Closing w u := by
    refine hr.invariant (fun u => Leaked w u ∨ Closing w u) (.inr (closing_of_destroy he hst hs hd))
      fun u a u' hi hk ha => ?_
    rcases hi with hl|hc
    · exact .inl (hl.mono (log_step ha))
    · exact hc.step hk ha
  rcases hi with hl|hc
  · exact .inl hl
  · refine .inr ⟨hc.blocked,fun v hv => ⟨hc.pending v hv,?_⟩,fun p hp => ?_⟩
    · obtain ⟨n,hn,hv⟩ := hc.counters v hv
      exact Option.isSome_of_eq_some (eventfdRead_eq_some hv hn)
    · rcases hc.waiting with hnone|⟨q,hq,-,-,hzero,-⟩
      · rw [hnone] at hp
        cases hp
      · obtain rfl : p=q := List.mem_singleton.mp (hq ▸ hp)
        simp [eventfdRead,hzero]

/-- A literal run up to a destruction and a literal run after it. -/
theorem destroyed_of_replay {size : ℕ} {acts acts' : List Act} {β : Type} {f : World → World → β}
    {b : β} (h : ((replayWhile step (fun _ a => keeps a=true) (newChannel size) acts).bind fun w =>
      (replay step w [.destroy c .symmetric fd]).bind fun t =>
        (replayWhile step (fun _ a => keeps a=true) t acts').map fun u => f w u)=some b) :
    ∃ w t u,Reachable size (fun _ a => keeps a=true) w ∧
      step w (.destroy c .symmetric fd)=some (.ok t) ∧
      Runs step (fun _ a => keeps a=true) t u ∧ f w u=b := by
  obtain ⟨w,hw,h⟩ := Option.bind_eq_some_iff.mp h
  obtain ⟨t,ht,h⟩ := Option.bind_eq_some_iff.mp h
  obtain ⟨u,hu,hb⟩ := Option.map_eq_some_iff.mp h
  exact ⟨w,t,u,runs_of_replayWhile hw,step_of_replay ht,runs_of_replayWhile hu,hb⟩

/-- After a message has been delivered to subscriber 0, subscribers 2 and 3 are
blocked. -/
def afterMessage : List Act :=
  [.subscribe 0 .symmetric 256 (-1) 5,.publish 1 .symmetric [104,105] 6,.resumeSubscriber 0,
    .resumePublisher 1,.subscribe 2 .symmetric 256 (-1) 5,.subscribe 3 .symmetric 256 (-1) 6]

/-- Subscriber 3, which is resumed last, returns the message that was delivered
long before. -/
theorem last_subscriber_not_told :
    ∃ w t u,Reachable 256 (fun _ a => keeps a=true) w ∧ w.chan.status=.empty ∧
      w.subs.map Subscription.call=[3,2] ∧ step w (.destroy 4 .symmetric 7)=some (.ok t) ∧
      Runs step (fun _ a => keeps a=true) t u ∧
      u.log=w.log++[.subscribed 2 (-1) [] none,.subscribed 3 2 [104,105] (some 1)] := by
  have h : ((replayWhile step (fun _ a => keeps a=true) (newChannel 256) afterMessage).bind fun w =>
      (replay step w [.destroy 4 .symmetric 7]).bind fun t =>
        (replayWhile step (fun _ a => keeps a=true) t
          [.resumeSubscriber 2,.resumeSubscriber 3]).map fun u =>
          (w.chan.status,w.subs.map Subscription.call,decide (u.log=
            w.log++[.subscribed 2 (-1) [] none,.subscribed 3 2 [104,105] (some 1)])))=
      some (.empty,[3,2],true) := by decide +kernel
  obtain ⟨w,t,u,hw,ht,hu,hq⟩ := destroyed_of_replay h
  simp only [Prod.mk.injEq,decide_eq_true_eq] at hq
  exact ⟨w,t,u,hw,hq.1,hq.2.1,ht,hu,hq.2.2⟩

/-- The two subscribers after the message, in the other order. -/
theorem close_returns_message_afterMessage :
    ∃ w t u,w.subs.map Subscription.call=[3,2] ∧
      u.log=w.log++[.subscribed 3 (-1) [] none,.subscribed 2 2 [104,105] (some 1)] ∧
      Reachable 256 (fun _ a => keeps a=true) w ∧ w.chan.status=.empty ∧ w.subs≠[] ∧
      step w (.destroy 4 .symmetric 7)=some (.ok t) ∧
      Runs step (fun _ a => keeps a=true) t u ∧
      ((0≤toInt w.chan.msglen ∧ ∃ v∈w.subs,∃ source,.subscribed v.call (toInt w.chan.msglen)
        (w.chan.msg.take (toInt w.chan.msglen).toNat) source∈u.log) ∨
      u.subs≠[] ∧ (∀ v∈u.subs,v∈w.subs ∧ (eventfdRead u.fds v.notifyfd).isSome) ∧
        ∀ p∈u.pubs,eventfdRead u.fds p.notifyfd=none) := by
  have h : ((replayWhile step (fun _ a => keeps a=true) (newChannel 256) afterMessage).bind fun w =>
      (replay step w [.destroy 4 .symmetric 7]).bind fun t =>
        (replayWhile step (fun _ a => keeps a=true) t
          [.resumeSubscriber 3,.resumeSubscriber 2]).map fun u =>
          (w.chan.status,w.subs.map Subscription.call,decide (u.log=
            w.log++[.subscribed 3 (-1) [] none,.subscribed 2 2 [104,105] (some 1)])))=
      some (.empty,[3,2],true) := by decide +kernel
  obtain ⟨w,t,u,hw,ht,hu,hq⟩ := destroyed_of_replay h
  simp only [Prod.mk.injEq,decide_eq_true_eq] at hq
  obtain ⟨hst,hcalls,hlog⟩ := hq
  have hs : w.subs≠[] := fun he => by simp [he] at hcalls
  exact ⟨w,t,u,hcalls,hlog,hw,hst,hs,ht,hu,close_returns_message hw hst hs ht hu⟩

end DycoCoroutine.PubsubClose
