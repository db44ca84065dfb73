import DycoCoroutine.PubsubChannel

/-!
# Delivery on the publish/subscribe channel

A publisher inside a coroutine waits until every subscriber that it notified has
read its counter, and each of them copies the message when it does. Messages
shorter than 2^31 bytes are therefore delivered whole, once each, and to exactly
the calls that were registered; the buffer is not filled again before that. The
length of a longer message does not survive its conversion to `int`.
-/

namespace DycoCoroutine.PubsubDelivery

open ScheduleState RunInvariant EventFd PubsubChannel

/-- The number, the result and the bytes of a subscribe call that has copied the
message of publish call `k`. -/
def copyOf (k : ℕ) : Reply → Option (ℕ×ℤ×List UInt8)
  | .subscribed call ret bytes source => if source=some k then some (call,ret,bytes) else none
  | _ => none

/-- What subscribe calls have returned of publish call `k`. -/
def copies (w : World) (k : ℕ) : List (ℕ×ℤ×List UInt8) := w.log.filterMap (copyOf k)

/-- A whole copy for each of these subscribe calls. -/
def shares (data : List UInt8) (calls : List ℕ) : List (ℕ×ℤ×List UInt8) :=
  calls.map fun j => (j,(data.length : ℤ),data)

/-- Exactly the targets have returned the message, once each. -/
def Fulfilled (w : World) (k : ℕ) (data : List UInt8) (targets : List ℕ) : Prop :=
  targets.Nodup ∧ (copies w k).Perm (shares data targets)

/-- The blocked subscribers whose counter was written to. -/
def notified (w : World) : List Subscription :=
  w.subs.filter fun v => (eventfdRead w.fds v.notifyfd).isSome

/-- Calls are made inside coroutines, subscribers wait, and the channel is not
destroyed. -/
def inside : Act → Bool
  | .subscribe _ context _ timeout _ => context≠.outside && timeout≠0
  | .publish _ context _ _ => context≠.outside
  | .destroy _ _ _ => false
  | _ => true

/-- Messages are shorter than 2^31 bytes. -/
def short : Act → Bool
  | .publish _ _ data _ => data.length<2^31
  | _ => true

/-- A step inside coroutines in which no length is truncated and no publisher is resumed
before it was notified. -/
def Delivering (w : World) (a : Act) : Prop := inside a=true ∧ short a=true ∧ genuine w a=true

instance (w : World) (a : Act) : Decidable (Delivering w a) := inferInstanceAs (Decidable (_∧_∧_))

variable {w t : World} {v : Subscription} {p : Publisher} {a : Act} {call c k : ℕ} {fd : ℤ}
  {data : List UInt8} {targets : List ℕ} {r : Reply}

theorem copies_of_log (hl : t.log=w.log++[r]) (k : ℕ) :
    copies t k=copies w k++(copyOf k r).toList := by
  simp only [copies,hl,List.filterMap_append]
  cases hr : copyOf k r <;> simp [hr]

/-- What has been recorded of publish calls. -/
structure Ledger (w : World) : Prop where
  /-- A publish call that has returned its size was fulfilled. -/
  completed : ∀ k data targets ret,.published k data targets ret∈w.log → 0<ret →
    ret=data.length ∧ Fulfilled w k data targets
  /-- A publish call that has returned is not blocked. -/
  past : ∀ k data targets ret,.published k data targets ret∈w.log →
    k<w.calls ∧ ∀ p∈w.pubs,p.call≠k
  /-- Copies are from publish calls that were made. -/
  sources : ∀ k,copies w k≠[] → k<w.calls
  /-- Blocked publish calls were made. -/
  pending : ∀ p∈w.pubs,p.call<w.calls

/-- A call returns: if it copied a message, that of a blocked publish call; if it
published one, that was fulfilled. -/
theorem Ledger.append (h : Ledger w) (hl : t.log=w.log++[r]) (hc : t.calls=w.calls)
    (hp : ∀ p∈t.pubs,p∈w.pubs) (hcopy : ∀ k,copyOf k r≠none → ∃ p∈w.pubs,p.call=k)
    (hpub : ∀ k data targets ret,r=.published k data targets ret → k<w.calls ∧
      (∀ p∈t.pubs,p.call≠k) ∧ (0<ret → ret=data.length ∧ Fulfilled w k data targets)) :
    Ledger t := by
  have hsame : ∀ k,(∀ p∈w.pubs,p.call≠k) → copies t k=copies w k := by
    intro k hk
    have hnone : copyOf k r=none := by
      by_contra hne
      obtain ⟨p,hp,he⟩ := hcopy k hne
      exact hk p hp he
    rw [copies_of_log hl,hnone]
    simp
  refine ⟨fun k data targets ret hm hr => ?_,fun k data targets ret hm => ?_,fun k hk => ?_,
    fun p hm => hc ▸ h.pending p (hp p hm)⟩
  · rw [hl,List.mem_append,List.mem_singleton] at hm
    rcases hm with hm|hm
    · obtain ⟨he,hn,hf⟩ := h.completed k data targets ret hm hr
      exact ⟨he,hn,(hsame k (h.past k data targets ret hm).2) ▸ hf⟩
    · obtain ⟨-,-,hok⟩ := hpub k data targets ret hm.symm
      obtain ⟨he,hn,hf⟩ := hok hr
      have hnone : copyOf k r=none := by rw [← hm]; rfl
      refine ⟨he,hn,?_⟩
      rw [copies_of_log hl,hnone]
      simpa using hf
  · rw [hl,List.mem_append,List.mem_singleton] at hm
    rcases hm with hm|hm
    · obtain ⟨hk,hne⟩ := h.past k data targets ret hm
      exact ⟨hc ▸ hk,fun p hm => hne p (hp p hm)⟩
    · obtain ⟨hk,hne,-⟩ := hpub k data targets ret hm.symm
      exact ⟨hc ▸ hk,hne⟩
  · by_cases hr : copyOf k r=none
    · rw [copies_of_log hl,hr] at hk
      exact hc ▸ h.sources k (by simpa using hk)
    · obtain ⟨p,hp,rfl⟩ := hcopy k hr
      exact hc ▸ h.pending p hp

/-- The message of publisher `p` is in transit. -/
structure Transit (w : World) (p : Publisher) (data : List UInt8) (targets : List ℕ) : Prop where
  pubs : w.pubs=[p]
  request : p.request=.publish data targets
  status : w.chan.status=.trans
  /-- The buffer holds the message. -/
  source : w.source=some p.call
  length : w.chan.msglen=data.length
  buffer : w.chan.msg.take data.length=data
  short : data.length<2^31
  /-- A subscriber has been notified by this publisher, or not at all. -/
  counters : ∀ v∈w.subs,w.fds v.notifyfd=some (.event 0) ∨ w.fds v.notifyfd=some (.event 2)
  /-- The publisher has been notified exactly if nobody is left to acknowledge. -/
  counter : w.fds p.notifyfd=some (.event (if w.chan.ackRem=0 then 2 else 0))
  nodup : targets.Nodup
  /-- Each target has copied the message or is still notified. -/
  split : (copies w p.call++shares data ((notified w).map Subscription.call)).Perm
    (shares data targets)

/-- Nothing is in transit and nobody is notified, or one message is in transit. -/
inductive Stage (w : World) : Prop
  | quiet (status : w.chan.status=.empty) (pubs : w.pubs=[])
      (counters : ∀ v∈w.subs,w.fds v.notifyfd=some (.event 0))
  | transit {p : Publisher} {data : List UInt8} {targets : List ℕ} (h : Transit w p data targets)

/-- The invariant of delivering runs. -/
structure Tracked (w : World) : Prop where
  enlisted : Enlisted w
  ledger : Ledger w
  stage : Stage w
  /-- `ack_rem` counts the notified subscribers. -/
  ackRem : w.chan.ackRem=(notified w).length
  /-- Blocked subscribe calls are different. -/
  distinct : (w.subs.map Subscription.call).Nodup
  /-- Blocked subscribe calls were made. -/
  made : ∀ v∈w.subs,v.call<w.calls

/-- A call number that nothing refers to yet. -/
structure Unused (w : World) (k : ℕ) : Prop where
  made : k<w.calls
  subs : k∉w.subs.map Subscription.call
  pubs : ∀ p∈w.pubs,p.call≠k
  copies : copies w k=[]
  log : ∀ data targets ret,.published k data targets ret∉w.log

theorem Stage.counters (h : Stage w) :
    ∀ v∈w.subs,w.fds v.notifyfd=some (.event 0) ∨ w.fds v.notifyfd=some (.event 2) := by
  cases h with
  | quiet _ _ hc => exact fun v hv => .inl (hc v hv)
  | transit h => exact h.counters

/-- Notifications depend on the descriptors of the blocked subscribers only. -/
theorem notified_of_same (hs : t.subs=w.subs)
    (hf : ∀ v∈w.subs,t.fds v.notifyfd=w.fds v.notifyfd) : notified t=notified w := by
  unfold notified
  rw [hs]
  exact List.filter_congr fun v hv => by simp only [eventfdRead,hf v hv]

/-- A subscriber that blocks is not notified. -/
theorem notified_enlist (w : World) (call c : ℕ) (fd : ℤ) :
    notified (enlist w call c fd)=notified {w with fds := openEvent w.fds fd} := by
  have hnew : openEvent w.fds fd fd=some (.event 0) := Function.update_self ..
  refine List.filter_cons_of_neg ?_
  show ¬(eventfdRead (openEvent w.fds fd) fd).isSome=true
  simp [eventfdRead,hnew]

/-- All blocked subscribers are notified of the status. -/
theorem notified_awaitAcks (h : Roster w) (hzero : ∀ v∈w.subs,w.fds v.notifyfd=some (.event 0))
    (hfd : w.fds fd=none) (hst : 0<w.chan.status.value) (call c : ℕ) (request : Request) :
    (∀ v∈w.subs,(awaitAcks (pscSubnotify w) call c fd request).fds v.notifyfd=
      some (.event w.chan.status.value)) ∧
    notified (awaitAcks (pscSubnotify w) call c fd request)=w.subs := by
  have hcount : ∀ v∈w.subs,(awaitAcks (pscSubnotify w) call c fd request).fds v.notifyfd=
      some (.event w.chan.status.value) := by
    intro v hv
    have hne : v.notifyfd≠fd := fun he => by simpa [he,hfd] using hzero v hv
    have hmem : v.notifyfd∈w.chan.sublist := h.sublist ▸ List.mem_map_of_mem hv
    refine (Function.update_of_ne hne ..).trans ?_
    refine (eventfdWriteAll_of_mem (h.sublist ▸ h.distinct) hmem (hzero v hv)).trans ?_
    cases w.chan.status <;> rfl
  refine ⟨hcount,List.filter_eq_self.mpr fun v hv => ?_⟩
  exact Option.isSome_of_eq_some (eventfdRead_eq_some (hcount v hv) hst)

/-- The part of a world that a message in transit is described by. -/
def content (w : World) : List Publisher×Status×Option ℕ×ℕ×List UInt8×ℕ :=
  (w.pubs,w.chan.status,w.source,w.chan.msglen,w.chan.msg,w.chan.ackRem)

/-- A change that notifies nobody and copies nothing. -/
theorem Stage.of_same (h : Stage w) (hc : content t=content w) (hk : ∀ k,copies t k=copies w k)
    (hn : notified t=notified w)
    (hs : ∀ v∈t.subs,t.fds v.notifyfd=some (.event 0) ∨
      v∈w.subs ∧ t.fds v.notifyfd=w.fds v.notifyfd)
    (hp : ∀ p∈w.pubs,t.fds p.notifyfd=w.fds p.notifyfd) : Stage t := by
  simp only [content,Prod.mk.injEq] at hc
  obtain ⟨hpubs,hst,hsrc,hlen,hmsg,hack⟩ := hc
  cases h with
  | quiet hst' hpubs' hc =>
    refine .quiet (hst.trans hst') (hpubs.trans hpubs') fun v hv => ?_
    rcases hs v hv with h0|⟨hv,he⟩
    · exact h0
    · exact he.trans (hc v hv)
  | @transit p data targets h =>
    refine .transit ⟨hpubs.trans h.pubs,h.request,hst.trans h.status,hsrc.trans h.source,
      hlen.trans h.length,by rw [hmsg,h.buffer],h.short,fun v hv => ?_,?_,h.nodup,?_⟩
    · rcases hs v hv with h0|⟨hv,he⟩
      · exact .inl h0
      · rw [he]
        exact h.counters v hv
    · rw [hp p (by simp [h.pubs]),hack]
      exact h.counter
    · rw [hk,hn]
      exact h.split

/-- A change in which no call returns, and a call that blocks was made just now. -/
theorem Ledger.of_same (h : Ledger w) (hl : t.log=w.log) (hc : w.calls≤t.calls)
    (hp : ∀ p∈t.pubs,p∈w.pubs ∨ Unused w p.call) : Ledger t := by
  have hk : ∀ k,copies t k=copies w k := fun k => by simp only [copies,hl]
  refine ⟨fun k data targets ret hm hr => ?_,fun k data targets ret hm => ?_,fun k hne => ?_,
    fun p hm => ?_⟩
  · obtain ⟨he,hn,hf⟩ := h.completed k data targets ret (hl ▸ hm) hr
    exact ⟨he,hn,hk k ▸ hf⟩
  · obtain ⟨hk,hne⟩ := h.past k data targets ret (hl ▸ hm)
    refine ⟨hk.trans_le hc,fun p hmem he => ?_⟩
    rcases hp p hmem with hold|hnew
    · exact hne p hold he
    · exact hnew.log data targets ret (he ▸ hl ▸ hm)
  · exact (h.sources k (hk k ▸ hne)).trans_le hc
  · rcases hp p hm with hold|hnew
    · exact (h.pending p hold).trans_le hc
    · exact hnew.made.trans_le hc

/-- A change of the table away from counters. -/
theorem Tracked.elsewhere (h : Tracked w) {fds : Table}
    (hf : ∀ x n,w.fds x=some (.event n) → fds x=some (.event n)) : Tracked {w with fds := fds} := by
  have hsubs : ∀ v∈w.subs,fds v.notifyfd=w.fds v.notifyfd := by
    intro v hv
    obtain ⟨n,hn⟩ := h.enlisted.counters v hv
    rw [hn,hf _ n hn]
  have hpubs : ∀ p∈w.pubs,fds p.notifyfd=w.fds p.notifyfd := by
    intro p hp
    cases h.enlisted.phase with
    | quiet _ hq =>
      rw [hq] at hp
      exact absurd hp List.not_mem_nil
    | publishing _ hq _ _ hc _ =>
      rw [hq] at hp
      cases List.mem_singleton.mp hp
      rw [hc,hf _ _ hc]
  have hn : notified {w with fds := fds}=notified w := notified_of_same rfl hsubs
  exact ⟨h.enlisted.of_same rfl fun x n hx => ⟨n,hf x n hx⟩,
    h.ledger.of_same rfl le_rfl fun _ hp => .inl hp,
    h.stage.of_same rfl (fun _ => rfl) hn (fun v hv => .inr ⟨hv,hsubs v hv⟩) hpubs,
    h.ackRem.trans (congrArg List.length hn.symm),h.distinct,h.made⟩

/-- A new number for the next call. -/
theorem Tracked.numbered (h : Tracked w) : Tracked (numbered w) ∧ Unused (numbered w) w.calls := by
  have hle : w.calls≤(PubsubChannel.numbered w).calls := Nat.le_succ _
  refine ⟨⟨h.enlisted.of_same rfl (Keeps.refl _),h.ledger.of_same rfl hle fun _ hp => .inl hp,
    h.stage.of_same rfl (fun _ => rfl) rfl (fun v hv => .inr ⟨hv,rfl⟩) fun _ _ => rfl,h.ackRem,
    h.distinct,fun v hv => (h.made v hv).trans_le hle⟩,Nat.lt_succ_self _,fun hm => ?_,
    fun p hp he => ?_,?_,fun data targets ret hm => ?_⟩
  · obtain ⟨v,hv,he⟩ := List.mem_map.mp hm
    exact absurd (h.made v hv) (by omega)
  · exact absurd (h.ledger.pending p hp) (by omega)
  · by_contra hne
    exact absurd (h.ledger.sources _ hne) (lt_irrefl _)
  · exact absurd (h.ledger.past _ _ _ _ hm).1 (lt_irrefl _)

/-- A call returns without a message. -/
theorem Tracked.reply (h : Tracked w) (hcopy : ∀ k,copyOf k r=none)
    (hpub : ∀ k data targets ret,r=.published k data targets ret → Unused w k ∧ ret≤0) :
    Tracked (reply w r) := by
  have hk : ∀ k,copies (PubsubChannel.reply w r) k=copies w k := by
    intro k
    rw [copies_of_log (w := w) (r := r) rfl,hcopy]
    simp
  refine ⟨h.enlisted.reply r,h.ledger.append rfl rfl (fun _ hp => hp)
    (fun k hne => absurd (hcopy k) hne) fun k data targets ret hr => ?_,
    h.stage.of_same rfl hk rfl (fun v hv => .inr ⟨hv,rfl⟩) fun _ _ => rfl,h.ackRem,h.distinct,
    h.made⟩
  obtain ⟨hu,hle⟩ := hpub k data targets ret hr
  exact ⟨hu.made,hu.pubs,fun hpos => absurd hpos (by omega)⟩

/-- A subscriber blocks. -/
theorem Tracked.enlist (h : Tracked w) (hu : Unused w call) (hfd : w.fds fd=none) (c : ℕ) :
    Tracked (enlist w call c fd) := by
  have ht : Tracked {w with fds := openEvent w.fds fd} :=
    h.elsewhere (update_of_event fun n => by simp [hfd])
  have hnew : openEvent w.fds fd fd=some (.event 0) := Function.update_self ..
  have hn := notified_enlist w call c fd
  refine ⟨h.enlisted.enlist hfd call c,h.ledger.of_same rfl le_rfl fun _ hp => .inl hp,
    ht.stage.of_same rfl (fun _ => rfl) hn (fun v hv => ?_) fun _ _ => rfl,
    ht.ackRem.trans (congrArg List.length hn.symm),
    List.nodup_cons.mpr ⟨hu.subs,h.distinct⟩,fun v hv => ?_⟩
  · rcases List.mem_cons.mp hv with rfl|hv
    · exact .inl hnew
    · exact .inr ⟨hv,rfl⟩
  · rcases List.mem_cons.mp hv with rfl|hv
    · exact hu.made
    · exact h.made v hv

/-- A publisher notifies the blocked subscribers and waits for them. -/
theorem Tracked.announce (h : Tracked w) (hu : Unused w call) (hfd : w.fds fd=none)
    (hst : w.chan.status=.empty) (hsub : w.chan.subNum≠0) (hlen : data.length<2^31)
    (he : Enlisted (awaitAcks (pscSubnotify (fill w call data)) call c fd
      (.publish data (PubsubChannel.targets w)))) :
    Tracked (awaitAcks (pscSubnotify (fill w call data)) call c fd
      (.publish data (PubsubChannel.targets w))) := by
  cases h.stage with
  | transit hw =>
    rw [hw.status] at hst
    cases hst
  | quiet _ hpubs hc =>
    have hmem : ∀ v∈w.subs,v.notifyfd∈w.chan.sublist := fun v hv =>
      h.enlisted.sublist ▸ List.mem_map_of_mem hv
    have htargets : PubsubChannel.targets w=w.subs.map Subscription.call := by
      unfold PubsubChannel.targets
      rw [List.filter_eq_self.mpr fun v hv => by simpa using hmem v hv]
    have hfill : Roster (fill w call data) := h.enlisted.roster.of_same rfl rfl rfl (Keeps.refl _)
    -- every blocked subscriber now has the counter 2
    have htrans : 0<(fill w call data).chan.status.value := Nat.two_pos
    obtain ⟨hcount,hall⟩ := notified_awaitAcks hfill hc hfd htrans call c
      (.publish data (PubsubChannel.targets w))
    have hall : notified (awaitAcks (pscSubnotify (fill w call data)) call c fd
        (.publish data (PubsubChannel.targets w)))=w.subs := hall
    refine ⟨he,h.ledger.of_same rfl le_rfl fun p hp => ?_,.transit ⟨congrArg (_::·) hpubs,rfl,rfl,rfl,
      rfl,List.take_left' rfl,hlen,fun v hv => .inr (hcount v hv),?_,?_,?_⟩,?_,h.distinct,h.made⟩
    · rcases List.mem_cons.mp hp with rfl|hp
      · exact .inr hu
      · exact .inl hp
    · exact (Function.update_self ..).trans 
        (congrArg (fun n => some (Desc.event n)) (if_neg hsub).symm)
    · rw [htargets]
      exact h.distinct
    · rw [hall,htargets]
      show (copies w call++_).Perm _
      rw [hu.copies]
      exact .refl _
    · rw [hall]
      exact h.enlisted.subNum

/-- After a subscriber has left, the others are notified as before. -/
theorem notified_leave (v : Subscription) :
    notified (leave w v)=(notified w).filter fun u => u.notifyfd≠v.notifyfd := by
  show List.filter _ (List.filter _ w.subs)=List.filter _ (List.filter _ w.subs)
  rw [List.filter_filter,List.filter_filter]
  refine List.filter_congr fun u _ => ?_
  by_cases hne : u.notifyfd=v.notifyfd
  · simp [hne]
  · simp [hne,eventfdRead,fds_leave hne]

/-- A subscriber leaves that was not notified. -/
theorem notified_leave_of_none (hr : eventfdRead w.fds v.notifyfd=none) :
    notified (leave w v)=notified w := by
  rw [notified_leave]
  refine List.filter_eq_self.mpr fun u hu => ?_
  have hread := (List.mem_filter.mp hu).2
  have hne : u.notifyfd≠v.notifyfd := fun he => by simp [he,hr] at hread
  simpa using hne

/-- A notified subscriber leaves. -/
theorem notified_perm (hd : (w.subs.map Subscription.notifyfd).Nodup) (hv : v∈notified w) :
    (notified w).Perm (v::notified (leave w v)) := by
  rw [notified_leave]
  exact perm_cons_filter_ne (hd.sublist (List.filter_sublist.map _)) hv

/-- A subscriber whose counter was not written to leaves. -/
theorem Tracked.leave (h : Tracked w) (hv : v∈w.subs) (hr : eventfdRead w.fds v.notifyfd=none) :
    Tracked (leave w v) := by
  have hsubs : ∀ u∈(PubsubChannel.leave w v).subs,u∈w.subs ∧ u.notifyfd≠v.notifyfd :=
    fun u hu => mem_leave hu
  have hn := notified_leave_of_none hr
  refine ⟨h.enlisted.leave hv,h.ledger.of_same rfl le_rfl fun _ hp => .inl hp,
    h.stage.of_same rfl (fun _ => rfl) hn (fun u hu => .inr ⟨(hsubs u hu).1,?_⟩) fun p hp => ?_,
    h.ackRem.trans (congrArg List.length hn.symm),?_,fun u hu => h.made u (hsubs u hu).1⟩
  · exact fds_leave (hsubs u hu).2
  · exact fds_leave ((h.enlisted.publisher hp).2 v hv)
  · exact h.distinct.sublist (List.filter_sublist.map _)

/-- What the subscribers copy. -/
theorem Transit.copyMessage (h : Transit w p data targets) :
    copyMessage w.chan.msglen w.chan.msg=pure ((data.length : ℤ),data) := by
  rw [h.length,ScheduleState.copyMessage,toInt_of_lt h.short,if_neg (by omega),Int.toNat_natCast,
    h.buffer]
  rfl

/-- A notified subscriber copies the message and leaves, and the publisher is
notified if it was the last one. -/
theorem Tracked.acknowledge {fds : Table} (h : Tracked w) (hw : Transit w p data targets)
    (hv : v∈w.subs) (hr : w.fds v.notifyfd=some (.event 2))
    (hf : ∀ x≠p.notifyfd,fds x=(PubsubChannel.leave w v).fds x)
    (hp : fds p.notifyfd=some (.event
      (if (acknowledge (PubsubChannel.leave w v)).chan.ackRem=0 then 2 else 0))) :
    Tracked (PubsubChannel.reply {acknowledge (PubsubChannel.leave w v) with fds := fds}
      (.subscribed v.call data.length data (some p.call))) := by
  have hpm : p∈w.pubs := by simp [hw.pubs]
  have hmem : v∈notified w := by
    refine List.mem_filter.mpr ⟨hv,?_⟩
    exact Option.isSome_of_eq_some (eventfdRead_eq_some hr (by decide))
  have hperm := notified_perm h.enlisted.distinct hmem
  have hsubs : ∀ u∈(PubsubChannel.leave w v).subs,u∈w.subs ∧ u.notifyfd≠v.notifyfd :=
    fun u hu => mem_leave hu
  have hfds : ∀ u∈(PubsubChannel.leave w v).subs,
      fds u.notifyfd=(PubsubChannel.leave w v).fds u.notifyfd := fun u hu =>
    hf _ ((h.enlisted.publisher hpm).2 u (hsubs u hu).1).symm
  generalize hr' : Reply.subscribed v.call data.length data (some p.call)=r
  have hn : notified (PubsubChannel.reply
      {PubsubChannel.acknowledge (PubsubChannel.leave w v) with fds := fds} r)=
      notified (PubsubChannel.leave w v) := notified_of_same rfl hfds
  refine ⟨(h.enlisted.leave hv).of_same rfl fun x n hx => ?_,h.ledger.append rfl rfl
    (fun _ hp => hp) (fun k hk => ⟨p,hpm,?_⟩) fun k data targets ret he => ?_,.transit (p := p)
    ⟨hw.pubs,hw.request,hw.status,hw.source,hw.length,hw.buffer,hw.short,fun u hu => ?_,hp,hw.nodup,
    ?_⟩,?_,h.distinct.sublist (List.filter_sublist.map _),fun u hu => h.made u (hsubs u hu).1⟩
  · by_cases hx' : x=p.notifyfd
    · exact ⟨_,hx' ▸ hp⟩
    · exact ⟨n,(hf x hx').trans hx⟩
  · rw [← hr'] at hk
    by_contra hne
    exact hk (if_neg fun he => hne (Option.some.inj he))
  · rw [← hr'] at he
    cases he
  · have hsame : fds u.notifyfd=w.fds u.notifyfd :=
      (hfds u hu).trans (fds_leave (hsubs u hu).2)
    show fds u.notifyfd=_ ∨ fds u.notifyfd=_
    rw [hsame]
    exact hw.counters u (hsubs u hu).1
  · have hcopy : copyOf p.call r=some (v.call,(data.length : ℤ),data) := by
      rw [← hr']
      exact if_pos rfl
    rw [copies_of_log (w := w) (r := r) rfl,hn,hcopy,List.append_assoc]
    have hshare := (hperm.map Subscription.call).map fun j => (j,(data.length : ℤ),data)
    exact (List.Perm.append_left _ hshare.symm).trans hw.split
  · rw [hn]
    show sizePred w.chan.ackRem=_
    rw [h.ackRem,hperm.length_eq]
    rfl

/-- The publisher is notified when every target has copied the message, and no
sooner. -/
theorem Transit.notified_iff (hw : Transit w p data targets)
    (ha : w.chan.ackRem=(notified w).length) :
    (eventfdRead w.fds p.notifyfd).isSome ↔ notified w=[] := by
  rw [← List.length_eq_zero_iff,← ha]
  simp only [eventfdRead,hw.counter]
  split_ifs <;> simp_all

theorem Transit.fulfilled (hw : Transit w p data targets) (hn : notified w=[]) :
    Fulfilled w p.call data targets := by
  have hs := hw.split
  rw [hn] at hs
  exact ⟨hw.nodup,by simpa [shares] using hs⟩

/-- A subscriber is resumed. -/
theorem Tracked.subscribeAfterYield (h : Tracked w) (hv : v∈w.subs) :
    ∃ t,subscribeAfterYield w v=.ok t ∧ Tracked t := by
  have hne := h.enlisted.kept_of_mem hv
  cases hr : eventfdRead w.fds v.notifyfd with
  | none =>
    exact ⟨_,subscribeAfterYield_none hne hr,
      (h.leave hv hr).reply (fun _ => rfl) fun _ _ _ _ he => by cases he⟩
  | some count =>
    rw [subscribeAfterYield_some hne hr]
    have htwo : w.fds v.notifyfd=some (.event 2) ∧ count=2 := by
      rcases h.stage.counters v hv with hc|hc
      · simp [eventfdRead,hc] at hr
      · rw [eventfdRead_eq_some hc (by decide)] at hr
        exact ⟨hc,(Option.some.inj hr).symm⟩
    obtain ⟨hc,rfl⟩ := htwo
    cases h.stage with
    | quiet _ _ hq =>
      rw [hq v hv] at hc
      cases hc
    | @transit p data targets hw =>
      have hpm : p∈w.pubs := by simp [hw.pubs]
      obtain ⟨hfd,hapart⟩ := h.enlisted.publisher hpm
      have hfds : (PubsubChannel.leave w v).fds p.notifyfd=w.fds p.notifyfd :=
        fds_leave (hapart v hv)
      have hzero : w.fds p.notifyfd=some (.event 0) := by
        have hmem : v∈notified w := List.mem_filter.mpr ⟨hv,by rw [hr]; rfl⟩
        have hack : w.chan.ackRem≠0 := by
          rw [h.ackRem]
          exact (List.length_pos_of_mem hmem).ne'
        rw [hw.counter,if_neg hack]
      have hsrc : (PubsubChannel.acknowledge (PubsubChannel.leave w v)).source=some p.call :=
        hw.source
      have hcopy : copyMessage (PubsubChannel.acknowledge (PubsubChannel.leave w v)).chan.msglen
          (PubsubChannel.acknowledge (PubsubChannel.leave w v)).chan.msg=
          pure ((data.length : ℤ),data) := hw.copyMessage
      by_cases hlast : (PubsubChannel.acknowledge (PubsubChannel.leave w v)).chan.ackRem=0
      · have hwrite : eventfdWrite (PubsubChannel.leave w v).fds w.chan.pubNotifyfd
            w.chan.status.value=
            some (Function.update (PubsubChannel.leave w v).fds p.notifyfd (some (.event 2))) := by
          rw [← hfd,hw.status,eventfdWrite_event (hfds.trans hzero) (by decide)]
          rfl
        rw [if_pos hlast,subscribeAfterWait_empty hcopy hsrc hwrite]
        refine ⟨_,rfl,h.acknowledge hw hv hc (fun x hx => Function.update_of_ne hx ..) ?_⟩
        rw [if_pos hlast]
        exact Function.update_self ..
      · have htrans : statusOf 2=.trans := rfl
        rw [if_neg hlast,htrans,subscribeAfterWait_trans hcopy hsrc]
        refine ⟨_,rfl,h.acknowledge hw hv hc (fun x hx => rfl) ?_⟩
        rw [if_neg hlast]
        exact hfds.trans hzero

/-- A publisher that was notified is resumed: its message was delivered. -/
theorem Tracked.publishAfterYield (h : Tracked w) (hp : p∈w.pubs)
    (hr : (eventfdRead w.fds p.notifyfd).isSome) :
    ∃ t,publishAfterYield w p=.ok t ∧ Tracked t := by
  cases h.stage with
  | quiet _ hq =>
    rw [hq] at hp
    exact absurd hp List.not_mem_nil
  | @transit q data targets hw =>
    rw [hw.pubs] at hp
    cases List.mem_singleton.mp hp
    have hnone := (hw.notified_iff h.ackRem).mp hr
    have hfull := hw.fulfilled hnone
    have hpm : p∈w.pubs := by simp [hw.pubs]
    obtain ⟨hfd,hapart⟩ := h.enlisted.publisher hpm
    have hok : PubsubChannel.publishAfterYield w p=.ok (PubsubChannel.reply {w with
        fds := EventFd.close w.fds w.chan.pubNotifyfd
        pubs := w.pubs.filter fun q => q.call≠p.call
        chan := {w.chan with status := .empty}}
        (.published p.call data targets (toSsize data.length))) := by
      unfold PubsubChannel.publishAfterYield
      rw [if_neg (by simp [h.enlisted.kept]),hw.request]
      rfl
    have hpubs : w.pubs.filter (fun q => q.call≠p.call)=[] := by simp [hw.pubs]
    have hfds : ∀ v∈w.subs,EventFd.close w.fds w.chan.pubNotifyfd v.notifyfd=w.fds v.notifyfd :=
      fun v hv => Function.update_of_ne (hfd ▸ (hapart v hv).symm) ..
    refine ⟨_,hok,h.enlisted.publishAfterYield hpm hok,h.ledger.append rfl rfl
      (fun q hq => (List.mem_filter.mp hq).1) (fun k hk => absurd rfl hk)
      fun k data' targets' ret he => ?_,.quiet rfl hpubs fun v hv => ?_,?_,h.distinct,h.made⟩
    · cases he
      refine ⟨h.ledger.pending p hpm,fun q hq => absurd (hpubs ▸ hq) List.not_mem_nil,fun _ => ?_⟩
      exact ⟨toSsize_of_lt (hw.short.trans (by decide)),hfull⟩
    · refine (hfds v hv).trans ((hw.counters v hv).resolve_right fun hc => ?_)
      have hmem : v∈notified w := List.mem_filter.mpr
        ⟨hv,Option.isSome_of_eq_some (eventfdRead_eq_some hc (by decide))⟩
      rw [hnone] at hmem
      exact absurd hmem List.not_mem_nil
    · refine h.ackRem.trans (congrArg List.length (Eq.symm ?_))
      exact notified_of_same rfl hfds

/-- Every step of a delivering run keeps track of deliveries. -/
theorem Tracked.step (h : Tracked w) (hd : Delivering w a) (ha : step w a=some (.ok t)) :
    Tracked t := by
  obtain ⟨hin,hshort,hgenuine⟩ := hd
  obtain ⟨hnum,hunused⟩ := h.numbered
  have hkeeps : keeps a=true := by
    cases a <;> first | rfl | exact hin
  have he := h.enlisted.step hkeeps ha
  cases taken_of_step ha with
  | refuseSubscriber => exact hnum.reply (fun _ => rfl) fun _ _ _ _ he => by cases he
  | copyAtOnce _ _ _ _ hnow =>
    simp only [inside,Bool.and_eq_true,decide_eq_true_eq] at hin
    exact absurd hnow (by tauto)
  | enlist hfd => exact hnum.enlist hunused hfd ..
  | refusePublisher hret =>
    refine hnum.reply (fun _ => rfl) fun k _ _ _ he => ?_
    cases he
    exact ⟨hunused,hret⟩
  | @publish _ context _ _ _ hfd _ hst hsub _ _ ht =>
    have hcontext : context≠.outside := of_decide_eq_true hin
    rw [pscPubwait,if_neg hcontext] at ht
    cases ht
    exact hnum.announce hunused hfd hst hsub (of_decide_eq_true hshort) he
  | destroyAgain => cases hin
  | destroyAtOnce => cases hin
  | destroy => cases hin
  | resumeSubscriber hv _ ht =>
    obtain ⟨u,hu,htracked⟩ := h.subscribeAfterYield hv
    cases hu.symm.trans ht
    exact htracked
  | @resumePublisher _ p _ hp ht =>
    have hr : (eventfdRead w.fds p.notifyfd).isSome=true := by
      simpa only [genuine,hp,Option.all_some] using hgenuine
    obtain ⟨u,hu,htracked⟩ := h.publishAfterYield (List.mem_of_find?_eq_some hp) hr
    cases hu.symm.trans ht
    exact htracked
  | elsewhere _ hf => exact h.elsewhere hf

theorem tracked_of_reachable {size : ℕ} (h : Reachable size Delivering w) : Tracked w := by
  refine h.invariant Tracked ⟨enlisted_newChannel size,⟨?_,?_,?_,?_⟩,.quiet rfl rfl ?_,rfl,
    List.nodup_nil,?_⟩ fun _ _ _ hi hc ha => hi.step hc ha
  all_goals simp [newChannel,copies]

/-- In every delivering run `sub_num` and `ack_rem` are exact; a publish call that
has returned a positive size was returned whole by exactly its targets, once
each; and while it is blocked the buffer holds its message, and it can be resumed
only when no notified subscriber is left and all its targets have the message. -/
theorem publish_delivers_once {size : ℕ} (h : Reachable size Delivering w) :
    w.chan.subNum=w.chan.sublist.length ∧ w.chan.ackRem=(notified w).length ∧
    (∀ k data targets ret,.published k data targets ret∈w.log → 0<ret →
      ret=data.length ∧ Fulfilled w k data targets) ∧
    ∀ p∈w.pubs,∃ data targets,p.request=.publish data targets ∧
      w.chan.msglen=data.length ∧ w.chan.msg.take data.length=data ∧
      ((eventfdRead w.fds p.notifyfd).isSome ↔ notified w=[]) ∧
      ((eventfdRead w.fds p.notifyfd).isSome → Fulfilled w p.call data targets) := by
  have hi := tracked_of_reachable h
  refine ⟨?_,hi.ackRem,hi.ledger.completed,fun p hp => ?_⟩
  · rw [hi.enlisted.subNum,hi.enlisted.sublist,List.length_map]
  · cases hi.stage with
    | quiet _ hq =>
      rw [hq] at hp
      exact absurd hp List.not_mem_nil
    | @transit q data targets hw =>
      rw [hw.pubs] at hp
      cases List.mem_singleton.mp hp
      have hn := hw.notified_iff hi.ackRem
      exact ⟨data,targets,hw.request,hw.length,hw.buffer,hn,fun hr => hw.fulfilled (hn.mp hr)⟩

/-- One subscriber receives one message: the results are its length as an `int`
and as an `ssize_t`. -/
theorem delivered_to_one {size : ℕ} (h₀ : 0<data.length) (h₁ : data.length ≤ size)
    (hint : 0≤toInt data.length) :
    ∃ w bytes,Reachable size (fun w a => inside a=true ∧ genuine w a=true) w ∧
      w.log=[.subscribed 0 (toInt data.length) bytes (some 1),
        .published 1 data [0] (toSsize data.length)] := by
  have hmax : (dycoPubsubCreate size).maxsize=size := if_pos (h₀.trans_le h₁)
  obtain ⟨w₁,hw₁⟩ : ∃ w,w=enlist (numbered (newChannel size)) 0 0 5 := ⟨_,rfl⟩
  have s₁ : step (newChannel size) (.subscribe 0 .symmetric size (-1) 5)=some (.ok w₁) := by
    have hnull : ¬((newChannel size).freed=true ∨ size<(newChannel size).chan.maxsize) := by
      simp [newChannel,hmax]
    exact hw₁ ▸ congrArg some ((if_neg hnull).trans rfl)
  obtain ⟨w₂,hw₂⟩ : ∃ w,w=awaitAcks (pscSubnotify (fill (numbered w₁) 1 data)) 1 1 6
    (.publish data [0]) := ⟨_,rfl⟩
  have s₂ : step w₁ (.publish 1 .symmetric data 6)=some (.ok w₂) := by
    rw [hw₁] at hw₂ ⊢
    have hok : ¬(false=true ∨ Status.empty≠.empty ∨ data.length>(dycoPubsubCreate size).maxsize ∨
        data.length=0) := by
      rw [hmax]
      simp only [Bool.false_eq_true,ne_eq,not_true_eq_false,false_or]
      omega
    exact hw₂ ▸ congrArg some ((if_neg hok).trans rfl)
  have hfds : w₂.fds=openEvent (eventfdWriteAll (openEvent (fun _ => none) 5) [5] 2) 6 := by
    rw [hw₂,hw₁]
    rfl
  have hread : eventfdRead w₂.fds 5=some 2 := by
    rw [hfds]
    decide +kernel
  have hwrite : eventfdWrite (EventFd.close w₂.fds 5) 6 2=
      some (Function.update (EventFd.close w₂.fds 5) 6 (some (.event 2))) := by
    have h6 : EventFd.close w₂.fds 5 6=some (.event 0) := by
      rw [hfds]
      decide +kernel
    exact eventfdWrite_event h6 (by decide)
  obtain ⟨hsubs,hkept,hsl,hack,hsrc,hlen,hpub,hst⟩ : w₂.subs=[⟨0,0,5⟩] ∧ w₂.freed=false ∧
      w₂.chan.sublist=[5] ∧ w₂.chan.ackRem=1 ∧ w₂.source=some 1 ∧ w₂.chan.msglen=data.length ∧
      w₂.chan.pubNotifyfd=6 ∧ w₂.chan.status=.trans := by
    rw [hw₂,hw₁]
    exact ⟨rfl,rfl,rfl,rfl,rfl,rfl,rfl,rfl⟩
  obtain ⟨w₃,hw₃⟩ : ∃ w,w=reply {acknowledge (leave w₂ ⟨0,0,5⟩) with
      fds := Function.update (EventFd.close w₂.fds 5) 6 (some (.event 2))}
      (.subscribed 0 (toInt data.length) (w₂.chan.msg.take (toInt data.length).toNat) (some 1)) :=
    ⟨_,rfl⟩
  have s₃ : step w₂ (.resumeSubscriber 0)=some (.ok w₃) := by
    have hcopy : copyMessage w₂.chan.msglen w₂.chan.msg=
        pure (toInt data.length,w₂.chan.msg.take (toInt data.length).toNat) := by
      rw [hlen,copyMessage,if_neg (not_lt.mpr hint)]
      rfl
    have hlast : (acknowledge (leave w₂ ⟨0,0,5⟩)).chan.ackRem=0 := by
      show sizePred w₂.chan.ackRem=0
      rw [hack]
      rfl
    have hne : ¬(w₂.freed=true ∨ w₂.chan.sublist=[]) := by simp [hkept,hsl]
    have hclose : (leave w₂ ⟨0,0,5⟩).fds=EventFd.close w₂.fds 5 := if_pos (by simp [hsl])
    have hafter := subscribeAfterYield_last (v := ⟨0,0,5⟩) hne hread hlast hcopy hsrc
      (by rw [hclose,hpub,hst]; exact hwrite)
    simp only [step,hsubs]
    exact congrArg some (hw₃ ▸ hafter)
  have hpubs : w₃.pubs=[⟨1,1,6,.publish data [0]⟩] := by
    rw [hw₃,hw₂,hw₁]
    rfl
  have hgenuine : genuine w₃ (.resumePublisher 1)=true := by
    have hfds : w₃.fds=Function.update (EventFd.close w₂.fds 5) 6 (some (.event 2)) := by
      rw [hw₃]
      rfl
    have hread : eventfdRead w₃.fds 6=some 2 := by
      rw [hfds]
      exact eventfdRead_eq_some (Function.update_self ..) (by decide)
    simp only [genuine,hpubs]
    simp [hread]
  have s₄ : step w₃ (.resumePublisher 1)=some (.ok (afterPubwait {w₃ with
      fds := EventFd.close w₃.fds w₃.chan.pubNotifyfd
      pubs := []} 1 (.publish data [0]))) := by
    have hkept : w₃.freed=false := by
      rw [hw₃]
      exact hkept
    simp only [step,hpubs]
    refine congrArg some ((if_neg (by simp [hkept])).trans ?_)
    rw [hpubs]
    rfl
  refine ⟨_,w₂.chan.msg.take (toInt data.length).toNat,
    .tail (.tail (.tail (.tail .refl ⟨rfl,rfl⟩ s₁) ⟨rfl,rfl⟩ s₂) ⟨rfl,rfl⟩ s₃)
      ⟨rfl,hgenuine⟩ s₄,?_⟩
  have hlog : w₂.log=[] := by
    rw [hw₂,hw₁]
    rfl
  show w₃.log++_=_
  rw [hw₃]
  show w₂.log++_++_=_
  rw [hlog]
  rfl

/-- A message of 2^32+1 bytes is published whole, and its subscriber returns 1. -/
theorem long_message_truncated :
    ∃ size data w bytes,data.length=2^32+1 ∧
      Reachable size (fun w a => inside a=true ∧ genuine w a=true) w ∧
      w.log=[.subscribed 0 1 bytes (some 1),.published 1 data [0] (2^32+1)] ∧
      ¬Fulfilled w 1 data [0] := by
  obtain ⟨data,hlen⟩ : ∃ data : List UInt8,data.length=2^32+1 :=
    ⟨List.replicate (2^32+1) 7,List.length_replicate⟩
  have hint : toInt data.length=1 := by
    rw [hlen]
    unfold toInt
    decide
  obtain ⟨w,bytes,hw,hlog⟩ := delivered_to_one (show 0<data.length by omega) le_rfl (by omega)
  rw [hint,toSsize_of_lt (by omega),hlen] at hlog
  refine ⟨_,data,w,bytes,hlen,hw,hlog,fun hf => ?_⟩
  have hcopies : copies w 1=[(0,1,bytes)] := by
    rw [copies,hlog]
    rfl
  have hone := List.perm_singleton.mp (hcopies ▸ hf.2.symm)
  simp only [shares,List.map_cons,List.map_nil,List.cons.injEq,Prod.mk.injEq,hlen] at hone
  omega

/-- Two subscribers, of which one is resumed before and one after a third call has
joined; the third then expires. -/
def twoReceivers : List Act :=
  [.subscribe 0 .symmetric 256 (-1) 5,.subscribe 1 .symmetric 256 20 6,
    .publish 2 .symmetric [104,105] 7,.resumeSubscriber 1,.subscribe 3 .symmetric 256 20 6,
    .resumeSubscriber 0,.resumePublisher 2,.resumeSubscriber 3]

theorem publish_delivers_once_twoReceivers :
    ∃ w,replayWhile step Delivering (newChannel 256) twoReceivers=some w ∧
      w.log=[.subscribed 1 2 [104,105] (some 2),.subscribed 0 2 [104,105] (some 2),
        .published 2 [104,105] [1,0] 2,.subscribed 3 (-2) [] none] ∧
      w.chan.subNum=w.chan.sublist.length ∧ w.chan.ackRem=(notified w).length ∧
      (∀ k data targets ret,.published k data targets ret∈w.log → 0<ret →
        ret=data.length ∧ Fulfilled w k data targets) ∧
      ∀ p∈w.pubs,∃ data targets,p.request=.publish data targets ∧
        w.chan.msglen=data.length ∧ w.chan.msg.take data.length=data ∧
        ((eventfdRead w.fds p.notifyfd).isSome ↔ notified w=[]) ∧
        ((eventfdRead w.fds p.notifyfd).isSome → Fulfilled w p.call data targets) := by
  have h : (replayWhile step Delivering (newChannel 256) twoReceivers).map (·.log)=
      some [.subscribed 1 2 [104,105] (some 2),.subscribed 0 2 [104,105] (some 2),
        .published 2 [104,105] [1,0] 2,.subscribed 3 (-2) [] none] := by decide +kernel
  obtain ⟨w,hw,hq⟩ := Option.map_eq_some_iff.mp h
  exact ⟨w,hw,hq,publish_delivers_once (runs_of_replayWhile hw)⟩

end DycoCoroutine.PubsubDelivery
