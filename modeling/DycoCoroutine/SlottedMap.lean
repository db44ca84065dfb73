import Mathlib.Data.List.AList
import Mathlib.Tactic

/-!
# Association lists in slots

The keys of an association list fall into slots. The first entry of a slot stays where it
is when another one comes, and a new entry goes right behind it, as in a table whose slots
embed their first node and chain the others. What is found under a key does not depend on
this order; what an iteration over a slot meets while entries are erased does.
-/

namespace DycoCoroutine.SlottedMap

variable {κ β ι : Type*} [DecidableEq ι] {slot : κ → ι} {m : AList fun _ : κ => β} {k : κ} {i : ι}
  {e : Σ _ : κ,β} {l rest : List (Σ _ : κ,β)}

/-- The entries of slot `i`, its first one first. -/
def chain (slot : κ → ι) (m : AList fun _ : κ => β) (i : ι) : List (Σ _ : κ,β) :=
  m.entries.filter fun e => slot e.1=i

/-- No key stands twice in a slot. -/
theorem chain_nodup : ((chain slot m i).map Sigma.fst).Nodup :=
  List.Nodup.sublist (List.filter_sublist.map _) m.nodupKeys

/-- Put an entry right behind the first one of its slot, or last if there is none. -/
def placeBehind (slot : κ → ι) (e : Σ _ : κ,β) : List (Σ _ : κ,β) → List (Σ _ : κ,β)
  | [] => [e]
  | d::rest => if slot d.1=slot e.1 then d::e::rest else d::placeBehind slot e rest

/-- Putting an entry behind the first one of its slot only adds it. -/
theorem placeBehind_perm (slot : κ → ι) (e : Σ _ : κ,β) (l : List (Σ _ : κ,β)) :
    (placeBehind slot e l).Perm (e::l) := by
  induction l with
  | nil => exact List.Perm.refl _
  | cons d rest ih =>
    unfold placeBehind
    split_ifs
    · exact List.Perm.swap e d rest
    · exact (ih.cons d).trans (List.Perm.swap e d rest)

variable [DecidableEq κ]

/-- Enter `b` under the key `k`: in place if the key is there, otherwise behind the first
entry of its slot. -/
def enter (slot : κ → ι) (k : κ) (b : β) (m : AList fun _ : κ => β) : AList fun _ : κ => β :=
  if h : k∈m then m.replace k b
  else ⟨placeBehind slot ⟨k,b⟩ m.entries,by
    have hkeys : (m.insert k b).entries.Perm (placeBehind slot ⟨k,b⟩ m.entries) := by
      rw [AList.entries_insert_of_notMem h]
      exact (placeBehind_perm slot ⟨k,b⟩ m.entries).symm
    exact (List.perm_nodupKeys hkeys).mp (m.insert k b).nodupKeys⟩

/-- Replacing the entry of a key is putting the new one in front and erasing the old. -/
theorem kreplace_perm (b : β) (h : k∈l.keys) :
    (List.kreplace k b l).Perm (⟨k,b⟩::l.kerase k) := by
  induction l with
  | nil => simp at h
  | cons d rest ih =>
    by_cases hk : k=d.1
    · rw [List.kerase_cons_eq hk]
      exact .of_eq (List.lookmap_cons_some _ _ (by simp [hk]))
    · have hmem : k∈rest.keys := by simpa [hk] using h
      have hhead : List.kreplace k b (d::rest)=d::List.kreplace k b rest :=
        List.lookmap_cons_none _ _ (by simp [hk])
      rw [hhead,List.kerase_cons_ne hk]
      exact ((ih hmem).cons d).trans (List.Perm.swap ..)

/-- Up to the order of its entries, the map is the one that an insertion makes. -/
theorem entries_enter (slot : κ → ι) (k : κ) (b : β) (m : AList fun _ : κ => β) :
    (enter slot k b m).entries.Perm (m.insert k b).entries := by
  unfold enter
  split_ifs with h
  · rw [AList.entries_insert]
    exact kreplace_perm b h
  · rw [AList.entries_insert_of_notMem h]
    exact placeBehind_perm slot ⟨k,b⟩ m.entries

/-- The keys after an entry was made. -/
theorem keys_enter (slot : κ → ι) (k : κ) (b : β) (m : AList fun _ : κ => β) :
    (enter slot k b m).keys.Perm (m.insert k b).keys := (entries_enter slot k b m).map Sigma.fst

/-- What is found after an entry was made. -/
theorem lookup_enter (slot : κ → ι) (k x : κ) (b : β) (m : AList fun _ : κ => β) :
    (enter slot k b m).lookup x=if x=k then some b else m.lookup x := by
  rw [AList.perm_lookup (entries_enter slot k b m)]
  split_ifs with h
  · subst h
    exact AList.lookup_insert m
  · exact AList.lookup_insert_ne h

/-- The members of a slot are the entries whose keys fall into it. -/
theorem mem_chain : e∈chain slot m i ↔ m.lookup e.1=some e.2 ∧ slot e.1=i := by
  unfold chain
  rw [List.mem_filter,decide_eq_true_eq]
  exact and_congr_left fun _ => ⟨fun h => AList.mem_lookup_iff.mpr h,AList.mem_lookup_iff.mp⟩

/-- Erasing a key leaves the other entries in their order. -/
theorem kerase_eq_filter (k : κ) (h : l.NodupKeys) : l.kerase k=l.filter fun e => e.1≠k := by
  induction l with
  | nil => rfl
  | cons d rest ih =>
    obtain ⟨hd,hrest⟩ := List.nodupKeys_cons.mp h
    by_cases hk : k=d.1
    · rw [List.kerase_cons_eq hk,List.filter_cons_of_neg (by simp [hk]),eq_comm,List.filter_eq_self]
      intro e he
      have hne : e.1≠k := fun heq => hd (by rw [← hk,← heq]; exact List.mem_keys_of_mem he)
      simpa using hne
    · rw [List.kerase_cons_ne hk,List.filter_cons_of_pos (by simpa using Ne.symm hk),ih hrest]

/-- Erasing a key takes its entry out of its slot. -/
theorem chain_erase (slot : κ → ι) (m : AList fun _ : κ => β) (k : κ) (i : ι) :
    chain slot (m.erase k) i=(chain slot m i).filter fun e => e.1≠k := by
  have hentries : (m.erase k).entries=m.entries.filter fun e => e.1≠k :=
    kerase_eq_filter k m.nodupKeys
  unfold chain
  rw [hentries,List.filter_comm]

/-- The other slots are not touched. -/
theorem chain_erase_of_ne (h : slot k≠i) : chain slot (m.erase k) i=chain slot m i := by
  rw [chain_erase,List.filter_eq_self]
  intro e he
  have hne : e.1≠k := fun heq => h (heq ▸ (mem_chain.mp he).2)
  simpa using hne

/-- The entry behind the first one moves up when that is erased. -/
theorem chain_erase_head (h : chain slot m i=e::rest) : chain slot (m.erase e.1) i=rest := by
  have hnodup : ((e::rest).map Sigma.fst).Nodup := h ▸ chain_nodup
  rw [List.map_cons,List.nodup_cons] at hnodup
  rw [chain_erase,h,List.filter_cons_of_neg (by simp),List.filter_eq_self]
  intro d hd
  have hne : d.1≠e.1 := fun heq => hnodup.1 (heq ▸ List.mem_map_of_mem hd)
  simpa using hne

/-- Whether `k` is the first of several keys of its slot. -/
def heads (slot : κ → ι) (m : AList fun _ : κ => β) (k : κ) : Bool :=
  match chain slot m (slot k) with
  | e::_::_ => e.1=k
  | _ => false

/-- Whether at most one key falls into the slot of `k`. -/
def alone (slot : κ → ι) (m : AList fun _ : κ => β) (k : κ) : Bool :=
  (chain slot m (slot k)).length≤1

end DycoCoroutine.SlottedMap
