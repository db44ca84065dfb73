import Mathlib.Data.List.AList
import Mathlib.Tactic

/-!
# Entries spread over an array

Elements that carry a key and a value may be the entries of a finite map. They may
also be spread over the slots of an array; then the multiset of all of them is what
counts, and replacing one slot changes it by the difference of the two.
-/

namespace DycoCoroutine.KeyedEntries

variable {ε κ β : Type*}

section Slots

/-- All elements of the first `n` slots, slot by slot. -/
def spread (f : ℕ → List ε) (n : ℕ) : List ε := (List.range n).flatMap f

/-- One slot more. -/
theorem spread_succ (f : ℕ → List ε) (n : ℕ) : spread f (n+1)=spread f n++f n := by
  simp [spread,List.range_succ,List.flatMap_append]

/-- An entry of the whole is one of some slot. -/
theorem mem_spread {f : ℕ → List ε} {n : ℕ} {x : ε} : x∈spread f n ↔ ∃ i<n,x∈f i := by
  simp [spread]

/-- A slot beyond the end does not count. -/
theorem spread_update_of_le (f : ℕ → List ε) {n i : ℕ} (hi : n ≤ i) (l : List ε) :
    spread (Function.update f i l) n=spread f n := by
  induction n with
  | zero => rfl
  | succ n ih =>
    rw [spread_succ,spread_succ,ih (by omega),Function.update_of_ne (by omega)]

/-- A change of one slot. -/
theorem spread_update (f : ℕ → List ε) {n i : ℕ} (hi : i<n) (l : List ε) :
    (spread (Function.update f i l) n : Multiset ε)+f i=spread f n+l := by
  induction n with
  | zero => exact absurd hi (Nat.not_lt_zero i)
  | succ n ih =>
    rw [spread_succ,spread_succ,← Multiset.coe_add,← Multiset.coe_add]
    by_cases hin : i=n
    · subst hin
      rw [spread_update_of_le f le_rfl,Function.update_self,add_right_comm]
    · rw [Function.update_of_ne (Ne.symm hin),add_right_comm,ih (by omega),add_right_comm]

theorem add_singleton (s : Multiset ε) (x : ε) : s+{x}=x ::ₘ s := by
  rw [add_comm,Multiset.singleton_add]

/-- One element in place of another. -/
theorem cons_add_singleton (x y : ε) (s : Multiset ε) : x ::ₘ s+{y}=y ::ₘ s+{x} := by
  rw [add_singleton,add_singleton,Multiset.cons_swap]

end Slots

section Entries

variable {key : ε → κ} {val : ε → β} {s : Multiset ε} {m : AList fun _ : κ => β} {e : ε} {k : κ}

/-- The elements are the entries of the finite map `m`. -/
def Holds (key : ε → κ) (val : ε → β) (s : Multiset ε) (m : AList fun _ : κ => β) : Prop :=
  s.map (fun e => (⟨key e,val e⟩ : Sigma fun _ : κ => β))=m.entries

/-- No entries and the empty map. -/
theorem holds_empty : Holds key val 0 ∅ := rfl

/-- There are as many entries as keys. -/
theorem Holds.card (h : Holds key val s m) : s.card=m.keys.length := by
  have hcard := congrArg Multiset.card h
  rw [Multiset.card_map,Multiset.coe_card] at hcard
  rw [hcard,AList.keys,List.keys,List.length_map]

variable [DecidableEq κ]

/-- An entry is found under its key. -/
theorem Holds.lookup_of_mem (h : Holds key val s m) (he : e∈s) : m.lookup (key e)=some (val e) := by
  have hmem : (⟨key e,val e⟩ : Sigma fun _ : κ => β)∈(m.entries : Multiset _) := by
    rw [← h]
    exact Multiset.mem_map_of_mem _ he
  exact AList.mem_lookup_iff.mpr (Multiset.mem_coe.mp hmem)

/-- What is found is an entry. -/
theorem Holds.exists_of_lookup {b : β} (h : Holds key val s m) (hk : m.lookup k=some b) :
    ∃ e∈s,key e=k ∧ val e=b := by
  have hmem : (⟨k,b⟩ : Sigma fun _ : κ => β)∈(m.entries : Multiset _) :=
    Multiset.mem_coe.mpr (AList.mem_lookup_iff.mp hk)
  rw [← h] at hmem
  obtain ⟨e,he,heq⟩ := Multiset.mem_map.mp hmem
  cases heq
  exact ⟨e,he,rfl,rfl⟩

/-- A key without an entry is not found. -/
theorem Holds.lookup_eq_none (h : Holds key val s m) (hk : ∀ e∈s,key e≠k) :
    m.lookup k=none := by
  cases hl : m.lookup k with
  | none => rfl
  | some b =>
    obtain ⟨e,he,hek,-⟩ := h.exists_of_lookup hl
    exact absurd hek (hk e he)

/-- An element with this key is taken away. -/
theorem Holds.erase (h : Holds key val (e ::ₘ s) m) : Holds key val s (m.erase (key e)) := by
  have hlookup := h.lookup_of_mem (Multiset.mem_cons_self e s)
  have hkey : key e∈m.entries.keys :=
    AList.mem_keys.mp (AList.lookup_isSome.mp (by rw [hlookup]; rfl))
  obtain ⟨b,l₁,l₂,-,hl,herase⟩ := List.exists_of_kerase hkey
  have hb : b=val e := by
    have hmem : (⟨key e,b⟩ : Sigma fun _ : κ => β)∈m.entries := by
      rw [hl]
      exact List.mem_append_right _ List.mem_cons_self
    exact Option.some.inj ((AList.mem_lookup_iff.mpr hmem).symm.trans hlookup)
  have hcons : (⟨key e,val e⟩ : Sigma fun _ : κ => β) ::ₘ s.map (fun e => ⟨key e,val e⟩)=
      ⟨key e,val e⟩ ::ₘ ((l₁++l₂ : List _) : Multiset _) := by
    rw [← Multiset.map_cons (fun e => (⟨key e,val e⟩ : Sigma fun _ : κ => β)) e s]
    refine h.trans ?_
    rw [hl,hb,Multiset.cons_coe]
    exact Multiset.coe_eq_coe.mpr List.perm_middle
  show s.map _=Multiset.ofList (List.kerase (key e) m.entries)
  rw [herase]
  exact Multiset.cons_inj_right _ |>.mp hcons

/-- An element is added when the map has no entry under its key, or when that entry
is taken away. -/
theorem Holds.insert (h : Holds key val s (m.erase (key e))) :
    Holds key val (e ::ₘ s) (m.insert (key e) (val e)) := by
  show Multiset.map _ (e ::ₘ s)=Multiset.ofList (m.insert (key e) (val e)).entries
  rw [Multiset.map_cons,AList.entries_insert,← Multiset.cons_coe]
  exact congrArg _ h

/-- Erasing a key that is not there changes nothing. -/
theorem Holds.erase_of_lookup (h : Holds key val s m) (hk : m.lookup k=none) :
    Holds key val s (m.erase k) := by
  show s.map _=Multiset.ofList (List.kerase k m.entries)
  rw [List.kerase_of_notMem_keys (AList.lookup_eq_none.mp hk)]
  exact h

end Entries

end DycoCoroutine.KeyedEntries
