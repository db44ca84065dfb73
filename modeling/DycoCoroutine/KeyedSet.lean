import Mathlib.Data.List.Sort
import Mathlib.Tactic

/-!
# Finite sets ordered by a natural key

A set is the list of its members in increasing key order, the key being read
off the member. Search is by key, removal is by identity, insertion refuses a
key that is already present. The retry loop that raises a key until it is
unused ends within the size of the set and finds the least unused key. The
member type is arbitrary.
-/

namespace DycoCoroutine.KeyedSet

variable {α : Type*} {key : α → ℕ}

/-- The member carrying key `k`, if any. -/
def find (key : α → ℕ) (k : ℕ) (l : List α) : Option α :=
  l.find? fun x => key x=k

/-- Members stand in strictly increasing key order, so keys are distinct. -/
def Ordered (key : α → ℕ) (l : List α) : Prop :=
  l.Pairwise fun a b => key a<key b

/-- Put a member at the position of its key. -/
def place (key : α → ℕ) (x : α) (l : List α) : List α :=
  l.orderedInsert (fun a b => key a≤key b) x

/-- Put a member at the position of its key, unless another member has that key. -/
def tryPlace (key : α → ℕ) (x : α) (l : List α) : Option α×List α :=
  (find key (key x) l,if (find key (key x) l).isSome then l else place key x l)

/-- Raise `k` by one while it is in use, at most `fuel` times. -/
def firstUnused (key : α → ℕ) (l : List α) : ℕ → ℕ → ℕ
  | 0,k => k
  | fuel+1,k =>
    match find key k l with
    | some _ => firstUnused key l fuel (k+1)
    | none => k

theorem find_eq_none {k : ℕ} {l : List α} :
    find key k l=none ↔ ∀ y∈l,key y≠k := by
  simp [find]

theorem find_eq_some {k : ℕ} {l : List α} {x : α} (h : find key k l=some x) :
    x∈l ∧ key x=k := by
  refine ⟨List.mem_of_find?_eq_some h,?_⟩
  simpa using List.find?_some h

@[simp] theorem mem_place {x y : α} {l : List α} :
    y∈place key x l ↔ y=x ∨ y∈l :=
  List.mem_orderedInsert _

/-- A member goes between the smaller and the greater ones. -/
theorem place_append {x : α} {b a : List α} (hb : ∀ y∈b,key y<key x) (ha : ∀ y∈a,key x<key y) :
    place key x (b++a)=b++x::a := by
  induction b with
  | nil =>
    cases a with
    | nil => rfl
    | cons y a =>
      have hy := ha y List.mem_cons_self
      rw [List.nil_append,place,List.orderedInsert_cons,if_pos hy.le,List.nil_append]
  | cons y b ih =>
    have hy := hb y List.mem_cons_self
    rw [List.cons_append,place,List.orderedInsert_cons,if_neg (not_le.mpr hy),List.cons_append,
      ← ih fun z hz => hb z (List.mem_cons_of_mem y hz),place]

theorem Ordered.nodup {l : List α} (h : Ordered key l) : l.Nodup :=
  h.imp fun hlt heq => by
    subst heq
    exact Nat.lt_irrefl _ hlt

theorem Ordered.eq_of_key_eq {l : List α} (h : Ordered key l) {x y : α} (hx : x∈l) (hy : y∈l)
    (hk : key x=key y) : x=y := by
  have hdistinct : (l.map key).Nodup := List.pairwise_map.mpr (h.imp ne_of_lt)
  exact List.inj_on_of_nodup_map hdistinct hx hy hk

theorem Ordered.find_of_mem {l : List α} (h : Ordered key l) {x : α} (hx : x∈l) :
    find key (key x) l=some x := by
  cases hf : find key (key x) l with
  | none => exact absurd rfl (find_eq_none.mp hf x hx)
  | some y =>
    obtain ⟨hy,hk⟩ := find_eq_some hf
    rw [h.eq_of_key_eq hy hx hk]

/-- Placing a member whose key is unused keeps the order. -/
theorem Ordered.place {l : List α} (h : Ordered key l) {x : α} (hx : ∀ y∈l,key y≠key x) :
    Ordered key (place key x l) := by
  induction l with
  | nil => exact List.pairwise_singleton _ _
  | cons y l ih =>
    obtain ⟨hhead,htail⟩ := List.pairwise_cons.mp h
    have hy := hx y List.mem_cons_self
    rw [KeyedSet.place,List.orderedInsert_cons]
    split_ifs with hle
    · refine List.pairwise_cons.mpr ⟨?_,h⟩
      intro z hz
      rcases List.mem_cons.mp hz with rfl|hz
      · omega
      · have hz' := hhead z hz
        omega
    · refine List.pairwise_cons.mpr ⟨?_,ih htail fun z hz => hx z (List.mem_cons_of_mem _ hz)⟩
      intro z hz
      rcases mem_place.mp hz with rfl|hz
      · omega
      · exact hhead z hz

/-- Removal keeps the order. -/
theorem Ordered.erase [DecidableEq α] {l : List α} (h : Ordered key l) (x : α) :
    Ordered key (l.erase x) :=
  h.sublist List.erase_sublist

/-- The order depends only on the keys of the members. -/
theorem Ordered.congr {key' : α → ℕ} {l : List α} (h : Ordered key l)
    (hk : ∀ y∈l,key' y=key y) : Ordered key' l :=
  List.Pairwise.imp_of_mem (fun ha hb hab => by rw [hk _ ha,hk _ hb]; exact hab) h

/-- The retry loop with `fuel` rounds either stops at an unused key or has
found `fuel` consecutive used keys. -/
theorem firstUnused_cases (l : List α) (fuel k : ℕ) :
    (∀ y∈l,key y≠firstUnused key l fuel k) ∨ ∀ i<fuel,∃ y∈l,key y=k+i := by
  induction fuel generalizing k with
  | zero => exact .inr fun i hi => absurd hi (Nat.not_lt_zero i)
  | succ fuel ih =>
    rw [firstUnused]
    cases hf : find key k l with
    | none => exact .inl (find_eq_none.mp hf)
    | some x =>
      obtain ⟨hx,hk⟩ := find_eq_some hf
      rcases ih (k+1) with hstop|hused
      · exact .inl hstop
      · refine .inr fun i hi => ?_
        cases i with
        | zero => exact ⟨x,hx,hk⟩
        | succ i =>
          obtain ⟨y,hy,hyk⟩ := hused i (by omega)
          exact ⟨y,hy,by omega⟩

/-- A set has as many members as it uses consecutive keys. -/
theorem le_length_of_used {l : List α} {n k : ℕ} (h : ∀ i<n,∃ y∈l,key y=k+i) : n≤l.length := by
  have hsub : (List.range n).map (k+·)⊆l.map key := by
    intro j hj
    obtain ⟨i,hi,rfl⟩ := List.mem_map.mp hj
    obtain ⟨y,hy,hk⟩ := h i (List.mem_range.mp hi)
    exact List.mem_map.mpr ⟨y,hy,hk⟩
  have hnodup : ((List.range n).map (k+·)).Nodup :=
    List.nodup_range.map fun a b h => by simpa using h
  simpa using hnodup.length_le_of_subset hsub

/-- One round more than the set has members is enough: by counting, some key
of the window is unused, and the loop stops there. -/
theorem firstUnused_unused (l : List α) (k : ℕ) :
    ∀ y∈l,key y≠firstUnused key l (l.length+1) k := by
  rcases firstUnused_cases l (l.length+1) k with hstop|hused
  · exact hstop
  · exact absurd (le_length_of_used hused) (Nat.not_succ_le_self _)

theorem le_firstUnused (l : List α) (fuel k : ℕ) : k≤firstUnused key l fuel k := by
  induction fuel generalizing k with
  | zero => exact le_rfl
  | succ fuel ih =>
    rw [firstUnused]
    split
    · exact (Nat.le_succ k).trans (ih (k+1))
    · exact le_rfl

/-- The loop passes used keys only. -/
theorem used_of_lt_firstUnused (l : List α) (fuel k : ℕ) :
    ∀ j,k≤j → j<firstUnused key l fuel k → ∃ y∈l,key y=j := by
  induction fuel generalizing k with
  | zero => exact fun j hk hj => absurd hj (by rw [firstUnused]; omega)
  | succ fuel ih =>
    intro j hk hj
    rw [firstUnused] at hj
    cases hf : find key k l with
    | none =>
      rw [hf] at hj
      exact absurd hj (not_lt.mpr hk)
    | some x =>
      rw [hf] at hj
      rcases hk.eq_or_lt with rfl|hlt
      · exact ⟨x,find_eq_some hf⟩
      · exact ih (k+1) j hlt hj

/-- The loop goes up to `d` exactly if all keys below are used. -/
theorem le_firstUnused_iff (l : List α) (k d : ℕ) :
    d≤firstUnused key l (l.length+1) k ↔ ∀ j,k≤j → j<d → ∃ y∈l,key y=j := by
  refine ⟨fun hd j hk hj => used_of_lt_firstUnused l _ k j hk (hj.trans_le hd),fun h => ?_⟩
  by_contra hlt
  obtain ⟨y,hy,hkey⟩ := h _ (le_firstUnused l _ k) (not_le.mp hlt)
  exact firstUnused_unused l k y hy hkey

/-- The loop finds the least unused key. -/
theorem isLeast_firstUnused (l : List α) (k : ℕ) :
    IsLeast {j | k≤j ∧ ∀ y∈l,key y≠j} (firstUnused key l (l.length+1) k) := by
  refine ⟨⟨le_firstUnused l _ k,firstUnused_unused l k⟩,fun j hj => ?_⟩
  by_contra hlt
  obtain ⟨y,hy,hkey⟩ := used_of_lt_firstUnused l _ k j hj.1 (not_le.mp hlt)
  exact hj.2 y hy hkey

/-- The least unused key is at most the size of the set away. -/
theorem firstUnused_le (l : List α) (k : ℕ) : firstUnused key l (l.length+1) k≤k+l.length := by
  have hle : k≤firstUnused key l (l.length+1) k := le_firstUnused l _ k
  have hused : ∀ i<firstUnused key l (l.length+1) k-k,∃ y∈l,key y=k+i := fun i hi =>
    used_of_lt_firstUnused l (l.length+1) k (k+i) (Nat.le_add_right k i) (by omega)
  have hlen := le_length_of_used hused
  omega

end DycoCoroutine.KeyedSet
