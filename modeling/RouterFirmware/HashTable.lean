import Mathlib.Data.List.AList
import Mathlib.Data.List.FinRange

/-!
# Hash tables

A table of `n` buckets, each of them an association list, with a function that
says which bucket a key belongs in.
-/

variable {K V : Type}

namespace AList

open List

variable [DecidableEq K] {k : K}

theorem mem_entries_iff {s : AList (fun _ : K => V)} {v : V} :
    ⟨k, v⟩ ∈ s.entries ↔ s.lookup k = some v :=
  (mem_dlookup_iff s.nodupKeys).symm

theorem kreplace_cons_self (v v₁ : V) (l : List (Σ _ : K, V)) :
    kreplace k v (⟨k, v₁⟩ :: l) = ⟨k, v⟩ :: l :=
  lookmap_cons_some _ _ (if_pos rfl)

theorem kreplace_cons_of_ne (v : V) {e : (_ : K) × V} (h : k ≠ e.1) (l : List (Σ _ : K, V)) :
    kreplace k v (e :: l) = e :: kreplace k v l :=
  lookmap_cons_none _ _ (if_neg h)

theorem lookup_replace_self {s : AList (fun _ : K => V)} (h : k ∈ s) (v : V) :
    (s.replace k v).lookup k = some v := by
  obtain ⟨l, hl⟩ := s
  change (l.kreplace k v).dlookup k = some v
  replace h : k ∈ l.keys := h
  clear hl
  induction l with
  | nil => exact absurd h not_mem_nil
  | cons e l ih =>
    by_cases hk : k = e.1
    · subst hk
      rw [kreplace_cons_self, dlookup_cons_eq]
    · rw [kreplace_cons_of_ne v hk, dlookup_cons_ne _ _ hk]
      exact ih ((mem_cons.mp h).resolve_left hk)

theorem lookup_replace_of_ne {s : AList (fun _ : K => V)} {k' : K} (h : k' ≠ k) (v : V) :
    (s.replace k v).lookup k' = s.lookup k' := by
  obtain ⟨l, hl⟩ := s
  change (l.kreplace k v).dlookup k' = l.dlookup k'
  clear hl
  induction l with
  | nil => rfl
  | cons e l ih =>
    by_cases hk : k = e.1
    · subst hk
      rw [kreplace_cons_self, dlookup_cons_ne l (⟨e.1, v⟩ : Σ _ : K, V) h, dlookup_cons_ne l e h]
    · rw [kreplace_cons_of_ne v hk]
      by_cases hk' : k' = e.1
      · subst hk'
        rw [dlookup_cons_eq, dlookup_cons_eq]
      · rw [dlookup_cons_ne _ _ hk', dlookup_cons_ne _ _ hk', ih]

end AList

structure HashTable {n : ℕ} (index : K → Fin n) (V : Type) where
  /-- The buckets. -/
  bucket : Fin n → AList (fun _ : K => V)
  /-- A key is in its own bucket. -/
  placed : ∀ (i : Fin n) (k : K), k ∈ bucket i → index k = i

namespace HashTable

variable {n : ℕ} {index : K → Fin n} (t : HashTable index V)

def empty : HashTable index V where
  bucket := fun _ => ∅
  placed := fun _ _ h => absurd h (AList.notMem_empty _)

def entries : List (Σ _ : K, V) := (List.finRange n).flatMap (fun i => (t.bucket i).entries)

theorem nodupKeys_entries : t.entries.NodupKeys := by
  rw [entries, List.flatMap, List.nodupKeys_flatten]
  constructor
  · intro l hl
    obtain ⟨i, -, rfl⟩ := List.mem_map.mp hl
    exact (t.bucket i).nodupKeys
  · rw [List.map_map, List.pairwise_map]
    refine (List.nodup_finRange n).imp fun {i j} hij => ?_
    rw [List.disjoint_left]
    intro k hi hj
    exact hij ((t.placed i k hi).symm.trans (t.placed j k hj))

variable [DecidableEq K]

def lookup (k : K) : Option V := (t.bucket (index k)).lookup k

def setBucket (k : K) (b : AList (fun _ : K => V)) (hb : ∀ k' ∈ b, index k' = index k) :
    HashTable index V where
  bucket := Function.update t.bucket (index k) b
  placed := by
    intro i k' h
    by_cases hi : i = index k
    · subst hi
      rw [Function.update_self] at h
      exact hb k' h
    · rw [Function.update_of_ne hi] at h
      exact t.placed i k' h

def insert (k : K) (v : V) : HashTable index V :=
  if h : k ∈ t.bucket (index k) then
    t.setBucket k ((t.bucket (index k)).replace k v)
      (fun _ hk' => t.placed _ _ (AList.mem_replace.mp hk'))
  else
    t.setBucket k ((t.bucket (index k)).insert k v) (by
      intro k' hk'
      rcases (AList.mem_insert _).mp hk' with rfl | hk'
      · rfl
      · exact t.placed _ _ hk')

def erase (k : K) : HashTable index V :=
  t.setBucket k ((t.bucket (index k)).erase k)
    (fun _ hk' => t.placed _ _ (AList.mem_erase.mp hk').2)

def insertAll (es : List (Σ _ : K, V)) : HashTable index V :=
  es.foldl (fun t e => t.insert e.1 e.2) t

variable (k : K)

@[simp] theorem lookup_empty : (empty : HashTable index V).lookup k = none :=
  AList.lookup_empty k

variable {b : AList (fun _ : K => V)}

theorem lookup_setBucket (k' : K) (hb : ∀ k' ∈ b, index k' = index k) :
    (t.setBucket k b hb).lookup k'
      = if index k' = index k then b.lookup k' else t.lookup k' := by
  unfold lookup setBucket
  by_cases h : index k' = index k
  · rw [if_pos h, h]
    exact congrArg (AList.lookup k') (Function.update_self ..)
  · rw [if_neg h]
    exact congrArg (AList.lookup k') (Function.update_of_ne h ..)

omit [DecidableEq K] in
theorem bucket_setBucket_self
    (hb : ∀ k' ∈ b, index k' = index k) : (t.setBucket k b hb).bucket (index k) = b :=
  Function.update_self ..

omit [DecidableEq K] in
theorem bucket_setBucket_of_ne (hb : ∀ k' ∈ b, index k' = index k)
    {i : Fin n} (hi : i ≠ index k) : (t.setBucket k b hb).bucket i = t.bucket i :=
  Function.update_of_ne hi ..

theorem bucket_insert_of_ne (v : V) {i : Fin n} (hi : i ≠ index k) :
    (t.insert k v).bucket i = t.bucket i := by
  unfold insert
  split <;> exact t.bucket_setBucket_of_ne k _ hi

theorem bucket_erase_of_ne {i : Fin n} (hi : i ≠ index k) : (t.erase k).bucket i = t.bucket i :=
  t.bucket_setBucket_of_ne k _ hi

theorem entries_insert_of_split {k : K} {v v₁ : V} {as bs : List ((_ : K) × V)}
    (h : (t.bucket (index k)).entries = as ++ ⟨k, v₁⟩ :: bs) (has : k ∉ as.keys) :
    ((t.insert k v).bucket (index k)).entries = as ++ ⟨k, v⟩ :: bs := by
  have hmem : k ∈ t.bucket (index k) := by
    show k ∈ (t.bucket (index k)).entries.keys
    rw [h]
    simp [List.keys]
  rw [insert, dif_pos hmem, bucket_setBucket_self]
  show List.kreplace k v (t.bucket (index k)).entries = _
  rw [h]
  clear h hmem
  induction as with
  | nil => exact AList.kreplace_cons_self v v₁ bs
  | cons e as ih =>
    rw [List.keys_cons, List.mem_cons, not_or] at has
    rw [List.cons_append, AList.kreplace_cons_of_ne v has.1, ih has.2, List.cons_append]

theorem entries_insert_of_notMem (v : V) {k : K} (h : t.lookup k = none) :
    ((t.insert k v).bucket (index k)).entries = ⟨k, v⟩ :: (t.bucket (index k)).entries := by
  have hmem : k ∉ t.bucket (index k) := AList.lookup_eq_none.mp h
  rw [insert, dif_neg hmem, bucket_setBucket_self]
  exact AList.entries_insert_of_notMem hmem

theorem entries_erase_of_split {k : K} {v₁ : V} {as bs : List ((_ : K) × V)}
    (h : (t.bucket (index k)).entries = as ++ ⟨k, v₁⟩ :: bs) (has : k ∉ as.keys) :
    ((t.erase k).bucket (index k)).entries = as ++ bs := by
  rw [erase, bucket_setBucket_self]
  show List.kerase k (t.bucket (index k)).entries = _
  rw [h, List.kerase_append_right has]
  exact congrArg (as ++ ·) (List.kerase_cons_eq rfl)

theorem lookup_setBucket_eq_update (hb : ∀ k' ∈ b, index k' = index k)
    (h : ∀ k', k' ≠ k → b.lookup k' = (t.bucket (index k)).lookup k') :
    (t.setBucket k b hb).lookup = Function.update t.lookup k (b.lookup k) := by
  funext k'
  rw [lookup_setBucket]
  by_cases hk : k' = k
  · subst hk
    rw [if_pos rfl, Function.update_self]
  · rw [Function.update_of_ne hk]
    by_cases hi : index k' = index k
    · rw [if_pos hi, h k' hk, lookup, hi]
    · rw [if_neg hi]

theorem lookup_insert (v : V) : (t.insert k v).lookup = Function.update t.lookup k (some v) := by
  unfold insert
  by_cases h : k ∈ t.bucket (index k)
  · rw [dif_pos h, lookup_setBucket_eq_update t k _
      (fun _ hk => AList.lookup_replace_of_ne hk v), AList.lookup_replace_self h]
  · rw [dif_neg h, lookup_setBucket_eq_update t k _
      (fun _ hk => AList.lookup_insert_ne hk), AList.lookup_insert]

theorem lookup_erase : (t.erase k).lookup = Function.update t.lookup k none := by
  unfold erase
  rw [lookup_setBucket_eq_update t k _ (fun _ hk => AList.lookup_erase_ne hk), AList.lookup_erase]

theorem mem_entries {k : K} {v : V} : ⟨k, v⟩ ∈ t.entries ↔ t.lookup k = some v := by
  rw [entries, List.mem_flatMap]
  constructor
  · rintro ⟨i, -, h⟩
    have hi := t.placed i k (List.mem_keys_of_mem h)
    rw [lookup, hi]
    exact AList.mem_entries_iff.mp h
  · intro h
    exact ⟨index k, List.mem_finRange _, AList.mem_entries_iff.mpr h⟩

theorem lookup_insertAll {es : List ((_ : K) × V)} (h : es.NodupKeys) (k : K) :
    (t.insertAll es).lookup k = (es.dlookup k).or (t.lookup k) := by
  induction es generalizing t with
  | nil => simp [insertAll]
  | cons e es ih =>
    obtain ⟨k₁, v₁⟩ := e
    have hrest := List.nodupKeys_of_nodupKeys_cons h
    show ((t.insert k₁ v₁).insertAll es).lookup k = _
    rw [ih _ hrest, lookup_insert]
    by_cases hk : k = k₁
    · subst hk
      rw [List.dlookup_eq_none.mpr (List.notMem_keys_of_nodupKeys_cons h),
        Function.update_self, List.dlookup_cons_eq, Option.none_or, Option.some_or]
    · rw [Function.update_of_ne hk, List.dlookup_cons_ne _ _ hk]

end HashTable
