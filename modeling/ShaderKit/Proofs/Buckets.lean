import ShaderKit.Variation.Cache

namespace ShaderKit

open Std (ExtTreeMap)

/-!
# Buckets lose nothing

A variation cache is searched through buckets, and nothing is known about the fingerprint that fills
them: it may throw all define strings into one.  Seen from outside, the cache is a finite map from
define strings to places all the same.

* `DefineIndex`            — such a map, which numbers the define strings in the order of their entry
* `VariationCache.listed`  — the places in the order in which a walk over the buckets meets them
* `VariationCache.Indexed` — variations and buckets agree with an index: the invariant of the cache
* `VariationCache.Shows`   — what is found, counted and listed is what the index holds
* `Indexed.shows`          — which the invariant guarantees

The invariant survives a new variation and any change of compile states.
-/

/-- A finite map from canonical define strings to the places of their variations. -/
abbrev DefineIndex := ExtTreeMap String Nat

namespace DefineIndex

variable {index : DefineIndex} {d e : String} {i : Nat}

/-- Enters a define string under the next place, unless it has one. -/
def enter (index : DefineIndex) (d : String) : DefineIndex :=
  if d ∈ index then index else index.insert d index.size

/-- A define string that is known is not entered again. -/
theorem enter_of_mem (h : d ∈ index) : index.enter d = index := if_pos h

/-- A new define string gets the next place. -/
theorem enter_of_not_mem (h : d ∉ index) : index.enter d = index.insert d index.size := if_neg h

/-- What an index holds after a define string was entered. -/
theorem mem_enter : e ∈ index.enter d ↔ e = d ∨ e ∈ index := by
  unfold enter
  split
  · rename_i h
    refine ⟨Or.inr, ?_⟩
    rintro (rfl | he)
    · exact h
    · exact he
  · rw [ExtTreeMap.mem_insert, Std.LawfulEqCmp.compare_eq_iff_eq, eq_comm]

/-- The new define string has the next place, and the others have theirs. -/
theorem getElem?_enter_eq_some (h : d ∉ index) :
    (index.enter d)[e]? = some i ↔ (d = e ∧ i = index.size) ∨ index[e]? = some i := by
  rw [enter_of_not_mem h, ExtTreeMap.getElem?_insert]
  simp only [Std.LawfulEqCmp.compare_eq_iff_eq]
  by_cases hd : d = e
  · subst hd
    rw [if_pos rfl, ExtTreeMap.getElem?_eq_none h, Option.some_inj, eq_comm]
    simp
  · rw [if_neg hd]
    simp [hd]

/-- A define string keeps its place. -/
theorem getElem?_enter (h : index[e]? = some i) : (index.enter d)[e]? = some i := by
  by_cases hd : d ∈ index
  · rwa [enter_of_mem hd]
  · exact (getElem?_enter_eq_some hd).mpr (Or.inr h)

end DefineIndex

namespace VariationCache

variable {cache cache' : VariationCache} {index : DefineIndex} {v : Variation} {d : String} {i : Nat}

/-- The define string of the variation at a place. -/
def definesAt? (cache : VariationCache) (i : Nat) : Option String :=
  cache.variations[i]?.map (·.defines)

/-- The places of all variations, bucket by bucket. -/
def listed (cache : VariationCache) : List Nat := cache.buckets.toList.flatMap (·.2)

/-- A place with a define string is one of a variation. -/
theorem lt_of_definesAt? (h : cache.definesAt? i = some d) : i < cache.size := by
  obtain ⟨v, hv, -⟩ := Option.map_eq_some_iff.mp h
  exact (Array.getElem?_eq_some_iff.mp hv).choose

/-- Every variation has a define string. -/
theorem exists_definesAt? (h : i < cache.size) : ∃ d, cache.definesAt? i = some d :=
  ⟨_, by rw [definesAt?, Array.getElem?_eq_getElem h, Option.map_some]⟩

/-- A new variation comes behind the others. -/
theorem definesAt?_push_eq_some : (cache.push v).definesAt? i = some d ↔
    (v.defines = d ∧ i = cache.size) ∨ cache.definesAt? i = some d := by
  have hnowhere : cache.definesAt? cache.size ≠ some d := by
    intro h
    exact Nat.lt_irrefl _ (lt_of_definesAt? h)
  simp only [definesAt?, push, Array.getElem?_push, size] at hnowhere ⊢
  by_cases hi : i = cache.variations.size
  · subst hi
    rw [if_pos rfl, or_iff_left hnowhere]
    simp
  · simp [hi]

/-- Its place comes into the bucket of its fingerprint. -/
theorem mem_buckets_push {value : UInt64} : i ∈ (cache.push v).buckets.getD value [] ↔
    ((cache.fingerprint v.defines).value = value ∧ i = cache.size) ∨
      i ∈ cache.buckets.getD value [] := by
  simp only [push, ExtTreeMap.getD_insert, Std.LawfulEqCmp.compare_eq_iff_eq]
  by_cases hvalue : (cache.fingerprint v.defines).value = value
  · subst hvalue
    rw [if_pos rfl, List.mem_append, List.mem_singleton, bucket]
    simp [or_comm]
  · simp [hvalue]

/-- Variations and buckets agree with an index. -/
structure Indexed (cache : VariationCache) (index : DefineIndex) : Prop where
  size_eq : cache.size = index.size
  /-- The index knows the place of every variation, and nothing else. -/
  place : ∀ d i, index[d]? = some i ↔ cache.definesAt? i = some d
  /-- A bucket has the places of the variations with its fingerprint. -/
  bucket : ∀ value i, i ∈ cache.buckets.getD value [] ↔
    ∃ d, cache.definesAt? i = some d ∧ (cache.fingerprint d).value = value
  /-- No place is twice in a bucket. -/
  nodup : ∀ value, (cache.buckets.getD value []).Nodup

/-- A cache without variations agrees with the empty index. -/
theorem indexed_empty (stage : Stage) (fingerprint : String → Fingerprint) :
    ({ stage, fingerprint } : VariationCache).Indexed ∅ where
  size_eq := rfl
  place := by simp [definesAt?]
  bucket := by simp [definesAt?]
  nodup := by simp

/-- Compile states do not matter. -/
theorem Indexed.congr (h : cache.Indexed index) (hsize : cache'.size = cache.size)
    (hbuckets : cache'.buckets = cache.buckets) (hfingerprint : cache'.fingerprint = cache.fingerprint)
    (hdefines : ∀ i, cache'.definesAt? i = cache.definesAt? i) : cache'.Indexed index where
  size_eq := hsize.trans h.size_eq
  place := by
    intro d i
    rw [hdefines]
    exact h.place d i
  bucket := by
    intro value i
    rw [hbuckets, hfingerprint, hdefines]
    exact h.bucket value i
  nodup := hbuckets ▸ h.nodup

/-- Releasing the programs leaves variations and buckets alone. -/
theorem Indexed.releaseAll (h : cache.Indexed index) : cache.releaseAll.Indexed index := by
  apply h.congr (size_releaseAll cache) rfl rfl
  intro i
  simp only [definesAt?, VariationCache.releaseAll, Array.getElem?_map, Option.map_map]
  congr 1
  funext v
  exact Variation.defines_release v

/-- So does a change of the compile state of one. -/
theorem Indexed.replace (h : cache.Indexed index) (hv : cache.definesAt? i = some v.defines) :
    (cache.replace i v).Indexed index := by
  apply h.congr (size_replace cache i v) rfl rfl
  intro k
  simp only [definesAt?, VariationCache.replace, Array.getElem?_setIfInBounds]
  by_cases hk : i = k
  · subst hk
    have hlt : i < cache.variations.size := lt_of_definesAt? hv
    rw [if_pos rfl, if_pos hlt, Option.map_some]
    exact hv.symm
  · rw [if_neg hk]

/-- **A new variation** is entered in the index under the next place. -/
theorem Indexed.push (h : cache.Indexed index) (hnew : v.defines ∉ index) :
    (cache.push v).Indexed (index.enter v.defines) := by
  constructor
  · rw [size_push, h.size_eq, DefineIndex.enter_of_not_mem hnew, ExtTreeMap.size_insert,
      if_neg (by simpa using hnew)]
  · intro d i
    rw [DefineIndex.getElem?_enter_eq_some hnew, definesAt?_push_eq_some, h.place d i, h.size_eq]
  · intro value i
    rw [mem_buckets_push, h.bucket value i]
    constructor
    · rintro (⟨hvalue, hi⟩ | ⟨d, hd, hvalue⟩)
      · exact ⟨v.defines, definesAt?_push_eq_some.mpr (Or.inl ⟨rfl, hi⟩), hvalue⟩
      · exact ⟨d, definesAt?_push_eq_some.mpr (Or.inr hd), hvalue⟩
    · rintro ⟨d, hd, hvalue⟩
      rcases definesAt?_push_eq_some.mp hd with ⟨rfl, hi⟩ | hd
      · exact Or.inl ⟨hvalue, hi⟩
      · exact Or.inr ⟨d, hd, hvalue⟩
  · intro value
    simp only [VariationCache.push, ExtTreeMap.getD_insert]
    split
    · -- The new place is in no bucket yet.
      refine List.nodup_append.mpr ⟨h.nodup _, by simp, ?_⟩
      intro a ha b hb
      obtain ⟨d, hd, -⟩ := (h.bucket _ a).mp ha
      have hlt := lt_of_definesAt? hd
      rw [List.mem_singleton] at hb
      omega
    · exact h.nodup value

/-! ### What a cache shows -/

/-- **The search** finds what the index holds. -/
theorem Indexed.find?_eq (h : cache.Indexed index) (d : String) : cache.find? d = index[d]? := by
  have hany (i : Nat) : (cache.variations[i]?.any (·.defines == d)) = true ↔
      cache.definesAt? i = some d := by
    cases hv : cache.variations[i]? <;> simp [definesAt?, hv]
  have hfound : ∀ i, cache.find? d = some i → index[d]? = some i := by
    intro i hi
    rw [find?] at hi
    have hmatches := List.find?_some hi
    exact (h.place d i).mpr ((hany i).mp hmatches)
  cases hi : index[d]? with
  | none =>
    cases hf : cache.find? d with
    | none => rfl
    | some i => rw [hfound i hf] at hi; cases hi
  | some i =>
    -- The place is in the bucket that is searched, so the search ends at one with this string.
    have hat := (h.place d i).mp hi
    have hmem : i ∈ cache.bucket d := (h.bucket _ i).mpr ⟨d, hat, rfl⟩
    have hsome : (cache.find? d).isSome = true :=
      List.find?_isSome.mpr ⟨i, hmem, (hany i).mpr hat⟩
    obtain ⟨k, hk⟩ := Option.isSome_iff_exists.mp hsome
    rw [hk, ← hi, hfound k hk]

/-- A place is listed if some bucket has it. -/
theorem mem_listed : i ∈ cache.listed ↔ ∃ value, i ∈ cache.buckets.getD value [] := by
  rw [listed, List.mem_flatMap]
  constructor
  · rintro ⟨⟨value, places⟩, hmem, hi⟩
    have hplaces := ExtTreeMap.mem_toList_iff_getElem?_eq_some.mp hmem
    exact ⟨value, by rwa [ExtTreeMap.getD_eq_getD_getElem?, hplaces]⟩
  · rintro ⟨value, hi⟩
    rw [ExtTreeMap.getD_eq_getD_getElem?] at hi
    cases hplaces : cache.buckets[value]? with
    | none => rw [hplaces] at hi; cases hi
    | some places =>
      rw [hplaces] at hi
      exact ⟨⟨value, places⟩, ExtTreeMap.mem_toList_iff_getElem?_eq_some.mpr hplaces, hi⟩

/-- No place is listed twice: each one is in the bucket of its own fingerprint only. -/
theorem Indexed.nodup_listed (h : cache.Indexed index) : cache.listed.Nodup := by
  have hplaces {value : UInt64} {places : List Nat} (hmem : (value, places) ∈ cache.buckets.toList) :
      cache.buckets.getD value [] = places := by
    rw [ExtTreeMap.getD_eq_getD_getElem?, ExtTreeMap.mem_toList_iff_getElem?_eq_some.mp hmem,
      Option.getD_some]
  have hdistinct : cache.buckets.toList.Pairwise fun a b => ¬ compare a.1 b.1 = .eq :=
    ExtTreeMap.distinct_keys_toList
  apply List.pairwise_flatMap.mpr
  constructor
  · rintro ⟨value, places⟩ hmem
    exact hplaces hmem ▸ h.nodup value
  · -- A variation has one fingerprint, so two buckets have no place in common.
    refine hdistinct.imp_of_mem ?_
    rintro ⟨a, as⟩ ⟨b, bs⟩ ha hb hne i hi k hk rfl
    rw [← hplaces ha] at hi
    rw [← hplaces hb] at hk
    obtain ⟨d, hd, hda⟩ := (h.bucket a i).mp hi
    obtain ⟨e, he, heb⟩ := (h.bucket b i).mp hk
    rw [hd] at he
    cases he
    apply hne
    rw [← hda, ← heb]
    exact Std.ReflCmp.compare_self

/-- **The places that are listed are those of the variations.** -/
theorem Indexed.mem_listed_iff (h : cache.Indexed index) : i ∈ cache.listed ↔ i < cache.size := by
  rw [mem_listed]
  constructor
  · rintro ⟨value, hi⟩
    obtain ⟨d, hd, -⟩ := (h.bucket value i).mp hi
    exact lt_of_definesAt? hd
  · intro hi
    obtain ⟨d, hd⟩ := exists_definesAt? hi
    exact ⟨_, (h.bucket _ i).mpr ⟨d, hd, rfl⟩⟩

/-- **A walk over the buckets** meets what the index holds, each entry once. -/
theorem Indexed.listed_perm (h : cache.Indexed index) :
    (cache.listed.map fun i => (cache.definesAt? i, i)).Perm
      (index.toList.map fun entry => (some entry.1, entry.2)) := by
  have hlisted : (cache.listed.map fun i => (cache.definesAt? i, i)).Nodup := by
    apply List.pairwise_map.mpr
    apply h.nodup_listed.imp
    intro a b hne hab
    exact hne (Prod.mk.inj hab).2
  have hentries : (index.toList.map fun entry => (some entry.1, entry.2)).Nodup := by
    have hdistinct : index.toList.Pairwise fun a b => ¬ compare a.1 b.1 = .eq :=
      ExtTreeMap.distinct_keys_toList
    apply List.pairwise_map.mpr
    apply hdistinct.imp
    intro a b hne hab
    apply hne
    rw [Option.some.inj (Prod.mk.inj hab).1]
    exact Std.ReflCmp.compare_self
  apply (List.perm_ext_iff_of_nodup hlisted hentries).mpr
  rintro ⟨d?, i⟩
  simp only [List.mem_map, Prod.mk.injEq, Prod.exists]
  constructor
  · rintro ⟨i, hi, rfl, rfl⟩
    obtain ⟨d, hd⟩ := exists_definesAt? (h.mem_listed_iff.mp hi)
    have hentry := ExtTreeMap.mem_toList_iff_getElem?_eq_some.mpr ((h.place d i).mpr hd)
    exact ⟨d, i, hentry, hd.symm, rfl⟩
  · rintro ⟨d, i, hentry, rfl, rfl⟩
    have hd := (h.place d i).mp (ExtTreeMap.mem_toList_iff_getElem?_eq_some.mp hentry)
    exact ⟨i, h.mem_listed_iff.mpr (lt_of_definesAt? hd), hd, rfl⟩

/-- Seen from outside a cache is an index: by the search, by the count and by a walk over it. -/
structure Shows (cache : VariationCache) (index : DefineIndex) : Prop where
  find?_eq : ∀ d, cache.find? d = index[d]?
  size_eq : cache.size = index.size
  /-- The walk meets what the index holds, each entry once. -/
  listed_perm : (cache.listed.map fun i => (cache.definesAt? i, i)).Perm
    (index.toList.map fun entry => (some entry.1, entry.2))
  /-- The places are also listed in the order of their define strings. -/
  sorted_perm : cache.sorted.Perm cache.listed

/-- Sorting lists every place once as well. -/
theorem sorted_perm_range (cache : VariationCache) :
    cache.sorted.Perm (List.range cache.size) := by
  have hsorted : cache.sorted.Perm (cache.variations.toList.zipIdx.map (·.2)) :=
    (List.mergeSort_perm _ _).map _
  have hplaces : cache.variations.toList.zipIdx.map (·.2) = List.range cache.size := by
    simp [List.range_eq_range', size]
  rwa [hplaces] at hsorted

/-- **The fingerprint does not show.** -/
theorem Indexed.shows (h : cache.Indexed index) : cache.Shows index where
  find?_eq := h.find?_eq
  size_eq := h.size_eq
  listed_perm := h.listed_perm
  sorted_perm := by
    apply cache.sorted_perm_range.trans
    apply (List.perm_ext_iff_of_nodup List.nodup_range h.nodup_listed).mpr
    intro i
    rw [List.mem_range, h.mem_listed_iff]

end VariationCache

end ShaderKit
