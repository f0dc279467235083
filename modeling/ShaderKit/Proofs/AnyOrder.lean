import ShaderKit.Proofs.FileChange
import ShaderKit.Proofs.Locality

namespace ShaderKit.Cache

open ShaderKit.Action

open Std (ExtTreeMap)

/-!
# The order of reloads

A change of a file reloads the resources that it concerns one after the other, and each reload works on
the same books as the others, those included from which the list of resources was read.  Since a reload
sees and changes the table and the books under its own id alone, each has the outcome that it has on its
own, and the whole comes to the same in every order:

* `Merged`      — what the reloads of some resources, each on its own from one cache, come to together
* `Merged.cons` — **the step**: one reload in front of others
* `WellMade.ensures_reloadEach_combined` — **the run**: reloads one after the other come to that, or
                  one of them breaks down on its own
* `Merged.perm`, `Merged.eq` — what the reloads come to leaves no room for another order
* `fileChanged_in_any_order` — a change of a file
-/

variable {services : Services} {cache t t' : Cache} {id other : ResourceId}
  {j : Journal}
  {ids ids' : List ResourceId} {outcomes outcomes' : List (ResourceId × Except Error Unit)}
  {result : Except Error Unit} {name : String}

/-! ### One reload after another -/

theorem WellMade.reloaded (h : cache.WellMade) (id : ResourceId) (services : Services) (j : Journal) :
    Reloaded services cache id ((reload id).run services cache j).ending
      ((reload id).run services cache j).state := ensures_reload h

/-- The reload of another resource leaves this one undisturbed. -/
theorem WellMade.undisturbed_reload (h : cache.WellMade) (hne : other ≠ id) (services : Services)
    (j : Journal) : Undisturbed other cache ((reload id).run services cache j).state :=
  ((h.reloaded id services j).sameBesides h).undisturbed hne

/-- What has happened to others does not show in a reload. -/
theorem WellMade.alike_reload (h : cache.WellMade) (h' : t.WellMade) (hsame : Undisturbed id cache t)
    (services : Services) (j k : Journal) :
    ((reload id).run services cache j).Alike (fun c _ t _ => Undisturbed id c t)
      ((reload id).run services t k) :=
  alike_reload_undisturbed hsame (h.faithful.ownEntry id) h.sound h'.sound

/-- So a reload ends alike before and after the reload of another resource. -/
theorem WellMade.alike_reload_after (h : cache.WellMade) (hne : other ≠ id) (services : Services)
    (j k k' : Journal) : ((reload other).run services cache k).Alike
      (fun c _ t _ => Undisturbed other c t)
      ((reload other).run services ((reload id).run services cache j).state k') :=
  h.alike_reload ((h.reloaded id services j).wellMade h) (h.undisturbed_reload hne services j)
    services k k'

/-- A reload that is not cut short changes the table and the books of a cache, and nothing else. -/
theorem Reloaded.frame {ending : Ending Unit} (hr : Reloaded services cache id ending t)
    (hnoted : Noted ending result) : t = { cache with table := t.table, books := t.books } := by
  cases hr with
  | failed => rfl
  | loaded found _ _ _ _ =>
    have hstill : (cache.replaceDependencies id []).table.value[id]? = some _ := found
    simp only [putShader, putResource, hstill]
    rfl
  | brokenBefore => cases hnoted
  | brokenBarred => cases hnoted
  | brokenLoad _ _ => cases hnoted

/-! ### Reloads one after the other -/

/-- What the reloads of some resources come to together: each has the outcome that it has on its own
    from the first cache, whatever the journal, and leaves of its resource what it leaves on its own.
    Nothing else in the cache has changed. -/
structure Merged (services : Services) (cache : Cache) (ids : List ResourceId)
    (outcomes : List (ResourceId × Except Error Unit)) (t : Cache) : Prop where
  wellMade : t.WellMade
  frame : t = { cache with table := t.table, books := t.books }
  listed : outcomes.map Prod.fst = ids
  noted : ∀ id result, (id, result) ∈ outcomes → ∀ k,
    Noted ((reload id).run services cache k).ending result
  reloaded : ∀ id ∈ ids, ∀ k, Undisturbed id ((reload id).run services cache k).state t
  others : ∀ id, id ∉ ids → Undisturbed id cache t

theorem WellMade.merged_nil (h : cache.WellMade) : Merged services cache [] [] cache where
  wellMade := h
  frame := rfl
  listed := rfl
  noted := fun _ _ hmem => by cases hmem
  reloaded := fun _ hmem => by cases hmem
  others := fun _ _ => .refl

/-- **The step.**  What the others come to after a reload is what they come to on their own, together
    with the reload. -/
theorem Merged.cons (h : cache.WellMade)
    (hnoted : Noted ((reload id).run services cache j).ending result)
    (hrest : Merged services ((reload id).run services cache j).state ids outcomes t)
    (hid : id ∉ ids) : Merged services cache (id :: ids) ((id, result) :: outcomes) t := by
  have hself (k : Journal) : ((reload id).run services cache j).Alike
      (fun c _ t _ => Undisturbed id c t) ((reload id).run services cache k) :=
    h.alike_reload h .refl services j k
  have hne {other : ResourceId} (hother : other ∈ ids) : other ≠ id :=
    ne_of_mem_of_not_mem hother hid
  constructor
  case wellMade => exact hrest.wellMade
  case frame =>
    rw [hrest.frame, (h.reloaded id services j).frame hnoted]
  case listed => exact congrArg (id :: ·) hrest.listed
  case noted =>
    intro other result' hmem k
    rcases List.mem_cons.mp hmem with heq | hmem
    · cases heq
      exact (hself k).ending ▸ hnoted
    · have hother : other ∈ ids := hrest.listed ▸ List.mem_map_of_mem hmem
      rw [(h.alike_reload_after (hne hother) services j k k).ending]
      exact hrest.noted other result' hmem k
  case reloaded =>
    intro other hmem k
    rcases List.mem_cons.mp hmem with rfl | hother
    · -- The others leave the resource as its reload has left it.
      exact (hself k).rest.symm.trans (hrest.others other hid)
    · exact (h.alike_reload_after (hne hother) services j k k).rest.trans
        (hrest.reloaded other hother k)
  case others =>
    intro other hmem
    rw [List.mem_cons, not_or] at hmem
    exact (h.undisturbed_reload hmem.1 services j).trans (hrest.others other hmem.2)

/-- What becomes of reloads one after the other: what they come to together, or a breakdown, if one of
    them breaks down on its own. -/
inductive Combined (services : Services) (cache : Cache) (ids : List ResourceId) :
    Ending (List (ResourceId × Except Error Unit)) → Cache → Prop where
  | merged {outcomes : List (ResourceId × Except Error Unit)} {t : Cache}
    (merged : Merged services cache ids outcomes t) : Combined services cache ids (.done outcomes) t
  | broken {id : ResourceId} {reason : String} {t : Cache} (mem : id ∈ ids)
    (breaks : ∀ k, ((reload id).run services cache k).ending.isUnwound = true) :
    Combined services cache ids (.unwound reason) t

/-- **The run.** -/
theorem WellMade.ensures_reloadEach_combined (h : cache.WellMade) (hnodup : ids.Nodup) :
    (reloadEach ids).Ensures services
      (fun ending t _ => Combined services cache ids ending t) cache j := by
  -- Each reload leaves another cache to the next one, which makes no difference there.
  induction ids generalizing cache j with
  | nil => exact .merged h.merged_nil
  | cons id ids ih =>
    obtain ⟨hid, hids⟩ := List.nodup_cons.mp hnodup
    rw [ensures_reloadEach_cons]
    have hrest {result : Except Error Unit}
        (hnoted : Noted ((reload id).run services cache j).ending result) (j' : Journal) :
        (reloadEach ids).Ensures services (fun ending t _ =>
          Combined services cache (id :: ids) (ending.map ((id, result) :: ·)) t)
          ((reload id).run services cache j).state j' := by
      refine (ih ((h.reloaded id services j).wellMade h) hids).mono ?_
      rintro _ t _ (⟨merged⟩ | ⟨mem, breaks⟩)
      · exact .merged (merged.cons h hnoted hid)
      · refine .broken (List.mem_cons_of_mem _ mem) fun k => ?_
        rw [(h.alike_reload_after (ne_of_mem_of_not_mem mem hid) services j k k).ending]
        exact breaks k
    unfold Ensures
    cases hending : ((reload id).run services cache j).ending with
    | done _ => exact hrest (by rw [hending]; exact .ok) _
    | failed error => exact hrest (by rw [hending]; exact .error) _
    | unwound reason =>
      refine .broken List.mem_cons_self fun k => ?_
      rw [← (h.alike_reload h .refl services j k).ending, hending]
      rfl

/-! ### Another order -/

/-- The outcome of a resource is that of its reload, so it is the same in every list. -/
theorem Merged.mem_outcomes (h : Merged services cache ids outcomes t)
    (h' : Merged services cache ids' outcomes' t') (hsub : ids' ⊆ ids)
    {outcome : ResourceId × Except Error Unit} (hmem' : outcome ∈ outcomes') : outcome ∈ outcomes := by
  obtain ⟨id, result'⟩ := outcome
  have hid : id ∈ ids := hsub (h'.listed ▸ List.mem_map_of_mem hmem')
  rw [← h.listed] at hid
  obtain ⟨⟨_, result⟩, hmem, rfl⟩ := List.mem_map.mp hid
  rwa [(h'.noted _ _ hmem' {}).unique (h.noted _ _ hmem {})]

theorem Merged.perm (h : Merged services cache ids outcomes t)
    (h' : Merged services cache ids' outcomes' t') (hperm : ids'.Perm ids) (hnodup : ids.Nodup) :
    outcomes'.Perm outcomes := by
  have hnodup' : ids'.Nodup := hperm.nodup_iff.mpr hnodup
  refine (List.perm_ext_iff_of_nodup ?_ ?_).mpr fun outcome => ⟨?_, ?_⟩
  · exact .of_map Prod.fst (h'.listed ▸ hnodup')
  · exact .of_map Prod.fst (h.listed ▸ hnodup)
  · exact h.mem_outcomes h' hperm.subset
  · exact h'.mem_outcomes h hperm.symm.subset

/-- Caches that agree about every resource, and differ in the table and the books at most, are the
    same. -/
theorem WellMade.eq_of_undisturbed (h : t.WellMade) (h' : t'.WellMade)
    (hframe : t' = { t with table := t'.table, books := t'.books })
    (hsame : ∀ id, Undisturbed id t t') : t' = t := by
  have hvalue : t'.table.value = t.table.value := ExtTreeMap.ext_getElem? fun id => (hsame id).table
  have hpoisoned : t'.table.poisoned = t.table.poisoned := h'.sound.trans h.sound.symm
  have hdependencies : t'.books.dependencies = t.books.dependencies :=
    DependencyMap.eq_of_depends_iff h'.pruned h.pruned fun id => (hsame id).depends
  have hsizes : t'.books.memory.sizes = t.books.memory.sizes :=
    ExtTreeMap.ext_getElem? fun id => (hsame id).size
  have htable : t'.table = t.table := by
    show Guarded.mk t'.table.value t'.table.poisoned = ⟨t.table.value, t.table.poisoned⟩
    rw [hvalue, hpoisoned]
  have hbooks : t'.books = t.books := by
    show Books.mk t'.books.dependencies ⟨t'.books.memory.sizes⟩ =
      ⟨t.books.dependencies, ⟨t.books.memory.sizes⟩⟩
    rw [hdependencies, hsizes]
  rw [hframe, htable, hbooks]

/-- What the reloads leave of each resource is what its reload leaves, so it is the same in every
    order. -/
theorem Merged.eq (h : Merged services cache ids outcomes t)
    (h' : Merged services cache ids' outcomes' t') (hperm : ids'.Perm ids) : t' = t := by
  refine h.wellMade.eq_of_undisturbed h'.wellMade ?_ fun id => ?_
  · rw [h.frame, h'.frame]
  · by_cases hid : id ∈ ids
    · exact (h.reloaded id hid {}).symm.trans (h'.reloaded id (hperm.mem_iff.mpr hid) {})
    · exact (h.others id hid).symm.trans (h'.others id (mt hperm.mem_iff.mp hid))

/-- **Any order.**  If the reloads of some resources come to an end in one order, they come to the same
    in every other. -/
theorem Merged.in_any_order (h : cache.WellMade) (hm : Merged services cache ids outcomes t)
    (hnodup : ids.Nodup) {order : List ResourceId} (horder : order.Perm ids) (k : Journal) :
    ∃ outcomes', ((reloadEach order).run services cache k).ending = .done outcomes' ∧
      outcomes'.Perm outcomes ∧ ((reloadEach order).run services cache k).state = t := by
  have hcombined : Combined services cache order ((reloadEach order).run services cache k).ending
      ((reloadEach order).run services cache k).state :=
    h.ensures_reloadEach_combined (horder.nodup_iff.mpr hnodup)
  generalize ((reloadEach order).run services cache k).ending = ending at hcombined ⊢
  cases hcombined with
  | merged merged => exact ⟨_, rfl, hm.perm merged horder hnodup, hm.eq merged horder⟩
  | broken mem breaks =>
    -- The resource is listed, so its reload does not break down.
    obtain ⟨⟨id, result⟩, hmem, rfl⟩ := List.mem_map.mp (hm.listed ▸ horder.mem_iff.mp mem)
    have hbreaks := breaks {}
    rw [(hm.noted id result hmem {}).calm] at hbreaks
    cases hbreaks

/-! ### A change of a file -/

/-- The outcome of a change of a file that is not cut short. -/
theorem WellMade.fileChanged_merged (h : cache.WellMade)
    (hcalm : ((fileChanged name).run services cache j).ending.isUnwound = false) :
    ∃ outcomes, ((fileChanged name).run services cache j).ending = .done outcomes ∧
      Merged services cache (cache.affected name) outcomes
        ((fileChanged name).run services cache j).state := by
  have hcombined : (fileChanged name).Ensures services (fun ending t _ => ending.isUnwound = false →
      Combined services cache (cache.affected name) ending t) cache j :=
    ensures_fileChanged_of (fun j => (h.ensures_reloadEach_combined (nodup_affected cache name)).mono
      fun _ _ _ hc _ => hc) fun _ _ hcalm => by cases hcalm
  have hc := hcombined hcalm
  generalize ((fileChanged name).run services cache j).ending = ending at hc hcalm ⊢
  cases hc with
  | merged merged => exact ⟨_, rfl, merged⟩
  | broken _ _ => cases hcalm

/-- The resources that a change of a file concerns are those in the table that were loaded from it and
    those that included it. -/
theorem WellMade.mem_affected_iff (h : cache.WellMade) : id ∈ cache.affected name ↔
    (∃ entry, cache.table.value[id]? = some entry ∧ entry.key.name = name) ∨
      id ∈ cache.books.dependencies.dependents name := by
  rw [mem_affected, mem_loadedFrom, and_iff_right h.sound]

/-- **A change of a file is exact, and no order shows in it.**  Take a cache of shaders in any state that
    calls lead to, and a change of a file that no breakdown cuts short.  It lists the shaders of the table
    that were loaded from the file and those that included it, each once, and no others; and what is
    listed for each is the outcome of its reload as if it were the only one.  In every other order the
    reloads list the same outcomes and leave the same cache: the same texts, the same variations with
    their states, the same dependencies and the same memory figures. -/
theorem fileChanged_in_any_order {config : Config} {graphics : Bool}
    {fingerprint : String → Fingerprint}
    (h : Reached (fun _ _ => True) (ofShaders config graphics fingerprint) cache)
    (hcalm : ((fileChanged name).run services cache j).ending.isUnwound = false) :
    ∃ outcomes, ((fileChanged name).run services cache j).ending = .done outcomes ∧
      (outcomes.map Prod.fst).Nodup ∧
      (∀ id, id ∈ outcomes.map Prod.fst ↔
        (∃ entry, cache.table.value[id]? = some entry ∧ entry.key.name = name) ∨
          id ∈ cache.books.dependencies.dependents name) ∧
      (∀ id result, (id, result) ∈ outcomes → ∀ k,
        Noted ((reload id).run services cache k).ending result) ∧
      ∀ order : List ResourceId, order.Perm (cache.affected name) → ∀ k,
        ∃ outcomes', ((reloadEach order).run services cache k).ending = .done outcomes' ∧
          outcomes'.Perm outcomes ∧ ((reloadEach order).run services cache k).state =
            ((fileChanged name).run services cache j).state := by
  have hcache := h.wellMade (wellMade_ofShaders config graphics fingerprint)
  obtain ⟨outcomes, hdone, merged⟩ := hcache.fileChanged_merged hcalm
  have hnodup := nodup_affected cache name
  refine ⟨outcomes, hdone, ?_, fun id => ?_, merged.noted, fun order horder k => ?_⟩
  · rw [merged.listed]
    exact hnodup
  · rw [merged.listed]
    exact hcache.mem_affected_iff
  · exact merged.in_any_order hcache hnodup horder k

/-- Two files that include a third. -/
def sharedFiles : MemoryStore :=
  ((({} : MemoryStore).insert "a" "#include \"c\"\nvoid VS();\n".toUTF8).insert
    "b" "#include \"c\"\nvoid PS();\n".toUTF8).insert "c" "float x;".toUTF8

/-- A cache with a shader for each of them. -/
def sharedCache : Cache :=
  let services : Services := { files := sharedFiles.read }
  let first := (Call.mk (.request ⟨Shader.typeName, "a"⟩) services {}).next
    (ofShaders {} true fun _ => {})
  let second := (Call.mk (.request ⟨Shader.typeName, "b"⟩) services {}).next first
  (Call.mk (.request ⟨Shader.typeName, "c"⟩) services {}).next second

/-- The third file has changed and includes another one, and the first is gone. -/
def changedFiles : MemoryStore :=
  ((sharedFiles.erase "a").insert "c" "#include \"d\"\n".toUTF8).insert "d" "float y;".toUTF8

/-- One of the three reloads fails, and in the order of the ids they come to the same. -/
theorem fileChanged_in_any_order_shared :
    let services : Services := { files := changedFiles.read }
    let out := (fileChanged "c").run services sharedCache {}
    let ordered := (reloadEach [.slot 1 1, .slot 2 1, .slot 3 1]).run services sharedCache {}
    out.ending = .done [(.slot 3 1, .ok ()), (.slot 1 1, .error (.fileNotFound "a")),
        (.slot 2 1, .ok ())] ∧
      out.state.books.dependencies.dependenciesOf (.slot 1 1) = ["c"] ∧
      out.state.books.dependencies.dependenciesOf (.slot 2 1) = ["c", "d"] ∧
      ordered.ending = .done [(.slot 1 1, .error (.fileNotFound "a")), (.slot 2 1, .ok ()),
        (.slot 3 1, .ok ())] ∧
      ordered.state = out.state := by
  intro services out ordered
  have hreached : Reached (fun _ _ => True) (ofShaders {} true fun _ => {}) sharedCache :=
    .call (.call (.call .start _ trivial) _ trivial) _ trivial
  have hcalm : out.ending.isUnwound = false := by decide +kernel
  have haffected : sharedCache.affected "c" = [.slot 3 1, .slot 1 1, .slot 2 1] := by decide +kernel
  obtain ⟨_, -, -, -, -, hany⟩ := fileChanged_in_any_order hreached hcalm
  obtain ⟨_, -, -, hstate⟩ := hany [.slot 1 1, .slot 2 1, .slot 3 1] (haffected ▸ by decide) {}
  exact ⟨by decide +kernel, by decide +kernel, by decide +kernel, by decide +kernel, hstate⟩

end ShaderKit.Cache
