import Mathlib.Data.List.Nodup
import ShaderKit.Proofs.Faithful

namespace ShaderKit.Cache

open ShaderKit.Action

open Std (ExtTreeMap)

/-!
# What a change of a file does

A change of a file reloads the resources that it concerns one after the other, and lists how each reload
ended.  An error ends one reload and not the others.

* `Renewed` — what one reload among several has made of a shader
* `InTurn` — the reload of a resource among several
* `Faithful.ensures_reloadEach` — what is listed for a resource is the outcome of its reload in its turn
* `fileChanged_listed` — a change of a file lists each resource once that it concerns
* `Faithful.fileChanged_renewed` — and what is listed for a shader is what was made of it
-/

variable {cache mid t u : Cache} {id : ResourceId} {entry : CacheEntry} {services : Services}
  {j : Journal} {files : Provider} {name : String} {shader : Shader}

/-! ### One reload among several -/

/-- What a reload makes of the shader of an id.  An error leaves it as it was.  Otherwise it has taken
    over the text of its file as it is now, and depends on the files that were read for that, its own
    apart. -/
inductive Renewed (files : Provider) (cache : Cache) (id : ResourceId) :
    Except Error Unit → Cache → Prop where
  | error {error : Error} {t : Cache} (same : Undisturbed id cache t) :
    Renewed files cache id (.error error) t
  | ok {entry : CacheEntry} {shader : Shader} {file : SourceFile} {code : String} {t : Cache}
    (found : cache.table.value[id]? = some entry)
    (sound : entry.resource = { value := .shader shader })
    (opened : files entry.key.name = .ok file)
    (text : (shader.expansion files file).text = .ok code)
    (renewed : t.table.value[id]? = some { entry with resource :=
      { value := .shader (shader.takeOver (split shader.context.config.dialect code)) } })
    (depends : ∀ name, t.books.dependencies.Depends id name ↔
      name ∈ (shader.expansion files file).others shader.name) :
    Renewed files cache id (.ok ()) t

/-- What happens to other resources before and after does not matter. -/
theorem Renewed.among {result : Except Error Unit} (h : Renewed files mid id result t)
    (before : Undisturbed id cache mid) (after : Undisturbed id t u) :
    Renewed files cache id result u := by
  cases h with
  | error same => exact .error ((before.trans same).trans after)
  | ok found sound opened text renewed depends =>
    exact .ok (before.table.symm.trans found) sound opened text (after.table.trans renewed)
      fun name => (after.depends name).trans (depends name)

theorem Reloaded.renewed (hr : Reloaded services cache id (.done ()) t) (h : cache.Faithful) :
    Renewed services.files cache id (.ok ()) t := by
  cases hr with
  | loaded found sound opened outcome _ =>
    obtain ⟨hid, -, hshared⟩ := h.entry_shader found (congrArg Guarded.value sound)
    cases outcome with
    | loaded ready text =>
      refine .ok found sound opened text ?_ fun name => ?_
      · rw [table_putShader, if_pos rfl]
        show (cache.table.value[id]?).map _ = _
        rw [found]
        rfl
      · rw [books_putShader, Shader.dependencies_renewed hshared]
        show (((cache.books.dependencies.clear id).registerAll _ _)).Depends id name ↔ _
        rw [hid, DependencyMap.depends_registerAll_clear_self]

theorem Faithful.ownShader (h : cache.Faithful) (he : cache.table.value[id]? = some entry)
    (hs : entry.resource.value = .shader shader) : cache.OwnShader id := by
  intro found hfound
  cases he.symm.trans hfound
  exact ⟨shader, hs, (h.entry_shader he hs).1⟩

/-- Every resource is listed once, and no error ends the list. -/
theorem ensures_reloadEach_listed (ids : List ResourceId) :
    (reloadEach ids).Ensures services (fun ending _ _ => (∀ error, ending ≠ .failed error) ∧
      ∀ outcomes, ending = .done outcomes → outcomes.map Prod.fst = ids) cache j := by
  induction ids generalizing cache j with
  | nil =>
    refine ⟨fun _ h => (by cases h), ?_⟩
    rintro _ ⟨rfl⟩
    rfl
  | cons id ids ih =>
    rw [ensures_reloadEach_cons]
    have hrest (result : Except Error Unit) (t : Cache) (j' : Journal) : (reloadEach ids).Ensures
        services (fun ending _ _ => (∀ error, ending.map ((id, result) :: ·) ≠ .failed error) ∧
          ∀ outcomes, ending.map ((id, result) :: ·) = .done outcomes →
            outcomes.map Prod.fst = id :: ids) t j' := by
      refine ih.mono ?_
      rintro (outcomes | error | reason) _ _ ⟨hne, hids⟩
      · refine ⟨fun _ h => (by cases h), ?_⟩
        rintro _ ⟨rfl⟩
        exact congrArg (id :: ·) (hids _ rfl)
      · exact (hne error rfl).elim
      · exact ⟨fun _ h => (by cases h), fun _ h => by cases h⟩
    have hany : (reload id).Ensures services (fun _ _ _ => True) cache j := trivial
    refine hany.mono ?_
    rintro (_ | error | reason) t j' -
    · exact hrest _ t j'
    · exact hrest _ t j'
    · exact ⟨fun _ h => (by cases h), fun _ h => by cases h⟩

/-! ### A reload in its turn -/

/-- How the ending of a reload is listed. -/
inductive Noted : Ending Unit → Except Error Unit → Prop where
  | ok : Noted (.done ()) (.ok ())
  | error {error : Error} : Noted (.failed error) (.error error)

/-- An ending is listed in one way. -/
theorem Noted.unique {ending : Ending Unit} {result result' : Except Error Unit}
    (h : Noted ending result) (h' : Noted ending result') : result = result' := by
  cases h <;> cases h' <;> rfl

/-- A breakdown is not listed. -/
theorem Noted.calm {ending : Ending Unit} {result : Except Error Unit} (h : Noted ending result) :
    ending.isUnwound = false := by
  cases h <;> rfl

/-- The reload of a resource in its turn: the reloads of others leave the resource undisturbed, those
    before it and those after it. -/
structure InTurn (services : Services) (cache : Cache) (id : ResourceId) (result : Except Error Unit)
    (t mid : Cache) (j : Journal) : Prop where
  faithful : mid.Faithful
  before : Undisturbed id cache mid
  noted : Noted ((reload id).run services mid j).ending result
  after : Undisturbed id ((reload id).run services mid j).state t

/-- The first of several reloads, if the others are of other resources. -/
theorem Faithful.ensures_others (h : cache.Faithful) (hmem : id ∈ cache.table.value)
    {result : Except Error Unit} (hnoted : Noted ((reload id).run services cache j).ending result)
    {ids : List ResourceId} (hid : id ∉ ids) (j' : Journal) :
    (reloadEach ids).Ensures services (fun ending t _ => ∀ outcomes,
      ending.map ((id, result) :: ·) = .done outcomes → ∀ result', (id, result') ∈ outcomes →
        ∃ mid j', InTurn services cache id result' t mid j')
      ((reload id).run services cache j).state j' := by
  have hkeeps : (reload id).Keeps (Preserving Faithful) := closed_faithful.keeps_reload trivial
  have hsame : (reload id).Keeps (Preserving cache.SameKeys) :=
    (stable_sameKeys cache).keeps_reload (h.discreet id)
  have hfaithful : ((reload id).run services cache j).state.Faithful := hkeeps services cache j h
  have hkeys : cache.SameKeys ((reload id).run services cache j).state :=
    hsame services cache j (.refl cache)
  have hothers : ∀ other ∈ ids, other ≠ id := by
    rintro other hother rfl
    exact hid hother
  have hrest := (closed_undisturbed (hkeys.mem_iff.mpr hmem)).keeps_reloadEach hothers services
    ((reload id).run services cache j).state j'
  refine (hrest.and (ensures_reloadEach_listed ids)).mono ?_
  rintro ending t _ ⟨hsame, -, hlisted⟩ outcomes hdone result' hresult
  obtain ⟨rest, hrest, rfl⟩ := Ending.map_eq_done.mp hdone
  rcases List.mem_cons.mp hresult with heq | hresult
  · cases heq
    exact ⟨cache, j, h, .refl, hnoted, (hsame ⟨hfaithful, .refl⟩).2⟩
  · -- The resource is not listed a second time.
    exact (hid (hlisted rest hrest ▸ List.mem_map_of_mem hresult)).elim

/-- What is listed for a resource is the outcome of its reload in its turn. -/
theorem Faithful.ensures_reloadEach (h : cache.Faithful) (hmem : id ∈ cache.table.value)
    {ids : List ResourceId} (hnodup : ids.Nodup) : (reloadEach ids).Ensures services
      (fun ending t _ => ∀ outcomes, ending = .done outcomes → ∀ result, (id, result) ∈ outcomes →
        ∃ mid j', InTurn services cache id result t mid j') cache j := by
  induction ids generalizing cache j with
  | nil =>
    rintro _ ⟨rfl⟩ result hresult
    cases hresult
  | cons first ids ih =>
    obtain ⟨hfirst, hids⟩ := List.nodup_cons.mp hnodup
    rw [ensures_reloadEach_cons]
    by_cases hne : id = first
    · subst hne
      unfold Ensures
      cases hending : ((reload id).run services cache j).ending with
      | done _ => exact h.ensures_others hmem (by rw [hending]; exact .ok) hfirst _
      | failed error => exact h.ensures_others hmem (by rw [hending]; exact .error) hfirst _
      | unwound reason => exact fun _ hdone => by cases hdone
    · have hbefore {mid : Cache} (hmid : mid.Faithful ∧ Undisturbed id cache mid)
          (first' : Except Error Unit) (j' : Journal) : (reloadEach ids).Ensures services
            (fun ending t _ => ∀ outcomes, ending.map ((first, first') :: ·) = .done outcomes →
              ∀ result, (id, result) ∈ outcomes → ∃ mid j', InTurn services cache id result t mid j')
            mid j' := by
        refine (ih hmid.1 (hmid.2.mem_iff.mpr hmem) hids).mono ?_
        rintro ending t _ hrest outcomes hdone result hresult
        obtain ⟨later, hlater, rfl⟩ := Ending.map_eq_done.mp hdone
        have hresult := (List.mem_cons.mp hresult).resolve_left fun heq => hne (congrArg Prod.fst heq)
        obtain ⟨mid', j', turn⟩ := hrest later hlater result hresult
        exact ⟨mid', j', { turn with before := hmid.2.trans turn.before }⟩
      have hkeeps := (closed_undisturbed hmem).keeps_reload (Ne.symm hne) services cache j
      refine hkeeps.mono ?_
      rintro (_ | error | reason) mid j₁ hmid
      · exact hbefore (hmid ⟨h, .refl⟩) _ j₁
      · exact hbefore (hmid ⟨h, .refl⟩) _ j₁
      · exact fun _ hdone => by cases hdone

/-- What a shader has become after its turn. -/
theorem InTurn.renewed {result : Except Error Unit} (turn : InTurn services cache id result t mid j)
    (he : cache.table.value[id]? = some entry) (hs : entry.resource.value = .shader shader) :
    Renewed services.files cache id result t := by
  have hown := turn.faithful.ownShader (turn.before.table.trans he) hs
  have hreloaded : Reloaded services mid id ((reload id).run services mid j).ending
      ((reload id).run services mid j).state := ensures_reload_of turn.faithful.pruned hown
  have hnoted := turn.noted
  have hafter := turn.after
  cases hending : ((reload id).run services mid j).ending with
  | done _ =>
    rw [hending] at hreloaded hnoted
    cases hnoted
    exact (hreloaded.renewed turn.faithful).among turn.before hafter
  | failed error =>
    rw [hending] at hreloaded hnoted
    cases hnoted
    rw [hreloaded.eq_of_failed] at hafter
    exact .error (turn.before.trans hafter)
  | unwound reason =>
    rw [hending] at hnoted
    cases hnoted

/-! ### A change of a file -/

/-- No resource is affected twice. -/
theorem nodup_affected (cache : Cache) (file : String) : (cache.affected file).Nodup := by
  have hloaded : (cache.loadedFrom file).Nodup := by
    unfold loadedFrom
    split
    · exact ExtTreeMap.nodup_keys
    · exact List.nodup_nil
  have hdependents : (cache.books.dependencies.dependents file).Nodup :=
    Std.ExtTreeSet.distinct_toList.imp fun hne heq => hne (Std.LawfulEqCmp.compare_eq_iff_eq.mpr heq)
  refine hloaded.append (hdependents.filter _) fun id hid hid' => ?_
  simp [hid] at hid'

/-- A change of a file leads to the cache after its reloads. -/
theorem next_fileChanged (cache : Cache) (file : String) (services : Services) (j : Journal) :
    (Call.mk (.fileChanged file) services j).next cache =
      ((fileChanged file).run services cache j).state := by
  have hact : (CacheOp.fileChanged file).act.Ensures services
      (fun _ t _ => t = ((fileChanged file).run services cache j).state) cache j := by
    rw [CacheOp.act, ensures_discard]
    rfl
  exact hact

theorem ensures_fileChanged_listed (name : String) :
    (fileChanged name).Ensures services (fun ending _ _ => (∀ error, ending ≠ .failed error) ∧
      ∀ outcomes, ending = .done outcomes → outcomes.map Prod.fst = cache.affected name) cache j :=
  ensures_fileChanged_of (fun _ => ensures_reloadEach_listed _)
    fun _ _ => ⟨fun _ h => (by cases h), fun _ h => by cases h⟩

/-- **A change of a file** lists each resource once that it concerns, unless it is cut short. -/
theorem fileChanged_listed (hid : id ∈ cache.affected name)
    (hcalm : ((fileChanged name).run services cache j).ending.isUnwound = false) :
    ∃ outcomes, ((fileChanged name).run services cache j).ending = .done outcomes ∧
      (outcomes.map Prod.fst).count id = 1 ∧ ∃ result, (id, result) ∈ outcomes := by
  have hlisted : (∀ error, ((fileChanged name).run services cache j).ending ≠ .failed error) ∧
      ∀ outcomes, ((fileChanged name).run services cache j).ending = .done outcomes →
        outcomes.map Prod.fst = cache.affected name := ensures_fileChanged_listed name
  cases hending : ((fileChanged name).run services cache j).ending with
  | done outcomes =>
    have hids := hlisted.2 outcomes hending
    refine ⟨outcomes, rfl, ?_, ?_⟩
    · rw [hids]
      exact List.count_eq_one_of_mem (nodup_affected cache name) hid
    · obtain ⟨⟨_, result⟩, hresult, rfl⟩ := List.mem_map.mp (hids ▸ hid)
      exact ⟨result, hresult⟩
  | failed error => exact (hlisted.1 error hending).elim
  | unwound reason =>
    rw [hending] at hcalm
    cases hcalm

/-- What is listed for a resource is the outcome of its reload in its turn. -/
theorem Faithful.fileChanged_turn (h : cache.Faithful) (hmem : id ∈ cache.table.value)
    {outcomes : List (ResourceId × Except Error Unit)}
    (hdone : ((fileChanged name).run services cache j).ending = .done outcomes)
    {result : Except Error Unit} (hresult : (id, result) ∈ outcomes) :
    ∃ mid j', InTurn services cache id result ((fileChanged name).run services cache j).state mid j' := by
  have hturn : (fileChanged name).Ensures services (fun ending t _ => ∀ outcomes,
      ending = .done outcomes → ∀ result, (id, result) ∈ outcomes →
        ∃ mid j', InTurn services cache id result t mid j') cache j :=
    ensures_fileChanged_of (fun _ => h.ensures_reloadEach hmem (nodup_affected cache name))
      fun _ _ _ h => by cases h
  exact hturn outcomes hdone result hresult

/-- What is listed for a shader is what was made of it. -/
theorem Faithful.fileChanged_renewed (h : cache.Faithful) (he : cache.table.value[id]? = some entry)
    (hs : entry.resource.value = .shader shader) {outcomes : List (ResourceId × Except Error Unit)}
    (hdone : ((fileChanged name).run services cache j).ending = .done outcomes)
    {result : Except Error Unit} (hresult : (id, result) ∈ outcomes) :
    Renewed services.files cache id result ((fileChanged name).run services cache j).state := by
  obtain ⟨mid, j', turn⟩ := h.fileChanged_turn (mem_table_of_entry he) hdone hresult
  exact turn.renewed he hs

end ShaderKit.Cache
