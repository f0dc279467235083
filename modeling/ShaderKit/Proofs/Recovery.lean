import ShaderKit.Proofs.Inclusion
import ShaderKit.Proofs.Watching

namespace ShaderKit

open ShaderKit.Action

/-!
# Recovery after a broken edit

A reload that fails gives the dependencies of the last good load back, and so these are what the shader
goes on watching.  A file that only the broken version includes is not among them, but some file is that
was changed since the good load.

* `Error.file?`    — the file that an error puts the blame on
* `Call.BreaksOver` — a call fails to reload a shader because of a file
* `Thwarted`       — what keeps a shader from being reloaded
* `Recovered`      — the shader is as a new one would be that loads the file
* `InTurn.recovered` — a reload succeeds if a new shader would load the file
* `broken_edit_recovers` — which changes of files lead to that
* `Stranded`, `culprit_not_watched` — which do not, and what becomes of it when somebody interferes
-/

/-- The file that could not be opened for an include, or is no text. -/
def Error.file? : Error → Option String
  | .includeNotFound name _ => some name
  | .invalidSource name _ => some name
  | _ => none

/-- The call fails to reload a resource: it is a reload of it, or a change of a file that reloads it among
    others. -/
def Call.Fails (call : Call) (cache : Cache) (id : ResourceId) (error : Error) : Prop :=
  match call.op with
  | .reload other => other = id ∧ (call.outcome cache).ending = .failed error
  | .fileChanged name => ∃ outcomes, (id, .error error) ∈ outcomes ∧
    ((Cache.fileChanged name).run call.services cache call.journal).ending = .done outcomes
  | _ => False

/-- The call fails to reload a resource because of a file: the error puts the blame on it, or it is the
    resource's own file and could not be opened. -/
def Call.BreaksOver (call : Call) (cache : Cache) (id : ResourceId) (culprit : String) : Prop :=
  ∃ error, call.Fails cache id error ∧ (error.file? = some culprit ∨
    ∃ entry, cache.table.value[id]? = some entry ∧ entry.key.name = culprit ∧
      call.services.files culprit = .error error)

namespace Shader

variable {services : Services} {j : Journal} {file : SourceFile} {desk : Desk Shader}

/-- A shader that loads a file as its first, beside books of its own. -/
def loadAnew (shader : Shader) (services : Services) (file : SourceFile) :
    Outcome (Desk Shader) Unit :=
  (load file).run services
    { item := unloaded shader.id shader.name shader.context, books := {} } {}

/-- For want of graphics no file is to blame. -/
theorem ensures_requireGraphics_error : requireGraphics.Ensures services (fun ending _ _ =>
    ∀ error, ending = .failed error → error.file? = none) desk j := by
  have hreport : (report source .graphicsUnavailable : Action (Desk Shader) Unit).Ensures services
      (fun ending _ _ => ∀ error, ending = .failed error → error.file? = none) desk j :=
    ensures_report (by rintro _ _ _ ⟨rfl⟩; rfl) (by rintro _ _ _ _ ⟨⟩)
  unfold requireGraphics
  rw [ensures_bind, ensures_get, after_done]
  split
  · rw [ensures_bind, ensures_read, after_done]
    cases services.backend.availability with
    | available => rintro _ ⟨⟩
    | unavailable => exact hreport
    | broken reason => rintro _ ⟨⟩
  · exact hreport

/-- An error of a load puts the blame on no file, or it is the error of the expansion. -/
theorem ensures_load_error : (load file).Ensures services (fun ending _ _ => ∀ error,
    ending = .failed error → error.file? = none ∨
      (desk.item.expansion services.files file).text = .error error) desk j := by
  unfold load
  simp only [ensures_bind, ensures_get, after_done]
  refine (ensures_requireGraphics.and ensures_requireGraphics_error).mono ?_
  rintro (_ | error | reason) t j₁ ⟨⟨rfl, -⟩, hplain⟩
  rotate_left
  · rintro _ ⟨rfl⟩
    exact .inl (hplain error rfl)
  · rintro _ ⟨⟩
  rw [after_done]
  -- Either subsystem may be missing, and both are reported alike.
  have hmissing (what : String) {next : Unit → Action (Desk Shader) Unit} :
      ((report source (.missingSubsystem what) : Action (Desk Shader) Unit) >>= next).Ensures services
        (fun ending _ _ => ∀ error, ending = .failed error → error.file? = none ∨
          (t.item.expansion services.files file).text = .error error) t j₁ := by
    rw [report_bind]
    exact ensures_report (by rintro _ _ _ ⟨rfl⟩; exact .inl rfl) (by rintro _ _ _ _ ⟨⟩)
  by_cases hf : t.item.context.files = true
  · rw [if_pos hf]
    by_cases hd : t.item.context.dependencies = true
    · rw [if_pos hd, ensures_bind, onDependencies, ensures_focus]
      refine Include.ensures_resolveFor.mono ?_
      rintro _ deps j₂ ⟨-, htext | htext | names⟩
      · simp only [after_done, alone, ensures_bind, ensures_focus, ensures_modify]
        refine ensures_reportMemory ?_
        simp only [after_done, ensures_bind, ensures_get]
        exact ensures_say (by rintro _ _ _ ⟨⟩) (by rintro _ _ _ _ ⟨⟩)
      · rintro _ ⟨rfl⟩
        exact .inr htext
      · rintro _ ⟨⟩
    · rw [if_neg hd]
      exact hmissing "DependencyTracker"
  · rw [if_neg hf]
    exact hmissing "FileProvider"

/-- What a new shader becomes that loads a file with success. -/
theorem loadAnew_of_done {shader : Shader}
    (h : (shader.loadAnew services file).ending = .done ()) : shader.Ready services ∧
      ∃ code, (shader.expansion services.files file).text = .ok code ∧
        (shader.loadAnew services file).state =
          renewed { item := unloaded shader.id shader.name shader.context, books := {} }
            ((shader.expansion services.files file).others shader.name) code := by
  have hload : (load file).Ensures services (fun ending t _ => ending = .done () →
      shader.Ready services ∧ ∃ code, (shader.expansion services.files file).text = .ok code ∧
        t = renewed { item := unloaded shader.id shader.name shader.context, books := {} }
          ((shader.expansion services.files file).others shader.name) code)
      { item := unloaded shader.id shader.name shader.context, books := {} } {} := by
    refine ensures_load.mono ?_
    rintro _ _ _ ⟨-, hloaded⟩ rfl
    cases hloaded with
    | loaded ready text =>
      exact ⟨⟨ready.graphics, ready.available, ready.files, ready.dependencies⟩, _, text, rfl⟩
  exact hload h

end Shader

namespace Cache

variable {cache mid t : Cache} {id : ResourceId} {entry : CacheEntry} {services : Services}
  {j : Journal} {file : SourceFile} {shader : Shader} {poisoned : Bool} {error : Error} {call : Call}
  {name : String}

/-! ### Why a reload fails -/

/-- What keeps a shader of the table from being reloaded. -/
inductive Thwarted (services : Services) (entry : CacheEntry) (shader : Shader) (error : Error) :
    Prop where
  | unopened (absent : services.files entry.key.name = .error error)
  | barred (poisoned : entry.resource.poisoned = true) (blameless : error.file? = none)
  | unready (unready : ¬ shader.Ready services) (blameless : error.file? = none)
  | unexpanded {file : SourceFile} (opened : services.files entry.key.name = .ok file)
    (text : (shader.expansion services.files file).text = .error error)

/-- Why a load of a shader of the cache fails. -/
theorem ensures_loadResource_error
    (hr : cache.resource? id = some { value := .shader shader, poisoned }) :
    (loadResource id file).Ensures services (fun ending _ _ => ∀ error, ending = .failed error →
      poisoned = true ∧ error.file? = none ∨ ¬ shader.Ready services ∧ error.file? = none ∨
        (shader.expansion services.files file).text = .error error) cache j := by
  cases poisoned with
  | true =>
    refine (ensures_loadResource_barred hr).mono ?_
    rintro _ _ _ ⟨-, rfl | ⟨-, hunwound⟩⟩
    · rintro _ ⟨rfl⟩
      exact .inl ⟨rfl, rfl⟩
    · rintro _ rfl
      cases hunwound
  | false =>
    rw [ensures_loadResource_iff (releases_of_shader hr file), loadGuarded, ensures_discard, onResource,
      ensures_focus?_some (by simp [hr]; rfl), ensures_bind, ensures_get, after_done, if_neg (by simp),
      ensures_hold, Resource.load, ensures_bind, ensures_get, after_done, ensures_discard,
      ensures_onShader_shader]
    refine (Shader.ensures_load.and Shader.ensures_load_error).mono ?_
    rintro (_ | error | reason) desk j' ⟨⟨-, hloaded⟩, herror⟩
    · rintro _ ⟨⟩
    · rintro _ ⟨rfl⟩
      refine .inr ?_
      cases hloaded with
      | refused unready => exact (herror error rfl).imp_left (And.intro unready)
      | unexpanded _ text => exact .inr text
    · rintro _ ⟨⟩

/-- Why a reload of a shader fails. -/
theorem Faithful.ensures_reload_error (h : cache.Faithful) (he : cache.table.value[id]? = some entry)
    (hs : entry.resource.value = .shader shader) : (reload id).Ensures services
      (fun ending _ _ => ∀ error, ending = .failed error → Thwarted services entry shader error)
      cache j := by
  have hget : cache.table.get? = some cache.table.value := by simp [Guarded.get?, h.sound]
  unfold reload
  rw [ensures_bind, ensures_get, after_done]
  simp only [hget, he, ensures_bind, ensures_read, after_done]
  cases hf : services.files entry.key.name with
  | error cause =>
    dsimp only
    rw [ensures_bind]
    exact ensures_report (by rintro _ _ _ ⟨rfl⟩; exact .unopened hf) (by rintro _ _ _ _ ⟨⟩)
  | ok file =>
    simp only [ensures_pure, ensures_bind, ensures_modify, after_done, ensures_tryCatch]
    -- Clearing the dependencies leaves the shader in its place.
    have hr : (cache.replaceDependencies id []).resource? id =
        some { value := .shader shader, poisoned := entry.resource.poisoned } := by
      rw [← hs]
      exact resource?_of_entry he
    refine (ensures_loadResource_error hr).mono ?_
    rintro (_ | error | reason) t j' herror
    · rw [caught_done, after_done]
      exact ensures_say (by rintro _ _ _ ⟨⟩) (by rintro _ _ _ _ ⟨⟩)
    · rw [caught_failed, ensures_bind, ensures_modify, after_done, ensures_throw, after_failed]
      rintro _ ⟨rfl⟩
      rcases herror error rfl with ⟨hp, hplain⟩ | ⟨hunready, hplain⟩ | htext
      · exact .barred hp hplain
      · exact .unready hunready hplain
      · exact .unexpanded hf htext
    · rintro _ ⟨⟩

/-- Why it is listed with an error. -/
theorem InTurn.thwarted (turn : InTurn services cache id (.error error) t mid j)
    (he : cache.table.value[id]? = some entry) (hs : entry.resource.value = .shader shader) :
    Thwarted services entry shader error := by
  have hreload : (reload id).Ensures services (fun ending _ _ => ∀ error, ending = .failed error →
      Thwarted services entry shader error) mid j :=
    turn.faithful.ensures_reload_error (turn.before.table.trans he) hs
  have hnoted := turn.noted
  cases hending : ((reload id).run services mid j).ending with
  | failed cause =>
    rw [hending] at hnoted
    cases hnoted
    exact hreload error hending
  | done _ => rw [hending] at hnoted; cases hnoted
  | unwound _ => rw [hending] at hnoted; cases hnoted

/-! ### A call that fails -/

/-- A call that fails to reload a shader does not end its watch. -/
theorem keepsWatch_of_fails (h : call.Fails cache id error) : KeepsWatch id cache call := by
  rcases call with ⟨op, services, j⟩
  cases op with
  | reload other =>
    obtain ⟨rfl, hfailed⟩ := h
    refine ⟨?_, by rintro ⟨⟩, ?_⟩
    · unfold Call.Calm
      rw [hfailed]
      rfl
    · rintro file ⟨-, hdone, -⟩
      cases hfailed.symm.trans hdone
  | fileChanged name =>
    obtain ⟨outcomes, herror, hdone⟩ := h
    refine ⟨?_, by rintro ⟨⟩, ?_⟩
    · have hact : (CacheOp.fileChanged name).act.Ensures services (fun ending _ _ =>
          ending.isUnwound = ((fileChanged name).run services cache j).ending.isUnwound) cache j := by
        rw [CacheOp.act, ensures_discard]
        exact Ending.isUnwound_map _ _
      exact hact.trans (by rw [hdone]; rfl)
    · rintro file ⟨⟨outcomes', hok, hdone'⟩, -⟩
      cases hdone.symm.trans hdone'
      -- The shader is listed once, with its error.
      have hlisted : (∀ error, ((fileChanged name).run services cache j).ending ≠ .failed error) ∧
          ∀ outcomes, ((fileChanged name).run services cache j).ending = .done outcomes →
            outcomes.map Prod.fst = cache.affected name := ensures_fileChanged_listed name
      have hnodup : (outcomes.map Prod.fst).Nodup :=
        hlisted.2 outcomes hdone ▸ nodup_affected cache name
      cases List.inj_on_of_nodup_map hnodup herror hok rfl
  | _ => exact h.elim

theorem faithful_of_fails (h : call.Fails cache id error) : call.Faithful cache := by
  rcases call with ⟨op, services, j⟩
  cases op with
  | request key => exact h.elim
  | _ => trivial

/-- Why a call fails to reload a shader. -/
theorem Faithful.thwarted_of_fails (h : cache.Faithful) (hfails : call.Fails cache id error)
    (he : cache.table.value[id]? = some entry) (hs : entry.resource.value = .shader shader) :
    Thwarted call.services entry shader error := by
  rcases call with ⟨op, services, j⟩
  cases op with
  | reload other =>
    obtain ⟨rfl, hfailed⟩ := hfails
    have hreload : (reload other).Ensures services (fun ending _ _ => ∀ error,
        ending = .failed error → Thwarted services entry shader error) cache j :=
      h.ensures_reload_error he hs
    exact hreload error hfailed
  | fileChanged name =>
    obtain ⟨outcomes, herror, hdone⟩ := hfails
    obtain ⟨mid, j', turn⟩ := h.fileChanged_turn (mem_table_of_entry he) hdone herror
    exact turn.thwarted he hs
  | _ => exact hfails.elim

/-- If a file is to blame, then the own file of the shader cannot be expanded as it is. -/
theorem Faithful.not_succeeds_of_breaks (h : cache.Faithful) {culprit : String}
    (hbreaks : call.BreaksOver cache id culprit) (he : cache.table.value[id]? = some entry)
    (hs : entry.resource.value = .shader shader) (hopen : call.services.files entry.key.name = .ok file) :
    ¬ (shader.expansion call.services.files file).Succeeds := by
  obtain ⟨error, hfails, hblame⟩ := hbreaks
  have hblamed : error.file? ≠ none := by
    rcases hblame with hfile | ⟨entry', he', rfl, habsent⟩
    · rw [hfile]
      exact Option.some_ne_none culprit
    · cases he.symm.trans he'
      cases hopen.symm.trans habsent
  cases h.thwarted_of_fails hfails he hs with
  | unopened absent => cases hopen.symm.trans absent
  | barred _ blameless => exact (hblamed blameless).elim
  | unready _ blameless => exact (hblamed blameless).elim
  | unexpanded opened text =>
    cases hopen.symm.trans opened
    rintro ⟨expanded, hresult⟩
    rw [Include.Expansion.text, hresult] at text
    cases text

/-! ### Recovery -/

/-- The shader of an entry has become what a new shader becomes that loads the file. -/
structure Recovered (services : Services) (entry : CacheEntry) (shader : Shader) (file : SourceFile)
    (id : ResourceId) (t : Cache) : Prop where
  renewed : ∃ recovered, t.table.value[id]? =
      some { entry with resource := { value := .shader recovered } } ∧
    recovered.sources = (shader.loadAnew services file).state.item.sources
  depends : ∀ name, t.books.dependencies.Depends id name ↔
    (shader.loadAnew services file).state.books.dependencies.Depends id name

/-- A reload succeeds if a new shader would load the file, and leads to the same. -/
theorem InTurn.recovered {result : Except Error Unit} (turn : InTurn services cache id result t mid j)
    (he : cache.table.value[id]? = some entry) (hsound : entry.resource = { value := .shader shader })
    (hopen : services.files entry.key.name = .ok file)
    (hfresh : (shader.loadAnew services file).ending = .done ()) :
    result = .ok () ∧ Recovered services entry shader file id t := by
  have hs : entry.resource.value = .shader shader := congrArg Guarded.value hsound
  obtain ⟨ready, code, htext, hanew⟩ := Shader.loadAnew_of_done hfresh
  have hok : result = .ok () := by
    cases result with
    | ok _ => rfl
    | error error =>
      cases turn.thwarted he hs with
      | unopened absent => cases hopen.symm.trans absent
      | barred poisoned _ => rw [hsound] at poisoned; cases poisoned
      | unready unready _ => exact (unready ready).elim
      | unexpanded opened text =>
        cases hopen.symm.trans opened
        cases htext.symm.trans text
  refine ⟨hok, ?_⟩
  subst hok
  obtain ⟨hid, -, hshared⟩ := turn.faithful.entry_shader (turn.before.table.trans he) hs
  cases turn.renewed he hs with
  | @ok _ _ _ _ _ found sound opened text renewed depends =>
    cases he.symm.trans found
    cases hopen.symm.trans opened
    cases hsound.symm.trans sound
    cases htext.symm.trans text
    refine ⟨⟨_, renewed, ?_⟩, fun name => (depends name).trans ?_⟩
    · rw [hanew]
      rfl
    · rw [hanew, Shader.dependencies_renewed hshared]
      show _ ↔ (({} : DependencyMap).registerAll shader.id _).Depends id name
      rw [hid, DependencyMap.depends_registerAll]
      simp [DependencyMap.Depends, DependencyMap.ownersOf]

/-- A change that concerns nothing does nothing. -/
theorem run_fileChanged_of_nil (h : cache.affected name = []) :
    (fileChanged name).run services cache j = ⟨.done [], cache, j⟩ := by
  have hchange : (fileChanged name).Ensures services
      (fun ending t j' => (⟨ending, t, j'⟩ : Outcome Cache _) = ⟨.done [], cache, j⟩) cache j := by
    unfold fileChanged
    rw [ensures_bind, ensures_get, after_done, h]
    rfl
  exact hchange

/-- What a change of a file does to a shader that a new one would load the file like: it recovers if the
    change concerns it, and it is left alone otherwise. -/
theorem Faithful.fileChanged_recovers (h : cache.Faithful) (hknown : cache.Known)
    (he : cache.table.value[id]? = some entry) (hsound : entry.resource = { value := .shader shader })
    (hopen : services.files entry.key.name = .ok file)
    (hfresh : (shader.loadAnew services file).ending = .done ())
    (hcalm : ((fileChanged name).run services cache j).ending.isUnwound = false) :
    ∃ outcomes, ((fileChanged name).run services cache j).ending = .done outcomes ∧
      ((CacheOp.fileChanged name).Concerns cache id → (outcomes.map Prod.fst).count id = 1 ∧
        (id, .ok ()) ∈ outcomes ∧
        Recovered services entry shader file id ((fileChanged name).run services cache j).state) ∧
      (¬ (CacheOp.fileChanged name).Concerns cache id → id ∉ outcomes.map Prod.fst ∧
        Undisturbed id cache ((fileChanged name).run services cache j).state) := by
  have hlisted : (∀ error, ((fileChanged name).run services cache j).ending ≠ .failed error) ∧
      ∀ outcomes, ((fileChanged name).run services cache j).ending = .done outcomes →
        outcomes.map Prod.fst = cache.affected name := ensures_fileChanged_listed name
  have hconcerns : id ∈ cache.affected name ↔ (CacheOp.fileChanged name).Concerns cache id :=
    mem_affected_iff_concerns h.sound
  by_cases hop : (CacheOp.fileChanged name).Concerns cache id
  · obtain ⟨outcomes, hdone, hone, result, hresult⟩ := fileChanged_listed (hconcerns.mpr hop) hcalm
    obtain ⟨mid, j', turn⟩ := h.fileChanged_turn (mem_table_of_entry he) hdone hresult
    obtain ⟨rfl, hrecovered⟩ := turn.recovered he hsound hopen hfresh
    exact ⟨outcomes, hdone, fun _ => ⟨hone, hresult, hrecovered⟩, fun hnot => (hnot hop).elim⟩
  · cases hending : ((fileChanged name).run services cache j).ending with
    | done outcomes =>
      refine ⟨outcomes, rfl, fun hyes => (hop hyes).elim, fun _ => ⟨?_, ?_⟩⟩
      · rw [hlisted.2 outcomes hending]
        exact mt hconcerns.mp hop
      · have hfresh : id ≠ cache.ids.next := by
          rintro rfl
          exact hknown.next_not_mem (mem_table_of_entry he)
        rw [← next_fileChanged]
        exact h.next_undisturbed trivial hfresh he hop
    | failed error => exact (hlisted.1 error hending).elim
    | unwound reason => rw [hending] at hcalm; cases hcalm

/-- **Recovery after a broken edit.**  Take a cache in any state that factories and calls lead to, over any
    files, where shaders are made under the id and the name that their factory was given and no factory
    has broken down.  Take a call that loads a shader with success, and a later one that fails to reload
    it because of a file: its own could not be opened, or an include could not, at whatever depth, or one
    of them is no text.  Between the two, and from there to a third state in which the shader is still in
    the table, nothing breaks down, nobody loads the shader with success and nobody else clears its
    dependencies.  Let a new shader load the file in the third state.  Then a change of a file reloads the
    shader with success, to what the new one becomes, if it is watched, and leaves the shader alone if it
    is not.  The own file is watched, and so is every file that the successful load has read.  If that was
    a load of the own file, one of these was another one when the reload failed. -/
theorem broken_edit_recovers {context : Context} {renew : Nat → Nat} (fresh : IdSource.Renews renew)
    {earlier meanwhile later : List Event} {failing : Call} {culprit : String} {now : SourceFile}
    (run : Run (fun cache call => call.Faithful cache) { context, ids := { renew } } earlier cache)
    (made : call.Faithful cache) (loads : call.Loads cache id file)
    (since : Run (fun cache call => call.Faithful cache ∧ KeepsWatch id cache call) (call.next cache)
      meanwhile mid)
    (breaks : failing.BreaksOver mid id culprit)
    (after : Run (fun cache call => call.Faithful cache ∧ KeepsWatch id cache call) (failing.next mid)
      later t)
    (cached : t.table.value[id]? = some entry) (sound : entry.resource = { value := .shader shader })
    (opened : services.files entry.key.name = .ok now)
    (anew : (shader.loadAnew services now).ending = .done ()) :
    let watched (name : String) := (CacheOp.fileChanged name).Concerns t id
    let read := (shader.expansion call.services.files file).entered
    (∀ name j, ((fileChanged name).run services t j).ending.isUnwound = false →
      ∃ outcomes, ((fileChanged name).run services t j).ending = .done outcomes ∧
        (watched name → (outcomes.map Prod.fst).count id = 1 ∧ (id, .ok ()) ∈ outcomes ∧
          Recovered services entry shader now id ((fileChanged name).run services t j).state) ∧
        (¬ watched name → id ∉ outcomes.map Prod.fst ∧
          Undisturbed id t ((fileChanged name).run services t j).state)) ∧
    watched entry.key.name ∧ (∀ name ∈ read, watched name) ∧
    (call.services.files.Named → call.services.files entry.key.name = .ok file →
      ∃ name ∈ read, failing.services.files name ≠ call.services.files name) := by
  intro watched read
  have shown : entry.resource.value = .shader shader := congrArg Guarded.value sound
  have hcache := run.faithful (faithful_new context { renew }) fun _ _ ok => ok
  have hstart := run.known (known_start context fresh)
  obtain ⟨hreads, hdenotes⟩ := hcache.reads_of_loads hstart made loads
  have hloaded := hcache.next made
  have hknown := hstart.next call
  -- The call that fails is one of those that do not end the watch.
  obtain ⟨error, hfails, hblame⟩ := breaks
  have broken : Run (fun cache call => call.Faithful cache ∧ KeepsWatch id cache call) mid
      ([] ++ failing.events mid) (failing.next mid) :=
    .call .start failing ⟨faithful_of_fails hfails, keepsWatch_of_fails hfails⟩
  have whole := since.trans (broken.trans after)
  have ht := whole.faithful hloaded fun _ _ ok => ok.1
  have hwatched : ∀ name ∈ read, watched name := fun name hname =>
    (whole.watches hloaded hknown hdenotes hreads.watches entry shader cached shown name hname).imp_left
      fun hown => ⟨entry, cached, hown⟩
  refine ⟨fun name j calm => ht.fileChanged_recovers (whole.known hknown) cached sound opened anew calm,
    .inl ⟨entry, cached, rfl⟩, hwatched, fun hnamed hown => ?_⟩
  -- The load has succeeded for the shader as it is now.
  obtain ⟨entry₁, shader₁, he₁, hs₁, -, hcontext₁⟩ :=
    (whole.persists hknown).shader_back hdenotes cached shown
  have hok := hreads.flattens entry₁ shader₁ he₁ hs₁
  rw [Shader.expansion, ← hcontext₁] at hok
  refine Include.exists_changed hnamed hok hown fun broke hopen => ?_
  -- And the failure was one of the shader under the same name.
  have hknown₂ := since.known hknown
  obtain ⟨entry₂, shader₂, he₂, hs₂, hkey₂, hcontext₂⟩ :=
    ((broken.trans after).persists hknown₂).shader_back
      ((since.persists hknown).denotes hdenotes) cached shown
  have hmid := since.faithful hloaded fun _ _ ok => ok.1
  rw [← hkey₂] at hopen
  rw [hcontext₂]
  exact hmid.not_succeeds_of_breaks ⟨error, hfails, hblame⟩ he₂ hs₂ hopen

/-- Two files, the first of which includes the second. -/
def editedFiles : MemoryStore :=
  (({} : MemoryStore).insert "a" "#include \"b\"\nvoid VS();\nvoid PS();".toUTF8).insert
    "b" "float x;".toUTF8

/-- The second file is edited and includes a third one, which is written later. -/
def brokenFiles : MemoryStore := editedFiles.insert "b" "#include \"c\"\n".toUTF8

def mendedFiles : MemoryStore := brokenFiles.insert "c" "float y;".toUTF8

/-- The first request for the shader of the first file. -/
def editedRequest : Call where
  op := .request ⟨Shader.typeName, "a"⟩
  services := { files := editedFiles.read }

/-- The change of the second file, which breaks the shader. -/
def breakingChange : Call where
  op := .fileChanged "b"
  services := { files := brokenFiles.read }

/-- A cache before the request, after it, and after the change. -/
def editedStart : Cache := ofShaders {} true fun _ => {}

def editedCache : Cache := editedRequest.next editedStart

def brokenCache : Cache := breakingChange.next editedCache

/-- The first file, as it is opened all the time. -/
def editedFile : SourceFile := .ofText "a" "#include \"b\"\nvoid VS();\nvoid PS();"

theorem read_editedFile : editedFiles.read "a" = .ok editedFile ∧
    mendedFiles.read "a" = .ok editedFile := by
  have hread : editedFiles.read "a" = .ok editedFile :=
    (MemoryStore.read_insert_of_ne (by decide)).trans MemoryStore.read_insert_self
  refine ⟨hread, ?_⟩
  rw [mendedFiles, MemoryStore.read_insert_of_ne (by decide), brokenFiles,
    MemoryStore.read_insert_of_ne (by decide), hread]

theorem breaksOver_breakingChange : breakingChange.BreaksOver editedCache (.slot 1 1) "c" :=
  ⟨.includeNotFound "c" "b", ⟨[(.slot 1 1, .error (.includeNotFound "c" "b"))], List.mem_cons_self,
    by decide +kernel⟩, .inl rfl⟩

/-- The third file concerns no shader. -/
theorem affected_brokenCache : brokenCache.affected "c" = [] := by decide +kernel

/-- The shader after the change: a new one would load its file after the third one is written, and its
    text would be another one. -/
theorem exists_brokenShader : ∃ entry shader,
    brokenCache.table.value[(.slot 1 1 : ResourceId)]? = some entry ∧
    entry.resource = { value := .shader shader } ∧ entry.key.name = "a" ∧
    shader.context.config.maxIncludeDepth = Include.defaultLimit ∧
    (shader.loadAnew { files := mendedFiles.read } editedFile).ending = .done () ∧
    shader.sources ≠ (shader.loadAnew { files := mendedFiles.read } editedFile).state.item.sources := by
  have hshader : (brokenCache.table.value[(.slot 1 1 : ResourceId)]?.bind fun entry =>
      entry.resource.value.shader?.map fun shader =>
        let anew := shader.loadAnew { files := mendedFiles.read } editedFile
        (entry.resource.poisoned, entry.key.name, shader.context.config.maxIncludeDepth, anew.ending,
          shader.sources.vertex, anew.state.item.sources.vertex)) =
      some (false, "a", Include.defaultLimit, .done (),
        "float x;\n\nvoid VS();\n/* void PS();\n\n*/\n",
        "float y;\n\n\nvoid VS();\n/* void PS();\n\n*/\n") := by
    decide +kernel
  obtain ⟨entry, he, hentry⟩ := Option.bind_eq_some_iff.mp hshader
  obtain ⟨shader, hvalue, hfacts⟩ := Option.map_eq_some_iff.mp hentry
  simp only [Prod.mk.injEq] at hfacts
  obtain ⟨hsound, hname, hlimit, hanew, hold, hnew⟩ := hfacts
  refine ⟨entry, shader, he, ?_, hname, hlimit, hanew, fun hsame => ?_⟩
  · rw [← Resource.eq_of_shader? hvalue, ← hsound]
  · rw [hsame, hnew] at hold
    exact absurd hold (by decide)

/-- A change of the second file, which is watched, reloads the shader; a change of the third one, which
    was to blame, does not concern it. -/
theorem broken_edit_recovers_mended :
    let services : Services := { files := mendedFiles.read }
    let out (name : String) := (fileChanged name).run services brokenCache {}
    ∃ entry shader, brokenCache.table.value[(.slot 1 1 : ResourceId)]? = some entry ∧
      entry.resource = { value := .shader shader } ∧
      (∃ outcomes, (out "b").ending = .done outcomes ∧ (.slot 1 1, .ok ()) ∈ outcomes ∧
        Recovered services entry shader editedFile (.slot 1 1) (out "b").state) ∧
      Undisturbed (.slot 1 1) brokenCache (out "c").state ∧
      ∃ name ∈ (shader.expansion editedFiles.read editedFile).entered,
        brokenFiles.read name ≠ editedFiles.read name := by
  intro services out
  obtain ⟨entry, shader, he, hsound, hname, hlimit, hanew, -⟩ := exists_brokenShader
  have hmade := (wellMade_ofShaders {} true fun _ => {}).call_faithful editedRequest
  have hloads : editedRequest.Loads editedStart (.slot 1 1) editedFile :=
    ⟨by decide +kernel, by decide +kernel, read_editedFile.1⟩
  have hopen : services.files entry.key.name = .ok editedFile := by
    rw [hname]
    exact read_editedFile.2
  have hbefore : Run (fun cache call => call.Faithful cache) _ [] editedStart :=
    .register .start _ _
  have hsince : Run (fun cache call => call.Faithful cache ∧ KeepsWatch (.slot 1 1) cache call)
      (editedRequest.next editedStart) [] editedCache := .start
  have hafter : Run (fun cache call => call.Faithful cache ∧ KeepsWatch (.slot 1 1) cache call)
      (breakingChange.next editedCache) [] brokenCache := .start
  obtain ⟨hchange, -, hread, hchanged⟩ := broken_edit_recovers IdSource.renews_add_two hbefore hmade hloads
    hsince breaksOver_breakingChange hafter he hsound hopen hanew
  have hentered : "b" ∈ (shader.expansion editedFiles.read editedFile).entered := by
    rw [Shader.expansion, hlimit]
    decide +kernel
  have hown : editedFiles.read entry.key.name = .ok editedFile := by
    rw [hname]
    exact read_editedFile.1
  have hsound' : brokenCache.table.poisoned = false := by decide +kernel
  have hnot : ¬ (CacheOp.fileChanged "c").Concerns brokenCache (.slot 1 1) := by
    rw [← mem_affected_iff_concerns hsound', affected_brokenCache]
    exact List.not_mem_nil
  obtain ⟨outcomes, hdone, hrecovers, -⟩ := hchange "b" {} (by decide +kernel)
  obtain ⟨-, hok, hrecovered⟩ := hrecovers (hread "b" hentered)
  obtain ⟨_, hnone, -, hundisturbed⟩ := hchange "c" {} (by decide +kernel)
  have hsame : Undisturbed (.slot 1 1) brokenCache (out "c").state := (hundisturbed hnot).2
  exact ⟨entry, shader, he, hsound, ⟨outcomes, hdone, hok, hrecovered⟩, hsame,
    hchanged (fun _ _ => MemoryStore.name_of_read_eq_ok) hown⟩

/-- A reload that fails, as the second file is lost. -/
def strandingReload : Call where
  op := .reload (.slot 1 1)
  services := { files := (editedFiles.erase "b").read }

/-- A reload of the shader fails because of the second file.  Once that is there again, with another text,
    a new shader would load the file, and a change of the second file has these outcomes. -/
def Stranded (cache t : Cache) (outcomes : List (ResourceId × Except Error Unit)) : Prop :=
  let services : Services := { files := (editedFiles.insert "b" "float y;".toUTF8).read }
  let anew := do
    let entry ← t.table.value[(.slot 1 1 : ResourceId)]?
    let shader ← entry.resource.value.shader?
    let file ← (services.files entry.key.name).toOption
    return (shader.loadAnew services file).ending
  strandingReload.BreaksOver cache (.slot 1 1) "b" ∧ anew = some (.done ()) ∧
    ((fileChanged "b").run services t {}).ending = .done outcomes

/-- **The culprit need not be watched.**  The change of the second file fails because the third one cannot
    be opened.  Once that is written, a new shader would load the file, but a change of the third file
    reloads nothing: the shader keeps its text, which is another one.

    Nor need the second file be watched, which the shader has read, where it is the culprit itself: not if
    the factory gave the shader the id of all standalone resources, or the name of that file, or a tracker
    of its own; and not if meanwhile somebody has cleared the dependencies of the shader, or a reload was
    cut short.  A document that calls the cache back may release the shader before its turn comes. -/
theorem culprit_not_watched :
    let services : Services := { files := mendedFiles.read }
    let out := (fileChanged "c").run services brokenCache {}
    let nameless := refitted (renamingFactory (fun _ => .standalone) fun asked => asked) editedRequest
    let misnamed := refitted (renamingFactory (fun given => given) fun _ => "b") editedRequest
    let detached := refitted detachingFactory editedRequest
    let foe := editedCache.invaded editedFiles.read "b" [] [.slot 1 1]
    let cleared := (Call.mk (.onBooks (.clear (.slot 1 1))) {} {}).next
      (strandingReload.next editedCache)
    let broken := (Call.mk (.reload (.slot 1 1))
      { services with backend := { availability := .broken "device lost" } } {}).next
        (strandingReload.next editedCache)
    (breakingChange.BreaksOver editedCache (.slot 1 1) "c" ∧
      ∃ entry shader now, brokenCache.table.value[(.slot 1 1 : ResourceId)]? = some entry ∧
        entry.resource = { value := .shader shader } ∧
        services.files entry.key.name = .ok now ∧ (shader.loadAnew services now).ending = .done () ∧
        out.ending = .done [] ∧ out.state.table.value[(.slot 1 1 : ResourceId)]? = some entry ∧
        shader.sources ≠ (shader.loadAnew services now).state.item.sources) ∧
      Stranded nameless (strandingReload.next nameless)
        [(.standalone, .error (.invalidResource "Unknown resource id ResourceId(null)"))] ∧
      Stranded misnamed (strandingReload.next misnamed) [] ∧
      Stranded detached (strandingReload.next detached) [] ∧
      Stranded editedCache cleared [] ∧
      Stranded editedCache broken [] ∧
      Stranded foe (strandingReload.next foe) [(.slot 2 1, .ok ()),
        (.slot 1 1, .error (.invalidResource "Unknown resource id ResourceId(1v1)"))] := by
  intro services out nameless misnamed detached foe cleared broken
  obtain ⟨entry, shader, he, hsound, hname, -, hanew, hne⟩ := exists_brokenShader
  have hout : out = ⟨.done [], brokenCache, {}⟩ := run_fileChanged_of_nil affected_brokenCache
  have hopen : services.files entry.key.name = .ok editedFile := by
    rw [hname]
    exact read_editedFile.2
  have hending : out.ending = .done [] := by rw [hout]
  have hstate : out.state = brokenCache := by rw [hout]
  have hentry : out.state.table.value[(.slot 1 1 : ResourceId)]? = some entry := by rw [hstate, he]
  refine ⟨⟨breaksOver_breakingChange, entry, shader, editedFile, he, hsound, hopen, hanew, hending,
    hentry, hne⟩, ?_, ?_, ?_, ?_, ?_, ?_⟩
  -- The second file is to blame each time.
  all_goals exact ⟨⟨.includeNotFound "b" "a", ⟨rfl, by decide +kernel⟩, .inl rfl⟩, by decide +kernel,
    by decide +kernel⟩

end Cache

end ShaderKit
