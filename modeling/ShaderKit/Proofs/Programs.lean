import ShaderKit.Proofs.Calls

namespace ShaderKit

open ShaderKit.Action

/-!
# No program of an old text

A shader shares its variations with whoever asked for them, and a load that replaces its texts leaves
the variations in place.  No variation ever shows a program, or a failure, of a text that the shader
does not have any more.

* `Journal.Extends`     — a journal goes on from another, and programs keep their numbers
* `Journal.Explains`    — a compile state is what a request came to
* `Shader.Genuine`      — the compile state of each variation is explained by a request with the
                          present text of its stage: the invariant of all work on a shader
* `ensures_prepare_genuine`, `ensures_load_genuine` — work on a shader preserves it in every ending
* `Bench`               — a shader that is worked on, and the journal of all that was compiled
-/

/-! ### Journals -/

namespace Journal

variable {j j' j'' : Journal} {request : CompileRequest} {c c' : Compilation} {number : Nat}

/-- Every program has a number of its own, below the next one. -/
structure Numbered (j : Journal) : Prop where
  distinct : j.compilations.Pairwise fun c c' =>
    ∀ number, c.reply = .program number → c'.reply ≠ .program number
  below : ∀ c ∈ j.compilations, ∀ number, c.reply = .program number → number < j.nextProgram

/-- A journal goes on from another one: nothing is lost, and programs are numbered on. -/
structure Extends (j j' : Journal) : Prop where
  kept : ∀ c ∈ j.compilations, c ∈ j'.compilations
  numbered : j.Numbered → j'.Numbered

/-- A journal of the same compilations goes on from another, whatever else was said. -/
theorem extends_of_eq (h : j'.compilations = j.compilations) : j.Extends j' where
  kept := fun c hc => h ▸ hc
  numbered := fun hn => ⟨h ▸ hn.distinct, by
    unfold nextProgram
    rw [h]
    exact hn.below⟩

/-- A journal goes on over one action after another. -/
theorem Extends.trans (h : j.Extends j') (h' : j'.Extends j'') : j.Extends j'' :=
  ⟨fun c hc => h'.kept c (h.kept c hc), fun hn => h'.numbered (h.numbered hn)⟩

/-- A compilation that is answered under the next number goes on from the journal. -/
theorem extends_addCompilation (request : CompileRequest) (verdict : Verdict) :
    j.Extends (j.addCompilation request (j.replyTo verdict)) where
  kept := fun c hc => List.mem_cons_of_mem _ hc
  numbered := by
    intro hn
    have hreply : ∀ number, j.replyTo verdict = .program number → number = j.nextProgram := by
      intro number h
      cases verdict <;> cases h
      rfl
    have hle : j.nextProgram ≤ (j.addCompilation request (j.replyTo verdict)).nextProgram := by
      simp only [nextProgram, addCompilation, List.countP_cons]
      exact Nat.le_add_right _ _
    constructor
    · -- The new program has the next number, and all earlier ones lie below it.
      refine List.pairwise_cons.mpr ⟨fun c hc number h h' => ?_, hn.distinct⟩
      have hlt := hn.below c hc number h'
      rw [hreply number h] at hlt
      exact Nat.lt_irrefl _ hlt
    · intro c hc number h
      rcases List.mem_cons.mp hc with rfl | hc
      · cases verdict <;> cases h
        simp [nextProgram, addCompilation, replyTo]
      · exact Nat.lt_of_lt_of_le (hn.below c hc number h) hle

/-- A program has come out of one compilation. -/
theorem Numbered.unique (hn : j.Numbered) (hc : c ∈ j.compilations) (hc' : c' ∈ j.compilations)
    (h : c.reply = .program number) (h' : c'.reply = .program number) : c' = c := by
  have hd := hn.distinct
  generalize j.compilations = cs at hc hc' hd
  -- Of two compilations with one number, neither comes before the other.
  induction cs with
  | nil => cases hc
  | cons first rest ih =>
    obtain ⟨hfirst, hrest⟩ := List.pairwise_cons.mp hd
    rcases List.mem_cons.mp hc with hfc | hin
    · rcases List.mem_cons.mp hc' with hfc' | hin'
      · rw [hfc, hfc']
      · exact (hfirst c' hin' number (hfc ▸ h) h').elim
    · rcases List.mem_cons.mp hc' with hfc' | hin'
      · exact (hfirst c hin number (hfc' ▸ h') h).elim
      · exact ih hin hin' hrest

/-- A compile state is what a request has come to. -/
def Explains (j : Journal) (request : CompileRequest) : CompileState → Prop
  | .compiled number => ∃ c ∈ j.compilations, c.request = request ∧ c.reply = .program number
  | .failed output => ∃ c ∈ j.compilations, c.request = request ∧
      ∃ error, c.reply = .rejected error ∧ Variation.outputOf error = output
  | _ => True

/-- What a journal explains stays explained when it goes on. -/
theorem Explains.extend {state : CompileState} (h : j.Explains request state)
    (hj : j.Extends j') : j'.Explains request state := by
  cases state with
  | compiled number =>
    obtain ⟨c, hc, hr⟩ := h
    exact ⟨c, hj.kept c hc, hr⟩
  | failed output =>
    obtain ⟨c, hc, hr⟩ := h
    exact ⟨c, hj.kept c hc, hr⟩
  | pending => trivial
  | released => trivial

end Journal

/-! ### Variations -/

namespace Variation

variable {services : Services} {j j' : Journal} {v v' : Variation} {text : String}
  {dialect : Dialect}

/-- Nothing but the compile state of a variation has changed. -/
def SameBut (v v' : Variation) : Prop := v' = { v with state := v'.state }

/-- What a variation shows, if it shows anything, is explained by a journal. -/
def Shows (v : Variation) (j : Journal) (request : CompileRequest) : Prop :=
  ∀ state, v.state.get? = some state → j.Explains request state

/-- So does what a variation shows. -/
theorem Shows.extend {request : CompileRequest} (h : v.Shows j request) (hj : j.Extends j') :
    v.Shows j' request := by
  intro state hs
  exact (h state hs).extend hj

/-- A released variation shows nothing but that. -/
theorem shows_release {request : CompileRequest} : v.release.Shows j request := by
  intro state hs
  unfold release at hs
  split at hs
  · rename_i hp
    simp [Guarded.get?, hp] at hs
  · rename_i hp
    have hstate : CompileState.released = state := by simpa [Guarded.get?, Guarded.put, hp] using hs
    rw [← hstate]
    trivial

/-- A release changes nothing but the compile state. -/
theorem sameBut_release : v.SameBut v.release := by
  unfold SameBut release
  split <;> rfl

/-- Looking at a variation changes nothing. -/
theorem ensures_observe {post : Ending CompileState → Variation → Journal → Prop}
    (h : ∀ ending, ∀ j' : Journal, j'.compilations = j.compilations → post ending v j') :
    observe.Ensures services post v j := by
  unfold observe
  rw [ensures_bind, ensures_get, after_done]
  cases v.state.get? with
  | some state => exact h _ j rfl
  | none =>
    rw [ensures_bind]
    exact ensures_say (fun j' hj => h _ j' hj) (fun _ j' hj => h _ j' hj)

/-- What an outsider sees is the state, unless it is reported as released. -/
theorem get?_of_observe {state : CompileState}
    (h : (observe.run services v j).ending = .done state) (hne : state ≠ .released) :
    v.state.get? = some state := by
  have hobserved : observe.Ensures services (fun ending _ _ => ∀ state, ending = .done state →
      state ≠ .released → v.state.get? = some state) v j := by
    unfold observe
    rw [ensures_bind, ensures_get, after_done]
    cases v.state.get? with
    | some seen =>
      intro state hd _
      cases hd
      rfl
    | none =>
      rw [ensures_bind]
      refine ensures_say (fun j' _ => ?_) (fun _ _ _ => ?_)
      · intro state hd hne
        cases hd
        exact (hne rfl).elim
      · intro state hd
        cases hd
  exact hobserved state h hne

/-- Asking the compiler leaves a state that the answer explains.  If a breakdown comes between the
    answer and the state, the guard is poisoned. -/
theorem ensures_compileWith {request : CompileRequest} {state : CompileState} :
    (v.compileWith request).Ensures services (fun ending state j' => j.Extends j' ∧
      (ending.isUnwound = false → j'.Explains request state)) state j := by
  unfold compileWith Action.submit
  simp only [ensures_bind, ensures_journal, after_done, ensures_read, ensures_note]
  have hext : j.Extends (j.addCompilation request
      (j.replyTo (services.backend.compile request))) := Journal.extends_addCompilation _ _
  cases hv : services.backend.compile request with
  | accepted =>
    rw [hv] at hext
    simp only [Journal.replyTo, ensures_pure, after_done]
    rw [ensures_bind]
    refine ensures_say (fun j' hj => ?_) (fun reason j' hj => ?_)
    · rw [after_done, ensures_bind, ensures_set, after_done, ensures_pure]
      refine ⟨hext.trans (Journal.extends_of_eq hj), fun _ => ?_⟩
      refine ⟨{ request, reply := .program j.nextProgram }, ?_, rfl, rfl⟩
      rw [hj]
      exact List.mem_cons_self
    · exact ⟨hext.trans (Journal.extends_of_eq hj), fun h => by cases h⟩
  | rejected error =>
    rw [hv] at hext
    simp only [Journal.replyTo, ensures_pure, after_done]
    rw [ensures_bind, ensures_set, after_done]
    refine ensures_report (fun j' hj => ?_) (fun reason j' hj => ?_)
    · refine ⟨hext.trans (Journal.extends_of_eq hj), fun _ => ?_⟩
      refine ⟨{ request, reply := .rejected error }, ?_, rfl, error, rfl, rfl⟩
      rw [hj]
      exact List.mem_cons_self
    · exact ⟨hext.trans (Journal.extends_of_eq hj), fun h => by cases h⟩
  | broken reason =>
    rw [hv] at hext
    exact ⟨hext, fun h => by cases h⟩

/-- Compiling changes nothing but the compile state. -/
theorem ensures_compile_sameBut :
    (compile text dialect).Ensures services (fun _ v' _ => v.SameBut v') v j := by
  unfold compile
  rw [ensures_bind, ensures_get, after_done]
  split
  · exact ensures_report (fun _ _ => rfl) (fun _ _ _ => rfl)
  · rfl
  · rfl
  all_goals rfl

/-- **Compiling.**  Afterwards the variation shows what it showed before, or what the request for it
    has come to. -/
theorem ensures_compile (h : v.Shows j (v.request text dialect)) :
    (compile text dialect).Ensures services (fun _ v' j' => j.Extends j' ∧ v.SameBut v' ∧
      v'.Shows j' (v.request text dialect)) v j := by
  have hsame {j' : Journal} (hj : j'.compilations = j.compilations) :
      j.Extends j' ∧ v.SameBut v ∧ v.Shows j' (v.request text dialect) := by
    have hext := Journal.extends_of_eq hj
    exact ⟨hext, rfl, h.extend hext⟩
  unfold compile
  rw [ensures_bind, ensures_get, after_done]
  split
  · exact ensures_report (fun j' hj => hsame hj) (fun _ j' hj => hsame hj)
  · exact hsame rfl
  · exact hsame rfl
  all_goals
    rw [holdState, ensures_focus, Guarded.hold, ensures_onUnwind, ensures_focus]
    refine ensures_compileWith.mono fun ending state j' hstate => ⟨hstate.1, rfl, ?_⟩
    intro shown hshown
    -- Under a guard that a breakdown has poisoned nothing is shown.
    cases hu : ending.isUnwound with
    | true => simp [hu, Guarded.get?, Guarded.poison] at hshown
    | false =>
      simp only [hu, Guarded.get?, Guarded.put, Bool.false_eq_true, if_false] at hshown
      split at hshown
      · cases hshown
      · cases hshown
        exact hstate.2 hu

end Variation

/-! ### Shaders -/

namespace Shader

variable {services : Services} {j j' : Journal} {shader : Shader} {stage : Stage} {i : Nat}
  {v v' : Variation} {defines : String} {desk t : Desk Shader} {file : SourceFile}

/-- The request for a variation with the present text of its stage. -/
def requestFor (shader : Shader) (stage : Stage) (v : Variation) : CompileRequest :=
  v.request (shader.sources.get stage) shader.context.config.dialect

/-- The variations of a shader show what requests with its present texts have come to. -/
structure Genuine (shader : Shader) (j : Journal) : Prop where
  stages : ∀ stage, (shader.variations stage).stage = stage
  each : ∀ (stage : Stage) (i : Nat) (v : Variation),
    (shader.variations stage).variations[i]? = some v →
      v.stage = stage ∧ v.Shows j (shader.requestFor stage v)

/-- A shader that was never loaded has nothing to show. -/
theorem genuine_unloaded (id : ResourceId) (name : String) (context : Context) (j : Journal) :
    (unloaded id name context).Genuine j where
  stages := by
    intro stage
    cases stage <;> rfl
  each := by
    intro stage i v hv
    cases stage <;> simp [unloaded, variations] at hv

/-- What is genuine stays so when the journal goes on. -/
theorem Genuine.extend (h : shader.Genuine j) (hj : j.Extends j') : shader.Genuine j' where
  stages := h.stages
  each := by
    intro stage i v hv
    obtain ⟨hstage, hshows⟩ := h.each stage i v hv
    exact ⟨hstage, hshows.extend hj⟩

/-- The figure for its memory does not matter. -/
theorem Genuine.memoryUse (h : shader.Genuine j) (memoryUse : Nat) :
    { shader with memoryUse }.Genuine j where
  stages := by
    intro stage
    have hs := h.stages stage
    cases stage <;> exact hs
  each := by
    intro stage i v hv
    have he := h.each stage i v
    cases stage <;> exact he hv

/-- Changes to the variations of one stage have to be looked at in this stage only. -/
theorem Genuine.putVariations (h : shader.Genuine j) {cache : VariationCache}
    (hstage : cache.stage = stage)
    (heach : ∀ (i : Nat) (v : Variation), cache.variations[i]? = some v →
      v.stage = stage ∧ v.Shows j (shader.requestFor stage v)) :
    (shader.putVariations stage cache).Genuine j where
  stages := by
    intro other
    by_cases ho : other = stage
    · rw [ho, variations_putVariations, hstage]
    · rw [variations_putVariations_of_ne ho, h.stages]
  each := by
    intro other i v hv
    rw [requestFor, sources_putVariations, context_putVariations]
    by_cases ho : other = stage
    · subst ho
      rw [variations_putVariations] at hv
      exact heach i v hv
    · rw [variations_putVariations_of_ne ho] at hv
      exact h.each other i v hv

/-- A new variation shows nothing. -/
theorem Genuine.grow (h : shader.Genuine j) (stage : Stage) (canonical : String) :
    (shader.grow stage canonical).Genuine j := by
  refine h.putVariations (h.stages stage) fun i v hv => ?_
  simp only [VariationCache.push, Array.getElem?_push] at hv
  split at hv
  · cases hv
    refine ⟨h.stages stage, fun state hs => ?_⟩
    simp only [VariationCache.fresh, Guarded.get?, Bool.false_eq_true, if_false] at hs
    cases hs
    trivial
  · exact h.each stage i v hv

/-- A variation may be put back if what it shows is explained by its request. -/
theorem Genuine.replace (h : shader.Genuine j)
    (hv : (shader.variations stage).variations[i]? = some v) (hsame : v.SameBut v')
    (hshows : v'.Shows j (shader.requestFor stage v)) :
    (shader.putVariations stage ((shader.variations stage).replace i v')).Genuine j := by
  refine h.putVariations (h.stages stage) fun k w hw => ?_
  simp only [VariationCache.replace, Array.getElem?_setIfInBounds] at hw
  split at hw
  · split at hw
    · cases hw
      rw [Variation.SameBut] at hsame
      -- Requests do not look at the compile state.
      have hrequest : shader.requestFor stage v' = shader.requestFor stage v := by
        rw [hsame]
        rfl
      rw [hrequest]
      exact ⟨by rw [hsame]; exact (h.each stage i v hv).1, hshows⟩
    · cases hw
  · exact h.each stage k w hw

/-- After a load nothing is shown of the texts before it. -/
theorem Genuine.takeOver (h : shader.Genuine j) (sources : StageSources) (j' : Journal) :
    (shader.takeOver sources).Genuine j' := by
  have hvariations (stage : Stage) : (shader.takeOver sources).variations stage =
      (shader.variations stage).releaseAll := by
    cases stage <;> rfl
  constructor
  · intro stage
    rw [hvariations]
    exact h.stages stage
  · intro stage i v hv
    rw [hvariations, VariationCache.releaseAll, Array.getElem?_map] at hv
    obtain ⟨old, hold, rfl⟩ := Option.map_eq_some_iff.mp hv
    refine ⟨by rw [Variation.stage_release]; exact (h.each stage i old hold).1, ?_⟩
    exact Variation.shows_release

/-- **A load keeps a shader genuine**: where the texts have changed, no program is left. -/
theorem Loaded.genuine {ending : Ending Unit} (hl : Loaded services file desk ending t)
    (h : desk.item.Genuine j) : t.item.Genuine j := by
  cases hl with
  | refused _ => exact h
  | unexpanded _ _ => exact h
  | loaded _ _ => exact h.takeOver _ j
  | brokenBefore _ => exact h
  | brokenAfter _ => exact h.takeOver _ j

/-- **So does a request**: a new variation has nothing to show. -/
theorem Requested.genuine {ending : Ending Nat} (hr : Requested stage defines desk ending t)
    (h : desk.item.Genuine j) : t.item.Genuine j := by
  cases hr with
  | found _ => exact h
  | made _ => exact (h.grow stage _).memoryUse _
  | broken _ => exact h.grow stage _

/-- What is done to one variation of a shader is done to the shader. -/
theorem ensures_onVariation_genuine {α : Type} {act : Action Variation α}
    (h : shader.Genuine j)
    (hact : ∀ v, (shader.variations stage).variations[i]? = some v →
      act.Ensures services (fun _ v' j' => j.Extends j' ∧ v.SameBut v' ∧
        v'.Shows j' (shader.requestFor stage v)) v j) :
    (onVariation stage i act).Ensures services
      (fun _ t j' => j.Extends j' ∧ t.Genuine j') shader j := by
  rw [onVariation, ensures_focus, VariationCache.onVariation]
  cases hv : (shader.variations stage).variations[i]? with
  | none =>
    -- There is no such variation, and the others are put back as they were.
    rw [ensures_focus?_none (by exact hv), putVariations_variations]
    exact ⟨Journal.extends_of_eq rfl, h⟩
  | some v =>
    rw [ensures_focus?_some (by exact hv)]
    refine (hact v hv).mono ?_
    rintro ending v' j' ⟨hj, hsame, hshows⟩
    exact ⟨hj, (h.extend hj).replace hv hsame hshows⟩

/-- Looking at a variation keeps what it shows. -/
theorem Genuine.ensures_observe (h : shader.Genuine j) :
    (onVariation stage i Variation.observe).Ensures services
      (fun _ t j' => j.Extends j' ∧ t.Genuine j') shader j := by
  refine ensures_onVariation_genuine h fun v hv => ?_
  refine Variation.ensures_observe fun ending j' hj => ?_
  have hext := Journal.extends_of_eq hj
  obtain ⟨-, hshows⟩ := h.each stage i v hv
  exact ⟨hext, rfl, hshows.extend hext⟩

/-- Compiling with the present text of the stage brings a state of this text. -/
theorem Genuine.ensures_compile (h : shader.Genuine j) :
    (onVariation stage i (Variation.compile (shader.sources.get stage)
      shader.context.config.dialect)).Ensures services
        (fun _ t j' => j.Extends j' ∧ t.Genuine j') shader j :=
  ensures_onVariation_genuine h fun v hv => Variation.ensures_compile (h.each stage i v hv).2

/-- **Preparing** leaves every variation with a state of the present texts, also when a collaborator
    breaks down over it. -/
theorem ensures_prepare_genuine (h : desk.item.Genuine j) :
    (prepare stage defines).Ensures services
      (fun _ t j' => j.Extends j' ∧ t.item.Genuine j') desk j := by
  refine ensures_prepare_of (fun _ t j' => j.Extends j' ∧ t.item.Genuine j') ?_ ?_ ?_ ?_ ?_ ?_
  · rintro i mid j' hj hrequested
    have hext := Journal.extends_of_eq hj
    exact ⟨hext, (hrequested.genuine h).extend hext⟩
  · rintro reason mid j' hj hrequested
    have hext := Journal.extends_of_eq hj
    exact ⟨hext, (hrequested.genuine h).extend hext⟩
  · rintro i mid j₁ j₂ hj ⟨hext, hmid⟩
    have hext₂ := Journal.extends_of_eq hj
    exact ⟨hext.trans hext₂, hmid.extend hext₂⟩
  · rintro i mid j₁ ⟨hext, hmid⟩
    refine hmid.ensures_observe.mono ?_
    rintro _ item j₂ ⟨hext₂, hitem⟩
    exact ⟨hext.trans hext₂, hitem⟩
  · rintro i mid j₁ ⟨hext, hmid⟩
    refine hmid.ensures_compile.mono ?_
    rintro _ item j₂ ⟨hext₂, hitem⟩
    exact ⟨hext.trans hext₂, hitem⟩
  · rintro i ending t j' - hgenuine
    exact hgenuine

end Shader

/-! ### Runs -/

/-- A shader that is worked on, and the journal of all that was compiled. -/
structure Bench where
  desk : Desk Shader
  journal : Journal

namespace Bench

variable {bench next start : Bench}

/-- The bench after work on the shader, however it ended. -/
def work (bench : Bench) (op : ShaderOp) (services : Services) : Bench :=
  let out := op.act.run services bench.desk bench.journal
  { desk := out.state, journal := out.journal }

/-- The bench after a variation was released by someone who holds it. -/
def release (bench : Bench) (stage : Stage) (i : Nat) (services : Services) : Bench :=
  let out := (Shader.alone (Shader.onVariation stage i VariationOp.release.act)).run services
    bench.desk bench.journal
  { desk := out.state, journal := out.journal }

/-- What may happen at a bench. -/
inductive Step : Bench → Bench → Prop where
  | work {bench : Bench} (op : ShaderOp) (services : Services) : Step bench (bench.work op services)
  | release {bench : Bench} (stage : Stage) (i : Nat) (services : Services) :
    Step bench (bench.release stage i services)
  /-- Others write into the books. -/
  | books {bench : Bench} (books : Books) : Step bench { bench with desk.books := books }
  /-- Others ask the compiler. -/
  | compile {bench : Bench} (request : CompileRequest) (verdict : Verdict) :
    Step bench { bench with
      journal := bench.journal.addCompilation request (bench.journal.replyTo verdict) }

/-- The benches that a run leads to. -/
inductive Reached (start : Bench) : Bench → Prop where
  | start : Reached start start
  | step {bench next : Bench} (before : Reached start bench) (step : Step bench next) :
    Reached start next

/-- Whatever happens, the variations stay genuine and the journal goes on. -/
theorem Step.genuine (hs : Step bench next) (h : bench.desk.item.Genuine bench.journal) :
    bench.journal.Extends next.journal ∧ next.desk.item.Genuine next.journal := by
  cases hs with
  | work op services =>
    have hact : op.act.Ensures services (fun _ t j' => bench.journal.Extends j' ∧ t.item.Genuine j')
        bench.desk bench.journal := by
      cases op with
      | request stage defines =>
        rw [ShaderOp.act, ensures_discard]
        refine Shader.ensures_request.mono ?_
        rintro ending t j' ⟨hj, hrequested⟩
        have hext := Journal.extends_of_eq hj
        exact ⟨hext, (hrequested.genuine h).extend hext⟩
      | prepare stage defines =>
        rw [ShaderOp.act, ensures_discard]
        exact Shader.ensures_prepare_genuine h
      | load file =>
        refine Shader.ensures_load.mono ?_
        rintro ending t j' ⟨hj, hloaded⟩
        have hext := Journal.extends_of_eq hj
        exact ⟨hext, (hloaded.genuine h).extend hext⟩
    exact hact
  | release stage i services =>
    have hact : (Shader.alone (Shader.onVariation stage i VariationOp.release.act)).Ensures services
        (fun _ t j' => bench.journal.Extends j' ∧ t.item.Genuine j') bench.desk bench.journal := by
      rw [Shader.alone, ensures_focus]
      refine Shader.ensures_onVariation_genuine h fun v _ => ?_
      exact ⟨Journal.extends_of_eq rfl, Variation.sameBut_release, Variation.shows_release⟩
    exact hact
  | books books => exact ⟨Journal.extends_of_eq rfl, h⟩
  | compile request verdict =>
    have hext := Journal.extends_addCompilation (j := bench.journal) request verdict
    exact ⟨hext, h.extend hext⟩

/-- Work after work, what was genuine stays genuine. -/
theorem Reached.genuine (h : Reached start bench) (hs : start.desk.item.Genuine start.journal) :
    start.journal.Extends bench.journal ∧ bench.desk.item.Genuine bench.journal := by
  induction h with
  | start => exact ⟨Journal.extends_of_eq rfl, hs⟩
  | step _ step ih =>
    obtain ⟨hext, hgenuine⟩ := step.genuine ih.2
    exact ⟨ih.1.trans hext, hgenuine⟩

end Bench

/-- The request concerns a variation: it has the present text of its stage, the entry point of the
    stage, and the defines of the variation. -/
structure Shader.Asks (shader : Shader) (v : Variation) (request : CompileRequest) : Prop where
  stage : request.stage = v.stage
  source : request.source = shader.sources.get v.stage
  entryPoint : request.entryPoint = shader.context.config.dialect.entryPoint v.stage
  defines : request.defines = Defines.names v.defines

namespace Bench

/-- **No program of an old text.**  Take a new shader, and any run of loads, of requests for
    variations, compiled or not, and of releases, with collaborators that refuse and break down at
    will, and with others who use the books and the compiler meanwhile.  A variation of the shader
    that shows a program shows the one that came out of a request with the present text of its
    stage; and the output of a failure came out of such a request as well. -/
theorem programs_are_current {id : ResourceId} {name : String} {context : Context} {books : Books}
    {bench : Bench}
    (h : Reached { desk := { item := .unloaded id name context, books }, journal := {} } bench)
    {stage : Stage} {i : Nat} {v : Variation}
    (hv : (bench.desk.item.variations stage).variations[i]? = some v)
    {services : Services} {j : Journal} {state : CompileState}
    (hstate : (Variation.observe.run services v j).ending = .done state) :
    (∀ number, state = .compiled number → ∃ c ∈ bench.journal.compilations,
      bench.desk.item.Asks v c.request ∧ c.reply = .program number ∧
      ∀ c' ∈ bench.journal.compilations, c'.reply = .program number → c' = c) ∧
    ∀ output, state = .failed output → ∃ c ∈ bench.journal.compilations,
      bench.desk.item.Asks v c.request ∧
      ∃ error, c.reply = .rejected error ∧ Variation.outputOf error = output := by
  obtain ⟨hext, hgenuine⟩ := h.genuine (Shader.genuine_unloaded id name context {})
  have hnumbered : bench.journal.Numbered := hext.numbered ⟨.nil, fun c hc => by cases hc⟩
  obtain ⟨hstage, hshows⟩ := hgenuine.each stage i v hv
  have hasks : bench.desk.item.Asks v (bench.desk.item.requestFor stage v) := by
    rw [← hstage]
    exact ⟨rfl, rfl, rfl, rfl⟩
  constructor
  · rintro number rfl
    have hshown : v.state.get? = some (.compiled number) := Variation.get?_of_observe hstate (by simp)
    obtain ⟨c, hc, hrequest, hreply⟩ := hshows _ hshown
    exact ⟨c, hc, hrequest ▸ hasks, hreply, fun c' hc' h' => hnumbered.unique hc hc' hreply h'⟩
  · rintro output rfl
    have hshown : v.state.get? = some (.failed output) := Variation.get?_of_observe hstate (by simp)
    obtain ⟨c, hc, hrequest, error, hreply, houtput⟩ := hshows _ hshown
    exact ⟨c, hc, hrequest ▸ hasks, error, hreply, houtput⟩

/-- A new shader. -/
def newShader : Bench where
  desk := { item := .unloaded .standalone "a" { fingerprint := fun _ => {} }, books := {} }
  journal := {}

/-- The shader after it was loaded and a variation of it compiled. -/
def compiledShader : Bench :=
  (newShader.work (.load (.ofText "a" "float x;")) {}).work (.prepare .vertex "") {}

/-- The first program came out of a request with the text that was loaded. -/
theorem programs_are_current_compiled :
    ∃ v, (compiledShader.desk.item.variations .vertex).variations[0]? = some v ∧
      (Variation.observe.run {} v {}).ending = .done (.compiled 0) ∧
      ∃ c ∈ compiledShader.journal.compilations,
        compiledShader.desk.item.Asks v c.request ∧ c.reply = .program 0 ∧
        ∀ c' ∈ compiledShader.journal.compilations, c'.reply = .program 0 → c' = c := by
  have hreached : Reached newShader compiledShader :=
    .step (.step .start (.work _ _)) (.work _ _)
  have hstate : ((compiledShader.desk.item.variations .vertex).variations[0]?.map fun v =>
      (Variation.observe.run {} v {}).ending) = some (.done (.compiled 0)) := by decide +kernel
  obtain ⟨v, hv, hobserved⟩ := Option.map_eq_some_iff.mp hstate
  exact ⟨v, hv, hobserved, (programs_are_current hreached hv hobserved).1 0 rfl⟩

end Bench

end ShaderKit
