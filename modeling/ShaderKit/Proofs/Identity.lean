import ShaderKit.Proofs.Buckets
import ShaderKit.Proofs.Programs

namespace ShaderKit

open ShaderKit.Action

/-!
# One variation for each define string

Whoever asks a shader for a variation gets a handle: a stage, and a place among its variations.  The
same handle is returned for define strings with the same canonical spelling and for no others, and
the variations of a stage are those that were asked for, over loads, failures and breakdowns.

* `ShaderOp.answer`  — what a shader is asked for, with the handle that is returned
* `Catalogue`        — for each stage a finite map from canonical define strings to places
* `Shader.Indexed`   — a shader has the variations of a catalogue: the invariant of all work on it
* `Bench.Run`        — a run of work, with every answer that was given
* `catalogued`       — the catalogue of what was asked for in a run

A variation is made before it is compiled, so one whose compilation fails is there without a handle
to it: it waits for the next caller, who gets the failure again or has it compiled anew.
-/

/-! ### Answers -/

/-- A variation as a caller holds it: its stage and its place there. -/
structure VariationHandle where
  stage : Stage
  place : Nat
  deriving DecidableEq, Repr

namespace ShaderOp

/-- Carries out what a shader is asked for, and returns the variation that it comes to. -/
def answer : ShaderOp → Action (Desk Shader) (Option VariationHandle)
  | request stage raw => (fun place => some { stage, place }) <$> Shader.request stage raw
  | prepare stage raw => (fun place => some { stage, place }) <$> Shader.prepare stage raw
  | load file => (fun _ => none) <$> Shader.load file

/-- The stage and the define string, as the caller spells it, that a variation is asked for. -/
def asked? : ShaderOp → Option (Stage × String)
  | request stage raw | prepare stage raw => some (stage, raw)
  | load _ => none

/-- Answers are an addition to the work. -/
theorem discard_answer (op : ShaderOp) : discard op.answer = op.act := by
  have hmap {α β : Type} (f : α → β) (act : Action (Desk Shader) α) :
      discard (f <$> act) = discard act := by
    simp [discard, LawfulFunctor.map_const]
  cases op with
  | request stage raw => exact hmap _ _
  | prepare stage raw => exact hmap _ _
  | load file =>
    rw [answer, hmap, act, discard, LawfulFunctor.map_const]
    exact id_map _

end ShaderOp

/-- What a shader was asked for, and how that ended. -/
structure Answer where
  op : ShaderOp
  ending : Ending (Option VariationHandle)

/-- A variation was asked for, and a handle was returned. -/
structure Answer.Returned (answer : Answer) (stage : Stage) (raw : String)
    (handle : VariationHandle) : Prop where
  asked : answer.op.asked? = some (stage, raw)
  returned : answer.ending = .done (some handle)

/-! ### Catalogues -/

/-- For each stage a finite map from canonical define strings to places. -/
abbrev Catalogue := Stage → DefineIndex

namespace Catalogue

variable {catalogue : Catalogue} {stage other : Stage} {d e : String} {i : Nat}

/-- Enters a define string of a stage. -/
def enter (catalogue : Catalogue) (stage : Stage) (d : String) : Catalogue := fun other =>
  if other = stage then (catalogue other).enter d else catalogue other

/-- The stage that was asked for has the define string now. -/
theorem enter_self : catalogue.enter stage d stage = (catalogue stage).enter d := if_pos rfl

/-- The other stages have what they had. -/
theorem enter_of_ne (h : other ≠ stage) : catalogue.enter stage d other = catalogue other := if_neg h

/-- A define string that is known already is not entered again. -/
theorem enter_of_mem (h : d ∈ catalogue stage) : catalogue.enter stage d = catalogue := by
  funext other
  by_cases ho : other = stage
  · subst ho
    rw [enter_self, DefineIndex.enter_of_mem h]
  · rw [enter_of_ne ho]

/-- What a catalogue holds after a define string was entered. -/
theorem mem_enter : e ∈ catalogue.enter stage d other ↔ (other = stage ∧ e = d) ∨ e ∈ catalogue other := by
  by_cases h : other = stage
  · rw [h, enter_self, DefineIndex.mem_enter]
    simp
  · rw [enter_of_ne h]
    simp [h]

/-- A place that was given is not given away. -/
theorem getElem?_enter (h : (catalogue other)[e]? = some i) :
    (catalogue.enter stage d other)[e]? = some i := by
  by_cases ho : other = stage
  · subst ho
    rw [enter_self]
    exact DefineIndex.getElem?_enter h
  · rwa [enter_of_ne ho]

end Catalogue

namespace ShaderOp

variable {op : ShaderOp} {catalogue : Catalogue} {stage : Stage} {d : String} {i : Nat}

/-- The catalogue after a variation was asked for. -/
def entered : ShaderOp → Catalogue → Catalogue
  | request stage raw, catalogue | prepare stage raw, catalogue =>
    catalogue.enter stage (Defines.canonicalize raw)
  | load _, catalogue => catalogue

/-- What a catalogue holds after some work: what it held, and what was asked for. -/
theorem mem_entered : d ∈ op.entered catalogue stage ↔
    (∃ raw, op.asked? = some (stage, raw) ∧ Defines.canonicalize raw = d) ∨ d ∈ catalogue stage := by
  have hone (s : Stage) (raw : String) : d ∈ catalogue.enter s (Defines.canonicalize raw) stage ↔
      (∃ r, some (s, raw) = some (stage, r) ∧ Defines.canonicalize r = d) ∨ d ∈ catalogue stage := by
    rw [Catalogue.mem_enter]
    constructor
    · rintro (⟨rfl, rfl⟩ | h)
      · exact Or.inl ⟨raw, rfl, rfl⟩
      · exact Or.inr h
    · rintro (⟨r, hr, rfl⟩ | h)
      · cases hr
        exact Or.inl ⟨rfl, rfl⟩
      · exact Or.inr h
  cases op with
  | request s raw => exact hone s raw
  | prepare s raw => exact hone s raw
  | load file => simp [entered, asked?]

/-- Over work, too, no place is given away. -/
theorem getElem?_entered (h : (catalogue stage)[d]? = some i) :
    (op.entered catalogue stage)[d]? = some i := by
  cases op with
  | request s raw => exact Catalogue.getElem?_enter h
  | prepare s raw => exact Catalogue.getElem?_enter h
  | load file => exact h

end ShaderOp

/-- The catalogue of what was asked for, in the order in which it was asked for. -/
def catalogued (answers : List Answer) : Catalogue :=
  answers.foldl (fun catalogue answer => answer.op.entered catalogue) fun _ => ∅

/-- The last answer is entered last. -/
theorem catalogued_concat (answers : List Answer) (answer : Answer) :
    catalogued (answers ++ [answer]) = answer.op.entered (catalogued answers) := by
  simp [catalogued]

/-- A catalogue has exactly what was asked for, and what it began with. -/
theorem mem_foldl_entered {answers : List Answer} {catalogue : Catalogue} {stage : Stage} {d : String} :
    d ∈ answers.foldl (fun catalogue answer => answer.op.entered catalogue) catalogue stage ↔
      (∃ a ∈ answers, ∃ raw, a.op.asked? = some (stage, raw) ∧ Defines.canonicalize raw = d) ∨
        d ∈ catalogue stage := by
  induction answers generalizing catalogue with
  | nil => simp
  | cons first rest ih =>
    rw [List.foldl_cons, ih, ShaderOp.mem_entered]
    simp only [List.mem_cons, exists_eq_or_imp]
    rw [or_left_comm, or_assoc]

/-- **Keys.**  The catalogue has the canonical spelling of every define string asked for. -/
theorem mem_catalogued {answers : List Answer} {stage : Stage} {d : String} :
    d ∈ catalogued answers stage ↔ ∃ a ∈ answers, ∃ raw, a.op.asked? = some (stage, raw) ∧
      Defines.canonicalize raw = d := by
  rw [catalogued, mem_foldl_entered]
  exact or_iff_left (by simp)

/-! ### Work on a shader -/

namespace Shader

variable {services : Services} {j : Journal} {shader : Shader} {desk t : Desk Shader} {stage : Stage}
  {catalogue : Catalogue} {cache : VariationCache} {raw : String} {file : SourceFile} {i : Nat}

/-- The variations of a shader are those of a catalogue. -/
def Indexed (shader : Shader) (catalogue : Catalogue) : Prop :=
  ∀ stage, (shader.variations stage).Indexed (catalogue stage)

/-- A shader that was never loaded has no variations. -/
theorem indexed_unloaded (id : ResourceId) (name : String) (context : Context) :
    (unloaded id name context).Indexed fun _ => ∅ := by
  intro stage
  cases stage <;> exact VariationCache.indexed_empty _ _

/-- The figure for its memory is none of the catalogue's business. -/
theorem Indexed.memoryUse (h : shader.Indexed catalogue) (memoryUse : Nat) :
    { shader with memoryUse }.Indexed catalogue := by
  intro stage
  have hstage := h stage
  cases stage <;> exact hstage

/-- The variations of one stage may be put back in any form that agrees with the catalogue. -/
theorem Indexed.putVariations (h : shader.Indexed catalogue)
    (hcache : cache.Indexed (catalogue stage)) :
    (shader.putVariations stage cache).Indexed catalogue := by
  intro other
  by_cases ho : other = stage
  · subst ho
    rwa [variations_putVariations]
  · rw [variations_putVariations_of_ne ho]
    exact h other

/-- Loading keeps all variations. -/
theorem Indexed.takeOver (h : shader.Indexed catalogue) (sources : StageSources) :
    (shader.takeOver sources).Indexed catalogue := by
  intro stage
  have hreleased := (h stage).releaseAll
  cases stage <;> exact hreleased

/-- A load, however it ends, makes no variation and loses none. -/
theorem Loaded.indexed {ending : Ending Unit} (hl : Loaded services file desk ending t)
    (h : desk.item.Indexed catalogue) : t.item.Indexed catalogue := by
  cases hl with
  | refused _ => exact h
  | unexpanded _ _ => exact h
  | loaded _ _ => exact h.takeOver _
  | brokenBefore _ => exact h
  | brokenAfter _ => exact h.takeOver _

/-- **A new variation** is entered in the catalogue of its stage. -/
theorem Indexed.grow (h : shader.Indexed catalogue) {d : String}
    (hnew : (shader.variations stage).find? d = none) :
    (shader.grow stage d).Indexed (catalogue.enter stage d) := by
  have hmem : d ∉ catalogue stage := by
    rw [(h stage).find?_eq] at hnew
    intro hd
    rw [Std.ExtTreeMap.mem_iff_isSome_getElem?, hnew] at hd
    cases hd
  intro other
  by_cases ho : other = stage
  · subst ho
    rw [Shader.grow, variations_putVariations, Catalogue.enter_self]
    exact (h other).push hmem
  · rw [Shader.grow, variations_putVariations_of_ne ho, Catalogue.enter_of_ne ho]
    exact h other

/-- A request enters its define string, and returns the place under which it is entered. -/
theorem Requested.indexed {ending : Ending Nat} (hr : Requested stage raw desk ending t)
    (h : desk.item.Indexed catalogue) :
    t.item.Indexed (catalogue.enter stage (Defines.canonicalize raw)) ∧ ∀ place, ending = .done place →
      (catalogue.enter stage (Defines.canonicalize raw) stage)[Defines.canonicalize raw]? =
        some place := by
  cases hr with
  | found known =>
    rw [(h stage).find?_eq] at known
    have hmem : Defines.canonicalize raw ∈ catalogue stage := by
      rw [Std.ExtTreeMap.mem_iff_isSome_getElem?, known]
      rfl
    rw [Catalogue.enter_of_mem hmem]
    refine ⟨h, fun place hplace => ?_⟩
    cases hplace
    exact known
  | made unknown =>
    have hgrown := h.grow unknown
    refine ⟨hgrown.memoryUse _, fun place hplace => ?_⟩
    cases hplace
    -- The new variation is the last one of its stage.
    apply (hgrown stage).place _ _ |>.mpr
    rw [Shader.grow, variations_putVariations]
    exact VariationCache.definesAt?_push_eq_some.mpr (Or.inl ⟨rfl, rfl⟩)
  | broken unknown =>
    exact ⟨h.grow unknown, fun place hplace => by cases hplace⟩

/-- What is done to one variation leaves all variations in their places. -/
theorem ensures_onVariation_indexed {α : Type} {act : Action Variation α}
    (h : shader.Indexed catalogue)
    (hact : ∀ v, act.Ensures services (fun _ v' _ => v.SameBut v') v j) :
    (onVariation stage i act).Ensures services (fun _ t _ => t.Indexed catalogue) shader j := by
  rw [onVariation, ensures_focus, VariationCache.onVariation]
  cases hv : (shader.variations stage).variations[i]? with
  | none =>
    rw [ensures_focus?_none (by exact hv), putVariations_variations]
    exact h
  | some v =>
    rw [ensures_focus?_some (by exact hv)]
    refine (hact v).mono fun _ v' _ hsame => ?_
    apply h.putVariations
    apply (h stage).replace
    rw [VariationCache.definesAt?, hv, hsame]
    rfl

/-- **Preparing** enters a define string as a request does, however the compilation ends. -/
theorem ensures_prepare_indexed (h : desk.item.Indexed catalogue) :
    (prepare stage raw).Ensures services (fun ending t _ =>
      t.item.Indexed (catalogue.enter stage (Defines.canonicalize raw)) ∧
        ∀ place, ending = .done place →
          (catalogue.enter stage (Defines.canonicalize raw) stage)[Defines.canonicalize raw]? =
            some place) desk j := by
  refine ensures_prepare_of (fun i t _ =>
    t.item.Indexed (catalogue.enter stage (Defines.canonicalize raw)) ∧
      (catalogue.enter stage (Defines.canonicalize raw) stage)[Defines.canonicalize raw]? = some i)
    ?_ ?_ ?_ ?_ ?_ ?_
  · intro i mid _ _ hrequested
    obtain ⟨hmid, hplace⟩ := hrequested.indexed h
    exact ⟨hmid, hplace i rfl⟩
  · intro reason mid _ _ hrequested
    exact hrequested.indexed h
  · intro i mid _ _ _ hmid
    exact hmid
  · rintro i mid j₁ ⟨hmid, hplace⟩
    refine (ensures_onVariation_indexed hmid fun v => ?_).mono fun _ item _ hitem => ⟨hitem, hplace⟩
    exact Variation.ensures_observe fun _ _ _ => rfl
  · rintro i mid j₁ ⟨hmid, hplace⟩
    refine (ensures_onVariation_indexed hmid fun v => ?_).mono fun _ item _ hitem => ⟨hitem, hplace⟩
    exact Variation.ensures_compile_sameBut
  · rintro i ending t _ hending ⟨ht, hplace⟩
    refine ⟨ht, fun place hdone => ?_⟩
    rw [hending place hdone]
    exact hplace

end Shader

namespace Answer

variable {answer : Answer} {catalogue : Catalogue} {services : Services} {desk : Desk Shader}
  {j : Journal}

/-- A request is answered with a handle, and every handle is that of a catalogue. -/
structure Fits (answer : Answer) (catalogue : Catalogue) : Prop where
  /-- Only a breakdown keeps a request from ending with a handle. -/
  given : ∀ stage raw, answer.op = .request stage raw → answer.ending.isUnwound = false →
    ∃ handle, answer.ending = .done (some handle)
  placed : ∀ stage raw handle, answer.Returned stage raw handle → handle.stage = stage ∧
    (catalogue stage)[Defines.canonicalize raw]? = some handle.place

/-- Two handles of one shader are the same exactly when they are for the same stage and the same
    canonical define string. -/
theorem Fits.eq_iff {shader : Shader} {answer' : Answer} (h : answer.Fits catalogue)
    (h' : answer'.Fits catalogue) (hshader : shader.Indexed catalogue) {stage stage' : Stage}
    {raw raw' : String} {handle handle' : VariationHandle} (hreturned : answer.Returned stage raw handle)
    (hreturned' : answer'.Returned stage' raw' handle') :
    handle = handle' ↔
      stage = stage' ∧ Defines.canonicalize raw = Defines.canonicalize raw' := by
  obtain ⟨hstage, hplace⟩ := h.placed stage raw handle hreturned
  obtain ⟨hstage', hplace'⟩ := h'.placed stage' raw' handle' hreturned'
  constructor
  · intro heq
    have hstages : stage = stage' := by rw [← hstage, ← hstage', heq]
    refine ⟨hstages, ?_⟩
    -- One place has one variation, and with it one define string.
    rw [← hstages, ← heq] at hplace'
    have hdefines := ((hshader stage).place _ _).mp hplace
    have hdefines' := ((hshader stage).place _ _).mp hplace'
    rw [hdefines] at hdefines'
    exact Option.some.inj hdefines'
  · rintro ⟨rfl, hcanonical⟩
    rw [hcanonical, hplace'] at hplace
    cases handle
    cases handle'
    cases hstage
    cases hstage'
    cases hplace
    rfl

/-- What is entered later does not matter. -/
theorem Fits.entered (h : answer.Fits catalogue) (op : ShaderOp) :
    answer.Fits (op.entered catalogue) where
  given := h.given
  placed := by
    intro stage raw handle hreturned
    obtain ⟨hstage, hplace⟩ := h.placed stage raw handle hreturned
    exact ⟨hstage, ShaderOp.getElem?_entered hplace⟩

/-- **One answer.**  Whatever a shader is asked for, it has the variations of the catalogue with what
    it was asked for, and the answer fits in. -/
theorem ensures_answer (op : ShaderOp) (h : desk.item.Indexed catalogue) :
    op.answer.Ensures services (fun ending t _ => t.item.Indexed (op.entered catalogue) ∧
      ({ op, ending } : Answer).Fits (op.entered catalogue)) desk j := by
  cases op with
  | request stage raw =>
    rw [ShaderOp.answer, ensures_map]
    refine Shader.ensures_request.mono ?_
    rintro ending t j' ⟨-, hrequested⟩
    obtain ⟨ht, hplace⟩ := hrequested.indexed h
    refine ⟨ht, fun _ _ _ hcalm => ?_, ?_⟩
    · cases hrequested with
      | found _ => exact ⟨_, rfl⟩
      | made _ => exact ⟨_, rfl⟩
      | broken _ => cases hcalm
    · rintro _ _ handle ⟨hasked, hreturned⟩
      cases hasked
      obtain ⟨place, hdone, hhandle⟩ := Ending.map_eq_done.mp hreturned
      cases hhandle
      exact ⟨rfl, hplace place hdone⟩
  | prepare stage raw =>
    rw [ShaderOp.answer, ensures_map]
    refine (Shader.ensures_prepare_indexed h).mono ?_
    rintro ending t j' ⟨ht, hplace⟩
    refine ⟨ht, fun _ _ hop => ?_, ?_⟩
    · cases hop
    · rintro _ _ handle ⟨hasked, hreturned⟩
      cases hasked
      obtain ⟨place, hdone, hhandle⟩ := Ending.map_eq_done.mp hreturned
      cases hhandle
      exact ⟨rfl, hplace place hdone⟩
  | load file =>
    rw [ShaderOp.answer, ensures_map]
    refine Shader.ensures_load.mono ?_
    rintro ending t j' ⟨-, hloaded⟩
    refine ⟨hloaded.indexed h, fun _ _ hop => ?_, ?_⟩
    · cases hop
    · rintro _ _ handle ⟨hasked, -⟩
      cases hasked

end Answer

namespace Bench

variable {start bench : Bench} {answers : List Answer}

/-- The answer to what is asked of the shader at a bench. -/
def answer (bench : Bench) (op : ShaderOp) (services : Services) : Answer where
  op
  ending := (op.answer.run services bench.desk bench.journal).ending

/-- The bench after someone who holds a variation has compiled or released it. -/
def hold (bench : Bench) (stage : Stage) (i : Nat) (op : VariationOp) (services : Services) : Bench :=
  let out := (Shader.alone (Shader.onVariation stage i op.act)).run services bench.desk bench.journal
  { desk := out.state, journal := out.journal }

/-- The benches that a run of work leads to, with the answers that were given on the way. -/
inductive Run (start : Bench) : List Answer → Bench → Prop where
  | start : Run start [] start
  | work {answers : List Answer} {bench : Bench} (before : Run start answers bench) (op : ShaderOp)
    (services : Services) :
    Run start (answers ++ [bench.answer op services]) (bench.work op services)
  /-- Someone who holds a variation compiles or releases it. -/
  | hold {answers : List Answer} {bench : Bench} (before : Run start answers bench) (stage : Stage)
    (i : Nat) (op : VariationOp) (services : Services) :
    Run start answers (bench.hold stage i op services)
  /-- Others write into the books, speak and ask the compiler. -/
  | others {answers : List Answer} {bench : Bench} (before : Run start answers bench) (books : Books)
    (journal : Journal) :
    Run start answers { desk := { bench.desk with books }, journal }

/-- What is ensured of an answer holds of the answer at the bench and of the bench afterwards. -/
theorem of_ensures_answer {op : ShaderOp} {services : Services}
    {post : Ending (Option VariationHandle) → Desk Shader → Prop}
    (h : op.answer.Ensures services (fun ending t _ => post ending t) bench.desk bench.journal) :
    post (bench.answer op services).ending (bench.work op services).desk := by
  have hdesk : op.act.Ensures services (fun _ t _ =>
      t = (op.answer.run services bench.desk bench.journal).state) bench.desk bench.journal := by
    rw [← op.discard_answer, ensures_discard]
    rfl
  have hwork : (bench.work op services).desk =
      (op.answer.run services bench.desk bench.journal).state := hdesk
  rw [hwork]
  exact h

/-- Nor does work on a single variation make or lose any. -/
theorem indexed_hold {catalogue : Catalogue} (h : bench.desk.item.Indexed catalogue) (stage : Stage)
    (i : Nat) (op : VariationOp) (services : Services) :
    (bench.hold stage i op services).desk.item.Indexed catalogue := by
  have hact : (Shader.alone (Shader.onVariation stage i op.act)).Ensures services
      (fun _ t _ => t.item.Indexed catalogue) bench.desk bench.journal := by
    rw [Shader.alone, ensures_focus]
    apply Shader.ensures_onVariation_indexed h
    intro v
    cases op with
    | compile text dialect =>
      rw [VariationOp.act, ensures_discard]
      exact Variation.ensures_compile_sameBut
    | release => exact Variation.sameBut_release
  exact hact

/-- **The run.**  At every bench of a run the shader has the variations of the catalogue so far, and
    all answers so far fit into it. -/
theorem Run.indexed (run : Run start answers bench)
    (hs : start.desk.item.Indexed fun _ => ∅) :
    bench.desk.item.Indexed (catalogued answers) ∧ ∀ a ∈ answers, a.Fits (catalogued answers) := by
  induction run with
  | start =>
    refine ⟨hs, fun a ha => ?_⟩
    cases ha
  | work _ op services ih =>
    obtain ⟨hbench, hfits⟩ := ih
    obtain ⟨hnext, hlast⟩ := of_ensures_answer (Answer.ensures_answer op hbench)
    rw [catalogued_concat]
    refine ⟨hnext, fun a ha => ?_⟩
    rcases List.mem_append.mp ha with ha | ha
    · exact (hfits a ha).entered op
    · rw [List.mem_singleton] at ha
      rw [ha]
      exact hlast
  | hold _ stage i op services ih => exact ⟨indexed_hold ih.1 stage i op services, ih.2⟩
  | others _ books journal ih => exact ih

/-- **One variation for each define string.**  Take a new shader with any fingerprint, and any run of
    requests, prepares and loads, however they end, while others use the variations, the books and
    the compiler.  Every request that is not cut short ends with a handle.  Two handles that were
    returned at any points of the run are the same exactly when they are for the same stage and the
    same canonical define string.  Each stage has exactly the variations that were asked for there,
    with the handles that were returned, and they can be found, counted and listed. -/
theorem one_variation_each {id : ResourceId} {name : String} {context : Context} {books : Books}
    {journal : Journal} {answers : List Answer} {bench : Bench}
    (run : Run { desk := { item := .unloaded id name context, books }, journal } answers bench) :
    (∀ a ∈ answers, ∀ stage raw, a.op = .request stage raw → a.ending.isUnwound = false →
      ∃ handle, a.Returned stage raw handle) ∧
    (∀ a ∈ answers, ∀ b ∈ answers, ∀ stage raw handle stage' raw' handle',
      a.Returned stage raw handle → b.Returned stage' raw' handle' →
        (handle = handle' ↔
          stage = stage' ∧ Defines.canonicalize raw = Defines.canonicalize raw')) ∧
    ∀ stage, (bench.desk.item.variations stage).Shows (catalogued answers stage) ∧
      (∀ d, d ∈ catalogued answers stage ↔
        ∃ a ∈ answers, ∃ raw, a.op.asked? = some (stage, raw) ∧ Defines.canonicalize raw = d) ∧
      ∀ a ∈ answers, ∀ raw handle, a.Returned stage raw handle → handle.stage = stage ∧
        (catalogued answers stage)[Defines.canonicalize raw]? = some handle.place := by
  obtain ⟨hbench, hfits⟩ := run.indexed (Shader.indexed_unloaded id name context)
  refine ⟨?_, ?_, fun stage => ⟨(hbench stage).shows, fun d => mem_catalogued, ?_⟩⟩
  · intro a ha stage raw hop hcalm
    obtain ⟨handle, hhandle⟩ := (hfits a ha).given stage raw hop hcalm
    exact ⟨handle, ⟨by rw [hop]; rfl, hhandle⟩⟩
  · intro a ha b hb stage raw handle stage' raw' handle' hreturned hreturned'
    exact (hfits a ha).eq_iff (hfits b hb) hbench hreturned hreturned'
  · intro a ha raw handle hreturned
    exact (hfits a ha).placed stage raw handle hreturned

/-- A shader whose variations share one fingerprint, after requests on both sides of a load. -/
def reloadedShader : Bench :=
  (newShader.work (.request .vertex "  A   B") {}).work (.load (.ofText "a" "float x;")) {}

/-- Before and after a load, and under another spelling, the first variation is returned; a define
    string with the same fingerprint gets a variation of its own. -/
theorem one_variation_each_colliding :
    ∃ answers, Run newShader answers (reloadedShader.work (.prepare .vertex "B A") {}) ∧
      newShader.answer (.request .vertex "  A   B") {} ∈ answers ∧
      reloadedShader.answer (.prepare .vertex "B A") {} ∈ answers ∧
      (newShader.answer (.request .vertex "  A   B") {}).Returned .vertex "  A   B" ⟨.vertex, 0⟩ ∧
      (reloadedShader.answer (.prepare .vertex "B A") {}).Returned .vertex "B A" ⟨.vertex, 1⟩ ∧
      Defines.canonicalize "  A   B" ≠ Defines.canonicalize "B A" ∧
      ((reloadedShader.work (.prepare .vertex "B A") {}).desk.item.variations .vertex).Shows
        (catalogued answers .vertex) := by
  have hstart : Run newShader [] newShader := .start
  have hrun := ((hstart.work (.request .vertex "  A   B") {}).work
    (.load (.ofText "a" "float x;")) {}).work (.prepare .vertex "B A") {}
  obtain ⟨-, hsame, hshows⟩ := one_variation_each hrun
  have hfirst : (newShader.answer (.request .vertex "  A   B") {}).Returned .vertex "  A   B"
      ⟨.vertex, 0⟩ := ⟨rfl, by decide +kernel⟩
  have hlast : (reloadedShader.answer (.prepare .vertex "B A") {}).Returned .vertex "B A"
      ⟨.vertex, 1⟩ := ⟨rfl, by decide +kernel⟩
  refine ⟨_, hrun, by simp, by simp [reloadedShader], hfirst, hlast, ?_, (hshows .vertex).1⟩
  intro hcanonical
  have hhandles := (hsame _ (by simp) _ (by simp [reloadedShader]) _ _ _ _ _ _ hfirst hlast).mpr
    ⟨rfl, hcanonical⟩
  cases hhandles

/-- A shader whose variation could not be compiled for want of a graphics subsystem. -/
def unpreparedShader : Bench :=
  newShader.work (.prepare .vertex "") { backend := { availability := .unavailable } }

/-- The variations are not only those to which a handle was returned: one whose compilation fails is
    there as well. -/
theorem variation_without_handle :
    ∃ answers, Run newShader answers unpreparedShader ∧
      (∀ a ∈ answers, ∀ stage raw handle, ¬ a.Returned stage raw handle) ∧
      (unpreparedShader.desk.item.variations .vertex).find? "" = some 0 ∧
      (unpreparedShader.desk.item.variations .vertex).size = 1 := by
  have hstart : Run newShader [] newShader := .start
  have hrun := hstart.work (.prepare .vertex "") { backend := { availability := .unavailable } }
  refine ⟨_, hrun, ?_, by decide +kernel, by decide +kernel⟩
  intro a ha stage raw handle hreturned
  have hfailed : a.ending = .failed .graphicsUnavailable := by
    rw [List.nil_append, List.mem_singleton] at ha
    rw [ha]
    decide +kernel
  have hdone := hreturned.returned
  rw [hfailed] at hdone
  cases hdone

end Bench

end ShaderKit
