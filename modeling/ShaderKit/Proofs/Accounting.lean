import Mathlib.Data.Finset.Card
import ShaderKit.Proofs.Forgetting
import ShaderKit.Proofs.Identity

namespace ShaderKit

open ShaderKit.Action

open Std (ExtTreeMap)

/-!
# Memory accounting

The memory use of a shader is kept in two ways: a new variation adds its size, and a load works the
figure out anew.  The ledger is written after either, and by nothing else that a shader does.  The two
ways agree, and so does the ledger:

* `requested`         — what was asked for in a run: stages with canonical define strings, each once
* `Shader.Costs`      — the memory use of a shader with the variations of a catalogue
* `Bench.CalmRun`     — a run over which no collaborator breaks down
* `Answer.Enters`     — the answers with which a shader enters the ledger
* `memory_accounted`  — the figure at each point of a run, and the ledger from such an answer on

The number of variations comes from the catalogue of what was asked for, so failures are counted in: a
variation that could not be compiled is there.
-/

/-! ### What was asked for -/

variable {answers : List Answer} {catalogue : Catalogue} {stage : Stage} {d raw : String}

/-- The stages and canonical define strings that were asked for, each once. -/
def requested (answers : List Answer) : Finset (Stage × String) :=
  ((answers.filterMap (·.op.asked?)).map fun asked =>
    (asked.1, Defines.canonicalize asked.2)).toFinset

/-- What was asked for is what the catalogue has. -/
theorem mem_requested : (stage, d) ∈ requested answers ↔ d ∈ catalogued answers stage := by
  rw [mem_catalogued, requested, List.mem_toFinset, List.mem_map]
  constructor
  · rintro ⟨⟨s, raw⟩, hasked, heq⟩
    obtain ⟨a, ha, hop⟩ := List.mem_filterMap.mp hasked
    cases heq
    exact ⟨a, ha, raw, hop, rfl⟩
  · rintro ⟨a, ha, raw, hop, rfl⟩
    exact ⟨(stage, raw), List.mem_filterMap.mpr ⟨a, ha, hop⟩, rfl⟩

namespace Catalogue

/-- The number of variations in a catalogue. -/
def size (catalogue : Catalogue) : Nat := (catalogue .vertex).size + (catalogue .pixel).size

theorem size_enter (h : d ∉ catalogue stage) : (catalogue.enter stage d).size = catalogue.size + 1 := by
  have hself : ((catalogue stage).enter d).size = (catalogue stage).size + 1 := by
    rw [DefineIndex.enter_of_not_mem h, ExtTreeMap.size_insert,
      if_neg (by simpa using h)]
  cases stage <;> simp [size, enter, hself] <;> omega

end Catalogue

/-- As many variations are in the catalogue as were asked for. -/
theorem card_requested (answers : List Answer) :
    (requested answers).card = (catalogued answers).size := by
  let keys (stage : Stage) : List (Stage × String) :=
    (catalogued answers stage).keys.map (Prod.mk stage)
  have hmem (stage s : Stage) (d : String) :
      (stage, d) ∈ keys s ↔ s = stage ∧ d ∈ catalogued answers stage := by
    simp only [keys, List.mem_map, ExtTreeMap.mem_keys, Prod.mk.injEq]
    constructor
    · rintro ⟨e, he, rfl, rfl⟩
      exact ⟨rfl, he⟩
    · rintro ⟨rfl, hd⟩
      exact ⟨d, hd, rfl, rfl⟩
  have hnodup (stage : Stage) : (keys stage).Nodup :=
    ExtTreeMap.nodup_keys.map fun _ _ h => (Prod.mk.inj h).2
  have hset : requested answers = (keys .vertex ++ keys .pixel).toFinset := by
    ext ⟨stage, d⟩
    rw [mem_requested, List.mem_toFinset, List.mem_append, hmem, hmem]
    cases stage <;> simp
  have hall : (keys .vertex ++ keys .pixel).Nodup := by
    refine (hnodup .vertex).append (hnodup .pixel) ?_
    rintro ⟨stage, d⟩ hv hp
    cases ((hmem _ _ _).mp hv).1.trans ((hmem _ _ _).mp hp).1.symm
  rw [hset, List.toFinset_card_of_nodup hall]
  simp [keys, Catalogue.size]

/-! ### Work on a shader -/

namespace Shader

variable {services : Services} {shader : Shader} {desk t : Desk Shader} {file : SourceFile}

/-- The memory use of a shader is what it takes with its texts and the variations of a catalogue. -/
def Costs (shader : Shader) (catalogue : Catalogue) : Prop :=
  shader.memoryUse = baseSize + shader.sources.size + variationSize * catalogue.size

theorem Indexed.variationCount_eq (h : shader.Indexed catalogue) :
    shader.variationCount = catalogue.size :=
  congr (congrArg _ (h .vertex).size_eq) (h .pixel).size_eq

/-- A variation that is not found has not been asked for. -/
theorem Indexed.find?_eq_none (h : shader.Indexed catalogue) :
    (shader.variations stage).find? d = none ↔ d ∉ catalogue stage := by
  rw [(h stage).find?_eq, ExtTreeMap.mem_iff_isSome_getElem?, Bool.not_eq_true, Option.isSome_eq_false_iff,
    Option.isNone_iff_eq_none]

/-- A load works the figure out anew. -/
theorem Indexed.costs_takeOver (h : shader.Indexed catalogue) (sources : StageSources) :
    (shader.takeOver sources).Costs catalogue := by
  have hcount := (h.takeOver sources).variationCount_eq
  have huse : (shader.takeOver sources).memoryUse = baseSize + (shader.takeOver sources).sources.size +
      (shader.takeOver sources).variationCount * variationSize := rfl
  rw [Costs, huse, hcount, Nat.mul_comm]

theorem Loaded.costs {ending : Ending Unit} (hl : Loaded services file desk ending t)
    (h : desk.item.Indexed catalogue) (hc : desk.item.Costs catalogue) : t.item.Costs catalogue := by
  cases hl with
  | refused _ => exact hc
  | unexpanded _ _ => exact hc
  | loaded _ _ => exact h.costs_takeOver _
  | brokenBefore _ => exact hc
  | brokenAfter _ => exact h.costs_takeOver _

/-- A new variation adds to the figure what it adds to the catalogue. -/
theorem Requested.costs {ending : Ending Nat} (hr : Requested stage raw desk ending t)
    (hcalm : ending.isUnwound = false) (h : desk.item.Indexed catalogue)
    (hc : desk.item.Costs catalogue) :
    t.item.Costs (catalogue.enter stage (Defines.canonicalize raw)) := by
  cases hr with
  | found known =>
    have hmem : Defines.canonicalize raw ∈ catalogue stage := by
      by_contra hnew
      rw [h.find?_eq_none.mpr hnew] at known
      cases known
    rwa [Catalogue.enter_of_mem hmem]
  | made unknown =>
    have hsources : (desk.item.grow stage (Defines.canonicalize raw)).sources = desk.item.sources :=
      sources_putVariations
    have huse : (desk.item.grow stage (Defines.canonicalize raw)).memoryUse = desk.item.memoryUse :=
      memoryUse_putVariations
    unfold Costs at hc
    show (desk.item.grow stage _).memoryUse + variationSize =
      baseSize + (desk.item.grow stage _).sources.size + _
    rw [huse, hsources, hc, Catalogue.size_enter (h.find?_eq_none.mp unknown), Nat.mul_add_one,
      Nat.add_assoc]
  | broken _ => cases hcalm

/-- Compiling a variation costs nothing. -/
theorem Costs.putVariations (h : shader.Costs catalogue) (cache : VariationCache) :
    (shader.putVariations stage cache).Costs catalogue := by
  rwa [Costs, memoryUse_putVariations, sources_putVariations]

/-- A calm request for a variation that is not there enters the shader into the ledger. -/
theorem Requested.entered {ending : Ending Nat} (hr : Requested stage raw desk ending t)
    (hcalm : ending.isUnwound = false)
    (unknown : (desk.item.variations stage).find? (Defines.canonicalize raw) = none)
    (hm : desk.item.context.memory = true) :
    t.books.memory.sizes[desk.item.id]? = some t.item.memoryUse := by
  cases hr with
  | found known => cases unknown.symm.trans known
  | made _ => exact sizes_grown hm
  | broken _ => cases hcalm

end Shader

namespace ShaderOp

variable {services : Services} {desk t : Desk Shader} {op : ShaderOp} {ending : Ending Unit}

/-- **The figure.**  Whatever a shader is asked for, its memory use goes on with the catalogue of what
    was asked for. -/
theorem Outcome.costs (ho : op.Outcome services desk ending t) (hcalm : ending.isUnwound = false)
    (h : desk.item.Indexed catalogue) (hc : desk.item.Costs catalogue) :
    t.item.Costs (op.entered catalogue) := by
  cases op with
  | request stage raw =>
    obtain ⟨first, rfl, hr⟩ := ho
    rw [Ending.isUnwound_map] at hcalm
    exact hr.costs hcalm h hc
  | prepare stage raw =>
    obtain ⟨first, rfl, cache, hr, goesOn⟩ := ho
    rw [Ending.isUnwound_map] at hcalm
    -- A breakdown over the request would have ended the whole.
    have hfirst := Bool.eq_false_iff.mpr (mt goesOn (Bool.eq_false_iff.mp hcalm))
    exact (hr.costs hfirst h hc).putVariations cache
  | load file => exact Shader.Loaded.costs ho h hc

/-- **The ledger.**  A new variation enters the shader into the ledger, and so does a load that
    succeeds. -/
theorem Outcome.entered (ho : op.Outcome services desk ending t) (hcalm : ending.isUnwound = false)
    (hm : desk.item.context.memory = true) (h : desk.item.Indexed catalogue)
    (hasked : ∀ stage raw, op.asked? = some (stage, raw) → Defines.canonicalize raw ∉ catalogue stage)
    (hloaded : op.asked? = none → ending = .done ()) :
    t.books.memory.sizes[desk.item.id]? = some t.item.memoryUse := by
  cases op with
  | request stage raw =>
    obtain ⟨first, rfl, hr⟩ := ho
    rw [Ending.isUnwound_map] at hcalm
    exact hr.entered hcalm (h.find?_eq_none.mpr (hasked stage raw rfl)) hm
  | prepare stage raw =>
    obtain ⟨first, rfl, cache, hr, goesOn⟩ := ho
    rw [Ending.isUnwound_map] at hcalm
    have hfirst := Bool.eq_false_iff.mpr (mt goesOn (Bool.eq_false_iff.mp hcalm))
    rw [Shader.memoryUse_putVariations]
    exact hr.entered hfirst (h.find?_eq_none.mpr (hasked stage raw rfl)) hm
  | load file =>
    cases hloaded rfl
    cases ho with
    | loaded _ _ => exact Shader.sizes_renewed hm

end ShaderOp

/-! ### Runs -/

/-- An answer with which a shader enters the ledger: to a load that succeeded, or to a request for a
    variation that was not asked for before, whether or not it could be compiled. -/
def Answer.Enters (answer : Answer) (before : List Answer) : Prop :=
  match answer.op.asked? with
  | some (stage, raw) => (stage, Defines.canonicalize raw) ∉ requested before
  | none => answer.ending = .done none

namespace Bench

variable {allowed : Books → Books → Prop} {start bench : Bench} {id : ResourceId}

/-- The benches that a run of work leads to over which no collaborator breaks down, with the answers
    that were given on the way.  What others may do to the books is a parameter. -/
inductive CalmRun (allowed : Books → Books → Prop) (start : Bench) : List Answer → Bench → Prop where
  | start : CalmRun allowed start [] start
  | work {answers : List Answer} {bench : Bench} (before : CalmRun allowed start answers bench)
    (op : ShaderOp) (services : Services)
    (calm : (bench.answer op services).ending.isUnwound = false) :
    CalmRun allowed start (answers ++ [bench.answer op services]) (bench.work op services)
  /-- Someone who holds a variation compiles or releases it. -/
  | hold {answers : List Answer} {bench : Bench} (before : CalmRun allowed start answers bench)
    (stage : Stage) (i : Nat) (op : VariationOp) (services : Services) :
    CalmRun allowed start answers (bench.hold stage i op services)
  /-- Others write into the books, speak and ask the compiler. -/
  | others {answers : List Answer} {bench : Bench} (before : CalmRun allowed start answers bench)
    (books : Books) (journal : Journal) (ok : allowed bench.desk.books books) :
    CalmRun allowed start answers { desk := { bench.desk with books }, journal }

/-- Whoever knows of all runs knows of those without a breakdown. -/
theorem CalmRun.run (h : CalmRun allowed start answers bench) : Run start answers bench := by
  induction h with
  | start => exact .start
  | work _ op services _ ih => exact ih.work op services
  | hold _ stage i op services ih => exact ih.hold stage i op services
  | others _ books journal _ ih => exact ih.others books journal

/-- What becomes of the desk is told by the ending of the answer. -/
theorem outcome_work (bench : Bench) (op : ShaderOp) (services : Services) :
    op.Outcome services bench.desk ((bench.answer op services).ending.map fun _ => ())
      (bench.work op services).desk := by
  have hact : (discard op.answer).Ensures services
      (fun ending t _ => op.Outcome services bench.desk ending t) bench.desk bench.journal := by
    rw [op.discard_answer]
    exact op.ensures_act
  exact of_ensures_answer (ensures_discard.mp hact)

/-- Someone who holds a variation works on the variations alone. -/
theorem desk_hold (bench : Bench) (stage : Stage) (i : Nat) (op : VariationOp) (services : Services) :
    ∃ cache, (bench.hold stage i op services).desk =
      { bench.desk with item := bench.desk.item.putVariations stage cache } := by
  have hact : (Shader.alone (Shader.onVariation stage i op.act)).Ensures services
      (fun _ t _ => ∃ cache, t = { bench.desk with item := bench.desk.item.putVariations stage cache })
      bench.desk bench.journal := by
    rw [Shader.alone, ensures_focus]
    exact Shader.ensures_onVariation fun _ cache _ => ⟨cache, rfl⟩
  exact hact

/-- **The figure over a run.** -/
theorem CalmRun.costs (h : CalmRun allowed start answers bench)
    (hindexed : start.desk.item.Indexed fun _ => ∅) (hcosts : start.desk.item.Costs fun _ => ∅) :
    bench.desk.item.Costs (catalogued answers) := by
  induction h with
  | start => exact hcosts
  | @work answers bench before op services calm ih =>
    have hbench := (before.run.indexed hindexed).1
    rw [catalogued_concat]
    exact (outcome_work bench op services).costs ((Ending.isUnwound_map _ _).trans calm) hbench ih
  | @hold answers bench _ stage i op services ih =>
    obtain ⟨cache, hdesk⟩ := desk_hold bench stage i op services
    rw [hdesk]
    exact ih.putVariations cache
  | others _ _ _ _ ih => exact ih

/-- A shader stays the one that was made. -/
theorem Run.madeAs (h : Run start answers bench) : bench.desk.item.MadeAs start.desk.item.id
    start.desk.item.name start.desk.item.context := by
  induction h with
  | start => exact ⟨rfl, rfl, rfl⟩
  | @work _ bench _ op services ih =>
    obtain ⟨hid, hname, hcontext⟩ := (outcome_work bench op services).continues.made
    exact ⟨hid.trans ih.id, hname.trans ih.name, hcontext.trans ih.context⟩
  | @hold _ bench _ stage i op services ih =>
    obtain ⟨cache, hdesk⟩ := desk_hold bench stage i op services
    rw [hdesk]
    exact ⟨Shader.id_putVariations.trans ih.id, Shader.name_putVariations.trans ih.name,
      Shader.context_putVariations.trans ih.context⟩
  | others _ _ _ ih => exact ih

/-- Others leave the figure of a resource in the ledger as it is. -/
def KeepsFigure (id : ResourceId) (books books' : Books) : Prop :=
  books'.memory.sizes[id]? = books.memory.sizes[id]?

/-- **The ledger over a run.**  Once the ledger has the figure of a shader it goes on with it. -/
theorem CalmRun.reported (h : CalmRun (KeepsFigure start.desk.item.id) start answers bench)
    (hm : start.desk.item.context.memory = true)
    (hstart : start.desk.books.memory.sizes[start.desk.item.id]? = some start.desk.item.memoryUse) :
    bench.desk.books.memory.sizes[start.desk.item.id]? = some bench.desk.item.memoryUse := by
  induction h with
  | start => exact hstart
  | @work _ bench before op services _ ih =>
    have hmade := before.run.madeAs
    have hreported := (outcome_work bench op services).reported (by rw [hmade.context, hm])
    rw [Shader.Reported, hmade.id] at hreported
    rcases hreported with hentry | ⟨huse, hsizes⟩
    · exact hentry
    · rw [huse, hsizes, ih]
  | @hold _ bench _ stage i op services ih =>
    obtain ⟨cache, hdesk⟩ := desk_hold bench stage i op services
    rw [hdesk, Shader.memoryUse_putVariations]
    exact ih
  | others _ _ _ ok ih => exact ok.trans ih

/-- The ledger gets the figure of a shader with an answer that enters it. -/
theorem entered_work {op : ShaderOp} {services : Services}
    (hindexed : bench.desk.item.Indexed (catalogued answers))
    (hm : bench.desk.item.context.memory = true)
    (calm : (bench.answer op services).ending.isUnwound = false)
    (henters : (bench.answer op services).Enters answers) :
    (bench.work op services).desk.books.memory.sizes[bench.desk.item.id]? =
      some (bench.work op services).desk.item.memoryUse := by
  refine (outcome_work bench op services).entered ((Ending.isUnwound_map _ _).trans calm) hm hindexed
    (fun stage raw hasked hmem => ?_) fun hasked => ?_
  · rw [Answer.Enters, answer, hasked] at henters
    exact henters (mem_requested.mpr hmem)
  · rw [Answer.Enters, answer, hasked] at henters
    exact congrArg (Ending.map fun _ => ()) henters

/-- **Memory accounting.**  Take a new shader with any context, and any run of requests, prepares and
    loads that succeed or fail, while others use the variations, the books and the compiler.  At each
    point its memory use is its own size, the lengths of its two texts, and the size of a variation for
    each stage and canonical define string that was asked for so far.  If it was given a ledger, then
    from a successful load or a new variation on the ledger has this figure under its id, as long as
    others leave it there. -/
theorem memory_accounted {name : String} {context : Context} {books : Books} {journal : Journal}
    (run : CalmRun (fun _ _ => True)
      { desk := { item := .unloaded id name context, books }, journal } answers bench) :
    bench.desk.item.memoryUse = Shader.baseSize + bench.desk.item.sources.vertex.utf8ByteSize +
      bench.desk.item.sources.pixel.utf8ByteSize + Shader.variationSize * (requested answers).card ∧
    (context.memory = true → ∀ op services,
      (bench.answer op services).ending.isUnwound = false → (bench.answer op services).Enters answers →
        ∀ later t, CalmRun (KeepsFigure id) (bench.work op services) later t →
          t.desk.books.memory.sizes[id]? = some t.desk.item.memoryUse) := by
  have hindexed := Shader.indexed_unloaded id name context
  refine ⟨?_, fun hm op services calm henters later t hlater => ?_⟩
  · have hcosts := run.costs hindexed rfl
    rwa [Shader.Costs, StageSources.size, ← card_requested, ← Nat.add_assoc] at hcosts
  · have hmade := run.run.madeAs
    have hmade' := (run.work op services calm).run.madeAs
    have hentered := entered_work (run.run.indexed hindexed).1 (by rw [hmade.context]; exact hm) calm
      henters
    have hid : bench.desk.item.id = id := hmade.id
    have hid' : (bench.work op services).desk.item.id = id := hmade'.id
    rw [← hid'] at hlater ⊢
    refine hlater.reported (by rw [hmade'.context]; exact hm) ?_
    rw [hid', ← hid]
    exact hentered

/-- A graphics subsystem that is not there. -/
def withoutGraphics : Services := { backend := { availability := .unavailable } }

/-- A shader after a variation was made that could not be compiled for want of a graphics subsystem, a
    load, and a request for the same variation under another spelling. -/
def respelledShader : Bench :=
  ((newShader.work (.prepare .vertex "A  B") withoutGraphics).work
    (.load (.ofText "a" "float x;")) {}).work (.request .vertex " A B") {}

/-- The failure enters the shader into the ledger, the load counts the variation, and the request adds
    none. -/
theorem memory_accounted_respelled :
    respelledShader.desk.item.memoryUse = 192 + 13 + 10 + 96 * 1 ∧
      respelledShader.desk.books.memory.sizes[ResourceId.standalone]? =
        some respelledShader.desk.item.memoryUse := by
  have hfailed : (newShader.answer (.prepare .vertex "A  B") withoutGraphics).ending =
      .failed .graphicsUnavailable := by decide +kernel
  have hstart : CalmRun (fun _ _ => True) newShader [] newShader := .start
  have hprepared := hstart.work (.prepare .vertex "A  B") withoutGraphics (by rw [hfailed]; rfl)
  have hrun := (hprepared.work (.load (.ofText "a" "float x;")) {} (by decide +kernel)).work
    (.request .vertex " A B") {} (by decide +kernel)
  have hlater : CalmRun (KeepsFigure .standalone)
      (newShader.work (.prepare .vertex "A  B") withoutGraphics) _ respelledShader :=
    (CalmRun.start.work (.load (.ofText "a" "float x;")) {} (by decide +kernel)).work
      (.request .vertex " A B") {} (by decide +kernel)
  have huse := (memory_accounted hrun).1
  have henters : (newShader.answer (.prepare .vertex "A  B") withoutGraphics).Enters [] := by
    simp [Answer.Enters, answer, ShaderOp.asked?, requested]
  have hentered := (memory_accounted hstart).2 rfl (.prepare .vertex "A  B") withoutGraphics
    (by rw [hfailed]; rfl) henters _ _ hlater
  refine ⟨?_, hentered⟩
  exact huse.trans (by decide +kernel)

end Bench

end ShaderKit
