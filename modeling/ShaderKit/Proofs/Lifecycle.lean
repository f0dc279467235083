import ShaderKit.Proofs.Programs

namespace ShaderKit

open ShaderKit.Action

/-!
# The life of a variation

A variation is compiled and released in any order, each time from another text, in another dialect, with another
compiler.  The first compile call after a release asks the compiler, and what comes of it stays until the next
release: a program, or the output of the compiler.  A breakdown while the compiler is asked ends all that, as it
poisons the guard of the compile state.

* `CompileCall`, `VariationCall` — what is done to a variation, and with which collaborators
* `Workpiece`             — a variation that is worked on, with the journal of all that was compiled
* `Settled`               — a compile state and the ending that every compile call has from then on
* `outcome_of_settled`, `outcome_of_open`, `outcome_of_poisoned` — a compile call, in the three kinds of states
* `Says`                  — what the accessors of a variation say between two releases
* `compiled_once`         — one request between two releases, and one result
* `Workpiece.cutShort`    — a call was cut short
* `asks_iff_needsCompile` — the accessor that foretells a request is right as long as that has not happened
-/

/-! ### Calls -/

/-- A compile call: what the variation is compiled from, and the collaborators that the call meets. -/
structure CompileCall where
  text : String
  dialect : Dialect := .hlsl
  services : Services := {}

/-- What is done to a variation. -/
inductive VariationCall where
  | compile (call : CompileCall)
  | release

/-- A variation that is worked on, and the journal of all that was compiled. -/
structure Workpiece where
  variation : Variation
  journal : Journal := {}

/-- The compiler has an answer to every request, and the logger does not break down over it. -/
structure Services.Answering (services : Services) : Prop where
  steady : services.logger.Steady
  answers : ∀ request reason, services.backend.compile request ≠ .broken reason

/-- How a compile call ends, given the verdict of the compiler: with the new program, or with an error under the
    name of the variation that has the output of the compiler, or else the message of the error that came
    instead. -/
def answerTo (name : String) (number : Nat) : Verdict → Ending Nat
  | .accepted => .done number
  | .rejected (.compileFailed _ output) => .failed (.compileFailed name output)
  | .rejected error => .failed (.compileFailed name error.message)
  | .broken reason => .unwound reason

namespace CompileCall

variable (call : CompileCall) (piece : Workpiece)

/-- How the call ends, with the variation and the journal at its end. -/
def outcome : Outcome Variation Nat :=
  (Variation.compile call.text call.dialect).run call.services piece.variation piece.journal

/-- What the compiler is asked if it is asked. -/
def request : CompileRequest := piece.variation.request call.text call.dialect

/-- What the compiler says to that. -/
def verdict : Verdict := call.services.backend.compile (call.request piece)

/-- How the call ends if the compiler is asked. -/
def answer : Ending Nat :=
  answerTo piece.variation.name piece.journal.nextProgram (call.verdict piece)

/-- What is noted in the journal if the compiler is asked. -/
def compilation : Compilation where
  request := call.request piece
  reply := piece.journal.replyTo (call.verdict piece)

/-- The call passes one request to its compiler. -/
def Asks : Prop :=
  (call.outcome piece).journal.compilations = call.compilation piece :: piece.journal.compilations

end CompileCall

namespace VariationCall

/-- What a call makes of a variation. -/
def next : VariationCall → Workpiece → Workpiece
  | compile call, piece => ⟨(call.outcome piece).state, (call.outcome piece).journal⟩
  | release, piece => { piece with variation := piece.variation.release }

/-- A collaborator breaks down over the call. -/
def cut : VariationCall → Workpiece → Bool
  | compile call, piece => (call.outcome piece).ending.isUnwound
  | release, _ => false

end VariationCall

namespace Workpiece

/-- What a run of calls makes of a variation. -/
def after (piece : Workpiece) (calls : List VariationCall) : Workpiece :=
  calls.foldl (fun piece call => call.next piece) piece

/-- How compile calls end that come one after the other. -/
def endings (piece : Workpiece) : List CompileCall → List (Ending Nat)
  | [] => []
  | call :: calls =>
    (call.outcome piece).ending :: ((VariationCall.compile call).next piece).endings calls

/-- A collaborator breaks down over one of the calls. -/
def cutShort (piece : Workpiece) : List VariationCall → Bool
  | [] => false
  | call :: calls => call.cut piece || (call.next piece).cutShort calls

/-- The compile state that every accessor sees, whatever its collaborators are. -/
def Observed (piece : Workpiece) (state : CompileState) : Prop :=
  ∀ services, Variation.observe.run services piece.variation piece.journal =
    ⟨.done state, piece.variation, piece.journal⟩

end Workpiece

variable {services : Services} {v : Variation} {j : Journal} {state : CompileState} {piece : Workpiece}
  {call : CompileCall} {ending : Ending Nat}

/-- What the accessors say, given how compiling has ended since the last release, if there was a compile call
    since then. -/
structure Says (name : String) (state : CompileState) (released : Bool) (result? : Option (Ending Nat)) :
    Prop where
  program : ∀ number, state.program? = some number ↔ result? = some (.done number)
  output : ∀ output, state.output? = some output ↔ result? = some (.failed (.compileFailed name output))
  isCompiled : state.isCompiled = true ↔ ∃ number, result? = some (.done number)
  isReleased : state.isReleased = true ↔ result? = none ∧ released = true
  needsCompile : state.needsCompile = true ↔ result? = none

/-- A compile state that is kept, and how every compile call ends as long as it is. -/
inductive Settled (name : String) : CompileState → Ending Nat → Prop where
  | compiled {number : Nat} : Settled name (.compiled number) (.done number)
  | failed {output : String} : Settled name (.failed output) (.failed (.compileFailed name output))

/-- What a compile call leaves behind that asks the compiler.  If it is not cut short, the answer is kept. -/
structure CompileCall.Asked (call : CompileCall) (piece : Workpiece) (ending : Ending Nat) (v : Variation)
    (k : Journal) : Prop where
  noted : k.compilations = call.compilation piece :: piece.journal.compilations
  same : piece.variation.SameBut v
  cut : ending.isUnwound = true → v.state.poisoned = true
  answered : ending.isUnwound = false → ending = call.answer piece
  settled : ending.isUnwound = false →
    ∃ state, v.state.get? = some state ∧ Settled piece.variation.name state ending
  calm : call.services.Answering → ending.isUnwound = false

/-- The accessors say of a settled state how its compile calls end. -/
theorem Settled.answers {name : String} (h : Settled name state ending) (released : Bool) :
    Says name state released (some ending) := by
  cases h <;> constructor <;> simp [CompileState.program?, CompileState.output?, CompileState.isCompiled,
    CompileState.isReleased, CompileState.needsCompile]

/-- A call that finds a settled state is not cut short. -/
theorem Settled.isUnwound_eq {name : String} (h : Settled name state ending) : ending.isUnwound = false := by
  cases h <;> rfl

/-- A settled state needs no compilation. -/
theorem Settled.needsCompile_eq {name : String} (h : Settled name state ending) : state.needsCompile = false := by
  cases h <;> rfl

/-- Either the compiler is asked next time, or it is known how the next call ends. -/
theorem open_or_settled (name : String) (state : CompileState) :
    state.needsCompile = true ∨ ∃ ending, Settled name state ending := by
  cases state with
  | pending => exact .inl rfl
  | compiled number => exact .inr ⟨_, .compiled⟩
  | failed output => exact .inr ⟨_, .failed⟩
  | released => exact .inl rfl

/-! ### One call -/

/-- A variation keeps its name over everything that is done to it. -/
theorem Variation.SameBut.name_eq {v' : Variation} (h : v.SameBut v') : v'.name = v.name := by
  unfold SameBut at h
  rw [h]

/-- Behind a sound guard the state can be seen. -/
theorem get?_of_sound (h : v.state.poisoned = false) : v.state.get? = some v.state.value := by
  simp [Guarded.get?, h]

/-- A state that can be seen is behind a sound guard. -/
theorem sound_of_get? (h : v.state.get? = some state) : v.state.poisoned = false := by
  cases hp : v.state.poisoned with
  | false => rfl
  | true => simp [Guarded.get?, hp] at h

/-- Looking at a variation whose guard is sound shows its state and does nothing else. -/
theorem run_observe (h : v.state.get? = some state) :
    Variation.observe.run services v j = ⟨.done state, v, j⟩ := by
  have hseen : Variation.observe.Ensures services
      (fun ending t k => (⟨ending, t, k⟩ : Outcome Variation CompileState) = ⟨.done state, v, j⟩) v j := by
    unfold Variation.observe
    rw [ensures_bind, ensures_get, after_done, h]
    rfl
  exact hseen

/-- Behind a poisoned guard a variation is reported as released, and the logger is told. -/
theorem run_observe_poisoned (hp : v.state.poisoned = true) (hsteady : services.logger.Steady) :
    (Variation.observe.run services v j).ending = .done .released := by
  have hget : v.state.get? = none := by simp [Guarded.get?, hp]
  have hseen : Variation.observe.Ensures services (fun ending _ _ => ending = .done .released) v j := by
    unfold Variation.observe
    rw [ensures_bind, ensures_get, after_done, hget, ensures_bind]
    exact ensures_say_of (fun _ _ => rfl) fun hunsteady => (hunsteady hsteady).elim
  exact hseen

/-- Asking the compiler: one request is noted.  Unless that is cut short, the answer is kept. -/
theorem ensures_compileWith_settled {request : CompileRequest} :
    (v.compileWith request).Ensures services (fun ending state' j' =>
      j'.compilations = ⟨request, j.replyTo (services.backend.compile request)⟩ :: j.compilations ∧
      (ending.isUnwound = false → Settled v.name state' ending ∧
        ending = answerTo v.name j.nextProgram (services.backend.compile request)) ∧
      (services.Answering → ending.isUnwound = false)) state j := by
  unfold Variation.compileWith Action.submit
  simp only [ensures_bind, ensures_journal, after_done, ensures_read, ensures_note]
  cases hv : services.backend.compile request with
  | accepted =>
    simp only [Journal.replyTo, ensures_pure, after_done]
    rw [ensures_bind]
    refine ensures_say_of (fun j' hj => ?_) fun hunsteady reason j' hj => ?_
    · rw [after_done, ensures_bind, ensures_set, after_done, ensures_pure]
      exact ⟨hj, fun _ => ⟨.compiled, rfl⟩, fun _ => rfl⟩
    · exact ⟨hj, fun h => (by cases h), fun h => (hunsteady h.steady).elim⟩
  | rejected error =>
    simp only [Journal.replyTo, ensures_pure, after_done]
    rw [ensures_bind, ensures_set, after_done]
    refine ensures_report_of (fun j' hj => ?_) fun hunsteady reason j' hj => ?_
    · refine ⟨hj, fun _ => ⟨.failed, ?_⟩, fun _ => rfl⟩
      cases error <;> rfl
    · exact ⟨hj, fun h => (by cases h), fun h => (hunsteady h.steady).elim⟩
  | broken reason => exact ⟨rfl, fun h => (by cases h), fun h => (h.answers request reason hv).elim⟩

/-- As long as the outcome is known, a compile call gives it and does nothing. -/
theorem outcome_of_settled (hstate : piece.variation.state.get? = some state)
    (h : Settled piece.variation.name state ending) (call : CompileCall) :
    call.outcome piece = ⟨ending, piece.variation, piece.journal⟩ := by
  have hrun : (Variation.compile call.text call.dialect).Ensures call.services
      (fun ending' t k => (⟨ending', t, k⟩ : Outcome Variation Nat) =
        ⟨ending, piece.variation, piece.journal⟩) piece.variation piece.journal := by
    unfold Variation.compile
    rw [ensures_bind, ensures_get, after_done, hstate]
    cases h <;> rfl
  exact hrun

/-- If the outcome is not known, a compile call asks the compiler. -/
theorem outcome_of_open (hstate : piece.variation.state.get? = some state) (hopen : state.needsCompile = true)
    (call : CompileCall) : call.Asked piece (call.outcome piece).ending (call.outcome piece).state
      (call.outcome piece).journal := by
  have hsound := sound_of_get? hstate
  have hasked : (Variation.holdState (piece.variation.compileWith (call.request piece))).Ensures
      call.services (call.Asked piece) piece.variation piece.journal := by
    rw [Variation.holdState, ensures_focus, Guarded.hold, ensures_onUnwind, ensures_focus]
    refine ensures_compileWith_settled.mono ?_
    rintro ending state' j' ⟨hj, hsettled, hcalm⟩
    refine ⟨hj, rfl, fun hu => ?_, fun hu => (hsettled hu).2, fun hu => ?_, hcalm⟩
    · rw [if_pos hu]
      rfl
    · refine ⟨state', ?_, (hsettled hu).1⟩
      simp [hu, Guarded.get?, Guarded.put, hsound]
  have hrun : (Variation.compile call.text call.dialect).Ensures call.services (call.Asked piece)
      piece.variation piece.journal := by
    unfold Variation.compile
    rw [ensures_bind, ensures_get, after_done, hstate]
    cases state with
    | pending => exact hasked
    | released => exact hasked
    | compiled number => cases hopen
    | failed output => cases hopen
  exact hrun

/-- Behind a poisoned guard a compile call asks nobody and changes nothing. -/
theorem outcome_of_poisoned (hp : piece.variation.state.poisoned = true) (call : CompileCall) :
    (call.outcome piece).state = piece.variation ∧
      (call.outcome piece).journal.compilations = piece.journal.compilations ∧
      (call.services.logger.Steady → (call.outcome piece).ending =
        .failed (.invalidResource s!"ShaderVariation '{piece.variation.name}' lock poisoned")) := by
  have hget : piece.variation.state.get? = none := by simp [Guarded.get?, hp]
  have hrun : (Variation.compile call.text call.dialect).Ensures call.services (fun ending t k =>
      t = piece.variation ∧ k.compilations = piece.journal.compilations ∧ (call.services.logger.Steady →
        ending = .failed (.invalidResource s!"ShaderVariation '{piece.variation.name}' lock poisoned")))
      piece.variation piece.journal := by
    unfold Variation.compile
    rw [ensures_bind, ensures_get, after_done, hget]
    exact ensures_report_of (fun _ hj => ⟨rfl, hj, fun _ => rfl⟩)
      fun hunsteady _ _ hj => ⟨rfl, hj, fun hsteady => (hunsteady hsteady).elim⟩
  exact hrun

/-! ### Runs -/

/-- A release does not mend a guard. -/
theorem poisoned_release : v.release.state.poisoned = v.state.poisoned := by
  unfold Variation.release
  split <;> rfl

/-- **The step.**  A guard is poisoned by a call that is cut short, and by nothing else, and it stays poisoned. -/
theorem poisoned_next (call : VariationCall) (piece : Workpiece) : (call.next piece).variation.state.poisoned =
    (piece.variation.state.poisoned || call.cut piece) := by
  cases call with
  | release => rw [VariationCall.next, poisoned_release, VariationCall.cut, Bool.or_false]
  | compile call =>
    rw [VariationCall.next, VariationCall.cut]
    cases hp : piece.variation.state.poisoned with
    | true => rw [(outcome_of_poisoned hp call).1, hp, Bool.true_or]
    | false =>
      rw [Bool.false_or]
      rcases open_or_settled piece.variation.name piece.variation.state.value with hopen | ⟨ending, hsettled⟩
      · have hasked := outcome_of_open (get?_of_sound hp) hopen call
        cases hu : (call.outcome piece).ending.isUnwound with
        | true => exact hasked.cut hu
        | false =>
          obtain ⟨state', hstate', -⟩ := hasked.settled hu
          exact sound_of_get? hstate'
      · rw [outcome_of_settled (get?_of_sound hp) hsettled call, hsettled.isUnwound_eq, hp]

/-- **The run.** -/
theorem poisoned_after (piece : Workpiece) (calls : List VariationCall) :
    (piece.after calls).variation.state.poisoned = (piece.variation.state.poisoned || piece.cutShort calls) := by
  induction calls generalizing piece with
  | nil => rw [Workpiece.cutShort, Bool.or_false]; rfl
  | cons call calls ih =>
    rw [Workpiece.cutShort, ← Bool.or_assoc, ← poisoned_next]
    exact ih (call.next piece)

/-- Nothing but the compile state changes. -/
theorem sameBut_after (piece : Workpiece) (calls : List VariationCall) :
    piece.variation.SameBut (piece.after calls).variation := by
  induction calls generalizing piece with
  | nil => rfl
  | cons call calls ih =>
    have hnext : piece.variation.SameBut (call.next piece).variation := by
      cases call with
      | release => exact Variation.sameBut_release
      | compile call => exact Variation.ensures_compile_sameBut
    have hafter := ih (call.next piece)
    unfold Variation.SameBut at hnext hafter
    rw [hnext] at hafter
    exact hafter

/-- Calls with collaborators that answer are not cut short. -/
theorem cutShort_eq_false {calls : List VariationCall} (hsound : piece.variation.state.poisoned = false)
    (h : ∀ call : CompileCall, .compile call ∈ calls → call.services.Answering) :
    piece.cutShort calls = false := by
  induction calls generalizing piece with
  | nil => rfl
  | cons call calls ih =>
    have hcall : call.cut piece = false := by
      cases call with
      | release => rfl
      | compile call =>
        rcases open_or_settled piece.variation.name piece.variation.state.value with hopen | ⟨ending, hsettled⟩
        · exact (outcome_of_open (get?_of_sound hsound) hopen call).calm (h call List.mem_cons_self)
        · rw [VariationCall.cut, outcome_of_settled (get?_of_sound hsound) hsettled call]
          exact hsettled.isUnwound_eq
    rw [Workpiece.cutShort, hcall, Bool.false_or]
    refine ih ?_ fun call' hcall' => h call' (List.mem_cons_of_mem _ hcall')
    rw [poisoned_next, hsound, hcall]
    rfl

/-- As long as the outcome is known, all compile calls end with it, and nothing happens. -/
theorem after_of_settled (hstate : piece.variation.state.get? = some state)
    (h : Settled piece.variation.name state ending) (calls : List CompileCall) :
    piece.after (calls.map .compile) = piece ∧ ∀ ending' ∈ piece.endings calls, ending' = ending := by
  induction calls with
  | nil => exact ⟨rfl, fun _ hmem => by cases hmem⟩
  | cons call calls ih =>
    have houtcome := outcome_of_settled hstate h call
    have hnext : (VariationCall.compile call).next piece = piece := by rw [VariationCall.next, houtcome]
    refine ⟨?_, fun ending' hmem => ?_⟩
    · rw [List.map_cons, Workpiece.after, List.foldl_cons, hnext]
      exact ih.1
    · rw [Workpiece.endings, houtcome, hnext, List.mem_cons] at hmem
      rcases hmem with rfl | hmem
      · rfl
      · exact ih.2 ending' hmem

/-- What is known at the beginning, and what is known after a release. -/
theorem get?_of_rested {new : Workpiece} {history : List VariationCall}
    (hnew : new.variation.state = { value := .pending })
    (hsound : (new.after history).variation.state.poisoned = false)
    (hrest : history = [] ∨ history.getLast? = some .release) :
    (new.after history).variation.state.get? = some (if history.isEmpty then .pending else .released) := by
  rcases hrest with rfl | hlast
  · show new.variation.state.get? = _
    rw [hnew]
    rfl
  · obtain ⟨before, rfl⟩ := List.getLast?_eq_some_iff.mp hlast
    have hafter : new.after (before ++ [.release]) = VariationCall.release.next (new.after before) := by
      rw [Workpiece.after, List.foldl_append]
      rfl
    rw [hafter, VariationCall.next, poisoned_release] at hsound
    rw [hafter, VariationCall.next]
    simp [Variation.release, hsound, Guarded.get?, Guarded.put]

/-- **One request between two releases, and one result.**  Take a new variation after any history that is empty or
    ends with a release, and any number of compile calls that come next, each with its own text, dialect and
    compiler, all of which give an answer.  The first of these calls asks its compiler, once, and no other one
    asks.  All of them end as the first one does: with the program that was made, or with an error under the name
    of the variation, which has the output of the compiler or the message of the error that came instead.  And
    that is what the accessors say after these calls, and so after each of them; before the first one they say
    that the compiler is going to be asked. -/
theorem compiled_once (owner : ResourceId) (name : String) (stage : Stage) (defines : String) (j : Journal)
    (history : List VariationCall) (hrest : history = [] ∨ history.getLast? = some .release)
    (calls : List CompileCall)
    (hanswering : ∀ call : CompileCall, .compile call ∈ history ++ calls.map .compile →
      call.services.Answering) :
    let start := (Workpiece.mk { owner, name, stage, defines } j).after history
    let stop := start.after (calls.map .compile)
    let result? := calls.head?.map fun first => answerTo name start.journal.nextProgram (first.verdict start)
    (∀ ending ∈ start.endings calls, ending.isUnwound = false ∧ some ending = result?) ∧
      stop.journal.compilations =
        (calls.head?.map (·.compilation start)).toList ++ start.journal.compilations ∧
      stop.variation = { owner, name, stage, defines, state := stop.variation.state } ∧
      ∃ state, stop.Observed state ∧ Says name state (!history.isEmpty) result? := by
  intro start stop result?
  have hsame : stop.variation = { owner, name, stage, defines, state := stop.variation.state } := by
    have hstop : stop = (Workpiece.mk { owner, name, stage, defines } j).after
        (history ++ calls.map .compile) := by
      simp only [stop, start, Workpiece.after, List.foldl_append]
    rw [hstop]
    exact sameBut_after _ _
  have hname : start.variation.name = name := (sameBut_after _ history).name_eq
  have hsound : start.variation.state.poisoned = false := by
    have hcut : (Workpiece.mk { owner, name, stage, defines } j).cutShort history = false :=
      cutShort_eq_false rfl fun call hcall => hanswering call (List.mem_append_left _ hcall)
    rw [poisoned_after, hcut]
    rfl
  have hstate : start.variation.state.get? =
      some (if history.isEmpty then .pending else .released) := get?_of_rested rfl hsound hrest
  have hopen : CompileState.needsCompile (if history.isEmpty then .pending else .released) = true := by
    split <;> rfl
  cases calls with
  | nil =>
    refine ⟨fun _ hmem => (by cases hmem), rfl, hsame, _, fun services => run_observe hstate, ?_⟩
    cases history.isEmpty <;> constructor <;> simp [result?, CompileState.program?, CompileState.output?,
      CompileState.isCompiled, CompileState.isReleased, CompileState.needsCompile]
  | cons first rest =>
    have hasked := outcome_of_open hstate hopen first
    have hcalm := hasked.calm (hanswering first (by simp))
    obtain ⟨state, hkept, hsettled⟩ := hasked.settled hcalm
    have hanswer : result? = some (first.outcome start).ending := by
      rw [hasked.answered hcalm, CompileCall.answer, hname]
      rfl
    have hnamed : ((VariationCall.compile first).next start).variation.name = start.variation.name :=
      hasked.same.name_eq
    -- The other calls find the outcome that the first one has left.
    have hafter := after_of_settled hkept (hnamed ▸ hsettled) rest
    have hstop : stop = (VariationCall.compile first).next start := hafter.1
    refine ⟨fun ending hmem => ?_, ?_, hsame, state, ?_, ?_⟩
    · have hending : ending = (first.outcome start).ending := by
        rcases List.mem_cons.mp hmem with rfl | hmem
        · rfl
        · exact hafter.2 ending hmem
      rw [hanswer, hending]
      exact ⟨hcalm, rfl⟩
    · rw [hstop]
      exact hasked.noted
    · rw [hstop]
      exact fun services => run_observe hkept
    · rw [hanswer]
      exact (hname ▸ hsettled).answers _

/-- Collaborators of which the compiler always says the same. -/
def Services.saying (verdict : Verdict) : Services where
  backend := { compile := fun _ => verdict }

/-- Such collaborators do not break down unless the compiler does. -/
theorem answering_saying {verdict : Verdict} (h : ∀ reason, verdict ≠ .broken reason) :
    (Services.saying verdict).Answering :=
  ⟨Logger.steady_keeping, fun _ => h⟩

/-- A variation that was compiled and released is rejected for a reason of its own kind.  A compiler that would
    accept it later is not asked, and the message of the first reason is given again. -/
theorem compiled_once_rejected :
    let start := (Workpiece.mk { owner := .standalone, name := "a", stage := .pixel, defines := "X" } {}).after
      [.compile { text := "old", services := .saying .accepted }, .release]
    let calls : List CompileCall := [{ text := "new", services := .saying (.rejected (.fileNotFound "f")) },
      { text := "newer", dialect := .glsl, services := .saying .accepted }]
    let stop := start.after (calls.map .compile)
    (∀ ending ∈ start.endings calls, ending = .failed (.compileFailed "a" "File not found: f")) ∧
      stop.journal.compilations.length = start.journal.compilations.length + 1 ∧
      ∃ state, stop.Observed state ∧ state.output? = some "File not found: f" ∧ state.needsCompile = false := by
  intro start calls stop
  obtain ⟨hendings, hcompilations, -, state, hobserved, htold⟩ := compiled_once .standalone "a" .pixel "X" {}
    [.compile { text := "old", services := .saying .accepted }, .release] (.inr rfl) calls fun call hcall => by
      simp only [calls, List.map_cons, List.map_nil, List.cons_append, List.nil_append, List.mem_cons,
        VariationCall.compile.injEq, reduceCtorEq, List.not_mem_nil, or_false, false_or] at hcall
      rcases hcall with rfl | rfl | rfl <;> exact answering_saying (by simp)
  refine ⟨fun ending hending => Option.some.inj (hendings ending hending).2, ?_, state, hobserved, ?_, ?_⟩
  · exact congrArg List.length hcompilations
  · exact (htold.output _).mpr rfl
  · rw [Bool.eq_false_iff]
    exact fun hneeds => Option.some_ne_none _ (htold.needsCompile.mp hneeds)

/-- **Whether the compiler is asked next.**  Take a new variation after any history of compile calls and
    releases, with compilers that accept, reject and break down.  As long as no call was cut short, the accessor
    that foretells a request is right: the next compile call asks its compiler if and only if it says so.  Once a
    call was cut short, the variation is reported as released for good, as one that will be compiled next, and no
    call asks a compiler any more: it ends with an error and changes nothing. -/
theorem asks_iff_needsCompile (owner : ResourceId) (name : String) (stage : Stage) (defines : String)
    (j : Journal) (history : List VariationCall) (services : Services) (hsteady : services.logger.Steady) :
    let piece := (Workpiece.mk { owner, name, stage, defines } j).after history
    let cut := (Workpiece.mk { owner, name, stage, defines } j).cutShort history
    ∃ state, (Variation.observe.run services piece.variation piece.journal).ending = .done state ∧
      (cut = false → ∀ call : CompileCall, state.needsCompile = true ↔ call.Asks piece) ∧
      (cut = true → state = .released ∧ state.needsCompile = true ∧ ∀ call : CompileCall, ¬ call.Asks piece ∧
        (call.outcome piece).state = piece.variation ∧
        (call.outcome piece).journal.compilations = piece.journal.compilations ∧
        (call.services.logger.Steady → (call.outcome piece).ending =
          .failed (.invalidResource s!"ShaderVariation '{name}' lock poisoned"))) := by
  intro piece cut
  have hname : piece.variation.name = name := (sameBut_after _ history).name_eq
  have hpoisoned : piece.variation.state.poisoned = cut := poisoned_after _ history
  -- One request more is not the same requests.
  have hasks {call : CompileCall} (hsame : (call.outcome piece).journal.compilations =
      piece.journal.compilations) : ¬ call.Asks piece := by
    intro hasks
    rw [CompileCall.Asks, hsame] at hasks
    exact List.cons_ne_self _ _ hasks.symm
  cases hcut : cut with
  | false =>
    rw [hcut] at hpoisoned
    have hstate := get?_of_sound hpoisoned
    refine ⟨_, congrArg Outcome.ending (run_observe hstate), fun _ call => ?_, fun h => by cases h⟩
    rcases open_or_settled piece.variation.name piece.variation.state.value with hopen | ⟨ending, hsettled⟩
    · exact iff_of_true hopen (outcome_of_open hstate hopen call).noted
    · refine iff_of_false (Bool.eq_false_iff.mp hsettled.needsCompile_eq) (hasks ?_)
      rw [outcome_of_settled hstate hsettled call]
  | true =>
    rw [hcut] at hpoisoned
    refine ⟨.released, ?_, fun h => (by cases h), fun _ => ⟨rfl, rfl, fun call => ?_⟩⟩
    · exact run_observe_poisoned hpoisoned hsteady
    · obtain ⟨hstate, hcompilations, hending⟩ := outcome_of_poisoned hpoisoned call
      rw [hname] at hending
      exact ⟨hasks hcompilations, hstate, hcompilations, hending⟩

/-- The compiler breaks down over a variation, which is then released: it is reported as one that is compiled
    next, but a compile call only says that its lock is poisoned. -/
theorem asks_iff_needsCompile_broken :
    let new : Workpiece := ⟨{ owner := .standalone, name := "S", stage := .vertex, defines := "" }, {}⟩
    let history : List VariationCall :=
      [.compile { text := "BOOM", services := .saying (.broken "backend panicked") }, .release]
    new.cutShort history = true ∧ ∃ state,
      (Variation.observe.run {} (new.after history).variation (new.after history).journal).ending = .done state ∧
      state.needsCompile = true ∧ ∀ call : CompileCall, ¬ call.Asks (new.after history) := by
  intro new history
  obtain ⟨state, hobserved, -, hcut⟩ := asks_iff_needsCompile .standalone "S" .vertex "" {} history {}
    Logger.steady_keeping
  have hhistory : new.cutShort history = true := rfl
  obtain ⟨-, hneeds, hcalls⟩ := hcut hhistory
  exact ⟨hhistory, state, hobserved, hneeds, fun call => (hcalls call).1⟩

end ShaderKit
