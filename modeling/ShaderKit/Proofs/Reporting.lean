import ShaderKit.Proofs.AtomicReload
import ShaderKit.Proofs.FileChange

namespace ShaderKit

open ShaderKit.Action

/-!
# Errors are logged once

An error comes up in one place, often deep inside of a load, and passes through everything that called
it.  It is logged where it comes up, and nowhere on its way:

* `Logger.record`   — what a logger makes of an entry
* `Log.errorsOf`, `Ending.Tells` — the errors in a log, and those that an ending stands for
* `Journal.Logs`    — between two journals nothing happened but logging
* `Action.Candid`   — an action logs the error that it ends with, once, and no other
* `Action.PassesOn` — what handles an error rethrows it without logging any
* `Candid.bind`, `Candid.tryCatch` — candid actions may follow each other, and what passes errors on
  may catch theirs
* `candid_resolveFor`, `candid_load`, `candid_loadResource` — loading is candid, at any depth of includes
* `errors_are_logged_once` — so are the calls of every cache that calls lead to
-/

/-! ### What was said -/

/-- The journal after a logger has got an entry. -/
def Logger.record (logger : Logger) (journal : Journal) (entry : Log.Entry) : Journal :=
  match logger with
  | .recorder _ => journal.keep entry
  | .console writer time => journal.print (writer.print time entry)

/-- The messages of the errors among log entries, in order. -/
def Log.errorsOf (entries : List Entry) : List String :=
  (entries.filter (·.severity = .error)).map (·.message)

/-- What is said later comes later among the errors. -/
@[simp] theorem Log.errorsOf_append (entries more : List Entry) :
    errorsOf (entries ++ more) = errorsOf entries ++ errorsOf more := by
  simp [errorsOf]

/-- The errors that an ending stands for: none with a value, and one with an error.  A breakdown may
    come at any time. -/
def Ending.Tells {α : Type} (ending : Ending α) (errors : List String) : Prop :=
  match ending with
  | .done _ => errors = []
  | .failed error => errors = [error.message]
  | .unwound _ => True

/-- Mapping a value tells no error and hides none. -/
theorem Ending.tells_map {α β : Type} {f : α → β} {ending : Ending α} {errors : List String} :
    (ending.map f).Tells errors ↔ ending.Tells errors := by
  cases ending <;> rfl

namespace Journal

variable {logger : Logger} {j j' j'' : Journal} {told told' : List String → Prop}

/-- All that has happened to a journal is that a logger got some entries, and `told` holds of the
    errors among them. -/
def Logs (j : Journal) (logger : Logger) (told : List String → Prop) (j' : Journal) : Prop :=
  ∃ said : List Log.Entry, j' = said.foldl logger.record j ∧ told (Log.errorsOf said)

/-- Nothing was said. -/
theorem logs_refl (h : told []) : j.Logs logger told j := ⟨[], rfl, h⟩

/-- What is known of the errors may be weakened. -/
theorem Logs.mono (h : j.Logs logger told j') (htold : ∀ errors, told errors → told' errors) :
    j.Logs logger told' j' := by
  obtain ⟨said, hj, hsaid⟩ := h
  exact ⟨said, hj, htold _ hsaid⟩

/-- What is said later comes behind what was said before. -/
theorem Logs.trans (h : j.Logs logger told j')
    (h' : ∀ errors, told errors → j'.Logs logger (fun more => told' (errors ++ more)) j'') :
    j.Logs logger told' j'' := by
  obtain ⟨said, hj, hsaid⟩ := h
  obtain ⟨more, hj', hmore⟩ := h' _ hsaid
  refine ⟨said ++ more, ?_, ?_⟩
  · rw [List.foldl_append, ← hj, hj']
  · rwa [Log.errorsOf_append]

/-- What is said without an error adds none. -/
theorem Logs.quiet_trans (h : j.Logs logger (· = []) j') (h' : j'.Logs logger told j'') :
    j.Logs logger told j'' := by
  refine h.trans fun errors herrors => ?_
  rw [herrors]
  exact h'

end Journal

namespace Action

variable {σ τ α β : Type} {services : Services} {s : σ} {j : Journal}

/-! ### Actions that log each error once -/

/-- From a state, the action logs the error that it ends with, once, and no other error. -/
def Candid (services : Services) (act : Action σ α) (s : σ) : Prop :=
  ∀ j, act.Ensures services (fun ending _ j' => j.Logs services.logger ending.Tells j') s j

/-- From a state, the action ends with this error and logs none. -/
def PassesOn (services : Services) (act : Action σ α) (error : Error) (s : σ) : Prop :=
  ∀ j, act.Ensures services (fun ending _ j' => j.Logs services.logger (fun errors =>
    ending = .failed error ∧ errors = [] ∨ ending.isUnwound) j') s j

/-- Speaking hands an entry to the logger, which may break down over it but reports no error. -/
theorem ensures_log_recorded {entry : Log.Entry} {post : Ending Unit → σ → Journal → Prop}
    (h : ∀ ending, (∀ error, ending ≠ .failed error) →
      post ending s (services.logger.record j entry)) :
    (log entry).Ensures services post s j := by
  unfold log
  unfold Logger.record at h
  rcases hl : services.logger with trips | ⟨console, time⟩
  · cases ht : trips entry with
    | none => simpa [hl, ht] using h (.done ()) (by simp)
    | some reason => simpa [hl, ht] using h (.unwound reason) (by simp)
  · simpa [hl] using h (.done ()) (by simp)

/-- A value logs no error. -/
theorem candid_pure (a : α) : (pure a : Action σ α).Candid services s :=
  fun _ => Journal.logs_refl rfl

/-- A breakdown owes no entry: the logger itself may be what broke down. -/
theorem candid_unwind (reason : String) : (unwind reason : Action σ α).Candid services s :=
  fun _ => Journal.logs_refl trivial

/-- A pure change logs no error. -/
theorem candid_modify (f : σ → σ) : (modify f : Action σ PUnit).Candid services s :=
  fun _ => Journal.logs_refl rfl

/-- Setting the state logs no error. -/
theorem candid_set (t : σ) : (set t : Action σ PUnit).Candid services s :=
  fun _ => Journal.logs_refl rfl

/-- Whatever is said that is no error leaves no error behind, unless the logger breaks down. -/
theorem ensures_say_quietly {severity : Log.Severity} (h : severity ≠ .error)
    (source message : String) :
    (say severity source message).Ensures services (fun ending t j' => t = s ∧
      (∀ error, ending ≠ .failed error) ∧ j.Logs services.logger (· = []) j') s j := by
  refine ensures_log_recorded fun ending hending => ⟨rfl, hending, ?_⟩
  exact ⟨[{ severity, source, message }], rfl, by simp [Log.errorsOf, h]⟩

/-- What is said below the severity of an error is none. -/
theorem candid_say {severity : Log.Severity} (h : severity ≠ .error) (source message : String) :
    (say severity source message : Action σ Unit).Candid services s := by
  refine fun j => (ensures_say_quietly h source message).mono fun ending _ _ hsaid => ?_
  obtain ⟨-, hending, hlogs⟩ := hsaid
  refine hlogs.mono fun errors herrors => ?_
  cases ending with
  | done _ => exact herrors
  | failed error => exact absurd rfl (hending error)
  | unwound _ => trivial

/-- A reported error is logged. -/
theorem candid_report (source : String) (error : Error) :
    (report source error : Action σ α).Candid services s := by
  intro j
  rw [report, ensures_bind]
  refine ensures_log_recorded fun ending hending => ?_
  have hsaid : j.Logs services.logger (· = [error.message]) (services.logger.record j
      { severity := .error, source, message := error.message, origin := .library }) :=
    ⟨[_], rfl, by simp [Log.errorsOf]⟩
  cases ending with
  | done _ => exact hsaid
  | failed error => exact absurd rfl (hending error)
  | unwound _ => exact hsaid.mono fun _ _ => trivial

/-- What would come after a reported error does not happen. -/
theorem candid_report_bind (source : String) (error : Error) (next : α → Action σ β) :
    (report source error >>= next).Candid services s := by
  rw [report_bind]
  exact candid_report source error

/-- One action after another, from the states in which the first may leave it. -/
theorem Candid.bind_of {act : Action σ α} {next : α → Action σ β} {R : α → σ → Prop}
    (h : act.Candid services s)
    (hreached : ∀ j, act.Ensures services (fun ending t _ => ∀ a, ending = .done a → R a t) s j)
    (hnext : ∀ a t, R a t → (next a).Candid services t) :
    (act >>= next).Candid services s := by
  intro j
  rw [ensures_bind]
  refine ((h j).and (hreached j)).mono ?_
  rintro (a | error | reason) t j' ⟨hlogs, ht⟩
  · exact (hnext a t (ht a rfl) j').mono fun _ _ _ hmore => hlogs.quiet_trans hmore
  · exact hlogs
  · exact hlogs

/-- **Candid actions may follow each other.** -/
theorem Candid.bind {act : Action σ α} {next : α → Action σ β} (h : act.Candid services s)
    (hnext : ∀ a t, (next a).Candid services t) : (act >>= next).Candid services s :=
  h.bind_of (R := fun _ _ => True) (fun _ _ _ => trivial) fun a t _ => hnext a t

/-- A change before a candid action does not matter. -/
theorem candid_modify_bind {f : σ → σ} {next : PUnit → Action σ β}
    (h : (next ()).Candid services (f s)) : (modify f >>= next : Action σ β).Candid services s := h

/-- The state just read may be used to choose a candid action. -/
theorem candid_get {next : σ → Action σ β} (h : (next s).Candid services s) :
    ((get : Action σ σ) >>= next).Candid services s := h

/-- So may the collaborators. -/
theorem candid_read {next : Services → Action σ β} (h : (next services).Candid services s) :
    ((read : Action σ Services) >>= next).Candid services s := h

/-- What an action logs does not depend on the use made of its result. -/
theorem Candid.discard {act : Action σ α} (h : act.Candid services s) :
    (discard act : Action σ PUnit).Candid services s := by
  intro j
  rw [ensures_discard]
  exact (h j).mono fun ending _ _ hlogs => hlogs.mono fun _ => Ending.tells_map.mpr

/-- An action on a part of the state is candid where it is so on that part. -/
theorem Candid.focus {act : Action τ α} {part : σ → τ} (h : act.Candid services (part s))
    (replace : σ → τ → σ) : (focus part replace act).Candid services s :=
  fun j => h j

/-- So is one on a part that is there. -/
theorem Candid.focus? {act : Action τ α} {part : σ → Option τ} {t : τ} (hpart : part s = some t)
    (h : act.Candid services t) (replace : σ → τ → σ) :
    (focus? part replace act).Candid services s := by
  intro j
  refine (ensures_focus?_some hpart).mpr ((h j).mono fun ending _ _ hlogs => ?_)
  exact hlogs.mono fun _ => Ending.tells_map.mpr

/-- A loop of candid steps is candid. -/
theorem candid_forM {γ : Type} {f : γ → Action σ PUnit} (h : ∀ c s, (f c).Candid services s)
    (cs : List γ) : (cs.forM f).Candid services s := by
  induction cs generalizing s with
  | nil => exact candid_pure ()
  | cons c cs ih => exact (h c s).bind fun _ _ => ih

/-- An error that was logged when it came up is passed on. -/
theorem Candid.tryCatch {act : Action σ α} {handler : Error → Action σ α}
    (h : act.Candid services s) (hhandler : ∀ error t, (handler error).PassesOn services error t) :
    (tryCatch act handler).Candid services s := by
  intro j
  rw [ensures_tryCatch]
  refine (h j).mono ?_
  rintro (a | error | reason) t j' hlogs
  · exact hlogs
  · rw [caught_failed]
    refine (hhandler error t j').mono fun ending _ j'' hmore => ?_
    refine hlogs.trans fun errors herrors => hmore.mono fun more hpassed => ?_
    rcases hpassed with ⟨rfl, rfl⟩ | hunwound
    · rw [List.append_nil]
      exact herrors
    · cases ending with
      | unwound _ => trivial
      | _ => cases hunwound
  · exact hlogs

/-- To raise an error again logs nothing. -/
theorem passesOn_throw (error : Error) : (throw error : Action σ α).PassesOn services error s :=
  fun _ => ensures_throw.mpr (Journal.logs_refl (.inl ⟨rfl, rfl⟩))

/-- A change on the way does not matter. -/
theorem PassesOn.after_modify {act : Action σ α} {error : Error} {f : σ → σ}
    (h : act.PassesOn services error (f s)) :
    (modify f >>= fun _ => act).PassesOn services error s :=
  fun j => h j

/-- Neither does an entry below the severity of an error. -/
theorem PassesOn.after_say {act : Action σ α} {error : Error} {severity : Log.Severity}
    (hseverity : severity ≠ .error) (source message : String) (h : act.PassesOn services error s) :
    (say severity source message >>= fun _ => act).PassesOn services error s := by
  intro j
  rw [ensures_bind]
  refine (ensures_say_quietly hseverity source message).mono ?_
  rintro (_ | failure | reason) t j' ⟨rfl, hending, hlogs⟩
  · exact (h j').mono fun _ _ _ hmore => hlogs.quiet_trans hmore
  · exact absurd rfl (hending failure)
  · rw [after_unwound]
    exact hlogs.mono fun _ _ => .inr rfl

end Action

variable {services : Services} {shader : Shader} {books : Books} {file : SourceFile} {j : Journal}

/-! ### Loading -/

/-- Expanding a file logs its error once, however deep in the includes it comes up. -/
theorem Include.candid_resolveFor (owner : ResourceId) (ownerName : String) (limit : Nat)
    (file : SourceFile) (deps : DependencyMap) :
    (resolveFor owner ownerName limit file).Candid services deps := by
  refine candid_read (Candid.bind (candid_forM (fun step _ => ?_) _) fun _ _ => ?_)
  · cases step with
    | entered name =>
      rw [perform]
      split
      · exact candid_pure ()
      · exact candid_modify _
    | followed includer name => exact candid_say (by decide) _ _
  · split
    · exact candid_pure _
    · exact candid_report _ _

namespace Shader

/-- Asking for a graphics device logs the error when there is none. -/
theorem candid_requireGraphics (desk : Desk Shader) : requireGraphics.Candid services desk := by
  refine candid_get ?_
  split
  · refine candid_read ?_
    cases services.backend.availability with
    | available => exact candid_pure ()
    | unavailable => exact candid_report _ _
    | broken reason => exact candid_unwind reason
  · exact candid_report _ _

/-- **Loading a shader is candid.** -/
theorem candid_load (file : SourceFile) (desk : Desk Shader) :
    (load file).Candid services desk := by
  refine candid_get ((candid_requireGraphics desk).bind fun _ t => ?_)
  dsimp only
  -- A missing subsystem is reported in place of all that would come after.
  split
  rotate_left
  · exact candid_report_bind _ _ _
  split
  rotate_left
  · exact candid_report_bind _ _ _
  refine ((Include.candid_resolveFor _ _ _ _ _).focus _).bind fun code t => ?_
  refine ((candid_modify _).focus _).bind fun _ t => (candid_modify _).bind fun _ t => candid_get ?_
  exact candid_say (by decide) _ _

end Shader

/-- Holding a lock on the way changes nothing said. -/
theorem Candid.hold {ρ α : Type} {act : Action (Desk ρ) α} {item : ρ}
    (h : act.Candid services { item, books }) :
    (Desk.hold act).Candid services { item := { value := item }, books } :=
  fun j => ensures_hold.mpr (h j)

/-- Work on the shader inside of a resource is candid where the work on the shader is. -/
theorem Candid.onShader {α : Type} {act : Action (Desk Shader) α}
    (h : act.Candid services { item := shader, books }) :
    (Resource.onShader act).Candid services { item := .shader shader, books } := by
  rw [Resource.onShader]
  exact Candid.focus? (by rfl) h _

namespace Cache

variable {cache : Cache} {id : ResourceId}

/-- **Loading what is in the cache is candid**, for a shader in any state of its lock. -/
theorem candid_loadResource {resource : Guarded Resource}
    (hr : cache.resource? id = some resource) (hs : resource.value = .shader shader)
    (file : SourceFile) : (loadResource id file).Candid services cache := by
  obtain ⟨value, poisoned⟩ := resource
  cases hs
  have hguarded : (loadGuarded id file).Candid services cache := by
    refine Candid.discard (Candid.focus? (by rw [hr]; rfl) (candid_get ?_) _)
    cases poisoned with
    | true =>
      rw [if_pos rfl]
      exact candid_report_bind _ _ _
    | false =>
      rw [if_neg (by simp)]
      exact Candid.hold (candid_get (Candid.discard (Candid.onShader (Shader.candid_load file _))))
  exact fun j => (ensures_loadResource_iff (releases_of_shader hr file)).mpr (hguarded j)

/-- A reload logs the error that it ends with, once. -/
theorem WellMade.candid_reload (h : cache.WellMade) (id : ResourceId) :
    (reload id).Candid services cache := by
  have hget : cache.table.get? = some cache.table.value := by simp [Guarded.get?, h.sound]
  refine candid_get ?_
  simp only [hget]
  split
  rotate_left
  · exact candid_report _ _
  rename_i entry he
  refine candid_read ?_
  split
  rotate_left
  · exact candid_report_bind _ _ _
  rename_i file _
  rw [pure_bind]
  -- An error of the load was logged when it came up, so it is rethrown without a word.
  refine candid_modify_bind (Candid.bind (Candid.tryCatch ?_ fun error t => ?_) fun _ t => ?_)
  · obtain ⟨shader, hshader, -⟩ := h.ownShader id entry he
    have hr : (cache.replaceDependencies id []).resource? id = some entry.resource :=
      resource?_of_entry he
    exact candid_loadResource hr hshader file
  · exact (passesOn_throw error).after_modify
  · exact candid_say (by decide) _ _

/-- A factory that fails, or that is not there, has its error logged once. -/
theorem candid_make (key : ResourceKey) (cache : Cache) : (make key).Candid services cache := by
  refine candid_get ?_
  split
  rotate_left
  · exact candid_report _ _
  dsimp only
  split
  · exact candid_report_bind _ _ _
  · split
    · exact (candid_set _).bind fun _ t => candid_pure _
    · exact (candid_set _).bind fun _ t => candid_unwind _

/-- **A first load is candid**: what discards the unfinished resource rethrows its error and logs none. -/
theorem WellMade.candid_create (h : cache.WellMade) (key : ResourceKey) :
    (create key).Candid services cache := by
  refine candid_get ?_
  dsimp only
  split
  rotate_left
  · exact candid_report_bind _ _ _
  refine candid_read ?_
  split
  rotate_left
  · exact candid_report_bind _ _ _
  rename_i file _
  rw [pure_bind]
  -- A new shader is in the table when it is loaded.
  refine (candid_make key cache).bind_of
    (R := fun id t => id = cache.ids.next ∧ t = cache.joined key)
    (fun j => (ensures_make h key).mono fun ending t _ hmade => ?_) ?_
  · rintro id rfl
    exact hmade
  rintro _ _ ⟨rfl, rfl⟩
  refine Candid.bind (Candid.tryCatch ?_ fun error t => ?_) fun _ t => ?_
  · exact candid_loadResource (resource?_of_entry table_joined_self) rfl file
  · -- The discarding of the shader is worth a warning only.
    rw [discardFailed, bind_assoc]
    exact (passesOn_throw error).after_modify.after_say (by decide) _ _
  · exact candid_modify_bind ((candid_say (by decide) _ _).bind fun _ t => candid_pure _)

/-- A request logs the error that it ends with, once. -/
theorem WellMade.candid_request (h : cache.WellMade) (key : ResourceKey) :
    (request key).Candid services cache := by
  refine candid_get ?_
  split
  · exact candid_pure _
  · exact h.candid_create key

/-! ### Reloading what a file concerns -/

/-- The messages of the errors among the outcomes of reloads, in order. -/
def errorsOf (outcomes : List (ResourceId × Except Error Unit)) : List String :=
  outcomes.filterMap fun outcome => match outcome.2 with
    | .ok _ => none
    | .error error => some error.message

/-- The errors that reloads of some resources note: those of the outcomes.  A breakdown may come at
    any time. -/
def Notes (ending : Ending (List (ResourceId × Except Error Unit))) (errors : List String) : Prop :=
  ∀ outcomes, ending = .done outcomes → errors = errorsOf outcomes

/-- The errors of single reloads come one behind the other. -/
theorem WellMade.reloadEach_logs (h : cache.WellMade) (ids : List ResourceId) (j : Journal) :
    (reloadEach ids).Ensures services
      (fun ending _ j' => j.Logs services.logger (Notes ending) j') cache j := by
  induction ids generalizing cache j with
  | nil =>
    refine Journal.logs_refl fun outcomes houtcomes => ?_
    cases houtcomes
    rfl
  | cons id ids ih =>
    rw [ensures_reloadEach_cons]
    refine ((h.candid_reload id j).and (ensures_reload h)).mono ?_
    rintro (_ | error | reason) mid j₁ ⟨hlogs, hfirst⟩
    · refine (ih (hfirst.wellMade h) j₁).mono fun ending _ _ hrest => ?_
      refine hlogs.quiet_trans (hrest.mono fun more hmore outcomes houtcomes => ?_)
      obtain ⟨rest, hdone, rfl⟩ := Ending.map_eq_done.mp houtcomes
      exact hmore rest hdone
    · refine (ih (hfirst.wellMade h) j₁).mono fun ending _ _ hrest => ?_
      -- The error of the failed reload comes in front of the others.
      refine hlogs.trans fun errors herrors => hrest.mono fun more hmore outcomes houtcomes => ?_
      obtain ⟨rest, hdone, rfl⟩ := Ending.map_eq_done.mp houtcomes
      rw [show errors = [error.message] from herrors, hmore rest hdone]
      rfl
    · exact hlogs.mono fun _ _ _ h => by cases h

/-- **A changed file** logs one error for each reload that failed, in the order in which they are
    reported. -/
theorem WellMade.fileChanged_logs (h : cache.WellMade) (file : String) (j : Journal) :
    (fileChanged file).Ensures services
      (fun ending _ j' => j.Logs services.logger (Notes ending) j') cache j := by
  unfold fileChanged
  rw [ensures_bind, ensures_get, after_done]
  dsimp only
  split
  · exact h.reloadEach_logs _ j
  · rw [ensures_bind]
    refine (ensures_say_quietly (by decide) _ _).mono ?_
    rintro (_ | error | reason) t j' ⟨rfl, hending, hlogs⟩
    · exact (h.reloadEach_logs _ j').mono fun _ _ _ hrest => hlogs.quiet_trans hrest
    · exact absurd rfl (hending error)
    · rw [after_unwound]
      exact hlogs.mono fun _ _ _ h => by cases h

/-- **Errors are logged once.**  Whatever a cache of shaders was asked for before, and however that
    ended: all that a request or a reload does to the journal is that the logger gets some entries.  If
    the call ends with an error, exactly one of them is an error, with the message of that error; if it
    ends with a value, none is.  So a change of a file logs the errors of the reloads that it reports as
    failed, in their order. -/
theorem errors_are_logged_once {config : Config} {graphics : Bool}
    {fingerprint : String → Fingerprint}
    (h : Reached (fun _ _ => True) (ofShaders config graphics fingerprint) cache)
    (services : Services) (j : Journal) :
    (∀ key, let out := (request key).run services cache j
      ∃ said, out.journal = said.foldl services.logger.record j ∧
        out.ending.Tells (Log.errorsOf said)) ∧
    (∀ id, let out := (reload id).run services cache j
      ∃ said, out.journal = said.foldl services.logger.record j ∧
        out.ending.Tells (Log.errorsOf said)) ∧
    ∀ file, let out := (fileChanged file).run services cache j
      ∃ said, out.journal = said.foldl services.logger.record j ∧
        ∀ outcomes, out.ending = .done outcomes → Log.errorsOf said = errorsOf outcomes := by
  have hwell := h.wellMade (wellMade_ofShaders config graphics fingerprint)
  exact ⟨fun key => hwell.candid_request key j, fun id => hwell.candid_reload id j,
    fun file => hwell.fileChanged_logs file j⟩

/-- The file that is included two levels down is gone.  What its change leads to is one reload that
    fails, and one error in the log. -/
theorem errors_are_logged_once_nested :
    let out := (fileChanged "c").run { files := (nestedFiles.erase "c").read } nestedCache {}
    out.ending = .done [(.slot 1 1, .error (.includeNotFound "c" "b"))] ∧
      ∃ said, out.journal = said.foldl Logger.keeping.record {} ∧
        Log.errorsOf said = [(Error.includeNotFound "c" "b").message] := by
  have hreached : Reached (fun _ _ => True) (ofShaders {} true fun _ => {}) nestedCache :=
    .call (.call .start _ trivial) _ trivial
  have hending : ((fileChanged "c").run { files := (nestedFiles.erase "c").read } nestedCache
      {}).ending = .done [(.slot 1 1, .error (.includeNotFound "c" "b"))] := by decide +kernel
  obtain ⟨-, -, h⟩ := errors_are_logged_once hreached { files := (nestedFiles.erase "c").read } {}
  obtain ⟨said, hjournal, hsaid⟩ := h "c"
  exact ⟨hending, said, hjournal, hsaid _ hending⟩

end Cache

end ShaderKit
