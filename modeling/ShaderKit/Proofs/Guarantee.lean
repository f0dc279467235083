import ShaderKit.Guarded

namespace ShaderKit

/-!
# What actions guarantee

An action may end with a value, with an error or because a collaborator broke down, and whatever it
did to the state until then stays.  So a guarantee speaks of all three endings at once:

* `Action.Ensures`   — from one state, the action ends as a postcondition says
* `ensures_*`        — what the building blocks of actions guarantee, as rewriting rules
* `ensures_bind`     — one action after another: what the first guarantees is what the next one needs
* `ensures_log`      — speaking changes no state and asks no compiler, but the logger may break down
* `Logger.Steady`    — it does not
* `Action.Keeps`     — whatever the action does, the state after it is related to the state before
* `Action.Unbroken`  — with these collaborators the action is never cut short
-/

/-- The same ending with another value. -/
def Ending.map {α β : Type} (f : α → β) : Ending α → Ending β
  | .done a => .done (f a)
  | .failed error => .failed error
  | .unwound reason => .unwound reason

/-- An ending whose value was mapped is a value only where the ending itself was one. -/
theorem Ending.map_eq_done {α β : Type} {f : α → β} {ending : Ending α} {b : β} :
    ending.map f = .done b ↔ ∃ a, ending = .done a ∧ f a = b := by
  cases ending <;> simp [map]

/-- Mapping the value of an ending hides no breakdown and makes none up. -/
@[simp] theorem Ending.isUnwound_map {α β : Type} (f : α → β) (ending : Ending α) :
    (ending.map f).isUnwound = ending.isUnwound := by
  cases ending <;> rfl

/-- The logger never breaks down. -/
def Logger.Steady (logger : Logger) : Prop :=
  ∀ trips, logger = .recorder trips → ∀ entry, trips entry = none

/-- The logger that only keeps what it is told never breaks down. -/
theorem Logger.steady_keeping : Logger.keeping.Steady := by
  rintro _ ⟨rfl⟩ entry
  rfl

namespace Action

variable {σ τ α β : Type} {services : Services} {s : σ} {j : Journal}

/-- Run from a state and a journal, the action ends as `post` says. -/
def Ensures (act : Action σ α) (services : Services) (post : Ending α → σ → Journal → Prop)
    (s : σ) (j : Journal) : Prop :=
  post (act.run services s j).ending (act.run services s j).state (act.run services s j).journal

/-- What comes after a first action: the next one on a value, and nothing after an error or a
    breakdown. -/
def After (next : α → Action σ β) (services : Services) (post : Ending β → σ → Journal → Prop) :
    Ending α → σ → Journal → Prop
  | .done a => (next a).Ensures services post
  | .failed error => post (.failed error)
  | .unwound reason => post (.unwound reason)

instance : LawfulMonad (Action σ) := LawfulMonad.mk' _
  (fun act => by
    funext services s j
    show (bind act pure : Action σ _) services s j = _
    simp only [bind, pure]
    split <;> rename_i h <;> simp [← h])
  (fun _ _ => rfl)
  (fun act f g => by
    funext services s j
    simp only [bind]
    cases (act services s j).ending <;> rfl)

/-- A guarantee may be weakened. -/
theorem Ensures.mono {act : Action σ α} {post post' : Ending α → σ → Journal → Prop}
    (h : act.Ensures services post s j) (hp : ∀ ending t j', post ending t j' → post' ending t j') :
    act.Ensures services post' s j :=
  hp _ _ _ h

/-- Two guarantees of one action hold together. -/
theorem Ensures.and {act : Action σ α} {post post' : Ending α → σ → Journal → Prop}
    (h : act.Ensures services post s j) (h' : act.Ensures services post' s j) :
    act.Ensures services (fun ending t j' => post ending t j' ∧ post' ending t j') s j :=
  ⟨h, h'⟩

/-- Actions that guarantee the same are the same. -/
theorem ext_ensures {act act' : Action σ α}
    (h : ∀ services post s j, act'.Ensures services post s j → act.Ensures services post s j) :
    act = act' := by
  funext services s j
  have he := h services (fun ending t j' => ⟨ending, t, j'⟩ = act' services s j) s j rfl
  exact he

/-- What comes after an action whose errors are caught: the handler on an error. -/
def Caught (handler : Error → Action σ α) (services : Services)
    (post : Ending α → σ → Journal → Prop) : Ending α → σ → Journal → Prop
  | .done a => post (.done a)
  | .failed error => (handler error).Ensures services post
  | .unwound reason => post (.unwound reason)

/-! ### Building blocks -/

/-- A plain value leaves everything as it is. -/
@[simp] theorem ensures_pure {a : α} {post : Ending α → σ → Journal → Prop} :
    (pure a : Action σ α).Ensures services post s j ↔ post (.done a) s j := Iff.rfl

/-- An error leaves everything as it is. -/
@[simp] theorem ensures_throw {error : Error} {post : Ending α → σ → Journal → Prop} :
    (throw error : Action σ α).Ensures services post s j ↔ post (.failed error) s j := Iff.rfl

/-- A breakdown by itself leaves everything as it is too: whatever was done before it stays. -/
@[simp] theorem ensures_unwind {reason : String} {post : Ending α → σ → Journal → Prop} :
    (unwind reason : Action σ α).Ensures services post s j ↔ post (.unwound reason) s j := Iff.rfl

/-- Reading the state changes nothing and hands it out. -/
@[simp] theorem ensures_get {post : Ending σ → σ → Journal → Prop} :
    (get : Action σ σ).Ensures services post s j ↔ post (.done s) s j := Iff.rfl

/-- Setting the state replaces it and nothing else. -/
@[simp] theorem ensures_set {t : σ} {post : Ending PUnit → σ → Journal → Prop} :
    (set t : Action σ PUnit).Ensures services post s j ↔ post (.done ()) t j := Iff.rfl

/-- A pure change of the state always ends with a value. -/
@[simp] theorem ensures_modify {f : σ → σ} {post : Ending PUnit → σ → Journal → Prop} :
    (modify f : Action σ PUnit).Ensures services post s j ↔ post (.done ()) (f s) j := Iff.rfl

/-- Reading the collaborators changes nothing. -/
@[simp] theorem ensures_read {post : Ending Services → σ → Journal → Prop} :
    (read : Action σ Services).Ensures services post s j ↔ post (.done services) s j := Iff.rfl

/-- Reading the journal changes nothing. -/
@[simp] theorem ensures_journal {post : Ending Journal → σ → Journal → Prop} :
    (journal : Action σ Journal).Ensures services post s j ↔ post (.done j) s j := Iff.rfl

/-- Noting something down changes the journal only. -/
@[simp] theorem ensures_note {f : Journal → Journal} {post : Ending Unit → σ → Journal → Prop} :
    (note f : Action σ Unit).Ensures services post s j ↔ post (.done ()) s (f j) := Iff.rfl

/-- After a value comes the next action. -/
@[simp] theorem after_done {next : α → Action σ β} {post : Ending β → σ → Journal → Prop} {a : α} :
    After next services post (.done a) s j ↔ (next a).Ensures services post s j := Iff.rfl

/-- After an error nothing else runs. -/
@[simp] theorem after_failed {next : α → Action σ β} {post : Ending β → σ → Journal → Prop}
    {error : Error} :
    After next services post (.failed error) s j ↔ post (.failed error) s j := Iff.rfl

/-- After a breakdown nothing else runs. -/
@[simp] theorem after_unwound {next : α → Action σ β} {post : Ending β → σ → Journal → Prop}
    {reason : String} :
    After next services post (.unwound reason) s j ↔ post (.unwound reason) s j := Iff.rfl

/-- A value needs no handler. -/
@[simp] theorem caught_done {handler : Error → Action σ α} {post : Ending α → σ → Journal → Prop}
    {a : α} : Caught handler services post (.done a) s j ↔ post (.done a) s j := Iff.rfl

/-- An error goes to the handler, from the state it was raised in. -/
@[simp] theorem caught_failed {handler : Error → Action σ α} {post : Ending α → σ → Journal → Prop}
    {error : Error} :
    Caught handler services post (.failed error) s j ↔
      (handler error).Ensures services post s j := Iff.rfl

/-- **One action after another.** -/
@[simp] theorem ensures_bind {act : Action σ α} {next : α → Action σ β}
    {post : Ending β → σ → Journal → Prop} :
    (act >>= next).Ensures services post s j ↔
      act.Ensures services (After next services post) s j := by
  show post _ _ _ ↔ After next services post _ _ _
  simp only [run, bind]
  split <;> rename_i h <;> simp only [h] <;> rfl

/-- Mapping a result changes its value and nothing of what the action did. -/
@[simp] theorem ensures_map {f : α → β} {act : Action σ α} {post : Ending β → σ → Journal → Prop} :
    (f <$> act).Ensures services post s j ↔
      act.Ensures services (fun ending => post (ending.map f)) s j := by
  show (act >>= fun a => pure (f a)).Ensures services post s j ↔ _
  rw [ensures_bind]
  show After _ services post _ _ _ ↔ post (Ending.map f _) _ _
  cases (act.run services s j).ending <;> rfl

/-- Dropping the result of an action drops its value and nothing of what the action did. -/
@[simp] theorem ensures_discard {act : Action σ α} {post : Ending PUnit → σ → Journal → Prop} :
    (discard act).Ensures services post s j ↔
      act.Ensures services (fun ending => post (ending.map fun _ => ())) s j := ensures_map

/-- **One action with its errors caught.** -/
@[simp] theorem ensures_tryCatch {act : Action σ α} {handler : Error → Action σ α}
    {post : Ending α → σ → Journal → Prop} :
    (tryCatch act handler).Ensures services post s j ↔
      act.Ensures services (Caught handler services post) s j := by
  show post _ _ _ ↔ Caught handler services post _ _ _
  simp only [run, tryCatch, tryCatchThe, MonadExceptOf.tryCatch]
  split
  · -- The handler goes on from the state and the journal that the error came with.
    rename_i h
    rw [h]
    rfl
  · rename_i h
    cases hc : (act services s j).ending with
    | done a => rfl
    | failed error => exact (h error hc).elim
    | unwound reason => rfl

/-- An action on a part of the state is judged on that part, and the part is put back. -/
@[simp] theorem ensures_focus {part : σ → τ} {replace : σ → τ → σ} {act : Action τ α}
    {post : Ending α → σ → Journal → Prop} :
    (focus part replace act).Ensures services post s j ↔
      act.Ensures services (fun ending t => post ending (replace s t)) (part s) j := Iff.rfl

/-- The part is there: the action runs on it, and the part is put back. -/
theorem ensures_focus?_some {part : σ → Option τ} {replace : σ → τ → σ} {act : Action τ α}
    {post : Ending (Option α) → σ → Journal → Prop} {t : τ} (h : part s = some t) :
    (focus? part replace act).Ensures services post s j ↔
      act.Ensures services (fun ending t => post (ending.map some) (replace s t)) t j := by
  simp [focus?, h]

/-- The part is not there: nothing runs, and nothing is put back. -/
theorem ensures_focus?_none {part : σ → Option τ} {replace : σ → τ → σ} {act : Action τ α}
    {post : Ending (Option α) → σ → Journal → Prop} (h : part s = none) :
    (focus? part replace act).Ensures services post s j ↔ post (.done none) s j := by
  simp [focus?, h]

/-- A mark is left where the action broke down, and only there. -/
@[simp] theorem ensures_onUnwind {act : Action σ α} {mark : σ → σ}
    {post : Ending α → σ → Journal → Prop} :
    (onUnwind act mark).Ensures services post s j ↔
      act.Ensures services
        (fun ending t => post ending (if ending.isUnwound then mark t else t)) s j := by
  simp only [Ensures, run, onUnwind]
  split <;> rename_i h <;> simp [h]

/-! ### Speaking -/

/-- Speaking changes no state and asks no compiler.  A logger that is not steady may break down over
    it. -/
theorem ensures_log_of {entry : Log.Entry} {post : Ending Unit → σ → Journal → Prop}
    (spoken : ∀ j' : Journal, j'.compilations = j.compilations → post (.done ()) s j')
    (broken : ¬ services.logger.Steady → ∀ reason, ∀ j' : Journal,
      j'.compilations = j.compilations → post (.unwound reason) s j') :
    (log entry).Ensures services post s j := by
  unfold log
  rcases hl : services.logger with trips | ⟨console, time⟩
  · -- A logger of the caller's own gets the entry, and may break down over it.
    cases ht : trips entry with
    | none => simpa [hl, ht] using spoken (j.keep entry) rfl
    | some reason =>
      have hunsteady : ¬ services.logger.Steady := by
        intro hsteady
        rw [hsteady trips hl entry] at ht
        cases ht
      simpa [hl, ht] using broken hunsteady reason (j.keep entry) rfl
  · simpa [hl] using spoken (j.print (console.print time entry)) rfl

/-- Speaking changes no state and asks no compiler.  The logger may break down over it. -/
theorem ensures_log {entry : Log.Entry} {post : Ending Unit → σ → Journal → Prop}
    (spoken : ∀ j' : Journal, j'.compilations = j.compilations → post (.done ()) s j')
    (broken : ∀ reason, ∀ j' : Journal, j'.compilations = j.compilations →
      post (.unwound reason) s j') :
    (log entry).Ensures services post s j :=
  ensures_log_of spoken fun _ => broken

/-- Saying something asks for no compilation and changes no state.  It can break down only where the logger
    is not steady, so a caller with a steady logger owes nothing for that case. -/
theorem ensures_say_of {severity : Log.Severity} {source message : String}
    {post : Ending Unit → σ → Journal → Prop}
    (spoken : ∀ j' : Journal, j'.compilations = j.compilations → post (.done ()) s j')
    (broken : ¬ services.logger.Steady → ∀ reason, ∀ j' : Journal,
      j'.compilations = j.compilations → post (.unwound reason) s j') :
    (say severity source message).Ensures services post s j :=
  ensures_log_of spoken broken

/-- Saying something, with a logger of which nothing is known. -/
theorem ensures_say {severity : Log.Severity} {source message : String}
    {post : Ending Unit → σ → Journal → Prop}
    (spoken : ∀ j' : Journal, j'.compilations = j.compilations → post (.done ()) s j')
    (broken : ∀ reason, ∀ j' : Journal, j'.compilations = j.compilations →
      post (.unwound reason) s j') :
    (say severity source message).Ensures services post s j :=
  ensures_log spoken broken

/-- A reported error ends the action, unless the logger breaks down over it. -/
theorem ensures_report_of {source : String} {error : Error} {post : Ending α → σ → Journal → Prop}
    (failed : ∀ j' : Journal, j'.compilations = j.compilations → post (.failed error) s j')
    (broken : ¬ services.logger.Steady → ∀ reason, ∀ j' : Journal,
      j'.compilations = j.compilations → post (.unwound reason) s j') :
    (report source error : Action σ α).Ensures services post s j := by
  rw [report, ensures_bind]
  exact ensures_log_of failed broken

/-- Reporting an error raises it, unless the logger breaks down on the way. -/
theorem ensures_report {source : String} {error : Error} {post : Ending α → σ → Journal → Prop}
    (failed : ∀ j' : Journal, j'.compilations = j.compilations → post (.failed error) s j')
    (broken : ∀ reason, ∀ j' : Journal, j'.compilations = j.compilations →
      post (.unwound reason) s j') :
    (report source error : Action σ α).Ensures services post s j :=
  ensures_report_of failed fun _ => broken

/-- Nothing comes after a reported error. -/
theorem report_bind (source : String) (error : Error) (next : α → Action σ β) :
    (report source error >>= next) = report source error := by
  unfold report
  rw [bind_assoc]
  rfl

/-! ### Relations that actions keep -/

/-- Whatever the action does, the state after it is related to the state before. -/
def Keeps (R : σ → σ → Prop) (act : Action σ α) : Prop :=
  ∀ services s j, act.Ensures services (fun _ t _ => R s t) s j

section Keeps

variable {R : σ → σ → Prop} {act : Action σ α} {next : α → Action σ β}

/-- A pure change keeps every relation it respects. -/
theorem keeps_modify {f : σ → σ} (h : ∀ s, R s (f s)) : (modify f : Action σ PUnit).Keeps R :=
  fun _ s _ => h s

/-- Speaking keeps every reflexive relation. -/
theorem keeps_log (hrefl : ∀ s, R s s) (entry : Log.Entry) : (log entry).Keeps R :=
  fun _ s _ => ensures_log (fun _ _ => hrefl s) fun _ _ _ => hrefl s

/-- Reporting an error keeps every reflexive relation. -/
theorem keeps_report (hrefl : ∀ s, R s s) (source : String) (error : Error) :
    (report source error : Action σ α).Keeps R :=
  fun _ s _ => ensures_report (fun _ _ => hrefl s) fun _ _ _ => hrefl s

/-- What both of two actions keep is kept by one after the other. -/
theorem Keeps.bind (htrans : ∀ s t u, R s t → R t u → R s u) (h : act.Keeps R)
    (hnext : ∀ a, (next a).Keeps R) : (act >>= next).Keeps R := by
  intro services s j
  rw [ensures_bind]
  refine (h services s j).mono ?_
  rintro (a | error | reason) t j' ht
  · exact (hnext a services t j').mono fun _ u _ hu => htrans s t u ht hu
  · exact ht
  · exact ht

/-- An action that looks at the state first keeps what it keeps in every case. -/
theorem keeps_get {next : σ → Action σ β}
    (h : ∀ services s j, (next s).Ensures services (fun _ t _ => R s t) s j) :
    ((get : Action σ σ) >>= next).Keeps R := by
  intro services s j
  rw [ensures_bind, ensures_get, after_done]
  exact h services s j

/-- What an action keeps does not depend on the use made of its result. -/
theorem Keeps.discard (h : act.Keeps R) : (discard act : Action σ PUnit).Keeps R := by
  intro services s j
  rw [ensures_discard]
  exact h services s j

/-- A transitive relation kept by an action and by its handler is kept by the two together. -/
theorem Keeps.tryCatch {handler : Error → Action σ α} (htrans : ∀ s t u, R s t → R t u → R s u)
    (h : act.Keeps R) (hhandler : ∀ error, (handler error).Keeps R) :
    (tryCatch act handler).Keeps R := by
  intro services s j
  rw [ensures_tryCatch]
  refine (h services s j).mono ?_
  rintro (a | error | reason) t j' ht
  · exact ht
  · exact (hhandler error services t j').mono fun _ u _ hu => htrans s t u ht hu
  · exact ht

end Keeps

/-! ### Actions that are not cut short -/

/-- With these collaborators no breakdown ends the action. -/
def Unbroken (services : Services) (act : Action σ α) : Prop :=
  ∀ s j, act.Ensures services (fun ending _ _ => ending.isUnwound = false) s j

section Unbroken

variable {act : Action σ α} {next : α → Action σ β}

/-- A plain value is never cut short. -/
theorem unbroken_pure (a : α) : (pure a : Action σ α).Unbroken services := fun _ _ => rfl

/-- A pure change is never cut short. -/
theorem unbroken_modify (f : σ → σ) : (modify f : Action σ PUnit).Unbroken services := fun _ _ => rfl

/-- With a steady logger, speaking is never cut short. -/
theorem unbroken_say (hsteady : services.logger.Steady) (severity : Log.Severity)
    (source message : String) : (say severity source message : Action σ Unit).Unbroken services :=
  fun _ _ => ensures_say_of (fun _ _ => rfl) fun hunsteady => (hunsteady hsteady).elim

/-- With a steady logger, reporting an error is never cut short: it ends with that error. -/
theorem unbroken_report (hsteady : services.logger.Steady) (source : String) (error : Error) :
    (report source error : Action σ α).Unbroken services :=
  fun _ _ => ensures_report_of (fun _ _ => rfl) fun hunsteady => (hunsteady hsteady).elim

/-- An action on a part of the state is cut short only where it is so on that part. -/
theorem Unbroken.focus {act : Action τ α} (h : act.Unbroken services) (part : σ → τ)
    (replace : σ → τ → σ) : (focus part replace act).Unbroken services :=
  fun s j => h (part s) j

/-- One unbroken action after another is unbroken. -/
theorem Unbroken.bind (h : act.Unbroken services) (hnext : ∀ a, (next a).Unbroken services) :
    (act >>= next).Unbroken services := by
  intro s j
  rw [ensures_bind]
  refine (h s j).mono ?_
  rintro (a | error | reason) t j' ht
  · exact hnext a t j'
  · exact ht
  · exact ht

/-- A loop of unbroken steps is unbroken. -/
theorem unbroken_forM {γ : Type} {f : γ → Action σ PUnit} (h : ∀ c, (f c).Unbroken services)
    (cs : List γ) : (cs.forM f).Unbroken services := by
  induction cs with
  | nil => exact fun _ _ => rfl
  | cons c cs ih => exact (h c).bind fun _ => ih

end Unbroken

end Action

end ShaderKit
