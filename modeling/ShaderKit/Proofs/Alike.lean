import ShaderKit.Proofs.Guarantee

namespace ShaderKit

/-!
# Runs that end alike

One action may be run twice, with other collaborators, from another state or after another journal.
Where the difference does not show, the runs go through the same motions:

* `Outcome.Alike` — two runs ended in the same way, and what they left behind is related
* `Alike.bind`, `Alike.tryCatch` — related runs are continued by related runs
* `alike_focus`, `alike_focus?` — related parts are worked on alike, and put back
* `alike_log`, `alike_report` — the same is said in both runs when the loggers are the same

What the runs leave behind may be related in any way that survives the steps in which they differ.
-/

variable {σ τ α β : Type}

/-- Two runs ended in the same way, and what they left behind is related. -/
structure Outcome.Alike (R : σ → Journal → τ → Journal → Prop) (out : Outcome σ α)
    (out' : Outcome τ α) : Prop where
  ending : out.ending = out'.ending
  rest : R out.state out.journal out'.state out'.journal

theorem Outcome.Alike.mono {R R' : σ → Journal → τ → Journal → Prop} {out : Outcome σ α}
    {out' : Outcome τ α} (h : out.Alike R out') (hrest : ∀ s j s' j', R s j s' j' → R' s j s' j') :
    out.Alike R' out' :=
  ⟨h.ending, hrest _ _ _ _ h.rest⟩

/-- Runs that end alike and leave the same behind have the same outcome. -/
theorem Outcome.Alike.eq {out out' : Outcome σ α}
    (h : out.Alike (fun t k t' k' => t = t' ∧ k = k') out') : out = out' := by
  cases out
  cases out'
  obtain ⟨hending, hstate, hjournal⟩ := h
  cases hending
  cases hstate
  cases hjournal
  rfl

namespace Action

variable {R : σ → Journal → τ → Journal → Prop} {services services' : Services} {s : σ} {s' : τ}
  {j j' : Journal}

/-- Runs that end alike are continued by runs that end alike from everything related. -/
theorem Alike.bind {act : Action σ α} {act' : Action τ α} {next : α → Action σ β}
    {next' : α → Action τ β} (h : (act.run services s j).Alike R (act'.run services' s' j'))
    (hnext : ∀ a t k t' k', R t k t' k' →
      ((next a).run services t k).Alike R ((next' a).run services' t' k')) :
    ((act >>= next).run services s j).Alike R ((act' >>= next').run services' s' j') := by
  obtain ⟨hending, hrest⟩ := h
  simp only [run, Bind.bind] at hending hrest ⊢
  rw [← hending]
  cases (act services s j).ending with
  | done a => exact hnext a _ _ _ _ hrest
  | failed error => exact ⟨rfl, hrest⟩
  | unwound reason => exact ⟨rfl, hrest⟩

/-- Errors are caught in both runs or in neither. -/
theorem Alike.tryCatch {act : Action σ α} {act' : Action τ α} {handler : Error → Action σ α}
    {handler' : Error → Action τ α}
    (h : (act.run services s j).Alike R (act'.run services' s' j'))
    (hhandler : ∀ error t k t' k', R t k t' k' →
      ((handler error).run services t k).Alike R ((handler' error).run services' t' k')) :
    ((tryCatch act handler).run services s j).Alike R
      ((tryCatch act' handler').run services' s' j') := by
  obtain ⟨hending, hrest⟩ := h
  simp only [run, MonadExcept.tryCatch, tryCatchThe, MonadExceptOf.tryCatch] at hending hrest ⊢
  rw [← hending]
  cases hc : (act services s j).ending with
  | done a => exact ⟨hending, hrest⟩
  | failed error => exact hhandler error _ _ _ _ hrest
  | unwound reason => exact ⟨hending, hrest⟩

theorem run_focus?_some {γ : Type} {part : σ → Option γ} {replace : σ → γ → σ} {act : Action γ α}
    {item : γ} (hpart : part s = some item) :
    (focus? part replace act).run services s j = ⟨(act.run services item j).ending.map some,
      replace s (act.run services item j).state, (act.run services item j).journal⟩ := by
  have hensured : (focus? part replace act).Ensures services (fun ending t j' =>
      (⟨ending, t, j'⟩ : Outcome σ (Option α)) = ⟨(act.run services item j).ending.map some,
        replace s (act.run services item j).state, (act.run services item j).journal⟩) s j :=
    (ensures_focus?_some hpart).mpr rfl
  exact hensured

/-- What depends on the state alone is done alike in both states. -/
theorem alike_get {next : σ → Action σ α} {next' : τ → Action τ α}
    (h : ((next s).run services s j).Alike R ((next' s').run services' s' j')) :
    ((get >>= next).run services s j).Alike R ((get >>= next').run services' s' j') := h

theorem alike_modify {f : σ → σ} {f' : τ → τ} (h : R (f s) j (f' s') j') :
    ((modify f : Action σ PUnit).run services s j).Alike R
      ((modify f' : Action τ PUnit).run services' s' j') := ⟨rfl, h⟩

/-- What follows a change of the state is done alike in both states after it. -/
theorem alike_modify_bind {f : σ → σ} {f' : τ → τ} {next : PUnit → Action σ α} {next' : PUnit → Action τ α}
    (h : ((next ⟨⟩).run services (f s) j).Alike R ((next' ⟨⟩).run services' (f' s') j')) :
    ((modify f >>= next).run services s j).Alike R ((modify f' >>= next').run services' s' j') := h

/-- Work on related parts ends alike, as long as the wholes stay related with what the parts become. -/
theorem alike_focus {γ δ : Type} {Q : γ → Journal → δ → Journal → Prop} {part : σ → γ} {part' : τ → δ}
    {replace : σ → γ → σ} {replace' : τ → δ → τ} {act : Action γ α} {act' : Action δ α}
    (h : (act.run services (part s) j).Alike Q (act'.run services' (part' s') j'))
    (hreplace : ∀ item k item' k', Q item k item' k' → R (replace s item) k (replace' s' item') k') :
    ((focus part replace act).run services s j).Alike R
      ((focus part' replace' act').run services' s' j') :=
  ⟨h.ending, hreplace _ _ _ _ h.rest⟩

/-- The same for parts that both states have. -/
theorem alike_focus? {γ δ : Type} {Q : γ → Journal → δ → Journal → Prop} {part : σ → Option γ}
    {part' : τ → Option δ} {replace : σ → γ → σ} {replace' : τ → δ → τ} {act : Action γ α}
    {act' : Action δ α} {item : γ} {item' : δ} (hpart : part s = some item)
    (hpart' : part' s' = some item')
    (h : (act.run services item j).Alike Q (act'.run services' item' j'))
    (hreplace : ∀ item k item' k', Q item k item' k' → R (replace s item) k (replace' s' item') k') :
    ((focus? part replace act).run services s j).Alike R
      ((focus? part' replace' act').run services' s' j') := by
  rw [run_focus?_some hpart, run_focus?_some hpart']
  exact ⟨congrArg (Ending.map some) h.ending, hreplace _ _ _ _ h.rest⟩

/-- A mark is left in both runs or in neither. -/
theorem alike_onUnwind {act : Action σ α} {act' : Action τ α} {mark : σ → σ} {mark' : τ → τ}
    (h : (act.run services s j).Alike R (act'.run services' s' j'))
    (hmark : ∀ t k t' k', R t k t' k' → R (mark t) k (mark' t') k') :
    ((act.onUnwind mark).run services s j).Alike R ((act'.onUnwind mark').run services' s' j') := by
  obtain ⟨hending, hrest⟩ := h
  simp only [run, onUnwind] at hending hrest ⊢
  rw [← hending]
  split
  · exact ⟨rfl, hmark _ _ _ _ hrest⟩
  · exact ⟨hending, hrest⟩

/-- What becomes of an entry depends on the logger alone. -/
theorem exists_run_log (logger : Logger) (entry : Log.Entry) :
    ∃ (ending : Ending Unit) (f : Journal → Journal), ∀ {σ : Type} (services : Services) (s : σ)
      (j : Journal), services.logger = logger →
        (log entry : Action σ Unit).run services s j = ⟨ending, s, f j⟩ := by
  have hrun {σ : Type} {services : Services} {s : σ} {j j' : Journal} {ending : Ending Unit}
      (h : (log entry : Action σ Unit).Ensures services (fun ending' t k =>
        (⟨ending', t, k⟩ : Outcome σ Unit) = ⟨ending, s, j'⟩) s j) :
      (log entry : Action σ Unit).run services s j = ⟨ending, s, j'⟩ := h
  rcases logger with trips | ⟨console, time⟩
  · cases ht : trips entry with
    | none =>
      refine ⟨.done (), (·.keep entry), fun services s j hl => hrun ?_⟩
      simp [log, hl, ht]
    | some reason =>
      refine ⟨.unwound reason, (·.keep entry), fun services s j hl => hrun ?_⟩
      simp [log, hl, ht]
  · refine ⟨.done (), (·.print (console.print time entry)), fun services s j hl => hrun ?_⟩
    simp [log, hl]

/-- Speaking ends alike under one logger, as long as the journals stay related. -/
theorem alike_log {entry : Log.Entry} (hlogger : services'.logger = services.logger)
    (note : ∀ f : Journal → Journal, R s (f j) s' (f j')) :
    ((log entry : Action σ Unit).run services s j).Alike R
      ((log entry : Action τ Unit).run services' s' j') := by
  obtain ⟨ending, f, hrun⟩ := exists_run_log services.logger entry
  rw [hrun services s j rfl, hrun services' s' j' hlogger]
  exact ⟨rfl, note f⟩

theorem alike_report {source : String} {error : Error}
    (hlogger : services'.logger = services.logger)
    (note : ∀ f : Journal → Journal, R s (f j) s' (f j')) :
    ((report source error : Action σ α).run services s j).Alike R
      ((report source error : Action τ α).run services' s' j') :=
  Alike.bind (alike_log hlogger note) fun _ _ _ _ _ h => ⟨rfl, h⟩

end Action

end ShaderKit
