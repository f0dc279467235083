import Mathlib.Data.List.Induction
import ShaderKit.Proofs.Outcomes
import ShaderKit.Proofs.Registering

namespace ShaderKit

open ShaderKit.Action

/-!
# Shaders that part

Shaders may share their books.  A shader that is dropped takes its dependencies out of them, and finds
them by its id.  But all shaders that stand alone may have the same one:

* `Include.gains_resolveFor`, `Shader.ensures_load_gains` — what a load adds to the dependencies,
  however it ends
* `Workspace.ensures_onShader`, `Workspace.letGo_standalone` — work on a shader that stands alone, and
  its end
* `Sharing`        — shaders that share their books, with a record of what each has included
* `Sharing.Kept`   — each of them is among the dependents of what it has included
* `Sharing.Robs`   — a drop that clears the dependencies of another shader
* `edges_kept_iff` — a run keeps them all at each moment exactly when no drop robs another shader
-/

/-! ### What a load registers -/

/-- The dependencies of an owner on some files are added to those before. -/
def DependencyMap.Gains (deps : DependencyMap) (owner : ResourceId) (names : String → Prop)
    (t : DependencyMap) : Prop :=
  ∀ id name, t.Depends id name ↔ deps.Depends id name ∨ id = owner ∧ names name

/-- Where no file is named, nothing is added. -/
theorem DependencyMap.gains_nothing {deps : DependencyMap} {owner : ResourceId}
    {names : String → Prop} (h : ∀ name, ¬ names name) : deps.Gains owner names deps :=
  fun _ name => ⟨.inl, fun hd => hd.resolve_right fun hn => h name hn.2⟩

namespace Include

variable {services : Services} {owner : ResourceId} {ownerName : String} {limit : Nat}
  {file : SourceFile} {deps : DependencyMap} {j : Journal}

/-- However an expansion ends, it adds the same files to every map. -/
theorem gains_resolveFor : deps.Gains owner (· ∈ registered services owner ownerName limit file)
    ((resolveFor owner ownerName limit file).run services deps j).state := by
  have halike : ((carryOut owner ownerName (flatten services.files limit file)).run services deps
      j).Alike (fun t _ t' _ => ∀ id name, t.Depends id name ↔
        deps.Depends id name ∨ id = owner ∧ t'.Depends owner name)
      ((carryOut owner ownerName (flatten services.files limit file)).run services {} {}) := by
    refine alike_carryOut rfl ?_ (fun _ _ _ _ _ h => h) _ ?_
    · intro file t k t' k' h id name
      rw [DependencyMap.depends_register, DependencyMap.depends_register, h id name]
      tauto
    · simp [DependencyMap.Depends, DependencyMap.ownersOf]
  intro id name
  refine (halike.rest id name).trans (or_congr_right (and_congr_right fun _ => ?_))
  exact DependencyMap.mem_dependenciesOf.symm

end Include

namespace Shader

variable {services : Services} {file : SourceFile} {desk : Desk Shader} {j : Journal}

/-- A load of the shader registers this file in the books, where the shader keeps its dependencies. -/
def Registers (shader : Shader) (services : Services) (file : SourceFile) (name : String) : Prop :=
  shader.Ready services ∧ shader.context.tracker = .shared ∧
    name ∈ Include.registered services shader.id shader.name
      shader.context.config.maxIncludeDepth file

/-- Wherever a shader keeps its dependencies, an expansion for it adds to those of the books what a load
    registers there. -/
theorem gains_keep (ready : desk.item.Ready services) :
    desk.books.dependencies.Gains desk.item.id (desk.item.Registers services file)
      (desk.item.context.tracker.keep ((Include.resolveFor desk.item.id desk.item.name
        desk.item.context.config.maxIncludeDepth file).run services
          (desk.item.context.tracker.dependencies desk.books) j).state desk.books).dependencies := by
  cases htracker : desk.item.context.tracker with
  | shared =>
    intro id name
    refine (Include.gains_resolveFor id name).trans ?_
    rw [Registers, and_iff_right ready, and_iff_right htracker]
    exact Iff.rfl
  | own =>
    refine DependencyMap.gains_nothing fun name hregisters => ?_
    cases htracker.symm.trans hregisters.2.1

/-- The graphics subsystem is asked for in vain just if the shader is not ready for want of it. -/
theorem ensures_requireGraphics_iff :
    requireGraphics.Ensures services (fun ending t _ => t = desk ∧ (ending = .done () ↔
      desk.item.context.graphics = true ∧ services.backend.availability = .available)) desk j := by
  unfold requireGraphics
  simp only [ensures_bind, ensures_get, after_done]
  split
  · rename_i hg
    rw [ensures_bind, ensures_read, after_done]
    cases ha : services.backend.availability with
    | available => exact ensures_pure.mpr ⟨rfl, by simp [hg]⟩
    | unavailable => exact ensures_report (fun _ _ => ⟨rfl, by simp⟩) (fun _ _ _ => ⟨rfl, by simp⟩)
    | broken reason => exact ensures_unwind.mpr ⟨rfl, by simp⟩
  · rename_i hg
    exact ensures_report (fun _ _ => ⟨rfl, by simp [hg]⟩) (fun _ _ _ => ⟨rfl, by simp [hg]⟩)

/-- However a load ends, it adds to the dependencies what it registers. -/
theorem ensures_load_gains :
    (load file).Ensures services (fun _ t _ => desk.books.dependencies.Gains desk.item.id
      (desk.item.Registers services file) t.books.dependencies) desk j := by
  -- A load that does not come to the expansion registers nothing.
  have hnone (h : ¬ desk.item.Ready services) : desk.books.dependencies.Gains desk.item.id
      (desk.item.Registers services file) desk.books.dependencies :=
    DependencyMap.gains_nothing fun _ hregisters => h hregisters.1
  unfold load
  simp only [ensures_bind, ensures_get, after_done]
  refine ensures_requireGraphics_iff.mono ?_
  rintro ending t j₁ ⟨rfl, hgraphics⟩
  rcases ending with (_ | error | reason)
  rotate_left
  · exact hnone fun h => by simpa using hgraphics.mpr ⟨h.graphics, h.available⟩
  · exact hnone fun h => by simpa using hgraphics.mpr ⟨h.graphics, h.available⟩
  rw [after_done]
  -- Either subsystem may be missing, and both are reported alike.
  have hmissing (what : Error) (h : ¬ t.item.Ready services)
      {next : Unit → Action (Desk Shader) Unit} :
      ((report source what : Action (Desk Shader) Unit) >>= next).Ensures services
        (fun _ t' _ => t.books.dependencies.Gains t.item.id (t.item.Registers services file)
          t'.books.dependencies) t j₁ := by
    rw [report_bind]
    exact ensures_report (fun _ _ => hnone h) (fun _ _ _ => hnone h)
  by_cases hf : t.item.context.files = true
  rotate_left
  · rw [if_neg hf]
    exact hmissing _ fun h => hf h.files
  rw [if_pos hf]
  by_cases hd : t.item.context.dependencies = true
  rotate_left
  · rw [if_neg hd]
    exact hmissing _ fun h => hd h.dependencies
  rw [if_pos hd, ensures_bind, onDependencies, ensures_focus]
  have ready : t.item.Ready services :=
    ⟨(hgraphics.mp rfl).1, (hgraphics.mp rfl).2, hf, hd⟩
  have hresolved : (Include.resolveFor t.item.id t.item.name t.item.context.config.maxIncludeDepth
      file).Ensures services (fun _ deps _ => t.books.dependencies.Gains t.item.id
        (t.item.Registers services file) (t.item.context.tracker.keep deps t.books).dependencies)
      (t.item.context.tracker.dependencies t.books) j₁ := gains_keep ready
  refine hresolved.mono ?_
  rintro (code | error | reason) deps j₂ hdeps
  rotate_left
  · exact hdeps
  · exact hdeps
  -- What comes after the expansion leaves the dependencies alone.
  simp only [after_done, alone, ensures_bind, ensures_focus, ensures_modify]
  refine ensures_reportMemory ?_
  simp only [after_done, ensures_bind, ensures_get]
  refine ensures_say (fun _ _ => ?_) (fun _ _ _ => ?_)
  · simpa using hdeps
  · simpa using hdeps

end Shader

namespace ShaderOp

variable {services : Services} {desk : Desk Shader} {op : ShaderOp} {j : Journal}

/-- What a shader is asked for registers this file. -/
def Registers (op : ShaderOp) (services : Services) (shader : Shader) (name : String) : Prop :=
  match op with
  | load file => shader.Registers services file name
  | request .. | prepare .. => False

/-- **Whatever is done to a shader, it adds to the dependencies what it registers**, and nothing else. -/
theorem ensures_gains :
    op.act.Ensures services (fun _ t _ => desk.books.dependencies.Gains desk.item.id
      (op.Registers services desk.item) t.books.dependencies) desk j := by
  cases op with
  | request stage defines =>
    rw [act, ensures_discard]
    refine Shader.ensures_request.mono fun _ t _ h => ?_
    rw [h.2.unloaded.2]
    exact DependencyMap.gains_nothing fun _ => id
  | prepare stage defines =>
    rw [act, ensures_discard]
    refine Shader.ensures_prepare.mono fun _ t _ h => ?_
    rw [h.unloaded.2]
    exact DependencyMap.gains_nothing fun _ => id
  | load file => exact Shader.ensures_load_gains

end ShaderOp

/-! ### Standalone shaders of a workspace -/

namespace Workspace

variable {w : Workspace} {i k : Nat} {shader other : Shader} {poisoned : Bool} {services : Services}
  {j : Journal} {desk : Desk Shader}

/-- The place holds this shader, which keeps the workspace's own books. -/
def Holds (w : Workspace) (i : Nat) (shader : Shader) (poisoned : Bool) : Prop :=
  w.shaders[i]? = some { resource := { value := .shader shader, poisoned }, usesCacheBooks := false }

/-- The workspace after work on the shader of a place. -/
def putShader (w : Workspace) (i : Nat) (desk : Desk Shader) (poisoned : Bool) : Workspace :=
  { w with
    shaders := w.shaders.modify i ({ · with resource := { value := .shader desk.item, poisoned } })
    books := desk.books }

/-- A place holds one shader. -/
theorem Holds.unique {poisoned' : Bool} (h : w.Holds i shader poisoned)
    (h' : w.Holds i other poisoned') : other = shader ∧ poisoned' = poisoned := by
  have hsame := Option.some.inj (h'.symm.trans h)
  simp only [StandaloneShader.mk.injEq, Guarded.mk.injEq, Resource.shader.injEq] at hsame
  exact hsame.1

/-- The books are those that came out of the work. -/
@[simp] theorem books_putShader : (w.putShader i desk poisoned).books = desk.books := rfl

/-- What is put in a place is held there. -/
theorem holds_putShader_self (h : w.Holds i shader poisoned) (poisoned' : Bool) :
    (w.putShader i desk poisoned').Holds i desk.item poisoned' := by
  unfold Holds at h ⊢
  simp [putShader, Array.getElem?_modify, h]

/-- The other places hold what they held. -/
theorem holds_putShader_of_ne (hne : k ≠ i) (poisoned' : Bool) :
    (w.putShader i desk poisoned').Holds k other poisoned ↔ w.Holds k other poisoned := by
  simp [Holds, putShader, Array.getElem?_modify, Ne.symm hne]

/-- Work on a shader whose guard is sound. -/
theorem ensures_onShader {α : Type} {act : Action (Desk Shader) α}
    {post : Ending (Option α) → Workspace → Journal → Prop} (hw : w.Holds i shader false)
    (h : act.Ensures services (fun ending desk j' =>
      post (ending.map some) (w.putShader i desk ending.isUnwound) j')
      { item := shader, books := w.books } j) :
    (onShader (.standalone i) act).Ensures services post w j := by
  unfold Holds at hw
  rw [onShader, ensures_bind, onResource, ensures_focus?_some (by simp [resource?, hw]; rfl),
    ensures_hold, ensures_onShader_shader]
  have hbooks : w.booksOf (.standalone i) = w.books := by simp [booksOf, usesCacheBooks, hw]
  rw [hbooks]
  refine h.mono fun ending desk j' hpost => ?_
  -- The shader is put back into its place, and the books it keeps are put back where they were.
  have hput : (w.putResource (.standalone i)
      { value := .shader desk.item, poisoned := ending.isUnwound }).putBooksOf (.standalone i)
      desk.books = w.putShader i desk ending.isUnwound := by
    simp [putResource, putBooksOf, usesCacheBooks, putShader, Array.getElem?_modify, hw]
  rw [← hput] at hpost
  cases ending <;> exact hpost

/-- Behind a poisoned guard nothing happens. -/
theorem ensures_onShader_barred {α : Type} {act : Action (Desk Shader) α}
    {post : Ending (Option α) → Workspace → Journal → Prop} (hw : w.Holds i shader true)
    (h : post (.done none) w j) : (onShader (.standalone i) act).Ensures services post w j := by
  unfold Holds at hw
  rw [onShader, ensures_bind, onResource, ensures_focus?_none (by simp [resource?, hw])]
  exact h

/-- The end of a shader concerns the books alone. -/
theorem letGo_standalone (hw : w.Holds i shader poisoned) :
    w.letGo (.standalone i) = { w with books := shader.retire w.books } := by
  unfold Holds at hw
  simp [letGo, resource?, putBooksOf, booksOf, usesCacheBooks, hw, Resource.retire]

end Workspace

/-! ### Shaders that share their books -/

/-- Shaders that stand alone in a workspace and keep its books, with a record of what has happened. -/
structure Sharing where
  workspace : Workspace := {}
  /-- The shaders that have not been dropped, by their places in the workspace. -/
  live : List Nat := []
  /-- The files that loads of a shader have registered in the books. -/
  included : Nat → String → Prop := fun _ _ => False

namespace Sharing

/-- What can happen to the shaders of a workspace. -/
inductive Event where
  | make (id : ResourceId) (name : String) (context : Context)
  | work (i : Nat) (op : ShaderOp) (services : Services) (journal : Journal)
  | drop (i : Nat)

/-- What happens next.  Nothing is asked of a shader that was dropped. -/
def next (s : Sharing) : Event → Sharing
  | .make id name context =>
    let (workspace, i) := s.workspace.addShader (.unloaded id name context) false
    { workspace
      live := i :: s.live
      included := fun k name => k ≠ i ∧ s.included k name }
  | .work i op services journal =>
    if i ∈ s.live then
      { s with
        workspace := ((Workspace.onShader (.standalone i) op.act).run services s.workspace
          journal).state
        included := fun k name => s.included k name ∨ k = i ∧
          ∃ shader, s.workspace.Holds i shader false ∧ op.Registers services shader name }
    else s
  | .drop i =>
    if i ∈ s.live then
      { s with
        workspace := s.workspace.letGo (.standalone i)
        live := s.live.filter (· ≠ i) }
    else s

/-- What has come of some events, one after the other. -/
def after (events : List Event) : Sharing := events.foldl next {}

/-- Every shader that has not been dropped is among the dependents of all files that its loads have
    registered in the books. -/
def Kept (s : Sharing) : Prop :=
  ∀ i ∈ s.live, ∃ shader poisoned, s.workspace.Holds i shader poisoned ∧
    ∀ name, s.included i name → shader.id ∈ s.workspace.books.dependencies.dependents name

/-- The event drops a shader, and clears the dependencies of another one with the same id, which has
    included some file and has not been dropped. -/
def Robs (s : Sharing) (event : Event) : Prop :=
  ∃ i ∈ s.live, event = .drop i ∧ ∃ shader poisoned, s.workspace.Holds i shader poisoned ∧
    (shader.context.dependencies = true ∧ shader.context.tracker = .shared) ∧ ∃ k ∈ s.live, k ≠ i ∧ (∃ name, s.included k name) ∧
      ∃ other poisoned, s.workspace.Holds k other poisoned ∧ other.id = shader.id

variable {s : Sharing} {event : Event} {i : Nat}

/-- In the beginning there are no shaders. -/
theorem kept_start : Kept {} := fun i hi => by cases hi

/-- A new shader has included nothing, and the others stay where they are. -/
theorem Kept.make (h : s.Kept) (id : ResourceId) (name : String) (context : Context) :
    (s.next (.make id name context)).Kept := by
  intro i hi
  rcases List.mem_cons.mp hi with rfl | hi
  · -- The new shader has included nothing so far.
    refine ⟨.unloaded id name context, false, ?_, fun name hname => absurd rfl hname.1⟩
    simp [Workspace.Holds, next, Workspace.addShader]
  · obtain ⟨shader, poisoned, hholds, hdepends⟩ := h i hi
    refine ⟨shader, poisoned, ?_, fun name hname => hdepends name hname.2⟩
    obtain ⟨hlt, -⟩ := Array.getElem?_eq_some_iff.mp hholds
    exact (Array.getElem?_push_lt hlt).trans ((Array.getElem?_eq_getElem hlt).symm.trans hholds)

/-- Work on a shader leaves every shader its id and its place, and adds to the dependencies what it
    registers.  Behind a poisoned guard that is nothing. -/
theorem ensures_work {w : Workspace} {shader : Shader} {poisoned : Bool}
    (hw : w.Holds i shader poisoned) (op : ShaderOp) (services : Services) (j : Journal) :
    (Workspace.onShader (.standalone i) op.act).Ensures services (fun _ t _ =>
      (∀ k other poisoned, w.Holds k other poisoned →
        ∃ other' poisoned', t.Holds k other' poisoned' ∧
          other'.MadeAs other.id other.name other.context) ∧
      w.books.dependencies.Gains shader.id
        (fun name => poisoned = false ∧ op.Registers services shader name)
        t.books.dependencies) w j := by
  cases poisoned with
  | true =>
    refine Workspace.ensures_onShader_barred hw ⟨fun k other poisoned h => ?_, ?_⟩
    · exact ⟨other, poisoned, h, rfl, rfl, rfl⟩
    · exact DependencyMap.gains_nothing (by simp)
  | false =>
    refine Workspace.ensures_onShader hw ((op.ensures_act.and op.ensures_gains).mono ?_)
    rintro ending desk _ ⟨houtcome, hgains⟩
    refine ⟨fun k other poisoned hother => ?_, by simpa [DependencyMap.Gains] using hgains⟩
    by_cases hk : k = i
    · subst hk
      obtain ⟨rfl, rfl⟩ := hw.unique hother
      exact ⟨desk.item, _, Workspace.holds_putShader_self hw _, houtcome.continues.made⟩
    · exact ⟨other, poisoned, (Workspace.holds_putShader_of_ne hk _).mpr hother, rfl, rfl, rfl⟩

/-- Work adds to the dependencies what is added to the record, and takes nothing away. -/
theorem Kept.work (h : s.Kept) (i : Nat) (op : ShaderOp) (services : Services) (journal : Journal) :
    (s.next (.work i op services journal)).Kept := by
  by_cases hi : i ∈ s.live
  rotate_left
  · rwa [Sharing.next, if_neg hi]
  rw [Sharing.next, if_pos hi]
  obtain ⟨shader, poisoned, hshader, -⟩ := h i hi
  obtain ⟨hplaces, hadded⟩ := ensures_work hshader op services journal
  intro k hk
  obtain ⟨other, poisoned', hother, hincluded⟩ := h k hk
  obtain ⟨other', poisoned'', hholds, hmade⟩ := hplaces k other poisoned' hother
  refine ⟨other', poisoned'', hholds, fun name hname => ?_⟩
  rw [DependencyMap.mem_dependents, hmade.id]
  refine (hadded other.id name).mpr ?_
  rcases hname with hname | ⟨rfl, worker, hworker, hregisters⟩
  · exact .inl (DependencyMap.mem_dependents.mp (hincluded name hname))
  · -- The shader that works is the one of its place, and its guard is sound.
    obtain ⟨rfl, -⟩ := hshader.unique hother
    obtain ⟨rfl, hsound⟩ := hshader.unique hworker
    exact .inr ⟨rfl, hsound.symm, hregisters⟩

/-- A drop that robs no one clears dependencies under an id that nobody else has use for. -/
theorem Kept.drop (h : s.Kept) (hfair : ¬ s.Robs (.drop i)) : (s.next (.drop i)).Kept := by
  by_cases hi : i ∈ s.live
  rotate_left
  · rwa [Sharing.next, if_neg hi]
  rw [Sharing.next, if_pos hi]
  obtain ⟨shader, poisoned, hshader, -⟩ := h i hi
  rw [Workspace.letGo_standalone hshader]
  intro k hk
  obtain ⟨hlive, hne⟩ : k ∈ s.live ∧ k ≠ i := by simpa using hk
  obtain ⟨other, poisoned', hother, hincluded⟩ := h k hlive
  refine ⟨other, poisoned', hother, fun name hname => ?_⟩
  have hdepends := DependencyMap.mem_dependents.mp (hincluded name hname)
  show other.id ∈ (shader.retire s.workspace.books).dependencies.dependents name
  rw [DependencyMap.mem_dependents, Shader.retire]
  split
  · rename_i htracked
    cases htracker : shader.context.tracker with
    | shared =>
      -- The dependencies of another id are cleared.
      refine DependencyMap.depends_clear.mpr ⟨fun hid => hfair ?_, hdepends⟩
      exact ⟨i, hi, rfl, shader, poisoned, hshader, ⟨htracked, htracker⟩, k, hlive, hne, ⟨name, hname⟩,
        other, poisoned', hother, hid⟩
    | own => exact hdepends
  · exact hdepends

/-- **The step.**  Only an event that robs a shader loses one of its dependencies. -/
theorem Kept.next (h : s.Kept) (hfair : ¬ s.Robs event) : (s.next event).Kept := by
  cases event with
  | make id name context => exact h.make id name context
  | work i op services journal => exact h.work i op services journal
  | drop i => exact h.drop hfair

/-- What is cleared for a shader that is dropped is missed by the other one. -/
theorem Robs.not_kept (hrobs : s.Robs event) : ¬ (s.next event).Kept := by
  intro hkept
  obtain ⟨i, hi, rfl, shader, poisoned, hshader, ⟨htracked, hshared⟩, k, hlive, hne, ⟨name, hname⟩,
    other, poisoned', hother, hid⟩ := hrobs
  rw [Sharing.next, if_pos hi, Workspace.letGo_standalone hshader] at hkept
  obtain ⟨same, _, hsame, hincluded⟩ := hkept k (by simpa using ⟨hlive, hne⟩)
  have hdepends := DependencyMap.mem_dependents.mp (hincluded name hname)
  simp only [Shader.retire, htracked, if_true, hshared] at hdepends
  obtain ⟨rfl, -⟩ := hother.unique hsame
  exact (DependencyMap.depends_clear.mp hdepends).1 hid

/-- The last event happens last. -/
theorem after_concat (before : List Event) (event : Event) :
    after (before ++ [event]) = (after before).next event := by
  simp [after]

/-- **Dropping a shader touches the dependencies of its own id**, and so those of every other shader
    with that id.  Take any shaders with books in common, under any ids, and any run in which they are
    made, work and are dropped, whatever their collaborators do.  At each moment every shader that has
    not been dropped is among the dependents of all files that its loads have registered, exactly when
    no shader that keeps its dependencies in these books is dropped while another one with its id has
    included a file. -/
theorem edges_kept_iff (events : List Event) :
    (∀ before, before <+: events → (after before).Kept) ↔
      ∀ before event, before ++ [event] <+: events → ¬ (after before).Robs event := by
  constructor
  · intro hkept before event hbefore hrobs
    refine hrobs.not_kept ?_
    rw [← after_concat]
    exact hkept _ hbefore
  · intro hfair before hbefore
    induction before using List.reverseRecOn with
    | nil => exact kept_start
    | append_singleton before event ih =>
      rw [after_concat]
      exact (ih ((List.prefix_append _ _).trans hbefore)).next (hfair before event hbefore)

/-- What is included. -/
def sharedInclude : MemoryStore := ({} : MemoryStore).insert "x" "float x;".toUTF8

/-- A shader that includes it. -/
def sharingSource : SourceFile := .ofText "a" "#include \"x\"\n"

/-- Two shaders are made without ids of their own. -/
def namelessPair : List Event := [.make .standalone "a" {}, .make .standalone "b" {}]

/-- The first one is loaded. -/
def loadingFirst : Event := .work 0 (.load sharingSource) { files := sharedInclude.read } {}

/-- When the second one is dropped, which has included nothing, the first one is no longer among the
    dependents of what it has included. -/
theorem edges_kept_iff_nameless :
    ¬ ∀ before, before <+: namelessPair ++ [loadingFirst, .drop 1] → (after before).Kept := by
  have hfirst : (after namelessPair).workspace.Holds 0 (.unloaded .standalone "a" {}) false := rfl
  have hsecond : (after namelessPair).workspace.Holds 1 (.unloaded .standalone "b" {}) false := rfl
  have hregisters : Shader.Registers (.unloaded .standalone "a" {}) { files := sharedInclude.read }
      sharingSource "x" := ⟨⟨rfl, rfl, rfl, rfl⟩, rfl, by decide +kernel⟩
  have hlive : (after namelessPair).live = [1, 0] := rfl
  have hrobs : ((after namelessPair).next loadingFirst).Robs (.drop 1) := by
    obtain ⟨hplaces, -⟩ := ensures_work hfirst (.load sharingSource)
      { files := sharedInclude.read } {}
    rw [loadingFirst, Sharing.next, if_pos (by simp [hlive])]
    -- All that matters of the load is what it leaves at the two places.
    generalize Outcome.state _ = w at hplaces ⊢
    obtain ⟨first, _, hfirst', hmade⟩ := hplaces 0 _ _ hfirst
    obtain ⟨second, _, hsecond', hmade'⟩ := hplaces 1 _ _ hsecond
    refine ⟨1, by simp [hlive], rfl, second, _, hsecond', ?_, 0, by simp [hlive], by decide,
      ⟨"x", .inr ⟨rfl, _, hfirst, hregisters⟩⟩, first, _, hfirst', ?_⟩
    · rw [hmade'.context]
      exact ⟨rfl, rfl⟩
    · exact hmade.id.trans hmade'.id.symm
  rw [edges_kept_iff]
  intro hfair
  refine hfair (namelessPair ++ [loadingFirst]) (.drop 1) (by simp) ?_
  rw [after_concat]
  exact hrobs

end Sharing

end ShaderKit
