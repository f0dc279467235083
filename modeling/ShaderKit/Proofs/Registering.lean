import ShaderKit.File.Memory
import ShaderKit.Proofs.Alike
import ShaderKit.Proofs.Loading

namespace ShaderKit.Include

open ShaderKit.Action

/-!
# The registered files decide

Whoever owns an expansion is told about the files that were read, its own apart, and takes the text
to be up to date as long as none of them changes.  That is right: a file that was not registered has
no influence on the text.

* `registered`              — the files that an expansion registers for its owner
* `carryOut`                — the part of an expansion for an owner that opens no file
* `alike_carryOut`          — the same steps are carried out alike, over any map and any journal
* `mem_registered`, `depends_resolveFor` — what an expansion that succeeds registers
* `registered_files_decide` — providers that agree on the registered files and on the owner's own
                              give the same text, the same registered files and the same log
-/

variable {services services' : Services} {owner id : ResourceId} {ownerName name : String}
  {limit : Nat} {file : SourceFile} {deps deps' : DependencyMap} {j j' : Journal} {text : String}

/-- The files that an expansion registers for its owner: those on which the owner depends after it
    when nothing depended on anything before. -/
def registered (services : Services) (owner : ResourceId) (ownerName : String) (limit : Nat)
    (file : SourceFile) : List String :=
  ((resolveFor owner ownerName limit file).run services {} {}).state.dependenciesOf owner

/-! ### Carrying out an expansion -/

/-- Carries out the steps of an expansion for its owner, and ends with its text. -/
def carryOut (owner : ResourceId) (ownerName : String) (x : Expansion (List (List Char))) :
    Action DependencyMap String := do
  x.steps.forM (perform owner ownerName)
  match x.text with
  | .ok text => pure text
  | .error error => .report source error

/-- All that an expansion for an owner asks of the files is the expansion itself. -/
theorem run_resolveFor : (resolveFor owner ownerName limit file).run services deps j =
    (carryOut owner ownerName (flatten services.files limit file)).run services deps j := rfl

section

variable {R : DependencyMap → Journal → DependencyMap → Journal → Prop}
  (hlogger : services'.logger = services.logger)
  (register : ∀ name t k t' k', R t k t' k' → R (t.register owner name) k (t'.register owner name) k')
  (note : ∀ (f : Journal → Journal) t k t' k', R t k t' k' → R t (f k) t' (f k'))

include hlogger register note

theorem alike_performAll (steps : List Step) (h : R deps j deps' j') :
    ((steps.forM (perform owner ownerName)).run services deps j).Alike R
      ((steps.forM (perform owner ownerName)).run services' deps' j') := by
  induction steps generalizing deps deps' j j' with
  | nil => exact ⟨rfl, h⟩
  | cons step steps ih =>
    refine Alike.bind ?_ fun _ t k t' k' h => ih h
    cases step with
    | entered name =>
      by_cases hn : name = ownerName
      · simp only [perform, hn, if_true]
        exact ⟨rfl, h⟩
      · simp only [perform, hn, if_false]
        exact ⟨rfl, register name _ _ _ _ h⟩
    | followed includer name => exact alike_log hlogger fun f => note f _ _ _ _ h

/-- The same steps are carried out alike, as long as registering and speaking keep the runs related. -/
theorem alike_carryOut (x : Expansion (List (List Char))) (h : R deps j deps' j') :
    ((carryOut owner ownerName x).run services deps j).Alike R
      ((carryOut owner ownerName x).run services' deps' j') := by
  refine Alike.bind (alike_performAll hlogger register note _ h) fun _ t k t' k' h => ?_
  cases x.text with
  | ok text => exact ⟨rfl, h⟩
  | error error => exact alike_report hlogger fun f => note f _ _ _ _ h

end

/-- How an expansion ends depends neither on what was registered nor on what was said before. -/
theorem ending_resolveFor : ((resolveFor owner ownerName limit file).run services deps j).ending =
    ((resolveFor owner ownerName limit file).run services deps' j').ending := by
  rw [run_resolveFor, run_resolveFor]
  exact (alike_carryOut (R := fun _ _ _ _ => True) rfl (fun _ _ _ _ _ h => h)
    (fun _ _ _ _ _ h => h) _ trivial).ending

/-! ### What is registered -/

/-- An expansion that succeeds registers all files that it enters besides the one of the owner. -/
theorem resolveFor_of_done
    (h : ((resolveFor owner ownerName limit file).run services deps j).ending = .done text) :
    (flatten services.files limit file).Succeeds ∧
      ((resolveFor owner ownerName limit file).run services deps j).state =
        deps.registerAll owner ((flatten services.files limit file).others ownerName) := by
  have hensured : (resolveFor owner ownerName limit file).Ensures services (fun ending t _ =>
      Resolved (flatten services.files limit file) owner ownerName deps ending t) deps j :=
    ensures_resolveFor.mono fun _ _ _ hr => hr.2
  have hr : Resolved (flatten services.files limit file) owner ownerName deps
      ((resolveFor owner ownerName limit file).run services deps j).ending
      ((resolveFor owner ownerName limit file).run services deps j).state := hensured
  rw [h] at hr
  generalize ((resolveFor owner ownerName limit file).run services deps j).state = t at hr ⊢
  cases hr with
  | done htext => exact ⟨Expansion.succeeds_of_text htext, rfl⟩

/-- The registered files are those that are entered besides the one of the owner. -/
theorem mem_registered
    (h : ((resolveFor owner ownerName limit file).run services deps j).ending = .done text) :
    name ∈ registered services owner ownerName limit file ↔
      name ∈ (flatten services.files limit file).others ownerName := by
  have hdone : ((resolveFor owner ownerName limit file).run services {} {}).ending = .done text :=
    ending_resolveFor.trans h
  have hnone : ¬ DependencyMap.Depends {} owner name := by
    simp [DependencyMap.Depends, DependencyMap.ownersOf]
  rw [registered, (resolveFor_of_done hdone).2, DependencyMap.mem_dependenciesOf,
    DependencyMap.depends_registerAll]
  simp [hnone]

/-- The registered files are what an expansion adds to any map. -/
theorem depends_resolveFor
    (h : ((resolveFor owner ownerName limit file).run services deps j).ending = .done text) :
    ((resolveFor owner ownerName limit file).run services deps j).state.Depends id name ↔
      deps.Depends id name ∨
        id = owner ∧ name ∈ registered services owner ownerName limit file := by
  rw [(resolveFor_of_done h).2, DependencyMap.depends_registerAll, mem_registered h]
  exact or_comm

/-! ### Other files -/

/-- Providers with the same expansion lead to the same outcome. -/
theorem resolveFor_congr {other : Provider}
    (h : flatten other limit file = flatten services.files limit file) :
    (resolveFor owner ownerName limit file).run { services with files := other } deps j =
      (resolveFor owner ownerName limit file).run services deps j := by
  -- The two runs differ in the files only, and carrying out an expansion opens none.
  have halike : ((carryOut owner ownerName (flatten services.files limit file)).run
      { services with files := other } deps j).Alike (fun t k t' k' => t = t' ∧ k = k')
      ((carryOut owner ownerName (flatten services.files limit file)).run services deps j) := by
    apply alike_carryOut
    · rfl
    · rintro name t k _ _ ⟨rfl, rfl⟩
      exact ⟨rfl, rfl⟩
    · rintro f t k _ _ ⟨rfl, rfl⟩
      exact ⟨rfl, rfl⟩
    · exact ⟨rfl, rfl⟩
  rw [run_resolveFor, run_resolveFor]
  show (carryOut owner ownerName (flatten other limit file)).run _ deps j = _
  rw [h]
  exact halike.eq

/-- **The registered files decide.**  Take an expansion for an owner that ends with a text, over files
    that carry the names by which they are opened, and another provider that gives the same for every
    registered file and for the owner's own.  With the other provider the expansion ends with the same
    text, registers the same files over any map, and says the same. -/
theorem registered_files_decide (hnamed : services.files.Named)
    (hdone : ((resolveFor owner ownerName limit file).run services deps j).ending = .done text)
    {other : Provider} (hown : other ownerName = services.files ownerName)
    (hagree : ∀ name ∈ registered services owner ownerName limit file,
      other name = services.files name) :
    (resolveFor owner ownerName limit file).run { services with files := other } deps j =
      (resolveFor owner ownerName limit file).run services deps j ∧
    registered { services with files := other } owner ownerName limit file =
      registered services owner ownerName limit file ∧
    ∀ id name, ((resolveFor owner ownerName limit file).run services deps j).state.Depends id name ↔
      deps.Depends id name ∨
        id = owner ∧ name ∈ registered services owner ownerName limit file := by
  -- A file that is entered is registered, or it is the owner's own.
  have hentered : ∀ name ∈ (flatten services.files limit file).entered,
      other name = services.files name := by
    intro name hn
    by_cases hname : name = ownerName
    · rw [hname, hown]
    · have hothers : name ∈ (flatten services.files limit file).others ownerName :=
        Expansion.mem_others.mpr ⟨hn, hname⟩
      exact hagree name ((mem_registered hdone).mpr hothers)
  have hsame : flatten other limit file = flatten services.files limit file :=
    flatten_congr hnamed (resolveFor_of_done hdone).1 hentered
  refine ⟨resolveFor_congr hsame, ?_, fun id name => depends_resolveFor hdone⟩
  rw [registered, resolveFor_congr hsame]
  rfl

/-- A file that includes the owner's own. -/
def cyclicFiles : MemoryStore :=
  (({} : MemoryStore).insert "a" "float z;".toUTF8).insert "b" "#include \"a\"".toUTF8

/-- A text of the owner that is not the one of its file. -/
def cyclicRoot : SourceFile := .ofText "a" "#include \"b\"\nfloat x;"

/-- A third file may be there or not. -/
theorem registered_files_decide_cyclic :
    let expand := resolveFor .standalone "a" 2 cyclicRoot
    let other := (cyclicFiles.insert "c" "float y;".toUTF8).read
    (expand.run { files := cyclicFiles.read } {} {}).ending = .done "float z;\n\n\nfloat x;\n\n" ∧
      registered { files := cyclicFiles.read } .standalone "a" 2 cyclicRoot = ["b"] ∧
      expand.run { files := other } {} {} = expand.run { files := cyclicFiles.read } {} {} := by
  have hdone : ((resolveFor .standalone "a" 2 cyclicRoot).run { files := cyclicFiles.read } {}
      {}).ending = .done "float z;\n\n\nfloat x;\n\n" := by decide +kernel
  have hregistered : registered { files := cyclicFiles.read } .standalone "a" 2 cyclicRoot =
      ["b"] := by decide +kernel
  have hother (name : String) (hne : "c" ≠ name) :
      (cyclicFiles.insert "c" "float y;".toUTF8).read name = cyclicFiles.read name :=
    MemoryStore.read_insert_of_ne hne
  refine ⟨hdone, hregistered, ?_⟩
  refine (registered_files_decide (fun _ _ => MemoryStore.name_of_read_eq_ok) hdone
    (hother "a" (by decide)) fun name hn => hother name ?_).1
  rw [hregistered, List.mem_singleton] at hn
  subst hn
  decide

end ShaderKit.Include
