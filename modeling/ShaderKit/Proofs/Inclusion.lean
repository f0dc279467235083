import ShaderKit.Proofs.Keys
import ShaderKit.Proofs.Nesting
import ShaderKit.Proofs.Registering

namespace ShaderKit.Include

/-!
# An expansion is what its files say

Which files an expansion takes, whether it succeeds and what comes out of it can be told from the files
alone, with no account of how the expansion goes along.

* `targets`, `Opens`  — the directives of a file, and the files that they open
* `Chain`             — a chain of includes, with its length
* `Expandable`        — no chain is too long, every file that is named opens, every file is a text
* `succeeds_expand`   — an expansion succeeds exactly then
* `mem_entered_expand_iff` — and enters the files to which a chain leads
* `resolves_to_expansion`  — what that means for an owner
-/

open Expansion

variable {services : Services} {files : Provider} {limit levels n : Nat}
  {file root includer included : SourceFile} {target : List Char} {name : String} {lines : List (List Char)}
  {follow : List Char → Expansion (List (List Char))} {deps : DependencyMap} {j : Journal}
  {owner : ResourceId} {ownerName : String}

/-- What the directive lines of a file name, in order.  A file that is no text has no lines. -/
def targets (file : SourceFile) : List (List Char) :=
  match file.text with
  | .ok content => (Text.lines content.toList).filterMap directive?
  | .error _ => []

/-- A directive of one file opens the other. -/
def Opens (files : Provider) (includer included : SourceFile) : Prop :=
  ∃ target ∈ targets includer, files (resolve includer.name target) = .ok included

/-- A chain of `n` includes leads from one file to another. -/
inductive Chain (files : Provider) (root : SourceFile) : Nat → SourceFile → Prop where
  | root : Chain files root 0 root
  | step {n : Nat} {includer included : SourceFile} (before : Chain files root n includer)
    (opens : Opens files includer included) : Chain files root (n + 1) included

/-- Nothing stands in the way of expanding a file under a limit. -/
structure Expandable (files : Provider) (limit : Nat) (root : SourceFile) : Prop where
  /-- No chain of includes is longer than the limit. -/
  length_le : ∀ n file, Chain files root n file → n ≤ limit
  /-- Every file that is named can be opened. -/
  opens : ∀ n file, Chain files root n file → ∀ target ∈ targets file,
    ∃ included, files (resolve file.name target) = .ok included
  /-- Every file is a text. -/
  decodes : ∀ n file, Chain files root n file → ∃ content, file.text = .ok content

/-! ### Chains -/

/-- A chain may go on from a file that another one opens. -/
theorem Chain.cons (h : Opens files root includer) (hc : Chain files includer n file) :
    Chain files root (n + 1) file := by
  induction hc with
  | root => exact .step .root h
  | step _ opens ih => exact .step ih opens

/-- A chain begins with the root or with a file that the root opens. -/
theorem chain_succ_iff : Chain files root (n + 1) file ↔
    ∃ includer, Opens files root includer ∧ Chain files includer n file := by
  constructor
  · intro h
    induction n generalizing file with
    | zero =>
      cases h with | step before opens => ?_
      cases before
      exact ⟨file, opens, .root⟩
    | succ n ih =>
      cases h with | step before opens => ?_
      obtain ⟨includer, hfirst, hbefore⟩ := ih before
      exact ⟨includer, hfirst, .step hbefore opens⟩
  · rintro ⟨includer, hfirst, hc⟩
    exact hc.cons hfirst

/-- A chain of no steps stays at its file. -/
theorem chain_zero_iff : Chain files root 0 file ↔ file = root := by
  constructor
  · intro h
    cases h
    rfl
  · rintro rfl
    exact .root

/-- What holds of the root and beyond every file that it opens holds along every chain. -/
theorem forall_chain {P : Nat → SourceFile → Prop} (hroot : P 0 root)
    (hbeyond : ∀ includer, Opens files root includer → ∀ n file, Chain files includer n file →
      P (n + 1) file) : ∀ n file, Chain files root n file → P n file := by
  intro n file hc
  cases n with
  | zero => rwa [chain_zero_iff.mp hc]
  | succ n =>
    obtain ⟨includer, hfirst, hc⟩ := chain_succ_iff.mp hc
    exact hbeyond includer hfirst n file hc

/-- No chain leaves a file without directives. -/
theorem eq_root_of_chain (hnone : targets root = []) :
    ∀ n file, Chain files root n file → n = 0 ∧ file = root := by
  refine forall_chain ⟨rfl, rfl⟩ ?_
  rintro includer ⟨target, ht, -⟩
  rw [hnone] at ht
  cases ht

/-- What an expandable file opens is expandable with one level less. -/
theorem Expandable.of_opens (h : Expandable files (limit + 1) root) (hopens : Opens files root file) :
    Expandable files limit file where
  length_le := fun n last hc => Nat.le_of_succ_le_succ (h.length_le (n + 1) last (hc.cons hopens))
  opens := fun n last hc => h.opens (n + 1) last (hc.cons hopens)
  decodes := fun n last hc => h.decodes (n + 1) last (hc.cons hopens)

/-- With no levels left, a file has to be a text without directives. -/
theorem expandable_zero_iff : Expandable files 0 root ↔
    (∃ content, root.text = .ok content) ∧ targets root = [] := by
  constructor
  · intro h
    refine ⟨h.decodes 0 root .root, List.eq_nil_iff_forall_not_mem.mpr fun target ht => ?_⟩
    -- What a directive opens would be the end of a chain of one include.
    obtain ⟨included, hopen⟩ := h.opens 0 root .root target ht
    have hlong := h.length_le 1 included (.step .root ⟨target, ht, hopen⟩)
    exact absurd hlong (by decide)
  · rintro ⟨hdecodes, hnone⟩
    have honly : ∀ n file, Chain files root n file → n = 0 ∧ file = root := eq_root_of_chain hnone
    refine ⟨fun n file hc => Nat.le_of_eq (honly n file hc).1, fun n file hc target ht => ?_,
      fun n file hc => ?_⟩
    · rw [(honly n file hc).2, hnone] at ht
      cases ht
    · rw [(honly n file hc).2]
      exact hdecodes

/-- With a level left, what the directives name has to be expandable with one level less. -/
theorem expandable_succ_iff : Expandable files (limit + 1) root ↔
    (∃ content, root.text = .ok content) ∧ ∀ target ∈ targets root,
      ∃ included, files (resolve root.name target) = .ok included ∧
        Expandable files limit included := by
  constructor
  · intro h
    refine ⟨h.decodes 0 root .root, fun target ht => ?_⟩
    obtain ⟨included, hopen⟩ := h.opens 0 root .root target ht
    exact ⟨included, hopen, h.of_opens ⟨target, ht, hopen⟩⟩
  · rintro ⟨hdecodes, htargets⟩
    have hbelow : ∀ includer, Opens files root includer → Expandable files limit includer := by
      rintro includer ⟨target, ht, hopen⟩
      obtain ⟨included, hopen', hincluded⟩ := htargets target ht
      cases hopen.symm.trans hopen'
      exact hincluded
    refine ⟨forall_chain (Nat.zero_le _) ?_, forall_chain ?_ ?_, forall_chain hdecodes ?_⟩
    · exact fun includer hfirst n file hc => Nat.succ_le_succ ((hbelow includer hfirst).length_le n file hc)
    · exact fun target ht => (htargets target ht).imp fun _ => And.left
    · exact fun includer hfirst => (hbelow includer hfirst).opens
    · exact fun includer hfirst => (hbelow includer hfirst).decodes

/-! ### Whether an expansion succeeds -/

/-- Success does not depend on what is made of the result. -/
theorem succeeds_iff_of_result {α β : Type} {x : Expansion α} {y : Expansion β} {f : α → β}
    (h : y.result = x.result.map f) : y.Succeeds ↔ x.Succeeds := by
  unfold Succeeds
  rw [h]
  cases x.result <;> simp [Except.map]

/-- Lines expand exactly when all their directives do. -/
theorem succeeds_expandLines : (expandLines follow lines).Succeeds ↔
    ∀ target ∈ lines.filterMap directive?, (follow target).Succeeds := by
  induction lines with
  | nil => exact ⟨fun _ _ ht => (List.not_mem_nil ht).elim, fun _ => ⟨_, rfl⟩⟩
  | cons line rest ih =>
    cases hline : directive? line with
    | none =>
      rw [List.filterMap_cons_none hline, ← ih]
      exact succeeds_iff_of_result (result_expandLines_of_none hline)
    | some target =>
      rw [List.filterMap_cons_some hline, List.forall_mem_cons, ← ih]
      cases htarget : (follow target).result with
      | error error =>
        have hrest : (expandLines follow (line :: rest)).result = .error error :=
          result_expandLines_of_error hline htarget
        simp [Succeeds, hrest, htarget]
      | ok expanded =>
        rw [succeeds_iff_of_result (result_expandLines_of_ok hline htarget)]
        exact (and_iff_right ⟨expanded, htarget⟩).symm

/-- A file can be expanded if it is a text, and each of its directives can be followed. -/
theorem succeeds_expandFile : (expandFile follow file).Succeeds ↔
    (∃ content, file.text = .ok content) ∧ ∀ target ∈ targets file, (follow target).Succeeds := by
  cases htext : file.text with
  | error error => simp [Succeeds, result_expandFile_of_error htext]
  | ok content =>
    have hsame : (expandFile follow file).Succeeds ↔
        (expandLines follow (Text.lines content.toList)).Succeeds := by
      rw [Succeeds, result_expandFile_of_ok htext, Succeeds]
    rw [hsame, succeeds_expandLines]
    simp [targets, htext]

/-- A directive can be followed if it opens a file, and that file can be expanded. -/
theorem succeeds_followTarget : (followTarget files limit levels file target).Succeeds ↔
    ∃ included, files (resolve file.name target) = .ok included ∧
      (expand files limit levels included).Succeeds := by
  cases hopen : files (resolve file.name target) with
  | error cause => simp [Succeeds, result_followTarget_of_error hopen]
  | ok included => simp [Succeeds, result_followTarget_of_ok hopen]

/-- **Success.**  An expansion succeeds exactly when nothing stands in its way. -/
theorem succeeds_expand :
    (expand files limit levels file).Succeeds ↔ Expandable files levels file := by
  -- What is named by a file is expanded with one level less.
  induction levels generalizing file with
  | zero =>
    rw [expandable_zero_iff, expand, succeeds_expandFile, List.eq_nil_iff_forall_not_mem]
    refine and_congr_right fun _ => forall₂_congr fun target _ => ?_
    exact iff_of_false (fun ⟨_, h⟩ => by cases h) not_false
  | succ levels ih =>
    rw [expandable_succ_iff, expand_succ, succeeds_expandFile]
    refine and_congr_right fun _ => forall₂_congr fun target _ => ?_
    rw [succeeds_followTarget]
    exact exists_congr fun included => and_congr_right fun _ => ih

/-! ### The files that are entered -/

/-- The lines of a file enter what their directives lead to. -/
theorem mem_entered_expandLines (hok : (expandLines follow lines).Succeeds) :
    name ∈ (expandLines follow lines).entered ↔
      ∃ target ∈ lines.filterMap directive?, name ∈ (follow target).entered := by
  induction lines with
  | nil => simp [expandLines, entered, pure]
  | cons line rest ih =>
    rw [expandLines_cons] at hok ⊢
    obtain ⟨expanded, hline, hok⟩ := succeeds_bind.mp hok
    obtain ⟨following, hrest, -⟩ := succeeds_bind.mp hok
    have hnone : (pure (expanded ++ following) : Expansion (List (List Char))).entered = [] := rfl
    rw [entered_bind hline, entered_bind hrest, List.mem_append, hnone, List.append_nil,
      ih ⟨following, hrest⟩]
    cases hd : directive? line with
    | none =>
      rw [List.filterMap_cons_none hd, expandLine, hd]
      simp [entered, pure]
    | some target =>
      rw [List.filterMap_cons_some hd, expandLine, hd]
      simp

/-- A file enters itself and what its directives lead to. -/
theorem mem_entered_expandFile_iff (hok : (expandFile follow file).Succeeds) :
    name ∈ (expandFile follow file).entered ↔
      name = file.name ∨ ∃ target ∈ targets file, name ∈ (follow target).entered := by
  rw [expandFile] at hok ⊢
  obtain ⟨_, htake, hok⟩ := succeeds_bind.mp hok
  obtain ⟨content, htext, hok⟩ := succeeds_bind.mp hok
  replace htext : file.text = .ok content := htext
  have hfirst : (Expansion.take (.entered file.name)).entered = [file.name] := rfl
  have hnone : (Expansion.ofExcept file.text).entered = [] := rfl
  rw [entered_bind htake, entered_bind htext, List.mem_append, List.mem_append, hfirst, hnone,
    mem_entered_expandLines hok, List.mem_singleton]
  simp [targets, htext]

/-- To follow a directive enters what the file does that it opens. -/
theorem entered_followTarget (hopen : files (resolve file.name target) = .ok included) :
    (followTarget files limit levels file target).entered =
      (expand files limit levels included).entered := by
  rw [followTarget_of_ok hopen, entered_bind (a := ()) rfl]
  rfl

/-- **The files of an expansion.**  An expansion that succeeds enters the files to which a chain of
    includes leads, and no others. -/
theorem mem_entered_expand_iff (hok : (expand files limit levels file).Succeeds) :
    name ∈ (expand files limit levels file).entered ↔
      ∃ n last, Chain files file n last ∧ last.name = name := by
  induction levels generalizing file with
  | zero =>
    have hnone := (expandable_zero_iff.mp (succeeds_expand.mp hok)).2
    rw [expand, mem_entered_expandFile_iff hok, hnone]
    constructor
    · rintro (rfl | ⟨_, ht, -⟩)
      · exact ⟨0, file, .root, rfl⟩
      · cases ht
    · rintro ⟨n, last, hc, rfl⟩
      exact .inl (congrArg _ (eq_root_of_chain hnone n last hc).2)
  | succ levels ih =>
    rw [expand_succ] at hok ⊢
    have hbelow := (succeeds_expandFile.mp hok).2
    rw [mem_entered_expandFile_iff hok]
    constructor
    · rintro (rfl | ⟨target, ht, hname⟩)
      · exact ⟨0, file, .root, rfl⟩
      · obtain ⟨included, hopen, hincluded⟩ := succeeds_followTarget.mp (hbelow target ht)
        rw [entered_followTarget hopen, ih hincluded] at hname
        obtain ⟨n, last, hc, hlast⟩ := hname
        exact ⟨n + 1, last, hc.cons ⟨target, ht, hopen⟩, hlast⟩
    · rintro ⟨n, last, hc, rfl⟩
      cases n with
      | zero => exact .inl (congrArg _ (chain_zero_iff.mp hc))
      | succ n =>
        obtain ⟨first, ⟨target, ht, hopen⟩, hc⟩ := chain_succ_iff.mp hc
        obtain ⟨included, hopen', hincluded⟩ := succeeds_followTarget.mp (hbelow target ht)
        cases hopen.symm.trans hopen'
        refine .inr ⟨target, ht, ?_⟩
        rw [entered_followTarget hopen, ih hincluded]
        exact ⟨n, last, hc, rfl⟩

/-- If an expansion succeeds over some files and not over others, they differ in one that was entered. -/
theorem exists_changed {other : Provider} (hnamed : files.Named)
    (hok : (flatten files limit root).Succeeds) (hroot : files name = .ok root)
    (hbroken : ∀ file, other name = .ok file → ¬ (flatten other limit file).Succeeds) :
    ∃ name ∈ (flatten files limit root).entered, other name ≠ files name := by
  refine Classical.byContradiction fun hnone => ?_
  have hagree : ∀ name ∈ (flatten files limit root).entered, other name = files name :=
    fun name hn => Classical.byContradiction fun hne => hnone ⟨name, hn, hne⟩
  have hself : name ∈ (flatten files limit root).entered :=
    (mem_entered_expand_iff hok).mpr ⟨0, root, .root, hnamed name root hroot⟩
  refine hbroken root ((hagree name hself).trans hroot) ?_
  rwa [flatten_congr hnamed hok hagree]

/-! ### For an owner -/

/-- The text of an expansion is made of its lines. -/
theorem text_eq_ok_iff {x : Expansion (List (List Char))} {code : String} : x.text = .ok code ↔
    x.result.map Text.joinLines = .ok code.toList := by
  unfold text
  cases x.result with
  | error error => simp [Except.map]
  | ok expanded =>
    simp only [Except.map, Except.ok.injEq]
    exact ⟨fun h => by rw [← h, String.toList_ofList], fun h => by rw [h, String.ofList_toList]⟩

/-- Under a logger that does not break down, an expansion for an owner ends as the expansion does. -/
theorem ending_resolveFor_of_steady (hsteady : services.logger.Steady) :
    ((resolveFor owner ownerName limit file).run services deps j).ending =
      match (flatten services.files limit file).text with
      | .ok code => .done code
      | .error error => .failed error := by
  have hcalm : (resolveFor owner ownerName limit file).Ensures services
      (fun ending _ _ => ending.isUnwound = false) deps j :=
    unbroken_resolveFor hsteady owner ownerName limit file deps j
  have hends : (resolveFor owner ownerName limit file).Ensures services (fun ending _ _ => ending =
      match (flatten services.files limit file).text with
      | .ok code => .done code
      | .error error => .failed error) deps j := by
    refine (hcalm.and ensures_resolveFor).mono ?_
    rintro _ _ _ ⟨hcalm, -, htext | htext | _⟩
    · rw [htext]
    · rw [htext]
    · cases hcalm
  exact hends

/-- **Flattening is expansion.**  Under a logger that does not break down, an expansion for an owner ends
    with a text exactly when nothing stands in its way: no chain of includes from the file is longer than
    the limit, every file that is named opens, and every file is a text.  The text is then the one in
    which each directive line is replaced by the expansion of what it names.  The owner depends on the
    files to which a chain leads, its own apart, besides what it depended on; nobody else's dependencies
    change. -/
theorem resolves_to_expansion (hsteady : services.logger.Steady) :
    let out := (resolveFor owner ownerName limit file).run services deps j
    ((∃ text, out.ending = .done text) ↔ Expandable services.files limit file) ∧
      ∀ text, out.ending = .done text → Expands services.files (.file file) text.toList ∧
        ∀ id name, out.state.Depends id name ↔ deps.Depends id name ∨ id = owner ∧ name ≠ ownerName ∧
          ∃ n included, Chain services.files file n included ∧ included.name = name := by
  intro out
  have hending : out.ending = _ := ending_resolveFor_of_steady hsteady
  have hdone (text : String) :
      out.ending = .done text ↔ (flatten services.files limit file).text = .ok text := by
    rw [hending]
    cases (flatten services.files limit file).text <;> simp
  constructor
  · have hsucceeds : (expand services.files limit limit file).Succeeds ↔
        Expandable services.files limit file := succeeds_expand
    rw [← hsucceeds]
    constructor
    · rintro ⟨text, htext⟩
      exact succeeds_of_text ((hdone text).mp htext)
    · rintro ⟨expanded, hresult⟩
      refine ⟨String.ofList (Text.joinLines expanded), (hdone _).mpr ?_⟩
      rw [Expansion.text, flatten, hresult]
      rfl
  · intro text htext
    obtain ⟨hok, hstate⟩ := resolveFor_of_done htext
    obtain ⟨deepest, hruns⟩ := exists_runs_expand services.files file (Nat.zero_add limit)
    refine ⟨hruns.expands (text_eq_ok_iff.mp ((hdone text).mp htext)), fun id name => ?_⟩
    rw [hstate, DependencyMap.depends_registerAll, mem_others, flatten, mem_entered_expand_iff hok,
      and_comm (a := ∃ n last, _), or_comm]

/-- A file whose include lies in another directory and includes a third one beside it. -/
def nestedFiles : MemoryStore :=
  (({} : MemoryStore).insert "Lib/Lighting" "#include <Fog>\nlighting".toUTF8).insert
    "Lib/Fog" "fog".toUTF8

/-- The includes of the outermost file nest two levels deep, as deep as the limit allows. -/
theorem resolves_to_expansion_nested :
    let main : SourceFile := .ofText "Main" "#include \"Lib/Lighting\"\nmain"
    let out := (resolveFor .standalone "Main" 2 main).run { files := nestedFiles.read } {} {}
    out.ending = .done "fog\n\nlighting\n\nmain\n\n" ∧ Expandable nestedFiles.read 2 main ∧
      Expands nestedFiles.read (.file main) "fog\n\nlighting\n\nmain\n\n".toList ∧
      (out.state.Depends .standalone "Lib/Fog" ↔
        ∃ n included, Chain nestedFiles.read main n included ∧ included.name = "Lib/Fog") := by
  intro main out
  have hdone : out.ending = .done "fog\n\nlighting\n\nmain\n\n" := by decide +kernel
  obtain ⟨hiff, htext⟩ := @resolves_to_expansion { files := nestedFiles.read } 2 main {} {} .standalone
    "Main" Logger.steady_keeping
  obtain ⟨hexpands, hdepends⟩ := htext _ hdone
  refine ⟨hdone, hiff.mp ⟨_, hdone⟩, hexpands, (hdepends .standalone "Lib/Fog").trans ?_⟩
  have hnone : ¬ ({} : DependencyMap).Depends .standalone "Lib/Fog" := by
    simp [DependencyMap.Depends, DependencyMap.ownersOf]
  simp [hnone]

end ShaderKit.Include
