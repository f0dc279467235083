import ShaderKit.Proofs.Reading

namespace ShaderKit.Include

open Text (joinLines)

/-!
# How deep an expansion nests

An expansion is told here as it goes along: it takes a file line by line, opens what a directive line
names, and has only one guard, which compares the depth that it has come to with a limit.  Nothing in
this account says that the expansion comes to an end, or that it stays above the limit; both are proved.

* `Task`              — what there is to do: a file, the rest of its lines, or what a directive names
* `Runs`              — a task is carried out, with its result and the greatest depth on the way
* `Runs.deepest_le`   — no file is taken at a depth beyond the limit
* `exists_runs_expand` — every expansion is carried out, whatever its files hold
* `Expands`           — the text that takes the place of a task, with nothing said about depth
* `Runs.expands`      — a run that succeeds ends with that text
-/

/-- What there is to do in an expansion. -/
inductive Task where
  | file (file : SourceFile)
  /-- The lines of a file that are still to be taken. -/
  | lines (includer : String) (lines : List (List Char))
  /-- What a directive line of a file names. -/
  | directive (includer : String) (target : List Char)

/-- A task is carried out at a depth of nested directives: what it comes to, and the greatest depth at
    which a file is taken on the way.  An empty line ends each file, and the first error ends it all. -/
inductive Runs (files : Provider) (limit : Nat) :
    Nat → Task → Except Error (List Char) → Nat → Prop where
  | undecodable {depth : Nat} {file : SourceFile} {error : Error} (text : file.text = .error error) :
    Runs files limit depth (.file file) (.error error) depth
  | decoded {depth deepest : Nat} {file : SourceFile} {content : String}
    {result : Except Error (List Char)} (text : file.text = .ok content)
    (inside : Runs files limit depth (.lines file.name (Text.lines content.toList)) result deepest) :
    Runs files limit depth (.file file) result deepest
  | ended {depth : Nat} {includer : String} :
    Runs files limit depth (.lines includer []) (.ok ['\n']) depth
  | copied {depth deepest : Nat} {includer : String} {line : List Char} {rest : List (List Char)}
    {result : Except Error (List Char)} (plain : directive? line = none)
    (following : Runs files limit depth (.lines includer rest) result deepest) :
    Runs files limit depth (.lines includer (line :: rest)) (result.map (line ++ '\n' :: ·)) deepest
  | broken {depth deepest : Nat} {includer : String} {line target : List Char}
    {rest : List (List Char)} {error : Error} (named : directive? line = some target)
    (inside : Runs files limit depth (.directive includer target) (.error error) deepest) :
    Runs files limit depth (.lines includer (line :: rest)) (.error error) deepest
  | replaced {depth deepest deepest' : Nat} {includer : String} {line target inner : List Char}
    {rest : List (List Char)} {result : Except Error (List Char)}
    (named : directive? line = some target)
    (inside : Runs files limit depth (.directive includer target) (.ok inner) deepest)
    (following : Runs files limit depth (.lines includer rest) result deepest') :
    Runs files limit depth (.lines includer (line :: rest)) (result.map (inner ++ ·))
      (max deepest deepest')
  /-- The guard: the limit is compared before the file is opened. -/
  | exceeded {depth : Nat} {includer : String} {target : List Char} (deep : depth + 1 > limit) :
    Runs files limit depth (.directive includer target)
      (.error (.includeDepthExceeded (resolve includer target) limit)) depth
  | missing {depth : Nat} {includer : String} {target : List Char} {cause : Error}
    (shallow : ¬ depth + 1 > limit) (absent : files (resolve includer target) = .error cause) :
    Runs files limit depth (.directive includer target)
      (.error (.includeNotFound (resolve includer target) includer)) depth
  | opened {depth deepest : Nat} {includer : String} {target : List Char} {file : SourceFile}
    {result : Except Error (List Char)} (shallow : ¬ depth + 1 > limit)
    (found : files (resolve includer target) = .ok file)
    (inside : Runs files limit (depth + 1) (.file file) result deepest) :
    Runs files limit depth (.directive includer target) result deepest

variable {files : Provider} {limit levels depth deepest : Nat} {file : SourceFile} {task : Task}
  {includer : String} {result : Except Error (List Char)}
  {follow : List Char → Expansion (List (List Char))}

/-- **The depth of a run.**  No file is taken at a depth beyond the limit. -/
theorem Runs.deepest_le (h : Runs files limit depth task result deepest) (hdepth : depth ≤ limit) :
    deepest ≤ limit := by
  induction h with
  | undecodable _ => exact hdepth
  | decoded _ _ ih => exact ih hdepth
  | ended => exact hdepth
  | copied _ _ ih => exact ih hdepth
  | broken _ _ ih => exact ih hdepth
  | replaced _ _ _ ihinside ihfollowing => exact Nat.max_le.mpr ⟨ihinside hdepth, ihfollowing hdepth⟩
  | exceeded _ => exact hdepth
  | missing _ _ => exact hdepth
  | opened shallow _ _ ih =>
    -- The guard has let one more level pass.
    exact ih (by omega)

/-! ### Every expansion is a run -/

namespace Expansion

variable {α β : Type} {x : Expansion α} {f : α → Expansion β}

/-- After a step that succeeds, the result is that of the rest. -/
theorem result_bind_of_ok {a : α} (h : x.result = .ok a) : (x >>= f).result = (f a).result := by
  simp [bind, h]

/-- A step that fails has the last word. -/
theorem result_bind_of_error {error : Error} (h : x.result = .error error) :
    (x >>= f).result = .error error := by
  simp [bind, h]

end Expansion

open Expansion

/-- A line that is no directive is copied. -/
theorem result_expandLines_of_none {line : List Char} {rest : List (List Char)}
    (h : directive? line = none) :
    (expandLines follow (line :: rest)).result = (expandLines follow rest).result.map (line :: ·) := by
  rw [expandLines_cons, expandLine, h, result_bind_of_ok rfl]
  cases hrest : (expandLines follow rest).result with
  | error error => rw [result_bind_of_error hrest]; rfl
  | ok following => rw [result_bind_of_ok hrest]; rfl

/-- A directive that cannot be followed ends the expansion of the whole file. -/
theorem result_expandLines_of_error {line target : List Char} {rest : List (List Char)}
    {error : Error} (h : directive? line = some target)
    (herror : (follow target).result = .error error) :
    (expandLines follow (line :: rest)).result = .error error := by
  rw [expandLines_cons, expandLine, h, result_bind_of_error herror]

/-- A directive that is followed is replaced by what it leads to, and the rest of the lines comes after
    it. -/
theorem result_expandLines_of_ok {line target : List Char} {rest expanded : List (List Char)}
    (h : directive? line = some target) (hok : (follow target).result = .ok expanded) :
    (expandLines follow (line :: rest)).result =
      (expandLines follow rest).result.map (expanded ++ ·) := by
  rw [expandLines_cons, expandLine, h, result_bind_of_ok hok]
  cases hrest : (expandLines follow rest).result with
  | error error => rw [result_bind_of_error hrest]; rfl
  | ok following => rw [result_bind_of_ok hrest]; rfl

/-- A file that is no text cannot be expanded. -/
theorem result_expandFile_of_error {error : Error} (h : file.text = .error error) :
    (expandFile follow file).result = .error error := by
  rw [expandFile, result_bind_of_ok rfl]
  exact result_bind_of_error h

/-- A file that is text is expanded line by line. -/
theorem result_expandFile_of_ok {content : String} (h : file.text = .ok content) :
    (expandFile follow file).result =
      (expandLines follow (Text.lines content.toList)).result := by
  rw [expandFile, result_bind_of_ok rfl]
  exact result_bind_of_ok h

/-- What a directive of a file names, expanded with some levels left. -/
def followTarget (files : Provider) (limit levels : Nat) (file : SourceFile) (target : List Char) :
    Expansion (List (List Char)) := do
  let name := resolve file.name target
  let included ← .ofExcept ((files name).mapError fun _ => .includeNotFound name file.name)
  .take (.followed file.name name)
  expand files limit levels included

/-- With a level to spare, the directives of a file are followed one level down. -/
theorem expand_succ : expand files limit (levels + 1) file =
    expandFile (followTarget files limit levels file) file := rfl

/-- A name that no file answers to is reported with the file that it stands in. -/
theorem result_followTarget_of_error {target : List Char} {cause : Error}
    (h : files (resolve file.name target) = .error cause) :
    (followTarget files limit levels file target).result =
      .error (.includeNotFound (resolve file.name target) file.name) := by
  rw [followTarget, h]
  exact result_bind_of_error rfl

/-- A name that a file answers to leads to the expansion of that file, and the step is kept. -/
theorem followTarget_of_ok {target : List Char} {included : SourceFile}
    (h : files (resolve file.name target) = .ok included) :
    followTarget files limit levels file target =
      (Expansion.take (.followed file.name (resolve file.name target)) >>= fun _ =>
        expand files limit levels included) := by
  rw [followTarget, h]
  rfl

/-- Keeping the step does not change what comes out. -/
theorem result_followTarget_of_ok {target : List Char} {included : SourceFile}
    (h : files (resolve file.name target) = .ok included) :
    (followTarget files limit levels file target).result =
      (expand files limit levels included).result := by
  rw [followTarget_of_ok h]
  exact result_bind_of_ok rfl

/-- Lines are taken one after the other, if each directive among them can be. -/
theorem exists_runs_expandLines (h : ∀ target, ∃ deepest, Runs files limit depth
      (.directive includer target) ((follow target).result.map joinLines) deepest)
    (lines : List (List Char)) : ∃ deepest, Runs files limit depth (.lines includer lines)
      ((expandLines follow lines).result.map joinLines) deepest := by
  induction lines with
  | nil => exact ⟨depth, .ended⟩
  | cons line rest ih =>
    obtain ⟨deepest, hrest⟩ := ih
    cases hline : directive? line with
    | none =>
      rw [result_expandLines_of_none hline]
      refine ⟨deepest, ?_⟩
      have hcopied := Runs.copied hline hrest
      cases hresult : (expandLines follow rest).result with
      | error error => rwa [hresult] at hcopied
      | ok following =>
        rw [hresult] at hcopied
        simpa [Except.map] using hcopied
    | some target =>
      obtain ⟨inside, htarget⟩ := h target
      cases hresult : (follow target).result with
      | error error =>
        rw [hresult] at htarget
        rw [result_expandLines_of_error hline hresult]
        exact ⟨inside, .broken hline htarget⟩
      | ok expanded =>
        rw [hresult] at htarget
        rw [result_expandLines_of_ok hline hresult]
        refine ⟨max inside deepest, ?_⟩
        have hreplaced := Runs.replaced hline htarget hrest
        cases hfollowing : (expandLines follow rest).result with
        | error error => rwa [hfollowing] at hreplaced
        | ok following =>
          rw [hfollowing] at hreplaced
          simpa [Except.map, Text.joinLines_append] using hreplaced

/-- A file is carried out once everything that it names is. -/
theorem exists_runs_expandFile (h : ∀ target, ∃ deepest, Runs files limit depth
      (.directive file.name target) ((follow target).result.map joinLines) deepest) :
    ∃ deepest, Runs files limit depth (.file file)
      ((expandFile follow file).result.map joinLines) deepest := by
  cases htext : file.text with
  | error error =>
    rw [result_expandFile_of_error htext]
    exact ⟨depth, .undecodable htext⟩
  | ok content =>
    rw [result_expandFile_of_ok htext]
    obtain ⟨deepest, hlines⟩ := exists_runs_expandLines h (Text.lines content.toList)
    exact ⟨deepest, .decoded htext hlines⟩

/-- **Every expansion comes to an end.**  With as many levels left as the limit allows at a depth, the
    expansion of a file is what a run at that depth comes to. -/
theorem exists_runs_expand (files : Provider) (file : SourceFile) (h : depth + levels = limit) :
    ∃ deepest, Runs files limit depth (.file file)
      ((expand files limit levels file).result.map joinLines) deepest := by
  -- One level further down, the depth is greater by one.
  induction levels generalizing depth file with
  | zero => exact exists_runs_expandFile fun target => ⟨depth, .exceeded (by omega)⟩
  | succ levels ih =>
    rw [expand_succ]
    refine exists_runs_expandFile fun target => ?_
    cases hopen : files (resolve file.name target) with
    | error cause =>
      rw [result_followTarget_of_error hopen]
      exact ⟨depth, .missing (by omega) hopen⟩
    | ok included =>
      rw [result_followTarget_of_ok hopen]
      obtain ⟨deepest, hincluded⟩ := ih included (show depth + 1 + levels = limit by omega)
      exact ⟨deepest, .opened (by omega) hopen hincluded⟩

/-! ### The text -/

/-- The text that takes the place of a task: a line that is no directive stands for itself, a directive
    line is replaced by what it names, and each file ends with an empty line. -/
inductive Expands (files : Provider) : Task → List Char → Prop where
  | file {file : SourceFile} {content : String} {text : List Char} (decoded : file.text = .ok content)
    (inside : Expands files (.lines file.name (Text.lines content.toList)) text) :
    Expands files (.file file) text
  | nil {includer : String} : Expands files (.lines includer []) ['\n']
  | line {includer : String} {line text : List Char} {rest : List (List Char)}
    (plain : directive? line = none) (following : Expands files (.lines includer rest) text) :
    Expands files (.lines includer (line :: rest)) (line ++ '\n' :: text)
  | included {includer : String} {line target inner text : List Char} {rest : List (List Char)}
    (named : directive? line = some target) (inside : Expands files (.directive includer target) inner)
    (following : Expands files (.lines includer rest) text) :
    Expands files (.lines includer (line :: rest)) (inner ++ text)
  | directive {includer : String} {target text : List Char} {file : SourceFile}
    (found : files (resolve includer target) = .ok file) (inside : Expands files (.file file) text) :
    Expands files (.directive includer target) text

/-- A run that succeeds ends with the text that takes the place of its task. -/
theorem Runs.expands (h : Runs files limit depth task result deepest) {text : List Char}
    (hok : result = .ok text) : Expands files task text := by
  induction h generalizing text with
  | undecodable _ => cases hok
  | decoded decoded _ ih => exact .file decoded (ih hok)
  | ended => cases hok; exact .nil
  | @copied _ _ _ _ _ result plain _ ih =>
    cases result with
    | error error => cases hok
    | ok following => cases hok; exact .line plain (ih rfl)
  | broken _ _ _ => cases hok
  | @replaced _ _ _ _ _ _ _ _ result named _ _ ihinside ihfollowing =>
    cases result with
    | error error => cases hok
    | ok following => cases hok; exact .included named (ihinside rfl) (ihfollowing rfl)
  | exceeded _ => cases hok
  | missing _ _ => cases hok
  | opened _ found _ ih => exact .directive found (ih hok)

/-- The files decide the text. -/
theorem Expands.unique {text text' : List Char} (h : Expands files task text)
    (h' : Expands files task text') : text = text' := by
  induction h generalizing text' with
  | file decoded _ ih =>
    cases h' with | file decoded' inside' => ?_
    cases decoded.symm.trans decoded'
    exact ih inside'
  | nil => cases h'; rfl
  | line plain _ ih =>
    cases h' with
    | line _ following' => rw [ih following']
    | included named' _ _ => cases plain.symm.trans named'
  | included named _ _ ihinside ihfollowing =>
    cases h' with
    | line plain' _ => cases plain'.symm.trans named
    | included named' inside' following' =>
      cases named.symm.trans named'
      rw [ihinside inside', ihfollowing following']
  | directive found _ ih =>
    cases h' with | directive found' inside' => ?_
    cases found.symm.trans found'
    exact ih inside'

end ShaderKit.Include
