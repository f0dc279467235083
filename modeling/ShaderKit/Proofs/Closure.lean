import ShaderKit.Proofs.Inclusion

namespace ShaderKit

/-!
# Expanded texts are closed

The text of an expansion is put together from the lines of many files, and its own lines are not quite
the same: a line that ends with a carriage return loses it when the text is split again.  That makes no
line a directive, so an expanded text is expanded to itself:

* `Text.lines_joinLines`     — the lines of a text that was made of lines
* `directive?_withoutReturn` — a carriage return at its end does not keep a line from being a directive
* `Closed`                   — a text of whole lines, none of which is a directive
* `Expands.closed`           — expanding closes, for each of its tasks
* `flatten_of_plain`         — a text without directives is expanded in one step
* `expanded_text_is_closed`  — what an expansion returns has no directives, and needs no other file
-/

namespace Text

variable {s l : List Char} {ls : List (List Char)}

/-- The line without a carriage return at its end. -/
def withoutReturn (l : List Char) : List Char := (dropReturn l.reverse).reverse

theorem mem_of_mem_dropReturn {c : Char} (h : c ∈ dropReturn l) : c ∈ l := by
  unfold dropReturn at h
  split at h
  · exact List.mem_cons_of_mem _ h
  · exact h

theorem not_mem_of_mem_linesFrom {line : List Char} (hline : '\n' ∉ line) (h : l ∈ linesFrom line s) :
    '\n' ∉ l := by
  fun_induction linesFrom line s with
  | case1 => simp at h
  | case2 line hne => simpa [List.mem_singleton.mp h] using hline
  | case3 line s ih =>
    rcases List.mem_cons.mp h with rfl | h
    · exact fun hmem => hline (mem_of_mem_dropReturn (List.mem_reverse.mp hmem))
    · exact ih (by simp) h
  | case4 line c s hc ih => exact ih (by simp [hline, Ne.symm hc]) h

/-- No line has a line feed. -/
theorem not_mem_of_mem_lines (h : l ∈ lines s) : '\n' ∉ l :=
  not_mem_of_mem_linesFrom (by simp) h

theorem withoutReturn_or (l : List Char) :
    withoutReturn l = l ∨ l = withoutReturn l ++ ['\r'] := by
  unfold withoutReturn dropReturn
  split
  · rename_i line hline
    exact .inr (by rw [← List.reverse_cons, ← hline, List.reverse_reverse])
  · exact .inl (List.reverse_reverse l)

/-- Lines that are put together are told apart again.  A carriage return at the end of a line is taken
    for a part of the line end. -/
theorem lines_joinLines (h : ∀ l ∈ ls, '\n' ∉ l) : lines (joinLines ls) = ls.map withoutReturn := by
  induction ls with
  | nil => rfl
  | cons l ls ih =>
    obtain ⟨hl, hls⟩ := List.forall_mem_cons.mp h
    rw [joinLines_cons, lines, linesFrom_append_newline hl, ih hls, List.append_nil]
    rfl

end Text

namespace Include

open Text (joinLines lines withoutReturn)

/-- A line is a directive when it begins with the keyword, and what follows ends the keyword. -/
theorem isSome_directive? {line : List Char} : (directive? line).isSome = true ↔
    keyword <+: line ∧ (line.drop keyword.length).head?.all endsKeyword = true := by
  rw [directive?, ← List.isPrefixOf_iff_prefix]
  by_cases hword : keyword.isPrefixOf line = true <;> simp [hword]

/-- A carriage return at its end makes no line a directive, nor keeps it from being one. -/
theorem directive?_withoutReturn {line : List Char} (h : directive? line = none) :
    directive? (withoutReturn line) = none := by
  rcases Text.withoutReturn_or line with hsame | hreturn
  · rw [hsame, h]
  -- A directive would be one with the carriage return behind it, too.
  rw [← Option.not_isSome_iff_eq_none]
  intro hsome
  obtain ⟨hword, hends⟩ := isSome_directive?.mp hsome
  have hline : (directive? line).isSome = true := by
    rw [hreturn, isSome_directive?, List.drop_append_of_le_length hword.length_le, List.head?_append]
    refine ⟨hword.trans (List.prefix_append _ _), ?_⟩
    cases hrest : ((withoutReturn line).drop keyword.length).head? with
    | none => decide
    | some c => simpa [hrest] using hends
  simp [h] at hline

/-- The text is made of whole lines, and none of them is a directive. -/
def Closed (text : List Char) : Prop :=
  ∃ ls, text = joinLines ls ∧ ∀ l ∈ ls, '\n' ∉ l ∧ directive? l = none

theorem closed_newline : Closed ['\n'] := ⟨[[]], rfl, by simp [directive?]; decide⟩

theorem Closed.append {text text' : List Char} (h : Closed text) (h' : Closed text') :
    Closed (text ++ text') := by
  obtain ⟨ls, rfl, hls⟩ := h
  obtain ⟨ls', rfl, hls'⟩ := h'
  refine ⟨ls ++ ls', (Text.joinLines_append ls ls').symm, fun l hl => ?_⟩
  exact (List.mem_append.mp hl).elim (hls l) (hls' l)

theorem Closed.line {line text : List Char} (h : Closed text) (hline : '\n' ∉ line)
    (hplain : directive? line = none) : Closed (line ++ '\n' :: text) := by
  obtain ⟨ls, rfl, hls⟩ := h
  exact ⟨line :: ls, by simp, List.forall_mem_cons.mpr ⟨⟨hline, hplain⟩, hls⟩⟩

/-- The lines that are still to be taken have no line feeds. -/
def Task.Whole : Task → Prop
  | .lines _ ls => ∀ l ∈ ls, '\n' ∉ l
  | .file _ | .directive .. => True

/-- **Expanding closes.**  By induction on the expansion: each of its tasks leaves whole lines, so that
    no two of them run together where their texts meet. -/
theorem Expands.closed {files : Provider} {task : Task} {text : List Char}
    (h : Expands files task text) (hwhole : task.Whole) : Closed text := by
  induction h with
  | file decoded inside ih => exact ih fun l hl => Text.not_mem_of_mem_lines hl
  | nil => exact closed_newline
  | line plain following ih =>
    obtain ⟨hline, hrest⟩ := List.forall_mem_cons.mp hwhole
    exact (ih hrest).line hline plain
  | included named inside following ihinside ihfollowing =>
    exact (ihinside trivial).append (ihfollowing (List.forall_mem_cons.mp hwhole).2)
  | directive found inside ih => exact ih trivial

/-- A closed text has no directive among its lines, however they were told apart before. -/
theorem Closed.directive?_of_mem_lines {text line : List Char} (h : Closed text)
    (hline : line ∈ lines text) : directive? line = none := by
  obtain ⟨ls, rfl, hls⟩ := h
  rw [Text.lines_joinLines fun l hl => (hls l hl).1] at hline
  obtain ⟨l, hl, rfl⟩ := List.mem_map.mp hline
  exact directive?_withoutReturn (hls l hl).2

/-! ### Expanding again -/

variable {services : Services} {owner : ResourceId} {ownerName : String} {limit : Nat}
  {file : SourceFile} {deps : DependencyMap} {j : Journal} {code : String}

/-- Lines without a directive are copied. -/
theorem expandLines_of_plain (follow : List Char → Expansion (List (List Char)))
    {ls : List (List Char)} (h : ∀ l ∈ ls, directive? l = none) :
    expandLines follow ls = pure (ls ++ [[]]) := by
  induction ls with
  | nil => rfl
  | cons l ls ih =>
    obtain ⟨hl, hls⟩ := List.forall_mem_cons.mp h
    rw [expandLines_cons, expandLine, hl, ih hls]
    rfl

/-- A text without a directive is expanded in one step, however deep directives may nest. -/
theorem flatten_of_plain (files : Provider) (limit : Nat) (name : String)
    (h : ∀ l ∈ lines code.toList, directive? l = none) :
    flatten files limit (.ofText name code) = ⟨[.entered name], .ok (lines code.toList ++ [[]])⟩ := by
  have hfile (follow : List Char → Expansion (List (List Char))) :
      expandFile follow (.ofText name code) =
        ⟨[.entered name], .ok (lines code.toList ++ [[]])⟩ := by
    rw [expandFile, SourceFile.text_ofText]
    show (Expansion.take (.entered name) >>= fun _ => expandLines follow (lines code.toList)) = _
    rw [expandLines_of_plain follow h]
    rfl
  cases limit with
  | zero => exact hfile _
  | succ limit => exact hfile _

/-- An expansion for an owner that succeeds ends with the text of the expansion. -/
theorem text_of_done
    (h : ((resolveFor owner ownerName limit file).run services deps j).ending = .done code) :
    (flatten services.files limit file).text = .ok code := by
  have hensured : (resolveFor owner ownerName limit file).Ensures services (fun ending _ _ =>
      ending = .done code → (flatten services.files limit file).text = .ok code) deps j := by
    refine ensures_resolveFor.mono ?_
    rintro _ _ _ ⟨-, hresolved⟩ rfl
    cases hresolved with
    | done htext => exact htext
  exact hensured h

/-- **Expanded texts are closed.**  No line of what an expansion returns is a directive, whatever the
    files are, and however deep they include each other.  So the text may be expanded once more, for
    any owner, as a file of its name: no directive may open, no other file is read, nothing is
    registered, and the text comes back with a line feed behind each of its lines and one at the end. -/
theorem expanded_text_is_closed
    (hdone : ((resolveFor owner ownerName limit file).run services deps j).ending = .done code) :
    (∀ line ∈ lines code.toList, directive? line = none) ∧
      ∀ (id : ResourceId) (name : String) (services : Services) (deps : DependencyMap) (j : Journal),
        (flatten services.files 0 (.ofText name code)).steps = [.entered name] ∧
        (resolveFor id name 0 (.ofText name code)).run services deps j =
          ⟨.done (String.ofList (joinLines (lines code.toList) ++ ['\n'])), deps, j⟩ := by
  obtain ⟨deepest, hruns⟩ := exists_runs_expand services.files file (Nat.zero_add limit)
  have hexpands : Expands services.files (.file file) code.toList :=
    hruns.expands (text_eq_ok_iff.mp (text_of_done hdone))
  have hplain : ∀ line ∈ lines code.toList, directive? line = none :=
    fun line hline => (hexpands.closed trivial).directive?_of_mem_lines hline
  refine ⟨hplain, fun id name services deps j => ?_⟩
  rw [run_resolveFor, flatten_of_plain services.files 0 name hplain]
  refine ⟨rfl, ?_⟩
  -- The only step enters the owner's own file, which is not registered.
  have hrun : (carryOut id name ⟨[.entered name], .ok (lines code.toList ++ [[]])⟩).Ensures services
      (fun ending t k => (⟨ending, t, k⟩ : Outcome DependencyMap String) =
        ⟨.done (String.ofList (joinLines (lines code.toList) ++ ['\n'])), deps, j⟩) deps j := by
    simp [carryOut, perform, Expansion.text, Except.map, Text.joinLines_append]
  exact hrun

/-- A text whose lines end with carriage returns, and which includes another. -/
def returnsText : String := "#include \"fog\"\r\ncolor\r\r\n#included\r"

/-- What it includes. -/
def returnsFiles : MemoryStore := ({} : MemoryStore).insert "fog" "fog\r\n".toUTF8

/-- Each expansion takes a carriage return away from the end of a line, and none of the lines becomes a
    directive by that. -/
theorem expanded_text_is_closed_returns :
    let code := "fog\n\ncolor\r\n#included\r\n\n"
    ((resolveFor .standalone "main" 1 (.ofText "main" returnsText)).run
        { files := returnsFiles.read } {} {}).ending = .done code ∧
      (∀ line ∈ lines code.toList, directive? line = none) ∧
      ((resolveFor .standalone "main" 0 (.ofText "main" code)).run {} {} {}).ending =
        .done "fog\n\ncolor\n#included\n\n\n" := by
  have hdone : ((resolveFor .standalone "main" 1 (.ofText "main" returnsText)).run
      { files := returnsFiles.read } {} {}).ending = .done "fog\n\ncolor\r\n#included\r\n\n" := by
    decide +kernel
  obtain ⟨hplain, hagain⟩ := expanded_text_is_closed hdone
  refine ⟨hdone, hplain, ?_⟩
  rw [(hagain .standalone "main" {} {} {}).2]
  decide +kernel

end Include

end ShaderKit
