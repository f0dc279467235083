import ShaderKit.Include.Expansion

namespace ShaderKit

/-!
# What an expansion reads

An expansion opens files as it goes, so its text could depend on any file of the provider.  It does
not: the files that it enters decide everything.

* `Provider.Named`     — an opened file carries the name it was opened by
* `Expansion.Succeeds` — an expansion that came to its end
* `Expansion.others`   — the files that were entered besides the one of the owner
* `expand_congr`       — providers that agree on the files that a successful expansion enters expand
                         alike, step by step
-/

/-- An opened file carries the name by which it was opened. -/
def Provider.Named (files : Provider) : Prop :=
  ∀ name file, files name = .ok file → file.name = name

namespace Include

namespace Expansion

variable {α β : Type} {x : Expansion α} {f : α → Expansion β} {a : α}

/-- The expansion came to its end. -/
def Succeeds (x : Expansion α) : Prop := ∃ a, x.result = .ok a

/-- The files that were entered besides the one of the owner, in order. -/
def others (ownerName : String) (x : Expansion α) : List String :=
  x.entered.filter (· ≠ ownerName)

theorem mem_others {ownerName name : String} :
    name ∈ x.others ownerName ↔ name ∈ x.entered ∧ name ≠ ownerName := by
  simp [others]

/-- What a first expansion entered comes before what the next one enters. -/
theorem entered_bind (h : x.result = .ok a) :
    (x >>= f).entered = x.entered ++ (f a).entered := by
  simp [bind, h, entered]

/-- One expansion after another succeeds exactly when both do. -/
theorem succeeds_bind :
    (x >>= f).Succeeds ↔ ∃ a, x.result = .ok a ∧ (f a).Succeeds := by
  cases h : x.result with
  | error error => simp [Succeeds, bind, h]
  | ok a => simp [Succeeds, bind, h]

/-- A text comes out of an expansion that succeeded. -/
theorem succeeds_of_text {x : Expansion (List (List Char))} {code : String}
    (h : x.text = .ok code) : x.Succeeds := by
  cases hr : x.result with
  | error error => simp [text, hr, Except.map] at h
  | ok lines => exact ⟨lines, hr⟩

end Expansion

open Expansion

variable {files other : Provider} {limit levels : Nat} {file : SourceFile}
  {follow follow' : List Char → Expansion (List (List Char))} {agrees : String → Prop}

/-! ### Line by line -/

/-- The expansion of one line. -/
def expandLine (follow : List Char → Expansion (List (List Char))) (line : List Char) :
    Expansion (List (List Char)) :=
  match directive? line with
  | none => pure [line]
  | some target => follow target

theorem expandLines_cons (line : List Char) (rest : List (List Char)) :
    expandLines follow (line :: rest) = (do
      let expanded ← expandLine follow line
      let following ← expandLines follow rest
      return expanded ++ following) := by
  rw [expandLines, expandLine]
  cases directive? line <;> rfl

/-- Whatever is expanded, the file itself is entered first. -/
theorem mem_entered_expandFile : file.name ∈ (expandFile follow file).entered := by
  rw [expandFile, entered_bind (a := ()) rfl]
  exact List.mem_append_left _ (List.mem_singleton.mpr rfl)

theorem mem_entered_expand : file.name ∈ (expand files limit levels file).entered := by
  cases levels <;> exact mem_entered_expandFile

/-! ### Providers that agree -/

/-- What two ways to follow directives have to share: they agree on a target that the first expands
    with success, through files on which the providers agree. -/
def FollowsAlike (agrees : String → Prop)
    (follow follow' : List Char → Expansion (List (List Char))) : Prop :=
  ∀ target, (follow target).Succeeds → (∀ name ∈ (follow target).entered, agrees name) →
    follow' target = follow target

theorem expandLines_congr (h : FollowsAlike agrees follow follow') {lines : List (List Char)}
    (hok : (expandLines follow lines).Succeeds)
    (hagree : ∀ name ∈ (expandLines follow lines).entered, agrees name) :
    expandLines follow' lines = expandLines follow lines := by
  induction lines with
  | nil => rfl
  | cons line rest ih =>
    -- Both parts succeed, and what either enters is entered by the whole.
    rw [expandLines_cons] at hok hagree
    obtain ⟨expanded, hline, hok⟩ := succeeds_bind.mp hok
    obtain ⟨following, hrest, -⟩ := succeeds_bind.mp hok
    rw [entered_bind hline, entered_bind hrest] at hagree
    have htail := ih ⟨following, hrest⟩ fun name hn => hagree name (by simp [hn])
    have hhead : expandLine follow' line = expandLine follow line := by
      unfold expandLine at hline hagree ⊢
      cases hd : directive? line with
      | none => rfl
      | some target =>
        rw [hd] at hline hagree
        exact h target ⟨expanded, hline⟩ fun name hn => hagree name (List.mem_append_left _ hn)
    rw [expandLines_cons, expandLines_cons, hhead, htail]

theorem expandFile_congr (h : FollowsAlike agrees follow follow')
    (hok : (expandFile follow file).Succeeds)
    (hagree : ∀ name ∈ (expandFile follow file).entered, agrees name) :
    expandFile follow' file = expandFile follow file := by
  unfold expandFile at hok hagree ⊢
  obtain ⟨_, hentered, hok⟩ := succeeds_bind.mp hok
  obtain ⟨text, htext, hok⟩ := succeeds_bind.mp hok
  rw [entered_bind hentered, entered_bind htext] at hagree
  have hlines := expandLines_congr h hok fun name hn => hagree name (by simp [hn])
  -- Both sides decode the same bytes, so they differ in the lines of one text at most.
  have hbind (k : String → Expansion (List (List Char))) :
      (Expansion.ofExcept file.text >>= k) = k text := by
    rw [show file.text = .ok text from htext]
    rfl
  rw [hbind, hbind, hlines]

/-- **The files that are entered decide.**  Providers that agree on the files that a successful
    expansion enters expand alike. -/
theorem expand_congr (hnamed : files.Named)
    (hok : (expand files limit levels file).Succeeds)
    (hagree : ∀ name ∈ (expand files limit levels file).entered, other name = files name) :
    expand other limit levels file = expand files limit levels file := by
  -- One level of files further down, an included file takes the place of the file.
  induction levels generalizing file with
  | zero => rfl
  | succ levels ih =>
    refine expandFile_congr ?_ hok hagree
    intro target hok hagree
    obtain ⟨included, hopen, hok⟩ := succeeds_bind.mp hok
    obtain ⟨_, htake, hok⟩ := succeeds_bind.mp hok
    rw [entered_bind hopen, entered_bind htake] at hagree
    -- The included file is entered under the name it was opened by, so the providers agree on it.
    have hfile : files (resolve file.name target) = .ok included := by
      cases hf : files (resolve file.name target) with
      | error error => rw [hf] at hopen; cases hopen
      | ok found => rw [hf] at hopen; cases hopen; rfl
    have hname : included.name = resolve file.name target := hnamed _ _ hfile
    have hsame : other (resolve file.name target) = files (resolve file.name target) := by
      rw [← hname]
      exact hagree _ (by simp [mem_entered_expand])
    have hbelow := ih hok fun name hn => hagree name (by simp [hn])
    simp only [hsame, hfile]
    show (Expansion.take _ >>= fun _ => expand other limit levels included) =
      (Expansion.take _ >>= fun _ => expand files limit levels included)
    rw [hbelow]

theorem flatten_congr (hnamed : files.Named) (hok : (flatten files limit file).Succeeds)
    (hagree : ∀ name ∈ (flatten files limit file).entered, other name = files name) :
    flatten other limit file = flatten files limit file :=
  expand_congr hnamed hok hagree

end Include

end ShaderKit
