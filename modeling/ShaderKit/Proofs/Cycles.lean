import Mathlib.Data.Finset.Card
import Mathlib.Data.Finset.Range
import ShaderKit.File.Memory
import ShaderKit.Proofs.Inclusion

namespace ShaderKit.Include

/-!
# Cycles of includes

The depth limit is there for cycles: a file that comes back to itself has chains of any length, and no
limit lets all of them pass.  Over files held in memory a limit that is not below their number stops
nothing else, for a longer chain meets some file twice.

* `Cyclic`                 — from some file that a chain leads to, a chain leads back to it
* `Cyclic.not_expandable`  — no limit is enough then
* `chain_of_exceeded`      — what goes beyond a limit has followed a chain of that length
* `cyclic_of_chain`        — a chain through stored files that is not shorter than their number
* `depth_limit_catches_cycles` — both, with the depth of the recursion
-/

open Expansion

variable {services : Services} {files : Provider} {limit levels n m : Nat}
  {file root mid last : SourceFile} {target : List Char} {name : String} {lines : List (List Char)}
  {follow : List Char → Expansion (List (List Char))} {error : Error} {store : MemoryStore}

/-- Some file that a chain of includes leads to reaches itself again. -/
def Cyclic (files : Provider) (root : SourceFile) : Prop :=
  ∃ n file m, Chain files root n file ∧ 0 < m ∧ Chain files file m file

/-! ### Chains of any length -/

theorem Chain.trans (h : Chain files root n mid) (h' : Chain files mid m last) :
    Chain files root (n + m) last := by
  induction h' with
  | root => exact h
  | step _ opens ih => exact .step ih opens

/-- Going round a cycle again and again makes chains as long as one likes. -/
theorem Chain.repeat (h : Chain files file m file) (times : Nat) :
    Chain files file (times * m) file := by
  induction times with
  | zero => rw [Nat.zero_mul]; exact .root
  | succ times ih => rw [Nat.succ_mul]; exact ih.trans h

theorem Cyclic.not_expandable (h : Cyclic files root) (limit : Nat) :
    ¬ Expandable files limit root := by
  obtain ⟨n, file, m, hreach, hpos, hcycle⟩ := h
  intro hexpandable
  have hlong := hexpandable.length_le _ file (hreach.trans (hcycle.repeat (limit + 1)))
  have hgrows : limit + 1 ≤ (limit + 1) * m := Nat.le_mul_of_pos_right _ hpos
  omega

/-! ### Beyond a limit -/

/-- Lines fail to expand because one of their directives does. -/
theorem error_expandLines (h : (expandLines follow lines).result = .error error) :
    ∃ target ∈ lines.filterMap directive?, (follow target).result = .error error := by
  induction lines with
  | nil => cases h
  | cons line rest ih =>
    cases hline : directive? line with
    | none =>
      rw [result_expandLines_of_none hline] at h
      rw [List.filterMap_cons_none hline]
      cases hrest : (expandLines follow rest).result with
      | error cause => exact ih (by rw [hrest] at h ⊢; exact h)
      | ok following => rw [hrest] at h; cases h
    | some target =>
      rw [List.filterMap_cons_some hline]
      cases htarget : (follow target).result with
      | error cause =>
        rw [result_expandLines_of_error hline htarget] at h
        exact ⟨target, List.mem_cons_self, htarget.trans h⟩
      | ok expanded =>
        rw [result_expandLines_of_ok hline htarget] at h
        cases hrest : (expandLines follow rest).result with
        | error cause =>
          obtain ⟨target', ht, herror⟩ := ih (by rw [hrest] at h ⊢; exact h)
          exact ⟨target', List.mem_cons_of_mem _ ht, herror⟩
        | ok following => rw [hrest] at h; cases h

theorem error_expandFile (h : (expandFile follow file).result = .error error) :
    file.text = .error error ∨ ∃ target ∈ targets file, (follow target).result = .error error := by
  cases htext : file.text with
  | error cause =>
    rw [result_expandFile_of_error htext] at h
    cases h
    exact .inl rfl
  | ok content =>
    rw [result_expandFile_of_ok htext] at h
    refine .inr ?_
    simpa [targets, htext] using error_expandLines h

theorem text_ne_exceeded : file.text ≠ .error (.includeDepthExceeded name m) := by
  unfold SourceFile.text
  split <;> simp

/-- What goes beyond the limit has followed a chain of includes through all levels, to a file with a
    directive more. -/
theorem chain_of_exceeded
    (h : (expand files limit levels file).result = .error (.includeDepthExceeded name m)) :
    ∃ last, Chain files file levels last ∧ targets last ≠ [] := by
  induction levels generalizing file with
  | zero =>
    rcases error_expandFile h with htext | ⟨target, ht, -⟩
    · exact (text_ne_exceeded htext).elim
    · exact ⟨file, .root, List.ne_nil_of_mem ht⟩
  | succ levels ih =>
    rw [expand_succ] at h
    rcases error_expandFile h with htext | ⟨target, ht, herror⟩
    · exact (text_ne_exceeded htext).elim
    · cases hopen : files (resolve file.name target) with
      | error cause =>
        rw [result_followTarget_of_error hopen] at herror
        cases herror
      | ok included =>
        rw [result_followTarget_of_ok hopen] at herror
        obtain ⟨last, hc, hlast⟩ := ih herror
        exact ⟨last, hc.cons ⟨target, ht, hopen⟩, hlast⟩

/-! ### Stored files -/

/-- The files along a chain. -/
theorem Chain.exists_path (h : Chain files root n last) : ∃ path : Nat → SourceFile,
    path 0 = root ∧ ∀ k < n, Opens files (path k) (path (k + 1)) := by
  induction n generalizing root with
  | zero => exact ⟨fun _ => root, rfl, fun k hk => absurd hk (Nat.not_lt_zero k)⟩
  | succ n ih =>
    obtain ⟨first, hfirst, hc⟩ := chain_succ_iff.mp h
    obtain ⟨path, hzero, hpath⟩ := ih hc
    refine ⟨fun k => if k = 0 then root else path (k - 1), rfl, fun k hk => ?_⟩
    cases k with
    | zero => simpa [hzero] using hfirst
    | succ k => simpa using hpath k (Nat.lt_of_succ_lt_succ hk)

/-- A stretch of a path is a chain. -/
theorem chain_of_path {path : Nat → SourceFile}
    (hpath : ∀ k < n, Opens files (path k) (path (k + 1))) (i : Nat) :
    ∀ m, i + m ≤ n → Chain files (path i) m (path (i + m))
  | 0, _ => .root
  | m + 1, hle => .step (chain_of_path hpath i m (by omega)) (hpath (i + m) (by omega))

/-- What a stored file opens is stored under its own name. -/
theorem read_name_of_opens (h : Opens store.read file mid) : store.read mid.name = .ok mid := by
  obtain ⟨target, -, hopen⟩ := h
  rwa [MemoryStore.name_of_read_eq_ok hopen]

theorem name_mem_keys (h : store.read file.name = .ok file) : file.name ∈ store.files.keys := by
  rw [Std.ExtTreeMap.mem_keys, ← Std.ExtTreeMap.isSome_getElem?_iff_mem]
  unfold MemoryStore.read at h
  split at h
  · rename_i hfound
    rw [hfound]
    rfl
  · cases h

/-- **The pigeonhole.**  A chain that is not shorter than the number of stored files meets one of them
    twice. -/
theorem cyclic_of_chain (hroot : store.read root.name = .ok root)
    (hc : Chain store.read root n last) (hn : store.size ≤ n) : Cyclic store.read root := by
  obtain ⟨path, rfl, hpath⟩ := hc.exists_path
  have hstored : ∀ k ≤ n, store.read (path k).name = .ok (path k) := by
    intro k hk
    cases k with
    | zero => exact hroot
    | succ k => exact read_name_of_opens (hpath k hk)
  have hcard : store.files.keys.toFinset.card < (Finset.range (n + 1)).card := by
    have hlength : store.files.keys.length = store.size := Std.ExtTreeMap.length_keys
    have hkeys := List.toFinset_card_le store.files.keys
    rw [Finset.card_range]
    omega
  obtain ⟨i, hi, k, hk, hne, hname⟩ := Finset.exists_ne_map_eq_of_card_lt_of_maps_to hcard
    (f := fun k => (path k).name) fun k hk => by
      have hle : k ≤ n := Nat.lt_succ_iff.mp (Finset.mem_range.mp hk)
      exact List.mem_toFinset.mpr (name_mem_keys (hstored k hle))
  -- Of the two places, take the earlier one first.
  wlog hlt : i < k generalizing i k
  · exact this k hk i hi hne.symm hname.symm (by omega)
  have hle : k ≤ n := Nat.lt_succ_iff.mp (Finset.mem_range.mp hk)
  have hsame : path k = path i := by
    have hread := hstored k hle
    rw [← hname, hstored i (by omega)] at hread
    exact (Except.ok.inj hread).symm
  have hbefore : Chain store.read (path 0) i (path i) := by
    simpa using chain_of_path hpath 0 i (by omega)
  have hround : Chain store.read (path i) (k - i) (path i) := by
    have hstretch := chain_of_path hpath i (k - i) (by omega)
    rwa [Nat.add_sub_cancel' (Nat.le_of_lt hlt), hsame] at hstretch
  exact ⟨i, path i, k - i, hbefore, Nat.sub_pos_of_lt hlt, hround⟩

/-- **The depth limit catches cycles, and only cycles.**  Take files held in memory, one of them as the
    root of an expansion for an owner, and a logger that does not break down.  If some file that includes
    lead to reaches itself again, the expansion ends with an error under every limit.  If the expansion
    goes beyond a limit that is not below the number of files, there is such a cycle.  Under every limit
    the expansion comes to an end as a run that takes no file at a depth beyond the limit. -/
theorem depth_limit_catches_cycles (hsteady : services.logger.Steady)
    (hfiles : services.files = store.read) (hroot : store.read name = .ok root)
    (owner : ResourceId) (ownerName : String) (deps : DependencyMap) (j : Journal) :
    let out (limit : Nat) := (resolveFor owner ownerName limit root).run services deps j
    (Cyclic store.read root → ∀ limit, ∃ error, (out limit).ending = .failed error) ∧
      (∀ limit included bound, store.size ≤ limit →
        (out limit).ending = .failed (.includeDepthExceeded included bound) →
          Cyclic store.read root) ∧
      ∀ limit, ∃ result deepest, Runs store.read limit 0 (.file root) result deepest ∧
        deepest ≤ limit ∧ (out limit).ending = match result with
          | .ok text => .done (String.ofList text)
          | .error error => .failed error := by
  intro out
  have hending (limit : Nat) : (out limit).ending = _ := ending_resolveFor_of_steady hsteady
  refine ⟨fun hcyclic limit => ?_, fun limit included bound hlimit hexceeded => ?_, fun limit => ?_⟩
  · -- No limit lets all chains pass, so there is no text.
    rw [hending, hfiles]
    cases htext : (flatten store.read limit root).text with
    | error error => exact ⟨error, rfl⟩
    | ok code =>
      exact (hcyclic.not_expandable limit (succeeds_expand.mp (succeeds_of_text htext))).elim
  · have hresult : (flatten store.read limit root).result =
        .error (.includeDepthExceeded included bound) := by
      rw [hending, hfiles, Expansion.text] at hexceeded
      cases hr : (flatten store.read limit root).result with
      | error error => rw [hr] at hexceeded; cases hexceeded; rfl
      | ok expanded => rw [hr] at hexceeded; cases hexceeded
    obtain ⟨last, hc, -⟩ := chain_of_exceeded hresult
    refine cyclic_of_chain ?_ hc hlimit
    rwa [MemoryStore.name_of_read_eq_ok hroot]
  · obtain ⟨deepest, hruns⟩ := exists_runs_expand store.read root (Nat.zero_add limit)
    refine ⟨_, deepest, hruns, hruns.deepest_le (Nat.zero_le limit), ?_⟩
    rw [hending, hfiles, Expansion.text, flatten]
    cases (expand store.read limit limit root).result <;> rfl

/-- Two files that include each other, and a third that includes one of them. -/
def pingPong : MemoryStore :=
  ((({} : MemoryStore).insert "Ping" "#include <Pong>".toUTF8).insert "Pong"
    "#include <Ping>".toUTF8).insert "Main" "#include <Ping>\nmain".toUTF8

/-- The expansion of the third file goes beyond a limit of three, so it fails under every limit. -/
theorem depth_limit_catches_cycles_pingPong :
    let main : SourceFile := .ofText "Main" "#include <Ping>\nmain"
    let out (limit : Nat) := (resolveFor .standalone "Main" limit main).run
      { files := pingPong.read } {} {}
    pingPong.size = 3 ∧ (out 3).ending = .failed (.includeDepthExceeded "Pong" 3) ∧
      Cyclic pingPong.read main ∧ ∀ limit, ∃ error, (out limit).ending = .failed error := by
  intro main out
  have hsize : pingPong.size = 3 := by decide +kernel
  have hexceeded : (out 3).ending = .failed (.includeDepthExceeded "Pong" 3) := by decide +kernel
  obtain ⟨hfails, hcycle, -⟩ := @depth_limit_catches_cycles { files := pingPong.read } main "Main"
    pingPong Logger.steady_keeping rfl MemoryStore.read_insert_self .standalone "Main" {} {}
  have hcyclic := hcycle 3 "Pong" 3 hsize.le hexceeded
  exact ⟨hsize, hexceeded, hcyclic, hfails hcyclic⟩

end ShaderKit.Include
