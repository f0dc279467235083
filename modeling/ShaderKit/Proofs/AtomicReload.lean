import ShaderKit.Proofs.Outcomes

namespace ShaderKit.Cache

/-!
# A reload that fails changes nothing

A reload clears the dependencies of a shader before it loads, and the load registers files one by one
until something is missing.  In the end it is as if nothing had happened:

* `WellMade.reload_failed`    — a well made cache is the same after a reload that fails
* `reload_failed_unchanged`   — so is every cache that calls lead to, also after breakdowns

The cache is compared as a whole: texts, memory figures, variations with their compile states, the
dependencies of every resource and the ledger.
-/

variable {services : Services} {j : Journal} {cache : Cache} {id : ResourceId} {error : Error}

theorem WellMade.reload_failed (h : cache.WellMade)
    (hf : ((reload id).run services cache j).ending = .failed error) :
    ((reload id).run services cache j).state = cache := by
  have hr : Reloaded services cache id ((reload id).run services cache j).ending
      ((reload id).run services cache j).state := ensures_reload h
  rw [hf] at hr
  exact hr.eq_of_failed

/-- **A failed reload is atomic.**  Whatever a cache of shaders was asked for before, by callers of
    the cache, of its shaders, of their variations and of its books, and however that ended: a reload
    that ends with an error leaves the cache as it was. -/
theorem reload_failed_unchanged {config : Config} {graphics : Bool}
    {fingerprint : String → Fingerprint}
    (h : Reached (fun _ _ => True) (ofShaders config graphics fingerprint) cache)
    (id : ResourceId) (services : Services) (j : Journal)
    (hf : ((reload id).run services cache j).ending = .failed error) :
    ((reload id).run services cache j).state = cache :=
  (h.wellMade (wellMade_ofShaders config graphics fingerprint)).reload_failed hf

/-- Three files, each of which includes the next. -/
def nestedFiles : MemoryStore :=
  ((({} : MemoryStore).insert "a" "#include \"b\"\nvoid VS();\nvoid PS();\n".toUTF8).insert
    "b" "#include \"c\"\n".toUTF8).insert "c" "float x;".toUTF8

/-- A shader that was loaded from nested files and has a compiled variation. -/
def nestedCache : Cache :=
  let services : Services := { files := nestedFiles.read }
  let loaded := (Call.mk (.request { typeName := Shader.typeName, name := "a" }) services {}).next
    (ofShaders {} true fun _ => {})
  (Call.mk (.onShader (.slot 1 1) (.prepare .vertex "")) services {}).next loaded

/-- The innermost file is gone, so the reload fails two levels down, after it has registered the
    file in between. -/
theorem reload_failed_unchanged_nested :
    let out := (reload (.slot 1 1)).run { files := (nestedFiles.erase "c").read } nestedCache {}
    out.ending = .failed (.includeNotFound "c" "b") ∧ out.state = nestedCache ∧
      nestedCache.books.dependencies.dependenciesOf (.slot 1 1) = ["b", "c"] := by
  have hf : ((reload (.slot 1 1)).run { files := (nestedFiles.erase "c").read }
      nestedCache {}).ending = .failed (.includeNotFound "c" "b") := by decide +kernel
  have hreached : Reached (fun _ _ => True) (ofShaders {} true fun _ => {}) nestedCache :=
    .call (.call .start _ trivial) _ trivial
  exact ⟨hf, reload_failed_unchanged hreached _ _ _ hf, by decide +kernel⟩

end ShaderKit.Cache
