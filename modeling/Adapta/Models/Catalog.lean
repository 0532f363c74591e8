import Adapta.Models.Manager

/-!
# The names of a base model

A catalog entry has an operator-facing name and a Hugging Face id, and a project's `base_model`
may be either.  The consumers do not look the string up in one way: `resolve` of
`adapta/core/model_catalog.py` knows both names, `_modality_for` of `api/v1/endpoints.py`
compares it with the names of the entries, and `get_backend` and `ollama_modelfile` use it as a
key of `ollama_model_map`.

The catalog and the settings are parameters.  The fields of an entry that no consumer here
reads (files, licence, notes) are left out.
-/

namespace Adapta.Models

structure CatalogEntry where
  name : String
  hfRepoId : String
  /-- `"text"` or `"vision"`. -/
  modality : String
  chatTemplate : String
deriving DecidableEq, Repr

/-- A catalog whose names and ids are all distinct. -/
structure Catalog where
  entries : List CatalogEntry
  distinct : (entries.map CatalogEntry.name ++ entries.map CatalogEntry.hfRepoId).Nodup

inductive ServingBackend where
  | llamacpp
  | ollama
deriving DecidableEq, Repr

/-- The settings that route a model; the map is keyed by names of the catalog. -/
structure Routing where
  catalog : Catalog
  servingBackend : ServingBackend
  ollamaModelMap : List (String × String)
  keys : ∀ x ∈ ollamaModelMap, x.1 ∈ catalog.entries.map CatalogEntry.name

/-! ## The catalog -/

/-- An index of the entries; a later entry replaces an earlier one under its key. -/
def indexBy (key : CatalogEntry → String) (entries : List CatalogEntry) (s : String) :
    Option CatalogEntry :=
  entries.reverse.find? fun e ↦ key e = s

namespace Catalog

variable (c : Catalog) (baseModel : String)

/-- By name first, then by Hugging Face id. -/
def resolve : Option CatalogEntry :=
  (indexBy CatalogEntry.name c.entries baseModel).or
    (indexBy CatalogEntry.hfRepoId c.entries baseModel)

/-- The name under which the model is served. -/
def resolveServingName : String := ((c.resolve baseModel).map CatalogEntry.name).getD baseModel

/-- `_resolve_serving_name` of the model manager, whose configs are the catalog's. -/
def managerServingName : String :=
  if baseModel ∈ c.entries.map CatalogEntry.name then baseModel else c.resolveServingName baseModel

/-- `_resolve_chat_template`. -/
def chatTemplate : String := ((c.resolve baseModel).map CatalogEntry.chatTemplate).getD "chatml"

/-- `_base_modality`, by which chat accepts images. -/
def baseModality : String := ((c.resolve baseModel).map CatalogEntry.modality).getD "text"

/-- `_modality_for`, which an endpoint's response shows. -/
def modalityFor : String :=
  ((c.entries.find? fun e ↦ e.name = baseModel).map CatalogEntry.modality).getD "text"

/-- The base model that `validate_and_store` writes in an adapter's row. -/
def storedBase : Option String := (c.resolve baseModel).map CatalogEntry.name

end Catalog

/-! ## The routing -/

/-- A registered prompt format. -/
structure ChatTemplate where
  defaultStops : List String
  ollamaTemplate : Option String
deriving DecidableEq, Repr

/-- `_TEMPLATES`. -/
def templates : List (String × ChatTemplate) :=
  [("chatml", ⟨["<|im_end|>", "<|endoftext|>"], none⟩)]

inductive ModelfileExc where
  | invalidRequest (message : String)
  /-- A template that is not registered. -/
  | valueError (name : String)
deriving DecidableEq, Repr

/-- `ollama_directives`. -/
def ollamaDirectives (name : String) : Except ModelfileExc (List String) :=
  match templates.lookup name with
  | none => .error (.valueError name)
  | some t =>
      .ok ((t.ollamaTemplate.map fun s ↦ "TEMPLATE \"\"\"" ++ s ++ "\"\"\"").toList ++
        t.defaultStops.map fun stop ↦ "PARAMETER stop \"" ++ stop ++ "\"")

namespace Routing

variable (r : Routing) (baseModel : String) (adapterPath : Option String)

/-- The tag of a model under `ollama_model_map`. -/
def tag : Option String := r.ollamaModelMap.lookup baseModel

/-- `not adapter_path`. -/
def bare : Bool := adapterPath.all String.isEmpty

/-- `get_backend`. -/
def getBackend : ServingBackend :=
  if r.servingBackend = .ollama ∧ bare adapterPath ∧ (r.tag baseModel).isSome then .ollama
  else .llamacpp

/-- `ollama_modelfile`. -/
def ollamaModelfile : Except ModelfileExc String :=
  match r.tag baseModel, r.catalog.resolve baseModel with
  | some tag, some entry =>
      (ollamaDirectives entry.chatTemplate).map fun directives ↦
        "\n".intercalate (["FROM " ++ tag, "ADAPTER ./adapter.gguf"] ++ directives) ++ "\n"
  | _, _ => .error
      (.invalidRequest ("No Ollama tag is mapped for the base model '" ++ baseModel ++ "'."))

/-- The key of a loaded model. -/
def modelKey : String := cacheKey (r.catalog.managerServingName baseModel) adapterPath

end Routing

/-- The outcome of `ollama_modelfile`; a refusal names the string it was given. -/
inductive Export where
  | modelfile (text : String)
  | refused
  | broken
deriving DecidableEq, Repr

def outcome : Except ModelfileExc String → Export
  | .ok text => .modelfile text
  | .error (.invalidRequest _) => .refused
  | .error (.valueError _) => .broken

/-- The consumers other than `ollama_modelfile` treat two names of a base model alike. -/
structure SameModel (r : Routing) (adapterPath : Option String) (s t : String) : Prop where
  backend : r.getBackend s adapterPath = r.getBackend t adapterPath
  template : r.catalog.chatTemplate s = r.catalog.chatTemplate t
  cacheKey : r.modelKey s adapterPath = r.modelKey t adapterPath
  lock : ∀ m : Manager,
    m.getInferenceLock (r.modelKey s adapterPath) = m.getInferenceLock (r.modelKey t adapterPath)
  modality : ∀ x ∈ [s, t], r.catalog.modalityFor x = r.catalog.baseModality x

/-- And so does `ollama_modelfile`. -/
def SameModelfile (r : Routing) (s t : String) : Prop :=
  outcome (r.ollamaModelfile s) = outcome (r.ollamaModelfile t)

/-- And so does the export of the adapters of a project. -/
def SameExport (r : Routing) (s t : String) : Prop :=
  (r.catalog.storedBase s).map (fun base ↦ r.ollamaModelfile base) =
    (r.catalog.storedBase t).map fun base ↦ r.ollamaModelfile base

/-! ## Both names -/

section Names

variable {c : Catalog} {r : Routing} {e : CatalogEntry} {adapterPath : Option String}

/-- A search by distinct keys finds every entry under its own. -/
theorem find_key {key : CatalogEntry → String} {l : List CatalogEntry} (h : (l.map key).Nodup)
    (he : e ∈ l) : (l.find? fun x ↦ key x = key e) = some e := by
  cases hfind : l.find? fun x ↦ key x = key e with
  | none =>
      rw [List.find?_eq_none] at hfind
      exact absurd (decide_eq_true rfl) (hfind e he)
  | some x =>
      have hkey := List.find?_some hfind
      rw [List.inj_on_of_nodup_map h (List.mem_of_find?_eq_some hfind) he (of_decide_eq_true hkey)]

theorem find_key_eq_none {key : CatalogEntry → String} {l : List CatalogEntry} {s : String}
    (h : s ∉ l.map key) : (l.find? fun x ↦ key x = s) = none := by
  rw [List.find?_eq_none]
  intro x hx hkey
  exact h (of_decide_eq_true hkey ▸ List.mem_map_of_mem hx)

theorem indexBy_key {key : CatalogEntry → String} {entries : List CatalogEntry}
    (h : (entries.map key).Nodup) (he : e ∈ entries) : indexBy key entries (key e) = some e := by
  apply find_key
  · rw [List.map_reverse]
    exact List.nodup_reverse.mpr h
  · exact List.mem_reverse.mpr he

theorem indexBy_eq_none {key : CatalogEntry → String} {entries : List CatalogEntry} {s : String}
    (h : s ∉ entries.map key) : indexBy key entries s = none := by
  apply find_key_eq_none
  rwa [List.map_reverse, List.mem_reverse]

/-- An id is no name. -/
theorem Catalog.hfRepoId_not_mem (he : e ∈ c.entries) :
    e.hfRepoId ∉ c.entries.map CatalogEntry.name := by
  intro hmem
  have hdisj := (List.nodup_append.mp c.distinct).2.2
  exact hdisj _ hmem _ (List.mem_map_of_mem he) rfl

theorem Catalog.resolve_name (he : e ∈ c.entries) : c.resolve e.name = some e := by
  rw [resolve, indexBy_key (List.nodup_append.mp c.distinct).1 he, Option.some_or]

theorem Catalog.resolve_hfRepoId (he : e ∈ c.entries) : c.resolve e.hfRepoId = some e := by
  rw [resolve, indexBy_eq_none (hfRepoId_not_mem he), Option.none_or,
    indexBy_key (List.nodup_append.mp c.distinct).2.1 he]

theorem Catalog.managerServingName_both (he : e ∈ c.entries) :
    c.managerServingName e.name = e.name ∧ c.managerServingName e.hfRepoId = e.name := by
  constructor
  · rw [managerServingName, if_pos (List.mem_map_of_mem he)]
  · rw [managerServingName, if_neg (hfRepoId_not_mem he), resolveServingName, resolve_hfRepoId he]
    rfl

/-- The names of the entries do not tell the modality of an id. -/
theorem Catalog.modalityFor_hfRepoId (he : e ∈ c.entries) :
    c.modalityFor e.hfRepoId = "text" := by
  rw [modalityFor, find_key_eq_none (hfRepoId_not_mem he)]
  rfl

theorem Catalog.modalityFor_name (he : e ∈ c.entries) : c.modalityFor e.name = e.modality := by
  rw [modalityFor, find_key (List.nodup_append.mp c.distinct).1 he]
  rfl

/-- No tag is mapped for an id. -/
theorem Routing.tag_hfRepoId (he : e ∈ r.catalog.entries) : r.tag e.hfRepoId = none := by
  rw [tag, List.lookup_eq_none_iff]
  intro x hx
  have hkey := r.keys x hx
  rw [bne_iff_ne]
  intro heq
  exact Catalog.hfRepoId_not_mem he (heq ▸ hkey)

/-- The consumers that resolve the string, and those that take it as a key. -/
theorem sameModel_iff (he : e ∈ r.catalog.entries) :
    SameModel r adapterPath e.name e.hfRepoId ↔
      ¬(r.servingBackend = .ollama ∧ Routing.bare adapterPath ∧ (r.tag e.name).isSome) ∧
        e.modality = "text" := by
  have hname := Catalog.resolve_name he
  have hid := Catalog.resolve_hfRepoId he
  have hbackend : r.getBackend e.hfRepoId adapterPath = .llamacpp := by
    simp [Routing.getBackend, Routing.tag_hfRepoId he]
  have hkey : r.modelKey e.name adapterPath = r.modelKey e.hfRepoId adapterPath := by
    rw [Routing.modelKey, Routing.modelKey, (Catalog.managerServingName_both he).1,
      (Catalog.managerServingName_both he).2]
  constructor
  · intro h
    constructor
    · intro hollama
      have hsame := h.backend
      rw [hbackend, Routing.getBackend, if_pos hollama] at hsame
      cases hsame
    · have hshown := h.modality e.hfRepoId (by simp)
      rw [Catalog.modalityFor_hfRepoId he, Catalog.baseModality, hid] at hshown
      exact hshown.symm
  · rintro ⟨hollama, htext⟩
    refine ⟨?_, ?_, hkey, fun m ↦ by rw [hkey], ?_⟩
    · rw [hbackend, Routing.getBackend, if_neg hollama]
    · rw [Catalog.chatTemplate, Catalog.chatTemplate, hname, hid]
    · intro x hx
      simp only [List.mem_cons, List.not_mem_nil, or_false] at hx
      rcases hx with rfl | rfl
      · rw [Catalog.modalityFor_name he, Catalog.baseModality, hname]
        rfl
      · rw [Catalog.modalityFor_hfRepoId he, Catalog.baseModality, hid]
        exact htext.symm

/-- The directives fail for a template that is not registered. -/
theorem ollamaDirectives_error {name : String} {exc : ModelfileExc}
    (h : ollamaDirectives name = .error exc) : exc = .valueError name := by
  rw [ollamaDirectives] at h
  split at h
  · exact (Except.error.inj h).symm
  · cases h

/-- The two strings have the same outcome if both are refused. -/
theorem sameModelfile_iff (he : e ∈ r.catalog.entries) :
    SameModelfile r e.name e.hfRepoId ↔ r.tag e.name = none := by
  have hid : outcome (r.ollamaModelfile e.hfRepoId) = .refused := by
    rw [Routing.ollamaModelfile, Routing.tag_hfRepoId he]
    rfl
  rw [SameModelfile, hid]
  cases htag : r.tag e.name with
  | none => simp [Routing.ollamaModelfile, htag, outcome]
  | some tag =>
      simp only [Routing.ollamaModelfile, htag, Catalog.resolve_name he, reduceCtorEq, iff_false]
      cases hd : ollamaDirectives e.chatTemplate with
      | error exc =>
          obtain rfl := ollamaDirectives_error hd
          exact Export.noConfusion
      | ok directives => exact Export.noConfusion

/-- The row of an adapter has the entry's name, whichever name the project has. -/
theorem sameExport_both (he : e ∈ r.catalog.entries) : SameExport r e.name e.hfRepoId := by
  rw [SameExport, Catalog.storedBase, Catalog.storedBase, Catalog.resolve_name he,
    Catalog.resolve_hfRepoId he]

/-- **When both names of a base model mean the same model**: by every consumer given the
string, and by every consumer as a project reaches it. -/
theorem sameNames_iff (r : Routing) (adapterPath : Option String) (e : CatalogEntry)
    (he : e ∈ r.catalog.entries) :
    (SameModel r adapterPath e.name e.hfRepoId ∧ SameModelfile r e.name e.hfRepoId ↔
      r.tag e.name = none ∧ e.modality = "text") ∧
    (SameModel r adapterPath e.name e.hfRepoId ∧ SameExport r e.name e.hfRepoId ↔
      ¬(r.servingBackend = .ollama ∧ Routing.bare adapterPath ∧ (r.tag e.name).isSome) ∧
        e.modality = "text") := by
  rw [sameModelfile_iff he, sameModel_iff he]
  refine ⟨?_, and_iff_left (sameExport_both he)⟩
  constructor
  · rintro ⟨⟨-, htext⟩, htag⟩
    exact ⟨htag, htext⟩
  · rintro ⟨htag, htext⟩
    exact ⟨⟨by simp [htag], htext⟩, htag⟩

end Names

/-! ## The catalog of the repository -/

/-- An entry of the catalog, all of which have the default template. -/
def entry (name hfRepoId modality : String) : CatalogEntry := ⟨name, hfRepoId, modality, "chatml"⟩

/-- `_ENTRIES`. -/
def repoCatalog : Catalog where
  entries :=
    [entry "qwen2.5-0.5b-instruct" "Qwen/Qwen2.5-0.5B-Instruct" "text",
      entry "qwen2.5-1.5b-instruct" "Qwen/Qwen2.5-1.5B-Instruct" "text",
      entry "qwen2.5-3b-instruct" "Qwen/Qwen2.5-3B-Instruct" "text",
      entry "qwen2.5-coder-3b" "Qwen/Qwen2.5-Coder-3B-Instruct" "text",
      entry "qwen2.5-7b-instruct" "Qwen/Qwen2.5-7B-Instruct" "text",
      entry "qwen2.5-vl-3b-instruct" "Qwen/Qwen2.5-VL-3B-Instruct" "vision",
      entry "qwen2.5-vl-7b-instruct" "Qwen/Qwen2.5-VL-7B-Instruct" "vision"]
  distinct := by decide

/-- The default map, with either backend. -/
def repoRouting (backend : ServingBackend) : Routing where
  catalog := repoCatalog
  servingBackend := backend
  ollamaModelMap :=
    [("qwen2.5-0.5b-instruct", "qwen2.5:0.5b-instruct"),
      ("qwen2.5-1.5b-instruct", "qwen2.5:1.5b-instruct"),
      ("qwen2.5-7b-instruct", "qwen2.5:7b-instruct")]
  keys := by decide

/-- `sameNames_iff` at a text model without a tag. -/
theorem sameNames_coder :
    SameModel (repoRouting .ollama) none "qwen2.5-coder-3b" "Qwen/Qwen2.5-Coder-3B-Instruct" ∧
      SameModelfile (repoRouting .ollama) "qwen2.5-coder-3b" "Qwen/Qwen2.5-Coder-3B-Instruct" :=
  (sameNames_iff (repoRouting .ollama) none
    (entry "qwen2.5-coder-3b" "Qwen/Qwen2.5-Coder-3B-Instruct" "text")
    (by decide)).1.mpr ⟨by decide, rfl⟩

/-- The id of a mapped model goes to another backend, and has no Modelfile; the id of a vision
model is shown as text. -/
theorem names_differ :
    ((repoRouting .ollama).getBackend "qwen2.5-1.5b-instruct" none = .ollama ∧
      (repoRouting .ollama).getBackend "Qwen/Qwen2.5-1.5B-Instruct" none = .llamacpp ∧
      ¬SameModel (repoRouting .ollama) none "qwen2.5-1.5b-instruct"
        "Qwen/Qwen2.5-1.5B-Instruct") ∧
    ¬SameModelfile (repoRouting .ollama) "qwen2.5-1.5b-instruct" "Qwen/Qwen2.5-1.5B-Instruct" ∧
    repoCatalog.modalityFor "Qwen/Qwen2.5-VL-7B-Instruct" = "text" ∧
      repoCatalog.baseModality "Qwen/Qwen2.5-VL-7B-Instruct" = "vision" ∧
      ¬SameModel (repoRouting .llamacpp) none "qwen2.5-vl-7b-instruct"
        "Qwen/Qwen2.5-VL-7B-Instruct" := by
  have hmapped : entry "qwen2.5-1.5b-instruct" "Qwen/Qwen2.5-1.5B-Instruct" "text" ∈
      (repoRouting .ollama).catalog.entries := by decide
  refine ⟨⟨by decide, by decide, ?_⟩, ?_, by decide, by decide, ?_⟩
  · intro h
    have hbackend := h.backend
    revert hbackend
    decide
  · intro h
    have htag := (sameModelfile_iff hmapped).mp h
    revert htag
    decide
  · intro h
    have hmodality := h.modality "Qwen/Qwen2.5-VL-7B-Instruct" (by simp)
    revert hmodality
    decide

end Adapta.Models
