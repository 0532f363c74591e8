import Adapta.Lib.Json

/-!
# Extraction schemas

A project's extraction schema names the fields that are read from each page.  It comes as the
body of a `PATCH` (`ExtractionSchema` of `adapta/models/generated/models.py`), and
`validate_schema` of `adapta/services/extraction.py` checks it before it is stored and again
where it is used.
-/

namespace Adapta.Extraction

open Lib

def maxSchemaProperties : Nat := 20

def needsProperties : String := "extraction_schema needs a non-empty 'properties' object."

def tooManyProperties : String := "extraction_schema allows at most 20 properties."

def propertyNotObject : String := "Each extraction_schema property must be an object."

def titleNotString : String := "extraction_schema 'title' must be a string."

/-- A key that is not blank, with an object. -/
def propertyOk (x : Str × Json) : Bool :=
  match x.2 with
  | .obj _ => strip x.1 ≠ []
  | _ => false

/-- `validate_schema`: the schema, or the message of an `InvalidRequest`. -/
def validateSchema (schema : Json) : Except String Fields :=
  match schema with
  | .obj l =>
      match getField l (str "properties") with
      | some (.obj props) =>
          if props.isEmpty then .error needsProperties
          else if maxSchemaProperties < props.length then .error tooManyProperties
          else if !props.all propertyOk then .error propertyNotObject
          else
            match getField l (str "title") with
            | none | some .null | some (.str _) => .ok l
            | _ => .error titleNotString
      | _ => .error needsProperties
  | _ => .error needsProperties

/-- `list(schema["properties"])`. -/
def schemaKeys (schema : Fields) : List Str :=
  match getField schema (str "properties") with
  | some (.obj props) => props.map Prod.fst
  | _ => []

/-- The schema in the body of an update. -/
structure ExtractionSchema where
  title : Option Str
  properties : List (Str × Fields)
  nodup : (properties.map Prod.fst).Nodup
  one_le : 1 ≤ properties.length
  le_max : properties.length ≤ 20

namespace ExtractionSchema

variable (body : ExtractionSchema)

/-- `model_dump(exclude_none=True)`. -/
def modelDump : Fields :=
  (match body.title with
    | some t => [(str "title", .str t)]
    | none => []) ++
  [(str "properties", .obj (body.properties.map fun x ↦ (x.1, .obj x.2)))]

/-- What `update_project` stores, or the message it raises with. -/
def update : Except String Fields := validateSchema (.obj body.modelDump)

end ExtractionSchema

/-! ## Accepted schemas -/

variable {schema : Json} {l : Fields}

/-- What an accepted schema is. -/
theorem validateSchema_eq_ok (h : validateSchema schema = .ok l) :
    schema = .obj l ∧ ∃ props, getField l (str "properties") = some (.obj props) ∧
      props ≠ [] ∧ props.length ≤ maxSchemaProperties ∧ ∀ x ∈ props, strip x.1 ≠ [] := by
  cases schema with
  | obj l' =>
      simp only [validateSchema] at h
      split at h
      · next props hprops =>
          split_ifs at h with hempty hmany hall
          have hok : l' = l := by
            split at h
            · cases h
              rfl
            · cases h
              rfl
            · cases h
              rfl
            · cases h
          subst hok
          refine ⟨rfl, props, hprops, by simpa using hempty, by omega, fun x hx ↦ ?_⟩
          have hx := List.all_eq_true.mp (by simpa using hall) x hx
          rw [propertyOk] at hx
          split at hx
          · simpa using hx
          · cases hx
      · cases h
  | null => cases h
  | bool b => cases h
  | int n => cases h
  | float x => cases h
  | str s => cases h
  | arr l => cases h

/-- A stored schema is accepted where it is used. -/
theorem validateSchema_of_ok (h : validateSchema schema = .ok l) :
    validateSchema (.obj l) = .ok l := by
  obtain ⟨rfl, -⟩ := validateSchema_eq_ok h
  exact h

/-- A schema with one property. -/
def oneProperty (k : Str) : ExtractionSchema where
  title := none
  properties := [(k, [(str "type", .str (str "string"))])]
  nodup := by simp
  one_le := by simp
  le_max := by simp

end Adapta.Extraction
